import Mathlib.Data.List.Basic
import QueryScope.Proofs.CapitalBlocks

/-!
# Queries in capitals

A query in capitals has the scopes of the query in capitals. Its code has parentheses at the same
places, so there are the same subqueries, with aliases in capitals, and the outlines are drawn alike.
Masking puts placeholders at the same places, and the blocks that it leaves are taken apart as blocks
in capitals are. The only condition is that the query has no text that looks like a placeholder, because
the count of placeholders is the one comparison that minds the case of letters.
-/

namespace QueryScope

open Byte Bytes

/-! ## Subqueries -/

/-- The first word at the beginning of a text is a text that something may follow. -/
theorem Word.aligned_of_next? {code : Bytes} {offset : Nat} {word : Word}
    (spells : IsText (code.drop offset)) (met : next? code offset = some word) :
    Aligned word.spelling := by
  obtain ⟨blanks, behind, split, blank, _⟩ := split_of_next?_eq_some met
  rw [split] at spells
  have isText : IsText blanks :=
    isText_of_ascii fun byte member => ascii_of_blank (blank byte member)
  exact ⟨behind, isText.of_append spells⟩

namespace Subquery

/-- A subquery in capitals. -/
def capitals (subquery : Subquery) : Subquery :=
  { subquery with aliasName := subquery.aliasName.map Text.upper }

variable {code : Bytes} {offset : Nat}

/-- An alias may end at the same places in capitals. -/
theorem aliasMayEnd_map_upper (spells : IsText (code.drop offset)) :
    aliasMayEnd (code.map upper) offset = aliasMayEnd code offset := by
  have follows : ((Word.next? code offset).map Word.capitals).any
      (fun word => aliasFollowers.any word.is) =
        (Word.next? code offset).any fun word => aliasFollowers.any word.is := by
    rw [Option.any_map]
    congr 1
    funext word
    exact congrArg aliasFollowers.any (funext word.is_capitals)
  have ahead : Text.dropLeadingBlanks (decode ((code.map upper).drop offset)) =
      (Text.dropLeadingBlanks (decode (code.drop offset))).map Char.toUpper := by
    rw [← List.map_drop, spells.aligned.decode_map_upper, Text.dropLeadingBlanks,
      List.dropWhile_map, Text.isBlank_comp_toUpper, Text.dropLeadingBlanks]
  cases next : Text.dropLeadingBlanks (decode (code.drop offset)) with
  | nil =>
    rw [next] at ahead
    rw [aliasMayEnd_of_nil ahead, aliasMayEnd_of_nil next]
  | cons character others =>
    rw [next, List.map_cons] at ahead
    rw [aliasMayEnd_of_cons ahead, aliasMayEnd_of_cons next, Word.next?_map_upper, follows,
      Text.beq_toUpper (by decide : ','.isAlpha = false),
      Text.beq_toUpper (by decide : ')'.isAlpha = false),
      Text.beq_toUpper (by decide : ';'.isAlpha = false)]

/-- The alias at the beginning of a text is read in capitals. -/
theorem aliasAt?_map_upper (spells : IsText code) (begins : IsText (code.drop offset)) :
    aliasAt? (code.map upper) offset = (aliasAt? code offset).map Text.upper := by
  have named {start : Nat} {word : Word} (spelled : IsText (code.drop start))
      (met : Word.next? code start = some word) :
      (if (!Word.isReserved (Bytes.text word.capitals.spelling) &&
          aliasMayEnd (code.map upper) word.capitals.span.stop) = true then
        some (Bytes.text word.capitals.spelling) else none) =
      (if (!Word.isReserved (Bytes.text word.spelling) && aliasMayEnd code word.span.stop) = true then
        some (Bytes.text word.spelling) else none).map Text.upper := by
    have name : Bytes.text word.capitals.spelling = Text.upper (Bytes.text word.spelling) :=
      (Word.aligned_of_next? spelled met).text_map_upper
    have ends : aliasMayEnd (code.map upper) word.capitals.span.stop =
        aliasMayEnd code word.span.stop := by
      have behind := Window.isText_drop_of_next? spells met
      exact aliasMayEnd_map_upper behind
    rw [name, ends, Word.isReserved_upper]
    split <;> rfl
  simp only [aliasAt?_eq, Word.next?_map_upper]
  cases first : Word.next? code offset with
  | none => rfl
  | some word =>
    simp only [Option.map_some, Option.bind_some, Word.is_capitals]
    by_cases explicit : word.is "AS" = true
    · simp only [explicit, if_true]
      cases second : Word.next? code word.span.stop with
      | none => simp [Word.capitals, second]
      | some name =>
        have spelled := Window.isText_drop_of_next? spells first
        simpa [Word.capitals, second] using named spelled second
    · simp only [explicit, Bool.false_eq_true, if_false]
      exact named begins first

/-- The subqueries of code in capitals. -/
theorem value_all_map_upper (spells : IsText code) :
    (all (code.map upper)).value = (all code).value.map capitals := by
  rw [value_all, value_all, pairs_map_upper, List.map_filterMap]
  apply List.filterMap_congr
  intro pair member
  have matching := (Parentheses.mem_pairs_iff code pair.1 pair.2).mp member
  have behind := CutAt.behind_ascii spells matching.closes (by decide)
  rw [value_ofPair, value_ofPair, value_trim_map_upper, Word.nextIs_map_upper,
    aliasAt?_map_upper spells behind.back]
  split <;> rfl

end Subquery

/-! ## Outlines -/

namespace Outline

/-- The same subqueries are around an offset in capitals, at the same positions in the list. Only
their spans are asked for, and these stay. -/
theorem around_map_capitals (subqueries : List Subquery) (offset : Nat) :
    around (subqueries.map Subquery.capitals) offset =
      (around subqueries offset).map (Prod.map Subquery.capitals id) := by
  rw [around, List.zipIdx_map, List.filter_map]
  rfl

/-- The outlines are drawn in capitals. -/
theorem all_map_capitals (length : Nat) (subqueries : List Subquery) :
    all length (subqueries.map Subquery.capitals) = (all length subqueries).map capitals := by
  have one (candidate : Subquery × Nat) :
      ofSubquery (subqueries.map Subquery.capitals) candidate.1.capitals candidate.2 =
        (ofSubquery subqueries candidate.1 candidate.2).capitals := by
    have sameSpan : candidate.1.capitals.span = candidate.1.span := rfl
    have sameLength (other : Subquery × Nat) :
        (Prod.map Subquery.capitals id other).1.span.length = other.1.span.length := rfl
    simp only [ofSubquery, parentOf, sameSpan, around_map_capitals, List.length_map,
      Nesting.shortest?_map_of_length sameLength, Option.map_map]
    rfl
  rw [all, all, List.zipIdx_map, List.map_cons, List.map_map, List.map_map]
  exact congrArg (main length :: ·) (List.map_congr_left fun candidate _ => one candidate)

/-- The children of a scope are the same in capitals, as the parent of an outline stays. -/
theorem childrenOf_map_capitals (outlines : List Outline) (index : Nat) :
    childrenOf (outlines.map capitals) index = (childrenOf outlines index).map capitals := by
  rw [childrenOf, List.filter_map]
  rfl

end Outline

/-! ## Masking -/

namespace Masked

/-- Masking in capitals. -/
theorem value_maskFrom_map_upper (text code : Bytes) (stop cursor : Nat)
    (children : List (Span × Nat)) :
    (maskFrom (text.map upper) (code.map upper) stop cursor children).value =
      (maskFrom text code stop cursor children).value.capitals := by
  induction children generalizing cursor with
  | nil => simp only [maskFrom, Checked.value_bind, Checked.value_pure, Bytes.cut, extract_map_upper,
      capitals]
  | cons child others inductionHypothesis =>
    rcases Nat.lt_or_ge child.1.start cursor with overlaps | ahead
    · rw [maskFrom_cons_of_lt _ _ stop cursor others overlaps,
        maskFrom_cons_of_lt _ _ stop cursor others overlaps, inductionHypothesis]
    · rw [value_maskFrom_cons _ _ stop cursor others ahead,
        value_maskFrom_cons _ _ stop cursor others ahead]
      simp only [inductionHypothesis, capitals, extract_map_upper, List.map_append,
        Placeholder.map_upper_bytes]

end Masked

/-! ## Queries -/

section

variable (query : String)

/-- The code of a query in capitals is its code in capitals. -/
theorem codeOf_upper : codeOf (Text.upper query) = (codeOf query).map upper := by
  rw [codeOf, codeOf, ofString_upper, codeView_map_upper]

/-- The subqueries of a query in capitals are its subqueries in capitals: the same spans, and the
same aliases in capitals. -/
theorem subqueriesOf_upper :
    subqueriesOf (Text.upper query) = (subqueriesOf query).map Subquery.capitals := by
  rw [subqueriesOf, codeOf_upper]
  exact Subquery.value_all_map_upper (DerivedLinks.legible_codeOf query).spells

/-- The outlines of a query in capitals are its outlines in capitals. Levels and parents are told by
spans alone. -/
theorem outlinesOf_upper :
    outlinesOf (Text.upper query) = (outlinesOf query).map Outline.capitals := by
  rw [outlinesOf, subqueriesOf_upper, ofString_upper, List.length_map, Outline.all_map_capitals]
  rfl

/-- The children of a scope of a query in capitals are its children in capitals. -/
theorem childrenIn_upper (outline : Outline) :
    childrenIn (Text.upper query) outline.capitals =
      (childrenIn query outline).map Outline.capitals := by
  rw [childrenIn, outlinesOf_upper, Outline.childrenOf_map_capitals]
  rfl

/-- The masked block of a scope in capitals is the masked block in capitals. The same children are
replaced, and a placeholder is its own capitals. -/
theorem maskedOf_upper (outline : Outline) :
    maskedOf (Text.upper query) outline.capitals = (maskedOf query outline).capitals := by
  rw [maskedOf, childrenIn_upper, ofString_upper, codeOf_upper, List.map_map]
  exact Masked.value_maskFrom_map_upper _ _ _ _ _

end

variable {query : String} {outline : Outline}

/-- The code of a query has its byte or a space at every place. -/
theorem veiled_codeOf (query : String) : Veiled (codeOf query) (ofString query) where
  veils := Veiled.veils_codeView _
  inText := ⟨[], [], by rw [List.append_nil]; exact isText_encoded _⟩

/-- The content of a scope in capitals. -/
theorem value_content_upper (member : outline ∈ outlinesOf query) :
    (outline.capitals.content (ofString (Text.upper query))).value =
      Text.upper (outline.content (ofString query)).value := by
  rw [ofString_upper]
  rcases main_or_subquery_of_mem member with rfl | ⟨subquery, found, position, rfl⟩
  · exact (isText_encoded query.toList).aligned.text_map_upper
  · obtain ⟨opening, closing, same, matching⟩ := SubquerySpans.exists_matches_of_mem_all found
    have aligned : Aligned ((ofString query).extract (subquery.span.start + 1)
        (subquery.span.stop - 1)) := by
      rw [same]
      exact (veiled_codeOf query).aligned_behind matching.opens (by decide) (by decide) _
    rw [Outline.value_content rfl, Outline.value_content rfl]
    simp only [Outline.capitals, Outline.ofSubquery]
    rw [extract_map_upper, aligned.text_map_upper, Text.trim_upper]

/-- A block of a query without placeholders is regular. -/
theorem regular_maskedOf (free : Placeholder.Free (codeOf query))
    (member : outline ∈ outlinesOf query) : (maskedOf query outline).Regular where
  legible := DerivedLinks.legible_maskedOf member
  veiled := ⟨Masked.forall₂_maskFrom (fun _ => .inl rfl) (Veiled.veils_codeView _) _ _ _,
    (Noninterference.textOf_maskedOf member).inText⟩
  inCapitals := Masked.inCapitals_maskFrom free _ _ _

/-- A scope of a query in capitals. -/
theorem scopeOf_upper (free : Placeholder.Free (codeOf query)) (member : outline ∈ outlinesOf query) :
    scopeOf (Text.upper query) outline.capitals = (scopeOf query outline).capitals := by
  rw [scopeOf_eq_assemble, scopeOf_eq_assemble, value_content_upper member, childrenIn_upper,
    maskedOf_upper]
  exact Outline.assemble_capitals _ _ _ (regular_maskedOf free member)

/-- The scopes of a query in capitals are the scopes of the query in capitals, when the query has no
text that looks like a placeholder. -/
theorem extract_upper (query : String) (free : Placeholder.Free (codeOf query)) :
    extract (Text.upper query) = (extract query).map Scope.capitals := by
  rw [extract_eq_map, extract_eq_map, outlinesOf_upper, List.map_map, List.map_map]
  exact List.map_congr_left fun outline member => scopeOf_upper free member

/-- A query with letters in both cases, some of them between quotes and some outside ASCII. -/
def mixedCase : String := "select D.\"é x\" from (select a \"é x\" from s . t Q) d, \"ß\""

/-- Quoted names are put in capitals as well, and a letter outside ASCII is left as it is. -/
theorem extract_upper_mixedCase :
    Placeholder.Free (codeOf mixedCase) ∧
      extract (Text.upper mixedCase) = (extract mixedCase).map Scope.capitals ∧
      (extract (Text.upper mixedCase)).map (fun scope => (scope.exposedColumns, scope.tables)) =
        [(["é X"], [⟨none, none, some "D", true, some 1⟩, ⟨none, some "ß", none, false, none⟩]),
          (["é X"], [⟨some "S", some "T", some "Q", false, none⟩])] := by
  have free : Placeholder.Free (codeOf mixedCase) := by decide +kernel
  refine ⟨free, extract_upper mixedCase free, ?_⟩
  decide +kernel

end QueryScope

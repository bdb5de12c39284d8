import Mathlib.Data.List.DropRight
import QueryScope.Proofs.CodeView
import QueryScope.Proofs.Outlines
import QueryScope.Proofs.Window

/-!
# Where the subqueries of a query stand

The scopes behind the main query are found by a scan with a stack. Their spans can be described
without it: they are the pairs of matching parentheses whose contents begin with `SELECT`, in
the order of closing. A parenthesis without a partner has no influence on them: with a blank in
its place every span is the same.
-/

namespace QueryScope.SubquerySpans

open Parentheses

/-- Whether the first word of a code, behind blanks, is `SELECT` in any case. -/
def beginsWithSelect (code : Bytes) : Bool :=
  Bytes.sameIgnoringCase ((code.dropWhile Byte.isBlank).takeWhile Byte.isWordByte)
    (Bytes.ofString "SELECT")

/-- A byte whose capital form is `S` begins a word. -/
theorem startsWord_of_upper_eq {byte : UInt8} (capital : Byte.upper byte = 0x53) :
    Byte.startsWord byte = true := by
  rcases Byte.eq_or_eq_of_upper_eq capital with rfl | rfl <;> decide

/-- The word at an offset is `SELECT` when the run of word bytes there is. -/
theorem nextIs_select (code : Bytes) (offset : Nat) :
    Word.nextIs code offset "SELECT" = beginsWithSelect (code.drop offset) := by
  simp only [Word.nextIs, Word.next?_eq_ahead?, Word.ahead?, beginsWithSelect]
  cases run : ((code.drop offset).dropWhile Byte.isBlank).takeWhile Byte.isWordByte with
  | nil =>
    simp only [Option.any_none]
    decide
  | cons first others =>
    by_cases starts : Byte.startsWord first = true
    · simp only [starts, if_true, Option.any_some, Word.is]
    · simp only [starts, Option.any_none, Bool.false_eq_true, if_false]
      have differs : Byte.upper first ≠ 0x53 := fun capital => starts (startsWord_of_upper_eq capital)
      have spelled : Bytes.ofString "SELECT" = [0x53, 0x45, 0x4C, 0x45, 0x43, 0x54] := by decide
      have capital : Byte.upper 0x53 = 0x53 := by decide
      rw [Bytes.sameIgnoringCase, spelled, List.map_cons, List.map_cons, capital]
      simp [differs]

/-- The subquery of two matching parentheses is there when their contents begin with `SELECT`, and
it spans from one parenthesis to the other. -/
theorem span_ofPair {code : Bytes} {opening closing : Nat}
    (matching : Matches code opening closing) :
    ((Subquery.ofPair code (opening, closing)).value).map (·.span) =
      if beginsWithSelect (code.extract (opening + 1) closing) then
        some ⟨opening, closing + 1⟩
      else none := by
  obtain ⟨before, inside, behind, rfl, _, rfl, rfl⟩ := (matches_iff_split _ _ _).mp matching
  have front : before ++ Byte.openParen :: (inside ++ Byte.closeParen :: behind) =
      (before ++ [Byte.openParen]) ++ (inside ++ Byte.closeParen :: behind) := by simp
  have frontLength : (before ++ [Byte.openParen]).length = before.length + 1 := by simp
  have contents : (before ++ Byte.openParen :: (inside ++ Byte.closeParen :: behind)).extract
      (before.length + 1) (before.length + 1 + inside.length) = inside := by
    have cut := Window.extract_window (before ++ [Byte.openParen]) inside
      (Byte.closeParen :: behind) 0 (Nat.le_refl inside.length)
    rw [← front, frontLength] at cut
    have whole : inside.extract 0 inside.length = inside := by
      rw [List.extract_eq_take_drop, List.drop_zero, Nat.sub_zero, List.take_length]
    rwa [Nat.add_zero, whole] at cut
  have start : (Bytes.trim (before ++ Byte.openParen :: (inside ++ Byte.closeParen :: behind))
      ⟨before.length + 1, before.length + 1 + inside.length⟩).value.start =
        before.length + 1 + Bytes.leading inside := by
    have ended : before.length + 1 + inside.length ≤
        (before ++ Byte.openParen :: (inside ++ Byte.closeParen :: behind)).length := by
      simp only [List.length_append, List.length_cons]
      omega
    rw [Bytes.value_trim ended, contents]
  have selects : Word.nextIs (before ++ Byte.openParen :: (inside ++ Byte.closeParen :: behind))
      (before.length + 1 + Bytes.leading inside) "SELECT" = beginsWithSelect inside := by
    have within : Bytes.leading inside ≤ inside.length :=
      (List.takeWhile_prefix Byte.isBlank).length_le
    rw [front, ← frontLength, Window.nextIs_window _ inside behind within, nextIs_select]
    rw [Bytes.drop_leading, beginsWithSelect, beginsWithSelect, List.dropWhile_idempotent]
  rw [Subquery.value_ofPair, start, selects, contents]
  split <;> rfl

/-- The spans of the subqueries are read off the pairs of matching parentheses. -/
theorem spans_all (code : Bytes) :
    ((Subquery.all code).value).map (·.span) =
      (Subquery.pairs code).filterMap fun pair =>
        if beginsWithSelect (code.extract (pair.1 + 1) pair.2) then some ⟨pair.1, pair.2 + 1⟩
        else none := by
  rw [Subquery.value_all, List.map_filterMap]
  refine List.filterMap_congr ?_
  intro pair found
  exact span_ofPair ((mem_pairs_iff code pair.1 pair.2).mp found)

/-- A span is that of a subquery exactly when it runs from a parenthesis to the one that matches it
and what they enclose begins with `SELECT`. -/
theorem mem_spans_all_iff (code : Bytes) (span : Span) :
    span ∈ ((Subquery.all code).value).map (·.span) ↔
      ∃ opening closing, span = ⟨opening, closing + 1⟩ ∧ Matches code opening closing ∧
        beginsWithSelect (code.extract (opening + 1) closing) = true := by
  rw [spans_all, List.mem_filterMap]
  constructor
  · rintro ⟨⟨opening, closing⟩, found, selected⟩
    simp only [Option.ite_none_right_eq_some, Option.some.injEq] at selected
    exact ⟨opening, closing, selected.2.symm, (mem_pairs_iff code opening closing).mp found,
      selected.1⟩
  · rintro ⟨opening, closing, rfl, matching, selects⟩
    exact ⟨(opening, closing), (mem_pairs_iff code opening closing).mpr matching, by simp [selects]⟩

/-- Where the subquery that a pair encloses stands, and its content. -/
theorem place_of_ofPair {code : Bytes} {pair : Nat × Nat} {subquery : Subquery}
    (made : (Subquery.ofPair code pair).value = some subquery) :
    subquery.span = ⟨pair.1, pair.2 + 1⟩ ∧
      subquery.content = (Bytes.trim code ⟨pair.1 + 1, pair.2⟩).value := by
  rw [Subquery.value_ofPair] at made
  split at made
  · cases made
    exact ⟨rfl, rfl⟩
  · cases made

/-- Where a subquery's content stands. -/
theorem content_of_mem_all {code : Bytes} {subquery : Subquery}
    (member : subquery ∈ (Subquery.all code).value) :
    subquery.content =
      (Bytes.trim code ⟨subquery.span.start + 1, subquery.span.stop - 1⟩).value := by
  rw [Subquery.value_all, List.mem_filterMap] at member
  obtain ⟨pair, _, made⟩ := member
  obtain ⟨place, content⟩ := place_of_ofPair made
  rw [content, place, Nat.add_sub_cancel]

/-- A subquery's content begins with the first letter of `SELECT`. -/
theorem first_of_content {code : Bytes} {subquery : Subquery}
    (member : subquery ∈ (Subquery.all code).value) :
    ∃ byte, code[subquery.content.start]? = some byte ∧ Byte.upper byte = 0x53 := by
  have listed : subquery.span ∈ ((Subquery.all code).value).map (·.span) :=
    List.mem_map_of_mem member
  obtain ⟨opening, closing, place, matching, selects⟩ :=
    (mem_spans_all_iff code subquery.span).mp listed
  have start : subquery.content.start =
      opening + 1 + Bytes.leading (code.extract (opening + 1) closing) := by
    have within : closing ≤ code.length :=
      Nat.le_of_lt (List.getElem?_eq_some_iff.mp matching.closes).1
    rw [content_of_mem_all member, place, Nat.add_sub_cancel, Bytes.value_trim within]
  generalize inside : code.extract (opening + 1) closing = contents at start selects
  have spelled : Bytes.ofString "SELECT" = [0x53, 0x45, 0x4C, 0x45, 0x43, 0x54] := by decide
  rw [beginsWithSelect, Bytes.sameIgnoringCase, beq_iff_eq, spelled] at selects
  cases ahead : contents.dropWhile Byte.isBlank with
  | nil =>
    rw [ahead] at selects
    cases selects
  | cons first rest =>
    have capital : Byte.upper first = 0x53 := by
      by_cases isWord : Byte.isWordByte first = true
      · rw [ahead, List.takeWhile_cons_of_pos isWord] at selects
        exact (List.cons.inj selects).1
      · rw [ahead, List.takeWhile_cons_of_neg isWord] at selects
        cases selects
    have shown : contents[Bytes.leading contents]? = some first := by
      rw [← List.head?_drop, Bytes.drop_leading, ahead, List.head?_cons]
    rw [← inside, List.extract_eq_take_drop, List.getElem?_take] at shown
    obtain ⟨_, isFirst⟩ := Option.ite_none_right_eq_some.mp shown
    rw [List.getElem?_drop, ← List.extract_eq_take_drop, inside] at isFirst
    exact ⟨first, by rw [start, isFirst], capital⟩

/-- How two spans lie when the first ends before the second: apart, or the second around the first
with room on both sides. -/
def EndsBefore (first second : Span) : Prop :=
  first.stop < second.stop ∧ (second.start < first.start ∨ first.stop ≤ second.start)

/-- A subquery stands between matching parentheses. -/
theorem exists_matches_of_mem_all {code : Bytes} {subquery : Subquery}
    (member : subquery ∈ (Subquery.all code).value) :
    ∃ opening closing, subquery.span = ⟨opening, closing + 1⟩ ∧ Matches code opening closing := by
  have place : subquery.span ∈ ((Subquery.all code).value).map (·.span) :=
    List.mem_map_of_mem member
  obtain ⟨opening, closing, same, matching, _⟩ := (mem_spans_all_iff code _).mp place
  exact ⟨opening, closing, same, matching⟩

/-- A subquery ends inside the code. -/
theorem stop_le_length_of_mem_all {code : Bytes} {subquery : Subquery}
    (member : subquery ∈ (Subquery.all code).value) : subquery.span.stop ≤ code.length := by
  obtain ⟨opening, closing, same, matching⟩ := exists_matches_of_mem_all member
  rw [same]
  exact (List.getElem?_eq_some_iff.mp matching.closes).1

/-- The spans of the subqueries come in the order of their ends, and no two of them cross. -/
theorem spans_all_pairwise (code : Bytes) :
    (((Subquery.all code).value).map (·.span)).Pairwise EndsBefore := by
  rw [spans_all, List.pairwise_filterMap]
  refine (pairs_pairwise code).imp ?_
  rintro first second ⟨closed, placed⟩ firstSpan firstSelected secondSpan secondSelected
  simp only [Option.ite_none_right_eq_some, Option.some.injEq] at firstSelected secondSelected
  rw [← firstSelected.2, ← secondSelected.2]
  exact ⟨Nat.succ_lt_succ closed, placed⟩

/-- With another byte than a parenthesis in the place of one without a partner, every span is the
same: no pair encloses it, so what each pair encloses is the same too. -/
theorem spans_all_replace_unmatched {code : Bytes} {offset : Nat} (alone : Unmatched code offset)
    {other : UInt8} (notOpen : other ≠ Byte.openParen) (notClose : other ≠ Byte.closeParen) :
    ((Subquery.all (code.set offset other)).value).map (·.span) =
      ((Subquery.all code).value).map (·.span) := by
  have within : offset < code.length := by
    rcases alone.1 with opens | closes
    · exact (List.getElem?_eq_some_iff.mp opens).1
    · exact (List.getElem?_eq_some_iff.mp closes).1
  have samePairs : Subquery.pairs (code.set offset other) = Subquery.pairs code := by
    have frontLength : (code.take offset).length = offset := by
      rw [List.length_take]
      omega
    have cut : code.take offset ++ code[offset] :: code.drop (offset + 1) = code := by
      rw [← List.drop_eq_getElem_cons within, List.take_append_drop]
    have replaced := pairs_replace_unmatched (code.take offset) (code.drop (offset + 1)) code[offset]
      (by rwa [cut, frontLength]) notOpen notClose
    have placed : code.set offset other = code.take offset ++ other :: code.drop (offset + 1) := by
      rw [List.set_eq_take_append_cons_drop, if_pos within]
    rwa [cut, ← placed] at replaced
  rw [spans_all, spans_all, samePairs]
  refine List.filterMap_congr ?_
  rintro ⟨opening, closing⟩ found
  have matching : Matches code opening closing := (mem_pairs_iff code opening closing).mp found
  obtain ⟨notOpening, notClosing⟩ := alone.2 opening closing matching
  have sameContents : (code.set offset other).extract (opening + 1) closing =
      code.extract (opening + 1) closing := by
    have outside : offset < opening ∨ closing < offset := by
      by_contra between
      exact matching.not_unmatched (by omega) (by omega) alone
    have inOrder := matching.inOrder
    simp only [List.extract_eq_take_drop]
    rcases outside with before | behind
    · rw [List.drop_set_of_lt (by omega)]
    · rw [List.drop_set, if_neg (by omega), List.take_set_of_le (by omega)]
  rw [sameContents]

/-- The query with a blank in the place of the byte at an offset. -/
def blankAt (query : String) (offset : Nat) : String :=
  Bytes.text ((Bytes.ofString query).set offset Byte.space)

/-- Blanking a parenthesis of the code blanks it in the code view and changes nothing else there. -/
theorem codeOf_blankAt {query : String} {offset : Nat}
    (parenthesis : (codeOf query)[offset]? = some Byte.openParen ∨
      (codeOf query)[offset]? = some Byte.closeParen) :
    codeOf (blankAt query offset) = (codeOf query).set offset Byte.space := by
  obtain ⟨byte, shown, genuine, plain, ascii⟩ : ∃ byte, (codeOf query)[offset]? = some byte ∧
      CodeView.isGenuine byte = true ∧ CodeView.endsMark byte = false ∧ byte < 0x80 := by
    rcases parenthesis with opens | closes
    · exact ⟨_, opens, by decide, by decide, by decide⟩
    · exact ⟨_, closes, by decide, by decide, by decide⟩
  obtain ⟨within, atOffset⟩ := List.getElem?_eq_some_iff.mp shown
  have cut : codeView (Bytes.ofString query) =
      (codeOf query).take offset ++ byte :: (codeOf query).drop (offset + 1) := by
    rw [← atOffset, ← List.drop_eq_getElem_cons within, List.take_append_drop, codeOf]
  obtain ⟨front, back, whole, inCode, frontView, backView⟩ :=
    CodeView.codeView_cut genuine plain cut
  have frontLength : front.length = offset := by
    have lengths := congrArg List.length frontView
    rw [codeView, CodeView.length_viewFrom, List.length_take] at lengths
    omega
  have replaced : (Bytes.ofString query).set offset Byte.space = front ++ Byte.space :: back := by
    rw [whole, List.set_append_right _ _ (by omega), frontLength, Nat.sub_self, List.set_cons_zero]
  have spells : Bytes.IsText (front ++ Byte.space :: back) := by
    have original : Bytes.IsText (front ++ byte :: back) := ⟨query, whole.symm⟩
    have blankSpells : Bytes.IsText [Byte.space] := Bytes.isText_singleton (by decide)
    obtain ⟨frontSpells, backSpells⟩ := original.split_ascii ascii
    exact frontSpells.append (blankSpells.append backSpells)
  rw [codeOf, blankAt, replaced, spells.ofString_text,
    CodeView.codeView_plain back (by decide) inCode, frontView, backView,
    List.set_eq_take_append_cons_drop, if_pos within]

/-- The scopes behind the main query stand exactly where two parentheses match and enclose code that
begins with `SELECT`. They come in the order of their ends, so none comes twice. A parenthesis
without a partner neither makes, hides nor moves a scope: blanking it leaves all spans as they
are. -/
theorem subquery_spans_exact (query : String) :
    ((extract query).tail.map (·.span)).Pairwise (fun first second => first.stop < second.stop) ∧
      (∀ span, span ∈ (extract query).tail.map (·.span) ↔
        ∃ opening closing, span = ⟨opening, closing + 1⟩ ∧
          Matches (codeOf query) opening closing ∧
          beginsWithSelect ((codeOf query).extract (opening + 1) closing) = true) ∧
      ∀ offset, Unmatched (codeOf query) offset →
        (extract (blankAt query offset)).tail.map (·.span) =
          (extract query).tail.map (·.span) := by
  simp only [List.map_tail, spans_extract, List.tail_cons, subqueriesOf]
  refine ⟨(spans_all_pairwise _).imp And.left, mem_spans_all_iff _, ?_⟩
  intro offset alone
  rw [codeOf_blankAt alone.1]
  exact spans_all_replace_unmatched alone (by decide) (by decide)

end QueryScope.SubquerySpans

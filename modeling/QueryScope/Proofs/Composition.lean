import Mathlib.Data.List.Basic
import QueryScope.Proofs.Embedding
import QueryScope.Proofs.Masking
import QueryScope.Proofs.Boundaries

/-!
# Extraction is compositional

A subquery can be taken out of its query and extracted on its own. Its scopes are then the same,
apart from the numbers that say where they stand: nothing that comes before the opening
parenthesis or behind the closing one is seen from inside. The subquery's own scope is the main
query of its text, and the blanks between the parentheses and the text make no difference.
-/

namespace QueryScope

namespace Placement

/-- A table reference of the text, as it is in the whole query. -/
def reference (placement : Placement) (reference : TableReference) : TableReference :=
  { reference with derivedScope := reference.derivedScope.map (· + placement.lead) }

/-- The scope of a subquery of the text, as it is in the whole query. -/
def scope (placement : Placement) (scope : Scope) : Scope :=
  { scope with
    level := scope.level + placement.level
    index := scope.index + placement.lead
    span := scope.span.shift placement.distance
    parent := scope.parent.map placement.index
    tables := scope.tables.map placement.reference }

end Placement

namespace Composition

open Nesting SubquerySpans Parentheses

/-- A query cut at the two parentheses of one of its subqueries. -/
structure Inset (query : String) where
  front : Bytes
  inside : Bytes
  back : Bytes
  frame : Frame
  text_eq : Bytes.ofString query =
    (front ++ [Byte.openParen]) ++ (inside ++ Byte.closeParen :: back)
  code_eq : codeOf query =
    (codeView front ++ [Byte.openParen]) ++ (codeView inside ++ Byte.closeParen :: codeView back)
  spells : Bytes.IsText inside
  opened : front.length = frame.host.span.start
  whole_eq : frame.whole = subqueriesOf query
  inner_eq : frame.inner = (Subquery.all (codeView inside)).value
  length_eq : frame.length = inside.length

/-- The subqueries of a code around a matching pair that is one of them: those in front of it, those
inside it, the pair itself, and the others. -/
theorem all_around_balanced {before inside : Bytes} (behind : Bytes) (balanced : Balanced inside)
    (spells : Bytes.IsText inside) {host : Subquery}
    (isHost : (Subquery.ofPair (before ++ Byte.openParen :: (inside ++ Byte.closeParen :: behind))
      (before.length, before.length + 1 + inside.length)).value = some host) :
    ∃ earlier later,
      (Subquery.all (before ++ Byte.openParen :: (inside ++ Byte.closeParen :: behind))).value =
        earlier ++ (((Subquery.all inside).value).map (·.shift (before.length + 1)) ++
          host :: later) ∧
      ∀ subquery ∈ earlier, subquery.span.stop ≤ before.length := by
  have window : before ++ Byte.openParen :: (inside ++ Byte.closeParen :: behind) =
      (before ++ [Byte.openParen]) ++ (inside ++ Byte.closeParen :: behind) := by simp
  have frontLength : (before ++ [Byte.openParen]).length = before.length + 1 := by simp
  have inner : ((Subquery.pairs inside).map (shiftPair (before.length + 1))).filterMap (fun pair =>
      (Subquery.ofPair (before ++ Byte.openParen :: (inside ++ Byte.closeParen :: behind))
        pair).value) = ((Subquery.all inside).value).map (·.shift (before.length + 1)) := by
    rw [List.filterMap_map, Subquery.value_all, List.map_filterMap]
    refine List.filterMap_congr ?_
    rintro ⟨opening, closing⟩ member
    have matching := (mem_pairs_iff inside opening closing).mp member
    have within := (List.getElem?_eq_some_iff.mp matching.closes).1
    rw [Function.comp_apply, window, ← frontLength]
    exact Subquery.ofPair_window (before ++ [Byte.openParen]) inside behind spells
      matching.inOrder within
  refine ⟨(Subquery.pairs before).filterMap fun pair => (Subquery.ofPair (before ++ Byte.openParen ::
      (inside ++ Byte.closeParen :: behind)) pair).value,
    (Subquery.pairsFrom (before.length + 1 + inside.length + 1) (waitingBehind 0 [] before)
      behind).filterMap fun pair => (Subquery.ofPair (before ++ Byte.openParen ::
        (inside ++ Byte.closeParen :: behind)) pair).value, ?_, ?_⟩
  · rw [Subquery.value_all, pairs_around_balanced before behind balanced, List.append_assoc,
      List.filterMap_append, List.filterMap_append, inner, List.filterMap_cons, isHost]
  · intro subquery member
    obtain ⟨⟨opening, closing⟩, isPair, made⟩ := List.mem_filterMap.mp member
    have matching := (mem_pairs_iff before opening closing).mp isPair
    rw [(place_of_ofPair made).1]
    exact (List.getElem?_eq_some_iff.mp matching.closes).1

/-- Every subquery of a query cuts it. -/
theorem exists_inset {query : String} {position : Nat} {host : Subquery}
    (found : (subqueriesOf query)[position]? = some host) :
    ∃ inset : Inset query, inset.frame.host = host ∧ inset.frame.hostPosition = position := by
  have member := List.mem_of_getElem? found
  rw [subqueriesOf, Subquery.value_all, List.mem_filterMap] at member
  obtain ⟨⟨opening, closing⟩, isPair, made⟩ := member
  obtain ⟨before, inner, behind, code, balanced, rfl, rfl⟩ :=
    (matches_iff_split _ _ _).mp ((mem_pairs_iff _ _ _).mp isPair)
  -- the query is cut at the opening parenthesis, and then what follows at the closing one
  obtain ⟨front, rest, text, _, frontView, restView⟩ :=
    CodeView.codeView_cut (by decide) (by decide) code
  obtain ⟨inside, back, restText, _, insideView, backView⟩ :=
    CodeView.codeView_cut (by decide) (by decide) restView
  subst restText frontView insideView backView
  have spells : Bytes.IsText inside := by
    have whole : Bytes.IsText (front ++ Byte.openParen :: (inside ++ Byte.closeParen :: back)) :=
      ⟨query, text.symm⟩
    exact ((whole.split_ascii (by decide)).2.split_ascii (by decide)).1
  have isHost := made
  rw [code] at isHost
  obtain ⟨earlier, later, split, ended⟩ := all_around_balanced (codeView back) balanced
    (CodeView.isText_codeView spells) isHost
  obtain ⟨place, _⟩ := place_of_ofPair made
  simp only [CodeView.length_codeView] at place split ended
  rw [← code] at split
  have opened : host.span.start = front.length := by rw [place]
  let frame : Frame := {
    whole := subqueriesOf query
    earlier, later, host
    inner := (Subquery.all (codeView inside)).value
    length := inside.length
    split := by rw [opened]; exact split
    nested := nested_all _
    innerNested := nested_all _
    closed := by rw [place]
    before := by rw [opened]; exact ended
    within := fun subquery member => by
      have bound := stop_le_length_of_mem_all member
      rwa [CodeView.length_codeView] at bound }
  refine ⟨⟨front, inside, back, frame, ?_, ?_, spells, opened.symm, rfl, rfl, rfl⟩, rfl, ?_⟩
  · rw [text, List.append_assoc, List.singleton_append]
  · rw [code, List.append_assoc, List.singleton_append]
  · exact frame.nested.position_unique frame.host_at found

namespace Inset

variable {query : String}

/-- The subquery's text. -/
def text (inset : Inset query) : String := Bytes.text inset.inside

/-- The bytes of the subquery's text. -/
theorem ofString_text (inset : Inset query) : Bytes.ofString inset.text = inset.inside :=
  inset.spells.ofString_text

/-- The code of the inner query, taken by itself, is the view of the bytes between the
parentheses. -/
theorem codeOf_text (inset : Inset query) : codeOf inset.text = codeView inset.inside := by
  rw [codeOf, ofString_text]

/-- The subqueries of the subquery's text. -/
theorem subqueriesOf_text (inset : Inset query) : subqueriesOf inset.text = inset.frame.inner := by
  rw [subqueriesOf, codeOf_text, inner_eq]

/-- The outlines of the subquery's text and those of the whole query. -/
theorem outlinesOf_text (inset : Inset query) :
    outlinesOf inset.text = Outline.all inset.frame.length inset.frame.inner := by
  rw [outlinesOf, ofString_text, subqueriesOf_text, length_eq]

/-- The outlines of the whole query are drawn from the subqueries of its frame. -/
theorem outlinesOf_query (inset : Inset query) :
    outlinesOf query = Outline.all (Bytes.ofString query).length inset.frame.whole := by
  rw [outlinesOf, whole_eq]

/-- The text begins behind the opening parenthesis, in the query and in its code. -/
theorem length_front (inset : Inset query) :
    (inset.front ++ [Byte.openParen]).length = inset.frame.placement.distance := by
  rw [Frame.distance_placement, ← inset.opened, List.length_append, List.length_singleton]

/-- The code up to the opening parenthesis is as long as the distance by which the inner query is
moved. -/
theorem length_frontCode (inset : Inset query) :
    (codeView inset.front ++ [Byte.openParen]).length = inset.frame.placement.distance := by
  rw [← length_front, List.length_append, List.length_append, CodeView.length_codeView]

/-- What is cut out of the subquery's text can be cut out of the query. -/
theorem extract_text (inset : Inset query) (span : Span) (within : span.stop ≤ inset.inside.length) :
    (Bytes.ofString query).extract (span.shift inset.frame.placement.distance).start
        (span.shift inset.frame.placement.distance).stop =
      inset.inside.extract span.start span.stop := by
  rw [inset.text_eq, ← inset.length_front]
  simp only [Span.shift, Nat.add_comm _ (inset.front ++ [Byte.openParen]).length]
  exact Window.extract_window _ inset.inside _ span.start within

/-- A part of the subquery's text, masked on its own and in the whole query. -/
theorem mask_text (inset : Inset query) {content : Span} {children : List (Span × Nat)}
    (within : content.stop ≤ inset.inside.length)
    (proper : ∀ child ∈ children, child.1.start ≤ child.1.stop) :
    (Masked.mask (Bytes.ofString query) (codeOf query)
        (content.shift inset.frame.placement.distance)
        (children.map (Masked.moveChild inset.frame.placement.distance
          inset.frame.placement.lead))).value =
      ((Masked.mask inset.inside (codeView inset.inside) content children).value).reindex
        inset.frame.placement.lead := by
  rw [inset.text_eq, inset.code_eq, ← inset.length_frontCode]
  refine Masked.mask_window _ _ _ _ ?_ _ within ?_ proper
  · rw [length_front, length_frontCode]
  · rwa [CodeView.length_codeView]

end Inset

/-- Linking goes along: aliases stay, and indices move. -/
theorem link_moved (placement : Placement) (children : List Outline) (masked : Masked)
    (earlier : Nat) {entry : FromEntry} (unlinked : entry.reference.derivedScope = none) :
    Outline.link (children.map placement.outline) (masked.reindex placement.lead) earlier entry =
      placement.reference (Outline.link children masked earlier entry) := by
  have byAlias (name : String) :
      ((children.map placement.outline).find? fun child =>
        child.aliasName.any (Text.sameName · name)).map (·.index) =
      ((children.find? fun child => child.aliasName.any (Text.sameName · name)).map
        (·.index)).map (· + placement.lead) := by
    rw [List.find?_map, Option.map_map, Option.map_map]
    rfl
  have byPosition (ordinal : Nat) : (masked.reindex placement.lead).children[earlier + ordinal]? =
      (masked.children[earlier + ordinal]?).map (· + placement.lead) := List.getElem?_map
  rw [Outline.link, Outline.link]
  split
  · simp only [byAlias, byPosition, Placement.reference, Option.map_or, Option.map_bind,
      Function.comp_def]
  · rw [Placement.reference, unlinked, Option.map_none, ← unlinked]

/-- The entries of a masked block are not linked yet. -/
theorem unlinked_of_mem_entries {masked : Masked} {entry : FromEntry}
    (member : entry ∈ masked.entries) : entry.reference.derivedScope = none := by
  obtain ⟨_, _, _, _, _, _, made⟩ := FromEntry.exists_place_of_mem_readAll member
  exact made.unlinked

/-- The tables of a masked block go along, each with its link. -/
theorem tables_moved (placement : Placement) (children : List Outline) (masked : Masked) :
    (masked.reindex placement.lead).entries.map
        (Outline.link (children.map placement.outline) (masked.reindex placement.lead)
          (masked.reindex placement.lead).earlier) =
      (masked.entries.map (Outline.link children masked masked.earlier)).map
        placement.reference := by
  rw [List.map_map]
  refine List.map_congr_left ?_
  intro entry member
  exact link_moved placement children masked _ (unlinked_of_mem_entries member)

/-- A scope moves when its outline, its children and the indices in its masked block do. -/
theorem assemble_moved (placement : Placement) (outline : Outline) (content : String)
    (children : List Outline) (masked : Masked) :
    (placement.outline outline).assemble content (children.map placement.outline)
        (masked.reindex placement.lead) =
      placement.scope (outline.assemble content children masked) := by
  rw [Outline.assemble, tables_moved]
  rfl

namespace Inset

variable {query : String}

/-- The children of an outline as masking is given them. -/
theorem children_moved (placement : Placement) (children : List Outline) :
    (children.map placement.outline).map (fun child => (child.span, child.index)) =
      (children.map fun child => (child.span, child.index)).map
        (Masked.moveChild placement.distance placement.lead) := by
  rw [List.map_map, List.map_map]
  rfl

/-- Children are subqueries, so they begin before they end. -/
theorem proper_of_mem_childrenIn (query : String) (outline : Outline) :
    ∀ child ∈ (childrenIn query outline).map (fun child => (child.span, child.index)),
      child.1.start ≤ child.1.stop := by
  intro child member
  obtain ⟨found, isChild, rfl⟩ := List.mem_map.mp member
  obtain ⟨position, subquery, listed, rfl⟩ := ScopeTree.exists_subquery_of_mem_childrenIn isChild
  exact Nat.le_of_lt ((nested_all _).proper subquery (List.mem_of_getElem? listed))

/-- The children of a scope of the text, in the text alone and in the whole query. -/
theorem childrenIn_moved (inset : Inset query) {outline moved : Outline}
    (bounded : outline.index ≤ inset.frame.inner.length)
    (sameIndex : moved.index = inset.frame.placement.index outline.index) :
    childrenIn query moved =
      (childrenIn inset.text outline).map inset.frame.placement.outline := by
  rw [childrenIn, childrenIn, outlinesOf_query, outlinesOf_text, sameIndex]
  exact inset.frame.childrenOf_index _ bounded

/-- A block of the text, masked in the text alone and in the whole query. -/
theorem maskedOf_moved (inset : Inset query) {outline moved : Outline}
    (bounded : outline.index ≤ inset.frame.inner.length)
    (sameIndex : moved.index = inset.frame.placement.index outline.index) {body : Span}
    (sameBody : moved.body = body.shift inset.frame.placement.distance)
    (within : body.stop ≤ inset.inside.length) :
    maskedOf query moved =
      ((Masked.mask inset.inside (codeView inset.inside) body
        ((childrenIn inset.text outline).map fun child => (child.span, child.index))).value).reindex
          inset.frame.placement.lead := by
  rw [maskedOf, inset.childrenIn_moved bounded sameIndex, children_moved, sameBody]
  exact inset.mask_text within (proper_of_mem_childrenIn _ _)

/-- The content of a subquery ends inside what its parentheses enclose. -/
theorem stop_content_le {code : Bytes} {subquery : Subquery}
    (member : subquery ∈ (Subquery.all code).value) :
    subquery.content.stop ≤ subquery.span.stop - 1 := by
  rw [content_of_mem_all member]
  exact (Bytes.trim_inside code _).2

/-- The scopes of the subquery's text are scopes of the whole query. -/
theorem scope_moved (inset : Inset query) {index : Nat} {outline : Outline} (behindMain : 0 < index)
    (found : (outlinesOf inset.text)[index]? = some outline) :
    scopeOf query (inset.frame.placement.outline outline) =
      inset.frame.placement.scope (scopeOf inset.text outline) := by
  have isIndex : outline.index = index := ScopeTree.index_of_all found
  obtain ⟨subquery, subqueryAt, same⟩ := ScopeTree.getElem?_outlinesOf behindMain found
  have member := List.mem_of_getElem? subqueryAt
  have bounded : outline.index ≤ inset.frame.inner.length := by
    have within := (List.getElem?_eq_some_iff.mp subqueryAt).1
    rw [subqueriesOf_text] at within
    omega
  have sameIndex : (inset.frame.placement.outline outline).index =
      inset.frame.placement.index outline.index := by
    rw [Placement.index, if_neg (by omega)]
    rfl
  have ended := ScopeTree.stop_le_length member
  rw [ofString_text] at ended
  have bodyEnded : outline.body.stop ≤ inset.inside.length := by
    have contentEnded := stop_content_le member
    rw [same]
    exact Nat.le_trans contentEnded (Nat.le_trans (Nat.sub_le _ _) ended)
  have masked : maskedOf query (inset.frame.placement.outline outline) =
      (maskedOf inset.text outline).reindex inset.frame.placement.lead := by
    rw [inset.maskedOf_moved bounded sameIndex rfl bodyEnded, maskedOf, ofString_text, codeOf_text]
  have content : ((inset.frame.placement.outline outline).content (Bytes.ofString query)).value =
      (outline.content (Bytes.ofString inset.text)).value := by
    have proper := (nested_all _).proper subquery member
    have cut := inset.extract_text ⟨subquery.span.start + 1, subquery.span.stop - 1⟩
      (Nat.le_trans (Nat.sub_le _ _) ended)
    have start : subquery.span.start + 1 + inset.frame.placement.distance =
        subquery.span.start + inset.frame.placement.distance + 1 := Nat.add_right_comm _ _ _
    have stop : subquery.span.stop - 1 + inset.frame.placement.distance =
        subquery.span.stop + inset.frame.placement.distance - 1 := by omega
    simp only [Span.shift, start, stop] at cut
    rw [same, Outline.value_content rfl, Outline.value_content rfl, ofString_text]
    exact congrArg (fun bytes => Text.trim (Bytes.text bytes)) cut
  rw [scopeOf_eq_assemble, inset.childrenIn_moved bounded sameIndex, masked, content,
    assemble_moved, ← scopeOf_eq_assemble]

end Inset

/-- A masked block with blank code at its ends. -/
structure Widened (narrow wide : Masked) where
  frontText : Bytes
  frontCode : Bytes
  backText : Bytes
  backCode : Bytes
  text_eq : wide.text = frontText ++ (narrow.text ++ backText)
  code_eq : wide.code = frontCode ++ (narrow.code ++ backCode)
  children_eq : wide.children = narrow.children
  sameFront : frontText.length = frontCode.length
  sameLength : narrow.text.length = narrow.code.length
  blankFront : ∀ byte ∈ frontCode, Byte.isBlank byte = true
  blankBack : ∀ byte ∈ backCode, Byte.isBlank byte = true

namespace Widened

open Padding

variable {narrow wide : Masked}

/-- Spans that cut the same, cut the same out of the two texts and out of the two codes. -/
theorem cut_eq (widened : Widened narrow wide) {narrowSpan wideSpan : Span}
    (same : SameCut widened.frontCode.length narrow.code.length narrowSpan wideSpan) :
    wide.textAt wideSpan = narrow.textAt narrowSpan ∧
      wide.codeAt wideSpan = narrow.codeAt narrowSpan := by
  have sameText := same
  rw [← widened.sameLength] at sameText
  rw [Masked.textAt, Masked.codeAt, widened.text_eq, widened.code_eq]
  exact ⟨sameText.extract_eq widened.sameFront widened.backText, same.extract_eq rfl widened.backCode⟩

/-- The clauses of the two blocks cut the same. -/
theorem sameClauses (widened : Widened narrow wide) :
    SameCut widened.frontCode.length narrow.code.length narrow.clauses.selectList
        wide.clauses.selectList ∧
      SameCut widened.frontCode.length narrow.code.length narrow.clauses.fromClause
        wide.clauses.fromClause ∧
      SameCut widened.frontCode.length narrow.code.length narrow.clauses.whereClause
        wide.clauses.whereClause := by
  have padded := ofCode_padded narrow.code widened.blankFront widened.blankBack
  rwa [← widened.code_eq] at padded

/-- The two blocks have the same entries. -/
theorem entries_eq (widened : Widened narrow wide) : wide.entries = narrow.entries := by
  obtain ⟨sameText, sameCode⟩ := widened.cut_eq widened.sameClauses.2.1
  rw [Masked.entries, Masked.entries, sameText, sameCode]

/-- The same number of placeholders comes before the FROM clause, if it has an entry. -/
theorem earlier_eq (widened : Widened narrow wide) {entry : FromEntry}
    (member : entry ∈ narrow.entries) : wide.earlier = narrow.earlier := by
  have nonempty : narrow.clauses.fromClause.start < narrow.clauses.fromClause.stop := by
    by_contra empty
    have nothing : narrow.codeAt narrow.clauses.fromClause = [] := by
      rw [Masked.codeAt, List.extract_eq_take_drop, Nat.sub_eq_zero_of_le (Nat.not_lt.mp empty),
        List.take_zero]
    rw [Masked.entries, nothing, FromEntry.readAll_nil] at member
    cases member
  rcases widened.sameClauses.2.1 with ⟨moved, within⟩ | ⟨isEmpty, _⟩
  · have front : wide.code.extract 0 wide.clauses.fromClause.start =
        widened.frontCode ++ narrow.code.extract 0 narrow.clauses.fromClause.start := by
      simp only [moved, widened.code_eq, Span.shift, List.extract_eq_take_drop, List.drop_zero, Nat.sub_zero]
      rw [Nat.add_comm, List.take_length_add_append, List.take_append_of_le_length (by omega)]
    rw [Masked.earlier, Masked.earlier, front, count_append_blank widened.blankFront]
  · omega

/-- A scope does not see the blanks around its block. -/
theorem assemble_eq (widened : Widened narrow wide) (outline other : Outline)
    (content otherContent : String) (children : List Outline) :
    (outline.assemble content children narrow).selectList =
        (other.assemble otherContent children wide).selectList ∧
      (outline.assemble content children narrow).fromClause =
        (other.assemble otherContent children wide).fromClause ∧
      (outline.assemble content children narrow).whereClause =
        (other.assemble otherContent children wide).whereClause ∧
      (outline.assemble content children narrow).exposedColumns =
        (other.assemble otherContent children wide).exposedColumns ∧
      (outline.assemble content children narrow).tables =
        (other.assemble otherContent children wide).tables := by
  obtain ⟨selectList, fromClause, whereClause⟩ := widened.sameClauses
  simp only [Outline.assemble, (widened.cut_eq selectList).1, (widened.cut_eq selectList).2,
    (widened.cut_eq fromClause).1, (widened.cut_eq whereClause).1, widened.entries_eq, true_and]
  refine List.map_congr_left ?_
  intro entry member
  rw [widened.earlier_eq member, Outline.link, Outline.link, widened.children_eq]

end Widened

namespace Inset

variable {query : String}

/-- The outline of the main query of the subquery's text. -/
def mainOutline (inset : Inset query) : Outline := Outline.main inset.frame.length

/-- The children of the main query of the subquery's text, as masking is given them. -/
def mainChildren (inset : Inset query) : List (Span × Nat) :=
  (childrenIn inset.text inset.mainOutline).map fun child => (child.span, child.index)

/-- Children begin and end with a parenthesis. -/
theorem parentheses_of_mem_mainChildren (inset : Inset query) {child : Span × Nat}
    (member : child ∈ inset.mainChildren) :
    (codeView inset.inside)[child.1.start]? = some Byte.openParen ∧
      (codeView inset.inside)[child.1.stop - 1]? = some Byte.closeParen ∧ 0 < child.1.stop := by
  obtain ⟨found, isChild, rfl⟩ := List.mem_map.mp member
  obtain ⟨position, subquery, listed, rfl⟩ := ScopeTree.exists_subquery_of_mem_childrenIn isChild
  obtain ⟨opening, closing, same, matching⟩ :=
    exists_matches_of_mem_all (List.mem_of_getElem? listed)
  rw [codeOf_text] at matching
  simp only [Outline.ofSubquery]
  rw [same]
  exact ⟨matching.opens, matching.closes, Nat.succ_pos _⟩

/-- The block of the main query of the subquery's text is that of the trimmed text with blanks at
its ends. -/
theorem widened_main (inset : Inset query) :
    Nonempty (Widened
      (Masked.mask inset.inside (codeView inset.inside)
        (Bytes.trim (codeView inset.inside) ⟨0, inset.inside.length⟩).value
          inset.mainChildren).value
      (maskedOf inset.text inset.mainOutline)) := by
  have sameLength := CodeView.length_codeView inset.inside
  have trimmed : Bytes.Trimmed (codeView inset.inside) ⟨0, inset.inside.length⟩
      (Bytes.trim (codeView inset.inside) ⟨0, inset.inside.length⟩).value :=
    Bytes.trimmed_trim (Nat.zero_le _) sameLength.ge
  generalize (Bytes.trim (codeView inset.inside) ⟨0, inset.inside.length⟩).value = body at trimmed ⊢
  have bounds : body.start ≤ body.stop ∧ body.stop ≤ inset.inside.length :=
    ⟨trimmed.inOrder, trimmed.stopLe⟩
  have enclosed : ∀ child ∈ inset.mainChildren, body.encloses child.1 = true := by
    intro child member
    obtain ⟨opens, closes, positive⟩ := inset.parentheses_of_mem_mainChildren member
    have within : child.1.start < inset.inside.length ∧ child.1.stop - 1 < inset.inside.length := by
      rw [← sameLength]
      exact ⟨(List.getElem?_eq_some_iff.mp opens).1, (List.getElem?_eq_some_iff.mp closes).1⟩
    have afterFront := (trimmed.of_solid opens (by decide) (Nat.zero_le _) within.1).1
    have beforeBack := (trimmed.of_solid closes (by decide) (Nat.zero_le _) within.2).2
    simp only [Span.encloses, Bool.and_eq_true, decide_eq_true_eq]
    omega
  have wider : (⟨0, inset.inside.length⟩ : Span).encloses body = true := by
    simp only [Span.encloses, Bool.and_eq_true, decide_eq_true_eq]
    omega
  have wide : maskedOf inset.text inset.mainOutline =
      (Masked.mask inset.inside (codeView inset.inside) ⟨0, inset.inside.length⟩
        inset.mainChildren).value := by
    rw [maskedOf, ofString_text, codeOf_text, ← length_eq]
    rfl
  rw [wide, Masked.mask_wider inset.inside (codeView inset.inside) wider bounds.1 enclosed]
  refine ⟨{
    frontText := inset.inside.extract 0 body.start
    frontCode := (codeView inset.inside).extract 0 body.start
    backText := inset.inside.extract body.stop inset.inside.length
    backCode := (codeView inset.inside).extract body.stop inset.inside.length
    text_eq := rfl
    code_eq := rfl
    children_eq := rfl
    sameFront := ?_
    sameLength := Masked.length_maskFrom sameLength.symm _ _ _
    blankFront := trimmed.blankFront
    blankBack := trimmed.blankBack }⟩
  rw [Window.extract_zero, Window.extract_zero, List.length_take, List.length_take, sameLength]

/-- The subquery's own scope is the main query of its text: the clauses, the columns and the tables
are the same, and only the links move. -/
theorem host_scope (inset : Inset query) :
    (scopeOf query inset.frame.hostOutline).selectList =
        (scopeOf inset.text inset.mainOutline).selectList ∧
      (scopeOf query inset.frame.hostOutline).fromClause =
        (scopeOf inset.text inset.mainOutline).fromClause ∧
      (scopeOf query inset.frame.hostOutline).whereClause =
        (scopeOf inset.text inset.mainOutline).whereClause ∧
      (scopeOf query inset.frame.hostOutline).exposedColumns =
        (scopeOf inset.text inset.mainOutline).exposedColumns ∧
      (scopeOf query inset.frame.hostOutline).tables =
        (scopeOf inset.text inset.mainOutline).tables.map inset.frame.placement.reference := by
  have listed : inset.frame.host ∈ (Subquery.all (codeOf query)).value := by
    have member := List.mem_of_getElem? inset.frame.host_at
    rwa [inset.whole_eq] at member
  have sameBody : inset.frame.hostOutline.body =
      (Bytes.trim (codeView inset.inside) ⟨0, inset.inside.length⟩).value.shift
        inset.frame.placement.distance := by
    have trimmed := Window.trim_window (codeView inset.front ++ [Byte.openParen])
      (codeView inset.inside) (Byte.closeParen :: codeView inset.back) ⟨0, inset.inside.length⟩
      (Nat.le_of_eq (CodeView.length_codeView _).symm)
    rw [← inset.code_eq, inset.length_frontCode] at trimmed
    have place : (⟨inset.frame.host.span.start + 1, inset.frame.host.span.stop - 1⟩ : Span) =
        (⟨0, inset.inside.length⟩ : Span).shift inset.frame.placement.distance := by
      have closed := inset.frame.closed
      rw [inset.length_eq] at closed
      simp only [Span.shift, Frame.distance_placement, Span.mk.injEq]
      omega
    rw [← trimmed, ← place]
    exact content_of_mem_all listed
  have bodyEnded : (Bytes.trim (codeView inset.inside) ⟨0, inset.inside.length⟩).value.stop ≤
      inset.inside.length :=
    (Bytes.trim_inside (codeView inset.inside) _).2
  have children : childrenIn query inset.frame.hostOutline =
      (childrenIn inset.text inset.mainOutline).map inset.frame.placement.outline :=
    inset.childrenIn_moved (Nat.zero_le _) rfl
  have masked : maskedOf query inset.frame.hostOutline =
      ((Masked.mask inset.inside (codeView inset.inside)
        (Bytes.trim (codeView inset.inside) ⟨0, inset.inside.length⟩).value
          inset.mainChildren).value).reindex inset.frame.placement.lead :=
    inset.maskedOf_moved (Nat.zero_le _) rfl sameBody bodyEnded
  obtain ⟨widened⟩ := inset.widened_main
  obtain ⟨selectList, fromClause, whereClause, exposedColumns, tables⟩ :=
    widened.assemble_eq inset.mainOutline inset.mainOutline ""
      (inset.mainOutline.content (Bytes.ofString inset.text)).value
      (childrenIn inset.text inset.mainOutline)
  rw [scopeOf_eq_assemble query, scopeOf_eq_assemble inset.text, children, masked]
  refine ⟨selectList, fromClause, whereClause, exposedColumns, ?_⟩
  rw [← tables]
  simp only [Outline.assemble]
  exact tables_moved inset.frame.placement (childrenIn inset.text inset.mainOutline) _

end Inset

/-- The number of scopes that lie strictly inside a span. -/
def insideCount (scopes : List Scope) (span : Span) : Nat :=
  scopes.countP fun scope => decide (StrictlyInside scope.span span)

namespace Inset

variable {query : String}

/-- The subquery's text is what stands between its parentheses. -/
theorem contents_eq (inset : Inset query) :
    (Bytes.ofString query).extract (inset.frame.host.span.start + 1)
      (inset.frame.host.span.stop - 1) = inset.inside := by
  have cut := inset.extract_text ⟨0, inset.inside.length⟩ (Nat.le_refl _)
  have whole : inset.inside.extract 0 inset.inside.length = inset.inside := by
    rw [List.extract_eq_take_drop, List.drop_zero, Nat.sub_zero, List.take_length]
  have stop : inset.frame.host.span.stop - 1 =
      inset.inside.length + (inset.frame.host.span.start + 1) := by
    have closed := inset.frame.closed
    rw [inset.length_eq] at closed
    omega
  simp only [Span.shift, Frame.distance_placement, Nat.zero_add, whole] at cut
  rw [stop, cut]

/-- The scopes inside the subquery are as many as its text has subqueries. -/
theorem insideCount_eq (inset : Inset query) :
    insideCount (extract query) inset.frame.host.span = inset.frame.inner.length := by
  have spans := congrArg (List.countP fun span =>
    decide (StrictlyInside span inset.frame.host.span)) (spans_extract query)
  have mainOutside : ¬ StrictlyInside ⟨0, (Bytes.ofString query).length⟩ inset.frame.host.span := by
    rintro ⟨afterStart, _⟩
    exact Nat.not_lt_zero _ afterStart
  rw [List.countP_map, List.countP_cons_of_neg (by simpa using mainOutside), List.countP_map,
    ← inset.whole_eq] at spans
  exact spans.trans inset.frame.countP_inside

/-- The scopes inside the subquery come right before its own. -/
theorem inside_iff (inset : Inset query) {position : Nat} {scope : Scope}
    (found : (extract query)[position]? = some scope) :
    StrictlyInside scope.span inset.frame.host.span ↔
      inset.frame.earlier.length < position ∧ position ≤ inset.frame.hostPosition := by
  obtain ⟨outline, placed, rfl⟩ := ScopeTree.getElem?_extract found
  cases position with
  | zero =>
    cases placed
    simp [StrictlyInside, Outline.main]
  | succ previous =>
    obtain ⟨subquery, subqueryAt, rfl⟩ := ScopeTree.getElem?_outlinesOf (Nat.succ_pos _) placed
    rw [← inset.whole_eq] at subqueryAt
    exact (inset.frame.inside_iff_position subqueryAt).trans (by omega)

/-- The text has one scope more than subqueries. -/
theorem length_extract_text (inset : Inset query) :
    (extract inset.text).length = inset.frame.inner.length + 1 := by
  rw [extract_eq_map, outlinesOf_text, Outline.all, List.length_map, List.length_cons,
    List.length_map, List.length_zipIdx]

end Inset

/-- Extraction is compositional. The text between the parentheses of a subquery, extracted on its
own, yields the subquery's own scope as its main query, and the scopes strictly inside the
subquery, which come right before it, apart from the numbers that say where they stand. -/
theorem extract_compositional (query : String) (position : Nat) (scope : Scope)
    (behindMain : 0 < position) (found : (extract query)[position]? = some scope) :
    let contents := (Bytes.ofString query).extract (scope.span.start + 1) (scope.span.stop - 1)
    let alone := extract (Bytes.text contents)
    let count := insideCount (extract query) scope.span
    let placement : Placement :=
      ⟨scope.span.start + 1, position - count - 1, position, scope.level⟩
    Bytes.ofString (Bytes.text contents) = contents ∧ count < position ∧
      alone.length = count + 1 ∧
      (∀ other inner, (extract query)[other]? = some inner →
        (StrictlyInside inner.span scope.span ↔ position - count ≤ other ∧ other < position)) ∧
      (∃ main, alone[0]? = some main ∧ scope.selectList = main.selectList ∧
        scope.fromClause = main.fromClause ∧ scope.whereClause = main.whereClause ∧
        scope.exposedColumns = main.exposedColumns ∧
        scope.tables = main.tables.map placement.reference) ∧
      ∀ other inner, 1 ≤ other → alone[other]? = some inner →
        (extract query)[position - count - 1 + other]? = some (placement.scope inner) := by
  obtain ⟨outline, placed, rfl⟩ := ScopeTree.getElem?_extract found
  obtain ⟨host, hostAt, rfl⟩ := ScopeTree.getElem?_outlinesOf behindMain placed
  obtain ⟨inset, rfl, hostPosition⟩ := exists_inset hostAt
  have isHost : Outline.ofSubquery (subqueriesOf query) inset.frame.host (position - 1) =
      inset.frame.hostOutline := by
    rw [Frame.hostOutline, inset.whole_eq, hostPosition]
  rw [isHost]
  intro contents alone count placement
  have sameContents : contents = inset.inside := inset.contents_eq
  have sameAlone : alone = extract inset.text := by
    rw [Inset.text, ← sameContents]
  have sameCount : count = inset.frame.inner.length := inset.insideCount_eq
  have positions : position = inset.frame.earlier.length + count + 1 := by
    rw [Frame.hostPosition] at hostPosition
    omega
  have lead : position - count - 1 = inset.frame.earlier.length := by omega
  have samePlacement : placement = inset.frame.placement := by
    simp only [placement, Frame.placement, Placement.mk.injEq, lead, true_and]
    exact ⟨rfl, by omega, rfl⟩
  refine ⟨?_, by omega, ?_, ?_, ?_, ?_⟩
  · rw [sameContents]
    exact inset.ofString_text
  · rw [sameAlone, sameCount]
    exact inset.length_extract_text
  · intro other inner innerAt
    refine (inset.inside_iff innerAt).trans ?_
    omega
  · refine ⟨scopeOf inset.text inset.mainOutline, ?_, ?_⟩
    · rw [sameAlone, extract_eq_map, inset.outlinesOf_text]
      rfl
    · rw [samePlacement]
      exact inset.host_scope
  · intro other inner behindFirst innerAt
    rw [sameAlone] at innerAt
    obtain ⟨outline, outlineAt, rfl⟩ := ScopeTree.getElem?_extract innerAt
    have wholeAt := outlineAt
    rw [inset.outlinesOf_text] at wholeAt
    have moved := inset.frame.all_inner (Bytes.ofString query).length behindFirst wholeAt
    have index : inset.frame.placement.index other = position - count - 1 + other := by
      rw [Placement.index, if_neg (by omega), lead, Nat.add_comm]
      rfl
    rw [extract_eq_map, List.getElem?_map, inset.outlinesOf_query, ← index, moved, Option.map_some,
      samePlacement, inset.scope_moved behindFirst outlineAt]

/-- A subquery with another one before it and another one inside. In its own text the inner one is
the first subquery of a main query. In the query it has the place, the level and the parent that
its surroundings give it, and all else is the same. -/
theorem extract_compositional_nested :
    let query := "SELECT e.n FROM (SELECT 1 k) c, (SELECT d.n FROM (SELECT t.n FROM t) d) e"
    let inner : Scope :=
      { level := 1
        index := 1
        span := ⟨16, 35⟩
        content := "SELECT t.n FROM t"
        aliasName := some "d"
        parent := some 0
        selectList := "t.n"
        fromClause := "t"
        whereClause := ""
        tables := [⟨none, some "t", none, false, none⟩]
        exposedColumns := ["n"] }
    (extract "SELECT d.n FROM (SELECT t.n FROM t) d")[1]? = some inner ∧
      (extract query)[2]? =
        some { inner with level := 2, index := 2, span := ⟨49, 68⟩, parent := some 3 } := by
  intro query inner
  have alone : (extract "SELECT d.n FROM (SELECT t.n FROM t) d")[1]? = some inner := by
    decide +kernel
  have host : (extract query)[3]?.map (fun scope => (scope.span, scope.level)) =
      some (⟨32, 71⟩, 1) := by
    decide +kernel
  obtain ⟨outer, found, place⟩ := Option.map_eq_some_iff.mp host
  obtain ⟨span, level⟩ := Prod.mk.inj place
  have contents : Bytes.text ((Bytes.ofString query).extract ((⟨32, 71⟩ : Span).start + 1)
      ((⟨32, 71⟩ : Span).stop - 1)) = "SELECT d.n FROM (SELECT t.n FROM t) d" := by
    decide +kernel
  have count : insideCount (extract query) ⟨32, 71⟩ = 1 := by
    decide +kernel
  obtain ⟨_, _, _, _, _, moved⟩ := extract_compositional query 3 outer (by decide) found
  rw [span, level, contents, count] at moved
  exact ⟨alone, moved 1 inner (Nat.le_refl 1) alone⟩

end Composition

end QueryScope

import QueryScope.Proofs.Reordering
import QueryScope.Proofs.SoundExtraction
import QueryScope.Proofs.ViewPieces

/-!
# Masking loses nothing

When a scope is taken apart, every scope directly inside it is replaced by a placeholder, and none is
left out: the children of a scope lie one behind the other inside its body, which is trimmed, but not
so far that a parenthesis is lost. So what was masked can be put back, in the text as in the code.

Masking and blanking can change places. At both ends of a child stands a parenthesis that is code, so
the view of the query starts afresh there, and a placeholder is code all through. A body ends with a
byte that is shown, and such a byte has not looked ahead.
-/

namespace QueryScope

namespace Masked

/-- Spans that lie one behind the other between two offsets. -/
def InLine (stop cursor : Nat) : List Span → Prop
  | [] => cursor ≤ stop
  | span :: others => cursor ≤ span.start ∧ span.start ≤ span.stop ∧ InLine stop span.stop others

/-- Bytes from `cursor` up to `stop`, with placeholders in the place of some spans. -/
def masking (bytes : Bytes) (stop cursor : Nat) : List Span → Bytes
  | [] => bytes.extract cursor stop
  | span :: others =>
    bytes.extract cursor span.start ++ Placeholder.bytes ++ masking bytes stop span.stop others

/-- Masked bytes with the originals put back. The masked bytes begin at `cursor` of the original, and
the spans say what was replaced, in order. There is no answer unless a placeholder stands where each
of them was. -/
def restore? (original : Bytes) (cursor : Nat) : List Span → Bytes → Option Bytes
  | [], masked => some masked
  | span :: others, masked =>
    let before := masked.take (span.start - cursor)
    let behind := masked.drop (span.start - cursor)
    if Placeholder.bytes.isPrefixOf behind then
      (restore? original span.stop others (behind.drop Placeholder.bytes.length)).map fun rest =>
        before ++ original.extract span.start span.stop ++ rest
    else
      none

variable {bytes text code : Bytes} {stop cursor : Nat}

/-- Spans in line end before the last offset. -/
theorem InLine.le {spans : List Span} (inLine : InLine stop cursor spans) : cursor ≤ stop := by
  induction spans generalizing cursor with
  | nil => exact inLine
  | cons span others inductionHypothesis =>
    obtain ⟨ahead, proper, behind⟩ := inLine
    exact Nat.le_trans ahead (Nat.le_trans proper (inductionHypothesis behind))

/-- Spans between two offsets of which each ends before the next one begins are in line. -/
theorem inLine_of_pairwise {spans : List Span} (inOrder : cursor ≤ stop)
    (inside : ∀ span ∈ spans,
      cursor ≤ span.start ∧ span.start ≤ span.stop ∧ span.stop ≤ stop)
    (apart : spans.Pairwise fun left right => left.stop ≤ right.start) :
    InLine stop cursor spans := by
  induction spans generalizing cursor with
  | nil => exact inOrder
  | cons span others inductionHypothesis =>
    obtain ⟨ahead, proper, within⟩ := inside span List.mem_cons_self
    obtain ⟨before, apartOthers⟩ := List.pairwise_cons.mp apart
    refine ⟨ahead, proper, inductionHypothesis within ?_ apartOthers⟩
    intro other member
    have insideOther := inside other (List.mem_cons_of_mem _ member)
    exact ⟨before other member, insideOther.2⟩

/-- Children in line are all replaced and remembered. -/
theorem maskFrom_of_inLine (text code : Bytes) {children : List (Span × Nat)}
    (inLine : InLine stop cursor (children.map (·.1))) :
    (maskFrom text code stop cursor children).value =
      ⟨masking text stop cursor (children.map (·.1)), masking code stop cursor (children.map (·.1)),
        children.map (·.2)⟩ := by
  induction children generalizing cursor with
  | nil => rfl
  | cons child others inductionHypothesis =>
    obtain ⟨ahead, _, behind⟩ := inLine
    rw [value_maskFrom_cons text code stop cursor others ahead, inductionHypothesis behind]
    simp only [List.map_cons, masking]

/-- What was masked can be put back. -/
theorem restore?_masking {spans : List Span} (inLine : InLine stop cursor spans)
    (within : stop ≤ bytes.length) :
    restore? bytes cursor spans (masking bytes stop cursor spans) =
      some (bytes.extract cursor stop) := by
  induction spans generalizing cursor with
  | nil => rfl
  | cons span others inductionHypothesis =>
    obtain ⟨ahead, proper, behind⟩ := inLine
    have beforeStop := behind.le
    have frontLength : (bytes.extract cursor span.start).length = span.start - cursor :=
      Window.length_extract bytes cursor (by omega)
    have placeholder : Placeholder.bytes.isPrefixOf
        (Placeholder.bytes ++ masking bytes stop span.stop others) = true := by
      rw [List.isPrefixOf_iff_prefix]
      exact List.prefix_append _ _
    rw [masking, List.append_assoc, restore?]
    simp only [List.take_left' frontLength, List.drop_left' frontLength, placeholder, if_true,
      List.drop_left, inductionHypothesis behind, Option.map_some]
    rw [Window.extract_append_extract bytes ahead proper,
      Window.extract_append_extract bytes (Nat.le_trans ahead proper) beforeStop]

/-- A span of some code that stands between two parentheses, the parentheses included. -/
structure Parenthesised (code : Bytes) (span : Span) : Prop where
  opens : code[span.start]? = some Byte.openParen
  closes : code[span.stop - 1]? = some Byte.closeParen
  proper : span.start < span.stop

/-- The view of masked bytes is the masked view, if parentheses are masked that the view shows and the
last piece looks as it does in the query. -/
theorem codeView_masking {query : Bytes} {spans : List Span} (inLine : InLine stop cursor spans)
    (fresh : CodeView.Fresh query cursor)
    (parenthesised : ∀ span ∈ spans, Parenthesised (codeView query) span)
    (last : ∀ start, cursor ≤ start → start ≤ stop → CodeView.Fresh query start →
      codeView (query.extract start stop) = (codeView query).extract start stop) :
    codeView (masking query stop cursor spans) = masking (codeView query) stop cursor spans := by
  induction spans generalizing cursor with
  | nil => exact last cursor (Nat.le_refl _) inLine fresh
  | cons span others inductionHypothesis =>
    obtain ⟨ahead, proper, behind⟩ := inLine
    obtain ⟨opens, closes, nonempty⟩ := parenthesised span List.mem_cons_self
    obtain ⟨_, inCode, frontView, _⟩ := fresh.cut ahead opens (by decide) (by decide)
    have freshBehind : CodeView.Fresh query span.stop := by
      have afterParenthesis := CodeView.fresh_behind closes (by decide) (by decide)
      rwa [Nat.sub_add_cancel (Nat.lt_of_le_of_lt (Nat.zero_le _) nonempty)] at afterParenthesis
    have onward := inductionHypothesis behind freshBehind
      (fun other member => parenthesised other (List.mem_cons_of_mem _ member))
      (fun start afterStop => last start (Nat.le_trans (Nat.le_trans ahead proper) afterStop))
    have plain : Placeholder.bytes.all (fun byte => !CodeView.endsMark byte) = true := by decide
    have placeholder := CodeView.codeView_append_of_plain (masking query stop span.stop others) plain
    rw [masking, masking, List.append_assoc, List.append_assoc,
      CodeView.codeView_append inCode ?_, frontView, placeholder, onward]
    intro byte isFirst
    cases isFirst
    decide

end Masked

namespace Unmasking

open SubquerySpans Nesting ScopeTree DerivedLinks InnermostScope

variable {query : String} {outline : Outline}

/-! ## The children of a scope -/

/-- The scope around a child: it is at the outline's place, one level up, and unless it is the main
query it leaves room on both sides of the child. -/
theorem parent_of_mem_childrenIn {position : Nat} (placed : (outlinesOf query)[position]? = some outline)
    {child : Outline} (inside : child ∈ childrenIn query outline) :
    child.level = outline.level + 1 ∧ (position = 0 ∨ StrictlyInside child.span outline.span) := by
  have isParent : child.parent = some position := by
    have isInside := (List.mem_filter.mp inside).2
    rw [beq_iff_eq, index_of_all placed] at isInside
    exact isInside
  obtain ⟨childPosition, subquery, found, rfl⟩ := exists_subquery_of_mem_childrenIn inside
  obtain ⟨parentIndex, parent, isIndex, parentAt, levels, room⟩ :=
    exists_parent (Bytes.ofString query).length (nested_all (codeOf query)) found
  have samePosition : parentIndex = position := by
    have same := isIndex.symm.trans isParent
    exact Option.some.inj same
  subst samePosition
  have sameOutline : parent = outline := Option.some.inj (parentAt.symm.trans placed)
  subst sameOutline
  refine ⟨levels, ?_⟩
  rcases room with isMain | ⟨_, strictly⟩
  · exact .inl isMain
  · exact .inr strictly

/-- Two children of a scope are apart. -/
theorem apart_of_mem_childrenIn (member : outline ∈ outlinesOf query) {left right : Outline}
    (leftInside : left ∈ childrenIn query outline) (rightInside : right ∈ childrenIn query outline)
    (different : left ≠ right) :
    left.span.stop ≤ right.span.start ∨ right.span.stop ≤ left.span.start := by
  obtain ⟨position, placed⟩ := List.getElem?_of_mem member
  have sameLevel : left.level = right.level :=
    (parent_of_mem_childrenIn placed leftInside).1.trans
      (parent_of_mem_childrenIn placed rightInside).1.symm
  obtain ⟨first, leftSubquery, leftAt, rfl⟩ := exists_subquery_of_mem_childrenIn leftInside
  obtain ⟨second, rightSubquery, rightAt, rfl⟩ := exists_subquery_of_mem_childrenIn rightInside
  have nested : Nested (subqueriesOf query) := nested_all (codeOf query)
  have differentPosition : first ≠ second := by
    rintro rfl
    cases leftAt.symm.trans rightAt
    exact different rfl
  simp only [Outline.ofSubquery] at sameLevel ⊢
  -- one inside the other would be deeper
  rcases apart_or_inside nested leftAt rightAt differentPosition with
    before | behind | inner | outer
  · exact .inl before
  · exact .inr behind
  · have deeper := length_around_lt nested leftAt rightAt inner
    omega
  · have deeper := length_around_lt nested rightAt leftAt outer
    omega

/-- A child stands between parentheses. -/
theorem parenthesised_of_mem_childrenIn {child : Outline} (inside : child ∈ childrenIn query outline) :
    Masked.Parenthesised (codeOf query) child.span := by
  obtain ⟨position, subquery, found, rfl⟩ := exists_subquery_of_mem_childrenIn inside
  obtain ⟨opening, closing, isSpan, matching⟩ :=
    exists_matches_of_mem_all (List.mem_of_getElem? found)
  have inOrder : opening < closing := matching.inOrder
  simp only [Outline.ofSubquery, isSpan]
  exact ⟨matching.opens, matching.closes, by simp only; omega⟩

/-- A child lies inside the body of its scope. For a subquery's body, this is because a parenthesis is
not blank. -/
theorem encloses_of_mem_childrenIn (member : outline ∈ outlinesOf query) {child : Outline}
    (inside : child ∈ childrenIn query outline) : outline.body.encloses child.span = true := by
  obtain ⟨position, placed⟩ := List.getElem?_of_mem member
  obtain ⟨opens, closes, proper⟩ := parenthesised_of_mem_childrenIn inside
  rw [encloses_iff]
  by_cases isMain : position = 0
  · subst isMain
    cases placed
    obtain ⟨_, subquery, found, rfl⟩ := exists_subquery_of_mem_childrenIn inside
    exact ⟨Nat.zero_le _, stop_le_length (List.mem_of_getElem? found)⟩
  · have room : StrictlyInside child.span outline.span :=
      (parent_of_mem_childrenIn placed inside).2.resolve_left isMain
    obtain ⟨subquery, found, rfl⟩ := getElem?_outlinesOf (Nat.pos_of_ne_zero isMain) placed
    obtain ⟨afterStart, beforeStop⟩ := room
    simp only [Outline.ofSubquery] at afterStart beforeStop ⊢
    have trimmed := trimmed_content (List.mem_of_getElem? found)
    have opensInside := trimmed.of_solid opens (by decide) afterStart (by simp only; omega)
    have closesInside := trimmed.of_solid closes (by decide) (by simp only; omega)
      (by simp only; omega)
    exact ⟨opensInside.1, by omega⟩

/-- The children of a scope in the order of their beginnings. -/
def sortedChildren (query : String) (outline : Outline) : List Outline :=
  (childrenIn query outline).mergeSort fun left right =>
    decide (left.span.start ≤ right.span.start)

theorem mem_sortedChildren {child : Outline} :
    child ∈ sortedChildren query outline ↔ child ∈ childrenIn query outline := List.mem_mergeSort

/-- The children that are replaced are all children, in the order of their beginnings. -/
theorem replacedIn_eq (member : outline ∈ outlinesOf query) :
    replacedIn query outline =
      (sortedChildren query outline).map fun child => (child.span, child.index) := by
  have all : ((childrenIn query outline).map fun child => (child.span, child.index)).filter
      (fun child => outline.body.encloses child.1) =
        (childrenIn query outline).map fun child => (child.span, child.index) := by
    rw [List.filter_eq_self]
    intro child listed
    obtain ⟨found, inside, rfl⟩ := List.mem_map.mp listed
    exact encloses_of_mem_childrenIn member inside
  rw [replacedIn, Masked.replaced, all, sortedChildren]
  rw [← List.map_mergeSort (r := fun left right => decide (left.span.start ≤ right.span.start))]
  intro left _ right _
  rfl

/-- No two children have the same index. -/
theorem nodup_index_childrenIn (member : outline ∈ outlinesOf query) :
    ((childrenIn query outline).map (·.index)).Nodup := by
  obtain ⟨position, placed⟩ := List.getElem?_of_mem member
  have sameIndices : (childrenIn query outline).map (·.index) =
      (childScopes query position).map (·.index) := by
    rw [childScopes_eq_map placed, List.map_map]
    rfl
  have sublist : ((childScopes query position).map (·.index)).Sublist
      ((extract query).map (·.index)) := List.filter_sublist.map _
  rw [sameIndices]
  apply sublist.nodup
  rw [Reordering.map_index_extract]
  exact List.nodup_range

/-- In order, each child ends before the next one begins. -/
theorem pairwise_sortedChildren (member : outline ∈ outlinesOf query) :
    (sortedChildren query outline).Pairwise fun left right =>
      left.span.stop ≤ right.span.start := by
  have ordered : (sortedChildren query outline).Pairwise fun left right =>
      decide (left.span.start ≤ right.span.start) = true := by
    apply List.pairwise_mergeSort
    · intro first second third
      simp only [decide_eq_true_eq]
      exact Nat.le_trans
    · intro left right
      simp only [Bool.or_eq_true, decide_eq_true_eq]
      exact Nat.le_total _ _
  have distinct : (sortedChildren query outline).Nodup :=
    (List.mergeSort_perm _ _).nodup_iff.mpr (nodup_index_childrenIn member).of_map
  refine (ordered.and distinct).imp_of_mem ?_
  rintro left right leftListed rightListed ⟨inOrder, different⟩
  have leftInside := mem_sortedChildren.mp leftListed
  have rightInside := mem_sortedChildren.mp rightListed
  have rightProper := (parenthesised_of_mem_childrenIn rightInside).proper
  rcases apart_of_mem_childrenIn member leftInside rightInside different with before | behind
  · exact before
  · rw [decide_eq_true_eq] at inOrder
    omega

/-- The children are in line inside the body. -/
theorem inLine_sortedChildren (member : outline ∈ outlinesOf query) :
    Masked.InLine outline.body.stop outline.body.start
      ((sortedChildren query outline).map (·.span)) := by
  apply Masked.inLine_of_pairwise (ends_body member).2.2
  · intro span listed
    obtain ⟨child, isListed, rfl⟩ := List.mem_map.mp listed
    have inside := mem_sortedChildren.mp isListed
    have enclosed := (encloses_iff _ _).mp (encloses_of_mem_childrenIn member inside)
    exact ⟨enclosed.1, Nat.le_of_lt (parenthesised_of_mem_childrenIn inside).proper, enclosed.2⟩
  · exact List.pairwise_map.mpr (pairwise_sortedChildren member)

/-- The masked block of a scope: all its children are replaced and remembered. -/
theorem maskedOf_eq (member : outline ∈ outlinesOf query) :
    maskedOf query outline =
      ⟨Masked.masking (Bytes.ofString query) outline.body.stop outline.body.start
          ((sortedChildren query outline).map (·.span)),
        Masked.masking (codeOf query) outline.body.stop outline.body.start
          ((sortedChildren query outline).map (·.span)),
        (sortedChildren query outline).map (·.index)⟩ := by
  have spans : (replacedIn query outline).map (·.1) =
      (sortedChildren query outline).map (·.span) := by
    rw [replacedIn_eq member, List.map_map]
    rfl
  have indices : (replacedIn query outline).map (·.2) =
      (sortedChildren query outline).map (·.index) := by
    rw [replacedIn_eq member, List.map_map]
    rfl
  have inLine : Masked.InLine outline.body.stop outline.body.start
      ((replacedIn query outline).map (·.1)) := by
    rw [spans]
    exact inLine_sortedChildren member
  have masked := Masked.maskFrom_of_inLine (Bytes.ofString query) (codeOf query) inLine
  rw [spans, indices] at masked
  exact masked

/-! ## The body of a scope -/

/-- The view of the query starts afresh where a body begins: at its beginning or at the word
`SELECT`. -/
theorem fresh_body (member : outline ∈ outlinesOf query) :
    CodeView.Fresh (Bytes.ofString query) outline.body.start := by
  rcases main_or_subquery_of_mem member with rfl | ⟨subquery, found, position, rfl⟩
  · exact CodeView.fresh_zero _
  · obtain ⟨byte, shown, capital⟩ := first_of_content found
    rcases Byte.eq_or_eq_of_upper_eq capital with rfl | rfl
    · exact CodeView.fresh_at shown (by decide) (by decide)
    · exact CodeView.fresh_at shown (by decide) (by decide)

/-- The last piece of a body looks as it does in the query. -/
theorem codeView_end_of_body (member : outline ∈ outlinesOf query) {start : Nat}
    (inside : outline.body.start ≤ start) (inOrder : start ≤ outline.body.stop)
    (fresh : CodeView.Fresh (Bytes.ofString query) start) :
    codeView ((Bytes.ofString query).extract start outline.body.stop) =
      (codeOf query).extract start outline.body.stop := by
  rcases main_or_subquery_of_mem member with rfl | ⟨subquery, found, position, rfl⟩
  · have toTheEnd (bytes : Bytes) (whole : bytes.length = (Bytes.ofString query).length) :
        bytes.extract start (Bytes.ofString query).length = bytes.drop start := by
      rw [List.extract_eq_take_drop, ← whole, List.take_of_length_le]
      rw [List.length_drop]
    simp only [Outline.main]
    rw [toTheEnd (Bytes.ofString query) rfl, toTheEnd (codeOf query) (CodeView.length_codeView _)]
    exact fresh
  · simp only [Outline.ofSubquery] at inside inOrder ⊢
    obtain ⟨opening, closing, isSpan, matching⟩ := exists_matches_of_mem_all found
    have trimmed := trimmed_content found
    rw [isSpan, Nat.add_sub_cancel] at trimmed
    apply fresh.codeView_extract inOrder trimmed.stopLe matching.closes (by decide) (by decide)
    -- the body ends with a byte that is no blank, and so does every piece at its end
    intro last isLast
    have endsPiece : ((codeOf query).extract start subquery.content.stop).getLast? = some last :=
      isLast
    have solid : Byte.isBlank last = false := by
      apply trimmed.solidLast
      rw [← Window.extract_append_extract _ inside inOrder, List.getLast?_append, endsPiece]
      rfl
    rintro rfl
    cases solid

/-! ## Putting back what was masked -/

/-- What it means that masking a scope loses nothing, when some scopes are remembered. -/
structure Lossless (query : String) (outline : Outline) (recorded : List Scope) : Prop where
  /-- The scopes are remembered by their indices, and no index twice. -/
  indices : (maskedOf query outline).children = recorded.map (·.index)
  distinct : (maskedOf query outline).children.Nodup
  /-- They are the scopes directly inside. -/
  complete : recorded.Perm (childScopes query outline.index)
  /-- Each of them ends before the next one begins. -/
  inOrder : recorded.Pairwise fun left right =>
    left.span.start < left.span.stop ∧ left.span.stop ≤ right.span.start
  /-- Putting them back in the place of their placeholders gives the text of the body. -/
  text : Masked.restore? (Bytes.ofString query) outline.body.start (recorded.map (·.span))
    (maskedOf query outline).text =
      some ((Bytes.ofString query).extract outline.body.start outline.body.stop)
  /-- Doing so in the code gives the code of the body. -/
  code : Masked.restore? (codeOf query) outline.body.start (recorded.map (·.span))
    (maskedOf query outline).code =
      some ((codeOf query).extract outline.body.start outline.body.stop)
  /-- Masked text and masked code are equally long. -/
  sameLength : (maskedOf query outline).text.length = (maskedOf query outline).code.length
  /-- The masked text is a text, and the masked code is its code. -/
  spells : Bytes.IsText (maskedOf query outline).text
  view : codeView (maskedOf query outline).text = (maskedOf query outline).code

/-- Masking a scope loses nothing. -/
theorem lossless (member : outline ∈ outlinesOf query) :
    Lossless query outline ((sortedChildren query outline).map (scopeOf query)) := by
  obtain ⟨position, placed⟩ := List.getElem?_of_mem member
  have inLine := inLine_sortedChildren member
  have reordered : (sortedChildren query outline).Perm (childrenIn query outline) :=
    List.mergeSort_perm _ _
  have spans : ((sortedChildren query outline).map (scopeOf query)).map (·.span) =
      (sortedChildren query outline).map (·.span) := by
    rw [List.map_map]
    rfl
  have within : outline.body.stop ≤ (Bytes.ofString query).length := by
    have inCode := (ends_body member).2.1.within
    rwa [codeOf, CodeView.length_codeView] at inCode
  refine ⟨?_, ?_, ?_, ?_, ?_, ?_, ?_, (overlay_maskedOf member).2.spellsText, ?_⟩
  · rw [maskedOf_eq member, List.map_map]
    rfl
  · rw [maskedOf_eq member]
    exact (reordered.map _).nodup_iff.mpr (nodup_index_childrenIn member)
  · rw [index_of_all placed, childScopes_eq_map placed]
    exact reordered.map (scopeOf query)
  · rw [List.pairwise_map]
    refine (pairwise_sortedChildren member).imp_of_mem ?_
    intro left right leftListed _ before
    exact ⟨(parenthesised_of_mem_childrenIn (mem_sortedChildren.mp leftListed)).proper, before⟩
  · rw [maskedOf_eq member, spans]
    exact Masked.restore?_masking inLine within
  · rw [maskedOf_eq member, spans]
    exact Masked.restore?_masking inLine (ends_body member).2.1.within
  · exact Masked.length_maskFrom (CodeView.length_codeView _).symm _ _ _
  · rw [maskedOf_eq member]
    apply Masked.codeView_masking inLine (fresh_body member)
    · intro span listed
      obtain ⟨child, isListed, rfl⟩ := List.mem_map.mp listed
      exact parenthesised_of_mem_childrenIn (mem_sortedChildren.mp isListed)
    · intro start inside inOrder fresh
      exact codeView_end_of_body member inside inOrder fresh

/-- Every scope of a query is taken apart with all scopes directly inside it masked, in the order of
their spans. What was masked can be put back, in the text and in the code, and the masked code is the
code of the masked text. -/
theorem masking_lossless (query : String) {position : Nat} {scope : Scope}
    (found : (extract query)[position]? = some scope) :
    ∃ outline, (outlinesOf query)[position]? = some outline ∧ scope = scopeOf query outline ∧
      ∃ recorded, Lossless query outline recorded := by
  obtain ⟨outline, placed, same⟩ := getElem?_extract found
  exact ⟨outline, placed, same, _, lossless (List.mem_of_getElem? placed)⟩

/-- A subquery with two others inside, one of them before a parenthesis in a comment and around one in
a literal. -/
def commented : String := "SELECT * FROM (SELECT (SELECT ')'), -- (\n (SELECT 2) /* ) */ ) d"

/-- The subquery of `commented` remembers the two scopes inside it, and masking it loses nothing. -/
theorem masking_lossless_commented :
    ∃ scope, (extract commented)[3]? = some scope ∧
      ∃ outline recorded, scope = scopeOf commented outline ∧ Lossless commented outline recorded ∧
        recorded.length = 2 := by
  have listed : 3 < (extract commented).length := by
    rw [extract_eq_map, List.length_map]
    decide +kernel
  obtain ⟨outline, placed, same, recorded, loses⟩ :=
    masking_lossless commented (List.getElem?_eq_getElem listed)
  refine ⟨_, List.getElem?_eq_getElem listed, outline, recorded, same, loses, ?_⟩
  have two : ((outlinesOf commented).filter fun child => child.parent == some 3).length = 2 := by
    decide +kernel
  rw [loses.complete.length_eq, index_of_all placed, childScopes_eq_map placed, List.length_map,
    childrenIn, index_of_all placed]
  exact two

end Unmasking

end QueryScope

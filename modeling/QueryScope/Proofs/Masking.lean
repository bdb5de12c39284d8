import Mathlib.Data.List.Basic
import QueryScope.Sql.Masked
import QueryScope.Proofs.Window

/-!
# What masking does

Masking goes through the children in the order of their beginnings. Every child that it replaces is
one of those given, and it is remembered at the position of its placeholder. What is masked depends
only on the part of the query that is masked: the same part of a longer query, further to the
right, gives the same, and a wider part with the same children gives more at the ends.
-/

namespace QueryScope.Masked

/-- A child that begins before the cursor is left out. -/
theorem maskFrom_cons_of_lt (text code : Bytes) (stop cursor : Nat) {child : Span × Nat}
    (others : List (Span × Nat)) (overlaps : child.1.start < cursor) :
    maskFrom text code stop cursor (child :: others) = maskFrom text code stop cursor others := by
  rw [maskFrom, if_pos overlaps]

/-- Any other child is replaced. -/
theorem value_maskFrom_cons (text code : Bytes) (stop cursor : Nat) {child : Span × Nat}
    (others : List (Span × Nat)) (ahead : cursor ≤ child.1.start) :
    (maskFrom text code stop cursor (child :: others)).value =
      let behind := (maskFrom text code stop child.1.stop others).value
      ⟨text.extract cursor child.1.start ++ Placeholder.bytes ++ behind.text,
        code.extract cursor child.1.start ++ Placeholder.bytes ++ behind.code,
        child.2 :: behind.children⟩ := by
  rw [maskFrom, if_neg (Nat.not_lt.mpr ahead)]
  rfl

/-- Masking remembers some of the children that it is given. -/
theorem children_maskFrom_sublist (text code : Bytes) (stop cursor : Nat)
    (children : List (Span × Nat)) :
    (maskFrom text code stop cursor children).value.children.Sublist (children.map (·.2)) := by
  induction children generalizing cursor with
  | nil => exact List.Sublist.refl _
  | cons child others inductionHypothesis =>
    rcases Nat.lt_or_ge child.1.start cursor with overlaps | ahead
    · rw [maskFrom_cons_of_lt text code stop cursor others overlaps, List.map_cons]
      exact (inductionHypothesis cursor).cons child.2
    · rw [value_maskFrom_cons text code stop cursor others ahead, List.map_cons]
      exact (inductionHypothesis child.1.stop).cons_cons child.2

/-- Every index that masking remembers is that of a child. -/
theorem exists_child_of_mem_mask {text code : Bytes} {content : Span}
    {children : List (Span × Nat)} {index : Nat}
    (remembered : index ∈ (mask text code content children).value.children) :
    ∃ span, (span, index) ∈ children := by
  have member := (children_maskFrom_sublist _ _ _ _ _).subset remembered
  obtain ⟨⟨span, found⟩, isChild, rfl⟩ := List.mem_map.mp member
  rw [List.mem_mergeSort, List.mem_filter] at isChild
  exact ⟨span, isChild.1⟩

/-- Text and code are masked alike, so they stay equally long. -/
theorem length_maskFrom {text code : Bytes} (sameLength : text.length = code.length)
    (stop cursor : Nat) (children : List (Span × Nat)) :
    (maskFrom text code stop cursor children).value.text.length =
      (maskFrom text code stop cursor children).value.code.length := by
  have samePiece (start limit : Nat) :
      (text.extract start limit).length = (code.extract start limit).length := by
    simp only [List.extract_eq_take_drop, List.length_take, List.length_drop, sameLength]
  induction children generalizing cursor with
  | nil => exact samePiece cursor stop
  | cons child others inductionHypothesis =>
    rcases Nat.lt_or_ge child.1.start cursor with overlaps | ahead
    · rw [maskFrom_cons_of_lt text code stop cursor others overlaps]
      exact inductionHypothesis cursor
    · rw [value_maskFrom_cons text code stop cursor others ahead]
      simp only [List.length_append, samePiece, inductionHypothesis]

/-- A masked block whose children have other indices. -/
def reindex (lead : Nat) (masked : Masked) : Masked :=
  { masked with children := masked.children.map (· + lead) }

/-- A child further to the right, with another index. -/
def moveChild (distance lead : Nat) (child : Span × Nat) : Span × Nat :=
  (child.1.shift distance, child.2 + lead)

/-- A step of masking inside a window. -/
theorem maskFrom_window {frontText frontCode : Bytes} (text code backText backCode : Bytes)
    (sameFront : frontText.length = frontCode.length) (lead : Nat) {stop cursor : Nat}
    {children : List (Span × Nat)} (textWithin : stop ≤ text.length) (codeWithin : stop ≤ code.length)
    (childrenWithin : ∀ child ∈ children, child.1.start ≤ stop) :
    (maskFrom (frontText ++ (text ++ backText)) (frontCode ++ (code ++ backCode))
        (stop + frontCode.length) (cursor + frontCode.length)
        (children.map (moveChild frontCode.length lead))).value =
      ((maskFrom text code stop cursor children).value).reindex lead := by
  have textPiece (start : Nat) {limit : Nat} (bounded : limit ≤ stop) :
      (frontText ++ (text ++ backText)).extract (start + frontCode.length)
        (limit + frontCode.length) = text.extract start limit := by
    rw [← sameFront, Nat.add_comm start, Nat.add_comm limit]
    exact Window.extract_window frontText text backText start (Nat.le_trans bounded textWithin)
  have codePiece (start : Nat) {limit : Nat} (bounded : limit ≤ stop) :
      (frontCode ++ (code ++ backCode)).extract (start + frontCode.length)
        (limit + frontCode.length) = code.extract start limit := by
    rw [Nat.add_comm start, Nat.add_comm limit]
    exact Window.extract_window frontCode code backCode start (Nat.le_trans bounded codeWithin)
  induction children generalizing cursor with
  | nil =>
    simp only [List.map_nil, maskFrom, Checked.value_bind, Checked.value_pure, Bytes.cut,
      textPiece cursor (Nat.le_refl _), codePiece cursor (Nat.le_refl _), reindex]
  | cons child others inductionHypothesis =>
    have othersWithin : ∀ other ∈ others, other.1.start ≤ stop :=
      fun other member => childrenWithin other (List.mem_cons_of_mem _ member)
    have startWithin := childrenWithin child List.mem_cons_self
    rw [List.map_cons]
    rcases Nat.lt_or_ge child.1.start cursor with overlaps | ahead
    · rw [maskFrom_cons_of_lt _ _ _ _ _ overlaps, maskFrom_cons_of_lt _ _ _ _ _ (by
        simp only [moveChild, Span.shift]; omega)]
      exact inductionHypothesis othersWithin
    · rw [value_maskFrom_cons _ _ _ _ _ ahead, value_maskFrom_cons _ _ _ _ _ (by
        simp only [moveChild, Span.shift]; omega)]
      simp only [moveChild, Span.shift, textPiece cursor startWithin, codePiece cursor startWithin]
      rw [inductionHypothesis othersWithin]
      rfl

/-- Masking a part of the middle piece of a longer query. -/
theorem mask_window {frontText frontCode : Bytes} (text code backText backCode : Bytes)
    (sameFront : frontText.length = frontCode.length) (lead : Nat) {content : Span}
    {children : List (Span × Nat)} (textWithin : content.stop ≤ text.length)
    (codeWithin : content.stop ≤ code.length)
    (proper : ∀ child ∈ children, child.1.start ≤ child.1.stop) :
    (mask (frontText ++ (text ++ backText)) (frontCode ++ (code ++ backCode))
        (content.shift frontCode.length) (children.map (moveChild frontCode.length lead))).value =
      ((mask text code content children).value).reindex lead := by
  have sameChildren : (children.map (moveChild frontCode.length lead)).filter
      (fun child => (content.shift frontCode.length).encloses child.1) =
        (children.filter fun child => content.encloses child.1).map
          (moveChild frontCode.length lead) := by
    rw [List.filter_map]
    congr 1
    refine List.filter_congr ?_
    intro child _
    simp only [Function.comp_apply, moveChild, Span.shift, Span.encloses, Nat.add_le_add_iff_right]
  rw [mask, mask, sameChildren, ← List.map_mergeSort (r := fun left right =>
    decide (left.1.start ≤ right.1.start)) (by
      intro left _ right _
      simp only [moveChild, Span.shift, Nat.add_le_add_iff_right])]
  refine maskFrom_window text code backText backCode sameFront lead textWithin codeWithin ?_
  intro child member
  rw [List.mem_mergeSort, List.mem_filter] at member
  obtain ⟨isChild, enclosed⟩ := member
  rw [Span.encloses, Bool.and_eq_true, decide_eq_true_eq, decide_eq_true_eq] at enclosed
  exact Nat.le_trans (proper child isChild) enclosed.2

/-- A masked block with something in front of it. -/
def withFront (text code : Bytes) (masked : Masked) : Masked :=
  { masked with text := text ++ masked.text, code := code ++ masked.code }

/-- A masked block with something behind it. -/
def withBack (text code : Bytes) (masked : Masked) : Masked :=
  { masked with text := masked.text ++ text, code := masked.code ++ code }

/-- Masking that starts earlier shows what comes before. -/
theorem maskFrom_earlier (text code : Bytes) {stop cursor earlier : Nat}
    {children : List (Span × Nat)} (before : earlier ≤ cursor) (within : cursor ≤ stop)
    (ahead : ∀ child ∈ children, cursor ≤ child.1.start) :
    (maskFrom text code stop earlier children).value =
      ((maskFrom text code stop cursor children).value).withFront (text.extract earlier cursor)
        (code.extract earlier cursor) := by
  cases children with
  | nil =>
    simp only [maskFrom, Checked.value_bind, Checked.value_pure, Bytes.cut, withFront,
      Window.extract_append_extract _ before within]
  | cons child others =>
    have childAhead := ahead child List.mem_cons_self
    rw [value_maskFrom_cons _ _ _ _ _ childAhead,
      value_maskFrom_cons _ _ _ _ _ (Nat.le_trans before childAhead)]
    simp only [withFront, ← List.append_assoc, Window.extract_append_extract _ before childAhead]

/-- Masking that stops later shows what comes behind. -/
theorem maskFrom_later (text code : Bytes) {stop cursor later : Nat} {children : List (Span × Nat)}
    (behind : stop ≤ later) (within : cursor ≤ stop)
    (ended : ∀ child ∈ children, child.1.stop ≤ stop) :
    (maskFrom text code later cursor children).value =
      ((maskFrom text code stop cursor children).value).withBack (text.extract stop later)
        (code.extract stop later) := by
  induction children generalizing cursor with
  | nil =>
    simp only [maskFrom, Checked.value_bind, Checked.value_pure, Bytes.cut, withBack,
      Window.extract_append_extract _ within behind]
  | cons child others inductionHypothesis =>
    have othersEnded : ∀ other ∈ others, other.1.stop ≤ stop :=
      fun other member => ended other (List.mem_cons_of_mem _ member)
    rcases Nat.lt_or_ge child.1.start cursor with overlaps | ahead
    · rw [maskFrom_cons_of_lt _ _ _ _ _ overlaps, maskFrom_cons_of_lt _ _ _ _ _ overlaps]
      exact inductionHypothesis within othersEnded
    · rw [value_maskFrom_cons _ _ _ _ _ ahead, value_maskFrom_cons _ _ _ _ _ ahead,
        inductionHypothesis (ended child List.mem_cons_self) othersEnded]
      simp only [withBack, List.append_assoc]

/-- A wider part of a query with the same children shows more at its ends. -/
theorem mask_wider (text code : Bytes) {content wider : Span} {children : List (Span × Nat)}
    (isWider : wider.encloses content = true) (proper : content.start ≤ content.stop)
    (enclosed : ∀ child ∈ children, content.encloses child.1 = true) :
    (mask text code wider children).value =
      (((mask text code content children).value).withBack (text.extract content.stop wider.stop)
        (code.extract content.stop wider.stop)).withFront (text.extract wider.start content.start)
          (code.extract wider.start content.start) := by
  simp only [Span.encloses, Bool.and_eq_true, decide_eq_true_eq] at isWider
  have bounds : ∀ child ∈ children,
      content.start ≤ child.1.start ∧ child.1.stop ≤ content.stop := by
    intro child member
    have inside := enclosed child member
    rwa [Span.encloses, Bool.and_eq_true, decide_eq_true_eq, decide_eq_true_eq] at inside
  have allInWider : children.filter (fun child => wider.encloses child.1) = children := by
    rw [List.filter_eq_self]
    intro child member
    have inside := bounds child member
    rw [Span.encloses, Bool.and_eq_true, decide_eq_true_eq, decide_eq_true_eq]
    omega
  have allInContent : children.filter (fun child => content.encloses child.1) = children :=
    List.filter_eq_self.mpr enclosed
  rw [mask, mask, allInWider, allInContent]
  rw [maskFrom_earlier text code isWider.1 (Nat.le_trans proper isWider.2),
    maskFrom_later text code isWider.2 proper]
  · intro child member
    exact (bounds child (List.mem_mergeSort.mp member)).2
  · intro child member
    exact (bounds child (List.mem_mergeSort.mp member)).1

end QueryScope.Masked

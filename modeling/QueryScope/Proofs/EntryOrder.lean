import Mathlib.Data.List.Pairwise
import QueryScope.Proofs.Alignment
import QueryScope.Proofs.EntryPlaces

/-!
# The order of the entries of a FROM clause

Commas and joins cut a FROM clause into spans that stand one behind the other. The entry proper
stands inside its span, since every step that finds its place only cuts off something at the ends.
So the names of the entries come in the order in which the entries are read.
-/

namespace QueryScope

/-- The span lies between two offsets. -/
structure Span.Within (span : Span) (start stop : Nat) : Prop where
  begins : start ≤ span.start
  inOrder : span.start ≤ span.stop
  ends : span.stop ≤ stop

/-- The first span ends before the second one begins. -/
def Span.Before (first second : Span) : Prop := first.stop ≤ second.start

/-- Spans keep their order when they are made smaller. -/
theorem Span.Before.shrink {first second wideFirst wideSecond : Span}
    (before : wideFirst.Before wideSecond) (left : first.Within wideFirst.start wideFirst.stop)
    (right : second.Within wideSecond.start wideSecond.stop) : first.Before second :=
  Nat.le_trans left.ends (Nat.le_trans before right.begins)

namespace TopLevel

variable {separator : UInt8}

/-- The parts lie between the beginning of the first one and the end of the code. -/
theorem within_of_mem_splitFrom {start offset : Nat} (depth : Nat) {ahead : Bytes}
    (inOrder : start ≤ offset) :
    ∀ part ∈ splitFrom separator start offset depth ahead,
      part.Within start (offset + ahead.length) := by
  induction ahead generalizing start offset depth with
  | nil =>
    intro part member
    rw [splitFrom, List.mem_singleton] at member
    subst member
    exact ⟨Nat.le_refl _, inOrder, Nat.le_refl _⟩
  | cons byte rest inductionHypothesis =>
    have length : offset + (byte :: rest).length = offset + 1 + rest.length := by
      rw [List.length_cons]
      omega
    intro part member
    rw [length]
    rw [splitFrom] at member
    split at member
    · rcases List.mem_cons.mp member with rfl | later
      · exact ⟨Nat.le_refl _, inOrder, by simp only; omega⟩
      · have behind := inductionHypothesis depth (Nat.le_refl _) part later
        exact ⟨Nat.le_trans (Nat.le_succ_of_le inOrder) behind.begins, behind.inOrder, behind.ends⟩
    · exact inductionHypothesis _ (Nat.le_succ_of_le inOrder) part member

/-- The parts stand one behind the other. -/
theorem pairwise_splitFrom (start offset depth : Nat) (ahead : Bytes) :
    (splitFrom separator start offset depth ahead).Pairwise Span.Before := by
  induction ahead generalizing start offset depth with
  | nil => exact List.pairwise_singleton _ _
  | cons byte rest inductionHypothesis =>
    rw [splitFrom]
    split
    · rw [List.pairwise_cons]
      refine ⟨?_, inductionHypothesis _ _ _⟩
      intro part later
      have behind := within_of_mem_splitFrom depth (Nat.le_refl _) part later
      exact Nat.le_trans (Nat.le_succ offset) behind.begins
    · exact inductionHypothesis _ _ _

end TopLevel

namespace Keyword

/-- A keyword that is looked for from an offset on begins behind it. -/
theorem le_firstStart {keywords : List Keyword} (spacious : TakesSpace keywords) (code : Bytes)
    {start stop : Nat} (inOrder : start ≤ stop) :
    start ≤ firstStart code start stop keywords := by
  rw [firstStart]
  cases found : find? (code.take stop) start keywords with
  | none => exact inOrder
  | some hit => exact (span_of_find?_eq_some spacious found).1

end Keyword

namespace FromEntry

/-- The pieces between joins lie in the code, behind the offset from which it is read. -/
theorem within_of_mem_betweenJoins {code : Bytes} {start : Nat} (within : start ≤ code.length) :
    ∀ piece ∈ betweenJoins code start, piece.Within start code.length := by
  apply forall_betweenJoins
  · exact ⟨Nat.le_refl _, within, Nat.le_refl _⟩
  · intro further hit found ahead
    obtain ⟨begins, takesSpace, ends⟩ := Keyword.span_of_find?_eq_some takesSpace_join found
    have later : start ≤ further := ahead.begins
    constructor
    · exact ⟨later, begins, Nat.le_trans (Nat.le_of_lt takesSpace) ends⟩
    · refine ⟨?_, ends, Nat.le_refl _⟩
      exact Nat.le_trans (Nat.le_trans later begins) (Nat.le_of_lt takesSpace)

/-- The pieces between joins stand one behind the other. -/
theorem pairwise_betweenJoins (code : Bytes) (start : Nat) :
    (betweenJoins code start).Pairwise Span.Before := by
  apply betweenJoins_induction (motive := fun _ pieces => pieces.Pairwise Span.Before)
  case last =>
    intro start _
    exact List.pairwise_singleton _ _
  case step =>
    intro start hit found inductionHypothesis
    obtain ⟨_, takesSpace, ends⟩ := Keyword.span_of_find?_eq_some takesSpace_join found
    rw [List.pairwise_cons]
    refine ⟨?_, inductionHypothesis⟩
    intro piece later
    exact Nat.le_trans (Nat.le_of_lt takesSpace)
      (within_of_mem_betweenJoins ends piece later).begins

/-- The pieces of a part lie inside the part. -/
theorem within_part {code : Bytes} {part : Span} (inCode : part.Within 0 code.length) :
    ∀ piece ∈ betweenJoins (code.extract 0 part.stop) part.start,
      piece.Within part.start part.stop := by
  have length : (code.extract 0 part.stop).length = part.stop := by
    rw [Window.extract_zero, List.length_take, Nat.min_eq_left inCode.ends]
  have starts : part.start ≤ (code.extract 0 part.stop).length := by
    rw [length]
    exact inCode.inOrder
  intro piece member
  have inside := within_of_mem_betweenJoins starts piece member
  rwa [length] at inside

/-- The parts between commas lie in the code. -/
theorem within_of_mem_split {code : Bytes} :
    ∀ part ∈ TopLevel.split code Byte.comma, part.Within 0 code.length := by
  intro part member
  have inside := TopLevel.within_of_mem_splitFrom 0 (Nat.le_refl 0) part member
  rwa [Nat.zero_add] at inside

/-- The spans of the entries lie in the clause. -/
theorem within_of_mem_spans {code : Bytes} :
    ∀ span ∈ (spans code).value, span.Within 0 code.length := by
  intro span member
  rw [value_spans, List.mem_flatten] at member
  obtain ⟨pieces, isPieces, isSpan⟩ := member
  obtain ⟨part, isPart, rfl⟩ := List.mem_map.mp isPieces
  have inCode := within_of_mem_split part isPart
  have inPart := within_part inCode span isSpan
  exact ⟨Nat.zero_le _, inPart.inOrder, Nat.le_trans inPart.ends inCode.ends⟩

/-- The spans of the entries stand one behind the other. -/
theorem pairwise_spans (code : Bytes) : (spans code).value.Pairwise Span.Before := by
  rw [value_spans, List.pairwise_flatten, List.pairwise_map]
  constructor
  · intro pieces isPieces
    obtain ⟨part, _, rfl⟩ := List.mem_map.mp isPieces
    exact pairwise_betweenJoins _ _
  · -- Pieces of different parts are as far from each other as the parts are.
    refine (TopLevel.pairwise_splitFrom 0 0 0 code).imp_of_mem ?_
    intro first second isFirst isSecond before left isLeft right isRight
    exact before.shrink (within_part (within_of_mem_split first isFirst) left isLeft)
      (within_part (within_of_mem_split second isSecond) right isRight)

/-- Trimming keeps a span between the offsets between which it lies. -/
theorem within_trim {code : Bytes} {span : Span} {start stop : Nat}
    (inside : span.Within start stop) (within : span.stop ≤ code.length) :
    (Bytes.trim code span).value.Within start stop := by
  have trimmed := Bytes.trimmed_trim inside.inOrder within
  exact ⟨Nat.le_trans inside.begins trimmed.startLe, trimmed.inOrder,
    Nat.le_trans trimmed.stopLe inside.ends⟩

/-- The place of an entry lies inside its span. -/
theorem within_of_place? {code : Bytes} {span place : Span} (inCode : span.Within 0 code.length)
    (found : place? code span = some place) : place.Within span.start span.stop := by
  obtain ⟨whole, length, isWhole, measured, steps⟩ := exists_steps_of_place? found
  have behindStart := Keyword.le_firstStart takesSpace_conditions code inCode.inOrder
  have beforeStop := Keyword.firstStart_le takesSpace_conditions code span.start span.stop
  have beforeEnd := Nat.le_trans beforeStop inCode.ends
  have wholeInside : whole.Within span.start span.stop := by
    rw [isWhole]
    exact within_trim ⟨Nat.le_refl _, behindStart, beforeStop⟩ beforeEnd
  have wholeEnds : whole.stop ≤ code.length := Nat.le_trans wholeInside.ends inCode.ends
  have lengthLe := lengthWithoutModifiers?_le measured
  rw [Window.length_extract code whole.start wholeEnds] at lengthLe
  obtain ⟨begins, inOrder, ends⟩ := wholeInside
  rcases steps with rfl | ⟨_, remains, rfl⟩
  · exact ⟨begins, Nat.le_add_right _ _, by simp only; omega⟩
  · refine within_trim ⟨?_, Nat.le_of_lt remains, ?_⟩ ?_
    all_goals
      simp only
      omega

/-- The name of an entry stands inside the entry's place. -/
theorem name_within_place {code : Bytes} {place : Span}
    (spells : Bytes.IsText (code.extract place.start place.stop)) (within : place.stop ≤ code.length)
    {shape : Shape} (shaped : shapeAt? code place = some shape) :
    place.start + shape.name.offset < place.stop := by
  obtain ⟨front, middle, back, split, isSpan, solid⟩ := (placedShape_of_read? shaped).name
  have length := Window.length_extract code place.start within
  rw [← EntryPlace.encoded_decode spells, EntryShape.length_encoded, split,
    EntryShape.width_append, EntryShape.width_append] at length
  obtain ⟨first, others, rfl, _⟩ := solid.first
  have positive := EntryShape.width_pos (List.cons_ne_nil first others)
  have offset : shape.name.offset = 0 + Bytes.width front := congrArg Span.start isSpan
  omega

/-- The names of the entries of a clause stand in the order of the entries. -/
theorem pairwise_located {code : Bytes} (legible : Quotes.Legible code) (text : Bytes) :
    (located text code).Pairwise fun first second => first.1 < second.1 := by
  rw [located, List.pairwise_filterMap]
  refine (pairwise_spans code).imp_of_mem ?_
  have inside {span : Span} (member : span ∈ (spans code).value) {offset : Nat} {entry : FromEntry}
      (made : ((place? code span).bind fun place => (shapeAt? code place).bind fun shape =>
        (ofShape (text.extract place.start place.stop) (code.extract place.start place.stop)
          (code.extract 0 place.start) shape).value.map fun entry =>
            (place.start + shape.name.offset, entry)) = some (offset, entry)) :
      span.start ≤ offset ∧ offset < span.stop := by
    have inCode := within_of_mem_spans span member
    obtain ⟨place, isPlace, made⟩ := Option.bind_eq_some_iff.mp made
    obtain ⟨shape, shaped, made⟩ := Option.bind_eq_some_iff.mp made
    obtain ⟨_, _, same⟩ := Option.map_eq_some_iff.mp made
    cases same
    have stretch := EntryPlace.stretch_place legible
      (EntryPlace.stretch_spans legible span member) isPlace
    have inSpan := within_of_place? inCode isPlace
    have named := name_within_place stretch.cutOut.isText stretch.stop.within shaped
    exact ⟨Nat.le_trans inSpan.begins (Nat.le_add_right _ _), Nat.lt_of_lt_of_le named inSpan.ends⟩
  rintro first second isFirst isSecond before ⟨left, _⟩ leftMade ⟨right, _⟩ rightMade
  have leftInside := inside isFirst leftMade
  have rightInside := inside isSecond rightMade
  exact Nat.lt_of_lt_of_le leftInside.2 (Nat.le_trans before rightInside.1)

end FromEntry

end QueryScope

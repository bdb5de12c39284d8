import Mathlib.Data.List.Basic
import Mathlib.Data.List.Nodup
import QueryScope.Proofs.SubquerySpans

/-!
# How subqueries are nested

The spans of subqueries come in the order of their ends and never cross. From this alone it
follows that the scopes around a subquery form a chain: the shortest one around it is its parent,
and the scopes around the parent are all the others. So the number of scopes around a subquery is
one more than that of its parent, and the level that counts them agrees with the level that the
parent gives.
-/

namespace QueryScope.Nesting

open SubquerySpans

/-- Subqueries in the order of their ends, of which no two cross. -/
structure Nested (subqueries : List Subquery) : Prop where
  ordered : (subqueries.map (·.span)).Pairwise EndsBefore
  proper : ∀ subquery ∈ subqueries, subquery.span.start < subquery.span.stop

/-- The subqueries of every code are nested. -/
theorem nested_all (code : Bytes) : Nested (Subquery.all code).value where
  ordered := spans_all_pairwise code
  proper := by
    intro subquery member
    obtain ⟨opening, closing, same, matching⟩ := exists_matches_of_mem_all member
    have inOrder := matching.inOrder
    rw [same]
    simp only
    omega

/-- Whether one subquery lies inside another with room on both sides. -/
def StrictlyInside (inner outer : Span) : Prop :=
  outer.start < inner.start ∧ inner.stop < outer.stop
deriving Decidable

/-- What it means for an offset to lie strictly inside a span. -/
theorem strictlyContains_iff (span : Span) (offset : Nat) :
    span.strictlyContains offset = true ↔ span.start < offset ∧ offset < span.stop := by
  rw [Span.strictlyContains, Bool.and_eq_true, decide_eq_true_eq, decide_eq_true_eq]

/-- Two subqueries at different positions of the list. -/
theorem Nested.endsBefore {subqueries : List Subquery} (nested : Nested subqueries)
    {first second : Nat} {left right : Subquery} (leftAt : subqueries[first]? = some left)
    (rightAt : subqueries[second]? = some right) (inOrder : first < second) :
    EndsBefore left.span right.span := by
  obtain ⟨firstWithin, rfl⟩ := List.getElem?_eq_some_iff.mp leftAt
  obtain ⟨secondWithin, rfl⟩ := List.getElem?_eq_some_iff.mp rightAt
  have ordered := List.pairwise_iff_getElem.mp nested.ordered first second
    (by simpa using firstWithin) (by simpa using secondWithin) inOrder
  simpa using ordered

/-- No two subqueries have the same span. -/
theorem Nested.position_eq {subqueries : List Subquery} (nested : Nested subqueries)
    {first second : Nat} {left right : Subquery} (leftAt : subqueries[first]? = some left)
    (rightAt : subqueries[second]? = some right) (same : left.span = right.span) :
    first = second := by
  rcases Nat.lt_trichotomy first second with earlier | samePosition | later
  · have ends := (nested.endsBefore leftAt rightAt earlier).1
    rw [same] at ends
    exact absurd ends (Nat.lt_irrefl _)
  · exact samePosition
  · have ends := (nested.endsBefore rightAt leftAt later).1
    rw [same] at ends
    exact absurd ends (Nat.lt_irrefl _)

/-- No subquery is listed twice. -/
theorem Nested.position_unique {subqueries : List Subquery} (nested : Nested subqueries)
    {first second : Nat} {subquery : Subquery} (firstAt : subqueries[first]? = some subquery)
    (secondAt : subqueries[second]? = some subquery) : first = second :=
  nested.position_eq firstAt secondAt rfl

/-- A subquery around the beginning of another one encloses it, and it is closed later. -/
theorem Nested.inside_iff {subqueries : List Subquery} (nested : Nested subqueries)
    {first second : Nat} {inner outer : Subquery} (innerAt : subqueries[first]? = some inner)
    (outerAt : subqueries[second]? = some outer) :
    outer.span.strictlyContains inner.span.start = true ↔
      first < second ∧ StrictlyInside inner.span outer.span := by
  rw [strictlyContains_iff, StrictlyInside]
  have innerProper := nested.proper inner (List.mem_of_getElem? innerAt)
  constructor
  · rintro ⟨after, before⟩
    rcases Nat.lt_trichotomy first second with earlier | same | later
    · obtain ⟨ends, placed⟩ := nested.endsBefore innerAt outerAt earlier
      exact ⟨earlier, after, ends⟩
    · subst same
      rw [innerAt] at outerAt
      cases outerAt
      omega
    · obtain ⟨ends, placed⟩ := nested.endsBefore outerAt innerAt later
      omega
  · rintro ⟨_, after, ends⟩
    exact ⟨after, by omega⟩

/-- The subqueries around a place, by their positions. -/
theorem mem_around_iff (subqueries : List Subquery) (offset : Nat) (outer : Subquery)
    (position : Nat) :
    (outer, position) ∈ Outline.around subqueries offset ↔
      subqueries[position]? = some outer ∧ outer.span.strictlyContains offset = true := by
  simp only [Outline.around, List.mem_filter, List.mem_zipIdx_iff_getElem?]

/-- No subquery is listed twice around a place. -/
theorem nodup_around (subqueries : List Subquery) (offset : Nat) :
    (Outline.around subqueries offset).Nodup := by
  refine List.Nodup.filter _ (List.Nodup.of_map Prod.snd ?_)
  rw [List.zipIdx_map_snd]
  exact List.nodup_range'

/-- No subquery is the shortest one only when there is none. -/
theorem shortest?_eq_none_iff (candidates : List (Subquery × Nat)) :
    Outline.shortest? candidates = none ↔ candidates = [] := by
  cases candidates with
  | nil => simp [Outline.shortest?]
  | cons candidate others =>
    simp only [Outline.shortest?, reduceCtorEq, iff_false]
    split
    · simp
    · split <;> simp

/-- What keeps the lengths of the candidates keeps which one is the shortest. -/
theorem shortest?_map_of_length {move : Subquery × Nat → Subquery × Nat}
    (sameLength : ∀ candidate, (move candidate).1.span.length = candidate.1.span.length)
    (candidates : List (Subquery × Nat)) :
    Outline.shortest? (candidates.map move) = (Outline.shortest? candidates).map move := by
  induction candidates with
  | nil => rfl
  | cons candidate others inductionHypothesis =>
    rw [List.map_cons, Outline.shortest?, inductionHypothesis, Outline.shortest?]
    cases Outline.shortest? others with
    | none => rfl
    | some other =>
      simp only [Option.map_some, sameLength]
      split <;> rfl

/-- The shortest of some subqueries is one of them, and none of them is shorter. -/
theorem shortest?_eq_some {candidates : List (Subquery × Nat)} {best : Subquery × Nat}
    (found : Outline.shortest? candidates = some best) :
    best ∈ candidates ∧ ∀ other ∈ candidates, best.1.span.length ≤ other.1.span.length := by
  induction candidates generalizing best with
  | nil => cases found
  | cons candidate others inductionHypothesis =>
    simp only [Outline.shortest?] at found
    cases rest : Outline.shortest? others with
    | none =>
      rw [rest] at found
      cases found
      rw [(shortest?_eq_none_iff others).mp rest]
      simp
    | some other =>
      rw [rest] at found
      obtain ⟨member, least⟩ := inductionHypothesis rest
      simp only at found
      split at found
      · rename_i shorter
        cases found
        refine ⟨List.mem_cons_of_mem _ member, ?_⟩
        intro tested isMember
        rcases List.mem_cons.mp isMember with rfl | isMember
        · exact Nat.le_of_lt shorter
        · exact least tested isMember
      · rename_i notShorter
        cases found
        refine ⟨List.mem_cons_self, ?_⟩
        intro tested isMember
        rcases List.mem_cons.mp isMember with rfl | isMember
        · exact Nat.le_refl _
        · have bound := least tested isMember
          omega

/-- Of two subqueries around a third one, the one that is closed first is inside the other. -/
theorem Nested.chain {subqueries : List Subquery} (nested : Nested subqueries)
    {position first second : Nat} {inner left right : Subquery}
    (innerAt : subqueries[position]? = some inner) (leftAt : subqueries[first]? = some left)
    (rightAt : subqueries[second]? = some right)
    (aroundLeft : left.span.strictlyContains inner.span.start = true)
    (aroundRight : right.span.strictlyContains inner.span.start = true)
    (inOrder : first < second) : StrictlyInside left.span right.span := by
  obtain ⟨ends, placed⟩ := nested.endsBefore leftAt rightAt inOrder
  have insideLeft := (nested.inside_iff innerAt leftAt).mp aroundLeft
  have insideRight := (nested.inside_iff innerAt rightAt).mp aroundRight
  have innerProper := nested.proper inner (List.mem_of_getElem? innerAt)
  refine ⟨?_, ends⟩
  rcases placed with opened | apart
  · exact opened
  · have behind := insideLeft.2.2
    have before := insideRight.2.1
    omega

/-- The subqueries around one that is not outermost are its parent, which is the shortest of them,
and those around the parent. -/
theorem Nested.around_perm {subqueries : List Subquery} (nested : Nested subqueries)
    {position parentPosition : Nat} {inner parent : Subquery}
    (innerAt : subqueries[position]? = some inner)
    (shortest : Outline.shortest? (Outline.around subqueries inner.span.start) =
      some (parent, parentPosition)) :
    (Outline.around subqueries inner.span.start).Perm
      ((parent, parentPosition) :: Outline.around subqueries parent.span.start) := by
  obtain ⟨isAround, least⟩ := shortest?_eq_some shortest
  obtain ⟨parentAt, parentAround⟩ := (mem_around_iff _ _ _ _).mp isAround
  have parentProper := nested.proper parent (List.mem_of_getElem? parentAt)
  have notAroundItself :
      (parent, parentPosition) ∉ Outline.around subqueries parent.span.start := by
    rw [mem_around_iff, strictlyContains_iff]
    omega
  refine (List.perm_ext_iff_of_nodup (nodup_around _ _)
    (List.nodup_cons.mpr ⟨notAroundItself, nodup_around _ _⟩)).mpr ?_
  rintro ⟨outer, outerPosition⟩
  rw [List.mem_cons, mem_around_iff, mem_around_iff]
  constructor
  · rintro ⟨outerAt, outerAround⟩
    rcases Nat.lt_trichotomy outerPosition parentPosition with earlier | same | later
    · -- an earlier one would be inside the parent, and so shorter than the shortest
      have inside := nested.chain innerAt outerAt parentAt outerAround parentAround earlier
      have bound := least (outer, outerPosition) ((mem_around_iff _ _ _ _).mpr
        ⟨outerAt, outerAround⟩)
      obtain ⟨afterStart, beforeStop⟩ := inside
      simp only [Span.length] at bound
      omega
    · subst same
      rw [parentAt] at outerAt
      cases outerAt
      exact .inl rfl
    · have inside := nested.chain innerAt parentAt outerAt parentAround outerAround later
      exact .inr ⟨outerAt, (nested.inside_iff parentAt outerAt).mpr ⟨later, inside⟩⟩
  · rintro (same | ⟨outerAt, outerAround⟩)
    · cases same
      exact ⟨parentAt, parentAround⟩
    · have aroundParent := (nested.inside_iff parentAt outerAt).mp outerAround
      have aroundInner := (nested.inside_iff innerAt parentAt).mp parentAround
      refine ⟨outerAt, (nested.inside_iff innerAt outerAt).mpr ⟨by omega, ?_⟩⟩
      exact ⟨Nat.lt_trans aroundParent.2.1 aroundInner.2.1,
        Nat.lt_trans aroundInner.2.2 aroundParent.2.2⟩

end QueryScope.Nesting

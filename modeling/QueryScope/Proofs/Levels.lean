import Mathlib.Data.List.Basic
import QueryScope.Proofs.Nesting

/-!
# Levels

The level of a scope is one more than that of its parent. Extraction gives out levels in one pass
over the subqueries, the longest first, so that a parent has its level before its children ask for
it. Here the pass is shown to count: every subquery gets the number of scopes around it. The rest of
the theory uses the count and never opens the pass.
-/

namespace QueryScope

namespace Outline

open Nesting

/-! ## From the longest to the shortest -/

/-- Putting a subquery in its place adds it and nothing else. So no subquery is lost and none comes
twice. -/
theorem insertByLength_perm (candidate : Subquery × Nat) (others : List (Subquery × Nat)) :
    (insertByLength candidate others).Perm (candidate :: others) := by
  induction others with
  | nil => exact .refl _
  | cons next rest inductionHypothesis =>
    rw [insertByLength]
    split
    · exact .refl _
    · exact (inductionHypothesis.cons next).trans (.swap candidate next rest)

/-- All subqueries take part in the pass, each with its position in the list, by which its level is
stored. -/
theorem longestFirst_perm (subqueries : List Subquery) :
    (longestFirst subqueries).Perm subqueries.zipIdx := by
  rw [longestFirst]
  generalize subqueries.zipIdx = candidates
  induction candidates with
  | nil => exact .refl _
  | cons candidate others inductionHypothesis =>
    exact (insertByLength_perm candidate _).trans (inductionHypothesis.cons candidate)

/-- Whether one subquery is not shorter than another. Those of the same length may come in any
order, as neither can be around the other. -/
def NotShorter (first second : Subquery × Nat) : Prop :=
  second.1.span.length ≤ first.1.span.length

/-- A subquery in its place keeps the order: it comes before the first one that is not longer. -/
theorem pairwise_insertByLength (candidate : Subquery × Nat) {others : List (Subquery × Nat)}
    (ordered : others.Pairwise NotShorter) :
    (insertByLength candidate others).Pairwise NotShorter := by
  induction others with
  | nil => exact List.pairwise_singleton _ _
  | cons next rest inductionHypothesis =>
    obtain ⟨behind, orderedRest⟩ := List.pairwise_cons.mp ordered
    rw [insertByLength]
    split
    · rename_i notLonger
      refine List.pairwise_cons.mpr ⟨?_, ordered⟩
      intro other member
      rcases List.mem_cons.mp member with rfl | later
      · exact notLonger
      · exact Nat.le_trans (behind other later) notLonger
    · rename_i longer
      refine List.pairwise_cons.mpr ⟨?_, inductionHypothesis orderedRest⟩
      intro other member
      rcases List.mem_cons.mp ((insertByLength_perm candidate rest).mem_iff.mp member) with
        rfl | later
      · exact Nat.le_of_lt (Nat.lt_of_not_le longer)
      · exact behind other later

/-- The pass goes from the longest subquery to the shortest. What is around a subquery is longer, so
the pass has come by it before. -/
theorem pairwise_longestFirst (subqueries : List Subquery) :
    (longestFirst subqueries).Pairwise NotShorter := by
  rw [longestFirst]
  induction subqueries.zipIdx with
  | nil => exact .nil
  | cons candidate others inductionHypothesis =>
    exact pairwise_insertByLength candidate inductionHypothesis

/-! ## One step of the pass, and the pass -/

/-- The number of scopes around a subquery, the main query included. It is defined with no regard to
the order of the pass. -/
def depth (subqueries : List Subquery) (subquery : Subquery) : Nat :=
  (around subqueries subquery.span.start).length + 1

/-- The subqueries that the pass has come by have their levels, and the main query keeps its own.
This is what holds between two steps of the pass. -/
structure Assigned (subqueries : List Subquery) (done : List (Subquery × Nat))
    (levels : List Nat) : Prop where
  length : levels.length = subqueries.length + 1
  main : levels[0]? = some 0
  known : ∀ candidate ∈ done, levels[candidate.2 + 1]? = some (depth subqueries candidate.1)

variable {subqueries : List Subquery} {done ahead : List (Subquery × Nat)} {levels : List Nat}
  {candidate : Subquery × Nat}

/-- What stands anywhere in the pass stands at its position in the list. -/
theorem getElem?_of_mem_longestFirst (member : candidate ∈ longestFirst subqueries) :
    subqueries[candidate.2]? = some candidate.1 :=
  List.mem_zipIdx_iff_getElem?.mp ((longestFirst_perm subqueries).mem_iff.mp member)

/-- The subquery that the pass comes by stands at its position in the list. -/
theorem getElem?_of_longestFirst_eq
    (isOrder : longestFirst subqueries = done ++ candidate :: ahead) :
    subqueries[candidate.2]? = some candidate.1 :=
  getElem?_of_mem_longestFirst (isOrder ▸ List.mem_append_right done List.mem_cons_self)

/-- A subquery that is around another is longer, so the pass has come by it before. -/
theorem mem_done_of_mem_around (nested : Nested subqueries)
    (isOrder : longestFirst subqueries = done ++ candidate :: ahead) {outer : Subquery × Nat}
    (isAround : outer ∈ around subqueries candidate.1.span.start) : outer ∈ done := by
  have placed := getElem?_of_longestFirst_eq isOrder
  obtain ⟨outerAt, outerAround⟩ := (mem_around_iff _ _ _ _).mp isAround
  have listed : outer ∈ done ++ candidate :: ahead := by
    rw [← isOrder, (longestFirst_perm subqueries).mem_iff, List.mem_zipIdx_iff_getElem?]
    exact outerAt
  rcases List.mem_append.mp listed with isDone | notYet
  · exact isDone
  · have ordered := pairwise_longestFirst subqueries
    rw [isOrder] at ordered
    have behind := (List.pairwise_cons.mp (List.pairwise_append.mp ordered).2.1).1
    have notLonger : outer.1.span.length ≤ candidate.1.span.length := by
      rcases List.mem_cons.mp notYet with rfl | later
      · exact Nat.le_refl _
      · exact behind outer later
    have proper := nested.proper candidate.1 (List.mem_of_getElem? placed)
    obtain ⟨_, afterStart, beforeStop⟩ := (nested.inside_iff placed outerAt).mp outerAround
    rw [Span.length, Span.length] at notLonger
    omega

/-- When the pass comes by a subquery, its parent has its level already. So one more than the level
of the parent is the number of scopes around the subquery. -/
theorem Assigned.succ_parent (nested : Nested subqueries)
    (assigned : Assigned subqueries done levels)
    (isOrder : longestFirst subqueries = done ++ candidate :: ahead) :
    levels.getD (parentOf subqueries candidate.1) 0 + 1 = depth subqueries candidate.1 := by
  cases shortest : shortest? (around subqueries candidate.1.span.start) with
  | none =>
    have outermost := (shortest?_eq_none_iff _).mp shortest
    rw [parentOf, shortest, Option.map_none, Option.getD_none, List.getD_eq_getElem?_getD,
      assigned.main, depth, outermost]
    rfl
  | some parent =>
    have isDone := mem_done_of_mem_around nested isOrder (shortest?_eq_some shortest).1
    have chain := (nested.around_perm (getElem?_of_longestFirst_eq isOrder) shortest).length_eq
    rw [List.length_cons] at chain
    rw [parentOf, shortest, Option.map_some, Option.getD_some, List.getD_eq_getElem?_getD,
      assigned.known parent isDone, Option.getD_some, depth, depth, chain]

/-- One step of the pass gives one more subquery its level and keeps the others, since each has a
place of its own. -/
theorem Assigned.step (nested : Nested subqueries) (assigned : Assigned subqueries done levels)
    (isOrder : longestFirst subqueries = done ++ candidate :: ahead) :
    Assigned subqueries (done ++ [candidate]) (assignLevel subqueries levels candidate) := by
  have level := assigned.succ_parent nested isOrder
  have placed (other : Subquery × Nat) (member : other ∈ done ++ [candidate]) :
      subqueries[other.2]? = some other.1 := by
    apply getElem?_of_mem_longestFirst
    rw [isOrder, ← List.singleton_append, ← List.append_assoc]
    exact List.mem_append_left ahead member
  have isCandidate := getElem?_of_longestFirst_eq isOrder
  have within : candidate.2 + 1 < levels.length := by
    rw [assigned.length]
    exact Nat.succ_lt_succ (List.getElem?_eq_some_iff.mp isCandidate).1
  rw [assignLevel, level]
  refine ⟨by rw [List.length_set, assigned.length], ?_, ?_⟩
  · rw [List.getElem?_set_ne (by omega)]
    exact assigned.main
  · intro other member
    by_cases same : candidate.2 = other.2
    · have isOther := placed other member
      rw [← same, isCandidate] at isOther
      rw [← same, List.getElem?_set_self within, Option.some.inj isOther]
    · rw [List.getElem?_set_ne (by omega)]
      rcases List.mem_append.mp member with isDone | isLast
      · exact assigned.known other isDone
      · exact absurd (congrArg Prod.snd (List.mem_singleton.mp isLast)).symm same

/-- The rest of the pass gives the rest of the subqueries their levels. By induction on those that
are still ahead, one step at a time. -/
theorem Assigned.run (nested : Nested subqueries) (assigned : Assigned subqueries done levels)
    (isOrder : longestFirst subqueries = done ++ ahead) :
    Assigned subqueries (done ++ ahead) (ahead.foldl (assignLevel subqueries) levels) := by
  induction ahead generalizing done levels with
  | nil => rwa [List.append_nil]
  | cons candidate others inductionHypothesis =>
    have regrouped : done ++ candidate :: others = (done ++ [candidate]) ++ others := by
      rw [List.append_assoc, List.singleton_append]
    have next := assigned.step nested isOrder
    rw [regrouped] at isOrder ⊢
    exact inductionHypothesis next isOrder

/-- Every subquery gets the number of scopes around it as its level. The pass begins with the main
query alone and comes by all of them. -/
theorem levels_getElem? (nested : Nested subqueries) (member : candidate ∈ subqueries.zipIdx) :
    (Outline.levels subqueries)[candidate.2 + 1]? = some (depth subqueries candidate.1) := by
  have start : Assigned subqueries [] (List.replicate (subqueries.length + 1) 0) := by
    refine ⟨List.length_replicate, by rw [List.replicate_succ]; rfl, ?_⟩
    intro other member
    cases member
  exact (start.run nested rfl).known candidate ((longestFirst_perm subqueries).mem_iff.mpr member)

/-- The outlines that are drawn have levels that count the scopes around. All that is proved about
outlines is proved about this form. -/
theorem drawAll_eq_all (length : Nat) (nested : Nested subqueries) :
    drawAll length subqueries = all length subqueries := by
  rw [drawAll, all]
  refine congrArg (main length :: ·) (List.map_congr_left ?_)
  intro candidate member
  rw [List.getD_eq_getElem?_getD, levels_getElem? nested member, Option.getD_some]
  rfl

end Outline

/-- Extraction takes apart one outline after the other. The reads by which the subqueries are found
come first and count for soundness; what they find is in the outlines. -/
theorem extraction_eq_each (query : String) :
    extraction query = Subquery.all (codeOf query) >>= fun _ =>
      Checked.each (Outline.complete (Bytes.ofString query) (codeOf query) (outlinesOf query))
        (outlinesOf query) := by
  have drawn := Outline.drawAll_eq_all (Bytes.ofString query).length
    (Nesting.nested_all (codeOf query))
  rw [outlinesOf, subqueriesOf, ← drawn]
  rfl

/-- So the scopes of a query are its outlines taken apart. -/
theorem extract_eq_map (query : String) :
    extract query = (outlinesOf query).map (scopeOf query) := by
  rw [extract, extraction_eq_each, Checked.value_bind, Checked.value_each]
  rfl

end QueryScope

import Mathlib.Data.List.Basic
import QueryScope.Proofs.ScopeTree
import QueryScope.Proofs.Window

/-!
# The scopes of a subquery among those of the query

The text between the parentheses of a subquery is a query of its own. Its subqueries are also
subqueries of the whole, further to the right and behind those that were closed earlier. This
module says how the outlines drawn for the text alone become outlines of the whole query: which
numbers move, and that parents, levels and children go along.
-/

namespace QueryScope

/-- Where the text of a subquery stands in a whole query. -/
structure Placement where
  /-- How far to the right the text begins. -/
  distance : Nat
  /-- How many scopes of subqueries come before those of the text. -/
  lead : Nat
  /-- The index of the subquery's own scope. -/
  host : Nat
  /-- The level of the subquery's own scope. -/
  level : Nat
deriving DecidableEq, Repr

namespace Placement

/-- The index in the whole query of the scope with a given index: the main query of the text is
the subquery itself. -/
def index (placement : Placement) (index : Nat) : Nat :=
  if index = 0 then placement.host else index + placement.lead

/-- A subquery of the text with its position, as they are in the whole query. -/
def candidate (placement : Placement) (candidate : Subquery × Nat) : Subquery × Nat :=
  (candidate.1.shift placement.distance, candidate.2 + placement.lead)

/-- An outline of a subquery of the text, as it is in the whole query. -/
def outline (placement : Placement) (outline : Outline) : Outline where
  index := outline.index + placement.lead
  level := outline.level + placement.level
  span := outline.span.shift placement.distance
  body := outline.body.shift placement.distance
  aliasName := outline.aliasName
  parent := outline.parent.map placement.index

end Placement

/-- The subqueries of a whole query around the text of one of them, which is the host. -/
structure Frame where
  whole : List Subquery
  /-- Those that are closed before the host is opened. -/
  earlier : List Subquery
  /-- Those of the host's text, at their places in that text. -/
  inner : List Subquery
  host : Subquery
  /-- Those that are closed after the host. -/
  later : List Subquery
  /-- The length of the host's text. -/
  length : Nat
  split : whole = earlier ++ (inner.map (·.shift (host.span.start + 1)) ++ host :: later)
  nested : Nesting.Nested whole
  innerNested : Nesting.Nested inner
  closed : host.span.stop = host.span.start + 1 + length + 1
  before : ∀ subquery ∈ earlier, subquery.span.stop ≤ host.span.start
  within : ∀ subquery ∈ inner, subquery.span.stop ≤ length

namespace Frame

open Nesting SubquerySpans

/-- The position of the host in the list. -/
def hostPosition (frame : Frame) : Nat := frame.earlier.length + frame.inner.length

/-- Where the host's text stands. -/
def placement (frame : Frame) : Placement where
  distance := frame.host.span.start + 1
  lead := frame.earlier.length
  host := frame.hostPosition + 1
  level := (Outline.around frame.whole frame.host.span.start).length + 1

/-- The inner query is moved to right behind the opening parenthesis of its host. -/
theorem distance_placement (frame : Frame) :
    frame.placement.distance = frame.host.span.start + 1 := rfl

/-- The subqueries with their positions, part by part. -/
theorem zipIdx_whole (frame : Frame) :
    frame.whole.zipIdx = frame.earlier.zipIdx ++
      (frame.inner.zipIdx.map frame.placement.candidate ++
        (frame.host, frame.hostPosition) :: frame.later.zipIdx (frame.hostPosition + 1)) := by
  have moved : (frame.inner.map (·.shift (frame.host.span.start + 1))).zipIdx frame.earlier.length =
      frame.inner.zipIdx.map frame.placement.candidate := by
    rw [List.zipIdx_map, List.zipIdx_eq_map_add, List.map_map]
    refine List.map_congr_left ?_
    rintro ⟨subquery, position⟩ _
    simp only [Placement.candidate, placement, Function.comp_apply, Prod.map, id_eq,
      Nat.add_comm]
  rw [frame.split, List.zipIdx_append, List.zipIdx_append, List.zipIdx_cons, Nat.zero_add, moved,
    List.length_map, hostPosition]

/-- The host by its position. -/
theorem host_at (frame : Frame) : frame.whole[frame.hostPosition]? = some frame.host := by
  have member : (frame.host, frame.hostPosition) ∈ frame.whole.zipIdx := by
    rw [zipIdx_whole]
    simp
  exact List.mem_zipIdx_iff_getElem?.mp member

/-- A subquery of the host's text by its position. -/
theorem inner_at (frame : Frame) {position : Nat} {subquery : Subquery}
    (found : frame.inner[position]? = some subquery) :
    frame.whole[position + frame.placement.lead]? =
      some (subquery.shift frame.placement.distance) := by
  have member : frame.placement.candidate (subquery, position) ∈ frame.whole.zipIdx := by
    rw [zipIdx_whole, List.mem_append, List.mem_append]
    exact .inr (.inl (List.mem_map_of_mem (List.mem_zipIdx_iff_getElem?.mpr found)))
  exact List.mem_zipIdx_iff_getElem?.mp member

/-- A subquery that is closed earlier, by its position. -/
theorem earlier_at (frame : Frame) {position : Nat} {subquery : Subquery}
    (found : frame.earlier[position]? = some subquery) :
    frame.whole[position]? = some subquery := by
  rw [frame.split]
  exact List.getElem?_append_left (List.getElem?_eq_some_iff.mp found).1 ▸ found

/-- A subquery that is closed later lies around the host or behind it. -/
theorem endsBefore_later (frame : Frame) {subquery : Subquery} (member : subquery ∈ frame.later) :
    EndsBefore frame.host.span subquery.span := by
  have ordered := frame.nested.ordered
  rw [frame.split, List.map_append, List.map_append, List.map_cons, List.pairwise_append,
    List.pairwise_append, List.pairwise_cons] at ordered
  exact ordered.2.1.2.1.1 subquery.span (List.mem_map_of_mem member)

/-- What lies around an offset, part by part. -/
theorem around_whole (frame : Frame) (offset : Nat) :
    Outline.around frame.whole offset =
      frame.earlier.zipIdx.filter (fun candidate => candidate.1.span.strictlyContains offset) ++
      ((frame.inner.zipIdx.map frame.placement.candidate).filter
          (fun candidate => candidate.1.span.strictlyContains offset) ++
        ((if frame.host.span.strictlyContains offset then [(frame.host, frame.hostPosition)]
          else []) ++
        (frame.later.zipIdx (frame.hostPosition + 1)).filter
          (fun candidate => candidate.1.span.strictlyContains offset))) := by
  rw [Outline.around, zipIdx_whole, List.filter_append, List.filter_append, List.filter_cons]
  congr 2
  by_cases isAround : frame.host.span.strictlyContains offset = true
  · rw [if_pos isAround, if_pos isAround]
    rfl
  · rw [if_neg isAround, if_neg isAround]
    rfl

/-- No subquery that is closed earlier lies around the host's first parenthesis or what follows. -/
theorem around_earlier (frame : Frame) {offset : Nat} (notBefore : frame.host.span.start ≤ offset) :
    frame.earlier.zipIdx.filter (fun candidate => candidate.1.span.strictlyContains offset) =
      [] := by
  rw [List.filter_eq_nil_iff]
  rintro ⟨subquery, position⟩ member
  have ended := frame.before subquery (List.fst_mem_of_mem_zipIdx member)
  rw [strictlyContains_iff]
  simp only
  omega

/-- What lies around the host is closed later. -/
theorem around_host (frame : Frame) :
    Outline.around frame.whole frame.host.span.start =
      (frame.later.zipIdx (frame.hostPosition + 1)).filter
        (fun candidate => candidate.1.span.strictlyContains frame.host.span.start) := by
  have noInner : (frame.inner.zipIdx.map frame.placement.candidate).filter
      (fun candidate => candidate.1.span.strictlyContains frame.host.span.start) = [] := by
    rw [List.filter_eq_nil_iff]
    intro candidate member
    obtain ⟨⟨subquery, position⟩, _, rfl⟩ := List.mem_map.mp member
    rw [strictlyContains_iff]
    simp only [Placement.candidate, Subquery.shift, Span.shift, distance_placement]
    omega
  have notHost : frame.host.span.strictlyContains frame.host.span.start = false := by
    rw [← Bool.not_eq_true, strictlyContains_iff]
    omega
  rw [around_whole, around_earlier frame (Nat.le_refl _), noInner, notHost]
  rfl

/-- Around a place in the host's text are the subqueries of the text around it, the host, and what
is around the host, in this order. -/
theorem around_inner (frame : Frame) {offset : Nat} (within : offset < frame.length) :
    Outline.around frame.whole (offset + frame.placement.distance) =
      (Outline.around frame.inner offset).map frame.placement.candidate ++
        (frame.host, frame.hostPosition) ::
          Outline.around frame.whole frame.host.span.start := by
  have inside : (frame.inner.zipIdx.map frame.placement.candidate).filter (fun candidate =>
      candidate.1.span.strictlyContains (offset + frame.placement.distance)) =
        (Outline.around frame.inner offset).map frame.placement.candidate := by
    rw [List.filter_map, Outline.around]
    congr 1
    refine List.filter_congr ?_
    rintro ⟨subquery, position⟩ _
    simp only [Function.comp_apply, Placement.candidate, Subquery.shift, Span.shift,
      Span.strictlyContains, Nat.add_lt_add_iff_right]
  have closed := frame.closed
  have isHost : frame.host.span.strictlyContains (offset + frame.placement.distance) = true := by
    rw [strictlyContains_iff, distance_placement]
    omega
  have outside : (frame.later.zipIdx (frame.hostPosition + 1)).filter (fun candidate =>
      candidate.1.span.strictlyContains (offset + frame.placement.distance)) =
        Outline.around frame.whole frame.host.span.start := by
    rw [around_host]
    refine List.filter_congr ?_
    rintro ⟨subquery, position⟩ member
    obtain ⟨ends, placed⟩ : EndsBefore frame.host.span subquery.span :=
      frame.endsBefore_later (List.fst_mem_of_mem_zipIdx member)
    rw [Bool.eq_iff_iff, strictlyContains_iff, strictlyContains_iff, distance_placement]
    simp only
    omega
  rw [around_whole, around_earlier frame (by rw [distance_placement]; omega), inside, isHost, outside]
  rfl

/-- Moving subqueries does not change which of them is the shortest. -/
theorem shortest?_map (placement : Placement) (candidates : List (Subquery × Nat)) :
    Outline.shortest? (candidates.map placement.candidate) =
      (Outline.shortest? candidates).map placement.candidate := by
  apply shortest?_map_of_length
  intro candidate
  simp only [Placement.candidate, Subquery.shift, Span.shift, Span.length, Nat.add_sub_add_right]

/-- Of subqueries that are shorter than all the others, the shortest is the shortest of all. -/
theorem shortest?_append {short long : List (Subquery × Nat)}
    (shorter : ∀ left ∈ short, ∀ right ∈ long, left.1.span.length < right.1.span.length) :
    Outline.shortest? (short ++ long) =
      (Outline.shortest? short).or (Outline.shortest? long) := by
  induction short with
  | nil => rfl
  | cons candidate others inductionHypothesis =>
    have othersShorter : ∀ left ∈ others, ∀ right ∈ long,
        left.1.span.length < right.1.span.length :=
      fun left member => shorter left (List.mem_cons_of_mem _ member)
    rw [List.cons_append, Outline.shortest?, inductionHypothesis othersShorter, Outline.shortest?]
    cases Outline.shortest? others with
    | none =>
      cases found : Outline.shortest? long with
      | none => rfl
      | some other =>
        have longer := shorter candidate List.mem_cons_self other (shortest?_eq_some found).1
        simp only [Option.none_or, if_neg (Nat.not_lt.mpr (Nat.le_of_lt longer)),
          Option.some_or]
    | some other =>
      simp only [Option.some_or]
      split <;> rfl

/-- The host is shorter than what lies around it. -/
theorem length_host_lt (frame : Frame) {candidate : Subquery × Nat}
    (member : candidate ∈ Outline.around frame.whole frame.host.span.start) :
    frame.host.span.length < candidate.1.span.length := by
  obtain ⟨outer, position⟩ := candidate
  obtain ⟨outerAt, outerAround⟩ := (mem_around_iff _ _ _ _).mp member
  obtain ⟨_, afterStart, beforeStop⟩ := (frame.nested.inside_iff frame.host_at outerAt).mp outerAround
  have closed := frame.closed
  simp only [Span.length]
  omega

/-- The shortest subquery around a place in the host's text is that of the text, if there is one,
and otherwise the host. -/
theorem shortest?_around_inner (frame : Frame) {offset : Nat} (within : offset < frame.length) :
    Outline.shortest? (Outline.around frame.whole (offset + frame.placement.distance)) =
      ((Outline.shortest? (Outline.around frame.inner offset)).map frame.placement.candidate).or
        (some (frame.host, frame.hostPosition)) := by
  have hostShortest : Outline.shortest? ((frame.host, frame.hostPosition) ::
      Outline.around frame.whole frame.host.span.start) =
        some (frame.host, frame.hostPosition) := by
    rw [Outline.shortest?]
    cases found : Outline.shortest? (Outline.around frame.whole frame.host.span.start) with
    | none => rfl
    | some other =>
      have longer := frame.length_host_lt (shortest?_eq_some found).1
      simp only [if_neg (Nat.not_lt.mpr (Nat.le_of_lt longer))]
  have innerShorter : ∀ left ∈ (Outline.around frame.inner offset).map frame.placement.candidate,
      ∀ right ∈ (frame.host, frame.hostPosition) ::
        Outline.around frame.whole frame.host.span.start,
      left.1.span.length < right.1.span.length := by
    intro left leftMember right rightMember
    obtain ⟨⟨subquery, position⟩, isAround, rfl⟩ := List.mem_map.mp leftMember
    have ended := frame.within subquery
      (List.mem_of_getElem? ((mem_around_iff _ _ _ _).mp isAround).1)
    have shorterThanHost : (frame.placement.candidate (subquery, position)).1.span.length <
        frame.host.span.length := by
      have closed := frame.closed
      simp only [Placement.candidate, Subquery.shift, Span.shift, Span.length]
      omega
    rcases List.mem_cons.mp rightMember with rfl | outer
    · exact shorterThanHost
    · exact Nat.lt_trans shorterThanHost (frame.length_host_lt outer)
  rw [around_inner frame within, shortest?_append innerShorter, shortest?_map, hostShortest]

/-- The outline of a subquery of the host's text moves with it. -/
theorem ofSubquery_inner (frame : Frame) {position : Nat} {subquery : Subquery}
    (found : frame.inner[position]? = some subquery) :
    Outline.ofSubquery frame.whole (subquery.shift frame.placement.distance)
        (position + frame.placement.lead) =
      frame.placement.outline (Outline.ofSubquery frame.inner subquery position) := by
  have member := List.mem_of_getElem? found
  have proper := frame.innerNested.proper subquery member
  have ended := frame.within subquery member
  have offsetWithin : subquery.span.start < frame.length := by omega
  have levels := congrArg List.length (frame.around_inner offsetWithin)
  have parents := frame.shortest?_around_inner offsetWithin
  rw [List.length_append, List.length_map, List.length_cons] at levels
  simp only [Outline.ofSubquery, Outline.parentOf, Placement.outline, Subquery.shift, Span.shift,
    Outline.mk.injEq, levels, parents, true_and, Option.map_some, Option.some.injEq]
  refine ⟨by omega, by simp only [placement]; omega, ?_⟩
  cases Outline.shortest? (Outline.around frame.inner subquery.span.start) with
  | none => rfl
  | some best => simp [Placement.index, Placement.candidate, Nat.add_right_comm]

/-- The outline of the host. -/
def hostOutline (frame : Frame) : Outline :=
  Outline.ofSubquery frame.whole frame.host frame.hostPosition

/-- The host's outline by its index, which is where the main query of its text goes. -/
theorem all_host (frame : Frame) (length : Nat) :
    (Outline.all length frame.whole)[frame.placement.index 0]? = some frame.hostOutline := by
  change (Outline.all length frame.whole)[frame.hostPosition + 1]? = _
  rw [ScopeTree.all_succ, host_at, Option.map_some, hostOutline]

/-- The outlines of the subqueries of the host's text, by their indices. -/
theorem all_inner (frame : Frame) (length : Nat) {index : Nat} {outline : Outline}
    (behindMain : 0 < index) (found : (Outline.all frame.length frame.inner)[index]? = some outline) :
    (Outline.all length frame.whole)[frame.placement.index index]? =
      some (frame.placement.outline outline) := by
  obtain ⟨position, rfl⟩ := Nat.exists_eq_succ_of_ne_zero (Nat.pos_iff_ne_zero.mp behindMain)
  rw [ScopeTree.all_succ] at found
  obtain ⟨subquery, placed, rfl⟩ := Option.map_eq_some_iff.mp found
  have target : frame.placement.index (position + 1) = position + frame.placement.lead + 1 := by
    rw [Placement.index, if_neg (Nat.succ_ne_zero _), Nat.add_right_comm]
  rw [target, ScopeTree.all_succ, frame.inner_at placed, Option.map_some,
    frame.ofSubquery_inner placed]

/-- No scope of the host's text begins before the host. -/
theorem start_le_of_index (frame : Frame) (length : Nat) {index : Nat} {outline : Outline}
    (bounded : index ≤ frame.inner.length)
    (found : (Outline.all length frame.whole)[frame.placement.index index]? = some outline) :
    frame.host.span.start ≤ outline.span.start := by
  cases index with
  | zero =>
    rw [all_host, Option.some.injEq] at found
    rw [← found]
    exact Nat.le_refl _
  | succ position =>
    obtain ⟨subquery, placed⟩ : ∃ subquery, frame.inner[position]? = some subquery :=
      ⟨_, List.getElem?_eq_getElem bounded⟩
    have innerFound : (Outline.all frame.length frame.inner)[position + 1]? =
        some (Outline.ofSubquery frame.inner subquery position) := by
      rw [ScopeTree.all_succ, placed, Option.map_some]
    rw [frame.all_inner length (Nat.succ_pos _) innerFound, Option.some.injEq] at found
    rw [← found]
    simp only [Placement.outline, Span.shift, distance_placement]
    omega

/-- Indices of the host's text lie behind those of the subqueries closed earlier, and the host's own
is the last. -/
theorem index_bounds (frame : Frame) {index : Nat} (bounded : index ≤ frame.inner.length) :
    frame.earlier.length < frame.placement.index index ∧
      frame.placement.index index ≤ frame.hostPosition + 1 := by
  rw [Placement.index]
  split
  · simp only [placement, hostPosition]
    omega
  · simp only [placement, hostPosition]
    omega

/-- Different scopes of the host's text keep different indices. -/
theorem index_inj (frame : Frame) {first second : Nat} (firstBounded : first ≤ frame.inner.length)
    (secondBounded : second ≤ frame.inner.length) :
    frame.placement.index first = frame.placement.index second ↔ first = second := by
  simp only [Placement.index, placement, hostPosition]
  constructor
  · intro same
    split at same <;> split at same <;> omega
  · rintro rfl
    rfl

/-- A subquery that is not one of the host's text has no parent among its scopes. -/
theorem parent_ne_of_outside (frame : Frame) {index position : Nat} {subquery : Subquery}
    (bounded : index ≤ frame.inner.length)
    (outside : frame.earlier[position]? = some subquery ∨
      frame.whole[position]? = some subquery ∧ frame.hostPosition ≤ position) :
    (Outline.ofSubquery frame.whole subquery position).parent ≠
      some (frame.placement.index index) := by
  have placed : frame.whole[position]? = some subquery := by
    rcases outside with isEarlier | ⟨isLater, _⟩
    · exact frame.earlier_at isEarlier
    · exact isLater
  obtain ⟨parentIndex, parent, isParent, parentAt, _, inside⟩ :=
    ScopeTree.exists_parent 0 frame.nested placed
  have bounds := frame.index_bounds bounded
  intro sameParent
  obtain rfl : parentIndex = frame.placement.index index :=
    Option.some.inj (isParent.symm.trans sameParent)
  obtain ⟨closedLater, afterStart, beforeStop⟩ := inside.resolve_left (by omega)
  rcases outside with isEarlier | ⟨_, isLater⟩
  · -- a subquery closed before the host would have to begin behind the host's beginning
    have opened := frame.start_le_of_index 0 bounded parentAt
    have ended := frame.before subquery (List.mem_of_getElem? isEarlier)
    have proper := frame.nested.proper subquery (List.mem_of_getElem? placed)
    omega
  · omega

/-- The children of a scope are outlines of subqueries. -/
theorem childrenOf_all (length : Nat) (subqueries : List Subquery) (index : Nat) :
    Outline.childrenOf (Outline.all length subqueries) index =
      (subqueries.zipIdx.filter fun candidate =>
        (Outline.ofSubquery subqueries candidate.1 candidate.2).parent == some index).map
          fun candidate => Outline.ofSubquery subqueries candidate.1 candidate.2 := by
  rw [Outline.childrenOf, Outline.all, List.filter_cons_of_neg (by simp [Outline.main]),
    List.filter_map]
  rfl

/-- A subquery has a scope of its list as parent. -/
theorem parent_ofSubquery_le {subqueries : List Subquery} (nested : Nested subqueries)
    {position : Nat} {subquery : Subquery} (found : subqueries[position]? = some subquery) :
    ∃ parentIndex ≤ subqueries.length,
      (Outline.ofSubquery subqueries subquery position).parent = some parentIndex := by
  obtain ⟨parentIndex, parent, isParent, parentAt, _⟩ := ScopeTree.exists_parent 0 nested found
  refine ⟨parentIndex, ?_, isParent⟩
  have within := (List.getElem?_eq_some_iff.mp parentAt).1
  simp only [Outline.all, List.length_cons, List.length_map, List.length_zipIdx] at within
  omega

/-- The children of the host are those of its text's main query, and the children of any other scope
of the text go along with it. -/
theorem childrenOf_index (frame : Frame) (length : Nat) {index : Nat}
    (bounded : index ≤ frame.inner.length) :
    Outline.childrenOf (Outline.all length frame.whole) (frame.placement.index index) =
      (Outline.childrenOf (Outline.all frame.length frame.inner) index).map
        frame.placement.outline := by
  have noEarlier : frame.earlier.zipIdx.filter (fun candidate =>
      (Outline.ofSubquery frame.whole candidate.1 candidate.2).parent ==
        some (frame.placement.index index)) = [] := by
    rw [List.filter_eq_nil_iff]
    rintro ⟨subquery, position⟩ member
    have placed := List.mem_zipIdx_iff_getElem?.mp member
    rw [beq_iff_eq]
    exact frame.parent_ne_of_outside bounded (.inl placed)
  have noLater : ((frame.host, frame.hostPosition) ::
      frame.later.zipIdx (frame.hostPosition + 1)).filter (fun candidate =>
        (Outline.ofSubquery frame.whole candidate.1 candidate.2).parent ==
          some (frame.placement.index index)) = [] := by
    rw [List.filter_eq_nil_iff]
    rintro ⟨subquery, position⟩ member
    have isMember : (subquery, position) ∈ frame.whole.zipIdx := by
      rw [zipIdx_whole, List.mem_append, List.mem_append]
      exact .inr (.inr member)
    have isLater : frame.hostPosition ≤ position := by
      rcases List.mem_cons.mp member with same | behind
      · cases same
        exact Nat.le_refl _
      · exact Nat.le_of_succ_le (List.le_snd_of_mem_zipIdx behind)
    rw [beq_iff_eq]
    exact frame.parent_ne_of_outside bounded
      (.inr ⟨List.mem_zipIdx_iff_getElem?.mp isMember, isLater⟩)
  have moved : ∀ candidate ∈ frame.inner.zipIdx,
      Outline.ofSubquery frame.whole (frame.placement.candidate candidate).1
        (frame.placement.candidate candidate).2 =
      frame.placement.outline (Outline.ofSubquery frame.inner candidate.1 candidate.2) := by
    rintro ⟨subquery, position⟩ member
    exact frame.ofSubquery_inner (List.mem_zipIdx_iff_getElem?.mp member)
  have sameChildren : frame.inner.zipIdx.filter ((fun candidate =>
      (Outline.ofSubquery frame.whole candidate.1 candidate.2).parent ==
        some (frame.placement.index index)) ∘ frame.placement.candidate) =
      frame.inner.zipIdx.filter (fun candidate =>
        (Outline.ofSubquery frame.inner candidate.1 candidate.2).parent == some index) := by
    refine List.filter_congr ?_
    rintro ⟨subquery, position⟩ member
    obtain ⟨parentIndex, parentBounded, isParent⟩ :=
      parent_ofSubquery_le frame.innerNested (List.mem_zipIdx_iff_getElem?.mp member)
    rw [Function.comp_apply, moved _ member, Placement.outline, isParent, Option.map_some,
      Bool.eq_iff_iff, beq_iff_eq, beq_iff_eq, Option.some.injEq, Option.some.injEq]
    exact frame.index_inj parentBounded bounded
  rw [childrenOf_all, childrenOf_all, zipIdx_whole, List.filter_append, List.filter_append,
    noEarlier, noLater, List.nil_append, List.append_nil, List.filter_map, sameChildren,
    List.map_map, List.map_map]
  refine List.map_congr_left ?_
  intro candidate member
  exact moved candidate (List.mem_filter.mp member).1

/-- The subqueries of the host's text lie strictly inside the host. -/
theorem inside_inner (frame : Frame) {subquery : Subquery} (member : subquery ∈ frame.inner) :
    StrictlyInside (subquery.shift frame.placement.distance).span frame.host.span := by
  have ended := frame.within subquery member
  have closed := frame.closed
  simp only [StrictlyInside, Subquery.shift, Span.shift, distance_placement]
  omega

/-- No subquery that is closed before the host is opened lies inside it. -/
theorem not_inside_earlier (frame : Frame) {subquery : Subquery}
    (member : subquery ∈ frame.earlier) : ¬ StrictlyInside subquery.span frame.host.span := by
  have ended := frame.before subquery member
  have proper := frame.nested.proper subquery (by
    rw [frame.split]
    exact List.mem_append_left _ member)
  rintro ⟨afterStart, _⟩
  omega

/-- Neither the host nor a subquery that is closed later lies inside the host. -/
theorem not_inside_later (frame : Frame) {subquery : Subquery}
    (member : subquery ∈ frame.host :: frame.later) :
    ¬ StrictlyInside subquery.span frame.host.span := by
  rintro ⟨afterStart, beforeStop⟩
  rcases List.mem_cons.mp member with rfl | isLater
  · omega
  · have ends := (frame.endsBefore_later isLater).1
    omega

/-- The subqueries inside the host are those of its text. -/
theorem inside_iff_position (frame : Frame) {position : Nat} {subquery : Subquery}
    (found : frame.whole[position]? = some subquery) :
    StrictlyInside subquery.span frame.host.span ↔
      frame.earlier.length ≤ position ∧ position < frame.hostPosition := by
  rw [frame.split] at found
  rcases Nat.lt_or_ge position frame.earlier.length with isEarlier | notEarlier
  · rw [List.getElem?_append_left isEarlier] at found
    have outside := frame.not_inside_earlier (List.mem_of_getElem? found)
    simp only [outside, false_iff]
    omega
  · rw [List.getElem?_append_right notEarlier] at found
    rcases Nat.lt_or_ge (position - frame.earlier.length) frame.inner.length with isInner | isLater
    · rw [List.getElem?_append_left (by rwa [List.length_map]), List.getElem?_map] at found
      obtain ⟨inner, innerAt, rfl⟩ := Option.map_eq_some_iff.mp found
      have inside := frame.inside_inner (List.mem_of_getElem? innerAt)
      simp only [hostPosition]
      exact ⟨fun _ => by omega, fun _ => inside⟩
    · rw [List.getElem?_append_right (by rwa [List.length_map])] at found
      have outside := frame.not_inside_later (List.mem_of_getElem? found)
      simp only [outside, hostPosition, false_iff]
      omega

/-- So many subqueries lie inside the host. -/
theorem countP_inside (frame : Frame) :
    frame.whole.countP (fun subquery => decide (StrictlyInside subquery.span frame.host.span)) =
      frame.inner.length := by
  have noEarlier : frame.earlier.countP
      (fun subquery => decide (StrictlyInside subquery.span frame.host.span)) = 0 := by
    rw [List.countP_eq_zero]
    intro subquery member
    simpa using frame.not_inside_earlier member
  have allInner : (frame.inner.map (·.shift (frame.host.span.start + 1))).countP
      (fun subquery => decide (StrictlyInside subquery.span frame.host.span)) =
        frame.inner.length := by
    rw [List.countP_map, List.countP_eq_length]
    intro subquery member
    exact decide_eq_true (frame.inside_inner member)
  have noLater : (frame.host :: frame.later).countP
      (fun subquery => decide (StrictlyInside subquery.span frame.host.span)) = 0 := by
    rw [List.countP_eq_zero]
    intro subquery member
    simpa using frame.not_inside_later member
  rw [frame.split, List.countP_append, List.countP_append, noEarlier, allInner, noLater,
    Nat.zero_add, Nat.add_zero]

end Frame

end QueryScope

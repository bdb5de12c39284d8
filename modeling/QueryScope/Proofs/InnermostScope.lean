import Mathlib.Data.List.Basic
import Mathlib.Data.List.Perm.Subperm
import QueryScope.Scope.Visibility
import QueryScope.Proofs.ScopeTree

/-!
# The scope at a caret

The scope at a caret is the one that is nested deepest among those around it, and of equally deep
ones a shortest. One may as well ask for the shortest scope around the caret, and of equally short
ones the deepest. In general the two rules differ. They agree on the scopes of a query, because the
scopes around a caret form a chain: each one lies inside the next and is one level deeper. A
subquery may be as long as the whole query, and then only the level tells it from the main query.
-/

namespace QueryScope.InnermostScope

open SubquerySpans Nesting ScopeTree

/-- One scope lies around another one: it covers the other one's span, and it is less deep. -/
structure Around (outer inner : Scope) : Prop where
  encloses : outer.span.encloses inner.span = true
  shallower : outer.level < inner.level

/-- The scope that lies inside all others around a caret. -/
structure Innermost (scopes : List Scope) (caret : Nat) (scope : Scope) : Prop where
  listed : scope ∈ scopes
  contains : scope.span.contains caret = true
  inside : ∀ other ∈ scopes, other.span.contains caret = true → other ≠ scope → Around other scope

/-- A scope with the shortest span around a caret; of equally short ones, the deepest. -/
structure Smallest (scopes : List Scope) (caret : Nat) (scope : Scope) : Prop where
  listed : scope ∈ scopes
  contains : scope.span.contains caret = true
  least : ∀ other ∈ scopes, other.span.contains caret = true →
    scope.span.length < other.span.length ∨
      scope.span.length = other.span.length ∧ other.level ≤ scope.level

/-- When an offset belongs to a span. -/
theorem contains_iff (span : Span) (offset : Nat) :
    span.contains offset = true ↔ span.start ≤ offset ∧ offset < span.stop := by
  rw [Span.contains, Bool.and_eq_true, decide_eq_true_eq, decide_eq_true_eq]

/-- When a span covers another one. -/
theorem encloses_iff (span inner : Span) :
    span.encloses inner = true ↔ span.start ≤ inner.start ∧ inner.stop ≤ span.stop := by
  rw [Span.encloses, Bool.and_eq_true, decide_eq_true_eq, decide_eq_true_eq]

/-- When the second of two scopes is preferred. -/
theorem isInner_iff (left right : Scope) :
    Scopes.isInner left right = true ↔
      left.level < right.level ∨
        left.level = right.level ∧ right.span.length ≤ left.span.length := by
  rw [Scopes.isInner, Bool.or_eq_true, Bool.and_eq_true, decide_eq_true_eq, beq_iff_eq,
    decide_eq_true_eq]

/-- One step of the search: of the first two scopes, the preferred one goes on. -/
theorem innermost?_cons_cons (first second : Scope) (others : List Scope) :
    Scopes.innermost? (first :: second :: others) =
      Scopes.innermost? ((if Scopes.isInner first second then second else first) :: others) := by
  simp only [Scopes.innermost?, List.foldl_cons]
  split
  · rfl
  · rfl

/-- The search ends with a scope that is preferred to every other one. -/
theorem exists_preferred (first : Scope) (others : List Scope) :
    ∃ best ∈ first :: others, Scopes.innermost? (first :: others) = some best ∧
      ∀ other ∈ first :: others, Scopes.isInner other best = true := by
  induction others generalizing first with
  | nil =>
    refine ⟨first, List.mem_singleton_self _, rfl, ?_⟩
    intro other member
    rw [List.mem_singleton.mp member, isInner_iff]
    omega
  | cons second others inductionHypothesis =>
    rw [innermost?_cons_cons]
    obtain ⟨best, member, found, preferred⟩ :=
      inductionHypothesis (if Scopes.isInner first second then second else first)
    have preferredToBoth : Scopes.isInner first best = true ∧ Scopes.isInner second best = true := by
      have toWinner := preferred _ List.mem_cons_self
      by_cases goesOn : Scopes.isInner first second = true
      · rw [if_pos goesOn] at toWinner
        rw [isInner_iff] at goesOn toWinner ⊢
        rw [isInner_iff]
        omega
      · rw [if_neg goesOn] at toWinner
        rw [isInner_iff] at goesOn toWinner ⊢
        rw [isInner_iff]
        omega
    refine ⟨best, ?_, found, ?_⟩
    · by_cases goesOn : Scopes.isInner first second = true
      · rw [if_pos goesOn] at member
        exact List.mem_cons_of_mem _ member
      · rw [if_neg goesOn] at member
        exact List.cons_subset_cons _ (List.subset_cons_self _ _) member
    · intro other isMember
      rcases List.mem_cons.mp isMember with rfl | isMember
      · exact preferredToBoth.1
      · rcases List.mem_cons.mp isMember with rfl | isLater
        · exact preferredToBoth.2
        · exact preferred other (List.mem_cons_of_mem _ isLater)

/-- A subquery inside another one has more subqueries around it: the other one, and all that are
around that. -/
theorem length_around_lt {subqueries : List Subquery} (nested : Nested subqueries)
    {first second : Nat} {inner outer : Subquery} (innerAt : subqueries[first]? = some inner)
    (outerAt : subqueries[second]? = some outer) (inside : StrictlyInside inner.span outer.span) :
    (Outline.around subqueries outer.span.start).length <
      (Outline.around subqueries inner.span.start).length := by
  have innerProper := nested.proper inner (List.mem_of_getElem? innerAt)
  have outerProper := nested.proper outer (List.mem_of_getElem? outerAt)
  have notAroundItself : (outer, second) ∉ Outline.around subqueries outer.span.start := by
    rw [mem_around_iff, strictlyContains_iff]
    omega
  have distinct : ((outer, second) :: Outline.around subqueries outer.span.start).Nodup :=
    List.nodup_cons.mpr ⟨notAroundItself, nodup_around _ _⟩
  have subset : (outer, second) :: Outline.around subqueries outer.span.start ⊆
      Outline.around subqueries inner.span.start := by
    rintro ⟨further, position⟩ member
    obtain ⟨afterStart, beforeStop⟩ := inside
    rcases List.mem_cons.mp member with same | isAround
    · cases same
      rw [mem_around_iff, strictlyContains_iff]
      exact ⟨outerAt, by omega⟩
    · obtain ⟨furtherAt, contains⟩ := (mem_around_iff _ _ _ _).mp isAround
      obtain ⟨_, furtherStart, furtherStop⟩ := (nested.inside_iff outerAt furtherAt).mp contains
      rw [mem_around_iff, strictlyContains_iff]
      exact ⟨furtherAt, by omega⟩
  exact (distinct.subperm subset).length_le

variable {query : String}

/-- The scope of the main query. -/
def mainScope (query : String) : Scope :=
  scopeOf query (Outline.main (Bytes.ofString query).length)

/-- The scope of a subquery. -/
def subqueryScope (query : String) (subquery : Subquery) (position : Nat) : Scope :=
  scopeOf query (Outline.ofSubquery (subqueriesOf query) subquery position)

/-- The main query comes first. -/
theorem getElem?_extract_zero (query : String) : (extract query)[0]? = some (mainScope query) := by
  rw [extract_eq_map, List.getElem?_map]
  rfl

/-- A scope is that of the main query or that of a subquery. -/
theorem main_or_subquery {scope : Scope} (member : scope ∈ extract query) :
    scope = mainScope query ∨ ∃ position subquery,
      (subqueriesOf query)[position]? = some subquery ∧
        scope = subqueryScope query subquery position := by
  obtain ⟨position, found⟩ := List.getElem?_of_mem member
  obtain ⟨outline, placed, rfl⟩ := getElem?_extract found
  cases position with
  | zero =>
    cases placed
    exact .inl rfl
  | succ previous =>
    obtain ⟨subquery, subqueryAt, rfl⟩ := getElem?_outlinesOf (Nat.succ_pos _) placed
    exact .inr ⟨previous, subquery, subqueryAt, rfl⟩

/-- The main query lies around every subquery. -/
theorem around_main {position : Nat} {subquery : Subquery}
    (found : (subqueriesOf query)[position]? = some subquery) :
    Around (mainScope query) (subqueryScope query subquery position) where
  encloses := by
    rw [encloses_iff]
    exact ⟨Nat.zero_le _, stop_le_length (List.mem_of_getElem? found)⟩
  shallower := Nat.succ_pos _

/-- A subquery lies around those strictly inside it. -/
theorem around_subquery {first second : Nat} {inner outer : Subquery}
    (innerAt : (subqueriesOf query)[first]? = some inner)
    (outerAt : (subqueriesOf query)[second]? = some outer)
    (inside : StrictlyInside inner.span outer.span) :
    Around (subqueryScope query outer second) (subqueryScope query inner first) where
  encloses := by
    rw [encloses_iff]
    exact ⟨Nat.le_of_lt inside.1, Nat.le_of_lt inside.2⟩
  shallower := Nat.succ_lt_succ (length_around_lt (nested_all _) innerAt outerAt inside)

/-- Of two scopes around a caret, one lies around the other. -/
theorem around_or_around {caret : Nat} {left right : Scope} (leftListed : left ∈ extract query)
    (rightListed : right ∈ extract query) (leftContains : left.span.contains caret = true)
    (rightContains : right.span.contains caret = true) (different : left ≠ right) :
    Around left right ∨ Around right left := by
  rcases main_or_subquery leftListed with rfl | ⟨first, inner, leftAt, rfl⟩
  · rcases main_or_subquery rightListed with rfl | ⟨second, outer, rightAt, rfl⟩
    · exact absurd rfl different
    · exact .inl (around_main rightAt)
  · rcases main_or_subquery rightListed with rfl | ⟨second, outer, rightAt, rfl⟩
    · exact .inr (around_main leftAt)
    · have positionsDiffer : first ≠ second := by
        rintro rfl
        rw [leftAt] at rightAt
        cases rightAt
        exact different rfl
      have leftBounds := (contains_iff inner.span caret).mp leftContains
      have rightBounds := (contains_iff outer.span caret).mp rightContains
      rcases apart_or_inside (nested_all _) leftAt rightAt positionsDiffer with
        before | behind | inside | inside
      · omega
      · omega
      · exact .inr (around_subquery leftAt rightAt inside)
      · exact .inl (around_subquery rightAt leftAt inside)

/-- A scope inside another one is no longer. -/
theorem Around.length_le {outer inner : Scope} (isAround : Around outer inner) :
    inner.span.length ≤ outer.span.length := by
  have bounds := (encloses_iff _ _).mp isAround.encloses
  rw [Span.length, Span.length]
  omega

/-- No two scopes are innermost. -/
theorem Innermost.unique {scopes : List Scope} {caret : Nat} {left right : Scope}
    (first : Innermost scopes caret left) (second : Innermost scopes caret right) :
    left = right := by
  by_contra different
  have deeper := (first.inside right second.listed second.contains (Ne.symm different)).shallower
  have shallower := (second.inside left first.listed first.contains different).shallower
  omega

/-- The innermost scope is the smallest one, and no other is. -/
theorem Innermost.smallest_iff {scopes : List Scope} {caret : Nat} {scope : Scope}
    (innermost : Innermost scopes caret scope) (other : Scope) :
    Smallest scopes caret other ↔ other = scope := by
  constructor
  · intro smallest
    by_contra different
    have isAround := innermost.inside other smallest.listed smallest.contains different
    have notLonger := isAround.length_le
    have shallower := isAround.shallower
    have least := smallest.least scope innermost.listed innermost.contains
    omega
  · rintro rfl
    refine ⟨innermost.listed, innermost.contains, ?_⟩
    intro another listed contains
    by_cases same : another = other
    · rw [same]
      omega
    · have isAround := innermost.inside another listed contains same
      have notLonger := isAround.length_le
      have shallower := isAround.shallower
      omega

/-- The deepest scope around a caret is the innermost one. -/
theorem innermost_of_innermost? {caret : Nat} {scope : Scope}
    (found : Scopes.innermost? ((extract query).filter (·.span.contains caret)) = some scope) :
    Innermost (extract query) caret scope := by
  cases around : (extract query).filter (·.span.contains caret) with
  | nil =>
    rw [around] at found
    cases found
  | cons first others =>
    rw [around] at found
    obtain ⟨best, member, isBest, preferred⟩ := exists_preferred first others
    rw [found] at isBest
    cases isBest
    rw [← around] at member preferred
    obtain ⟨listed, contains⟩ := List.mem_filter.mp member
    refine ⟨listed, contains, ?_⟩
    intro other otherListed otherContains different
    rcases around_or_around otherListed listed otherContains contains different with outer | inner
    · exact outer
    · have notDeeper := (isInner_iff _ _).mp
        (preferred other (List.mem_filter.mpr ⟨otherListed, otherContains⟩))
      have deeper := inner.shallower
      omega

/-- A scope ends inside its query. -/
theorem stop_le_of_mem_extract {scope : Scope} (member : scope ∈ extract query) :
    scope.span.stop ≤ query.utf8ByteSize := by
  rw [← Bytes.length_ofString]
  rcases main_or_subquery member with rfl | ⟨position, subquery, found, rfl⟩
  · exact Nat.le_refl _
  · exact stop_le_length (List.mem_of_getElem? found)

/-- The scope at a caret inside a query is the only innermost one around it, and this is the only
smallest one; at a caret behind the query it is the main query. -/
theorem scopeAt?_innermost (query : String) (caret : Nat) :
    ∃ scope, Scopes.scopeAt? (extract query) caret = some scope ∧
      if caret < query.utf8ByteSize then
        (∀ other, Innermost (extract query) caret other ↔ other = scope) ∧
          ∀ other, Smallest (extract query) caret other ↔ other = scope
      else
        (extract query)[0]? = some scope := by
  by_cases inside : caret < query.utf8ByteSize
  · have main : mainScope query ∈ (extract query).filter (·.span.contains caret) := by
      apply List.mem_filter.mpr
      refine ⟨List.mem_of_getElem? (getElem?_extract_zero query), ?_⟩
      rw [contains_iff]
      exact ⟨Nat.zero_le _, by rwa [← Bytes.length_ofString] at inside⟩
    obtain ⟨first, others, around⟩ := List.exists_cons_of_ne_nil (List.ne_nil_of_mem main)
    obtain ⟨best, _, found, _⟩ := exists_preferred first others
    rw [← around] at found
    have innermost := innermost_of_innermost? found
    refine ⟨best, ?_, ?_⟩
    · rw [Scopes.scopeAt?, found]
      rfl
    · rw [if_pos inside]
      constructor
      · intro other
        constructor
        · intro isInnermost
          exact isInnermost.unique innermost
        · rintro rfl
          exact innermost
      · exact innermost.smallest_iff
  · have nothing : (extract query).filter (·.span.contains caret) = [] := by
      rw [List.filter_eq_nil_iff]
      intro scope member
      have ended := stop_le_of_mem_extract member
      rw [contains_iff]
      omega
    refine ⟨mainScope query, ?_, ?_⟩
    · rw [Scopes.scopeAt?, nothing, extract_eq_map]
      rfl
    · rw [if_neg inside]
      exact getElem?_extract_zero query

end QueryScope.InnermostScope

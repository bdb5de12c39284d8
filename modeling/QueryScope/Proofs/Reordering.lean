import QueryScope.Proofs.Ancestry
import QueryScope.Proofs.Collections

/-!
# Scopes in another order

Scopes refer to one another by index, so a list of them should say the same in any order. Still,
those who read the list look at positions: a scope is first looked for at the position of its index,
of two scopes at a caret that are equally good the later one is taken, and the main query is the
first scope without a parent. This cannot be told from outside if the indices differ, there is one
main query, and no two scopes around a caret are equally good. The scopes of a query are such a
list, and so is every reordering of them.
-/

namespace QueryScope.Reordering

open Collections InnermostScope ScopeTree

/-- A list of scopes whose order cannot be told from what is found in it. -/
structure Orderless (scopes : List Scope) : Prop where
  /-- No two scopes share an index. -/
  indices : (scopes.map (·.index)).Nodup
  /-- There is a main query. -/
  hasMain : ∃ scope ∈ scopes, scope.isMain = true
  /-- There is no other main query. -/
  singleMain : ∀ left ∈ scopes, ∀ right ∈ scopes, left.isMain = true → right.isMain = true →
    left = right
  /-- Two scopes around a caret differ in level or in length. -/
  untied : ∀ caret, ∀ left ∈ scopes, ∀ right ∈ scopes, left.span.contains caret = true →
    right.span.contains caret = true → left.level = right.level →
      left.span.length = right.span.length → left = right

/-! ## Scopes by index -/

section Indices

variable {scopes left right : List Scope}

/-- Where indices differ, both ways of looking for an index find the one scope that has it. -/
theorem withIndex?_eq_some_iff (distinct : (scopes.map (·.index)).Nodup) (index : Nat)
    (scope : Scope) :
    Scopes.withIndex? scopes index = some scope ↔ scope ∈ scopes ∧ scope.index = index := by
  have searched := find?_key_eq_some_iff distinct index
  rw [Scopes.withIndex?]
  cases placed : (scopes[index]?).filter (·.index == index) with
  | none => rw [Option.none_or, searched]
  | some other =>
    obtain ⟨isPlaced, atIndex⟩ := Option.filter_eq_some_iff.mp placed
    -- The scope at the position is also what the search finds.
    have found := (searched other).mpr ⟨List.mem_of_getElem? isPlaced, beq_iff_eq.mp atIndex⟩
    rw [Option.some_or, ← found, searched]

/-- A reordering finds the same scope for every index. -/
theorem withIndex?_of_perm (distinct : (left.map (·.index)).Nodup) (reordered : left.Perm right) :
    Scopes.withIndex? left = Scopes.withIndex? right := by
  have distinctToo : (right.map (·.index)).Nodup := (reordered.map _).nodup_iff.mp distinct
  funext index
  apply Option.ext
  intro scope
  rw [withIndex?_eq_some_iff distinct, withIndex?_eq_some_iff distinctToo, reordered.mem_iff]

/-- The walk to the main query depends on the list only through its indices. -/
theorem ancestorsUpTo_congr (same : Scopes.withIndex? left = Scopes.withIndex? right)
    (scope : Scope) (limit : Nat) :
    Scopes.ancestorsUpTo left scope limit = Scopes.ancestorsUpTo right scope limit := by
  induction limit generalizing scope with
  | zero => rfl
  | succ limit inductionHypothesis =>
    simp only [Scopes.ancestorsUpTo, Scopes.parent?, same, inductionHypothesis]

/-- So does all that can be used inside a scope, the limit of the walk apart. -/
theorem visibilityIn_congr (same : Scopes.withIndex? left = Scopes.withIndex? right)
    (length : left.length = right.length) :
    Scopes.visibilityIn left = Scopes.visibilityIn right := by
  have sameNames : Scopes.derivedName left = Scopes.derivedName right := by
    funext table
    rw [Scopes.derivedName, Scopes.derivedName, same]
  have sameAliases : Scopes.visibleAliases left = Scopes.visibleAliases right := by
    have sameEntries : Scopes.visibleAlias left = Scopes.visibleAlias right := by
      funext isFromParent owner table
      simp only [Scopes.visibleAlias, Scopes.nameOf, sameNames]
    funext isFromParent owner
    rw [Scopes.visibleAliases, Scopes.visibleAliases, sameEntries]
  have sameColumns : Scopes.derivedColumns? left = Scopes.derivedColumns? right := by
    funext table
    simp only [Scopes.derivedColumns?, same, sameNames]
  have sameContributors : Scopes.contributors left = Scopes.contributors right := by
    funext allAncestors scope
    simp only [Scopes.contributors, Scopes.ancestors, Scopes.parent?, same, length,
      ancestorsUpTo_congr same]
  funext allAncestors scope
  simp only [Scopes.visibilityIn, sameAliases, sameColumns, sameContributors]

end Indices

/-! ## Scopes by caret -/

/-- Among scopes of which no two are equally good, the search finds the one that is preferred to all
others. -/
theorem innermost?_eq_some_iff {scopes : List Scope}
    (untied : ∀ left ∈ scopes, ∀ right ∈ scopes, left.level = right.level →
      left.span.length = right.span.length → left = right) (scope : Scope) :
    Scopes.innermost? scopes = some scope ↔
      scope ∈ scopes ∧ ∀ other ∈ scopes, Scopes.isInner other scope = true := by
  cases scopes with
  | nil => simp [Scopes.innermost?]
  | cons first others =>
    obtain ⟨best, isMember, found, preferred⟩ := exists_preferred first others
    rw [found, Option.some.injEq]
    constructor
    · rintro rfl
      exact ⟨isMember, preferred⟩
    · rintro ⟨listed, preferredToo⟩
      have forth := (isInner_iff _ _).mp (preferred scope listed)
      have back := (isInner_iff _ _).mp (preferredToo best isMember)
      exact untied best isMember scope listed (by omega) (by omega)

namespace Orderless

variable {left right : List Scope}

/-- A reordering is as good. -/
theorem of_perm (orderless : Orderless left) (reordered : left.Perm right) : Orderless right where
  indices := (reordered.map _).nodup_iff.mp orderless.indices
  hasMain := by
    obtain ⟨main, listed, isMain⟩ := orderless.hasMain
    exact ⟨main, reordered.subset listed, isMain⟩
  singleMain := by
    intro first isFirst second isSecond
    exact orderless.singleMain first (reordered.symm.subset isFirst) second
      (reordered.symm.subset isSecond)
  untied := by
    intro caret first isFirst second isSecond
    exact orderless.untied caret first (reordered.symm.subset isFirst) second
      (reordered.symm.subset isSecond)

/-- The scopes around a caret are not tied. -/
theorem untied_filter (orderless : Orderless left) (caret : Nat) :
    ∀ first ∈ left.filter (·.span.contains caret), ∀ second ∈ left.filter (·.span.contains caret),
      first.level = second.level → first.span.length = second.span.length → first = second := by
  intro first isFirst second isSecond
  obtain ⟨firstListed, firstContains⟩ := List.mem_filter.mp isFirst
  obtain ⟨secondListed, secondContains⟩ := List.mem_filter.mp isSecond
  exact orderless.untied caret first firstListed second secondListed firstContains secondContains

/-- A reordering has the same main query. -/
theorem find?_isMain_eq (orderless : Orderless left) (reordered : left.Perm right) :
    left.find? (·.isMain) = right.find? (·.isMain) := by
  apply Option.ext
  intro scope
  rw [find?_eq_some_iff_of_single orderless.singleMain,
    find?_eq_some_iff_of_single (orderless.of_perm reordered).singleMain, reordered.mem_iff]

/-- A reordering has the same innermost scope around every caret. -/
theorem innermost?_eq (orderless : Orderless left) (reordered : left.Perm right) (caret : Nat) :
    Scopes.innermost? (left.filter (·.span.contains caret)) =
      Scopes.innermost? (right.filter (·.span.contains caret)) := by
  have around := reordered.filter (·.span.contains caret)
  apply Option.ext
  intro scope
  rw [innermost?_eq_some_iff (orderless.untied_filter caret),
    innermost?_eq_some_iff ((orderless.of_perm reordered).untied_filter caret)]
  simp only [around.mem_iff]

/-- The scope at a caret is the innermost one around it or the main query; the first scope of the
list is never needed. -/
theorem scopeAt?_eq_or (orderless : Orderless left) (caret : Nat) :
    Scopes.scopeAt? left caret =
      (Scopes.innermost? (left.filter (·.span.contains caret))).or (left.find? (·.isMain)) := by
  obtain ⟨main, isMain⟩ := Option.isSome_iff_exists.mp (List.find?_isSome.mpr orderless.hasMain)
  rw [Scopes.scopeAt?, isMain, Option.or_assoc, Option.some_or]

/-- There is a scope at every caret. -/
theorem exists_scopeAt? (orderless : Orderless left) (caret : Nat) :
    ∃ scope ∈ left, Scopes.scopeAt? left caret = some scope := by
  rw [orderless.scopeAt?_eq_or]
  cases found : Scopes.innermost? (left.filter (·.span.contains caret)) with
  | some scope =>
    have isAround := ((innermost?_eq_some_iff (orderless.untied_filter caret) scope).mp found).1
    exact ⟨scope, (List.mem_filter.mp isAround).1, rfl⟩
  | none =>
    obtain ⟨main, listed, isMain⟩ := orderless.hasMain
    refine ⟨main, listed, ?_⟩
    rw [Option.none_or, find?_eq_some_iff_of_single orderless.singleMain]
    exact ⟨listed, isMain⟩

/-- A reordering has the same scope at every caret. -/
theorem scopeAt?_eq (orderless : Orderless left) (reordered : left.Perm right) (caret : Nat) :
    Scopes.scopeAt? left caret = Scopes.scopeAt? right caret := by
  rw [orderless.scopeAt?_eq_or, (orderless.of_perm reordered).scopeAt?_eq_or,
    orderless.innermost?_eq reordered, orderless.find?_isMain_eq reordered]

/-- A reordering makes the same visible inside every scope. -/
theorem visibilityIn_eq (orderless : Orderless left) (reordered : left.Perm right) :
    Scopes.visibilityIn left = Scopes.visibilityIn right :=
  visibilityIn_congr (withIndex?_of_perm orderless.indices reordered) reordered.length_eq

/-- A reordering refers to the same tables. -/
theorem referencedTables_eq (orderless : Orderless left) (reordered : left.Perm right) :
    Scopes.referencedTables left = Scopes.referencedTables right := by
  rw [Scopes.referencedTables, Scopes.referencedTables, orderless.find?_isMain_eq reordered]

end Orderless

/-! ## The scopes of a query -/

/-- Only the main query has no parent. -/
theorem eq_mainScope_of_isMain {query : String} {scope : Scope} (member : scope ∈ extract query)
    (isMain : scope.isMain = true) : scope = mainScope query := by
  rcases main_or_subquery member with same | ⟨position, subquery, _, rfl⟩
  · exact same
  · cases isMain

/-- The scopes of a query are numbered in order. -/
theorem map_index_extract (query : String) :
    (extract query).map (·.index) = List.range (extract query).length := by
  apply List.ext_getElem
  · rw [List.length_map, List.length_range]
  · intro position inside _
    rw [List.length_map] at inside
    obtain ⟨outline, placed, same⟩ := getElem?_extract (List.getElem?_eq_getElem inside)
    rw [List.getElem_map, List.getElem_range, same]
    exact index_of_all placed

/-- The order of the scopes of a query cannot be told. -/
theorem orderless_extract (query : String) : Orderless (extract query) where
  indices := by
    rw [map_index_extract]
    exact List.nodup_range
  hasMain := ⟨mainScope query, List.mem_of_getElem? (getElem?_extract_zero query), rfl⟩
  singleMain := by
    intro left isLeft right isRight leftMain rightMain
    rw [eq_mainScope_of_isMain isLeft leftMain, eq_mainScope_of_isMain isRight rightMain]
  untied := by
    intro caret left isLeft right isRight leftContains rightContains sameLevel _
    by_contra different
    rcases around_or_around isLeft isRight leftContains rightContains different with outer | inner
    · exact absurd outer.shallower (by omega)
    · exact absurd inner.shallower (by omega)

/-- Whatever the order in which the scopes of a query are listed, there is the same scope at every
caret, the same can be used inside it and inside every other scope, with all ancestors or without,
and the query refers to the same tables. -/
theorem extract_reordered (query : String) {scopes : List Scope}
    (reordered : scopes.Perm (extract query)) (caret : Nat) (allAncestors : Bool) :
    (∃ scope ∈ scopes, Scopes.scopeAt? scopes caret = some scope ∧
      Scopes.scopeAt? (extract query) caret = some scope) ∧
      (∀ scope, Scopes.visibilityIn scopes allAncestors scope =
        Scopes.visibilityIn (extract query) allAncestors scope) ∧
      Scopes.referencedTables scopes = Scopes.referencedTables (extract query) := by
  have orderless := (orderless_extract query).of_perm reordered.symm
  refine ⟨?_, ?_, orderless.referencedTables_eq reordered⟩
  · obtain ⟨scope, listed, found⟩ := orderless.exists_scopeAt? caret
    exact ⟨scope, listed, found, orderless.scopeAt?_eq reordered caret ▸ found⟩
  · intro scope
    rw [orderless.visibilityIn_eq reordered]

/-- A subquery as long as the query, with a derived table inside. -/
def wrapped : String := "(SELECT d.n, a.k FROM (SELECT c.n FROM c) d, app.a)"

/-- With its scopes the other way round the main query comes last. A caret in the subquery still
finds it, and the derived table still has its column there. A caret in the derived table sees the
names of the subquery around it. -/
theorem extract_reordered_backwards :
    let backwards := (extract wrapped).reverse
    backwards.Perm (extract wrapped) ∧ backwards.map (·.index) = [2, 1, 0] ∧
      (∀ scope, Scopes.visibilityIn backwards true scope =
        Scopes.visibilityIn (extract wrapped) true scope) ∧
      (Scopes.resolve? backwards true 10).map (fun found => (found.1.index, found.2)) =
        some (2,
          { aliases := [⟨"d", "", true, 2, false⟩, ⟨"a", "app.a", false, 2, false⟩]
            parentAliases := []
            tableColumns := [⟨"a", "app.a", []⟩]
            derivedColumns := [⟨"d", ["n"], 1⟩] }) ∧
      (Scopes.resolve? backwards true 30).map (fun found => (found.1.index, found.2)) =
        some (1,
          { aliases := [⟨"c", "c", false, 1, false⟩]
            parentAliases := [⟨"d", "", true, 2, true⟩, ⟨"a", "app.a", false, 2, true⟩]
            tableColumns := [⟨"c", "c", []⟩]
            derivedColumns := [] }) := by
  intro backwards
  have reordered : backwards.Perm (extract wrapped) := (extract wrapped).reverse_perm
  have visible := (extract_reordered wrapped reordered 0 true).2.1
  have resolved (caret : Nat) :
      Scopes.resolve? backwards true caret = Scopes.resolve? (extract wrapped) true caret := by
    obtain ⟨scope, _, found, foundToo⟩ := (extract_reordered wrapped reordered caret true).1
    rw [Scopes.resolve?, Scopes.resolve?, found, foundToo, Option.map_some, Option.map_some,
      visible]
  refine ⟨reordered, by decide +kernel, visible, ?_, ?_⟩
  · rw [resolved]
    decide +kernel
  · rw [resolved]
    decide +kernel

end QueryScope.Reordering

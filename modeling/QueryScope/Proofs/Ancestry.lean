import Mathlib.Data.List.Basic
import QueryScope.Proofs.InnermostScope

/-!
# What is visible from the scopes around one

The names of outer scopes are found by walking from a scope to its parent, from there to the
parent's parent, and so on. In a list of scopes handed in from outside such a walk need not end.
Among the scopes of a query every step goes one level up, so the walk visits as many scopes as the
level says and ends at the main query. Names are listed in the order of the walk, and that is why
an inner declaration hides the outer ones of the same name.
-/

namespace QueryScope.Ancestry

open ScopeTree InnermostScope

/-- The walk from a scope along the links to parents, with the scopes that it visits. It ends where
there is no parent; a link that leads nowhere has no walk. -/
inductive Ascent (scopes : List Scope) : Scope → List Scope → Prop where
  | main {scope : Scope} (isMain : scope.parent = none) : Ascent scopes scope []
  | step {scope around : Scope} {index : Nat} {further : List Scope}
      (isInside : scope.parent = some index) (found : scopes[index]? = some around)
      (onward : Ascent scopes around further) : Ascent scopes scope (around :: further)

/-- The first entry of a scope's FROM clause that has a name, in any case. -/
def declared? (scopes : List Scope) (name : String) (owner : Scope) : Option TableReference :=
  owner.tables.find? fun table => Text.sameName (Scopes.nameOf scopes table) name

section Walk

variable {scopes : List Scope}

/-- Where positions are indices, a scope is found at its index. -/
theorem withIndex?_eq_getElem?
    (indexed : ∀ position (scope : Scope), scopes[position]? = some scope → scope.index = position)
    (index : Nat) : Scopes.withIndex? scopes index = scopes[index]? := by
  rw [Scopes.withIndex?]
  cases placed : scopes[index]? with
  | some scope =>
    have atIndex : (scope.index == index) = true := beq_iff_eq.mpr (indexed index scope placed)
    simp only [Option.filter_some, atIndex, if_true, Option.some_or]
  | none =>
    rw [Option.filter_none, Option.none_or, List.find?_eq_none]
    intro scope member same
    obtain ⟨position, found⟩ := List.getElem?_of_mem member
    rw [← indexed position scope found, beq_iff_eq.mp same, placed] at found
    cases found

/-- A walk with a limit is the whole walk when the limit is high enough. -/
theorem ancestorsUpTo_eq (atIndex : ∀ index, Scopes.withIndex? scopes index = scopes[index]?)
    {scope : Scope} {visited : List Scope} (ascent : Ascent scopes scope visited) {limit : Nat}
    (enough : visited.length ≤ limit) : Scopes.ancestorsUpTo scopes scope limit = visited := by
  induction ascent generalizing limit with
  | main isMain =>
    cases limit with
    | zero => rfl
    | succ limit =>
      rw [Scopes.ancestorsUpTo, Scopes.parent?, isMain]
      rfl
  | step isInside found onward inductionHypothesis =>
    cases limit with
    | zero => cases enough
    | succ limit =>
      rw [Scopes.ancestorsUpTo, Scopes.parent?, isInside, Option.bind_some, atIndex, found]
      simp only [inductionHypothesis (Nat.le_of_succ_le_succ enough)]

/-- The first scope that a walk visits is the parent. -/
theorem parent?_eq_head? (atIndex : ∀ index, Scopes.withIndex? scopes index = scopes[index]?)
    {scope : Scope} {visited : List Scope} (ascent : Ascent scopes scope visited) :
    Scopes.parent? scopes scope = visited.head? := by
  cases ascent with
  | main isMain =>
    rw [Scopes.parent?, isMain]
    rfl
  | step isInside found _ =>
    rw [Scopes.parent?, isInside, Option.bind_some, atIndex, found, List.head?_cons]

end Walk

section Lookup

variable (scopes : List Scope) (name : String)

/-- Looking for a name among the aliases of one scope. -/
theorem find?_visibleAliases (isFromParent : Bool) (owner : Scope) :
    (Scopes.visibleAliases scopes isFromParent owner).find? (Text.sameName ·.name name) =
      (declared? scopes name owner).map (Scopes.visibleAlias scopes isFromParent owner) := by
  rw [Scopes.visibleAliases, List.find?_map]
  rfl

/-- Looking for a name among the aliases of a scope and of those around it. -/
theorem find?_chain (scope : Scope) (ancestors : List Scope) :
    (Scopes.visibleAliases scopes false scope ++
        ancestors.flatMap (Scopes.visibleAliases scopes true)).find? (Text.sameName ·.name name) =
      ((declared? scopes name scope).map (Scopes.visibleAlias scopes false scope)).or
        (ancestors.findSome? fun owner =>
          (declared? scopes name owner).map (Scopes.visibleAlias scopes true owner)) := by
  rw [List.find?_append, find?_visibleAliases, List.find?_flatMap]
  simp only [find?_visibleAliases]

/-- A name stands for its first declaration in the nearest scope that declares it. -/
theorem find?_chain_eq_some_iff (scope : Scope) (ancestors : List Scope) (seen : VisibleAlias) :
    (Scopes.visibleAliases scopes false scope ++
        ancestors.flatMap (Scopes.visibleAliases scopes true)).find?
          (Text.sameName ·.name name) = some seen ↔
      ∃ nearer owner farther table, scope :: ancestors = nearer ++ owner :: farther ∧
        (∀ other ∈ nearer, declared? scopes name other = none) ∧
        declared? scopes name owner = some table ∧
        seen = Scopes.visibleAlias scopes (!nearer.isEmpty) owner table := by
  rw [find?_chain]
  constructor
  · intro found
    cases own : declared? scopes name scope with
    | some table =>
      rw [own, Option.map_some, Option.some_or, Option.some.injEq] at found
      exact ⟨[], scope, ancestors, table, rfl, by simp, own, found.symm⟩
    | none =>
      rw [own, Option.map_none, Option.none_or, List.findSome?_eq_some_iff] at found
      obtain ⟨between, owner, farther, rfl, declares, silent⟩ := found
      obtain ⟨table, isFirst, rfl⟩ := Option.map_eq_some_iff.mp declares
      refine ⟨scope :: between, owner, farther, table, rfl, ?_, isFirst, rfl⟩
      intro other member
      rcases List.mem_cons.mp member with rfl | isBetween
      · exact own
      · exact Option.map_eq_none_iff.mp (silent other isBetween)
  · rintro ⟨nearer, owner, farther, table, chain, silent, isFirst, rfl⟩
    cases nearer with
    | nil =>
      cases chain
      rw [isFirst]
      rfl
    | cons first between =>
      cases chain
      rw [silent scope List.mem_cons_self, Option.map_none, Option.none_or,
        List.findSome?_eq_some_iff]
      refine ⟨between, owner, farther, rfl, ?_, ?_⟩
      · rw [isFirst]
        rfl
      · intro other isBetween
        rw [silent other (List.mem_cons_of_mem _ isBetween), Option.map_none]

/-- A name stands for nothing exactly if no scope declares it. -/
theorem find?_chain_eq_none_iff (scope : Scope) (ancestors : List Scope) :
    (Scopes.visibleAliases scopes false scope ++
        ancestors.flatMap (Scopes.visibleAliases scopes true)).find?
          (Text.sameName ·.name name) = none ↔
      ∀ owner ∈ scope :: ancestors, declared? scopes name owner = none := by
  rw [find?_chain, Option.or_eq_none_iff, Option.map_eq_none_iff, List.findSome?_eq_none_iff]
  simp only [Option.map_eq_none_iff, List.mem_cons, forall_eq_or_imp]

end Lookup

variable {query : String}

/-- A scope of a query is found at its index. -/
theorem withIndex?_extract (query : String) (index : Nat) :
    Scopes.withIndex? (extract query) index = (extract query)[index]? := by
  apply withIndex?_eq_getElem?
  intro position scope found
  obtain ⟨outline, placed, rfl⟩ := getElem?_extract found
  exact index_of_all placed

/-- From every scope of a query there is a walk. It visits as many scopes as the level says, because
each step goes one level up, and it ends at the main query. -/
theorem exists_ascent {scope : Scope} (member : scope ∈ extract query) :
    ∃ visited, Ascent (extract query) scope visited ∧ visited.length = scope.level ∧
      (scope :: visited).getLast? = (extract query)[0]? := by
  induction level : scope.level generalizing scope with
  | zero =>
    rcases main_or_subquery member with rfl | ⟨position, subquery, _, rfl⟩
    · exact ⟨[], .main rfl, rfl, (getElem?_extract_zero query).symm⟩
    · cases level
  | succ outer inductionHypothesis =>
    obtain ⟨position, found⟩ := List.getElem?_of_mem member
    have behindMain : 0 < position := by
      apply Nat.pos_of_ne_zero
      rintro rfl
      rw [getElem?_extract_zero] at found
      cases found
      cases level
    obtain ⟨index, parent, isParent, _, parentAt, oneUp, _⟩ := parented_extract behindMain found
    obtain ⟨visited, ascent, length, last⟩ :=
      inductionHypothesis (List.mem_of_getElem? parentAt) (by omega)
    refine ⟨parent :: visited, .step isParent parentAt ascent, ?_, ?_⟩
    · rw [List.length_cons, length]
    · rw [List.getLast?_cons_cons, last]

/-- A query has more scopes than levels. -/
theorem level_le_length {scope : Scope} (member : scope ∈ extract query) :
    scope.level ≤ (extract query).length := by
  have length : (extract query).length = (subqueriesOf query).length + 1 := by
    rw [extract_eq_map, outlinesOf, Outline.all, List.length_map, List.length_cons, List.length_map,
      List.length_zipIdx]
  rw [length]
  rcases main_or_subquery member with rfl | ⟨position, subquery, _, rfl⟩
  · exact Nat.zero_le _
  · have bound : (Outline.around (subqueriesOf query) subquery.span.start).length ≤
        (subqueriesOf query).length := by
      have fewer := List.length_filter_le
        (fun candidate => candidate.1.span.strictlyContains subquery.span.start)
        (subqueriesOf query).zipIdx
      rwa [List.length_zipIdx] at fewer
    exact Nat.succ_le_succ bound

/-- All scopes around one contribute names, or only the nearest of them. -/
theorem contributors_extract {scope : Scope} {visited : List Scope}
    (ascent : Ascent (extract query) scope visited) (length : visited.length = scope.level)
    (bounded : scope.level ≤ (extract query).length) (allAncestors : Bool) :
    Scopes.contributors (extract query) allAncestors scope =
      if allAncestors then visited else visited.take 1 := by
  rw [Scopes.contributors]
  by_cases isMain : scope.level = 0
  · rw [if_pos isMain]
    rw [isMain, List.length_eq_zero_iff] at length
    rw [length, List.take_nil, ite_self]
  · rw [if_neg isMain]
    cases allAncestors with
    | true =>
      simp only [if_true]
      exact ancestorsUpTo_eq (withIndex?_extract query) ascent (length ▸ bounded)
    | false =>
      simp only [Bool.false_eq_true, if_false]
      rw [parent?_eq_head? (withIndex?_extract query) ascent]
      cases visited <;> rfl

/-- What is visible from the scopes around one. The walk to the main query visits as many scopes as
the level says, whatever limit it is given beyond that. With all ancestors asked for, each entry of
each of them is listed, the nearest first; otherwise the list stops behind the parent, and nothing
else changes. A name stands for its first declaration in the nearest scope that declares it. -/
theorem visibilityIn_ancestry (query : String) (scope : Scope) (member : scope ∈ extract query) :
    let scopes := extract query
    let ancestors := Scopes.ancestors scopes scope
    let listed (owners : List Scope) : List VisibleAlias :=
      owners.flatMap fun owner => owner.tables.map fun table =>
        { name := Scopes.nameOf scopes table
          fullTableName := table.fullName
          isDerived := table.isDerived
          sourceScope := owner.index
          isFromParent := true }
    let visibility := Scopes.visibilityIn scopes true scope
    Ascent scopes scope ancestors ∧
      ancestors.length = scope.level ∧
      (∀ limit, scope.level ≤ limit → Scopes.ancestorsUpTo scopes scope limit = ancestors) ∧
      (scope :: ancestors).getLast? = scopes[0]? ∧
      visibility.parentAliases = listed ancestors ∧
      Scopes.visibilityIn scopes false scope =
        { visibility with parentAliases := listed (ancestors.take 1) } ∧
      listed (ancestors.take 1) <+: visibility.parentAliases ∧
      ∀ name,
        (∀ seen, visibility.findAlias? name = some seen ↔
          ∃ nearer owner farther table, scope :: ancestors = nearer ++ owner :: farther ∧
            (∀ other ∈ nearer, declared? scopes name other = none) ∧
            declared? scopes name owner = some table ∧
            seen = Scopes.visibleAlias scopes (!nearer.isEmpty) owner table) ∧
        (visibility.findAlias? name = none ↔
          ∀ owner ∈ scope :: ancestors, declared? scopes name owner = none) := by
  intro scopes ancestors listed visibility
  obtain ⟨visited, ascent, length, last⟩ := exists_ascent member
  have bounded := level_le_length member
  have walked (limit : Nat) (enough : scope.level ≤ limit) :
      Scopes.ancestorsUpTo scopes scope limit = visited :=
    ancestorsUpTo_eq (withIndex?_extract query) ascent (length ▸ enough)
  have same : ancestors = visited := walked _ bounded
  have contributed (allAncestors : Bool) :
      (Scopes.visibilityIn scopes allAncestors scope).parentAliases =
        listed (if allAncestors then visited else visited.take 1) := by
    rw [← contributors_extract ascent length bounded allAncestors]
    rfl
  have everything : visibility.parentAliases = listed visited := contributed true
  rw [same]
  refine ⟨ascent, length, walked, last, everything, ?_, ?_, ?_⟩
  · have parentOnly : (Scopes.visibilityIn scopes false scope).parentAliases =
        listed (visited.take 1) := contributed false
    rw [← parentOnly]
    rfl
  · rw [everything]
    refine ⟨listed (visited.drop 1), ?_⟩
    rw [← List.flatMap_append, List.take_append_drop]
  · intro name
    have found : visibility.findAlias? name =
        (Scopes.visibleAliases scopes false scope ++
          visited.flatMap (Scopes.visibleAliases scopes true)).find?
            (Text.sameName ·.name name) := by
      rw [Visibility.findAlias?, everything]
      rfl
    rw [found]
    exact ⟨find?_chain_eq_some_iff scopes name scope visited,
      find?_chain_eq_none_iff scopes name scope visited⟩

/-- A subquery inside a subquery. The main query and the outer subquery both declare x, and both
subqueries declare z. -/
def shadowed : String :=
  "SELECT 1 FROM a x, b y WHERE EXISTS (SELECT 1 FROM c x, d z WHERE EXISTS (SELECT 1 FROM e z))"

/-- From the inner subquery the walk leads over the outer one to the main query. Every declaration
on the way is listed, also the shadowed x of the main query, but x stands for that of the outer
subquery and z for that of the inner one. -/
theorem visibilityIn_ancestry_nested :
    let scopes := extract shadowed
    ∃ main inner outer, scopes = [main, inner, outer] ∧
      Scopes.ancestors scopes inner = [outer, main] ∧
      (Scopes.visibilityIn scopes true inner).parentAliases =
        [⟨"x", "c", false, 2, true⟩, ⟨"z", "d", false, 2, true⟩, ⟨"x", "a", false, 0, true⟩,
          ⟨"y", "b", false, 0, true⟩] ∧
      (Scopes.visibilityIn scopes false inner).parentAliases =
        [⟨"x", "c", false, 2, true⟩, ⟨"z", "d", false, 2, true⟩] ∧
      (Scopes.visibilityIn scopes true inner).findAlias? "X" = some ⟨"x", "c", false, 2, true⟩ ∧
      (Scopes.visibilityIn scopes true inner).findAlias? "z" = some ⟨"z", "e", false, 1, false⟩ ∧
      (Scopes.visibilityIn scopes true inner).findAlias? "y" = some ⟨"y", "b", false, 0, true⟩ ∧
      (Scopes.visibilityIn scopes true inner).findAlias? "a" = none := by
  have facts : (extract shadowed).map (fun scope => (scope.index, scope.parent, scope.tables)) =
      [(0, none, [⟨none, some "a", some "x", false, none⟩,
          ⟨none, some "b", some "y", false, none⟩]),
        (1, some 2, [⟨none, some "e", some "z", false, none⟩]),
        (2, some 0, [⟨none, some "c", some "x", false, none⟩,
          ⟨none, some "d", some "z", false, none⟩])] := by
    decide +kernel
  have three : _ = 3 := congrArg List.length facts
  rw [List.length_map] at three
  obtain ⟨main, inner, outer, listed⟩ := List.length_eq_three.mp three
  simp only [listed, List.map_cons, List.map_nil, List.cons.injEq, Prod.mk.injEq, and_true] at facts
  obtain ⟨⟨mainIndex, mainParent, mainTables⟩, ⟨innerIndex, innerParent, innerTables⟩,
    outerIndex, outerParent, outerTables⟩ := facts
  have ascent : Ascent (extract shadowed) inner [outer, main] :=
    .step innerParent (by rw [listed]; rfl) (.step outerParent (by rw [listed]; rfl)
      (.main mainParent))
  have walk : Scopes.ancestors (extract shadowed) inner = [outer, main] :=
    ancestorsUpTo_eq (withIndex?_extract shadowed) ascent (by rw [three]; exact Nat.le_succ 2)
  have member : inner ∈ extract shadowed := listed ▸ List.mem_cons_of_mem main List.mem_cons_self
  obtain ⟨_, _, _, _, everything, parentOnly, _, _⟩ :=
    visibilityIn_ancestry shadowed inner member
  simp only [walk, List.flatMap_cons, List.flatMap_nil, List.take_succ_cons, List.take_zero,
    outerTables, mainTables, outerIndex, mainIndex] at everything parentOnly
  have own : (Scopes.visibilityIn (extract shadowed) true inner).aliases =
      [⟨"z", "e", false, 1, false⟩] := by
    rw [Scopes.visibilityIn, Scopes.visibleAliases, innerTables]
    simp only [List.map_cons, List.map_nil, Scopes.visibleAlias, innerIndex]
    rfl
  have found (name : String) :
      (Scopes.visibilityIn (extract shadowed) true inner).findAlias? name =
        ([⟨"z", "e", false, 1, false⟩, ⟨"x", "c", false, 2, true⟩, ⟨"z", "d", false, 2, true⟩,
          ⟨"x", "a", false, 0, true⟩, ⟨"y", "b", false, 0, true⟩] : List VisibleAlias).find?
            (Text.sameName ·.name name) := by
    rw [Visibility.findAlias?, own, everything]
    rfl
  refine ⟨main, inner, outer, listed, walk, everything,
    congrArg Visibility.parentAliases parentOnly, ?_, ?_, ?_, ?_⟩
  · rw [found]
    decide +kernel
  · rw [found]
    decide +kernel
  · rw [found]
    decide +kernel
  · rw [found]
    decide +kernel

end QueryScope.Ancestry

import Mathlib.Data.List.Forall2
import QueryScope.Proofs.Ancestry
import QueryScope.Proofs.DerivedLinks

/-!
# Named and derived tables share out what is visible

Every entry of a scope's FROM clause makes one alias visible, and its columns are listed either among
those of named tables or among those of derived tables. A derived table would be left out of both
lists if it were not linked to a scope. In a query that holds no placeholder of its own this never
happens: each of its derived tables is linked to a child of its scope. So the two lists share out
the aliases without loss, each in the order of the FROM clause.
-/

namespace QueryScope.Partition

open Placeholder ScopeTree DerivedLinks

/-- A child of the owner that yields the rows of one of the owner's derived tables. -/
structure LinkedTo (scopes : List Scope) (owner : Scope) (table : TableReference) (child : Scope) :
    Prop where
  link : table.derivedScope = some child.index
  listed : scopes[child.index]? = some child
  inside : child.parent = some owner.index

/-- The alias that an entry of the owner's FROM clause makes visible inside the owner. A named table
goes by its alias or else by its own name. -/
structure MadeVisible (owner : Scope) (table : TableReference) (visible : VisibleAlias) : Prop where
  kind : visible.isDerived = table.isDerived
  fullName : visible.fullTableName = table.fullName
  source : visible.sourceScope = owner.index
  isOwn : visible.isFromParent = false
  named : table.isDerived = false → table.aliasName.or table.tableName = some visible.name

/-- The columns of a derived table: they are those of the child that it is linked to, and they are
listed under the name that is visible. Without an alias of its own the table has that of the child. -/
structure YieldsColumns (scopes : List Scope) (owner : Scope) (table : TableReference)
    (visible : VisibleAlias) (columns : DerivedColumns) : Prop where
  sameName : columns.aliasName = visible.name
  ofChild : ∃ child, LinkedTo scopes owner table child ∧
    columns.exposedColumns = child.exposedColumns ∧ columns.scopeIndex = child.index ∧
    visible.name = (table.aliasName.or child.aliasName).getD Scopes.unnamed

variable {query : String} {scope : Scope}

/-- Every derived table of a scope is linked, whether by its alias or by its position. -/
theorem isSome_derivedScope (free : Free (codeOf query)) (member : scope ∈ extract query)
    {table : TableReference} (listed : table ∈ scope.tables) (derived : table.isDerived = true) :
    table.derivedScope.isSome = true := by
  rw [extract_eq_map] at member
  obtain ⟨outline, isOutline, rfl⟩ := List.mem_map.mp member
  rw [tables_scopeOf, Masked.entries_eq_map_located, List.map_map] at listed
  obtain ⟨⟨offset, entry⟩, found, rfl⟩ := List.mem_map.mp listed
  have isDerived : entry.reference.isDerived = true := (kind_link _ _ _ entry).2.symm.trans derived
  obtain ⟨child, _, byPosition, _⟩ := exists_child_of_derived free isOutline found isDerived
  rw [Function.comp_apply, (link_of_derived isDerived byPosition).2, Option.isSome_some]

/-- Every derived table of a scope is linked to a child of the scope. -/
theorem exists_linkedTo (free : Free (codeOf query)) (member : scope ∈ extract query)
    {table : TableReference} (listed : table ∈ scope.tables) (derived : table.isDerived = true) :
    ∃ child, LinkedTo (extract query) scope table child := by
  obtain ⟨link, isLink⟩ :=
    Option.isSome_iff_exists.mp (isSome_derivedScope free member listed derived)
  obtain ⟨child, found, inside⟩ := (reference_extract member listed).2 link isLink
  obtain ⟨outline, placed, rfl⟩ := getElem?_extract found
  have atIndex : (scopeOf query outline).index = link := index_of_all placed
  refine ⟨scopeOf query outline, ?_, ?_, inside⟩
  · rw [isLink, atIndex]
  · rw [atIndex, found]

/-- The child that a derived table is linked to is found by its index. -/
theorem LinkedTo.withIndex?_eq {table : TableReference} {child : Scope}
    (linked : LinkedTo (extract query) scope table child) :
    Scopes.withIndex? (extract query) child.index = some child := by
  rw [Ancestry.withIndex?_extract, linked.listed]

/-- A derived table that is linked has columns. -/
theorem derivedColumns?_of_linkedTo {table : TableReference} {child : Scope}
    (linked : LinkedTo (extract query) scope table child) (derived : table.isDerived = true) :
    Scopes.derivedColumns? (extract query) table =
      some ⟨Scopes.nameOf (extract query) table, child.exposedColumns, child.index⟩ := by
  simp only [Scopes.derivedColumns?, Scopes.nameOf, derived, if_true, linked.link, Option.bind_some,
    linked.withIndex?_eq, Option.map_some]

/-- The name of a derived table that is linked. -/
theorem nameOf_of_linkedTo {table : TableReference} {child : Scope}
    (linked : LinkedTo (extract query) scope table child) (derived : table.isDerived = true) :
    Scopes.nameOf (extract query) table =
      (table.aliasName.or child.aliasName).getD Scopes.unnamed := by
  simp only [Scopes.nameOf, Scopes.derivedName, derived, if_true, linked.link, Option.bind_some,
    linked.withIndex?_eq]

/-- Each entry makes one alias visible. -/
theorem madeVisible (scopes : List Scope) (owner : Scope) {table : TableReference}
    (isNamed : table.tableName.isSome = !table.isDerived) :
    MadeVisible owner table (Scopes.visibleAlias scopes false owner table) where
  kind := rfl
  fullName := rfl
  source := rfl
  isOwn := rfl
  named := by
    intro named
    rw [named, Bool.not_false] at isNamed
    obtain ⟨name, isName⟩ := Option.isSome_iff_exists.mp isNamed
    simp only [Scopes.visibleAlias, Scopes.nameOf, named, Bool.false_eq_true, if_false,
      TableReference.displayName?, isName]
    cases table.aliasName <;> rfl

/-- The columns of named tables, still to be filled in, are listed under the aliases of named
tables. -/
theorem tableColumns_eq_map (scopes : List Scope) (owner : Scope) (tables : List TableReference) :
    tables.filterMap Scopes.tableColumns? =
      ((tables.map (Scopes.visibleAlias scopes false owner)).filter (!·.isDerived)).map
        fun visible => ⟨visible.name, visible.fullTableName, []⟩ := by
  induction tables with
  | nil => rfl
  | cons table others inductionHypothesis =>
    by_cases derived : table.isDerived = true
    · have noColumns : Scopes.tableColumns? table = none := by
        rw [Scopes.tableColumns?, if_pos derived]
      simp [noColumns, Scopes.visibleAlias, derived, inductionHypothesis]
    · have columns : Scopes.tableColumns? table =
          some ⟨Scopes.nameOf scopes table, table.fullName, []⟩ := by
        rw [Scopes.tableColumns?, if_neg derived, Scopes.nameOf, if_neg derived]
      simp [columns, Scopes.visibleAlias, derived, inductionHypothesis]

/-- The columns of derived tables are listed under the aliases of derived tables, provided that every
derived table is linked. -/
theorem derivedColumns_forall₂ {tables : List TableReference}
    (linked : ∀ table ∈ tables, table.isDerived = true →
      ∃ child, LinkedTo (extract query) scope table child) :
    List.Forall₂ (fun entry columns =>
        YieldsColumns (extract query) scope entry.1 entry.2 columns)
      ((tables.zip (tables.map (Scopes.visibleAlias (extract query) false scope))).filter
        (·.2.isDerived))
      (tables.filterMap (Scopes.derivedColumns? (extract query))) := by
  induction tables with
  | nil => exact .nil
  | cons table others inductionHypothesis =>
    have later := inductionHypothesis fun other member =>
      linked other (List.mem_cons_of_mem _ member)
    have sameKind : (Scopes.visibleAlias (extract query) false scope table).isDerived =
        table.isDerived := rfl
    simp only [List.map_cons, List.zip_cons_cons, List.filter_cons, sameKind]
    by_cases derived : table.isDerived = true
    · obtain ⟨child, isLinked⟩ := linked table List.mem_cons_self derived
      rw [if_pos derived,
        List.filterMap_cons_some (derivedColumns?_of_linkedTo isLinked derived)]
      refine .cons ⟨rfl, child, isLinked, rfl, rfl, ?_⟩ later
      exact nameOf_of_linkedTo isLinked derived
    · have noColumns : Scopes.derivedColumns? (extract query) table = none := by
        rw [Scopes.derivedColumns?, if_neg derived]
      rw [if_neg derived, List.filterMap_cons_none noColumns]
      exact later

/-- What is visible inside a scope is shared out between named and derived tables. Every derived table
is linked to a child of its scope. There is one alias for each entry of the FROM clause, in order; the
columns of named tables are listed under exactly the aliases of named tables and are still to be
filled in; those of derived tables are listed under exactly the aliases of derived tables and are the
columns of the children that they are linked to. -/
theorem visibilityIn_partition (query : String) (free : Free (codeOf query)) (scope : Scope)
    (member : scope ∈ extract query) (allAncestors : Bool) :
    let scopes := extract query
    let visibility := Scopes.visibilityIn scopes allAncestors scope
    (∀ table ∈ scope.tables, table.isDerived = true → ∃ child, LinkedTo scopes scope table child) ∧
      List.Forall₂ (MadeVisible scope) scope.tables visibility.aliases ∧
      visibility.tableColumns = (visibility.aliases.filter (!·.isDerived)).map
        (fun visible => ⟨visible.name, visible.fullTableName, []⟩) ∧
      List.Forall₂ (fun entry columns => YieldsColumns scopes scope entry.1 entry.2 columns)
        ((scope.tables.zip visibility.aliases).filter (·.2.isDerived)) visibility.derivedColumns := by
  intro scopes visibility
  have linked (table : TableReference) (listed : table ∈ scope.tables)
      (derived : table.isDerived = true) : ∃ child, LinkedTo scopes scope table child :=
    exists_linkedTo free member listed derived
  refine ⟨linked, ?_, ?_, ?_⟩
  · have aliases : visibility.aliases =
        scope.tables.map (Scopes.visibleAlias scopes false scope) := rfl
    rw [aliases, List.forall₂_map_right_iff, List.forall₂_same]
    intro table listed
    exact madeVisible scopes scope (reference_extract member listed).1
  · exact tableColumns_eq_map scopes scope scope.tables
  · exact derivedColumns_forall₂ linked

/-- A query with a named table and a derived table. -/
def mixed : String := "SELECT 1 FROM t, (SELECT 2 c) d"

/-- The derived table of that query is linked to its only subquery, whose column it has, and the named
table stands alone in the other list. -/
theorem visibilityIn_partition_mixed :
    Free (codeOf mixed) ∧ ∃ scope ∈ extract mixed,
      scope.tables.map (·.isDerived) = [false, true] ∧
      (Scopes.visibilityIn (extract mixed) false scope).tableColumns = [⟨"t", "t", []⟩] ∧
      (Scopes.visibilityIn (extract mixed) false scope).derivedColumns = [⟨"d", ["c"], 1⟩] ∧
      List.Forall₂ (MadeVisible scope) scope.tables
        (Scopes.visibilityIn (extract mixed) false scope).aliases := by
  have free : Free (codeOf mixed) := by decide +kernel
  have computed : ((extract mixed).head?.map fun scope =>
      (scope.tables.map (·.isDerived),
        (Scopes.visibilityIn (extract mixed) false scope).tableColumns,
        (Scopes.visibilityIn (extract mixed) false scope).derivedColumns)) =
      some ([false, true], [⟨"t", "t", []⟩], [⟨"d", ["c"], 1⟩]) := by decide +kernel
  obtain ⟨scope, isFirst, values⟩ := Option.map_eq_some_iff.mp computed
  have member := List.mem_of_head? isFirst
  obtain ⟨_, aliases, _⟩ := visibilityIn_partition mixed free scope member false
  simp only [Prod.mk.injEq] at values
  obtain ⟨kinds, tableColumns, derivedColumns⟩ := values
  exact ⟨free, scope, member, kinds, tableColumns, derivedColumns, aliases⟩

end QueryScope.Partition

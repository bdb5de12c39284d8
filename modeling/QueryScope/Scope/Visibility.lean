import QueryScope.Scope.Basic
import QueryScope.Catalog.Table

/-!
# Visibility

At a caret, the names that can be used are those of the innermost scope around it and, in a
subquery, those of the scope around that one, so that a correlated subquery can speak of outer
tables. On request the names of all further ancestors are listed as well, the nearest first.
Scopes may also be handed in from outside, so nothing is assumed about how they refer to one
another.
-/

namespace QueryScope

/-- A name that can be used at a caret. -/
structure VisibleAlias where
  /-- The alias, or else the table name; for a derived table without an alias that of its scope. -/
  name : String
  /-- The full name of the table, empty for a derived table. -/
  fullTableName : String
  isDerived : Bool
  /-- The scope whose FROM clause has the entry. -/
  sourceScope : Nat
  /-- Whether that scope is around the one at the caret. -/
  isFromParent : Bool
deriving DecidableEq, Repr

/-- The columns of a named table. They are left out until a catalog supplies them. -/
structure TableColumns where
  aliasName : String
  fullTableName : String
  columns : List Column
deriving DecidableEq, Repr

/-- The columns that a derived table yields. -/
structure DerivedColumns where
  aliasName : String
  exposedColumns : List String
  scopeIndex : Nat
deriving DecidableEq, Repr

/-- All that can be used at a caret. -/
structure Visibility where
  aliases : List VisibleAlias
  parentAliases : List VisibleAlias
  tableColumns : List TableColumns
  derivedColumns : List DerivedColumns
deriving DecidableEq, Repr

namespace Visibility

/-- The first alias with a name; those of the scope itself come before those around it. -/
def findAlias? (visibility : Visibility) (name : String) : Option VisibleAlias :=
  (visibility.aliases ++ visibility.parentAliases).find? (Text.sameName ·.name name)

end Visibility

namespace Scopes

/-- The scope with an index: the one at that position if it has the index, or else the first one
that has it. -/
def withIndex? (scopes : List Scope) (index : Nat) : Option Scope :=
  ((scopes[index]?).filter (·.index == index)).or (scopes.find? (·.index == index))

/-- Whether `right` is preferred to `left` as the scope at a caret inside both: it is nested deeper,
or as deep and no longer. -/
def isInner (left right : Scope) : Bool :=
  decide (left.level < right.level)
    || (left.level == right.level && decide (right.span.length ≤ left.span.length))

/-- The innermost of some scopes; the last one of those that are equal in this. -/
def innermost? (scopes : List Scope) : Option Scope :=
  scopes.foldl (fun best scope =>
    match best with
    | none => some scope
    | some inner => if isInner inner scope then some scope else some inner) none

/-- The scope at a caret: the innermost one around it, or else the main query, or else the first
scope. -/
def scopeAt? (scopes : List Scope) (caret : Nat) : Option Scope :=
  ((innermost? (scopes.filter (·.span.contains caret))).or (scopes.find? (·.isMain))).or
    scopes.head?

/-- The name of a derived table that has no alias anywhere. -/
def unnamed : String := "subquery"

/-- The name of a derived table: its alias, or else that of the scope that yields its rows. -/
def derivedName (scopes : List Scope) (table : TableReference) : String :=
  let yielding := table.derivedScope.bind (withIndex? scopes)
  (table.aliasName.or (yielding.bind (·.aliasName))).getD unnamed

/-- The name of an entry of a FROM clause. -/
def nameOf (scopes : List Scope) (table : TableReference) : String :=
  if table.isDerived then derivedName scopes table else table.displayName?.getD ""

/-- The alias that an entry of the owner's FROM clause makes visible. -/
def visibleAlias (scopes : List Scope) (isFromParent : Bool) (owner : Scope)
    (table : TableReference) : VisibleAlias where
  name := nameOf scopes table
  fullTableName := table.fullName
  isDerived := table.isDerived
  sourceScope := owner.index
  isFromParent := isFromParent

/-- The aliases that the owner's FROM clause makes visible. -/
def visibleAliases (scopes : List Scope) (isFromParent : Bool) (owner : Scope) :
    List VisibleAlias :=
  owner.tables.map (visibleAlias scopes isFromParent owner)

/-- The columns of an entry that names a table, still to be filled in. -/
def tableColumns? (table : TableReference) : Option TableColumns :=
  if table.isDerived then none
  else some ⟨table.displayName?.getD "", table.fullName, []⟩

/-- The columns of an entry that is a derived table, if the scope that yields its rows is there. -/
def derivedColumns? (scopes : List Scope) (table : TableReference) : Option DerivedColumns :=
  if table.isDerived then
    table.derivedScope.bind fun index => (withIndex? scopes index).map fun source =>
      ⟨derivedName scopes table, source.exposedColumns, index⟩
  else
    none

/-- The scope around another one, if it is there. -/
def parent? (scopes : List Scope) (scope : Scope) : Option Scope :=
  scope.parent.bind (withIndex? scopes)

/-- The scopes around another one, the nearest first, at most `limit` of them. -/
def ancestorsUpTo (scopes : List Scope) (scope : Scope) : Nat → List Scope
  | 0 => []
  | limit + 1 =>
    match parent? scopes scope with
    | none => []
    | some around => around :: ancestorsUpTo scopes around limit

/-- The scopes around another one, the nearest first. As long as no scope is around itself there
are no more of them than scopes in the list. -/
def ancestors (scopes : List Scope) (scope : Scope) : List Scope :=
  ancestorsUpTo scopes scope scopes.length

/-- Which scopes around the one at the caret contribute names: all of them, or the nearest. The main
query has none. -/
def contributors (scopes : List Scope) (allAncestors : Bool) (scope : Scope) : List Scope :=
  if scope.level = 0 then []
  else if allAncestors then ancestors scopes scope
  else (parent? scopes scope).toList

/-- What can be used inside a scope. -/
def visibilityIn (scopes : List Scope) (allAncestors : Bool) (scope : Scope) : Visibility where
  aliases := visibleAliases scopes false scope
  parentAliases := (contributors scopes allAncestors scope).flatMap (visibleAliases scopes true)
  tableColumns := scope.tables.filterMap tableColumns?
  derivedColumns := scope.tables.filterMap (derivedColumns? scopes)

/-- The scope at a caret together with what can be used there. -/
def resolve? (scopes : List Scope) (allAncestors : Bool) (caret : Nat) :
    Option (Scope × Visibility) :=
  (scopeAt? scopes caret).map fun scope => (scope, visibilityIn scopes allAncestors scope)

/-- Names in order, without those whose capitals have been seen. What is kept has been seen from
then on. -/
def unseen (seen : List String) : List String → List String
  | [] => []
  | name :: others =>
    if seen.contains (Text.upper name) then
      unseen seen others
    else
      name :: unseen (Text.upper name :: seen) others

/-- Names in order, without those that an earlier one equals when case is disregarded. -/
def firstSpellings (names : List String) : List String := unseen [] names

/-- The full names of the tables in the main query's FROM clause, each in its first spelling. -/
def referencedTables (scopes : List Scope) : List String :=
  match scopes.find? (·.isMain) with
  | none => []
  | some main =>
    firstSpellings (((main.tables.filter (!·.isDerived)).map (·.fullName)).filter (· != ""))

end Scopes

end QueryScope

import QueryScope.Text.Span
import QueryScope.Scope.TableReference

/-!
# Scopes

A scope is one SELECT block of a query: the main query or a subquery in parentheses. The scopes of
a query form a tree, kept as a list whose members refer to one another by index.
-/

namespace QueryScope

/-- A SELECT block. -/
structure Scope where
  /-- How deep the block is nested; the main query is at level 0. -/
  level : Nat
  /-- The number by which other scopes refer to this one. -/
  index : Nat
  /-- The part of the query that the block takes up, a subquery's parentheses included. -/
  span : Span
  /-- The text of the block, without the parentheses. -/
  content : String
  /-- The alias written behind a subquery. -/
  aliasName : Option String
  /-- The index of the scope directly around this one; the main query has none. -/
  parent : Option Nat
  /-- The text of the select list, with subqueries masked. -/
  selectList : String
  /-- The text of the FROM clause, with subqueries masked. -/
  fromClause : String
  /-- The text of the WHERE clause, with subqueries masked. -/
  whereClause : String
  /-- The entries of the FROM clause, in order. -/
  tables : List TableReference
  /-- The names of the columns that the block yields to the one around it. -/
  exposedColumns : List String
deriving DecidableEq, Repr, Inhabited

namespace Scope

/-- Whether the scope is a main query. -/
def isMain (scope : Scope) : Bool := scope.parent.isNone

/-- The first entry of the FROM clause that answers to a name. -/
def findTable? (scope : Scope) (name : String) : Option TableReference :=
  scope.tables.find? (·.answersTo name)

end Scope

end QueryScope

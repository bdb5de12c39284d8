import QueryScope.Text.Case

/-!
# Table references

A table reference is one entry of a FROM clause: a named table or a derived table, that is, a
subquery that yields rows. The record is plain data. Extraction gives every reference either a
table name or the mark of a derived table, but a reference handed in from outside may have both
or neither.
-/

namespace QueryScope

/-- An entry of a FROM clause. -/
structure TableReference where
  /-- The qualifier in front of the table name. -/
  schema : Option String
  /-- The name of the table; a derived table has none. -/
  tableName : Option String
  /-- The name under which the rest of the query speaks of the entry. -/
  aliasName : Option String
  /-- Whether the entry is a subquery. -/
  isDerived : Bool
  /-- The index of the scope that yields the rows of a derived table. -/
  derivedScope : Option Nat
deriving DecidableEq, Repr, Inhabited

namespace TableReference

/-- A reference to a named table. -/
def table (name : String) : TableReference := ⟨none, some name, none, false, none⟩

/-- A reference to a derived table that is not linked to its scope yet. -/
def derived : TableReference := ⟨none, none, none, true, none⟩

/-- The schema and the table name joined by a dot, the table name alone, or nothing. -/
def fullName (reference : TableReference) : String :=
  match reference.schema, reference.tableName with
  | some schema, some name => schema ++ "." ++ name
  | none, some name => name
  | _, none => ""

/-- The alias, or else the table name. -/
def displayName? (reference : TableReference) : Option String :=
  reference.aliasName.or reference.tableName

/-- Whether the reference answers to a name, as its alias or as its table name. -/
def answersTo (reference : TableReference) (name : String) : Bool :=
  reference.aliasName.any (Text.sameName · name) || reference.tableName.any (Text.sameName · name)

end TableReference

end QueryScope

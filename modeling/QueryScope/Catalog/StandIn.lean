import QueryScope.Catalog.Source

/-!
# Stand-in catalogs

A stand-in takes the place of a live catalog in rehearsals. It counts the lookups it serves, and
lookups of chosen names fail as if the connection were down. A name without a schema finds the
first table of that name.
-/

namespace QueryScope

/-- A catalog for rehearsals. -/
structure StandIn where
  tables : List Table := []
  /-- The names, in capitals, whose lookup fails. -/
  unavailable : List String := []
  /-- The number of lookups so far. -/
  lookups : Nat := 0
deriving DecidableEq, Repr

namespace StandIn

/-- The stand-in with a table added in place of the one with the same key. -/
def add (standIn : StandIn) (table : Table) : StandIn :=
  { standIn with tables := standIn.tables.filter (·.key != table.key) ++ [table] }

/-- The stand-in with lookups of one more name failing. -/
def addUnavailable (standIn : StandIn) (name : String) : StandIn :=
  { standIn with unavailable := Text.upper name :: standIn.unavailable }

/-- The table that a name refers to. -/
def find? (standIn : StandIn) (name : String) : Option Table :=
  let key := lookupKey name
  (standIn.tables.find? (·.key == key)).or (standIn.tables.find? (Text.sameName ·.name key))

/-- The answer to a lookup. -/
def answer (standIn : StandIn) (name : String) : Except CatalogError (List Column) :=
  if standIn.unavailable.contains (lookupKey name) then
    .error (.connectionFailed ("mock catalog offline for " ++ name))
  else match standIn.find? name with
    | some table => .ok table.columns
    | none => .error (.tableNotFound name)

instance : ColumnSource StandIn where
  columns name standIn := (standIn.answer name, { standIn with lookups := standIn.lookups + 1 })
  tables standIn := Table.sorted standIn.tables

end StandIn

end QueryScope

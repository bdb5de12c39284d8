import QueryScope.Catalog.DataType

/-!
# Tables and columns

What a catalog knows about a table: its name, its schema and its columns.
-/

namespace QueryScope

/-- A column of a table. -/
structure Column where
  name : String
  dataType : DataType
  nullable : Bool := true
  isPrimaryKey : Bool := false
  comment : Option String := none
deriving DecidableEq, Repr

namespace Column

/-- The column with its nullability set. -/
def withNullable (column : Column) (nullable : Bool) : Column := { column with nullable }

/-- The column as part of the primary key, which is never null. -/
def asPrimaryKey (column : Column) : Column :=
  { column with isPrimaryKey := true, nullable := false }

/-- The column with a comment. -/
def withComment (column : Column) (comment : String) : Column :=
  { column with comment := some comment }

/-- Whether the column has the given name, type and nullability. -/
def isLike (column : Column) (name : String) (dataType : DataType) (nullable : Bool) : Bool :=
  column.name == name && column.dataType == dataType && column.nullable == nullable

end Column

/-- A table or a view. -/
structure Table where
  name : String
  schema : String
  columns : List Column := []
  comment : Option String := none
deriving DecidableEq, Repr

namespace Table

/-- The schema and the name joined by a dot, or the name alone when the schema is empty. -/
def qualifiedName (table : Table) : String :=
  if table.schema = "" then table.name else table.schema ++ "." ++ table.name

/-- What the table is found by: its qualified name in capitals. -/
def key (table : Table) : String := Text.upper table.qualifiedName

/-- The first column with a name. -/
def column? (table : Table) (name : String) : Option Column :=
  table.columns.find? (Text.sameName ·.name name)

/-- The columns of the primary key. -/
def primaryKeys (table : Table) : List Column := table.columns.filter (·.isPrimaryKey)

/-- Tables in the order of their qualified names. -/
def sorted (tables : List Table) : List Table :=
  tables.mergeSort fun left right => decide (left.qualifiedName ≤ right.qualifiedName)

end Table

end QueryScope

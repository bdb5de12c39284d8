import QueryScope.Catalog.Source

/-!
# Directories

A directory is a fixed collection of tables. A table is found by its qualified name; a name without
a schema is looked for in the default schema first, and then among all schemas, where it must be
unique. Case never matters. Of two tables with the same key, the one added last stays.
-/

namespace QueryScope

/-- A fixed collection of tables. It is filled by adding tables one after the other, each in place
of the one with the same key. -/
structure Directory where
  tables : List Table := []
  defaultSchema : Option String := none
deriving DecidableEq, Repr

/-- What a document says about a directory. -/
structure DirectoryDocument where
  defaultSchema : Option String
  tables : List Table
deriving DecidableEq, Repr

namespace Directory

/-- The directory with a table added in place of the one with the same key. -/
def add (directory : Directory) (table : Table) : Directory :=
  { directory with tables := directory.tables.filter (·.key != table.key) ++ [table] }

/-- The directory with a default schema. -/
def withDefaultSchema (directory : Directory) (schema : String) : Directory :=
  { directory with defaultSchema := some schema }

/-- The directory that a document describes. A table without a name is refused. -/
def ofDocument (document : DirectoryDocument) : Except CatalogError Directory :=
  if document.tables.any (Text.isBlankText ·.name) then
    .error (.misconfigured "table entry without a name")
  else
    .ok (document.tables.foldl add { defaultSchema := document.defaultSchema })

/-- The number of tables. -/
def size (directory : Directory) : Nat := directory.tables.length

/-- The table with a key. -/
def withKey? (directory : Directory) (key : String) : Option Table :=
  directory.tables.find? (·.key == key)

/-- The table with a key in the default schema. -/
def inDefaultSchema? (directory : Directory) (key : String) : Option Table :=
  directory.defaultSchema.bind fun schema => directory.withKey? (Text.upper schema ++ "." ++ key)

/-- The tables of any schema with a name of their own. -/
def named (directory : Directory) (key : String) : List Table :=
  directory.tables.filter (Text.sameName ·.name key)

/-- Texts in order. -/
def sortedTexts (texts : List String) : List String :=
  texts.mergeSort fun left right => decide (left ≤ right)

/-- The table that a name refers to. -/
def find (directory : Directory) (name : String) : Except CatalogError Table :=
  let key := lookupKey name
  match directory.withKey? key with
  | some table => .ok table
  | none =>
    if key.toList.contains '.' then
      .error (.tableNotFound name)
    else match directory.inDefaultSchema? key with
      | some table => .ok table
      | none =>
        match directory.named key with
        | [] => .error (.tableNotFound name)
        | [table] => .ok table
        | many => .error (.ambiguousTable name (sortedTexts (many.map (·.schema))))

/-- The columns of the table that a name refers to. -/
def columns (directory : Directory) (name : String) : Except CatalogError (List Column) :=
  (directory.find name).map (·.columns)

instance : ColumnSource Directory where
  columns name directory := (directory.columns name, directory)
  tables directory := Table.sorted directory.tables

end Directory

end QueryScope

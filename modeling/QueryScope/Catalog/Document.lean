import QueryScope.Json.Record
import QueryScope.Json.Value
import QueryScope.Catalog.Directory

/-!
# Catalog documents

The JSON form of columns, tables and whole directories. A column is nullable and outside the primary
key unless it says otherwise; a comment is written only when there is one.
-/

namespace QueryScope

namespace Column

/-- The column that a document describes. -/
def ofDocument? (document : Json.Document) : Option Column := do
  let [name, dataType, nullable, isPrimaryKey, comment] ←
    document.fields? ["name", "data_type", "nullable", "is_primary_key", "comment"] | none
  return {
    name := ← name.bind (·.text?)
    dataType := DataType.parse (← dataType.bind (·.text?))
    nullable := ← Json.Document.orDefault true (·.boolean?) nullable
    isPrimaryKey := ← Json.Document.orDefault false (·.boolean?) isPrimaryKey
    comment := ← Json.Document.orDefault none (·.optionalText?) comment }

/-- The column that a text describes. -/
def ofText? (text : String) : Option Column := (Json.Document.parse? text).bind ofDocument?

/-- The column as a document. -/
def toJson (column : Column) : Json :=
  .record ([("name", .text column.name), ("data_type", .text column.dataType.display),
    ("nullable", .boolean column.nullable), ("is_primary_key", .boolean column.isPrimaryKey)]
    ++ (column.comment.map fun comment => ("comment", Json.text comment)).toList)

end Column

namespace Table

/-- The table that a document describes. -/
def ofDocument? (document : Json.Document) : Option Table := do
  let [name, schema, columns, comment] ←
    document.fields? ["name", "schema", "columns", "comment"] | none
  return {
    name := ← name.bind (·.text?)
    schema := ← schema.bind (·.text?)
    columns := ← Json.Document.orDefault [] (·.list? Column.ofDocument?) columns
    comment := ← Json.Document.orDefault none (·.optionalText?) comment }

/-- The table that a text describes. -/
def ofText? (text : String) : Option Table := (Json.Document.parse? text).bind ofDocument?

/-- The table as a document. -/
def toJson (table : Table) : Json :=
  .record ([("name", .text table.name), ("schema", .text table.schema),
    ("columns", .list (table.columns.map Column.toJson))]
    ++ (table.comment.map fun comment => ("comment", Json.text comment)).toList)

end Table

namespace DirectoryDocument

/-- What a document says about a directory. -/
def ofDocument? (document : Json.Document) : Option DirectoryDocument := do
  let [defaultSchema, tables] ← document.fields? ["default_schema", "tables"] | none
  return {
    defaultSchema := ← Json.Document.orDefault none (·.optionalText?) defaultSchema
    tables := ← tables.bind (·.list? Table.ofDocument?) }

end DirectoryDocument

namespace Directory

/-- The directory that a text describes. -/
def ofText (text : String) : Except CatalogError Directory :=
  match (Json.Document.parse? text).bind DirectoryDocument.ofDocument? with
  | some document => ofDocument document
  | none => .error (.unreadable "not a catalog document")

end Directory

end QueryScope

import QueryScope.Text.Escaped
import QueryScope.Catalog.Table

/-!
# Sources of columns

A source of columns answers with the columns of a table, or says why it cannot. A lookup may change
the source, for it may count its lookups or remember their answers.
-/

namespace QueryScope

/-- Why a catalog cannot answer. -/
inductive CatalogError where
  | connectionFailed (reason : String)
  | queryFailed (reason : String)
  | tableNotFound (name : String)
  /-- A name without a schema belongs to tables of several schemas. -/
  | ambiguousTable (name : String) (schemas : List String)
  /-- A document cannot be read. -/
  | unreadable (reason : String)
  | misconfigured (reason : String)
deriving DecidableEq, Repr

namespace CatalogError

/-- The text in which an error is reported. -/
def message : CatalogError → String
  | connectionFailed reason => "Failed to connect to database: " ++ reason
  | queryFailed reason => "Query execution failed: " ++ reason
  | tableNotFound name => "Table '" ++ name ++ "' not found"
  | ambiguousTable name schemas =>
    "Table '" ++ name ++ "' is ambiguous across schemas: " ++ Text.escapeList schemas
  | unreadable reason => "Failed to serialize schema data: " ++ reason
  | misconfigured reason => "Invalid catalog configuration: " ++ reason

end CatalogError

/-- A source of columns. -/
class ColumnSource (σ : Type) where
  /-- The columns of the table with a name, and the source after the lookup. -/
  columns : String → σ → Except CatalogError (List Column) × σ
  /-- All tables that the source knows, in the order of their qualified names. -/
  tables : σ → List Table

/-- What a name is looked up by: without the blanks at its ends and in capitals. -/
def lookupKey (name : String) : String := Text.upper (Text.trim name)

end QueryScope

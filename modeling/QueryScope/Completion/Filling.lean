import QueryScope.Catalog.Source
import QueryScope.Scope.Visibility

/-!
# Filling in columns

The columns of visible tables are filled in from a source of columns. Tables that differ only in the
case of their names are looked up once, under the first spelling. A lookup that fails leaves the
columns as they are, and the table is reported.
-/

namespace QueryScope

namespace Filling

/-- The name under which a table is looked up: the default schema is put in front of a name that
has no dot. -/
def lookupName (defaultSchema : Option String) (fullTableName : String) : String :=
  match defaultSchema with
  | none => fullTableName
  | some schema =>
    if fullTableName.toList.contains '.' then fullTableName else schema ++ "." ++ fullTableName

/-- What is known so far: for each key that was looked up, its columns if there was an answer. -/
abbrev Known := List (String × Option (List Column))

variable {σ : Type} [ColumnSource σ]

/-- What has been filled in, the tables whose lookup failed, and the source after the lookups. -/
structure Result (σ : Type) where
  tables : List TableColumns
  unresolved : List String
  source : σ

/-- Fill in the columns of each table in turn. A table without a name is passed over. -/
def fillFrom (defaultSchema : Option String) (known : Known) (source : σ) :
    List TableColumns → Result σ
  | [] => ⟨[], [], source⟩
  | table :: others =>
    if table.fullTableName = "" then
      let rest := fillFrom defaultSchema known source others
      { rest with tables := table :: rest.tables }
    else
      let name := lookupName defaultSchema table.fullTableName
      let key := Text.upper name
      let filled (columns : Option (List Column)) : TableColumns :=
        { table with columns := columns.getD table.columns }
      match known.lookup key with
      | some columns =>
        let rest := fillFrom defaultSchema known source others
        { rest with tables := filled columns :: rest.tables }
      | none =>
        match ColumnSource.columns name source with
        | (.ok columns, after) =>
          let rest := fillFrom defaultSchema ((key, some columns) :: known) after others
          { rest with tables := filled (some columns) :: rest.tables }
        | (.error _, after) =>
          let rest := fillFrom defaultSchema ((key, none) :: known) after others
          { rest with
            tables := table :: rest.tables
            unresolved := table.fullTableName :: rest.unresolved }

/-- Fill in the columns of some tables. -/
def fill (defaultSchema : Option String) (source : σ) (tables : List TableColumns) : Result σ :=
  fillFrom defaultSchema [] source tables

end Filling

end QueryScope

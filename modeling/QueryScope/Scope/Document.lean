import QueryScope.Catalog.Document
import QueryScope.Scope.Visibility

/-!
# Scopes and visibility as documents

The JSON form of everything that is found out about a query. Members come in a fixed order; what is
absent is null.
-/

namespace QueryScope

/-- The span as a document. -/
def Span.toJson (span : Span) : Json :=
  .record [("start", .number span.start), ("end", .number span.stop)]

/-- The reference as a document. -/
def TableReference.toJson (reference : TableReference) : Json :=
  .record [("schema", .optionalText reference.schema),
    ("table_name", .optionalText reference.tableName),
    ("alias", .optionalText reference.aliasName),
    ("is_derived_table", .boolean reference.isDerived),
    ("derived_table_scope_index", .optionalNumber reference.derivedScope)]

/-- The scope as a document. -/
def Scope.toJson (scope : Scope) : Json :=
  .record [("level", .number scope.level),
    ("index", .number scope.index),
    ("span", scope.span.toJson),
    ("content", .text scope.content),
    ("alias", .optionalText scope.aliasName),
    ("parent_index", .optionalNumber scope.parent),
    ("select_list", .text scope.selectList),
    ("from_clause", .text scope.fromClause),
    ("where_clause", .text scope.whereClause),
    ("tables", .list (scope.tables.map (·.toJson))),
    ("exposed_columns", .texts scope.exposedColumns)]

/-- The alias as a document. -/
def VisibleAlias.toJson (visible : VisibleAlias) : Json :=
  .record [("name", .text visible.name),
    ("full_table_name", .text visible.fullTableName),
    ("is_derived_table", .boolean visible.isDerived),
    ("source_scope_index", .number visible.sourceScope),
    ("is_from_parent_scope", .boolean visible.isFromParent)]

/-- The columns of a named table as a document. -/
def TableColumns.toJson (table : TableColumns) : Json :=
  .record [("alias", .text table.aliasName),
    ("full_table_name", .text table.fullTableName),
    ("columns", .list (table.columns.map (·.toJson)))]

/-- The columns of a derived table as a document. -/
def DerivedColumns.toJson (table : DerivedColumns) : Json :=
  .record [("alias", .text table.aliasName),
    ("exposed_columns", .texts table.exposedColumns),
    ("scope_index", .number table.scopeIndex)]

/-- The visibility as a document. -/
def Visibility.toJson (visibility : Visibility) : Json :=
  .record [("aliases", .list (visibility.aliases.map (·.toJson))),
    ("parent_aliases", .list (visibility.parentAliases.map (·.toJson))),
    ("table_columns", .list (visibility.tableColumns.map (·.toJson))),
    ("derived_table_columns", .list (visibility.derivedColumns.map (·.toJson)))]

end QueryScope

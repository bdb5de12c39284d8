import QueryScope.Scope.Document
import QueryScope.Completion.Session

/-!
# Reports

A report lists the scopes of a query and the tables of its main query and, if a caret is given, what
can be used there.
-/

namespace QueryScope.CommandLine

/-- What can be used at a caret. -/
structure Resolution where
  caret : Nat
  answer : Answer
deriving DecidableEq, Repr

/-- What is found out about a query. -/
structure Report where
  scopes : List Scope
  resolution : Option Resolution
deriving DecidableEq, Repr

/-- The resolution as a document. Unresolved tables are left out when there are none. -/
def Resolution.toJson (resolution : Resolution) : Json :=
  let answer := resolution.answer
  .record ([("caret", .number resolution.caret),
    ("scope_index", .number answer.scopeIndex),
    ("level", .number answer.level),
    ("visibility", answer.visibility.toJson)]
    ++ if answer.unresolvedTables.isEmpty then []
      else [("unresolved_tables", .texts answer.unresolvedTables)])

/-- The report as a document. The resolution is left out when no caret is given. -/
def Report.toJson (report : Report) : Json :=
  .record ([("scopes", .list (report.scopes.map (·.toJson))),
    ("referenced_tables", .texts (Scopes.referencedTables report.scopes))]
    ++ (report.resolution.map fun resolution => ("resolution", resolution.toJson)).toList)

end QueryScope.CommandLine

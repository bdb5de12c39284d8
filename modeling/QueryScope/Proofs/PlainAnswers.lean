import QueryScope.Catalog.StandIn
import QueryScope.CommandLine.Program
import QueryScope.Proofs.Levels
import QueryScope.Proofs.SessionRuns

/-!
# Answers without columns

A session answers what can be used at a caret with the columns of tables filled in; without a catalog
the same question is answered plainly. The two take different ways: the one hands its tables to a
source of columns, which may fail, answer differently from one time to the next and change with each
lookup. Still they agree on everything but the columns of tables and the tables that are reported.
What carries the argument is that filling in touches nothing but columns, table by table, whatever
the source does and whatever is known already.
-/

namespace QueryScope

/-- The entry for a table with its columns not filled in. -/
def TableColumns.bare (table : TableColumns) : TableColumns := { table with columns := [] }

/-- An answer without what a source of columns has to do with: the columns of tables and the tables
that are reported. -/
def Answer.bare (answer : Answer) : Answer :=
  { answer with
    visibility := { answer.visibility with
      tableColumns := answer.visibility.tableColumns.map TableColumns.bare }
    unresolvedTables := [] }

variable {σ : Type} [ColumnSource σ]

/-- Filling in changes nothing but columns: without them the tables are the same, in the same
order. -/
theorem Filling.map_bare_fillFrom (defaultSchema : Option String) (known : Known) (source : σ)
    (tables : List TableColumns) :
    (fillFrom defaultSchema known source tables).tables.map TableColumns.bare =
      tables.map TableColumns.bare := by
  induction tables generalizing known source with
  | nil => rfl
  | cons table others inductionHypothesis =>
    simp only [fillFrom]
    split
    · -- a table without a name
      rw [List.map_cons, List.map_cons, inductionHypothesis]
    · split
      · -- a table that has been looked up before
        rw [List.map_cons, List.map_cons, inductionHypothesis]
        rfl
      · split
        · rw [List.map_cons, List.map_cons, inductionHypothesis]
          rfl
        · rw [List.map_cons, List.map_cons, inductionHypothesis]

/-- No columns are filled in before a source is asked. -/
theorem Scopes.columns_of_mem_tableColumns {scopes : List Scope} {allAncestors : Bool} {scope : Scope}
    {table : TableColumns} (member : table ∈ (visibilityIn scopes allAncestors scope).tableColumns) :
    table.columns = [] := by
  obtain ⟨reference, _, made⟩ := List.mem_filterMap.mp member
  rw [tableColumns?] at made
  split at made
  · cases made
  · cases made
    rfl

/-- There is a scope at every caret. -/
theorem Scopes.exists_scopeAt (query : String) (caret : Nat) :
    ∃ scope, scopeAt? (extract query) caret = some scope := by
  apply Option.isSome_iff_exists.mp
  rw [scopeAt?, Option.isSome_or, extract_eq_map, outlinesOf, Outline.all, List.map_cons,
    List.head?_cons, Option.isSome_some, Bool.or_true]

namespace Session

variable {session : Session σ}

/-- No request changes the settings of a session. -/
theorem settings_serve (session : Session σ) (request : Request) :
    (session.serve request).2.settings = session.settings := by
  cases request with
  | resolve query caret =>
    simp only [Session.serve, Session.resolve]
    split <;> rfl
  | availableTables => rfl
  | advance milliseconds => rfl

/-- Nor does any sequence of requests. -/
theorem settings_run (session : Session σ) (requests : List Request) :
    (session.run requests).2.settings = session.settings := by
  induction requests generalizing session with
  | nil => rfl
  | cons request others inductionHypothesis =>
    rw [Session.run, inductionHypothesis, settings_serve]

/-- The answer of a session, without columns, is what can be used in the scope at the caret. -/
theorem bare_resolve {query : String} {caret : Nat} {scope : Scope}
    (isScope : Scopes.scopeAt? (extract query) caret = some scope) :
    (session.resolve query caret).1.bare =
      ⟨scope.index, scope.level,
        Scopes.visibilityIn (extract query) session.settings.allAncestors scope, []⟩ := by
  have untouched : ∀ table ∈ (Scopes.visibilityIn (extract query) session.settings.allAncestors
      scope).tableColumns, table.bare = table := by
    intro table member
    rw [TableColumns.bare, ← Scopes.columns_of_mem_tableColumns member]
  simp only [Session.resolve, Scopes.resolve?, isScope, Option.map_some, Answer.bare, Filling.fill,
    Filling.map_bare_fillFrom, List.map_congr_left untouched, List.map_id']

/-- Filling in columns is all that a source of columns does to an answer. Whatever a session has been
asked before, its answer at a caret is, but for the columns of tables and the tables that are
reported, the answer that is given without a catalog: what can be used in the scope at the caret,
where no table has columns. -/
theorem bare_resolve_eq_plain (settings : Settings) (sound : settings.fault? = none) (source : σ) :
    ∃ session, start settings source = .ok session ∧ ∀ requests query caret,
      let plain := CommandLine.resolvePlainly (extract query) settings caret
      (∃ scope, Scopes.scopeAt? (extract query) caret = some scope ∧
        plain = ⟨scope.index, scope.level,
          Scopes.visibilityIn (extract query) settings.allAncestors scope, []⟩) ∧
      (∀ table ∈ plain.visibility.tableColumns, table.columns = []) ∧
      ((session.run requests).2.resolve query caret).1.bare = plain := by
  obtain ⟨session, starts, transparent⟩ := exists_transparent_start source sound
  refine ⟨session, starts, ?_⟩
  intro requests query caret
  obtain ⟨scope, isScope⟩ := Scopes.exists_scopeAt query caret
  have isPlain : CommandLine.resolvePlainly (extract query) settings caret =
      ⟨scope.index, scope.level,
        Scopes.visibilityIn (extract query) settings.allAncestors scope, []⟩ := by
    simp only [CommandLine.resolvePlainly, Scopes.resolve?, isScope, Option.map_some]
  refine ⟨⟨scope, isScope, isPlain⟩, ?_, ?_⟩
  · rw [isPlain]
    exact fun table => Scopes.columns_of_mem_tableColumns
  · rw [bare_resolve isScope, settings_run, transparent.settings_eq, isPlain]

/-- A table that is found in the default schema, and one whose lookup fails. -/
theorem bare_resolve_eq_plain_offline :
    let orders : Table :=
      { name := "ORDERS", schema := "APP", columns := [{ name := "ID", dataType := .integer }] }
    let source : StandIn := { tables := [orders], unavailable := ["APP.ITEMS"] }
    let settings : Settings := { defaultSchema := some "app" }
    let query := "SELECT 1 FROM orders o, items"
    settings.fault? = none ∧ ∃ session, start settings source = .ok session ∧
      (session.resolve query 3).1.visibility.tableColumns.map (·.columns.length) = [1, 0] ∧
      (session.resolve query 3).1.unresolvedTables = ["items"] ∧
      (session.resolve query 3).1.bare = CommandLine.resolvePlainly (extract query) settings 3 := by
  intro orders source settings query
  have sound : settings.fault? = none := by decide +kernel
  obtain ⟨session, starts, plainly⟩ := bare_resolve_eq_plain settings sound source
  have isCached : start settings source =
      .ok ⟨settings, .cached { source, lifetime := settings.cacheTtlSecs * 1000 }⟩ := by
    simp only [start, sound]
    rw [if_neg (by decide)]
  cases starts.symm.trans isCached
  refine ⟨sound, _, starts, ?_, ?_, (plainly [] query 3).2.2⟩
  · decide +kernel
  · decide +kernel

end Session

end QueryScope

import QueryScope.Catalog.Cache
import QueryScope.Completion.Settings
import QueryScope.Completion.Debouncer
import QueryScope.Completion.Filling
import QueryScope.Scope.Extract

/-!
# Sessions

A session answers what can be used at a caret, with the columns of tables filled in. It has settings
and a source of columns, in front of which stands a cache unless the settings say that nothing is
remembered.
-/

namespace QueryScope

/-- Why a session cannot begin or answer. -/
inductive SessionError where
  | catalog (error : CatalogError)
  | settings (error : SettingsError)
deriving DecidableEq, Repr

namespace SessionError

/-- The text in which an error is reported. -/
def message : SessionError → String
  | catalog error => "Catalog error: " ++ error.message
  | settings error => "Configuration error: " ++ error.message

end SessionError

/-- Where a session gets its columns from. -/
inductive Backing (σ : Type) where
  | direct (source : σ)
  | cached (cache : Cache σ)

namespace Backing

variable {σ : Type} [ColumnSource σ]

/-- The source behind the cache, if there is one. -/
def source : Backing σ → σ
  | direct source => source
  | cached cache => cache.source

/-- The backing some milliseconds later. -/
def advance (milliseconds : Nat) : Backing σ → Backing σ
  | direct source => direct source
  | cached cache => cached (cache.advance milliseconds)

/-- Look up the columns of a table. -/
def columns (name : String) : Backing σ → Except CatalogError (List Column) × Backing σ
  | direct source =>
    let (answer, after) := ColumnSource.columns name source
    (answer, direct after)
  | cached cache =>
    let (answer, after) := cache.columns name
    (answer, cached after)

instance : ColumnSource (Backing σ) where
  columns := columns
  tables backing := ColumnSource.tables backing.source

end Backing

/-- What can be used at a caret, with columns filled in. -/
structure Answer where
  /-- The scope at the caret. -/
  scopeIndex : Nat
  level : Nat
  visibility : Visibility
  /-- The tables whose columns could not be found. -/
  unresolvedTables : List String
deriving DecidableEq, Repr

/-- A session with its settings. -/
structure Session (σ : Type) where
  settings : Settings
  backing : Backing σ

namespace Session

variable {σ : Type} [ColumnSource σ]

/-- Begin a session. The settings are checked first. -/
def start (settings : Settings) (source : σ) : Except SessionError (Session σ) :=
  match settings.fault? with
  | some error => .error (.settings error)
  | none =>
    if settings.cacheTtlSecs = 0 then
      .ok ⟨settings, .direct source⟩
    else
      .ok ⟨settings, .cached { source, lifetime := settings.cacheTtlSecs * 1000 }⟩

/-- A debouncer that waits for the pause of the settings. -/
def debouncer (session : Session σ) : Debouncer := { interval := session.settings.debounceMs }

/-- The session some milliseconds later. -/
def advance (session : Session σ) (milliseconds : Nat) : Session σ :=
  { session with backing := session.backing.advance milliseconds }

/-- All tables that can be named. -/
def availableTables (session : Session σ) : List Table := ColumnSource.tables session.backing

/-- What can be used at a caret of a query, and the session after the lookups. -/
def resolve (session : Session σ) (query : String) (caret : Nat) : Answer × Session σ :=
  match Scopes.resolve? (extract query) session.settings.allAncestors caret with
  | none => (⟨0, 0, ⟨[], [], [], []⟩, []⟩, session)
  | some (scope, visibility) =>
    let result := Filling.fill session.settings.defaultSchema session.backing
      visibility.tableColumns
    (⟨scope.index, scope.level, { visibility with tableColumns := result.tables },
      result.unresolved⟩, { session with backing := result.source })

end Session

end QueryScope

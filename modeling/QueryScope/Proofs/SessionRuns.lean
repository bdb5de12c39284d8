import QueryScope.Completion.Session
import QueryScope.Proofs.CacheRuns

/-!
# Runs of a session

A session answers what can be used at a caret and which tables there are, while time passes. Its
settings decide whether a cache stands in front of the source of columns, and how long the cache
remembers. When the source never changes, none of that can be seen in an answer: each answer is the
one of a session that asks the source directly.

Two memories lie between a query and the source. Filling in columns remembers keys for one query,
and the cache remembers them from query to query, under keys of another kind. Filling in is followed
table by table, with any memory of the first kind, so that the two never have to be compared.
-/

namespace QueryScope

variable {σ : Type} [ColumnSource σ] {source : σ}

namespace Backing

/-- A backing that answers as a source does: the source itself, or a truthful cache before it. -/
inductive Faithful (source : σ) : Backing σ → Prop
  | direct : Faithful source (.direct source)
  | cached {cache : Cache σ} (truthful : Cache.Truthful source cache) :
    Faithful source (.cached cache)

/-- The answers that a backing remembers. -/
def memory : Backing σ → List CacheEntry
  | direct _ => []
  | cached cache => cache.entries

variable {backing : Backing σ}

/-- A faithful backing lists the tables of the source. -/
theorem Faithful.tables (faithful : Faithful source backing) :
    ColumnSource.tables backing = ColumnSource.tables source := by
  cases faithful with
  | direct => rfl
  | cached truthful => exact congrArg ColumnSource.tables truthful.source_eq

/-- A backing stays faithful as time passes. -/
theorem Faithful.advance (faithful : Faithful source backing) (milliseconds : Nat) :
    Faithful source (backing.advance milliseconds) := by
  cases faithful with
  | direct => exact .direct
  | cached truthful => exact .cached (truthful.of_subset rfl (List.Subset.refl _))

/-- A lookup answers what the source answers, and the backing stays faithful. -/
theorem Faithful.columns (steady : Steady source) (faithful : Faithful source backing)
    (name : String) :
    (ColumnSource.columns name backing).1 = (ColumnSource.columns name source).1 ∧
      Faithful source (ColumnSource.columns name backing).2 := by
  cases faithful with
  | direct =>
    have unchanged : (ColumnSource.columns name (Backing.direct source)).2 = .direct source :=
      congrArg Backing.direct (steady.unchanged name)
    rw [unchanged]
    exact ⟨rfl, .direct⟩
  | cached truthful =>
    obtain ⟨answer, after⟩ := truthful.columns steady name
    exact ⟨answer, .cached after⟩

end Backing

/-- Two results of filling in that differ at most in the source after the lookups, which in the
first one is faithful to a source. -/
structure Filling.Alike (source : σ) (first : Result (Backing σ)) (second : Result σ) : Prop where
  tables : first.tables = second.tables
  unresolved : first.unresolved = second.unresolved
  faithful : Backing.Faithful source first.source

/-- Columns are filled in from a faithful backing as from the source, whatever is known already. -/
theorem Filling.alike_fillFrom (steady : Steady source) (defaultSchema : Option String)
    (tables : List TableColumns) {backing : Backing σ} (faithful : backing.Faithful source)
    (known : Known) :
    Alike source (fillFrom defaultSchema known backing tables)
      (fillFrom defaultSchema known source tables) := by
  induction tables generalizing backing known with
  | nil => exact ⟨rfl, rfl, faithful⟩
  | cons table others inductionHypothesis =>
    simp only [fillFrom]
    split
    · have rest := inductionHypothesis faithful known
      exact ⟨congrArg _ rest.tables, rest.unresolved, rest.faithful⟩
    · split
      · have rest := inductionHypothesis faithful known
        exact ⟨congrArg _ rest.tables, rest.unresolved, rest.faithful⟩
      · -- The lookup reaches the backing, which answers as the source does.
        generalize lookupName defaultSchema table.fullTableName = name
        obtain ⟨sameAnswer, stays⟩ := faithful.columns steady name
        have unchanged := steady.unchanged name
        revert sameAnswer stays unchanged
        rcases ColumnSource.columns name source with ⟨answer, after⟩
        rcases ColumnSource.columns name backing with ⟨answerBacking, afterBacking⟩
        rintro ⟨⟩ stays ⟨⟩
        cases answer with
        | ok columns =>
          have rest := inductionHypothesis stays ((Text.upper name, some columns) :: known)
          exact ⟨congrArg _ rest.tables, rest.unresolved, rest.faithful⟩
        | error error =>
          have rest := inductionHypothesis stays ((Text.upper name, none) :: known)
          exact ⟨congrArg _ rest.tables, congrArg _ rest.unresolved, rest.faithful⟩

namespace Session

/-- What a session can be asked to do. -/
inductive Request where
  | resolve (query : String) (caret : Nat)
  | availableTables
  /-- Wait for some milliseconds. -/
  | advance (milliseconds : Nat)
deriving DecidableEq, Repr

/-- What comes back from a request. -/
inductive Reply where
  | resolved (answer : Answer)
  | tables (tables : List Table)
  | done
deriving DecidableEq

/-- Serve one request. -/
def serve (session : Session σ) : Request → Reply × Session σ
  | .resolve query caret =>
    (.resolved (session.resolve query caret).1, (session.resolve query caret).2)
  | .availableTables => (.tables session.availableTables, session)
  | .advance milliseconds => (.done, session.advance milliseconds)

/-- Serve requests one after the other. -/
def run (session : Session σ) : List Request → List Reply × Session σ
  | [] => ([], session)
  | request :: others =>
    let rest := run (session.serve request).2 others
    ((session.serve request).1 :: rest.1, rest.2)

/-- A session whose backing is faithful to a source. -/
structure Transparent (settings : Settings) (source : σ) (session : Session σ) : Prop where
  settings_eq : session.settings = settings
  faithful : session.backing.Faithful source

variable {settings : Settings} {session : Session σ}

/-- A query is answered as by a session that asks the source directly. -/
theorem Transparent.resolve (steady : Steady source)
    (transparent : Transparent settings source session) (query : String) (caret : Nat) :
    (session.resolve query caret).1 =
        ((Session.mk settings (.direct source)).resolve query caret).1 ∧
      Transparent settings source (session.resolve query caret).2 := by
  obtain ⟨rfl, faithful⟩ := transparent
  simp only [Session.resolve]
  split
  · exact ⟨rfl, rfl, faithful⟩
  · rename_i scope visibility _
    have filled := Filling.alike_fillFrom steady session.settings.defaultSchema
      visibility.tableColumns faithful []
    have direct := Filling.alike_fillFrom steady session.settings.defaultSchema
      visibility.tableColumns .direct []
    simp only [Filling.fill, filled.tables, filled.unresolved, direct.tables, direct.unresolved]
    exact ⟨trivial, rfl, filled.faithful⟩

/-- Every request is answered as by a session that asks the source directly. -/
theorem Transparent.serve (steady : Steady source)
    (transparent : Transparent settings source session) (request : Request) :
    (session.serve request).1 = ((Session.mk settings (.direct source)).serve request).1 ∧
      Transparent settings source (session.serve request).2 := by
  cases request with
  | resolve query caret =>
    obtain ⟨answer, after⟩ := transparent.resolve steady query caret
    exact ⟨congrArg Reply.resolved answer, after⟩
  | availableTables => exact ⟨congrArg Reply.tables transparent.faithful.tables, transparent⟩
  | advance milliseconds =>
    exact ⟨rfl, transparent.settings_eq, transparent.faithful.advance milliseconds⟩

/-- So is every sequence of requests. -/
theorem Transparent.run (steady : Steady source)
    (transparent : Transparent settings source session) (requests : List Request) :
    (session.run requests).1 =
      requests.map fun request => ((Session.mk settings (.direct source)).serve request).1 := by
  induction requests generalizing session with
  | nil => rfl
  | cons request others inductionHypothesis =>
    obtain ⟨reply, after⟩ := transparent.serve steady request
    rw [Session.run, List.map_cons, reply, inductionHypothesis after]

/-- Sound settings begin a session, which is transparent whether or not it has a cache. -/
theorem exists_transparent_start (source : σ) (sound : settings.fault? = none) :
    ∃ session, start settings source = .ok session ∧ Transparent settings source session := by
  simp only [start, sound]
  split
  · exact ⟨_, rfl, rfl, .direct⟩
  · exact ⟨_, rfl, rfl, .cached (Cache.Truthful.empty source _)⟩

/-- A session without a cache never reads how long columns are remembered. -/
theorem serve_direct_eq (settings : Settings) (seconds : Nat) (source : σ) (request : Request) :
    let backing : Backing σ := .direct source
    ((Session.mk settings backing).serve request).1 =
      ((Session.mk { settings with cacheTtlSecs := seconds } backing).serve request).1 := by
  cases request with
  | resolve query caret =>
    simp only [Session.serve, Session.resolve]
    split <;> rfl
  | availableTables => rfl
  | advance milliseconds => rfl

/-- How long columns are remembered, and whether they are remembered at all, cannot be seen in any
answer of a session over a directory. -/
theorem run_eq_of_cacheTtlSecs (directory : Directory) (settings : Settings)
    (sound : settings.fault? = none) (seconds : Nat) :
    ∃ first second : Session Directory,
      start settings directory = .ok first ∧
      start { settings with cacheTtlSecs := seconds } directory = .ok second ∧
      ∀ requests, (first.run requests).1 = (second.run requests).1 := by
  obtain ⟨first, starts, transparent⟩ := exists_transparent_start directory sound
  have alsoSound : { settings with cacheTtlSecs := seconds }.fault? = none := sound
  obtain ⟨second, alsoStarts, alsoTransparent⟩ := exists_transparent_start directory alsoSound
  refine ⟨first, second, starts, alsoStarts, ?_⟩
  intro requests
  rw [transparent.run directory.steady, alsoTransparent.run directory.steady]
  exact List.map_congr_left fun request _ => serve_direct_eq settings seconds directory request

/-- A session that remembers columns for a second and one that never does, over a directory in which
a name without a schema is found in the default one. A query that is asked twice within the second
gets the same columns twice. The second time they are remembered, and the memory gives the answer
also with an empty directory behind it. -/
theorem run_eq_without_memory :
    let columns : List Column := [{ name := "ID", dataType := .integer }]
    let directory : Directory := { tables := [{ name := "ORDERS", schema := "APP", columns }] }
    let settings : Settings := { cacheTtlSecs := 1, defaultSchema := some "app" }
    let query := "SELECT o. FROM orders o"
    let answer : Answer :=
      ⟨0, 0, ⟨[⟨"o", "orders", false, 0, false⟩], [], [⟨"o", "orders", columns⟩], []⟩, []⟩
    let remembered : List CacheEntry := [⟨"APP.ORDERS", 0, columns⟩]
    let later : Cache Directory :=
      { source := {}, lifetime := 1000, now := 999, entries := remembered }
    settings.fault? = none ∧ ∃ first second : Session Directory,
      start settings directory = .ok first ∧
      start { settings with cacheTtlSecs := 0 } directory = .ok second ∧
      (∀ requests, (first.run requests).1 = (second.run requests).1) ∧
      (first.run [.resolve query 9, .advance 999, .resolve query 9]).1 =
        [.resolved answer, .done, .resolved answer] ∧
      (first.run [.resolve query 9, .advance 999]).2.backing.memory = remembered ∧
      ((Session.mk settings (.cached later)).resolve query 9).1 = answer := by
  intro columns directory settings query answer remembered later
  have sound : settings.fault? = none := by decide +kernel
  obtain ⟨first, second, starts, alsoStarts, same⟩ :=
    run_eq_of_cacheTtlSecs directory settings sound 0
  have isFirst : start settings directory =
      .ok ⟨settings, .cached { source := directory, lifetime := 1 * 1000 }⟩ := by
    simp only [start, sound]
    rfl
  have isSecond : start { settings with cacheTtlSecs := 0 } directory =
      .ok ⟨{ settings with cacheTtlSecs := 0 }, .direct directory⟩ := by
    have alsoSound : { settings with cacheTtlSecs := 0 }.fault? = none := sound
    simp only [start, alsoSound]
    rfl
  refine ⟨sound, first, second, starts, alsoStarts, same, ?_, ?_, by decide +kernel⟩
  · rw [same, Except.ok.inj (alsoStarts.symm.trans isSecond)]
    decide +kernel
  · rw [Except.ok.inj (starts.symm.trans isFirst)]
    decide +kernel

end Session

end QueryScope

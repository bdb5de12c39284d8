import Mathlib.Data.List.Basic
import QueryScope.Catalog.Cache
import QueryScope.Catalog.Directory

/-!
# Runs of a cache

A cache is asked for columns and tables, told to forget, and grows older, in any order. In front of
a source that never changes, and that finds a table by the key of its name, nobody can tell that it
is there: every answer is the one that the source itself would give, whatever the lifetime. What
carries the argument is that each remembered answer is the source's answer to every name with the
entry's key, not only to the name that was looked up first. Failures name the table as it was
written, so they must come from the source each time.
-/

namespace QueryScope

namespace Cache

/-- What a cache can be asked to do. -/
inductive Request where
  | columns (name : String)
  | tables
  | invalidate (name : String)
  | clear
  /-- Wait for some milliseconds. -/
  | advance (milliseconds : Nat)
deriving DecidableEq, Repr

/-- What comes back from a request. -/
inductive Reply where
  | columns (answer : Except CatalogError (List Column))
  | tables (tables : List Table)
  | done

variable {σ : Type}

section

variable [ColumnSource σ]

/-- Serve one request. -/
def serve (cache : Cache σ) : Request → Reply × Cache σ
  | .columns name => (.columns (cache.columns name).1, (cache.columns name).2)
  | .tables => (.tables (ColumnSource.tables cache), cache)
  | .invalidate name => (.done, cache.invalidate name)
  | .clear => (.done, cache.clear)
  | .advance milliseconds => (.done, cache.advance milliseconds)

/-- Serve requests one after the other. -/
def run (cache : Cache σ) : List Request → List Reply × Cache σ
  | [] => ([], cache)
  | request :: others =>
    let rest := run (cache.serve request).2 others
    ((cache.serve request).1 :: rest.1, rest.2)

/-- What a source replies without a cache in front of it. -/
def Reply.ofSource (source : σ) : Request → Reply
  | .columns name => .columns (ColumnSource.columns name source).1
  | .tables => .tables (ColumnSource.tables source)
  | _ => .done

/-- A remembered answer is given without asking the source. -/
theorem columns_of_remembered {cache : Cache σ} {name : String} {columns : List Column}
    (found : cache.remembered? (lookupKey name) = some columns) :
    cache.columns name = (.ok columns, cache) := by
  simp only [Cache.columns, found]

/-- Without one the source is asked, and its answer is remembered if it is a success. -/
theorem columns_of_forgotten {cache : Cache σ} {name : String}
    (missing : cache.remembered? (lookupKey name) = none) :
    cache.columns name = ((ColumnSource.columns name cache.source).1,
      match (ColumnSource.columns name cache.source).1 with
      | .ok columns => { cache with source := (ColumnSource.columns name cache.source).2 }.remember
          (lookupKey name) columns
      | .error _ => { cache with source := (ColumnSource.columns name cache.source).2 }) := by
  simp only [Cache.columns, missing]
  cases (ColumnSource.columns name cache.source).1 with
  | ok columns => rfl
  | error error => rfl

end

/-- What is remembered for a key stands in an entry with the key. -/
theorem exists_entry_of_remembered? {cache : Cache σ} {key : String} {columns : List Column}
    (found : cache.remembered? key = some columns) :
    ∃ entry ∈ cache.entries, entry.key = key ∧ entry.columns = columns := by
  obtain ⟨entry, kept, rfl⟩ := Option.map_eq_some_iff.mp found
  have first := Option.eq_some_of_filter_eq_some kept
  have isKey := List.find?_some first
  exact ⟨entry, List.mem_of_find?_eq_some first, beq_iff_eq.mp isKey, rfl⟩

/-- An entry of a cache that has just remembered an answer. -/
theorem mem_entries_remember {cache : Cache σ} {key : String} {columns : List Column}
    {entry : CacheEntry} (member : entry ∈ (cache.remember key columns).entries) :
    entry = ⟨key, cache.now, columns⟩ ∨ entry ∈ cache.entries := by
  rcases List.mem_cons.mp member with isNew | isOld
  · exact .inl isNew
  · exact .inr (List.mem_of_mem_filter isOld)

end Cache

/-! ## Sources that never change -/

/-- A source that lookups leave as it is, and whose successes depend on the key of a name alone. -/
structure Steady {σ : Type} [ColumnSource σ] (source : σ) : Prop where
  unchanged : ∀ name, (ColumnSource.columns name source).2 = source
  sameKey : ∀ {name other : String} {columns : List Column}, lookupKey name = lookupKey other →
    (ColumnSource.columns name source).1 = .ok columns →
      (ColumnSource.columns other source).1 = .ok columns

/-- A directory finds the same table under all spellings of a key. -/
theorem Directory.find_of_sameKey {directory : Directory} {name other : String} {table : Table}
    (same : lookupKey name = lookupKey other) (found : directory.find name = .ok table) :
    directory.find other = .ok table := by
  simp only [find, ← same] at found ⊢
  split at found
  · exact found
  · split at found
    · cases found
    · rename_i noDot
      simp only [noDot, Bool.false_eq_true, if_false]
      split at found
      · exact found
      · split at found
        · cases found
        · exact found
        · cases found

/-- Directories are steady. -/
theorem Directory.steady (directory : Directory) : Steady directory where
  unchanged _ := rfl
  sameKey := by
    intro name other columns same answered
    have answer : (directory.find name).map (·.columns) = .ok columns := answered
    cases found : directory.find name with
    | error error =>
      rw [found] at answer
      cases answer
    | ok table =>
      rw [found] at answer
      have sameTable : (directory.find other).map (·.columns) = .ok columns := by
        rw [find_of_sameKey same found, answer]
      exact sameTable

/-! ## Caches that cannot be told from their source -/

namespace Cache

variable {σ : Type} [ColumnSource σ] {source : σ} {cache : Cache σ}

/-- A cache in front of a source that remembers for each key what the source answers to every name
with the key. -/
structure Truthful (source : σ) (cache : Cache σ) : Prop where
  source_eq : cache.source = source
  entries : ∀ entry ∈ cache.entries, ∀ name, lookupKey name = entry.key →
    (ColumnSource.columns name source).1 = .ok entry.columns

/-- A cache that remembers nothing yet. -/
theorem Truthful.empty (source : σ) (lifetime : Nat) : Truthful source { source, lifetime } where
  source_eq := rfl
  entries := by rintro entry ⟨⟩

/-- Forgetting keeps a cache truthful, and so does the passing of time. -/
theorem Truthful.of_subset {other : Cache σ} (truthful : Truthful source cache)
    (sameSource : other.source = cache.source) (fewer : other.entries ⊆ cache.entries) :
    Truthful source other where
  source_eq := sameSource.trans truthful.source_eq
  entries := fun entry member => truthful.entries entry (fewer member)

/-- A lookup answers what the source answers, and the cache stays truthful. -/
theorem Truthful.columns (steady : Steady source) (truthful : Truthful source cache)
    (name : String) :
    (cache.columns name).1 = (ColumnSource.columns name source).1 ∧
      Truthful source (cache.columns name).2 := by
  have sameSource := truthful.source_eq
  cases found : cache.remembered? (lookupKey name) with
  | some columns =>
    obtain ⟨entry, member, isKey, rfl⟩ := exists_entry_of_remembered? found
    rw [columns_of_remembered found]
    exact ⟨(truthful.entries entry member name isKey.symm).symm, truthful⟩
  | none =>
    rw [columns_of_forgotten found, sameSource]
    refine ⟨rfl, ?_⟩
    cases answered : (ColumnSource.columns name source).1 with
    | error error =>
      exact ⟨steady.unchanged name, truthful.entries⟩
    | ok columns =>
      refine ⟨steady.unchanged name, ?_⟩
      intro entry member other isKey
      rcases mem_entries_remember member with rfl | isOld
      · exact steady.sameKey isKey.symm answered
      · exact truthful.entries entry isOld other isKey

/-- Every request is answered as by the source itself, and the cache stays truthful. -/
theorem Truthful.serve (steady : Steady source) (truthful : Truthful source cache)
    (request : Request) :
    (cache.serve request).1 = Reply.ofSource source request ∧
      Truthful source (cache.serve request).2 := by
  cases request with
  | columns name =>
    obtain ⟨answer, after⟩ := truthful.columns steady name
    exact ⟨congrArg Reply.columns answer, after⟩
  | tables => exact ⟨congrArg (Reply.tables <| ColumnSource.tables ·) truthful.source_eq, truthful⟩
  | invalidate name => exact ⟨rfl, truthful.of_subset rfl (List.filter_subset_self _)⟩
  | clear => exact ⟨rfl, truthful.of_subset rfl (List.nil_subset _)⟩
  | advance milliseconds => exact ⟨rfl, truthful.of_subset rfl (List.Subset.refl _)⟩

/-- So is every sequence of requests. -/
theorem Truthful.run (steady : Steady source) (truthful : Truthful source cache)
    (requests : List Request) :
    (cache.run requests).1 = requests.map (Reply.ofSource source) := by
  induction requests generalizing cache with
  | nil => rfl
  | cons request others inductionHypothesis =>
    obtain ⟨reply, after⟩ := truthful.serve steady request
    rw [Cache.run, List.map_cons, reply, inductionHypothesis after]

/-- A cache in front of a directory is transparent: whatever it is asked for, told to forget and
however long it waits in between, and whatever the lifetime, each lookup answers what the directory
answers to the name as it is written, failures included, and each list of tables is the
directory's. -/
theorem run_directory (directory : Directory) (lifetime : Nat) (requests : List Request) :
    (run { source := directory, lifetime } requests).1 =
      requests.map fun
        | .columns name => .columns (directory.columns name)
        | .tables => .tables (Table.sorted directory.tables)
        | _ => .done := by
  rw [(Truthful.empty directory lifetime).run directory.steady requests]
  apply List.map_congr_left
  intro request _
  cases request <;> rfl

end Cache

end QueryScope

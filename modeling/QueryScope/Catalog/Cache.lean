import QueryScope.Catalog.Source

/-!
# Caches

A cache stands in front of a source of columns and remembers each successful lookup for a fixed
time. An entry is alive while its age is less than the lifetime. An entry that has grown too old
stays until a new lookup of its name succeeds, or until it is dropped. Failures are not
remembered.
-/

namespace QueryScope

/-- A remembered answer. -/
structure CacheEntry where
  key : String
  /-- When the answer was given. -/
  loadedAt : Nat
  columns : List Column
deriving DecidableEq, Repr

/-- A source of columns with a memory. Times are in milliseconds. -/
structure Cache (σ : Type) where
  source : σ
  lifetime : Nat
  now : Nat := 0
  /-- The remembered answers. A new one takes the place of the one with the same key. -/
  entries : List CacheEntry := []

namespace Cache

variable {σ : Type}

/-- Whether an entry can still be used. -/
def isAlive (cache : Cache σ) (entry : CacheEntry) : Bool :=
  decide (cache.now - entry.loadedAt < cache.lifetime)

/-- The live answer for a key. -/
def remembered? (cache : Cache σ) (key : String) : Option (List Column) :=
  ((cache.entries.find? (·.key == key)).filter cache.isAlive).map (·.columns)

/-- The cache without the answer for a key. -/
def forget (cache : Cache σ) (key : String) : Cache σ :=
  { cache with entries := cache.entries.filter (·.key != key) }

/-- The cache with an answer that was given just now. -/
def remember (cache : Cache σ) (key : String) (columns : List Column) : Cache σ :=
  { cache with
    entries := ⟨key, cache.now, columns⟩ :: cache.entries.filter (·.key != key) }

/-- The cache without the answer for the table with a name. -/
def invalidate (cache : Cache σ) (name : String) : Cache σ := cache.forget (lookupKey name)

/-- The cache without any answer. -/
def clear (cache : Cache σ) : Cache σ := { cache with entries := [] }

/-- The cache some milliseconds later. -/
def advance (cache : Cache σ) (milliseconds : Nat) : Cache σ :=
  { cache with now := cache.now + milliseconds }

/-- The number of entries that are alive. -/
def liveEntries (cache : Cache σ) : Nat := (cache.entries.filter cache.isAlive).length

/-- Answer from memory if possible. Otherwise ask the source and remember the answer if it is a
success. -/
def columns [ColumnSource σ] (name : String) (cache : Cache σ) :
    Except CatalogError (List Column) × Cache σ :=
  match cache.remembered? (lookupKey name) with
  | some columns => (.ok columns, cache)
  | none =>
    let (answer, source) := ColumnSource.columns name cache.source
    let asked := { cache with source }
    match answer with
    | .ok columns => (.ok columns, asked.remember (lookupKey name) columns)
    | .error error => (.error error, asked)

instance [ColumnSource σ] : ColumnSource (Cache σ) where
  columns := columns
  tables cache := ColumnSource.tables cache.source

end Cache

end QueryScope

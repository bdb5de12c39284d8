import Mathlib.Data.Set.Card
import QueryScope.Proofs.CacheRuns

/-!
# What a cache owes to its history

In front of a source that may answer differently each time, a cache is judged by its history: when
it was asked for what, and which lookups reached the source. To see these, the source is wrapped
into one that keeps a record and otherwise behaves the same.

The entries of a cache are exactly the loads that still stand: the last successful lookup of each
key, unless the key was invalidated or the cache was cleared since. A lookup is silent, that is, it
does not reach the source, exactly if a load of its key that was not dropped is young enough. Time
runs forward, so the last such load is young enough if any is.
-/

namespace QueryScope

/-- A lookup that reached a source. -/
structure Lookup where
  name : String
  answer : Except CatalogError (List Column)

/-- A source that keeps a record of the lookups that reach it. -/
structure Recorded (σ : Type) where
  source : σ
  lookups : List Lookup := []

instance {σ : Type} [ColumnSource σ] : ColumnSource (Recorded σ) where
  columns name recorded :=
    let (answer, after) := ColumnSource.columns name recorded.source
    (answer, ⟨after, recorded.lookups ++ [⟨name, answer⟩]⟩)
  tables recorded := ColumnSource.tables recorded.source

namespace Cache

/-- Something that a cache was asked to do, and the lookups that reached its source meanwhile. -/
structure Event where
  time : Nat
  request : Request
  lookups : List Lookup

namespace Event

/-- The columns of a key were looked up in the source with success. -/
def Loads (event : Event) (key : String) (columns : List Column) : Prop :=
  ∃ name, event.request = .columns name ∧ lookupKey name = key ∧
    event.lookups = [⟨name, .ok columns⟩]

/-- What was remembered for a key was dropped: the key was invalidated or the cache was cleared. -/
def Drops (event : Event) (key : String) : Prop :=
  event.request = .clear ∨ ∃ name, event.request = .invalidate name ∧ lookupKey name = key

end Event

/-- Something of one kind happened in the past, and everything since then was of another kind. -/
def Since (past : List Event) (happened goesOn : Event → Prop) : Prop :=
  ∃ before event later, past = before ++ event :: later ∧ happened event ∧
    ∀ other ∈ later, goesOn other

/-- The columns of a key were loaded at a time, and the key was not dropped since. -/
def LoadedAt (past : List Event) (key : String) (columns : List Column) (time : Nat) : Prop :=
  Since past (fun event => event.Loads key columns ∧ event.time = time)
    fun event => ¬ event.Drops key

/-- They were loaded then, and the key was neither dropped nor loaded again since. -/
def LastLoadedAt (past : List Event) (key : String) (columns : List Column) (time : Nat) : Prop :=
  Since past (fun event => event.Loads key columns ∧ event.time = time)
    fun event => ¬ event.Drops key ∧ ∀ columns, ¬ event.Loads key columns

section

variable {past : List Event} {event : Event} {happened goesOn : Event → Prop} {key : String}
  {columns : List Column} {time : Nat}

/-- Nothing happened in an empty past. -/
theorem not_since_nil : ¬ Since [] happened goesOn := by
  rintro ⟨before, event, later, split, _⟩
  exact List.append_ne_nil_of_right_ne_nil before (List.cons_ne_nil event later) split.symm

/-- What one more event means: it is the one that happened, or it is of the kind that goes on. -/
theorem since_concat : Since (past ++ [event]) happened goesOn ↔
    happened event ∨ Since past happened goesOn ∧ goesOn event := by
  constructor
  · rintro ⟨before, middle, later, split, isMiddle, since⟩
    rcases List.eq_nil_or_concat later with rfl | ⟨between, last, rfl⟩
    · obtain ⟨_, sameLast⟩ := List.append_inj' split rfl
      rw [(List.cons.inj sameLast).1]
      exact .inl isMiddle
    · rw [List.concat_eq_append] at split since
      rw [← List.cons_append, ← List.append_assoc] at split
      obtain ⟨samePast, sameLast⟩ := List.append_inj' split rfl
      rw [(List.cons.inj sameLast).1]
      exact .inr ⟨⟨before, middle, between, samePast, isMiddle,
        fun other member => since other (List.mem_append_left _ member)⟩,
        since last List.mem_concat_self⟩
  · rintro (isEvent | ⟨⟨before, middle, later, rfl, isMiddle, since⟩, isKept⟩)
    · exact ⟨past, event, [], rfl, isEvent, fun _ member => absurd member List.not_mem_nil⟩
    · refine ⟨before, middle, later ++ [event], by rw [List.append_assoc]; rfl, isMiddle, ?_⟩
      intro other member
      rcases List.mem_append.mp member with earlier | last
      · exact since other earlier
      · rwa [List.mem_singleton.mp last]

/-- The last load is one. -/
theorem LastLoadedAt.loadedAt (last : LastLoadedAt past key columns time) :
    LoadedAt past key columns time := by
  obtain ⟨before, load, later, split, loads, since⟩ := last
  exact ⟨before, load, later, split, loads, fun other member => (since other member).1⟩

/-- When time runs forward, the last load of a key is no older than any other one. -/
theorem LoadedAt.exists_last (loaded : LoadedAt past key columns time)
    (forward : past.Pairwise fun earlier later => earlier.time ≤ later.time) :
    ∃ columns last, time ≤ last ∧ LastLoadedAt past key columns last := by
  induction past using List.reverseRecOn with
  | nil => exact absurd loaded not_since_nil
  | append_singleton past event inductionHypothesis =>
    obtain ⟨forwardBefore, _, beforeEvent⟩ := List.pairwise_append.mp forward
    by_cases again : ∃ columns, event.Loads key columns
    · obtain ⟨newColumns, loadsNew⟩ := again
      refine ⟨newColumns, event.time, ?_, since_concat.mpr (.inl ⟨loadsNew, rfl⟩)⟩
      rcases since_concat.mp loaded with ⟨_, isTime⟩ | ⟨⟨before, load, later, rfl, ⟨_, rfl⟩, _⟩, _⟩
      · exact Nat.le_of_eq isTime.symm
      · exact beforeEvent load (List.mem_append_right _ List.mem_cons_self) event
          List.mem_cons_self
    · have notAgain : ∀ columns, ¬ event.Loads key columns := not_exists.mp again
      rcases since_concat.mp loaded with ⟨loads, _⟩ | ⟨earlier, notDropped⟩
      · exact absurd loads (notAgain columns)
      · obtain ⟨lastColumns, last, notOlder, isLast⟩ := inductionHypothesis earlier forwardBefore
        exact ⟨lastColumns, last, notOlder, since_concat.mpr (.inr ⟨isLast, notDropped, notAgain⟩)⟩

end

/-! ## The entries of a cache and its history -/

variable {σ : Type} {cache : Cache σ} {lifetime : Nat} {past : List Event}

/-- What the entries of a cache with the given lifetime owe to its past. -/
structure Records (lifetime : Nat) (past : List Event) (cache : Cache σ) : Prop where
  lifetime_eq : cache.lifetime = lifetime
  forward : past.Pairwise fun earlier later => earlier.time ≤ later.time
  noLater : ∀ event ∈ past, event.time ≤ cache.now
  distinct : (cache.entries.map (·.key)).Nodup
  mem_entries_iff : ∀ entry, entry ∈ cache.entries ↔
    LastLoadedAt past entry.key entry.columns entry.loadedAt

/-- A cache without a past remembers nothing. -/
theorem Records.empty (source : σ) (lifetime : Nat) :
    Records lifetime [] { source, lifetime : Cache σ } where
  lifetime_eq := rfl
  forward := .nil
  noLater := by rintro event ⟨⟩
  distinct := List.nodup_nil
  mem_entries_iff := by
    intro entry
    exact ⟨fun member => absurd member List.not_mem_nil, fun loaded => absurd loaded not_since_nil⟩

/-- One more event. The entries must change as the event says. -/
theorem Records.concat (records : Records lifetime past cache) {event : Event} {after : Cache σ}
    (sameLifetime : after.lifetime = cache.lifetime) (isNow : event.time = cache.now)
    (passing : cache.now ≤ after.now) (distinct : (after.entries.map (·.key)).Nodup)
    (changed : ∀ entry, entry ∈ after.entries ↔
      (event.Loads entry.key entry.columns ∧ event.time = entry.loadedAt) ∨
        entry ∈ cache.entries ∧ ¬ event.Drops entry.key ∧
          ∀ columns, ¬ event.Loads entry.key columns) :
    Records lifetime (past ++ [event]) after where
  lifetime_eq := sameLifetime.trans records.lifetime_eq
  forward := by
    refine List.pairwise_append.mpr ⟨records.forward, List.pairwise_singleton _ _, ?_⟩
    intro earlier member last isLast
    rw [List.mem_singleton.mp isLast, isNow]
    exact records.noLater earlier member
  noLater := by
    intro other member
    rcases List.mem_append.mp member with earlier | last
    · exact Nat.le_trans (records.noLater other earlier) passing
    · rwa [List.mem_singleton.mp last, isNow]
  distinct := distinct
  mem_entries_iff := by
    intro entry
    have earlier := records.mem_entries_iff entry
    rw [LastLoadedAt, since_concat, changed entry]
    exact or_congr_right (and_congr_left' earlier)

/-- What a cache remembers for a key is its last load, while it is young enough. -/
theorem Records.remembered?_eq_some_iff (records : Records lifetime past cache) {key : String}
    {columns : List Column} :
    cache.remembered? key = some columns ↔
      ∃ time, LastLoadedAt past key columns time ∧ cache.now - time < lifetime := by
  rw [remembered?, Option.map_eq_some_iff]
  constructor
  · rintro ⟨entry, kept, rfl⟩
    obtain ⟨first, alive⟩ := Option.filter_eq_some_iff.mp kept
    have isKey := List.find?_some first
    obtain rfl : entry.key = key := beq_iff_eq.mp isKey
    have isLast := (records.mem_entries_iff entry).mp (List.mem_of_find?_eq_some first)
    refine ⟨entry.loadedAt, isLast, ?_⟩
    rw [← records.lifetime_eq]
    exact of_decide_eq_true alive
  · rintro ⟨time, isLast, young⟩
    have member : ⟨key, time, columns⟩ ∈ cache.entries :=
      (records.mem_entries_iff ⟨key, time, columns⟩).mpr isLast
    refine ⟨⟨key, time, columns⟩, Option.filter_eq_some_iff.mpr ⟨?_, ?_⟩, rfl⟩
    · -- No other entry has the key, so the first one with the key is this one.
      cases found : cache.entries.find? (·.key == key) with
      | none =>
        have different := List.find?_eq_none.mp found _ member
        exact absurd (beq_self_eq_true key) different
      | some other =>
        have isKey := List.find?_some found
        have same : other.key = key := beq_iff_eq.mp isKey
        rw [List.inj_on_of_nodup_map records.distinct (List.mem_of_find?_eq_some found) member same]
    · rw [isAlive, records.lifetime_eq]
      exact decide_eq_true young

/-- A key is remembered exactly if some load of it that was not dropped is young enough. -/
theorem Records.exists_remembered_iff (records : Records lifetime past cache) {key : String} :
    (∃ columns, cache.remembered? key = some columns) ↔
      ∃ columns time, LoadedAt past key columns time ∧ cache.now - time < lifetime := by
  constructor
  · rintro ⟨columns, found⟩
    obtain ⟨time, isLast, young⟩ := records.remembered?_eq_some_iff.mp found
    exact ⟨columns, time, isLast.loadedAt, young⟩
  · rintro ⟨columns, time, loaded, young⟩
    obtain ⟨lastColumns, last, notOlder, isLast⟩ := loaded.exists_last records.forward
    exact ⟨lastColumns, records.remembered?_eq_some_iff.mpr ⟨last, isLast, by omega⟩⟩

/-! ## Lookups that reach the source -/

/-- The same cache in front of a source that keeps a record, which is empty yet. -/
def recording (cache : Cache σ) : Cache (Recorded σ) where
  source := { source := cache.source }
  lifetime := cache.lifetime
  now := cache.now
  entries := cache.entries

/-- The same cache without the record. -/
def unrecorded (cache : Cache (Recorded σ)) : Cache σ where
  source := cache.source.source
  lifetime := cache.lifetime
  now := cache.now
  entries := cache.entries

variable [ColumnSource σ]

/-- The lookups that reach the source while a request is served. -/
def lookups (cache : Cache σ) (request : Request) : List Lookup :=
  (cache.recording.serve request).2.source.lookups

/-- What happens when a request is served. -/
def event (cache : Cache σ) (request : Request) : Event where
  time := cache.now
  request := request
  lookups := cache.lookups request

/-- What happens when requests are served one after the other. -/
def history (cache : Cache σ) : List Request → List Event
  | [] => []
  | request :: others => cache.event request :: history (cache.serve request).2 others

variable {name : String}

/-- A lookup that is answered from memory does not reach the source. -/
theorem lookups_of_remembered {columns : List Column}
    (found : cache.remembered? (lookupKey name) = some columns) :
    cache.lookups (.columns name) = [] := by
  have foundRecording : cache.recording.remembered? (lookupKey name) = some columns := found
  simp only [lookups, serve, columns_of_remembered foundRecording]
  rfl

/-- Every other lookup reaches it once. -/
theorem lookups_of_forgotten (missing : cache.remembered? (lookupKey name) = none) :
    cache.lookups (.columns name) = [⟨name, (ColumnSource.columns name cache.source).1⟩] := by
  have missingRecording : cache.recording.remembered? (lookupKey name) = none := missing
  simp only [lookups, serve, columns_of_forgotten missingRecording]
  cases answered : (ColumnSource.columns name cache.recording.source).1 with
  | ok columns => rfl
  | error error => rfl

/-- A lookup is silent exactly if there is a remembered answer. -/
theorem lookups_eq_nil_iff :
    cache.lookups (.columns name) = [] ↔
      ∃ columns, cache.remembered? (lookupKey name) = some columns := by
  cases found : cache.remembered? (lookupKey name) with
  | some columns => exact ⟨fun _ => ⟨columns, rfl⟩, fun _ => lookups_of_remembered found⟩
  | none =>
    rw [lookups_of_forgotten found]
    constructor
    · rintro ⟨⟩
    · rintro ⟨columns, ⟨⟩⟩

/-- Keeping a record changes neither the reply nor the cache. -/
theorem serve_recording (cache : Cache σ) (request : Request) :
    (cache.recording.serve request).1 = (cache.serve request).1 ∧
      (cache.recording.serve request).2.unrecorded = (cache.serve request).2 := by
  cases request with
  | columns name =>
    cases found : cache.remembered? (lookupKey name) with
    | some columns =>
      have foundRecording : cache.recording.remembered? (lookupKey name) = some columns := found
      simp only [serve, columns_of_remembered found, columns_of_remembered foundRecording]
      exact ⟨trivial, rfl⟩
    | none =>
      have missingRecording : cache.recording.remembered? (lookupKey name) = none := found
      have sameAnswer : (ColumnSource.columns name cache.recording.source).1 =
          (ColumnSource.columns name cache.source).1 := rfl
      simp only [serve, columns_of_forgotten found, columns_of_forgotten missingRecording,
        sameAnswer]
      refine ⟨trivial, ?_⟩
      cases (ColumnSource.columns name cache.source).1 with
      | ok columns => rfl
      | error error => rfl
  | tables => exact ⟨rfl, rfl⟩
  | invalidate name => exact ⟨rfl, rfl⟩
  | clear => exact ⟨rfl, rfl⟩
  | advance milliseconds => exact ⟨rfl, rfl⟩

/-! ## Requests and what they leave behind -/

/-- An event without a lookup loads nothing. -/
theorem Event.not_loads_of_silent {event : Event} (silent : event.lookups = []) (key : String)
    (columns : List Column) : ¬ event.Loads key columns := by
  rintro ⟨name, _, _, reached⟩
  rw [silent] at reached
  cases reached

/-- Only a request to forget drops anything. -/
theorem Event.not_drops {event : Event} (notClear : event.request ≠ .clear)
    (notInvalidate : ∀ name, event.request ≠ .invalidate name) (key : String) :
    ¬ event.Drops key := by
  rintro (cleared | ⟨name, invalidated, _⟩)
  · exact notClear cleared
  · exact notInvalidate name invalidated

/-- An event that loads nothing and drops a key takes away the entries with the key. -/
theorem Records.drop (records : Records lifetime past cache) {request : Request}
    (silent : cache.lookups request = []) {after : Cache σ}
    (sameLifetime : after.lifetime = cache.lifetime) (passing : cache.now ≤ after.now)
    (fewer : after.entries.Sublist cache.entries)
    (kept : ∀ entry ∈ cache.entries,
      entry ∈ after.entries ↔ ¬ (cache.event request).Drops entry.key) :
    Records lifetime (past ++ [cache.event request]) after := by
  refine records.concat sameLifetime rfl passing (records.distinct.sublist (fewer.map _)) ?_
  have loadsNothing (key : String) (columns : List Column) :
      ¬ (cache.event request).Loads key columns := Event.not_loads_of_silent silent key columns
  intro entry
  constructor
  · intro member
    exact .inr ⟨fewer.subset member, (kept entry (fewer.subset member)).mp member,
      loadsNothing entry.key⟩
  · rintro (⟨loads, _⟩ | ⟨member, notDropped, _⟩)
    · exact absurd loads (loadsNothing _ _)
    · exact (kept entry member).mpr notDropped

/-- A lookup drops nothing. -/
theorem not_drops_columns (key : String) : ¬ (cache.event (.columns name)).Drops key :=
  Event.not_drops (by nofun) (by nofun) key

/-- A lookup that fails leaves the entries as they are. -/
theorem Records.failed (records : Records lifetime past cache) {error : CatalogError}
    (reached : cache.lookups (.columns name) = [⟨name, .error error⟩]) (after : σ) :
    Records lifetime (past ++ [cache.event (.columns name)]) { cache with source := after } := by
  have loadsNothing (key : String) (columns : List Column) :
      ¬ (cache.event (.columns name)).Loads key columns := by
    rintro ⟨_, _, _, loaded⟩
    rw [event, reached] at loaded
    cases loaded
  refine records.concat rfl rfl (Nat.le_refl _) records.distinct ?_
  intro entry
  constructor
  · intro member
    exact .inr ⟨member, not_drops_columns entry.key, loadsNothing entry.key⟩
  · rintro (⟨loads, _⟩ | ⟨member, _⟩)
    · exact absurd loads (loadsNothing _ _)
    · exact member

/-- What a lookup loads when it succeeds. -/
theorem loads_iff {columns : List Column}
    (reached : cache.lookups (.columns name) = [⟨name, .ok columns⟩]) (key : String)
    (other : List Column) :
    (cache.event (.columns name)).Loads key other ↔ key = lookupKey name ∧ other = columns := by
  constructor
  · rintro ⟨asked, isRequest, isKey, loaded⟩
    cases isRequest
    rw [event, reached] at loaded
    cases loaded
    exact ⟨isKey.symm, rfl⟩
  · rintro ⟨rfl, rfl⟩
    exact ⟨name, rfl, rfl, reached⟩

/-- A lookup that succeeds takes the place of the entry with its key. -/
theorem Records.loaded (records : Records lifetime past cache) {columns : List Column}
    (reached : cache.lookups (.columns name) = [⟨name, .ok columns⟩]) (after : σ) :
    Records lifetime (past ++ [cache.event (.columns name)])
      ({ cache with source := after }.remember (lookupKey name) columns) := by
  refine records.concat rfl rfl (Nat.le_refl _) ?_ ?_
  · have others : ((cache.entries.filter (·.key != lookupKey name)).map (·.key)).Nodup :=
      records.distinct.sublist (List.filter_sublist.map _)
    refine List.nodup_cons.mpr ⟨?_, others⟩
    intro member
    obtain ⟨entry, kept, isKey⟩ := List.mem_map.mp member
    exact bne_iff_ne.mp (List.mem_filter.mp kept).2 isKey
  · intro entry
    have isNew : entry = ⟨lookupKey name, cache.now, columns⟩ ↔
        (entry.key = lookupKey name ∧ entry.columns = columns) ∧
          (cache.event (.columns name)).time = entry.loadedAt := by
      obtain ⟨key, loadedAt, stored⟩ := entry
      simp only [CacheEntry.mk.injEq, event]
      tauto
    have isOld : (∀ columns, ¬ (cache.event (.columns name)).Loads entry.key columns) ↔
        entry.key ≠ lookupKey name := by
      simp only [loads_iff reached, not_and]
      exact ⟨fun never same => never columns same rfl, fun other _ same => absurd same other⟩
    rw [isOld, loads_iff reached, ← isNew]
    simp only [remember, List.mem_cons, List.mem_filter, bne_iff_ne]
    exact or_congr_right
      (and_congr_right fun _ => (and_iff_right (not_drops_columns entry.key)).symm)

/-- After a lookup, the entries are what the past says that now ends with the lookup. -/
theorem Records.columns (records : Records lifetime past cache) (name : String) :
    Records lifetime (past ++ [cache.event (.columns name)]) (cache.columns name).2 := by
  cases found : cache.remembered? (lookupKey name) with
  | some columns =>
    rw [columns_of_remembered found]
    exact records.drop (lookups_of_remembered found) rfl (Nat.le_refl _) (List.Sublist.refl _)
      fun entry member => iff_of_true member (not_drops_columns entry.key)
  | none =>
    have reached := lookups_of_forgotten found
    rw [columns_of_forgotten found]
    cases answered : (ColumnSource.columns name cache.source).1 with
    | error error =>
      rw [answered] at reached
      exact records.failed reached _
    | ok columns =>
      rw [answered] at reached
      exact records.loaded reached _

/-- Whatever is asked of a cache, its entries go on to be what its past says. -/
theorem Records.serve (records : Records lifetime past cache) (request : Request) :
    Records lifetime (past ++ [cache.event request]) (cache.serve request).2 := by
  cases request with
  | columns name => exact records.columns name
  | tables =>
    exact records.drop rfl rfl (Nat.le_refl _) (List.Sublist.refl _)
      fun entry member => iff_of_true member (Event.not_drops (by nofun) (by nofun) entry.key)
  | invalidate name =>
    refine records.drop rfl rfl (Nat.le_refl _) List.filter_sublist ?_
    intro entry member
    have dropped : (cache.event (.invalidate name)).Drops entry.key ↔
        entry.key = lookupKey name := by
      constructor
      · rintro (cleared | ⟨other, invalidated, isKey⟩)
        · cases cleared
        · cases invalidated
          exact isKey.symm
      · intro isKey
        exact .inr ⟨name, rfl, isKey.symm⟩
    rw [dropped]
    simp only [Cache.serve, invalidate, forget, List.mem_filter, member, bne_iff_ne, true_and,
      ne_eq]
  | clear =>
    refine records.drop rfl rfl (Nat.le_refl _) (List.nil_sublist _) ?_
    intro entry member
    constructor
    · rintro ⟨⟩
    · intro notDropped
      exact absurd (.inl rfl) notDropped
  | advance milliseconds =>
    exact records.drop rfl rfl (Nat.le_add_right _ _) (List.Sublist.refl _)
      fun entry member => iff_of_true member (Event.not_drops (by nofun) (by nofun) entry.key)

/-- So it is after every sequence of requests. -/
theorem Records.run (records : Records lifetime past cache) (requests : List Request) :
    Records lifetime (past ++ cache.history requests) (cache.run requests).2 := by
  induction requests generalizing past cache with
  | nil => rwa [history, List.append_nil]
  | cons request others inductionHypothesis =>
    have behind := inductionHypothesis (records.serve request)
    rwa [List.append_assoc, List.singleton_append] at behind

/-! ## When a lookup is silent -/

/-- The keys whose lookup is silent are those of the entries that are alive. -/
theorem Records.silent_iff_mem (records : Records lifetime past cache) {key : String} :
    (∃ name, lookupKey name = key ∧ cache.lookups (.columns name) = []) ↔
      key ∈ (cache.entries.filter cache.isAlive).map (·.key) := by
  constructor
  · rintro ⟨name, rfl, silent⟩
    obtain ⟨columns, found⟩ := lookups_eq_nil_iff.mp silent
    obtain ⟨entry, kept, _⟩ := Option.map_eq_some_iff.mp found
    obtain ⟨first, alive⟩ := Option.filter_eq_some_iff.mp kept
    have isKey := List.find?_some first
    exact List.mem_map.mpr ⟨entry, List.mem_filter.mpr ⟨List.mem_of_find?_eq_some first, alive⟩,
      beq_iff_eq.mp isKey⟩
  · intro member
    obtain ⟨entry, kept, rfl⟩ := List.mem_map.mp member
    obtain ⟨isEntry, alive⟩ := List.mem_filter.mp kept
    have isLast := (records.mem_entries_iff entry).mp isEntry
    have young : cache.now - entry.loadedAt < lifetime := by
      rw [← records.lifetime_eq]
      exact of_decide_eq_true alive
    -- The entry was loaded under some name, so its key is the key of a name.
    obtain ⟨_, _, _, _, ⟨⟨name, _, isKey, _⟩, _⟩, _⟩ := id isLast
    refine ⟨name, isKey, lookups_eq_nil_iff.mpr ⟨entry.columns, ?_⟩⟩
    rw [isKey]
    exact records.remembered?_eq_some_iff.mpr ⟨_, isLast, young⟩

/-- There are as many keys whose lookup is silent as there are entries that are alive. -/
theorem Records.encard_silent (records : Records lifetime past cache) :
    {key | ∃ name, lookupKey name = key ∧ cache.lookups (.columns name) = []}.encard =
      cache.liveEntries := by
  have distinct : ((cache.entries.filter cache.isAlive).map (·.key)).Nodup :=
    records.distinct.sublist (List.filter_sublist.map _)
  have keys : {key | ∃ name, lookupKey name = key ∧ cache.lookups (.columns name) = []} =
      (((cache.entries.filter cache.isAlive).map (·.key)).toFinset : Set String) := by
    ext key
    rw [Set.mem_ofPred_eq, records.silent_iff_mem, Finset.mem_coe, List.mem_toFinset]
  rw [keys, Set.encard_coe_eq_coe_finsetCard, List.toFinset_card_of_nodup distinct, List.length_map,
    liveEntries]

/-- What a lookup of a name does in a cache with the given lifetime and past. -/
structure LookupLaw (lifetime : Nat) (past : List Event) (cache : Cache σ) (name : String) :
    Prop where
  /-- The source is asked once, for the name as it is written, or not at all. -/
  once : cache.lookups (.columns name) = [] ∨
    ∃ answer, cache.lookups (.columns name) = [⟨name, answer⟩]
  /-- It is not asked exactly if the key was loaded with success less than the lifetime ago, and not
  dropped since. -/
  silent_iff : cache.lookups (.columns name) = [] ↔
    ∃ columns time, LoadedAt past (lookupKey name) columns time ∧ cache.now - time < lifetime
  /-- Then the answer is what was loaded last. -/
  silent_answer : cache.lookups (.columns name) = [] →
    ∃ columns time, LastLoadedAt past (lookupKey name) columns time ∧
      cache.now - time < lifetime ∧ cache.columns name = (.ok columns, cache)
  /-- What the source answers is passed on. -/
  passed_on : ∀ answer, cache.lookups (.columns name) = [⟨name, answer⟩] →
    (cache.columns name).1 = answer
  /-- A failure leaves the entries as they are. -/
  failed : ∀ error, cache.lookups (.columns name) = [⟨name, .error error⟩] →
    (cache.columns name).2.entries = cache.entries

/-- A lookup follows the law when the entries are what the past says. -/
theorem Records.lookupLaw (records : Records lifetime past cache) (name : String) :
    LookupLaw lifetime past cache name := by
  have silent_iff : cache.lookups (.columns name) = [] ↔
      ∃ columns time, LoadedAt past (lookupKey name) columns time ∧ cache.now - time < lifetime :=
    lookups_eq_nil_iff.trans records.exists_remembered_iff
  cases found : cache.remembered? (lookupKey name) with
  | some columns =>
    have silent := lookups_of_remembered found
    obtain ⟨time, isLast, young⟩ := records.remembered?_eq_some_iff.mp found
    refine ⟨.inl silent, silent_iff, ?_, ?_, ?_⟩
    · intro _
      exact ⟨columns, time, isLast, young, columns_of_remembered found⟩
    · intro answer reached
      cases silent.symm.trans reached
    · intro error reached
      cases silent.symm.trans reached
  | none =>
    have reached := lookups_of_forgotten found
    refine ⟨.inr ⟨_, reached⟩, silent_iff, ?_, ?_, ?_⟩
    · intro silent
      cases reached.symm.trans silent
    · intro answer isAnswer
      rw [columns_of_forgotten found]
      exact congrArg Lookup.answer (List.cons.inj (reached.symm.trans isAnswer)).1
    · intro error failed
      have answered : (ColumnSource.columns name cache.source).1 = .error error :=
        congrArg Lookup.answer (List.cons.inj (reached.symm.trans failed)).1
      rw [columns_of_forgotten found, answered]

/-- After every sequence of requests, in front of any source, a lookup follows the law, and the
number of live entries is that of the keys whose lookup would not reach the source. What reaches the
source is seen by keeping a record, which changes neither a reply nor the cache. No event of the
history lies in the future, so the age of a load is the difference of the two times. -/
theorem run_history (source : σ) (lifetime : Nat) (requests : List Request) :
    let start : Cache σ := { source, lifetime }
    let cache := (start.run requests).2
    (∀ request, (cache.recording.serve request).1 = (cache.serve request).1 ∧
        (cache.recording.serve request).2.unrecorded = (cache.serve request).2) ∧
      (∀ event ∈ start.history requests, event.time ≤ cache.now) ∧
      (∀ name, LookupLaw lifetime (start.history requests) cache name) ∧
      {key | ∃ name, lookupKey name = key ∧ cache.lookups (.columns name) = []}.encard =
        cache.liveEntries := by
  have records := (Records.empty source lifetime).run requests
  rw [List.nil_append] at records
  exact ⟨serve_recording _, records.noLater, records.lookupLaw, records.encard_silent⟩

end Cache

end QueryScope

import Mathlib.Data.List.Basic
import QueryScope.Proofs.CacheHistory
import QueryScope.Proofs.CapitalNames
import QueryScope.Proofs.PlainAnswers

/-!
# The lookups behind filled columns

Filling in columns asks a source once for each key, where the key of a table is the name that it is
looked up by, in capitals. The first table of a key asks, under its own spelling; the others of the
key share the answer, be it a success or a failure. So what happens is told by the record of the
lookups alone: which tables ask, what each table ends with, and which tables are reported.

When the successes of a source do not depend on the case of a name, nobody can tell from the columns
that lookups are shared: they are those of a loop that asks for every table.
-/

namespace QueryScope

/-- What a lookup is remembered by. -/
def Lookup.key (lookup : Lookup) : String := Text.upper lookup.name

/-- The answer to the lookup of a key, if there was one. -/
def Lookup.answerTo? (lookups : List Lookup) (key : String) :
    Option (Except CatalogError (List Column)) :=
  (lookups.find? (·.key == key)).map (·.answer)

/-- What can be used at a caret, with no columns filled in. -/
def Visibility.bare (visibility : Visibility) : Visibility :=
  { visibility with tableColumns := visibility.tableColumns.map TableColumns.bare }

namespace Filling

open Lookup (answerTo?)

/-- What a table is remembered by. -/
def keyOf (defaultSchema : Option String) (table : TableColumns) : String :=
  Text.upper (lookupName defaultSchema table.fullTableName)

/-- The tables with a name, of those with the same key only the first. -/
def leaders (defaultSchema : Option String) (tables : List TableColumns) : List TableColumns :=
  (tables.filter (·.fullTableName != "")).eraseDupsBy fun later earlier =>
    keyOf defaultSchema later == keyOf defaultSchema earlier

/-- How a table ends when some lookups have been made: with the columns that its key was answered
with, or as it was. -/
inductive Ends (defaultSchema : Option String) (lookups : List Lookup) :
    TableColumns → TableColumns → Prop
  | nameless {table : TableColumns} (unnamed : table.fullTableName = "") :
    Ends defaultSchema lookups table table
  | filled {table : TableColumns} {columns : List Column} (named : table.fullTableName ≠ "")
    (answered : answerTo? lookups (keyOf defaultSchema table) = some (.ok columns)) :
    Ends defaultSchema lookups table { table with columns }
  | failed {table : TableColumns} {error : CatalogError} (named : table.fullTableName ≠ "")
    (answered : answerTo? lookups (keyOf defaultSchema table) = some (.error error)) :
    Ends defaultSchema lookups table table

/-- Whether the lookup of a table's key failed. -/
def isReported (defaultSchema : Option String) (lookups : List Lookup) (table : TableColumns) :
    Bool :=
  (answerTo? lookups (keyOf defaultSchema table)).any (!·.isOk)

section

variable {past further : List Lookup} {key : String}

/-- The first answer to a key stands whatever is looked up later. -/
theorem answerTo?_append_of_some (further : List Lookup) {answer : Except CatalogError (List Column)}
    (answered : answerTo? past key = some answer) :
    answerTo? (past ++ further) key = some answer := by
  obtain ⟨lookup, found, rfl⟩ := Option.map_eq_some_iff.mp answered
  rw [answerTo?, List.find?_append, found, Option.some_or, Option.map_some]

/-- A key that was not looked up before is answered by what follows. -/
theorem answerTo?_append_of_none (further : List Lookup) (unanswered : answerTo? past key = none) :
    answerTo? (past ++ further) key = answerTo? further key := by
  rw [answerTo?, Option.map_eq_none_iff] at unanswered
  rw [answerTo?, answerTo?, List.find?_append, unanswered, Option.none_or]

/-- A lookup answers its own key and no other. -/
theorem answerTo?_singleton (lookup : Lookup) :
    answerTo? [lookup] key = if lookup.key = key then some lookup.answer else none := by
  rw [answerTo?, List.find?_singleton]
  by_cases own : lookup.key = key
  · simp only [own, beq_self_eq_true, if_true, Option.map_some]
  · simp only [beq_eq_false_iff_ne.mpr own, Bool.false_eq_true, if_false, own, Option.map_none]

/-- The first lookup of a key answers it. -/
theorem answerTo?_append_cons (further : List Lookup) {lookup : Lookup}
    (unanswered : answerTo? past lookup.key = none) :
    answerTo? (past ++ lookup :: further) lookup.key = some lookup.answer := by
  rw [answerTo?_append_of_none _ unanswered, ← List.singleton_append]
  apply answerTo?_append_of_some
  rw [answerTo?_singleton, if_pos rfl]

/-- A key without an answer belongs to no lookup. -/
theorem not_mem_of_answerTo?_eq_none (unanswered : answerTo? past key = none) :
    key ∉ past.map Lookup.key := by
  rw [answerTo?, Option.map_eq_none_iff, List.find?_eq_none] at unanswered
  intro member
  obtain ⟨lookup, isLookup, isKey⟩ := List.mem_map.mp member
  exact unanswered lookup isLookup (beq_iff_eq.mpr isKey)

end

/-! ## What a run of lookups accounts for -/

variable {σ : Type} {defaultSchema : Option String}

/-- What is known is what has been looked up. -/
def Remembers (past : List Lookup) (known : Known) : Prop :=
  ∀ key, known.lookup key = (answerTo? past key).map Except.toOption

/-- The tables that still have to ask. -/
def leadersBehind (defaultSchema : Option String) (past : List Lookup)
    (tables : List TableColumns) : List TableColumns :=
  leaders defaultSchema
    (tables.filter fun table => (answerTo? past (keyOf defaultSchema table)).isNone)

/-- What is to be said of filling in tables behind some lookups, when further ones are made
meanwhile. -/
structure Account (defaultSchema : Option String) (past : List Lookup) (tables : List TableColumns)
    (result : Result (Recorded σ)) (further : List Lookup) : Prop where
  recorded : result.source.lookups = past ++ further
  names : further.map (·.name) = (leadersBehind defaultSchema past tables).map
    (lookupName defaultSchema ·.fullTableName)
  distinct : (past.map Lookup.key).Nodup → ((past ++ further).map Lookup.key).Nodup
  ends : List.Forall₂ (Ends defaultSchema (past ++ further)) tables result.tables
  unresolved : result.unresolved = ((leadersBehind defaultSchema past tables).filter
    (isReported defaultSchema (past ++ further))).map (·.fullTableName)

section

variable {past : List Lookup} {table : TableColumns} {others : List TableColumns}

/-- A table that does not ask is no leader. -/
theorem leadersBehind_cons_of_silent
    (silent : table.fullTableName = "" ∨
      ∃ answer, answerTo? past (keyOf defaultSchema table) = some answer) :
    leadersBehind defaultSchema past (table :: others) = leadersBehind defaultSchema past others := by
  simp only [leadersBehind, leaders, List.filter_filter]
  rw [List.filter_cons_of_neg]
  rcases silent with unnamed | ⟨answer, answered⟩
  · simp [unnamed]
  · simp [answered]

/-- The first table of a key is a leader, and its lookup is the last one of the key. -/
theorem leadersBehind_cons_of_asking (others : List TableColumns) (named : table.fullTableName ≠ "")
    (unanswered : answerTo? past (keyOf defaultSchema table) = none) {lookup : Lookup}
    (isKey : lookup.key = keyOf defaultSchema table) :
    leadersBehind defaultSchema past (table :: others) =
      table :: leadersBehind defaultSchema (past ++ [lookup]) others := by
  have asks (other : TableColumns) :
      (answerTo? (past ++ [lookup]) (keyOf defaultSchema other)).isNone =
        ((answerTo? past (keyOf defaultSchema other)).isNone &&
          !(keyOf defaultSchema other == keyOf defaultSchema table)) := by
    cases answered : answerTo? past (keyOf defaultSchema other) with
    | some answer =>
      rw [answerTo?_append_of_some _ answered]
      rfl
    | none =>
      rw [answerTo?_append_of_none _ answered, answerTo?_singleton, isKey, Option.isNone_none,
        Bool.true_and]
      by_cases same : keyOf defaultSchema table = keyOf defaultSchema other
      · simp only [same, if_true, beq_self_eq_true, Option.isNone_some, Bool.not_true]
      · simp only [same, if_false, beq_eq_false_iff_ne.mpr (Ne.symm same), Option.isNone_none,
          Bool.not_false]
  simp only [leadersBehind, leaders, List.filter_filter]
  rw [List.filter_cons_of_pos (by simp [named, unanswered]), List.eraseDupsBy_cons,
    List.filter_filter]
  congr 2
  apply List.filter_congr
  intro other _
  rw [asks]
  cases (answerTo? past (keyOf defaultSchema other)).isNone <;>
    cases keyOf defaultSchema other == keyOf defaultSchema table <;> simp

variable {rest : Result (Recorded σ)} {further : List Lookup} {after : TableColumns}

/-- A table that does not ask leaves the account as it is. -/
theorem Account.silent
    (silent : table.fullTableName = "" ∨
      ∃ answer, answerTo? past (keyOf defaultSchema table) = some answer)
    (ends : Ends defaultSchema (past ++ further) table after)
    (account : Account defaultSchema past others rest further) :
    Account defaultSchema past (table :: others) { rest with tables := after :: rest.tables }
      further where
  recorded := account.recorded
  names := by rw [leadersBehind_cons_of_silent silent, account.names]
  distinct := account.distinct
  ends := .cons ends account.ends
  unresolved := by rw [leadersBehind_cons_of_silent silent, ← account.unresolved]

/-- A table that asks adds its lookup to the account, and is reported if the lookup fails. -/
theorem Account.asking (named : table.fullTableName ≠ "")
    (unanswered : answerTo? past (keyOf defaultSchema table) = none) {lookup : Lookup}
    (isName : lookup.name = lookupName defaultSchema table.fullTableName)
    (ends : Ends defaultSchema (past ++ lookup :: further) table after)
    (account : Account defaultSchema (past ++ [lookup]) others rest further) :
    Account defaultSchema past (table :: others)
      { tables := after :: rest.tables
        unresolved := if lookup.answer.isOk then rest.unresolved
          else table.fullTableName :: rest.unresolved
        source := rest.source } (lookup :: further) := by
  obtain ⟨recorded, names, distinct, endsOthers, unresolved⟩ := account
  have isKey : lookup.key = keyOf defaultSchema table := by rw [Lookup.key, isName, keyOf]
  have leading := leadersBehind_cons_of_asking others named unanswered isKey
  rw [List.append_assoc, List.singleton_append] at recorded distinct endsOthers unresolved
  have answered : answerTo? (past ++ lookup :: further) (keyOf defaultSchema table) =
      some lookup.answer := by
    rw [← isKey] at unanswered ⊢
    exact answerTo?_append_cons further unanswered
  refine ⟨recorded, ?_, ?_, .cons ends endsOthers, ?_⟩
  · rw [leading, List.map_cons, List.map_cons, isName, names]
  · intro distinctPast
    apply distinct
    have newKey : lookup.key ∉ past.map Lookup.key := by
      rw [isKey]
      exact not_mem_of_answerTo?_eq_none unanswered
    rw [List.map_append, List.map_singleton]
    exact List.nodup_append.mpr ⟨distinctPast, List.nodup_singleton _,
      fun key member other isOther same =>
        newKey (List.mem_singleton.mp isOther ▸ same ▸ member)⟩
  · rw [leading, unresolved]
    cases isOk : lookup.answer.isOk with
    | true =>
      rw [List.filter_cons_of_neg (by simp [isReported, answered, isOk])]
      rfl
    | false =>
      rw [List.filter_cons_of_pos (by simp [isReported, answered, isOk])]
      rfl

end

/-- What is known grows with the lookups. -/
theorem Remembers.cons {past : List Lookup} {known : Known} (remembers : Remembers past known)
    {lookup : Lookup} (unanswered : answerTo? past lookup.key = none) :
    Remembers (past ++ [lookup]) ((lookup.key, lookup.answer.toOption) :: known) := by
  intro key
  rw [List.lookup_cons]
  by_cases own : key = lookup.key
  · subst own
    rw [answerTo?_append_of_none _ unanswered, answerTo?_singleton, beq_self_eq_true, if_pos rfl]
    rfl
  · rw [beq_eq_false_iff_ne.mpr own]
    cases answered : answerTo? past key with
    | some answer => rw [answerTo?_append_of_some _ answered, ← answered, remembers]
    | none =>
      rw [answerTo?_append_of_none _ answered, answerTo?_singleton, if_neg (Ne.symm own),
        ← answered, remembers, answered]

variable [ColumnSource σ]

/-- A source that keeps a record answers as the source itself and records the answer. -/
theorem columns_recorded (name : String) (source : σ) (past : List Lookup) :
    ColumnSource.columns name (⟨source, past⟩ : Recorded σ) =
      ((ColumnSource.columns name source).1, ⟨(ColumnSource.columns name source).2,
        past ++ [⟨name, (ColumnSource.columns name source).1⟩]⟩) := rfl

/-- A result without the record that its source keeps. -/
def Result.unrecorded (result : Result (Recorded σ)) : Result σ :=
  ⟨result.tables, result.unresolved, result.source.source⟩

/-- Keeping a record changes nothing else. -/
theorem unrecorded_fillFrom (defaultSchema : Option String) (known : Known) (source : σ)
    (past : List Lookup) (tables : List TableColumns) :
    (fillFrom defaultSchema known (⟨source, past⟩ : Recorded σ) tables).unrecorded =
      fillFrom defaultSchema known source tables := by
  induction tables generalizing known source past with
  | nil => rfl
  | cons table others inductionHypothesis =>
    simp only [fillFrom]
    split
    · rw [← inductionHypothesis known source past]
      rfl
    · split
      · rw [← inductionHypothesis known source past]
        rfl
      · generalize lookupName defaultSchema table.fullTableName = name
        rw [columns_recorded]
        rcases ColumnSource.columns name source with ⟨_ | columns, after⟩
        · simp only
          rw [← inductionHypothesis _ after (past ++ [⟨name, _⟩])]
          rfl
        · simp only
          rw [← inductionHypothesis _ after (past ++ [⟨name, _⟩])]
          rfl

/-- Every run of filling in is accounted for, whatever was looked up before. -/
theorem exists_account (defaultSchema : Option String) {past : List Lookup} {known : Known}
    (remembers : Remembers past known) (source : σ) (tables : List TableColumns) :
    ∃ further, Account defaultSchema past tables
      (fillFrom defaultSchema known (⟨source, past⟩ : Recorded σ) tables) further := by
  induction tables generalizing past known source with
  | nil => exact ⟨[], (List.append_nil past).symm, rfl, by simp, .nil, rfl⟩
  | cons table others inductionHypothesis =>
    simp only [fillFrom]
    split
    · rename_i unnamed
      obtain ⟨further, account⟩ := inductionHypothesis remembers source
      exact ⟨further, account.silent (.inl unnamed) (.nameless unnamed)⟩
    · rename_i named
      split
      · -- The key has been looked up, so the table shares the answer.
        rename_i columns isKnown
        obtain ⟨further, account⟩ := inductionHypothesis remembers source
        rw [remembers] at isKnown
        obtain ⟨answer, answered, rfl⟩ := Option.map_eq_some_iff.mp isKnown
        have shared := answerTo?_append_of_some further answered
        refine ⟨further, account.silent (.inr ⟨answer, answered⟩) ?_⟩
        cases answer with
        | ok columns => exact .filled named shared
        | error error => exact .failed named shared
      · rename_i isUnknown
        rw [remembers, Option.map_eq_none_iff] at isUnknown
        -- The first table of its key asks the source.
        rw [columns_recorded]
        rcases ColumnSource.columns (lookupName defaultSchema table.fullTableName) source with
          ⟨answer, after⟩
        let lookup : Lookup := ⟨lookupName defaultSchema table.fullTableName, answer⟩
        have unanswered : answerTo? past lookup.key = none := isUnknown
        obtain ⟨further, account⟩ := inductionHypothesis (remembers.cons unanswered) after
        have answered := answerTo?_append_cons further unanswered
        refine ⟨lookup :: further, ?_⟩
        cases answer with
        | ok columns => exact account.asking named isUnknown rfl (.filled named answered)
        | error error => exact account.asking named isUnknown rfl (.failed named answered)

/-! ## The loop that asks for every table -/

/-- The tables when the columns of each are looked up separately. -/
def fillEach (defaultSchema : Option String) (source : σ) : List TableColumns → List TableColumns
  | [] => []
  | table :: others =>
    if table.fullTableName = "" then
      table :: fillEach defaultSchema source others
    else
      let (answer, after) := ColumnSource.columns (lookupName defaultSchema table.fullTableName) source
      { table with columns := answer.toOption.getD table.columns } ::
        fillEach defaultSchema after others

/-- The successes of a source are the same whatever it is asked, and depend on the capitals of a name
alone. -/
structure Answers (source : σ) (reached : σ → Prop) (columnsOf : String → Option (List Column)) :
    Prop where
  start : reached source
  columns : ∀ state, reached state → ∀ name,
    (ColumnSource.columns name state).1.toOption = columnsOf (Text.upper name)
  step : ∀ state, reached state → ∀ name, reached (ColumnSource.columns name state).2

/-- A source whose successes do not depend on the case of a name. -/
def CaseBlind (source : σ) : Prop := ∃ reached columnsOf, Answers source reached columnsOf

/-- A table with the columns of its key, if it has a name and there are any. -/
def withColumns (defaultSchema : Option String) (columnsOf : String → Option (List Column))
    (table : TableColumns) : TableColumns :=
  if table.fullTableName = "" then table
  else { table with columns := (columnsOf (keyOf defaultSchema table)).getD table.columns }

section

variable {source : σ} {reached : σ → Prop} {columnsOf : String → Option (List Column)}

/-- The successes stay the same after a lookup. -/
theorem Answers.after (answers : Answers source reached columnsOf) (name : String) :
    Answers (ColumnSource.columns name source).2 reached columnsOf :=
  ⟨answers.step source answers.start name, answers.columns, answers.step⟩

/-- Looked up separately, each table has the columns of its key. -/
theorem Answers.fillEach_eq (answers : Answers source reached columnsOf)
    (tables : List TableColumns) :
    fillEach defaultSchema source tables = tables.map (withColumns defaultSchema columnsOf) := by
  induction tables generalizing source with
  | nil => rfl
  | cons table others inductionHypothesis =>
    rw [fillEach, List.map_cons, withColumns]
    split
    · rw [inductionHypothesis answers]
    · have later := inductionHypothesis (answers.after (lookupName defaultSchema table.fullTableName))
      have answered := answers.columns source answers.start
        (lookupName defaultSchema table.fullTableName)
      simp only [later, answered, keyOf]

/-- So it has when answers are shared, as long as what is known is right. -/
theorem Answers.tables_fillFrom (answers : Answers source reached columnsOf) {known : Known}
    (right : ∀ key columns, known.lookup key = some columns → columns = columnsOf key)
    (tables : List TableColumns) :
    (fillFrom defaultSchema known source tables).tables =
      tables.map (withColumns defaultSchema columnsOf) := by
  induction tables generalizing source known with
  | nil => rfl
  | cons table others inductionHypothesis =>
    rw [List.map_cons, withColumns]
    simp only [fillFrom]
    split
    · rw [inductionHypothesis answers right]
    · split
      · rename_i columns isKnown
        rw [inductionHypothesis answers right, right _ _ isKnown, keyOf]
      · generalize isName : lookupName defaultSchema table.fullTableName = name
        have answered := answers.columns source answers.start name
        have answersLater := answers.after name
        have isKey : keyOf defaultSchema table = Text.upper name := by rw [keyOf, isName]
        revert answered answersLater
        rcases ColumnSource.columns name source with ⟨answer, after⟩
        intro answered answersLater
        have rightLater : ∀ key columns,
            List.lookup key ((Text.upper name, answer.toOption) :: known) = some columns →
              columns = columnsOf key := by
          intro key columns isKnown
          rw [List.lookup_cons] at isKnown
          split at isKnown
          · rename_i own
            cases isKnown
            rw [beq_iff_eq.mp own, answered]
          · exact right key columns isKnown
        have later := inductionHypothesis answersLater rightLater
        rw [isKey, ← answered]
        cases answer with
        | ok columns =>
          simp only [Except.toOption] at later
          simp only [later, Except.toOption, Option.getD_some]
        | error error =>
          simp only [Except.toOption] at later
          simp only [later, Except.toOption, Option.getD_none]

end

/-- Sharing answers cannot be seen in the columns that a case-blind source fills in. -/
theorem CaseBlind.tables_fill {source : σ} (blind : CaseBlind source) (tables : List TableColumns) :
    (fill defaultSchema source tables).tables = fillEach defaultSchema source tables := by
  obtain ⟨reached, columnsOf, answers⟩ := blind
  rw [answers.fillEach_eq, fill]
  exact answers.tables_fillFrom (by rintro key columns ⟨⟩) tables

/-- A source that never changes and finds a table by the key of its name is case-blind. -/
theorem caseBlind_of_steady {source : σ} (steady : Steady source) : CaseBlind source := by
  refine ⟨(· = source), fun key => (ColumnSource.columns key source).1.toOption, rfl, ?_, ?_⟩
  · rintro source rfl name
    have sameKey : lookupKey (Text.upper name) = lookupKey name := by
      rw [lookupKey, lookupKey, Text.trim_upper, Text.upper_upper]
    cases answered : (ColumnSource.columns name source).1 with
    | ok columns => rw [steady.sameKey sameKey.symm answered]
    | error error =>
      cases answeredCapitals : (ColumnSource.columns (Text.upper name) source).1 with
      | ok columns =>
        have also := steady.sameKey sameKey answeredCapitals
        rw [answered] at also
        cases also
      | error other => rfl
  · rintro _ rfl name
    exact steady.unchanged name

/-! ## All that filling in does -/

/-- The lookups that reach a source while columns are filled in from it. -/
def lookupsOf (defaultSchema : Option String) (source : σ) (tables : List TableColumns) :
    List Lookup :=
  (fill defaultSchema ({ source } : Recorded σ) tables).source.lookups

/-- Filling in columns changes nothing but columns. It asks for the first table of each key, in order
and as that table spells its name, and for nothing else; each table that has a name ends with the
columns that its key was answered with, or as it was if that lookup failed, and the tables that
asked in vain are reported. Over a case-blind source, such as a directory, the columns are those of
the loop that asks for every table. -/
theorem fill_lookups (defaultSchema : Option String) (source : σ) (visibility : Visibility) :
    let tables := visibility.tableColumns
    let result := fill defaultSchema source tables
    let lookups := lookupsOf defaultSchema source tables
    { visibility with tableColumns := result.tables }.bare = visibility.bare ∧
      (fill defaultSchema ({ source } : Recorded σ) tables).unrecorded = result ∧
      lookups.map (·.name) =
        (leaders defaultSchema tables).map (lookupName defaultSchema ·.fullTableName) ∧
      (lookups.map Lookup.key).Nodup ∧
      List.Forall₂ (Ends defaultSchema lookups) tables result.tables ∧
      result.unresolved =
        ((leaders defaultSchema tables).filter (isReported defaultSchema lookups)).map
          (·.fullTableName) ∧
      (CaseBlind source → result.tables = fillEach defaultSchema source tables) ∧
      ∀ directory : Directory, CaseBlind directory := by
  intro tables result lookups
  have remembers : Remembers [] [] := fun key => rfl
  obtain ⟨further, account⟩ := exists_account defaultSchema remembers source tables
  have isResult := unrecorded_fillFrom defaultSchema [] source [] tables
  have isRecord : lookups = further := account.recorded
  have allLead : leadersBehind defaultSchema [] tables = leaders defaultSchema tables := by
    rw [leadersBehind]
    exact congrArg _ (List.filter_true tables)
  have names := account.names
  have ends := account.ends
  have unresolved := account.unresolved
  rw [allLead] at names unresolved
  rw [isRecord]
  refine ⟨?_, isResult, names, account.distinct List.nodup_nil, ?_, ?_, ?_, ?_⟩
  · simp only [Visibility.bare, result, fill, map_bare_fillFrom, tables]
  · exact congrArg Result.tables isResult ▸ ends
  · exact congrArg Result.unresolved isResult ▸ unresolved
  · exact fun blind => blind.tables_fill tables
  · exact fun directory => caseBlind_of_steady directory.steady

/-- A table in two spellings, one without a name, and one that is missing, again in two spellings. -/
theorem fill_lookups_respelled :
    let orders : Table :=
      { name := "ORDERS", schema := "APP", columns := [{ name := "ID", dataType := .integer }] }
    let directory : Directory := { tables := [orders] }
    let tables : List TableColumns :=
      [⟨"o", "orders", []⟩, ⟨"", "", []⟩, ⟨"x", "gone", []⟩, ⟨"p", "APP.Orders", []⟩, ⟨"y", "GONE", []⟩]
    (lookupsOf (some "app") directory tables).map (·.name) = ["app.orders", "app.gone"] ∧
      (fill (some "app") directory tables).unresolved = ["gone"] ∧
      (fill (some "app") directory tables).tables.map (·.columns.length) = [1, 0, 0, 1, 0] ∧
      CaseBlind directory ∧
      (fill (some "app") directory tables).tables = fillEach (some "app") directory tables := by
  intro orders directory tables
  obtain ⟨_, _, _, _, _, _, sharing, blind⟩ :=
    fill_lookups (some "app") directory ⟨[], [], tables, []⟩
  exact ⟨by decide +kernel, by decide +kernel, by decide +kernel, blind directory,
    sharing (blind directory)⟩

end Filling

end QueryScope

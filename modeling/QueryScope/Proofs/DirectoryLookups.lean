import QueryScope.Proofs.Collections
import QueryScope.Proofs.DirectoryLoading

/-!
# What a directory answers

A directory is built by adding tables one after the other. A table survives unless a later one has
its key. What the directory answers is a matter of the surviving tables and of the default schema
alone; the rules are stated here for any collection of tables, without an order. Since keys differ,
a table that is found by its bare name has a schema, and no two such tables have schemas that differ
in case only, so an ambiguous name can always be told apart by its schemas.
-/

namespace QueryScope.Directory

open Collections

/-- A table that was added and that no later one with its key has replaced. -/
def Survives (added : List Table) (table : Table) : Prop :=
  ∃ earlier later, added = earlier ++ table :: later ∧ ∀ other ∈ later, other.key ≠ table.key

/-- A table whose bare name is the one that is looked up. -/
def Namesake (known : Table → Prop) (name : String) (table : Table) : Prop :=
  known table ∧ Text.sameName table.name (lookupKey name) = true

/-- When a name can only be the bare name of a table: it is no key, has no dot, and is no name of a
table in the default schema. -/
structure OnlyBare (known : Table → Prop) (defaultSchema : Option String) (name : String) :
    Prop where
  unfiled : ∀ table, known table → table.key ≠ lookupKey name
  plain : '.' ∉ (lookupKey name).toList
  outside : ∀ schema, defaultSchema = some schema → ∀ table, known table →
    table.key ≠ Text.upper schema ++ "." ++ lookupKey name

/-- What a name refers to among the tables that are known. -/
inductive Resolves (known : Table → Prop) (defaultSchema : Option String) (name : String) :
    Except CatalogError Table → Prop
  /-- A table is filed under the name. -/
  | filed {table : Table} (isKnown : known table) (isKey : table.key = lookupKey name) :
    Resolves known defaultSchema name (.ok table)
  /-- A name with a dot is looked for nowhere else. -/
  | misplaced (unfiled : ∀ table, known table → table.key ≠ lookupKey name)
    (dotted : '.' ∈ (lookupKey name).toList) :
    Resolves known defaultSchema name (.error (.tableNotFound name))
  /-- The default schema has a table with the name. -/
  | byDefault {schema : String} {table : Table}
    (unfiled : ∀ table, known table → table.key ≠ lookupKey name)
    (plain : '.' ∉ (lookupKey name).toList) (isDefault : defaultSchema = some schema)
    (isKnown : known table) (isKey : table.key = Text.upper schema ++ "." ++ lookupKey name) :
    Resolves known defaultSchema name (.ok table)
  /-- One table has the name. -/
  | single {table : Table} (bare : OnlyBare known defaultSchema name)
    (only : ∀ other, Namesake known name other ↔ other = table) :
    Resolves known defaultSchema name (.ok table)
  /-- No table has the name. -/
  | missing (bare : OnlyBare known defaultSchema name)
    (nameless : ∀ other, ¬ Namesake known name other) :
    Resolves known defaultSchema name (.error (.tableNotFound name))
  /-- Two or more tables have the name. -/
  | ambiguous {left right : Table} {schemas : List String}
    (bare : OnlyBare known defaultSchema name) (isLeft : Namesake known name left)
    (isRight : Namesake known name right) (different : left ≠ right)
    (ordered : schemas.Pairwise (· < ·))
    (exact : ∀ schema, schema ∈ schemas ↔ ∃ table, Namesake known name table ∧
      table.schema = schema) :
    Resolves known defaultSchema name (.error (.ambiguousTable name schemas))

/-- The surviving table of a key is the last one that was added with it. -/
theorem survives_iff (added : List Table) (table : Table) :
    Survives added table ↔ lastWithKey? added table.key = some table := by
  rw [lastWithKey?, List.find?_eq_some_iff_append]
  constructor
  · rintro ⟨earlier, later, rfl, unreplaced⟩
    refine ⟨beq_self_eq_true _, later.reverse, earlier.reverse, by simp, ?_⟩
    intro other member
    simpa using unreplaced other (List.mem_reverse.mp member)
  · rintro ⟨_, later, earlier, split, unreplaced⟩
    rw [List.reverse_eq_append_iff, List.reverse_cons, List.append_assoc,
      List.singleton_append] at split
    refine ⟨earlier.reverse, later.reverse, split, ?_⟩
    intro other member
    simpa using unreplaced other (List.mem_reverse.mp member)

/-- Where all keys differ, every table survives. -/
theorem survives_iff_mem_of_nodup {added : List Table} (distinct : (added.map (·.key)).Nodup)
    (table : Table) : Survives added table ↔ table ∈ added := by
  rw [survives_iff]
  constructor
  · intro isLast
    exact List.mem_reverse.mp (List.mem_of_find?_eq_some isLast)
  · exact lastWithKey?_of_nodup distinct

/-- A directory has the surviving tables and no others. -/
theorem Files.mem_iff {added : List Table} {directory : Directory} (files : Files added directory)
    (table : Table) : table ∈ directory.tables ↔ Survives added table := by
  rw [survives_iff, ← files.kept, withKey?, find?_key_eq_some_iff files.distinct]
  exact (and_iff_left rfl).symm

/-! ## Tables found by their bare name -/

section Bare

variable {known : Table → Prop} {defaultSchema : Option String} {name : String}

/-- The key of a table with a schema. -/
theorem toList_key_of_schema {table : Table} (hasSchema : table.schema ≠ "") :
    table.key.toList =
      (Text.upper table.schema).toList ++ '.' :: (Text.upper table.name).toList := by
  rw [Table.key, Table.qualifiedName, if_neg hasSchema]
  exact Text.toList_upper_append table.schema table.name

/-- A table that is found by its bare name has a schema; otherwise the name would be its key. -/
theorem OnlyBare.schema_ne_empty (bare : OnlyBare known defaultSchema name) {table : Table}
    (namesake : Namesake known name table) : table.schema ≠ "" := by
  intro noSchema
  obtain ⟨isKnown, sameName⟩ := namesake
  apply bare.unfiled table isKnown
  rw [Text.sameName, beq_iff_eq, lookupKey, Text.upper_upper] at sameName
  rw [Table.key, Table.qualifiedName, if_pos noSchema, sameName, lookupKey]

/-- Two such tables whose schemas differ at most in case have the same key. -/
theorem OnlyBare.key_eq (bare : OnlyBare known defaultSchema name) {left right : Table}
    (isLeft : Namesake known name left) (isRight : Namesake known name right)
    (sameSchema : Text.sameName left.schema right.schema = true) : left.key = right.key := by
  have sameNames : Text.upper left.name = Text.upper right.name :=
    (beq_iff_eq.mp isLeft.2).trans (beq_iff_eq.mp isRight.2).symm
  rw [← String.toList_inj, toList_key_of_schema (bare.schema_ne_empty isLeft),
    toList_key_of_schema (bare.schema_ne_empty isRight), beq_iff_eq.mp sameSchema, sameNames]

/-- The schemas of an ambiguous name are not empty, and they differ by more than case. -/
theorem Resolves.schemas_apart
    (apart : ∀ left right, known left → known right → left.key = right.key → left = right)
    {spoken : String} {schemas : List String}
    (resolves : Resolves known defaultSchema name (.error (.ambiguousTable spoken schemas))) :
    (∀ schema ∈ schemas, schema ≠ "") ∧
      schemas.Pairwise fun left right => Text.sameName left right = false := by
  cases resolves with
  | ambiguous bare _ _ _ ordered exact =>
    constructor
    · intro schema member
      obtain ⟨table, namesake, rfl⟩ := (exact schema).mp member
      exact bare.schema_ne_empty namesake
    · refine ordered.imp_of_mem ?_
      intro left right leftMember rightMember before
      obtain ⟨leftTable, isLeft, rfl⟩ := (exact left).mp leftMember
      obtain ⟨rightTable, isRight, rfl⟩ := (exact right).mp rightMember
      rw [Bool.eq_false_iff]
      intro sameSchema
      rw [apart _ _ isLeft.1 isRight.1 (bare.key_eq isLeft isRight sameSchema)] at before
      exact String.lt_irrefl _ before

end Bare

/-! ## The rules are what a directory follows -/

section Find

variable {directory : Directory} {name : String}

/-- The tables with a bare name. -/
theorem mem_named_iff (table : Table) :
    table ∈ directory.named (lookupKey name) ↔ Namesake (· ∈ directory.tables) name table :=
  List.mem_filter

/-- No table is filed under a key that no table has. -/
theorem withKey?_eq_none {key : String} (unfiled : ∀ table ∈ directory.tables, table.key ≠ key) :
    directory.withKey? key = none := by
  rw [withKey?, List.find?_eq_none]
  intro table member
  rw [beq_iff_eq]
  exact unfiled table member

/-- A name that can only be a bare name comes to be looked for among all schemas. -/
theorem passes_of_onlyBare
    (bare : OnlyBare (· ∈ directory.tables) directory.defaultSchema name) :
    directory.withKey? (lookupKey name) = none ∧ (lookupKey name).toList.contains '.' = false ∧
      directory.inDefaultSchema? (lookupKey name) = none := by
  refine ⟨withKey?_eq_none bare.unfiled, ?_, ?_⟩
  · rw [Bool.eq_false_iff, ne_eq, List.contains_iff_mem]
    exact bare.plain
  · rw [inDefaultSchema?, Option.bind_eq_none_iff]
    intro schema isDefault
    exact withKey?_eq_none (bare.outside schema isDefault)

variable (distinct : (directory.tables.map (·.key)).Nodup)

include distinct

/-- Tables with different keys are different. -/
theorem nodup_named (key : String) : (directory.named key).Nodup :=
  (List.Nodup.of_map _ distinct).filter _

/-- The schemas of the tables with a bare name, sorted. -/
theorem sortedTexts_named
    (bare : OnlyBare (· ∈ directory.tables) directory.defaultSchema name) :
    (sortedTexts ((directory.named (lookupKey name)).map (·.schema))).Pairwise (· < ·) ∧
      ∀ schema, schema ∈ sortedTexts ((directory.named (lookupKey name)).map (·.schema)) ↔
        ∃ table, Namesake (· ∈ directory.tables) name table ∧ table.schema = schema := by
  constructor
  · rw [sortedTexts]
    apply pairwise_lt_mergeSort
    · intro left right
      exact decide_eq_true_iff
    · rw [List.map_id', List.Nodup, List.pairwise_map]
      refine (nodup_named distinct _).imp_of_mem ?_
      intro left right isLeft isRight different sameSchema
      rw [mem_named_iff] at isLeft isRight
      refine different (List.inj_on_of_nodup_map distinct isLeft.1 isRight.1 ?_)
      exact bare.key_eq isLeft isRight (by rw [sameSchema, Text.sameName, beq_self_eq_true])
  · intro schema
    rw [sortedTexts, List.mem_mergeSort, List.mem_map]
    simp only [mem_named_iff]

/-- What the rules say is what is answered. -/
theorem find_of_resolves {result : Except CatalogError Table}
    (resolves : Resolves (· ∈ directory.tables) directory.defaultSchema name result) :
    directory.find name = result := by
  have filed {table : Table} {key : String} (member : table ∈ directory.tables)
      (isKey : table.key = key) : directory.withKey? key = some table :=
    (find?_key_eq_some_iff distinct key table).mpr ⟨member, isKey⟩
  cases resolves with
  | filed isKnown isKey => simp only [find, filed isKnown isKey]
  | misplaced unfiled dotted =>
    simp only [find, withKey?_eq_none unfiled, List.contains_iff_mem.mpr dotted, if_true]
  | byDefault unfiled plain isDefault isKnown isKey =>
    have noDot := mt List.contains_iff_mem.mp plain
    simp only [find, withKey?_eq_none unfiled, if_neg noDot, inDefaultSchema?, isDefault,
      Option.bind_some, filed isKnown isKey]
  | @single table bare only =>
    have one : directory.named (lookupKey name) = [table] := by
      rw [← List.perm_singleton, List.perm_ext_iff_of_nodup (nodup_named distinct _)
        (List.nodup_singleton _)]
      intro other
      rw [mem_named_iff, only, List.mem_singleton]
    simp only [find, passes_of_onlyBare bare, Bool.false_eq_true, if_false, one]
  | missing bare nameless =>
    have none : directory.named (lookupKey name) = [] := by
      rw [List.eq_nil_iff_forall_not_mem]
      intro other
      rw [mem_named_iff]
      exact nameless other
    simp only [find, passes_of_onlyBare bare, Bool.false_eq_true, if_false, none]
  | @ambiguous left right schemas bare isLeft isRight different ordered exact =>
    obtain ⟨orderedToo, exactToo⟩ := sortedTexts_named distinct bare
    have same : sortedTexts ((directory.named (lookupKey name)).map (·.schema)) = schemas := by
      apply eq_of_pairwise_lt orderedToo ordered
      intro schema
      rw [exactToo, exact]
    rw [← mem_named_iff] at isLeft isRight
    simp only [find, passes_of_onlyBare bare, Bool.false_eq_true, if_false]
    rw [← same]
    -- A list with two different members is neither empty nor a singleton.
    split
    · rename_i nothing
      rw [nothing] at isLeft
      cases isLeft
    · rename_i one
      rw [one, List.mem_singleton] at isLeft isRight
      exact absurd (isLeft.trans isRight.symm) different
    · rfl

/-- The rules always say something. -/
theorem exists_resolves (name : String) :
    ∃ result, Resolves (· ∈ directory.tables) directory.defaultSchema name result := by
  by_cases filed : ∃ table ∈ directory.tables, table.key = lookupKey name
  · obtain ⟨table, isKnown, isKey⟩ := filed
    exact ⟨_, .filed isKnown isKey⟩
  have unfiled : ∀ table ∈ directory.tables, table.key ≠ lookupKey name :=
    fun table member isKey => filed ⟨table, member, isKey⟩
  by_cases dotted : '.' ∈ (lookupKey name).toList
  · exact ⟨_, .misplaced unfiled dotted⟩
  by_cases inDefault : ∃ schema, directory.defaultSchema = some schema ∧
      ∃ table ∈ directory.tables, table.key = Text.upper schema ++ "." ++ lookupKey name
  · obtain ⟨schema, isDefault, table, isKnown, isKey⟩ := inDefault
    exact ⟨_, .byDefault unfiled dotted isDefault isKnown isKey⟩
  have bare : OnlyBare (· ∈ directory.tables) directory.defaultSchema name :=
    ⟨unfiled, dotted, fun schema isDefault table member isKey =>
      inDefault ⟨schema, isDefault, table, member, isKey⟩⟩
  have namesakes : ∀ table, table ∈ directory.named (lookupKey name) ↔
      Namesake (· ∈ directory.tables) name table := mem_named_iff
  obtain ⟨ordered, exact⟩ := sortedTexts_named distinct bare
  have different := nodup_named distinct (lookupKey name)
  rcases found : directory.named (lookupKey name) with _ | ⟨left, _ | ⟨right, others⟩⟩
  · refine ⟨_, .missing bare ?_⟩
    intro other
    rw [← namesakes, found]
    exact List.not_mem_nil
  · refine ⟨.ok left, .single bare ?_⟩
    intro other
    rw [← namesakes, found, List.mem_singleton]
  · rw [found] at different
    have isLeft := (namesakes left).mp (by simp [found])
    have isRight := (namesakes right).mp (by simp [found])
    refine ⟨_, .ambiguous bare isLeft isRight ?_ ordered exact⟩
    rintro rfl
    simp at different

/-- The rules are exactly what is answered. -/
theorem find_eq_iff (name : String) (result : Except CatalogError Table) :
    directory.find name = result ↔
      Resolves (· ∈ directory.tables) directory.defaultSchema name result := by
  constructor
  · rintro rfl
    obtain ⟨result, resolves⟩ := exists_resolves distinct name
    rwa [find_of_resolves distinct resolves]
  · exact find_of_resolves distinct

end Find

/-! ## Directories that were built -/

/-- A directory that came about by adding some tables in turn and setting a default schema, if any,
at some time. -/
inductive Built : List Table → Option String → Directory → Prop
  | new : Built [] none {}
  | add {added : List Table} {defaultSchema : Option String} {directory : Directory}
    (built : Built added defaultSchema directory) (table : Table) :
    Built (added ++ [table]) defaultSchema (directory.add table)
  | withDefaultSchema {added : List Table} {defaultSchema : Option String} {directory : Directory}
    (built : Built added defaultSchema directory) (schema : String) :
    Built added (some schema) (directory.withDefaultSchema schema)

/-- Directories that cannot be told apart by looking up a name or listing the tables. -/
structure Alike (left right : Directory) : Prop where
  find : ∀ name, left.find name = right.find name
  tables : ColumnSource.tables left = ColumnSource.tables right

section Built

variable {added : List Table} {defaultSchema : Option String} {directory : Directory}

/-- A directory that was built holds the last table with each key. -/
theorem Built.files (built : Built added defaultSchema directory) : Files added directory := by
  induction built with
  | new => exact Files.empty none
  | add _ table inductionHypothesis => exact inductionHypothesis.add table
  | withDefaultSchema _ _ inductionHypothesis =>
    exact ⟨inductionHypothesis.distinct, inductionHypothesis.kept⟩

/-- It has the default schema that was set last. -/
theorem Built.defaultSchema_eq (built : Built added defaultSchema directory) :
    directory.defaultSchema = defaultSchema := by
  induction built with
  | new => rfl
  | add _ _ inductionHypothesis => exact inductionHypothesis
  | withDefaultSchema => rfl

/-- Tables with different keys are listed strictly in order. -/
theorem pairwise_lt_tables (distinct : (directory.tables.map (·.key)).Nodup) :
    (ColumnSource.tables directory).Pairwise fun left right =>
      left.qualifiedName < right.qualifiedName := by
  have distinctNames : (directory.tables.map (·.qualifiedName)).Nodup := by
    apply List.Nodup.of_map Text.upper
    rwa [List.map_map]
  exact pairwise_lt_mergeSort (fun _ _ => decide_eq_true_iff) distinctNames

/-- Two directories with the same tables and the same default schema cannot be told apart. -/
theorem alike_of_mem_iff {left right : Directory}
    (leftDistinct : (left.tables.map (·.key)).Nodup)
    (rightDistinct : (right.tables.map (·.key)).Nodup)
    (sameTables : ∀ table, table ∈ left.tables ↔ table ∈ right.tables)
    (sameDefault : left.defaultSchema = right.defaultSchema) : Alike left right where
  find := by
    intro name
    have sameKnown : (· ∈ left.tables) = (· ∈ right.tables) :=
      funext fun table => propext (sameTables table)
    rw [find_eq_iff leftDistinct, sameKnown, sameDefault, ← find_eq_iff rightDistinct]
  tables := by
    apply eq_of_pairwise_lt (pairwise_lt_tables leftDistinct) (pairwise_lt_tables rightDistinct)
    intro table
    exact (List.mem_mergeSort.trans (sameTables table)).trans List.mem_mergeSort.symm

/-- What a directory answers is told by the surviving tables and the default schema: which table a
name refers to, and why it refers to none. The schemas of an ambiguous name are not empty and differ
by more than case. All surviving tables are listed, strictly in the order of their qualified names.
So it matters neither in which order the directory keeps its tables, nor how it came by them, nor in
which order tables with different keys were added. -/
theorem built_answers (built : Built added defaultSchema directory) :
    (∀ name result, directory.find name = result ↔
      Resolves (Survives added) defaultSchema name result) ∧
    (∀ name spoken schemas, directory.find name = .error (.ambiguousTable spoken schemas) →
      (∀ schema ∈ schemas, schema ≠ "") ∧
        schemas.Pairwise fun left right => Text.sameName left right = false) ∧
    ((ColumnSource.tables directory).Pairwise fun left right =>
      left.qualifiedName < right.qualifiedName) ∧
    (∀ table, table ∈ ColumnSource.tables directory ↔ Survives added table) ∧
    (∀ kept, kept.Perm directory.tables → Alike { tables := kept, defaultSchema } directory) ∧
    (∀ others other, Built others defaultSchema other →
      (∀ table, Survives others table ↔ Survives added table) ∨
        others.Perm added ∧ (added.map (·.key)).Nodup → Alike other directory) := by
  have files := built.files
  have known : (· ∈ directory.tables) = Survives added :=
    funext fun table => propext (files.mem_iff table)
  have answers (name : String) (result : Except CatalogError Table) :
      directory.find name = result ↔ Resolves (Survives added) defaultSchema name result := by
    rw [find_eq_iff files.distinct, known, built.defaultSchema_eq]
  refine ⟨answers, ?_, pairwise_lt_tables files.distinct, ?_, ?_, ?_⟩
  · intro name spoken schemas found
    refine Resolves.schemas_apart ?_ ((find_eq_iff files.distinct name _).mp found)
    intro left right isLeft isRight
    exact List.inj_on_of_nodup_map files.distinct isLeft isRight
  · intro table
    rw [← files.mem_iff]
    exact List.mem_mergeSort
  · intro kept reordered
    have keptDistinct : (kept.map (·.key)).Nodup :=
      (reordered.map _).nodup_iff.mpr files.distinct
    exact alike_of_mem_iff keptDistinct files.distinct (fun _ => reordered.mem_iff)
      built.defaultSchema_eq.symm
  · intro others other builtToo same
    have sameSurvivors : ∀ table, Survives others table ↔ Survives added table := by
      rcases same with same | ⟨reordered, distinct⟩
      · exact same
      · have othersDistinct : (others.map (·.key)).Nodup :=
          (reordered.map _).nodup_iff.mpr distinct
        intro table
        rw [survives_iff_mem_of_nodup distinct, survives_iff_mem_of_nodup othersDistinct,
          reordered.mem_iff]
    refine alike_of_mem_iff builtToo.files.distinct files.distinct ?_
      (builtToo.defaultSchema_eq.trans built.defaultSchema_eq.symm)
    intro table
    rw [files.mem_iff, builtToo.files.mem_iff, sameSurvivors]

end Built

/-- A table that another one with the same key replaces. -/
def former : Table := { name := "orders", schema := "dbm" }

/-- A table with the same bare name in another schema. -/
def archived : Table := { name := "ORDERS", schema := "Archive" }

/-- The table that replaces the first one. -/
def current : Table := { name := "Orders", schema := "DBM" }

/-- A directory to which the three were added. -/
def namesakes : Directory := ((({} : Directory).add former).add archived).add current

theorem built_namesakes : Built [former, archived, current] none namesakes :=
  ((Built.new.add former).add archived).add current

theorem tables_namesakes : namesakes.tables = [archived, current] := by decide +kernel

theorem survives_namesakes (table : Table) :
    Survives [former, archived, current] table ↔ table = archived ∨ table = current := by
  rw [← built_namesakes.files.mem_iff, tables_namesakes]
  simp only [List.mem_cons, List.not_mem_nil, or_false]

/-- Their bare name is ambiguous, whichever way the directory keeps its tables. -/
theorem built_answers_namesakes :
    Built [former, archived, current] none namesakes ∧
      namesakes.find " orders" = .error (.ambiguousTable " orders" ["Archive", "DBM"]) ∧
      namesakes.find "dbm.orders" = .ok current ∧
      Alike { tables := [current, archived] } namesakes := by
  obtain ⟨answers, _, _, _, anyOrder, _⟩ := built_answers built_namesakes
  have forAll {property : Table → Prop} (ofArchived : property archived)
      (ofCurrent : property current) :
      ∀ table, Survives [former, archived, current] table → property table := by
    intro table survives
    rcases (survives_namesakes table).mp survives with rfl | rfl
    · exact ofArchived
    · exact ofCurrent
  have named (table : Table) :
      Namesake (Survives [former, archived, current]) " orders" table ↔
        table = archived ∨ table = current := by
    have isNamed : ∀ table, Survives [former, archived, current] table →
        Text.sameName table.name (lookupKey " orders") = true :=
      forAll (by decide +kernel) (by decide +kernel)
    rw [← survives_namesakes]
    exact and_iff_left_of_imp (isNamed table)
  refine ⟨built_namesakes, (answers _ _).mpr ?_, (answers _ _).mpr ?_, anyOrder _ ?_⟩
  · have bare : OnlyBare (Survives [former, archived, current]) none " orders" :=
      ⟨forAll (by decide +kernel) (by decide +kernel), by decide +kernel, by simp⟩
    refine .ambiguous bare ((named archived).mpr (.inl rfl)) ((named current).mpr (.inr rfl))
      (by decide +kernel) (by decide +kernel) ?_
    intro schema
    simp only [named, or_and_right, exists_or, exists_eq_left, List.mem_cons, List.not_mem_nil,
      or_false]
    exact or_congr eq_comm eq_comm
  · exact .filed ((survives_namesakes current).mpr (.inr rfl)) (by decide +kernel)
  · rw [tables_namesakes]
    exact List.Perm.swap _ _ _

end QueryScope.Directory

import Mathlib.Data.List.Dedup
import QueryScope.Catalog.Document
import QueryScope.Proofs.CapitalNames
import QueryScope.Proofs.SchemaParts

/-!
# What a directory keeps of its document

A directory files each table under its key, the qualified name in capitals, and a table takes the
place of an earlier one with the same key. A lookup takes the blanks off the ends of a name, but
filing does not. So a table is found under its own qualified name exactly if no later table has its
key and the qualified name has no blanks at its ends. Two tables can share a key though their
schemas or their names differ, but only if a name contains a dot.
-/

namespace QueryScope

namespace Text

/-- Trimming leaves some of the characters, in order. -/
theorem trim_sublist (text : String) : (trim text).toList.Sublist text.toList := by
  rw [trim, String.toList_ofList, trimCharacters, dropTrailingBlanks, dropLeadingBlanks]
  have back := (List.dropWhile_sublist isBlank (l := (text.toList.dropWhile isBlank).reverse)).reverse
  rw [List.reverse_reverse] at back
  exact back.trans (List.dropWhile_sublist isBlank)

/-- A text that is as long when it is trimmed has no blanks to take off. -/
theorem trim_eq_of_upper_eq {text : String} (same : upper (trim text) = upper text) :
    trim text = text := by
  have lengths := congrArg (fun capitals => capitals.toList.length) same
  simp only [upper, String.toList_ofList, List.length_map] at lengths
  exact String.toList_inj.mp ((trim_sublist text).eq_of_length lengths)

/-- Trimming never takes off a dot. -/
theorem dot_mem_trim {text : String} (dotted : '.' ∈ text.toList) : '.' ∈ (trim text).toList := by
  rw [List.mem_iff_append] at dotted
  obtain ⟨front, back, split⟩ := dotted
  have inside : ['.'] <:+: text.toList := ⟨front, back, by rw [split]; simp⟩
  have kept := SchemaParts.isInfix_trim inside (by simp only [List.mem_singleton]; rintro _ rfl; decide)
  exact kept.subset List.mem_cons_self

/-- Capitals have a dot exactly where the text has one. -/
theorem dot_mem_upper {text : String} : '.' ∈ (upper text).toList ↔ '.' ∈ text.toList := by
  rw [upper, String.toList_ofList, List.mem_map]
  constructor
  · rintro ⟨character, member, isDot⟩
    rwa [← (toUpper_eq_iff (by decide) character).mp isDot]
  · intro member
    exact ⟨'.', member, by decide⟩

theorem toList_upper_append (front back : String) :
    (upper (front ++ "." ++ back)).toList =
      (upper front).toList ++ '.' :: (upper back).toList := by
  simp [upper, show Char.toUpper '.' = '.' by decide]

end Text

namespace Table

/-- Two tables with the same schema and the same name, when case is disregarded. -/
def SamePlace (left right : Table) : Prop :=
  Text.sameName left.schema right.schema = true ∧ Text.sameName left.name right.name = true

instance (left right : Table) : Decidable (SamePlace left right) :=
  inferInstanceAs (Decidable (_ ∧ _))

/-- The characters of a key: those of the schema and a dot come before those of the name, if there
is a schema. -/
theorem toList_key (table : Table) :
    (table.schema = "" ∧ table.key.toList = (Text.upper table.name).toList) ∨
      table.key.toList = (Text.upper table.schema).toList ++ '.' :: (Text.upper table.name).toList := by
  rw [key, qualifiedName]
  split
  · rename_i noSchema
    exact .inl ⟨noSchema, rfl⟩
  · exact .inr (Text.toList_upper_append table.schema table.name)

/-- A key is that of a schema and a name in one way only if the name has no dot. -/
theorem samePlace_of_key_eq {left right : Table} (leftPlain : '.' ∉ left.name.toList)
    (rightPlain : '.' ∉ right.name.toList) (same : left.key = right.key) : SamePlace left right := by
  rw [← Text.dot_mem_upper] at leftPlain rightPlain
  have sameList := congrArg String.toList same
  simp only [SamePlace, Text.sameName, beq_iff_eq, ← String.toList_inj]
  rcases left.toList_key with ⟨noLeft, leftKey⟩ | leftKey
  · rcases right.toList_key with ⟨noRight, rightKey⟩ | rightKey
    · rw [noLeft, noRight, ← leftKey, ← rightKey]
      exact ⟨rfl, sameList⟩
    · refine absurd ?_ leftPlain
      rw [← leftKey, sameList, rightKey]
      simp
  · rcases right.toList_key with ⟨noRight, rightKey⟩ | rightKey
    · refine absurd ?_ rightPlain
      rw [← rightKey, ← sameList, leftKey]
      simp
    · -- The last dot of the key is the one between schema and name.
      rw [leftKey, rightKey] at sameList
      rcases List.append_eq_append_iff.mp sameList with ⟨more, schemas, names⟩ | ⟨more, schemas, names⟩
      · cases more with
        | nil => exact ⟨by rw [schemas, List.append_nil], (List.cons.inj names).2⟩
        | cons first others =>
          refine absurd ?_ leftPlain
          rw [(List.cons.inj names).2]
          simp
      · cases more with
        | nil => exact ⟨by rw [schemas, List.append_nil], (List.cons.inj names).2.symm⟩
        | cons first others =>
          refine absurd ?_ rightPlain
          rw [(List.cons.inj names).2]
          simp

end Table

namespace Directory

/-- The table with a key is one of the directory's, and it has the key. -/
theorem of_withKey?_eq_some {directory : Directory} {key : String} {table : Table}
    (filed : directory.withKey? key = some table) : table ∈ directory.tables ∧ table.key = key :=
  ⟨List.mem_of_find?_eq_some filed, by simpa using List.find?_some filed⟩

/-- The last of some tables with a key. -/
def lastWithKey? (tables : List Table) (key : String) : Option Table :=
  tables.reverse.find? (·.key == key)

/-- A further table is the last one with its own key, and changes nothing for the others. -/
theorem lastWithKey?_concat (tables : List Table) (table : Table) (key : String) :
    lastWithKey? (tables ++ [table]) key =
      if table.key = key then some table else lastWithKey? tables key := by
  rw [lastWithKey?, List.reverse_append, List.reverse_singleton, List.singleton_append]
  by_cases isKey : table.key = key
  · rw [List.find?_cons_of_pos (by simpa using isKey), if_pos isKey]
  · rw [List.find?_cons_of_neg (by simpa using isKey), if_neg isKey, lastWithKey?]

/-- Some table has a key exactly if there is a last one with it. -/
theorem isSome_lastWithKey? (tables : List Table) (key : String) :
    (lastWithKey? tables key).isSome = true ↔ key ∈ tables.map (·.key) := by
  rw [lastWithKey?, List.find?_isSome, List.mem_map]
  simp only [List.mem_reverse, beq_iff_eq]

/-- Among tables with different keys, each is the last one with its own. -/
theorem lastWithKey?_of_nodup {tables : List Table} (distinct : (tables.map (·.key)).Nodup)
    {table : Table} (member : table ∈ tables) : lastWithKey? tables table.key = some table := by
  have hasLast := (isSome_lastWithKey? tables table.key).mpr (List.mem_map_of_mem member)
  obtain ⟨last, isLast⟩ := Option.isSome_iff_exists.mp hasLast
  have lastMember : last ∈ tables := List.mem_reverse.mp (List.mem_of_find?_eq_some isLast)
  have sameKey : last.key = table.key := by simpa using List.find?_some isLast
  rw [isLast, List.inj_on_of_nodup_map distinct lastMember member sameKey]

/-- A directory that holds, of some tables that were added in turn, the last one with each key. -/
structure Files (tables : List Table) (directory : Directory) : Prop where
  distinct : (directory.tables.map (·.key)).Nodup
  kept : ∀ key, directory.withKey? key = lastWithKey? tables key

namespace Files

variable {tables : List Table} {directory : Directory}

/-- A directory without tables. -/
theorem empty (defaultSchema : Option String) : Files [] { defaultSchema } :=
  ⟨List.nodup_nil, fun _ => rfl⟩

/-- What a further table does to a directory. -/
theorem add (files : Files tables directory) (table : Table) :
    Files (tables ++ [table]) (directory.add table) := by
  constructor
  · have others : ((directory.tables.filter (·.key != table.key)).map (·.key)).Nodup :=
      files.distinct.sublist (List.filter_sublist.map _)
    rw [Directory.add, List.map_append, List.map_singleton]
    refine others.append (List.nodup_singleton _) ?_
    intro key isOther isNew
    obtain ⟨other, kept, rfl⟩ := List.mem_map.mp isOther
    have different := (List.mem_filter.mp kept).2
    rw [List.mem_singleton.mp isNew] at different
    simp at different
  · intro key
    rw [lastWithKey?_concat, ← files.kept key, Directory.add, withKey?, List.find?_append]
    by_cases isKey : table.key = key
    · have replaced : (directory.tables.filter (·.key != table.key)).find? (·.key == key) = none := by
        rw [List.find?_eq_none]
        intro other kept
        simpa [isKey] using (List.mem_filter.mp kept).2
      rw [replaced, Option.none_or, if_pos isKey, List.find?_cons_of_pos (by simpa using isKey)]
    · have same : (directory.tables.filter (·.key != table.key)).find? (·.key == key) =
          directory.withKey? key := by
        rw [List.find?_filter, withKey?]
        congr 1
        funext other
        by_cases hasKey : other.key = key
        · simp [hasKey, Ne.symm isKey]
        · simp [hasKey]
      rw [same, if_neg isKey, List.find?_cons_of_neg (by simpa using isKey), List.find?_nil,
        Option.or_none]

/-- What any further tables do to it. -/
theorem foldl_add (files : Files tables directory) (further : List Table) :
    Files (tables ++ further) (further.foldl Directory.add directory) := by
  induction further generalizing tables directory with
  | nil => rwa [List.append_nil]
  | cons table others inductionHypothesis =>
    have after := inductionHypothesis (files.add table)
    rwa [List.append_assoc, List.singleton_append] at after

/-- Such a directory has as many tables as there are keys. -/
theorem size_eq (files : Files tables directory) :
    directory.size = (tables.map (·.key)).dedup.length := by
  have sameKeys : (directory.tables.map (·.key)).Perm (tables.map (·.key)).dedup := by
    rw [List.perm_ext_iff_of_nodup files.distinct (List.nodup_dedup _)]
    intro key
    rw [List.mem_dedup, ← isSome_lastWithKey? tables, ← files.kept, withKey?, List.find?_isSome,
      List.mem_map]
    simp only [beq_iff_eq]
  rw [← sameKeys.length_eq, List.length_map, size]

/-- None of the tables is left out exactly if their keys differ. -/
theorem size_eq_length_iff (files : Files tables directory) :
    directory.size = tables.length ↔ (tables.map (·.key)).Nodup := by
  have asManyKeys : (tables.map (·.key)).length = tables.length := List.length_map _
  rw [files.size_eq, ← asManyKeys, ← List.dedup_eq_self]
  constructor
  · exact (List.dedup_sublist _).eq_of_length
  · intro same
    rw [same]

end Files

/-- A table is found under its own qualified name exactly if the name has no blanks at its ends and
the table is filed under its key. No other way of finding a table leads to it: both the default
schema and the bare name are tried only for a name without a dot, and then the table has no schema. -/
theorem find_qualifiedName_iff (directory : Directory) (table : Table) :
    directory.find table.qualifiedName = .ok table ↔
      Text.trim table.qualifiedName = table.qualifiedName ∧
        directory.withKey? table.key = some table := by
  constructor
  · intro found
    simp only [find] at found
    split at found
    · rename_i other isOther
      cases found
      have sameKey := (of_withKey?_eq_some isOther).2
      rw [← sameKey] at isOther
      exact ⟨Text.trim_eq_of_upper_eq sameKey.symm, isOther⟩
    · rename_i notFiled
      split at found
      · cases found
      · rename_i noDot
        have plain : '.' ∉ table.qualifiedName.toList := by
          intro dotted
          have keyDotted := Text.dot_mem_upper.mpr (Text.dot_mem_trim dotted)
          exact noDot (List.contains_iff_mem.mpr keyDotted)
        split at found
        · -- The default schema would put a dot into the key.
          rename_i other isOther
          cases found
          obtain ⟨schema, _, isFiled⟩ := Option.bind_eq_some_iff.mp isOther
          refine absurd ?_ plain
          rw [← Text.dot_mem_upper, ← Table.key, (of_withKey?_eq_some isFiled).2]
          simp
        · split at found
          · cases found
          · -- Found by its bare name it has no schema, so it would be filed under the name.
            rename_i other single
            cases found
            have member : table ∈ directory.named (lookupKey table.qualifiedName) := by
              rw [single]
              exact List.mem_cons_self
            obtain ⟨isTable, sameName⟩ := List.mem_filter.mp member
            have noSchema : table.schema = "" := by
              by_contra hasSchema
              rw [Table.qualifiedName, if_neg hasSchema] at plain
              simp at plain
            have sameKey : table.key = lookupKey table.qualifiedName := by
              rw [Text.sameName, beq_iff_eq, lookupKey, Text.upper_upper] at sameName
              rw [Table.key, lookupKey, ← sameName, Table.qualifiedName, if_pos noSchema]
            rw [withKey?, List.find?_eq_none] at notFiled
            exact absurd (beq_iff_eq.mpr sameKey) (notFiled table isTable)
          · cases found
  · rintro ⟨trimmed, filed⟩
    have sameKey : lookupKey table.qualifiedName = table.key := by
      rw [lookupKey, trimmed, Table.key]
    simp only [find, sameKey, filed]

/-- A directory that was loaded holds the last table of its document with each key. -/
theorem exists_files_of_ofText {text : String} {directory : Directory}
    (loaded : ofText text = .ok directory) :
    ∃ document, (Json.Document.parse? text).bind DirectoryDocument.ofDocument? = some document ∧
      Files document.tables directory := by
  rw [ofText] at loaded
  split at loaded
  · rename_i document isDocument
    rw [ofDocument] at loaded
    split at loaded
    · cases loaded
    · cases loaded
      exact ⟨document, isDocument, (Files.empty document.defaultSchema).foldl_add document.tables⟩
  · cases loaded

/-- Tables in different places whose names have no dots have different keys. -/
theorem nodup_keys_of_plain {tables : List Table}
    (apart : tables.Pairwise fun left right => ¬ left.SamePlace right)
    (plain : ∀ table ∈ tables, '.' ∉ table.name.toList) : (tables.map (·.key)).Nodup := by
  rw [List.Nodup, List.pairwise_map]
  refine apart.imp_of_mem ?_
  intro left right leftMember rightMember different same
  exact different (Table.samePlace_of_key_eq (plain left leftMember) (plain right rightMember) same)

/-- A directory that was loaded has one table for each key of its document. A table of the document is
found under its qualified name exactly if the name has no blanks at its ends and no later table has
the key. So nothing is lost exactly if all keys differ and no qualified name has blanks at its ends;
and the keys of tables in different places differ at least if their names have no dots. -/
theorem ofText_keeps {text : String} {directory : Directory} (loaded : ofText text = .ok directory) :
    ∃ document, (Json.Document.parse? text).bind DirectoryDocument.ofDocument? = some document ∧
      directory.size = (document.tables.map (·.key)).dedup.length ∧
      (∀ table ∈ document.tables, directory.find table.qualifiedName = .ok table ↔
        Text.trim table.qualifiedName = table.qualifiedName ∧
          lastWithKey? document.tables table.key = some table) ∧
      ((directory.size = document.tables.length ∧
          ∀ table ∈ document.tables, directory.find table.qualifiedName = .ok table) ↔
        (document.tables.map (·.key)).Nodup ∧
          ∀ table ∈ document.tables, Text.trim table.qualifiedName = table.qualifiedName) ∧
      (document.tables.Pairwise (fun left right => ¬ left.SamePlace right) →
        (∀ table ∈ document.tables, '.' ∉ table.name.toList) →
          (document.tables.map (·.key)).Nodup) := by
  obtain ⟨document, isDocument, files⟩ := exists_files_of_ofText loaded
  have found (table : Table) : directory.find table.qualifiedName = .ok table ↔
      Text.trim table.qualifiedName = table.qualifiedName ∧
        lastWithKey? document.tables table.key = some table := by
    rw [find_qualifiedName_iff, files.kept]
  refine ⟨document, isDocument, files.size_eq, fun table _ => found table, ?_, nodup_keys_of_plain⟩
  rw [files.size_eq_length_iff]
  constructor
  · rintro ⟨distinct, allFound⟩
    exact ⟨distinct, fun table member => ((found table).mp (allFound table member)).1⟩
  · rintro ⟨distinct, trimmed⟩
    refine ⟨distinct, fun table member => (found table).mpr ⟨trimmed table member, ?_⟩⟩
    exact lastWithKey?_of_nodup distinct member

/-- A document with three tables in different places, written without the names of the fields. Two of
them share a key, and the name of the third one ends with a blank. -/
def crowded : String := "[null, [[\"c\", \"a.b\"], [\"B.C\", \"A\"], [\"T \", \"S\"]]]"

/-- Of its tables only the second one is found under its qualified name. -/
theorem ofText_keeps_crowded :
    ∃ directory document, ofText crowded = .ok directory ∧
      (Json.Document.parse? crowded).bind DirectoryDocument.ofDocument? = some document ∧
      document.tables.length = 3 ∧
      document.tables.Pairwise (fun left right => ¬ left.SamePlace right) ∧ directory.size = 2 ∧
      ∀ table ∈ document.tables,
        directory.find table.qualifiedName = .ok table ↔ table.name = "B.C" := by
  have loaded : ofText crowded =
      .ok { tables := [⟨"B.C", "A", [], none⟩, ⟨"T ", "S", [], none⟩] } := by decide +kernel
  have read : (Json.Document.parse? crowded).bind DirectoryDocument.ofDocument? =
      some ⟨none, [⟨"c", "a.b", [], none⟩, ⟨"B.C", "A", [], none⟩, ⟨"T ", "S", [], none⟩]⟩ := by decide +kernel
  obtain ⟨document, isDocument, size, found, _⟩ := ofText_keeps loaded
  cases isDocument.symm.trans read
  refine ⟨_, _, loaded, isDocument, rfl, by decide +kernel, by rw [size]; decide +kernel, ?_⟩
  intro table member
  rw [found table member]
  revert table
  decide +kernel

end Directory

end QueryScope

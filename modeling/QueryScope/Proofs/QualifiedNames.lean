import QueryScope.Proofs.AliasReading
import QueryScope.Proofs.FillingLookups
import QueryScope.Proofs.Noninterference

/-!
# Which names the default schema is put in front of

A reference keeps the schema and the name of a table apart, but a lookup is given only the full
name, and takes a name with a dot for one that has a schema. So the default schema is put in front
of the references without a schema, except of those whose table name itself has a dot. Such a name
can only be written in double quotes; a query without them has none.
-/

namespace QueryScope

namespace Filling

/-- A name with a dot is looked up as it is. -/
theorem lookupName_of_dotted (schema : String) {name : String} (dotted : '.' ∈ name.toList) :
    lookupName (some schema) name = name := by
  simp only [lookupName, List.contains_iff_mem.mpr dotted, if_true]

/-- Any other name is looked up in the default schema. -/
theorem lookupName_of_dotless (schema : String) {name : String} (dotless : '.' ∉ name.toList) :
    lookupName (some schema) name = schema ++ "." ++ name := by
  simp only [lookupName, if_neg (mt List.contains_iff_mem.mp dotless)]

/-- A single table asks for its name, if it has one. -/
theorem names_lookupsOf_singleton {σ : Type} [ColumnSource σ] (defaultSchema : Option String)
    (source : σ) (table : TableColumns) :
    (lookupsOf defaultSchema source [table]).map (·.name) =
      if table.fullTableName = "" then [] else [lookupName defaultSchema table.fullTableName] := by
  rw [lookupsOf, fill, fillFrom]
  split
  · rfl
  · simp only [List.lookup_nil, columns_recorded]
    cases (ColumnSource.columns (lookupName defaultSchema table.fullTableName) source).1 <;> rfl

end Filling

namespace QualifiedName

open Bytes EntryShape BareName Noninterference Quotes

/-- In code without double quotes no table has a name with a dot. -/
theorem dot_not_mem_of_mem_readAll {text code : Bytes} (legible : Legible code)
    (noQuote : Byte.doubleQuote ∉ code) (shows : Shows code text) {entry : FromEntry}
    (read : entry ∈ (FromEntry.readAll text code).value) {name : String}
    (named : entry.reference.tableName = some name) : '.' ∉ name.toList := by
  rw [FromEntry.value_readAll_eq_filterMap] at read
  obtain ⟨span, member, made⟩ := List.mem_filterMap.mp read
  obtain ⟨place, isPlace, made⟩ := Option.bind_eq_some_iff.mp made
  obtain ⟨shape, shaped, made⟩ := Option.bind_eq_some_iff.mp made
  have stretch := EntryPlace.stretch_place legible
    (EntryPlace.stretch_spans legible span member) isPlace
  have spells := stretch.cutOut.isText
  have noQuoteHere : '"' ∉ decode (code.extract place.start place.stop) := by
    apply SelectList.quote_not_mem_decode spells
    exact SelectList.quote_not_mem_extract noQuote _ _
  have stands := (readShape_of_read? noQuoteHere shaped).name
  have showsHere := shows.extract place.start place.stop
  rw [← EntryPlace.encoded_decode spells] at showsHere
  have notQuoted : shape.name.characters.head? ≠ some '"' := by
    intro quoted
    have plain := stands.plain '"' (List.mem_of_mem_head? quoted)
    cases plain
  have isName := FromEntry.tableName_of_ofShape made name named
  rw [FromEntry.nameOf, stands.extract_eq showsHere, Written.text_encoded,
    Identifier.unquote_of_head? notQuoted] at isName
  rw [isName, String.toList_ofList]
  exact dot_not_mem_name noQuoteHere shaped

/-- A table whose name has a dot is found only in a query with double quotes. -/
theorem quote_mem_of_dotted {query : String} {scope : Scope} (member : scope ∈ extract query)
    {reference : TableReference} (listed : reference ∈ scope.tables) {name : String}
    (named : reference.tableName = some name) (dotted : '.' ∈ name.toList) :
    Byte.doubleQuote ∈ codeOf query := by
  by_contra noQuote
  rw [extract_eq_map] at member
  obtain ⟨outline, isOutline, rfl⟩ := List.mem_map.mp member
  rw [tables_scopeOf] at listed
  obtain ⟨entry, read, rfl⟩ := List.mem_map.mp listed
  rw [(ScopeTree.kind_link _ _ _ entry).1] at named
  have legible := DerivedLinks.legible_maskedOf isOutline
  have clause := EntryPlace.stretch_fromClause legible
  have noQuoteHere := SelectList.quote_not_mem_extract (quote_not_mem_maskedOf noQuote outline)
  have shows := (textOf_maskedOf isOutline).shows
  exact dot_not_mem_of_mem_readAll (clause.legible_extract legible) (noQuoteHere _ _)
    (shows.extract _ _) read named dotted

/-- A schema and a name joined by a dot are not the name. -/
theorem join_ne (schema name : String) : schema ++ "." ++ name ≠ name := by
  intro same
  have lengths := congrArg (fun text => text.toList.length) same
  simp only [String.toList_append, List.length_append] at lengths
  have dot : ".".toList.length = 1 := by decide
  omega

/-- The name that is looked up for a reference: the schema, or else the default schema, joined with
the table name. Only a table name with a dot and without a schema is looked up as it is. -/
theorem lookupName_fullName (defaultSchema : String) {reference : TableReference} {name : String}
    (named : reference.tableName = some name) :
    Filling.lookupName (some defaultSchema) reference.fullName =
      if reference.schema = none ∧ '.' ∈ name.toList then name
      else reference.schema.getD defaultSchema ++ "." ++ name := by
  cases qualified : reference.schema with
  | some schema =>
    have full : reference.fullName = schema ++ "." ++ name := by
      simp only [TableReference.fullName, qualified, named]
    rw [full, Filling.lookupName_of_dotted defaultSchema (by simp), if_neg (by simp),
      Option.getD_some]
  | none =>
    have full : reference.fullName = name := by
      simp only [TableReference.fullName, qualified, named]
    rw [full]
    by_cases dotted : '.' ∈ name.toList
    · rw [Filling.lookupName_of_dotted defaultSchema dotted, if_pos ⟨rfl, dotted⟩]
    · rw [Filling.lookupName_of_dotless defaultSchema dotted, if_neg (fun both => dotted both.2),
        Option.getD_none]

/-- The name that is looked up for a table of a query is its name behind its schema or, if it has
none, behind the default schema, unless it has no schema and a dot in its name; then it is looked up
as it is. In a query without double quotes there is no such name. This is what reaches a source for
the table, as long as there is anything to look up. -/
theorem lookupName_reference (query : String) (defaultSchema : String) {scope : Scope}
    (member : scope ∈ extract query) {reference : TableReference}
    (listed : reference ∈ scope.tables) (isTable : reference.isDerived = false) {σ : Type}
    [ColumnSource σ] (source : σ) :
    ∃ name, reference.tableName = some name ∧
      let meant := reference.schema.getD defaultSchema ++ "." ++ name
      let passed := Filling.lookupName (some defaultSchema) reference.fullName
      (passed = meant ↔ ¬ (reference.schema = none ∧ '.' ∈ name.toList)) ∧
      (reference.schema = none ∧ '.' ∈ name.toList → passed = name) ∧
      ('.' ∈ name.toList → Byte.doubleQuote ∈ codeOf query) ∧
      (Filling.lookupsOf (some defaultSchema) source
          (Scopes.tableColumns? reference).toList).map (·.name) =
        if reference.fullName = "" then [] else [passed] := by
  have isNamed := (ScopeTree.reference_extract member listed).1
  rw [isTable, Bool.not_false] at isNamed
  obtain ⟨name, named⟩ := Option.isSome_iff_exists.mp isNamed
  have passed := lookupName_fullName defaultSchema named
  refine ⟨name, named, ?_, ?_, quote_mem_of_dotted member listed named, ?_⟩
  · rw [passed]
    constructor
    · intro same exception
      rw [if_pos exception] at same
      exact join_ne _ _ same.symm
    · intro regular
      rw [if_neg regular]
  · intro exception
    rw [passed, if_pos exception]
  · have entry : Scopes.tableColumns? reference =
        some ⟨reference.displayName?.getD "", reference.fullName, []⟩ := by
      simp only [Scopes.tableColumns?, isTable, Bool.false_eq_true, if_false]
    rw [entry, Option.toList_some, Filling.names_lookupsOf_singleton]

/-- A table whose name has a dot, and no schema. -/
def quotedDot : String := "SELECT * FROM \"a.b\""

/-- The default schema is not put in front of it. -/
theorem lookupName_reference_quotedDot :
    ∃ scope ∈ extract quotedDot, ∃ reference ∈ scope.tables, reference.isDerived = false ∧
      reference.schema = none ∧ reference.tableName = some "a.b" ∧
      Filling.lookupName (some "DBM") reference.fullName = "a.b" ∧
      Filling.lookupName (some "DBM") reference.fullName ≠ "DBM" ++ "." ++ "a.b" ∧
      Byte.doubleQuote ∈ codeOf quotedDot ∧
      (Filling.lookupsOf (some "DBM") ({} : Directory)
        (Scopes.tableColumns? reference).toList).map (·.name) = ["a.b"] := by
  have tables : (extract quotedDot).map (·.tables) =
      [[⟨none, some "a.b", none, false, none⟩]] := by decide +kernel
  obtain ⟨scope, member, isTables⟩ := List.mem_map.mp (tables ▸ List.mem_cons_self)
  obtain ⟨name, named, regular, passed, quoted, asked⟩ :=
    lookupName_reference quotedDot "DBM" member (isTables ▸ List.mem_cons_self) rfl ({} : Directory)
  cases named
  have exception : (none : Option String) = none ∧ '.' ∈ "a.b".toList := ⟨rfl, by decide⟩
  have isPassed := passed exception
  refine ⟨scope, member, _, isTables ▸ List.mem_cons_self, rfl, rfl, rfl, isPassed,
    fun same => regular.mp same exception, quoted exception.2, ?_⟩
  rw [asked, isPassed]
  decide

end QualifiedName

end QueryScope

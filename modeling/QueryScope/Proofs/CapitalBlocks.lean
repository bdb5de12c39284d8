import Mathlib.Data.List.Basic
import QueryScope.Proofs.Alignment

/-!
# Blocks in capitals

A masked block in capitals is taken apart like the block itself. Its clauses stand at the same places,
its entries and columns have the same names in capitals, and its placeholders are counted alike. The
count tells capitals from other letters, so it is the one step for which the block must have no
placeholder but those that masking has put there: these are written in capitals already.
-/

namespace QueryScope

open Byte Bytes EntryShape

/-! ## Counting placeholders -/

namespace Placeholder

/-- Every placeholder of the code is written in capitals. A placeholder stands where its letters do
in any case, but only one in capitals is counted. -/
def InCapitals (code : Bytes) : Prop := ∀ offset, StandsAt code offset → bytes <+: code.drop offset

/-- A placeholder stands in capitals where one stands in the code. It is found without regard to
case, so capitals bring in none and take none away. -/
theorem standsAt_map_upper {code : Bytes} {offset : Nat} :
    StandsAt (code.map upper) offset ↔ StandsAt code offset := by
  have twice : upper ∘ upper = upper := funext upper_upper
  rw [StandsAt, StandsAt, extract_map_upper, List.map_map, twice]

/-- In a piece of such code the placeholders are in capitals too. One that stands in the piece
stands in the code, and the piece holds all of it. -/
theorem InCapitals.extract {code : Bytes} (inCapitals : InCapitals code) (start stop : Nat) :
    InCapitals (code.extract start stop) := by
  intro offset stands
  have within := stands.within
  rw [List.extract_eq_take_drop] at stands within ⊢
  have copied := inCapitals _ (standsAt_drop.mp stands.of_take)
  rw [List.length_take] at within
  rw [List.drop_take, List.drop_drop, List.prefix_take_iff]
  exact ⟨copied, by omega⟩

/-- Placeholders in capitals are counted in capitals as well. By induction on the code: at each byte
a copy of the placeholder begins in both or in neither, as one that stands here is in capitals. -/
theorem count_map_upper {code : Bytes} (inCapitals : InCapitals code) :
    count (code.map upper) = count code := by
  induction code with
  | nil => rfl
  | cons byte rest inductionHypothesis =>
    have behind : InCapitals rest := fun offset stands => inCapitals _ (standsAt_cons.mpr stands)
    have here : bytes.isPrefixOf ((byte :: rest).map upper) = bytes.isPrefixOf (byte :: rest) := by
      rw [Bool.eq_iff_iff]
      constructor
      · intro copied
        rw [List.isPrefixOf_iff_prefix]
        exact inCapitals 0 (standsAt_map_upper.mp (standsAt_of_isPrefixOf copied))
      · intro copied
        rw [List.isPrefixOf_iff_prefix] at copied ⊢
        have capitals := copied.map upper
        rwa [map_upper_bytes] at capitals
    rw [List.map_cons] at here ⊢
    rw [count_cons, count_cons, here, inductionHypothesis behind]

end Placeholder

open Placeholder

/-- In masked code of a query without placeholders, every placeholder is written in capitals. One
that stands there is one that masking has put in, as the pieces between the subqueries have none. -/
theorem Masked.inCapitals_maskFrom {text code : Bytes} (free : Free code) (stop cursor : Nat)
    (children : List (Span × Nat)) :
    InCapitals (maskFrom text code stop cursor children).value.code := by
  induction children generalizing cursor with
  | nil =>
    intro offset stands
    exact absurd stands ((free.extract cursor stop).not_standsAt offset)
  | cons child others inductionHypothesis =>
    rcases Nat.lt_or_ge child.1.start cursor with overlaps | ahead
    · rw [maskFrom_cons_of_lt text code stop cursor others overlaps]
      exact inductionHypothesis cursor
    · rw [value_maskFrom_cons text code stop cursor others ahead]
      simp only [List.append_assoc]
      intro offset stands
      rcases (free.extract cursor child.1.start).eq_or_behind stands with
        rfl | ⟨further, rfl, standsBehind⟩
      · rw [List.drop_left]
        exact List.prefix_append _ _
      · rw [List.drop_length_add_append, List.drop_length_add_append]
        exact inductionHypothesis child.1.stop further standsBehind

/-! ## Entries of a FROM clause -/

/-- A reference in capitals: its schema, its name and its alias are, and the kind of the table and
the scope behind it stay. -/
def TableReference.capitals (reference : TableReference) : TableReference :=
  { reference with
    schema := reference.schema.map Text.upper
    tableName := reference.tableName.map Text.upper
    aliasName := reference.aliasName.map Text.upper }

/-- Two texts put together are in capitals where each of them is. -/
theorem Text.upper_append (first second : String) :
    upper (first ++ second) = upper first ++ upper second := by
  rw [upper, String.toList_append, List.map_append, String.ofList_append]
  rfl

/-- Texts joined by dots are joined in capitals, since the dot is its own capital. The parts of a
schema are joined in this way. -/
theorem Text.upper_intercalate (parts : List String) :
    upper (String.intercalate "." parts) = String.intercalate "." (parts.map upper) := by
  have dot : upper "." = "." := by decide
  induction parts with
  | nil => decide
  | cons part others inductionHypothesis =>
    cases others with
    | nil => rfl
    | cons next others =>
      rw [List.map_cons] at inductionHypothesis
      rw [String.intercalate_cons_cons, upper_append, upper_append, dot, inductionHypothesis,
        List.map_cons, List.map_cons, String.intercalate_cons_cons]

namespace FromEntry

/-- An entry in capitals: its reference is, and the number of placeholders in front stays. -/
def capitals (entry : FromEntry) : FromEntry :=
  { entry with reference := entry.reference.capitals }

/-- A fragment in capitals may be a name where the fragment may. It is quoted in both or in neither,
and reserved words are looked up without regard to case. -/
theorem mayBeName_capitals (fragment : Fragment) :
    mayBeName fragment.capitals = mayBeName fragment := by
  have quoted : fragment.capitals.isQuoted = fragment.isQuoted := by
    simp only [Fragment.isQuoted, Fragment.capitals]
    cases fragment.characters with
    | nil => rfl
    | cons first rest => exact Text.beq_quote_toUpper first
  have reserved : Word.isReserved fragment.capitals.text = Word.isReserved fragment.text := by
    rw [Fragment.text, Fragment.capitals, ← Text.upper_ofList, Word.isReserved_upper]
    rfl
  rw [mayBeName, mayBeName, quoted, reserved]

/-- A qualifier is read in capitals. Its dots stand at the same places, and between them the text is
cut where characters begin, so that each part can be decoded by itself. -/
theorem value_readQualifier_map_upper {text code : Bytes} (veiled : Veiled code text)
    (aligned : Aligned text) :
    (readQualifier (text.map upper) (code.map upper)).value =
      Text.upper (readQualifier text code).value := by
  rw [SchemaParts.value_readQualifier, SchemaParts.value_readQualifier, Text.upper_intercalate,
    TopLevel.split_map_upper code (by decide : isLetter dot = false), List.map_map]
  apply congrArg (String.intercalate ".")
  apply List.map_congr_left
  intro part member
  have alignedPart : Aligned (text.extract part.start part.stop) := by
    rcases (TopLevel.part_of_mem_split member).begins with first | ⟨before, shown, behind⟩
    · rw [first]
      exact aligned.extract_zero part.stop
    · rw [behind]
      exact veiled.aligned_behind shown (by decide) (by decide) part.stop
  rw [extract_map_upper, alignedPart.text_map_upper, Text.trim_upper, Identifier.unquote_upper]
  rfl

section

variable {characters : List Char} {text : Bytes} (veiled : Veiled (encoded characters) text)
include veiled

/-- The name at a fragment's place is read in capitals. The place begins where a character does, so
the text from there spells the same characters in capitals. -/
theorem nameOf_map_upper {fragment : Fragment} (placed : Placed 0 characters fragment.span) :
    nameOf (text.map upper) fragment.capitals = Text.upper (nameOf text fragment) := by
  have aligned := placed.aligned veiled fragment.span.stop
  rw [nameOf, nameOf, Fragment.span_capitals, extract_map_upper]
  exact (congrArg Identifier.unquote aligned.text_map_upper).trans (Identifier.unquote_upper _)

/-- The reference that an entry makes is made in capitals. The alias, the schema and the name are
each read in capitals; the placeholders in front are counted alike, since those are in capitals. -/
theorem value_ofShape_map_upper {shape : Shape} (placed : PlacedShape characters shape)
    {before : Bytes} (inCapitals : InCapitals before) :
    (ofShape (text.map upper) ((encoded characters).map upper) (before.map upper)
        shape.capitals).value =
      (ofShape text (encoded characters) before shape).value.map capitals := by
  have aliasName : (shape.capitals.aliasName.filter mayBeName).map (nameOf (text.map upper)) =
      ((shape.aliasName.filter mayBeName).map (nameOf text)).map Text.upper := by
    have allowed : mayBeName ∘ Fragment.capitals = mayBeName := funext mayBeName_capitals
    rw [Shape.capitals, Option.filter_map, allowed, Option.map_map, Option.map_map]
    apply Option.map_congr
    intro fragment isAlias
    exact nameOf_map_upper veiled (placed.aliasName fragment (Option.filter_eq_some_iff.mp isAlias).1)
  have schema : (shape.capitals.qualifier.map fun span =>
      (readQualifier ((text.map upper).extract span.start span.stop)
        (((encoded characters).map upper).extract span.start span.stop)).value) =
      (shape.qualifier.map fun span => (readQualifier (text.extract span.start span.stop)
        ((encoded characters).extract span.start span.stop)).value).map Text.upper := by
    rw [Shape.capitals, Option.map_map]
    apply Option.map_congr
    intro span isQualifier
    rw [extract_map_upper, extract_map_upper]
    exact value_readQualifier_map_upper (veiled.extract _ _)
      ((placed.qualifier span isQualifier).aligned veiled _)
  have derived : Text.sameName shape.capitals.name.text Placeholder.text =
      Text.sameName shape.name.text Placeholder.text := by
    rw [Shape.capitals, Fragment.text, Fragment.capitals, ← Text.upper_ofList,
      Text.sameName_upper_left]
    rfl
  have named : mayBeName shape.capitals.name = mayBeName shape.name := mayBeName_capitals shape.name
  have name : nameOf (text.map upper) shape.capitals.name = Text.upper (nameOf text shape.name) :=
    nameOf_map_upper veiled placed.name
  rw [value_ofShape, value_ofShape, aliasName]
  simp only [made?, schema, derived, named, name, count_map_upper inCapitals]
  split
  · rfl
  · split <;> rfl

end

variable {text code : Bytes}

/-- The entry at a place is read in capitals. The code at the place is decoded, its shape is read in
capitals, and the reference is made from that shape. -/
theorem entryAt?_map_upper (veiled : Veiled code text) (inCapitals : InCapitals code) {place : Span}
    (spells : IsText (code.extract place.start place.stop)) :
    entryAt? (text.map upper) (code.map upper) place = (entryAt? text code place).map capitals := by
  have isCode := EntryPlace.encoded_decode spells
  have veiledEntry := veiled.extract place.start place.stop
  simp only [entryAt?, shapeAt?, extract_map_upper, spells.aligned.decode_map_upper,
    Shape.read?_map_toUpper]
  generalize decode (code.extract place.start place.stop) = characters at isCode
  rw [← isCode] at veiledEntry ⊢
  rw [Option.bind_map, Option.map_bind]
  apply Option.bind_congr
  intro shape shaped
  exact value_ofShape_map_upper veiledEntry (placedShape_of_read? shaped) (inCapitals.extract _ _)

/-- The entries of a FROM clause are read in capitals. They stand at the same places, and at each
place the code spells characters, as the clause is legible. -/
theorem value_readAll_map_upper (legible : Quotes.Legible code) (veiled : Veiled code text)
    (inCapitals : InCapitals code) :
    (readAll (text.map upper) (code.map upper)).value = (readAll text code).value.map capitals := by
  simp only [value_readAll_eq_filterMap, value_spans_map_upper, List.map_filterMap,
    place?_map_upper]
  apply List.filterMap_congr
  intro span member
  rw [Option.map_bind]
  apply Option.bind_congr
  intro place found
  have stretch := EntryPlace.stretch_place legible (EntryPlace.stretch_spans legible span member) found
  exact entryAt?_map_upper veiled inCapitals stretch.cutOut.isText

end FromEntry

/-! ## Items of a select list -/

namespace SelectItem

variable {text code : Bytes}

/-- The column that an item names is named in capitals. The name is cut off the end of the item's
text, where a character begins, and has the same width. -/
theorem value_columnName_map_upper (spells : IsText code) (veiled : Veiled code text) :
    (columnName (text.map upper) (code.map upper)).value =
      (columnName text code).value.map Text.upper := by
  have isCode := EntryPlace.encoded_decode spells
  have spellsCapitals : IsText (code.map upper) := by
    obtain ⟨query, rfl⟩ := spells
    exact ⟨Text.upper query, (ofString_upper query).symm⟩
  rw [value_columnName spells, value_columnName spellsCapitals, spells.aligned.decode_map_upper,
    visibleName?_map_toUpper, List.length_map]
  cases visible : visibleName? (decode code) with
  | none => rfl
  | some name =>
    have placed := placed_of_visibleName? visible
    have length : code.length = width (decode code) := by rw [← length_encoded, isCode]
    rw [← length] at placed
    have aligned := placed.aligned (isCode.symm ▸ veiled) code.length
    simp only [Option.map_some, extract_map_upper, width_map_toUpper, aligned.text_map_upper,
      Identifier.unquote_upper]

/-- The columns that a select list names are named in capitals. The list is split at the same commas
and each item is trimmed alike. -/
theorem value_columnNames_map_upper (spells : IsText code) (veiled : Veiled code text) :
    (columnNames (text.map upper) (code.map upper)).value =
      (columnNames text code).value.map Text.upper := by
  simp only [columnNames, Checked.value_eachSome, Checked.value_bind, Bytes.cut, List.map_filterMap,
    TopLevel.split_map_upper code (by decide : isLetter comma = false), value_trim_map_upper,
    extract_map_upper]
  apply List.filterMap_congr
  intro part member
  have item := (TopLevel.cutOut_of_mem_split spells (by decide) part member).trim spells
  exact value_columnName_map_upper item.isText (veiled.extract _ _)

end SelectItem

/-! ## Blocks -/

namespace Masked

/-- A block in capitals: its text and its code are, and its placeholders stand for the
same scopes. -/
def capitals (masked : Masked) : Masked :=
  { masked with text := masked.text.map upper, code := masked.code.map upper }

/-- What is asked of a block so that capitals make no difference: the code is legible, it has the text's
byte or a space at every place, and its placeholders are written in capitals. -/
structure Regular (masked : Masked) : Prop where
  legible : Quotes.Legible masked.code
  veiled : Veiled masked.code masked.text
  inCapitals : InCapitals masked.code

/-- The clauses of a block in capitals stand at the same places as those of the block. -/
@[simp] theorem clauses_capitals (masked : Masked) : masked.capitals.clauses = masked.clauses :=
  Clauses.value_ofCode_map_upper masked.code

/-- The text at a span of a block in capitals is the text there in capitals. -/
@[simp] theorem textAt_capitals (masked : Masked) (span : Span) :
    masked.capitals.textAt span = (masked.textAt span).map upper :=
  extract_map_upper masked.text span.start span.stop

/-- The code at a span of a block in capitals is the code there in capitals. -/
@[simp] theorem codeAt_capitals (masked : Masked) (span : Span) :
    masked.capitals.codeAt span = (masked.codeAt span).map upper :=
  extract_map_upper masked.code span.start span.stop

variable {masked : Masked}

/-- The entries of a regular block are read in capitals. Its FROM clause is a stretch of legible
code, and the pieces of a regular block are regular enough for the entries to be read alike. -/
theorem entries_capitals (regular : Regular masked) :
    masked.capitals.entries = masked.entries.map FromEntry.capitals := by
  obtain ⟨legible, veiled, inCapitals⟩ := regular
  have clause := (EntryPlace.stretch_fromClause legible).legible_extract legible
  rw [entries, clauses_capitals, textAt_capitals, codeAt_capitals]
  exact FromEntry.value_readAll_map_upper clause (veiled.extract _ _) (inCapitals.extract _ _)

/-- The columns of a regular block are named in capitals. Its select list is cut out of the code
where characters begin and end. -/
theorem columns_capitals (regular : Regular masked) :
    masked.capitals.columns = masked.columns.map Text.upper := by
  obtain ⟨legible, veiled, _⟩ := regular
  have clause := SelectList.cutOut_selectList legible.spells
  rw [columns, clauses_capitals, textAt_capitals, codeAt_capitals]
  exact SelectItem.value_columnNames_map_upper clause.isText (veiled.extract _ _)

/-- In front of the FROM clause of a regular block as many placeholders are counted in capitals.
From this number the entries find their subqueries. -/
theorem earlier_capitals (regular : Regular masked) : masked.capitals.earlier = masked.earlier := by
  rw [earlier, clauses_capitals, capitals, extract_map_upper]
  exact count_map_upper (regular.inCapitals.extract _ _)

end Masked

/-! ## Scopes -/

/-- An outline in capitals: its alias is, and its place, its level and its parent stay. -/
def Outline.capitals (outline : Outline) : Outline :=
  { outline with aliasName := outline.aliasName.map Text.upper }

/-- A scope in capitals: every text and every name is, and all places and links are the same. -/
def Scope.capitals (scope : Scope) : Scope :=
  { scope with
    content := Text.upper scope.content
    aliasName := scope.aliasName.map Text.upper
    selectList := Text.upper scope.selectList
    fromClause := Text.upper scope.fromClause
    whereClause := Text.upper scope.whereClause
    tables := scope.tables.map TableReference.capitals
    exposedColumns := scope.exposedColumns.map Text.upper }

namespace Outline

/-- An entry in capitals is linked to the same scope. A child is found by its alias, compared
without regard to case, and else by the number of placeholders in front, which capitals do not
change. -/
theorem link_capitals (children : List Outline) (masked : Masked) (earlier : Nat)
    (entry : FromEntry) :
    link (children.map capitals) masked.capitals earlier entry.capitals =
      (link children masked earlier entry).capitals := by
  have namesake (name : String) :
      ((children.map capitals).find? fun child =>
        child.aliasName.any (Text.sameName · (Text.upper name))).map (·.index) =
      (children.find? fun child => child.aliasName.any (Text.sameName · name)).map (·.index) := by
    have same : (fun child : Outline => child.aliasName.any (Text.sameName · (Text.upper name))) ∘
        capitals = fun child => child.aliasName.any (Text.sameName · name) := by
      funext child
      simp only [Function.comp_apply, capitals, Text.sameName_upper_right, Option.any_map]
      exact congrArg child.aliasName.any (funext fun other => Text.sameName_upper_left other name)
    rw [List.find?_map, same, Option.map_map]
    rfl
  have byAlias : (entry.capitals.reference.aliasName.bind fun name =>
      ((children.map capitals).find? fun child =>
        child.aliasName.any (Text.sameName · name)).map (·.index)) =
      entry.reference.aliasName.bind fun name =>
        (children.find? fun child => child.aliasName.any (Text.sameName · name)).map (·.index) := by
    rw [FromEntry.capitals, TableReference.capitals, Option.bind_map]
    exact congrArg _ (funext namesake)
  have sameKind : entry.capitals.reference.isDerived = entry.reference.isDerived := rfl
  simp only [link, byAlias, sameKind]
  by_cases derived : entry.reference.isDerived = true
  · simp only [derived, if_true]
    rfl
  · simp only [derived, Bool.false_eq_true, if_false]
    rfl

/-- A scope is assembled in capitals. Its clauses are framed, so that their texts are decoded in
capitals, and its tables and columns are those of the block, linked and named in capitals. -/
theorem assemble_capitals (outline : Outline) (content : String) (children : List Outline)
    {masked : Masked} (regular : masked.Regular) :
    outline.capitals.assemble (Text.upper content) (children.map capitals) masked.capitals =
      (outline.assemble content children masked).capitals := by
  have framed : Framed masked.code masked.clauses.selectList ∧
      Framed masked.code masked.clauses.fromClause ∧
      Framed masked.code masked.clauses.whereClause := framed_ofCode regular.legible.spells
  obtain ⟨selectList, fromClause, whereClause⟩ := framed
  have tables : masked.capitals.entries.map
      (link (children.map capitals) masked.capitals masked.capitals.earlier) =
        (masked.entries.map (link children masked masked.earlier)).map TableReference.capitals := by
    rw [Masked.entries_capitals regular, Masked.earlier_capitals regular, List.map_map, List.map_map]
    exact List.map_congr_left fun entry _ => link_capitals children masked masked.earlier entry
  have textAt {span : Span} (framed : Framed masked.code span) :
      Bytes.text (masked.capitals.textAt span) = Text.upper (Bytes.text (masked.textAt span)) := by
    rw [Masked.textAt_capitals]
    exact (framed.aligned regular.veiled).text_map_upper
  have columns := Masked.columns_capitals regular
  simp only [Masked.columns, Masked.clauses_capitals] at columns
  simp only [assemble, Scope.capitals, tables, columns, Masked.clauses_capitals, textAt selectList,
    textAt fromClause, textAt whereClause, capitals]

end Outline

end QueryScope

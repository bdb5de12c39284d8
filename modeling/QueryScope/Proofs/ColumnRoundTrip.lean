import QueryScope.Catalog.Document
import QueryScope.Proofs.WrittenDocuments

/-!
# Columns read back

A column that is read from a document, written again and read again is the same column, but for the
type that it is shown as. The written form is read whole, whichever way it is laid out, so the type
is the only field whose text is not the field itself.
-/

namespace QueryScope.Column

open Json

/-- A column that is written is read with the type that its own is shown as. -/
theorem ofDocument?_toJson (column : Column) :
    ofDocument? column.toJson.document =
      some { column with dataType := DataType.parse column.dataType.display } := by
  obtain ⟨name, dataType, nullable, isPrimaryKey, comment⟩ := column
  cases comment <;>
    simp [toJson, document, memberDocuments, ofDocument?, Document.fields?, Document.member?,
      Document.text?, Document.orDefault, Document.boolean?, Document.optionalText?]

/-- The type of a column that is read is one that a text names. -/
theorem dataType_of_ofText? {text : String} {column : Column} (read : ofText? text = some column) :
    ∃ name, column.dataType = DataType.parse name := by
  obtain ⟨document, -, read⟩ := Option.bind_eq_some_iff.mp read
  unfold ofDocument? at read
  simp only [bind, pure, Option.bind_eq_some_iff] at read
  obtain ⟨fields, -, read⟩ := read
  split at read
  · simp only [Option.bind_eq_some_iff, Option.some.injEq] at read
    obtain ⟨_, _, name, _, _, _, _, _, _, _, isColumn⟩ := read
    refine ⟨name, ?_⟩
    rw [← isColumn]
  · cases read

theorem ofText?_written {text : String} {column : Column} (read : ofText? text = some column)
    {written : String} (writer : written ∈ [column.toJson.compact, column.toJson.pretty]) :
    ofText? written = some { column with dataType := column.dataType.settled } := by
  obtain ⟨name, isNamed⟩ := dataType_of_ofText? read
  rw [ofText?, parse?_written writer, Option.bind_some, ofDocument?_toJson, isNamed,
    DataType.parse_display_parse]

/-- The type that a text names is shown as a text that names the same type, and a column that is
read, written on one line or over several, and read again is the same column: in both cases exactly
when the type is not a decimal number with a scale and no precision. Such a type loses its scale,
and the column nothing else. -/
theorem types_read_back (name text : String) :
    DataType.parse (DataType.parse name).display = (DataType.parse name).settled ∧
    (DataType.parse (DataType.parse name).display = DataType.parse name ↔
      ∀ scale, DataType.parse name ≠ .decimal none (some scale)) ∧
    ∀ column, ofText? text = some column →
      ∀ written ∈ [column.toJson.compact, column.toJson.pretty],
        ofText? written = some { column with dataType := column.dataType.settled } ∧
        (ofText? written = some column ↔
          ∀ scale, column.dataType ≠ .decimal none (some scale)) := by
  have shown := DataType.parse_display_parse name
  refine ⟨shown, ?_, ?_⟩
  · rw [shown]
    exact DataType.settled_eq_self_iff _
  · intro column read written writer
    have again := ofText?_written read writer
    refine ⟨again, ?_⟩
    rw [again, ← DataType.settled_eq_self_iff, Option.some.injEq]
    constructor
    · exact fun same => congrArg Column.dataType same
    · exact fun same => by rw [same]

/-- A column whose type has a scale alone. -/
theorem types_read_back_scale :
    ∃ column, ofText? "\x7b\"name\": \"RATE\", \"data_type\": \" dec(, 2)\"\x7d" = some column ∧
      column.dataType = .decimal none (some 2) ∧
      ofText? column.toJson.pretty = some { column with dataType := .decimal none none } := by
  have read : ofText? "\x7b\"name\": \"RATE\", \"data_type\": \" dec(, 2)\"\x7d" =
      some { name := "RATE", dataType := .decimal none (some 2) } := by
    decide +kernel
  refine ⟨_, read, rfl, ?_⟩
  exact ((types_read_back " dec(, 2)" _).2.2 _ read _ (by simp)).1

end QueryScope.Column

import Mathlib.Data.List.Basic
import QueryScope.Sql.FromEntry
import QueryScope.Proofs.JoinModifiers
import QueryScope.Proofs.KeywordHits

/-!
# How the entries of a FROM clause are made

The reader of an entry is cut into two parts: finding the place of the entry proper, and making a
reference out of the shape that is read there. An entry is either a derived table, which comes
with the number of placeholders before it, or a named table; it is not linked yet.
-/

namespace QueryScope

/-- Characters that no identifier begins with hold no path. -/
theorem Identifier.readPath_of_none {letters : Letters} (offset : Nat) {characters : List Char}
    (noName : read? letters characters = none) :
    readPath letters offset characters = ([], characters) := by
  rw [readPath]
  split
  · rfl
  · rename_i found
    rw [noName] at found
    cases found

namespace FromEntry

section Joins

variable {code : Bytes} {start : Nat}

/-- Code without a join is one piece. -/
theorem betweenJoins_of_none (noJoin : Keyword.find? code start [join] = none) :
    betweenJoins code start = [⟨start, code.length⟩] := by
  rw [betweenJoins, searchJoins, Checked.value_andThen]
  split
  · rfl
  · rename_i found _
    rw [Keyword.value_search, noJoin] at found
    cases found

/-- Code with a join is cut in front of it, and goes on behind it. -/
theorem betweenJoins_of_some {hit : Keyword.Hit}
    (found : Keyword.find? code start [join] = some hit) :
    betweenJoins code start = ⟨start, hit.span.start⟩ :: betweenJoins code hit.span.stop := by
  rw [betweenJoins, searchJoins, Checked.value_andThen]
  split
  · rename_i none _
    rw [Keyword.value_search, found] at none
    cases none
  · rename_i isHit _
    rw [Keyword.value_search, found] at isHit
    cases isHit
    rfl

/-- Induction over the joins of some code, from the last one back. -/
theorem betweenJoins_induction {motive : Nat → List Span → Prop}
    (last : ∀ start, Keyword.find? code start [join] = none → motive start [⟨start, code.length⟩])
    (step : ∀ start hit, Keyword.find? code start [join] = some hit →
      motive hit.span.stop (betweenJoins code hit.span.stop) →
        motive start (⟨start, hit.span.start⟩ :: betweenJoins code hit.span.stop)) (start : Nat) :
    motive start (betweenJoins code start) := by
  fun_induction searchJoins code start with
  | case1 start inductionHypothesis =>
    cases found : Keyword.find? code start [join] with
    | none =>
      rw [betweenJoins_of_none found]
      exact last start found
    | some hit =>
      rw [betweenJoins_of_some found]
      exact step start hit found (inductionHypothesis hit found.symm)

/-- What holds of the code from an offset on, and when a join is found there also of what comes
before the join and of what comes behind it, holds of all pieces between joins. -/
theorem forall_betweenJoins {motive : Span → Prop} (whole : motive ⟨start, code.length⟩)
    (divided : ∀ start hit, Keyword.find? code start [join] = some hit →
      motive ⟨start, code.length⟩ →
        motive ⟨start, hit.span.start⟩ ∧ motive ⟨hit.span.stop, code.length⟩) :
    ∀ piece ∈ betweenJoins code start, motive piece := by
  revert whole
  apply betweenJoins_induction (motive := fun start pieces =>
    motive ⟨start, code.length⟩ → ∀ piece ∈ pieces, motive piece)
  case last =>
    intro start _ whole piece member
    rwa [List.mem_singleton.mp member]
  case step =>
    intro start hit found inductionHypothesis whole piece member
    obtain ⟨before, behind⟩ := divided start hit found whole
    rcases List.mem_cons.mp member with rfl | later
    · exact before
    · exact inductionHypothesis behind piece later

end Joins

/-- The spans of a FROM clause are what stands between the joins of each part between commas. -/
theorem value_spans (code : Bytes) :
    (spans code).value = ((TopLevel.split code Byte.comma).map fun part =>
      betweenJoins (code.extract 0 part.stop) part.start).flatten := by
  simp only [spans, Checked.value_bind, Checked.value_each, Bytes.cut, value_searchJoins]
  rfl

/-- The spans of a FROM clause end inside it. -/
theorem stop_le_of_mem_spans {code : Bytes} {span : Span} (member : span ∈ (spans code).value) :
    span.stop ≤ code.length := by
  rw [value_spans] at member
  obtain ⟨_, isPart, isSpan⟩ := List.mem_flatten.mp member
  obtain ⟨part, _, rfl⟩ := List.mem_map.mp isPart
  have taken : (code.extract 0 part.stop).length ≤ code.length := by
    rw [Window.extract_zero]
    exact List.length_take_le' _ _
  refine forall_betweenJoins (motive := fun span => span.stop ≤ code.length) taken ?_ span isSpan
  intro start hit found whole
  have bounds := Keyword.span_of_find?_eq_some takesSpace_join found
  exact ⟨by simp only; omega, whole⟩

/-- Where the entry proper stands in the given span of a FROM clause: without the condition, the
words that say what kind of join follows, a leading `LATERAL` and the blanks at the ends. -/
def place? (code : Bytes) (span : Span) : Option Span :=
  let condition := Keyword.find? (code.extract 0 span.stop) span.start conditions
  let whole := (Bytes.trim code
    ⟨span.start, (condition.map (·.span.start)).getD span.stop⟩).value
  (lengthWithoutModifiers? (code.extract whole.start whole.stop)).bind fun length =>
    let table : Span := ⟨whole.start, whole.start + length⟩
    let entry := if Word.nextIs code table.start "LATERAL" then
        (Bytes.trim code ⟨table.start + "LATERAL".length, table.stop⟩).value
      else
        table
    if entry.isEmpty then none else some entry

/-- The keywords of conditions take up space. -/
theorem takesSpace_conditions : Keyword.TakesSpace conditions := by
  apply Keyword.takesSpace_of_isSolid
  rw [← List.all_eq_true]
  decide

/-- The steps in which the place of an entry is found: the condition and the blanks at the ends are
cut off, then the modifiers of the next join, and then `LATERAL` with the blanks behind it. -/
theorem exists_steps_of_place? {code : Bytes} {span place : Span}
    (found : place? code span = some place) :
    ∃ whole length, whole = (Bytes.trim code
        ⟨span.start, Keyword.firstStart code span.start span.stop conditions⟩).value ∧
      lengthWithoutModifiers? (code.extract whole.start whole.stop) = some length ∧
      (place = ⟨whole.start, whole.start + length⟩ ∨
        Word.nextIs code whole.start "LATERAL" = true ∧
          whole.start + "LATERAL".length < whole.start + length ∧
          place = (Bytes.trim code
            ⟨whole.start + "LATERAL".length, whole.start + length⟩).value) := by
  simp only [place?, Window.extract_zero] at found
  obtain ⟨length, measured, found⟩ := Option.bind_eq_some_iff.mp found
  refine ⟨_, length, rfl, measured, ?_⟩
  rw [← Keyword.firstStart] at found
  generalize (Bytes.trim code
    ⟨span.start, Keyword.firstStart code span.start span.stop conditions⟩).value = whole at found
  split at found
  · rename_i lateral
    split at found
    · cases found
    · rename_i something
      cases found
      rcases Nat.lt_or_ge (whole.start + "LATERAL".length) (whole.start + length) with
        remains | nothing
      · exact .inr ⟨lateral, remains, rfl⟩
      · refine absurd ?_ something
        rw [Bytes.trim_of_le code nothing, Span.isEmpty, Span.length]
        simp only [Nat.sub_eq_zero_of_le nothing, beq_self_eq_true]
  · split at found
    · cases found
    · cases found
      exact .inl rfl

/-- The shape of the entry that stands at a place. -/
def shapeAt? (code : Bytes) (entry : Span) : Option Shape :=
  Shape.read? (Bytes.decode (code.extract entry.start entry.stop))

/-- The entry that stands at a place, with its text and its code. -/
def entryAt? (text code : Bytes) (entry : Span) : Option FromEntry :=
  (shapeAt? code entry).bind fun shape =>
    (ofShape (text.extract entry.start entry.stop) (code.extract entry.start entry.stop)
      (code.extract 0 entry.start) shape).value

/-- Leaving out `LATERAL`. -/
theorem value_dropLateral (code : Bytes) (table : Span) :
    (dropLateral code table).value =
      if Word.nextIs code table.start "LATERAL" then
        (Bytes.trim code ⟨table.start + "LATERAL".length, table.stop⟩).value
      else
        table := by
  rw [dropLateral, Checked.value_bind, Word.value_scan, ← Word.nextIs]
  by_cases lateral : Word.nextIs code table.start "LATERAL" = true
  · rw [if_pos lateral, if_pos lateral]
  · rw [if_neg lateral, if_neg lateral, Checked.value_pure]

/-- What is left when the blanks at the ends are cut off is solid, or nothing is left. -/
theorem solid_trim {code : Bytes} {span whole : Span} (within : span.stop ≤ code.length)
    (isWhole : (Bytes.trim code span).value = whole) (something : whole.start < whole.stop) :
    Solid code whole := by
  have inside := Bytes.trim_inside code span
  rw [isWhole] at inside
  have trimmed : Bytes.Trimmed code span (Bytes.trim code span).value :=
    Bytes.trimmed_trim (by omega) within
  rw [isWhole] at trimmed
  exact .of_trimmed within trimmed something

/-- Where nothing is left, there is no entry. -/
theorem value_dropLateral_of_isEmpty (code : Bytes) {table : Span}
    (nothing : table.stop ≤ table.start) :
    (dropLateral code table).value.isEmpty = true := by
  rw [value_dropLateral, Span.isEmpty, Span.length]
  split
  · have further : table.stop ≤ table.start + "LATERAL".length :=
      Nat.le_trans nothing (Nat.le_add_right _ _)
    rw [Bytes.trim_of_le code further]
    simp only [Nat.sub_eq_zero_of_le further, beq_self_eq_true]
  · simp only [Nat.sub_eq_zero_of_le nothing, beq_self_eq_true]

/-- The reader finds the place of an entry. -/
theorem value_locate {code : Bytes} {span : Span} (within : span.stop ≤ code.length) :
    (locate code span).value = place? code span := by
  have before := Keyword.firstStart_le takesSpace_conditions code span.start span.stop
  simp only [locate, place?, Checked.value_bind, Bytes.cut, Keyword.value_search,
    Window.extract_zero]
  rw [← Keyword.firstStart]
  generalize Keyword.firstStart code span.start span.stop conditions = stop at before ⊢
  generalize isWhole : (Bytes.trim code ⟨span.start, stop⟩).value = whole
  rcases Nat.lt_or_ge whole.start whole.stop with something | nothing
  · have solid := solid_trim (Nat.le_trans before within) isWhole something
    rw [value_dropModifiers solid]
    cases lengthWithoutModifiers? (code.extract whole.start whole.stop) with
    | none => rfl
    | some length =>
      rw [Option.bind_some, ← value_dropLateral code ⟨whole.start, whole.start + length⟩]
      rfl
  · have empty : (Bytes.cut code whole).value = [] := by
      rw [Bytes.cut, List.extract_eq_take_drop, Nat.sub_eq_zero_of_le nothing, List.take_zero]
    have stays : (dropModifiers code whole).value = some whole := by
      rw [dropModifiers_of_none (by rw [empty]; rfl), empty]
      rfl
    rw [stays]
    simp only [Checked.value_bind, value_dropLateral_of_isEmpty code nothing, if_true]
    rw [show code.extract whole.start whole.stop = [] from empty]
    rfl

/-- Reading an entry is finding its place, and then reading its shape and making the reference. -/
theorem value_readAt (text : Bytes) {code : Bytes} {span : Span}
    (within : span.stop ≤ code.length) :
    (readAt text code span).value = (place? code span).bind (entryAt? text code) := by
  rw [readAt, Checked.value_bind, value_locate within]
  cases place? code span with
  | none => rfl
  | some entry =>
    simp only [Checked.value_bind, Bytes.cut, Option.bind_some, entryAt?, shapeAt?]
    cases Shape.read? (Bytes.decode (code.extract entry.start entry.stop)) with
    | none => rfl
    | some shape => rfl

/-- The entries of a FROM clause are read place by place. -/
theorem value_readAll_eq_filterMap (text code : Bytes) :
    (readAll text code).value =
      (spans code).value.filterMap fun span => (place? code span).bind (entryAt? text code) := by
  rw [readAll, Checked.value_bind, Checked.value_eachSome]
  refine List.filterMap_congr ?_
  intro span member
  exact value_readAt text (stop_le_of_mem_spans member)

/-- Whether a fragment may be a name: it is quoted, or it is not reserved. -/
def mayBeName (fragment : Fragment) : Bool :=
  fragment.isQuoted || !Word.isReserved fragment.text

/-- The name that a fragment of an entry's text stands for. -/
def nameOf (text : Bytes) (fragment : Fragment) : String :=
  Identifier.unquote (Bytes.text (text.extract fragment.span.start fragment.span.stop))

/-- The entry of a given shape and alias. -/
def made? (text code before : Bytes) (shape : Shape) (aliasName : Option String) :
    Option FromEntry :=
  if Text.sameName shape.name.text Placeholder.text then
    some ⟨{ TableReference.derived with aliasName }, some (Placeholder.count before)⟩
  else if mayBeName shape.name then
    let schema := shape.qualifier.map fun span =>
      (readQualifier (text.extract span.start span.stop) (code.extract span.start span.stop)).value
    some ⟨{ TableReference.table (nameOf text shape.name) with schema, aliasName }, none⟩
  else
    none

/-- The reference that a shape makes: its alias, when it may be a name, goes with a derived table or
with a named one. -/
theorem value_ofShape (text code before : Bytes) (shape : Shape) :
    (ofShape text code before shape).value =
      made? text code before shape ((shape.aliasName.filter mayBeName).map (nameOf text)) := by
  have sameFilter : shape.aliasName.filter
      (fun fragment => fragment.isQuoted || !Word.isReserved fragment.text) =
        shape.aliasName.filter mayBeName := rfl
  simp only [ofShape, made?, sameFilter]
  by_cases isPlaceholder : Text.sameName shape.name.text Placeholder.text = true
  · simp only [isPlaceholder, if_true]
    cases shape.aliasName.filter mayBeName with
    | none => rfl
    | some fragment => rfl
  · by_cases allowed : (shape.name.isQuoted || !Word.isReserved shape.name.text) = true
    · simp only [isPlaceholder, allowed, mayBeName, Bool.not_true, Bool.false_eq_true, if_false,
        if_true]
      cases shape.aliasName.filter mayBeName with
      | none => cases shape.qualifier <;> rfl
      | some fragment => cases shape.qualifier <;> rfl
    · simp only [isPlaceholder, allowed, mayBeName, Bool.not_false, Bool.false_eq_true, if_false,
        if_true]
      cases shape.aliasName.filter mayBeName with
      | none => rfl
      | some fragment => rfl

/-- What an entry owes to its shape: it is a derived table exactly when its name is the placeholder,
and then it comes with the number of placeholders before it. Otherwise it is a named table. It is
never linked yet. -/
structure Made (shape : Shape) (before : Bytes) (entry : FromEntry) : Prop where
  derived : entry.reference.isDerived = Text.sameName shape.name.text Placeholder.text
  named : entry.reference.tableName.isSome = !entry.reference.isDerived
  counted : entry.ordinal =
    if entry.reference.isDerived then some (Placeholder.count before) else none
  unlinked : entry.reference.derivedScope = none

/-- Every entry is made in this way. -/
theorem made_of_ofShape {text code before : Bytes} {shape : Shape} {entry : FromEntry}
    (made : (ofShape text code before shape).value = some entry) : Made shape before entry := by
  rw [value_ofShape, made?] at made
  split at made
  · rename_i isPlaceholder
    cases made
    exact ⟨isPlaceholder.symm, rfl, rfl, rfl⟩
  · rename_i isTable
    split at made
    · cases made
      exact ⟨(Bool.eq_false_iff.mpr isTable).symm, rfl, rfl, rfl⟩
    · cases made

/-- The alias of an entry is that of its shape, when it may be a name. -/
theorem aliasName_of_ofShape {text code before : Bytes} {shape : Shape} {entry : FromEntry}
    (made : (ofShape text code before shape).value = some entry) :
    entry.reference.aliasName = (shape.aliasName.filter mayBeName).map (nameOf text) := by
  rw [value_ofShape, made?] at made
  split at made
  · cases made
    rfl
  · split at made
    · cases made
      rfl
    · cases made

/-- The name of a table is that of its shape. -/
theorem tableName_of_ofShape {text code before : Bytes} {shape : Shape} {entry : FromEntry}
    (made : (ofShape text code before shape).value = some entry) :
    ∀ name ∈ entry.reference.tableName, name = nameOf text shape.name := by
  rw [value_ofShape, made?] at made
  split at made
  · cases made
    rintro name ⟨⟩
  · split at made
    · cases made
      rintro name ⟨⟩
      rfl
    · cases made

/-- The entries of a FROM clause, each with the offset in the clause at which its name stands. -/
def located (text code : Bytes) : List (Nat × FromEntry) :=
  (spans code).value.filterMap fun span =>
    (place? code span).bind fun place =>
      (shapeAt? code place).bind fun shape =>
        (ofShape (text.extract place.start place.stop) (code.extract place.start place.stop)
          (code.extract 0 place.start) shape).value.map fun entry =>
            (place.start + shape.name.offset, entry)

/-- The entries that are read are those that are located. -/
theorem value_readAll (text code : Bytes) :
    (readAll text code).value = (located text code).map (·.2) := by
  rw [value_readAll_eq_filterMap, located, List.map_filterMap]
  refine List.filterMap_congr ?_
  intro span _
  rw [Option.map_bind]
  congr 1
  funext place
  rw [Function.comp_apply, entryAt?, Option.map_bind]
  congr 1
  funext shape
  rw [Function.comp_apply, Option.map_map]
  exact Option.map_id'.symm

/-- Where an entry of a FROM clause comes from. -/
theorem exists_place_of_mem_located {text code : Bytes} {offset : Nat} {entry : FromEntry}
    (found : (offset, entry) ∈ located text code) :
    ∃ span ∈ (spans code).value, ∃ place, place? code span = some place ∧
      ∃ shape, shapeAt? code place = some shape ∧ Made shape (code.extract 0 place.start) entry ∧
        offset = place.start + shape.name.offset ∧
        entry.reference.aliasName = (shape.aliasName.filter mayBeName).map
          (nameOf (text.extract place.start place.stop)) := by
  obtain ⟨span, member, made⟩ := List.mem_filterMap.mp found
  obtain ⟨place, isPlace, made⟩ := Option.bind_eq_some_iff.mp made
  obtain ⟨shape, shaped, made⟩ := Option.bind_eq_some_iff.mp made
  obtain ⟨_, made, same⟩ := Option.map_eq_some_iff.mp made
  cases same
  exact ⟨span, member, place, isPlace, shape, shaped, made_of_ofShape made, rfl,
    aliasName_of_ofShape made⟩

/-- Every entry that is read comes from some place. -/
theorem exists_place_of_mem_readAll {text code : Bytes} {entry : FromEntry}
    (read : entry ∈ (readAll text code).value) :
    ∃ span ∈ (spans code).value, ∃ place, place? code span = some place ∧
      ∃ shape, shapeAt? code place = some shape ∧ Made shape (code.extract 0 place.start) entry := by
  rw [value_readAll] at read
  obtain ⟨⟨offset, _⟩, found, rfl⟩ := List.mem_map.mp read
  obtain ⟨span, member, place, isPlace, shape, shaped, made, _⟩ := exists_place_of_mem_located found
  exact ⟨span, member, place, isPlace, shape, shaped, made⟩

/-- An empty FROM clause has no entries. -/
theorem readAll_nil (text : Bytes) : (readAll text []).value = [] := by
  rw [List.eq_nil_iff_forall_not_mem]
  intro entry read
  obtain ⟨span, _, place, found, _⟩ := exists_place_of_mem_readAll read
  obtain ⟨length, measured, _⟩ := Option.bind_eq_some_iff.mp found
  rw [List.extract_eq_take_drop, List.drop_nil, List.take_nil] at measured
  cases measured

end FromEntry

end QueryScope

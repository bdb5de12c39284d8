import Mathlib.Data.List.Basic
import QueryScope.Proofs.EntryShapes
import QueryScope.Proofs.FromEntries
import QueryScope.Proofs.KeywordHits
import QueryScope.Proofs.Placeholders

/-!
# Where the entries of a FROM clause stand

A FROM clause is entered behind its keyword, and an entry of it behind the keyword, a comma, `JOIN`
or `LATERAL` and the blanks that follow. None of these ends inside a quoted name, inside a character
or inside a placeholder. So the placeholders before an entry can be counted piece by piece, and what
makes an entry a derived table is a placeholder of the clause.
-/

namespace QueryScope.EntryPlace

open Quotes Placeholder

/-- A place from which code may be read afresh: a seam that no placeholder reaches across. -/
structure Entrance (code : Bytes) (offset : Nat) : Prop where
  seam : Seam code offset
  apart : ∀ earlier < offset, offset < earlier + bytes.length → ¬ StandsAt code earlier

/-- A byte that is part of no placeholder, no quotes and no longer character, and not blank. -/
def isForeign (byte : UInt8) : Bool :=
  decide (byte < 0x80) && !Byte.isBlank byte && !isQuote byte && !bytes.contains (Byte.upper byte)

/-- Every byte of a placeholder is one that the placeholder has. -/
theorem upper_mem_of_standsAt {code : Bytes} {earlier offset : Nat} {byte : UInt8}
    (stands : StandsAt code earlier) (shown : code[offset]? = some byte) (behind : earlier ≤ offset)
    (within : offset < earlier + bytes.length) : Byte.upper byte ∈ bytes := by
  have inPlaceholder := stands.byte (offset - earlier) (by omega)
  rw [Nat.add_sub_cancel' behind, shown, Option.map_some] at inPlaceholder
  exact List.mem_of_getElem? inPlaceholder.symm

/-- No byte of a placeholder is blank. -/
theorem not_blank_of_standsAt {code : Bytes} {earlier offset : Nat} {byte : UInt8}
    (stands : StandsAt code earlier) (shown : code[offset]? = some byte) (behind : earlier ≤ offset)
    (within : offset < earlier + bytes.length) : Byte.isBlank byte = false := by
  rw [Bool.eq_false_iff]
  intro blank
  have solid : bytes.all (fun other => !Byte.isBlank other && Byte.upper other == other) =
      true := by decide
  have member := List.all_eq_true.mp solid _ (upper_mem_of_standsAt stands shown behind within)
  rw [Bool.and_eq_true, Bool.not_eq_true', beq_iff_eq] at member
  exact Byte.upper_ne_of_blank blank member.1 member.2.symm

namespace Entrance

variable {code : Bytes}

/-- Code may be read from its beginning. -/
theorem zero (legible : Legible code) : Entrance code 0 :=
  ⟨legible.seam_zero, fun earlier before => absurd before (Nat.not_lt_zero earlier)⟩

/-- Blanks lead from one entrance to another one. -/
theorem behind_blanks (legible : Legible code) {start offset : Nat} (first : Entrance code start)
    (within : offset ≤ code.length)
    (blank : ∀ byte ∈ code.extract start offset, Byte.isBlank byte = true)
    (inOrder : start ≤ offset) : Entrance code offset := by
  refine ⟨legible.seam_behind_blanks first.seam within blank inOrder, ?_⟩
  rcases Nat.lt_or_ge start offset with ahead | same
  · intro earlier before reaches stands
    have shown : code[offset - 1]? = some (code.get ⟨offset - 1, by omega⟩) :=
      List.getElem?_eq_getElem (by omega)
    have isBlank := blank _ (Window.mem_extract shown (by omega) (by omega))
    have solid := not_blank_of_standsAt stands shown (by omega) (by omega)
    rw [isBlank] at solid
    cases solid
  · obtain rfl := Nat.le_antisymm inOrder same
    exact first.apart

/-- What a foreign byte is. -/
theorem of_isForeign {byte : UInt8} (foreign : isForeign byte = true) :
    byte < 0x80 ∧ Byte.isBlank byte = false ∧ isQuote byte = false ∧ Byte.upper byte ∉ bytes := by
  simpa [isForeign, and_assoc] using foreign

/-- Code may be read behind a foreign byte. -/
theorem behind_foreign (legible : Legible code) {offset : Nat} {byte : UInt8}
    (shown : code[offset]? = some byte) (foreign : isForeign byte = true) :
    Entrance code (offset + 1) := by
  obtain ⟨ascii, solid, plain, absent⟩ := of_isForeign foreign
  refine ⟨legible.seam_behind shown ascii solid plain, ?_⟩
  intro earlier before reaches stands
  exact absent (upper_mem_of_standsAt stands shown (by omega) (by omega))

/-- Code may be read behind `AL` in any case, where `LATERAL` ends. A placeholder has an `L`, but no
`A` before it. -/
theorem behind_al (legible : Legible code) {offset : Nat} {byte letter : UInt8}
    (shown : code[offset]? = some byte) (isA : Byte.upper byte = 0x41)
    (next : code[offset + 1]? = some letter) (isL : Byte.upper letter = 0x4C) :
    Entrance code (offset + 2) := by
  have letterFacts : letter < 0x80 ∧ Byte.isBlank letter = false ∧ isQuote letter = false ∧
      letter ≠ Byte.openParen := by
    rcases Byte.eq_or_eq_of_upper_eq isL with rfl | rfl <;> decide
  obtain ⟨ascii, solid, plain, notParenthesis⟩ := letterFacts
  refine ⟨legible.seam_behind next ascii solid plain, ?_⟩
  intro earlier before reaches stands
  rcases Nat.lt_or_ge offset earlier with behind | ahead
  · obtain rfl : earlier = offset + 1 := by omega
    exact notParenthesis (Option.some.inj (next.symm.trans stands.opens))
  · have member := upper_mem_of_standsAt stands shown ahead (by omega)
    rw [isA] at member
    exact absurd member (by decide)

end Entrance

/-- A span that may be read by itself. -/
structure Stretch (code : Bytes) (span : Span) : Prop where
  start : Entrance code span.start
  stop : Bytes.CutAt code span.stop
  inOrder : span.start ≤ span.stop

namespace Stretch

variable {code : Bytes} {span : Span}

/-- The empty span at the beginning. -/
theorem absent (legible : Legible code) : Stretch code Span.absent :=
  ⟨.zero legible, .zero legible.spells, Nat.le_refl _⟩

/-- Such a span may be cut out of the code. -/
theorem cutOut (stretch : Stretch code span) : Bytes.CutOut code span :=
  ⟨stretch.start.seam.cut, stretch.stop, stretch.inOrder⟩

/-- What is left when the blanks at the ends are taken off. -/
theorem trim (legible : Legible code) (stretch : Stretch code span) :
    Stretch code (Bytes.trim code span).value := by
  have trimmed := Bytes.trimmed_trim stretch.inOrder stretch.stop.within
  have ends := stretch.cutOut.trim legible.spells
  refine ⟨?_, ends.stop, trimmed.inOrder⟩
  exact stretch.start.behind_blanks legible ends.start.within trimmed.blankFront trimmed.startLe

/-- Such a span is legible by itself. -/
theorem legible_extract (legible : Legible code) (stretch : Stretch code span) :
    Legible (code.extract span.start span.stop) :=
  legible.extract stretch.start.seam stretch.stop stretch.inOrder

end Stretch

variable {code : Bytes}

/-- Every keyword that ends a clause begins with a byte of ASCII. -/
theorem beginsAscii_of_mem_terminators (clause : Clause) :
    ∀ keyword ∈ clause.terminators.map (·.keyword), keyword.beginsAscii = true := by
  rw [← List.all_eq_true]
  cases clause <;> decide

/-- What comes before the first keyword of a list, or before the end when there is none. -/
theorem stretch_before (legible : Legible code) {keywords : List Keyword}
    (spacious : Keyword.TakesSpace keywords)
    (plain : ∀ keyword ∈ keywords, keyword.beginsAscii = true) {offset stop : Nat}
    (stretch : Stretch code ⟨offset, stop⟩) :
    Stretch code ⟨offset, Keyword.firstStart code offset stop keywords⟩ := by
  have before := Keyword.cutOut_before legible.spells spacious plain stretch.cutOut
  exact ⟨stretch.start, before.stop, before.inOrder⟩

/-- A clause is read from where it begins. -/
theorem stretch_read (legible : Legible code) (clause : Clause) {offset : Nat}
    (entrance : Entrance code offset) : Stretch code (clause.read code offset).value.1 := by
  have upToEnd : Stretch code ⟨offset, code.length⟩ :=
    ⟨entrance, .length legible.spells, entrance.seam.cut.within⟩
  have before := stretch_before legible
    (Keyword.takesSpace_of_isSolid clause.isSolid_of_mem_terminators)
    (beginsAscii_of_mem_terminators clause) upToEnd
  rw [Keyword.firstStart_length] at before
  exact before.trim legible

/-- The keyword that opens the FROM clause ends with an `M`. -/
def fromEndsWithM (terminators : List Clause.Terminator) : Bool :=
  terminators.all fun terminator =>
    terminator.opens != some .fromClause || terminator.keyword.lastByte? == some 0x4D

/-- The FROM clause may be read behind the keyword that opens it. -/
theorem entrance_of_ofHit? (legible : Legible code) {terminators : List Clause.Terminator}
    (known : fromEndsWithM terminators = true) {start offset : Nat}
    (opened : (Clause.find? code start terminators).bind (Clause.Opening.ofHit? terminators) =
      some ⟨.fromClause, offset⟩) : Entrance code offset := by
  obtain ⟨hit, found, opens⟩ := Option.bind_eq_some_iff.mp opened
  obtain ⟨terminator, isTerminator, opens⟩ := Option.bind_eq_some_iff.mp opens
  obtain ⟨clause, opensFrom, same⟩ := Option.map_eq_some_iff.mp opens
  cases same
  have isKeyword : (terminators.map (·.keyword))[hit.index]? = some terminator.keyword := by
    rw [List.getElem?_map, isTerminator, Option.map_some]
  have isLast : terminator.keyword.lastByte? = some 0x4D := by
    have either := List.all_eq_true.mp known terminator (List.mem_of_getElem? isTerminator)
    simpa [opensFrom] using either
  obtain ⟨before, byte, stop, shown, isM⟩ := Keyword.exists_last_of_find? found isKeyword isLast
  rw [stop]
  apply Entrance.behind_foreign legible shown
  rcases Byte.eq_or_eq_of_upper_eq isM with rfl | rfl <;> decide

/-- The FROM clause of a block may be read by itself. -/
theorem stretch_fromClause (legible : Legible code) :
    Stretch code (Clauses.ofCode code).value.fromClause := by
  rw [Clauses.value_ofCode]
  simp only [Clause.readIf]
  split
  · exact .absent legible
  · rename_i opening opened
    split
    · rename_i isFrom
      apply stretch_read legible
      obtain ⟨clause, offset⟩ := opening
      obtain rfl : clause = .fromClause := isFrom
      rw [Clauses.first] at opened
      split at opened
      · exact entrance_of_ofHit? legible (by decide) opened
      · exact entrance_of_ofHit? legible (by decide) opened
    · exact .absent legible

/-- The parts between commas may be read by themselves. -/
theorem stretch_split (legible : Legible code) :
    ∀ part ∈ TopLevel.split code Byte.comma, Stretch code part := by
  intro part member
  have cutOut := TopLevel.cutOut_of_mem_split legible.spells (by decide) part member
  refine ⟨?_, cutOut.stop, cutOut.inOrder⟩
  exact (TopLevel.part_of_mem_split member).holds_at_start (.zero legible) fun _ shown =>
    .behind_foreign legible shown (by decide)

/-- The pieces between joins, up to `stop`. -/
theorem stretch_betweenJoins (legible : Legible code) {start stop : Nat}
    (stretch : Stretch code ⟨start, stop⟩) :
    ∀ piece ∈ FromEntry.betweenJoins (code.take stop) start, Stretch code piece := by
  have plain : ∀ keyword ∈ [FromEntry.join], keyword.beginsAscii = true := by
    rw [← List.all_eq_true]
    decide
  have length : (code.take stop).length = stop := by
    rw [List.length_take, Nat.min_eq_left stretch.stop.within]
  apply FromEntry.forall_betweenJoins
  · rwa [length]
  · intro start hit found ahead
    rw [length] at ahead ⊢
    have before := stretch_before legible FromEntry.takesSpace_join plain ahead
    rw [Keyword.firstStart_of_some found] at before
    have isJoin : [FromEntry.join][hit.index]? = some FromEntry.join := by
      obtain ⟨keyword, _, _, _, isKeyword, _⟩ := Keyword.exists_keyword_of_find? found
      rw [isKeyword, List.mem_singleton.mp (List.mem_of_getElem? isKeyword)]
    have isLast : FromEntry.join.lastByte? = some 0x4E := by decide
    obtain ⟨last, byte, isStop, shown, isN⟩ := Keyword.exists_last_of_find? found isJoin isLast
    have behind : Entrance code hit.span.stop := by
      rw [isStop]
      apply Entrance.behind_foreign legible (Window.getElem?_of_take shown)
      rcases Byte.eq_or_eq_of_upper_eq isN with rfl | rfl <;> decide
    have bounds := Keyword.span_of_find?_eq_some FromEntry.takesSpace_join found
    rw [length] at bounds
    exact ⟨before, behind, ahead.stop, bounds.2.2⟩

/-- Every entry of a FROM clause, with what belongs to it, may be read by itself. -/
theorem stretch_spans (legible : Legible code) :
    ∀ span ∈ (FromEntry.spans code).value, Stretch code span := by
  intro span member
  simp only [FromEntry.spans, Checked.value_bind, Checked.value_each, Checked.value_pure,
    FromEntry.value_searchJoins, List.mem_flatten, List.mem_map] at member
  obtain ⟨_, ⟨part, isPart, rfl⟩, isSpan⟩ := member
  have partStretch := stretch_split legible part isPart
  simp only [Bytes.cut, Window.extract_zero] at isSpan
  exact stretch_betweenJoins legible partStretch span isSpan

/-- A span may be cut behind any of its runs. -/
theorem cutAt_behind_run (spells : Bytes.IsText code) {whole : Span}
    (inOrder : whole.start ≤ whole.stop) (stop : Bytes.CutAt code whole.stop) {start : Nat}
    {run : Bytes} (member : (start, run) ∈ FromEntry.runs 0 (code.extract whole.start whole.stop)) :
    Bytes.CutAt code (whole.start + (start + run.length)) := by
  obtain ⟨within, ended⟩ := (FromEntry.runIn_of_mem_runs member).ends
  rw [Window.length_extract code whole.start stop.within] at within
  generalize start + run.length = length at within ended ⊢
  rcases Nat.lt_or_ge (whole.start + length) whole.stop with before | atEnd
  · have inside : whole.start + length < code.length := Nat.lt_of_lt_of_le before stop.within
    have shown : code[whole.start + length]? = some (code.get ⟨whole.start + length, inside⟩) :=
      List.getElem?_eq_getElem inside
    have blank := ended (code.get ⟨whole.start + length, inside⟩) (by
      rw [List.head?_drop, List.extract_eq_take_drop, List.getElem?_take_of_lt (by omega),
        List.getElem?_drop, shown]
      rfl)
    exact .at_ascii spells shown (Byte.ascii_of_blank blank)
  · obtain same : whole.start + length = whole.stop := by omega
    rwa [same]

/-- What is left of a stretch without the words at its end. -/
theorem stretch_withoutModifiers (legible : Legible code) {whole : Span}
    (stretch : Stretch code whole) {length : Nat}
    (measured : FromEntry.lengthWithoutModifiers? (code.extract whole.start whole.stop) =
      some length) : Stretch code ⟨whole.start, whole.start + length⟩ := by
  obtain ⟨start, run, member, rfl⟩ := FromEntry.exists_run_of_lengthWithoutModifiers? measured
  exact ⟨stretch.start, cutAt_behind_run legible.spells stretch.inOrder stretch.stop member,
    Nat.le_add_right _ _⟩

/-- Code may be read behind `LATERAL`. -/
theorem entrance_behind_lateral (legible : Legible code) {offset : Nat}
    (solid : ∀ byte ∈ (code.drop offset).head?, Byte.isBlank byte = false)
    (lateral : Word.nextIs code offset "LATERAL" = true) :
    Entrance code (offset + "LATERAL".length) := by
  obtain ⟨word, met, isLateral⟩ := (Option.any_eq_true _ _).mp lateral
  obtain ⟨blanks, behind, ahead, blank, _⟩ := Word.split_of_next?_eq_some met
  have noBlanks : blanks = [] := by
    cases blanks with
    | nil => rfl
    | cons first others =>
      have firstBlank := blank first List.mem_cons_self
      rw [ahead] at solid
      rw [solid first rfl] at firstBlank
      cases firstBlank
  subst noBlanks
  have spelled : word.spelling.map Byte.upper = (Bytes.ofString "LATERAL").map Byte.upper := by
    simpa [Word.is, Bytes.sameIgnoringCase] using isLateral
  have letter (index : Nat) (capital : UInt8)
      (expected : ((Bytes.ofString "LATERAL").map Byte.upper)[index]? = some capital) :
      ∃ byte, code[offset + index]? = some byte ∧ Byte.upper byte = capital := by
    rw [← spelled, List.getElem?_map, Option.map_eq_some_iff] at expected
    obtain ⟨byte, shown, isCapital⟩ := expected
    refine ⟨byte, ?_, isCapital⟩
    rw [← List.getElem?_drop, ahead, List.nil_append,
      List.getElem?_append_left (List.getElem?_eq_some_iff.mp shown).1, shown]
  obtain ⟨first, isFirst, isA⟩ := letter 5 0x41 (by decide)
  obtain ⟨second, isSecond, isL⟩ := letter 6 0x4C (by decide)
  exact .behind_al legible isFirst isA isSecond isL

/-- The entry proper may be read by itself. -/
theorem stretch_place (legible : Legible code) {span : Span} (stretch : Stretch code span)
    {place : Span} (found : FromEntry.place? code span = some place) : Stretch code place := by
  have plain : ∀ keyword ∈ FromEntry.conditions, keyword.beginsAscii = true := by
    rw [← List.all_eq_true]
    decide
  have beforeCondition := stretch_before legible FromEntry.takesSpace_conditions plain stretch
  have trimmed := Bytes.trimmed_trim beforeCondition.inOrder beforeCondition.stop.within
  have wholeStretch := beforeCondition.trim legible
  obtain ⟨whole, length, isWhole, measured, steps⟩ := FromEntry.exists_steps_of_place? found
  rw [← isWhole] at trimmed wholeStretch
  have tableStretch := stretch_withoutModifiers legible wholeStretch measured
  rcases steps with rfl | ⟨lateral, remains, rfl⟩
  · exact tableStretch
  · have solid : ∀ byte ∈ (code.drop whole.start).head?, Byte.isBlank byte = false := by
      intro byte isFirst
      apply trimmed.solid
      rw [List.extract_eq_take_drop, List.head?_take, if_neg, isFirst]
      · rfl
      · intro empty
        rw [List.extract_eq_take_drop, empty, List.take_zero] at measured
        cases measured
    have behind := entrance_behind_lateral legible solid lateral
    exact Stretch.trim legible ⟨behind, tableStretch.stop, Nat.le_of_lt remains⟩

/-- Placeholders are counted piece by piece where code may be read afresh. -/
theorem count_take_add {offset : Nat} (entrance : Entrance code offset) (further : Nat) :
    count (code.take (offset + further)) =
      count (code.take offset) + count ((code.drop offset).take further) := by
  have pieces : code.take (offset + further) =
      code.take offset ++ (code.drop offset).take further := List.take_add
  have length : (code.take offset).length = offset := by
    rw [List.length_take, Nat.min_eq_left entrance.seam.cut.within]
  rw [pieces]
  apply count_append
  intro earlier before reaches stands
  rw [← pieces] at stands
  rw [length] at before reaches
  exact entrance.apart earlier before reaches stands.of_take

/-- A placeholder of a stretch is one of the whole code, and those before it are those in front of
the stretch and those inside. -/
theorem Stretch.standsAt {span : Span} (stretch : Stretch code span) {offset : Nat}
    (stands : StandsAt (code.extract span.start span.stop) offset) :
    StandsAt code (span.start + offset) ∧
      count (code.take (span.start + offset)) =
        count (code.take span.start) + count ((code.extract span.start span.stop).take offset) := by
  have within := stands.within
  rw [List.extract_eq_take_drop] at stands within ⊢
  rw [List.length_take] at within
  refine ⟨standsAt_drop.mp stands.of_take, ?_⟩
  rw [count_take_add stretch.start, List.take_take, Nat.min_eq_left (by omega)]

/-- Bytes that spell a text are those of its characters. -/
theorem encoded_decode {bytes : Bytes} (spells : Bytes.IsText bytes) :
    EntryShape.encoded (Bytes.decode bytes) = bytes := by
  have whole := spells.ofString_text
  rwa [Bytes.ofString, Bytes.text, String.toList_ofList] at whole

/-- What makes an entry a derived table is a placeholder, and as many come before it as come before
the entry. -/
theorem standsAt_of_derived (legible : Legible code) {place : Span} (stretch : Stretch code place)
    {shape : FromEntry.Shape} (shaped : FromEntry.shapeAt? code place = some shape)
    (derived : Text.sameName shape.name.text Placeholder.text = true) :
    StandsAt code (place.start + shape.name.offset) ∧
      count (code.take (place.start + shape.name.offset)) = count (code.take place.start) := by
  have entry := stretch.legible_extract legible
  have characters := encoded_decode entry.spells
  have hollow := entry.hollow
  rw [← characters] at hollow
  obtain ⟨⟨used, after, split, noParenthesis, offset⟩, spelled⟩ :=
    EntryShape.placeholderAt_of_derived hollow shaped derived
  rw [split, EntryShape.encoded, List.flatMap_append, List.flatMap_append] at characters
  have ahead : code.drop place.start = EntryShape.encoded used ++
      (EntryShape.encoded shape.name.characters ++
        (EntryShape.encoded after ++ code.drop place.stop)) := by
    rw [← Window.extract_append_drop code stretch.inOrder, ← characters]
    simp only [List.append_assoc]
  constructor
  · rw [← standsAt_drop, ahead, offset]
    exact standsAt_append_left.mpr (standsAt_of_spelled spelled _)
  · have usedFree : Free (EntryShape.encoded used) := by
      apply free_of_not_mem
      intro member
      exact noParenthesis (EntryShape.mem_of_mem_encoded (by decide) member)
    rw [count_take_add stretch.start, ahead, offset, List.take_left, count_eq_zero usedFree,
      Nat.add_zero]

end QueryScope.EntryPlace

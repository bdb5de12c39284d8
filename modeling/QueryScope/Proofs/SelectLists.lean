import Mathlib.Data.List.Basic
import QueryScope.Sql.SelectItem
import QueryScope.Proofs.BareNames
import QueryScope.Proofs.EntryPlaces

/-!
# The columns that a select list names

The name of a column always ends its item, whether it is an alias, the last identifier of a path or
the whole item. Without double quotes it is a bare name, so it is cut out of the text as the code
has it. The items stand between commas, and the select list between the keyword `SELECT`, with
the quantifier behind it, and the next keyword: they are texts by themselves.
-/

namespace QueryScope

namespace SelectList

open EntryShape BareName Bytes

/-- The select list begins between two characters: behind `SELECT` or behind the quantifier. -/
theorem cutAt_of_selectListOffset? {code : Bytes} (spells : IsText code) {offset : Nat}
    (found : Clauses.selectListOffset? code = some offset) : CutAt code offset := by
  rw [Clauses.selectListOffset?_eq] at found
  obtain ⟨hit, met, isOffset⟩ := Option.map_eq_some_iff.mp found
  rw [Clauses.behindQuantifier] at isOffset
  split at isOffset
  · rename_i word quantified
    subst isOffset
    have next := Option.eq_some_of_filter_eq_some quantified
    exact .of_drop spells (Word.stop_le_of_next? next) (Window.isText_drop_of_next? spells next)
  · subst isOffset
    apply Keyword.cutAt_behind spells _ met
    rw [← List.all_eq_true]
    decide

/-- A clause may be cut out of a block, blanks included, when it begins between two characters. -/
theorem cutOut_untrimmed {code : Bytes} (spells : IsText code) (clause : Clause) {offset : Nat}
    (begins : CutAt code offset) :
    CutOut code ⟨offset, ((Clause.find? code offset clause.terminators).map
      (·.span.start)).getD code.length⟩ := by
  have before := Keyword.cutOut_before spells
    (Keyword.takesSpace_of_isSolid clause.isSolid_of_mem_terminators)
    (EntryPlace.beginsAscii_of_mem_terminators clause)
    ⟨begins, .length spells, begins.within⟩
  rwa [Keyword.firstStart_length] at before

/-- So may the clause without the blanks at its ends. -/
theorem cutOut_read {code : Bytes} (spells : IsText code) (clause : Clause) {offset : Nat}
    (begins : CutAt code offset) : CutOut code (clause.read code offset).value.1 :=
  (cutOut_untrimmed spells clause begins).trim spells

/-- The select list of a block may be cut out of it. -/
theorem cutOut_selectList {code : Bytes} (spells : IsText code) :
    CutOut code (Clauses.ofCode code).value.selectList := by
  rw [Clauses.value_ofCode]
  simp only [Clauses.first]
  split
  · rename_i offset found
    exact cutOut_read spells _ (cutAt_of_selectListOffset? spells found)
  · exact ⟨.zero spells, .zero spells, Nat.le_refl _⟩

end SelectList

/-! ## Items by their characters -/

namespace SelectItem

open EntryShape BareName Bytes SelectList

/-- The characters of an item before a byte offset. -/
def charactersBefore (characters : List Char) (offset : Nat) : List Char :=
  decode ((encoded characters).take offset)

/-- Behind some characters, these are all the characters before. -/
theorem charactersBefore_append (front rest : List Char) :
    charactersBefore (front ++ rest) (width front) = front := by
  rw [charactersBefore, encoded_append, ← length_encoded, List.take_left, decode_encoded]

/-- The alias at the end of an item, when it is one indeed. -/
def acceptedAlias? (characters : List Char) : Option TrailingAlias :=
  (trailingAlias? 0 characters).filter fun trailing =>
    trailing.isAccepted (charactersBefore characters trailing.start)

/-- The identifier at the end of an item under which its column is visible. -/
def visibleName? (characters : List Char) : Option (List Char) :=
  if namesNothing characters then none
  else match acceptedAlias? characters with
    | some trailing => some trailing.name
    | none => lastName? characters

/-- The name that is read is that of the item's characters. -/
theorem value_readName {code : Bytes} (spells : IsText code) :
    (readName code).value = visibleName? (decode code) := by
  have isCode := EntryPlace.encoded_decode spells
  rw [readName, visibleName?]
  by_cases nothing : namesNothing (decode code) = true
  · rw [if_pos nothing, if_pos nothing, Checked.value_pure]
  · rw [if_neg nothing, if_neg nothing, Checked.value_bind, readAlias, acceptedAlias?]
    cases trailingAlias? 0 (decode code) with
    | none => rfl
    | some trailing =>
      have before : charactersBefore (decode code) trailing.start =
          decode (Bytes.cut code ⟨0, trailing.start⟩).value := by
        rw [charactersBefore, isCode, Bytes.cut, Window.extract_zero]
      rw [Option.filter_some, before]
      simp only [Checked.value_bind, Checked.value_pure]
      by_cases accepted :
          trailing.isAccepted (decode (Bytes.cut code ⟨0, trailing.start⟩).value) = true
      · rw [if_pos accepted, if_pos accepted]
        rfl
      · rw [if_neg accepted, if_neg accepted]
        rfl

/-- The column that an item names is cut out of its text where its name stands. -/
theorem value_columnName {text code : Bytes} (spells : IsText code) :
    (columnName text code).value = (visibleName? (decode code)).map fun name =>
      Identifier.unquote (Bytes.text (text.extract (code.length - width name) code.length)) := by
  rw [columnName, Checked.value_bind, value_readName spells]
  cases visibleName? (decode code) with
  | none => rfl
  | some name => rfl

/-- An alias at the end of an item ends the item, and it is one identifier. It begins behind the
characters in front of it. -/
theorem exists_append_of_trailingAlias? {offset : Nat} {characters : List Char}
    {trailing : TrailingAlias} (found : trailingAlias? offset characters = some trailing) :
    ∃ front back, characters = front ++ (back ++ trailing.name) ∧
      trailing.start = offset + width front ∧ Identifier.isWhole .folded trailing.name = true := by
  induction characters generalizing offset with
  | nil => cases found
  | cons character rest inductionHypothesis =>
    have later (further : trailingAlias? (offset + character.utf8Size) rest = some trailing) :
        ∃ front back, character :: rest = front ++ (back ++ trailing.name) ∧
          trailing.start = offset + width front ∧
          Identifier.isWhole .folded trailing.name = true := by
      obtain ⟨front, back, rfl, place, whole⟩ := inductionHypothesis further
      refine ⟨character :: front, back, rfl, ?_, whole⟩
      rw [place, Nat.add_assoc]
      rfl
    have blanks : rest = rest.takeWhile Text.isBlank ++ rest.dropWhile Text.isBlank :=
      List.takeWhile_append_dropWhile.symm
    simp only [trailingAlias?] at found
    split at found
    · split at found
      · rename_i name explicit
        cases found
        have whole := Option.eq_some_of_filter_eq_some explicit
        obtain ⟨used, isUsed⟩ := exists_append_of_afterAs? whole
        refine ⟨[], character :: rest.takeWhile Text.isBlank ++ used, ?_, rfl, ?_⟩
        · rw [List.nil_append, List.append_assoc, List.cons_append, ← isUsed, ← blanks]
        · exact (Option.filter_eq_some_iff.mp explicit).2
      · split at found
        · rename_i whole
          cases found
          refine ⟨[], character :: rest.takeWhile Text.isBlank, ?_, rfl, whole⟩
          rw [List.nil_append, List.cons_append, ← blanks]
        · exact later found
    · exact later found

/-- The same of an alias that is one indeed. -/
theorem exists_append_of_acceptedAlias? {characters : List Char} {trailing : TrailingAlias}
    (accepted : acceptedAlias? characters = some trailing) :
    ∃ front, characters = front ++ trailing.name ∧
      Identifier.isWhole .folded trailing.name = true := by
  obtain ⟨front, back, whole, _, isName⟩ :=
    exists_append_of_trailingAlias? (Option.eq_some_of_filter_eq_some accepted)
  exact ⟨front ++ back, by rw [whole, List.append_assoc], isName⟩

/-- The name under which an item's column is visible ends the item, and it is a bare name when there
are no double quotes. -/
theorem exists_append_of_visibleName? {characters name : List Char} (noQuote : '"' ∉ characters)
    (visible : visibleName? characters = some name) :
    ∃ front, characters = front ++ name ∧ ∀ character ∈ name, isPlain character = true := by
  rw [visibleName?] at visible
  split at visible
  · cases visible
  · split at visible
    · rename_i trailing accepted
      cases visible
      obtain ⟨front, rfl, whole⟩ := exists_append_of_acceptedAlias? accepted
      refine ⟨front, rfl, Bare.plain (bare_of_isWhole ?_ whole)⟩
      exact fun member => noQuote (List.mem_append_right _ member)
    · obtain ⟨used, whole, spelled⟩ := readPath_spelled .plain 0 noQuote
      rw [lastName?] at visible
      split at visible
      · rename_i first next others path
        rw [path] at whole spelled
        obtain ⟨fragment, isLast, rfl⟩ := Option.map_eq_some_iff.mp visible
        rw [← List.getLast?_cons_cons] at isLast
        obtain ⟨front, rfl, _, bare⟩ := spelled.last isLast
        exact ⟨front, by rw [whole, List.append_nil], bare.plain⟩
      · split at visible
        · rename_i accepted
          cases visible
          rw [Bool.and_eq_true] at accepted
          exact ⟨[], rfl, Bare.plain (bare_of_isWhole noQuote accepted.1)⟩
        · cases visible

end SelectItem

/-! ## Columns -/

namespace SelectList

open EntryShape BareName Bytes

/-- Code without a double quote has no such character. -/
theorem quote_not_mem_decode {code : Bytes} (spells : IsText code)
    (noQuote : Byte.doubleQuote ∉ code) : '"' ∉ decode code := by
  intro member
  apply noQuote
  rw [← EntryPlace.encoded_decode spells]
  exact List.mem_flatMap.mpr ⟨'"', member, by decide⟩

/-- Neither has a piece of it. -/
theorem quote_not_mem_extract {code : Bytes} (noQuote : Byte.doubleQuote ∉ code)
    (start stop : Nat) : Byte.doubleQuote ∉ code.extract start stop :=
  fun quoted => noQuote (List.mem_of_mem_drop (List.mem_of_mem_take quoted))

variable {code left right : Bytes}

/-- The column that an item names is the same for all texts with the same code. -/
theorem columnName_eq (spells : IsText code) (noQuote : Byte.doubleQuote ∉ code)
    (showsLeft : Shows code left) (showsRight : Shows code right) :
    (SelectItem.columnName left code).value = (SelectItem.columnName right code).value := by
  rw [SelectItem.value_columnName spells, SelectItem.value_columnName spells]
  cases visible : SelectItem.visibleName? (decode code) with
  | none => rfl
  | some name =>
    obtain ⟨front, whole, plain⟩ :=
      SelectItem.exists_append_of_visibleName? (quote_not_mem_decode spells noQuote) visible
    have isCode : code = encoded (front ++ (name ++ [])) := by
      rw [List.append_nil, ← whole, EntryPlace.encoded_decode spells]
    have length : code.length = Bytes.width front + Bytes.width name := by
      rw [isCode, List.append_nil, length_encoded, width_append]
    have cutOut {text : Bytes} (shows : Shows code text) :
        text.extract (code.length - Bytes.width name) code.length = encoded name := by
      rw [isCode] at shows
      rw [length, Nat.add_sub_cancel]
      exact shows.extract_eq plain
    rw [Option.map_some, Option.map_some, cutOut showsLeft, cutOut showsRight]

/-- The columns that a select list names are the same for all texts with the same code. -/
theorem columnNames_eq (spells : IsText code) (noQuote : Byte.doubleQuote ∉ code)
    (showsLeft : Shows code left) (showsRight : Shows code right) :
    (SelectItem.columnNames left code).value = (SelectItem.columnNames right code).value := by
  simp only [SelectItem.columnNames, Checked.value_eachSome, Checked.value_bind, Bytes.cut]
  apply List.filterMap_congr
  intro part member
  have item := (TopLevel.cutOut_of_mem_split spells (by decide) part member).trim spells
  apply columnName_eq item.isText
  · exact quote_not_mem_extract noQuote _ _
  · exact showsLeft.extract _ _
  · exact showsRight.extract _ _

end SelectList

end QueryScope

import Mathlib.Data.List.Basic
import QueryScope.Proofs.EntryPlaces
import QueryScope.Proofs.WrittenPaths

/-!
# Entries as they are written

An item in a FROM clause, with blanks in front of it and with words behind it that say what kind of
join follows, is found at its own place and read as the reference that it was written for: the last
name of the path is the table, the names in front of it are the schema, and the alias is the alias.
-/

namespace QueryScope.Written

open EntryShape Bytes

/-- The reference that an item stands for in a FROM clause. -/
def Item.reference (item : Item) : TableReference where
  schema := if item.qualifier.isEmpty then none
    else some (String.intercalate "." (item.qualifier.map Name.meaning))
  tableName := some item.name.meaning
  aliasName := item.aliasName.map (·.name.meaning)
  isDerived := false
  derivedScope := none

/-! ## The shape of an entry -/

/-- A name alone does not begin with the word `AS` and a blank. -/
theorem Name.afterAs?_shown (name : Name) : Identifier.afterAs? name.shown = none := by
  cases name with
  | plain name =>
    have solid : ∀ character ∈ name.spelling.toList, Text.isBlank character = false :=
      fun character member => BareName.not_isBlank_of_continuesName (name.continues character member)
    rw [Name.shown]
    cases isSpelled : name.spelling.toList with
    | nil => rfl
    | cons first others =>
      cases others with
      | nil => rfl
      | cons second rest =>
        have noBlank : rest.head?.any Text.isBlank = false := by
          cases rest with
          | nil => rfl
          | cons third rest =>
            apply solid
            simp [isSpelled]
        simp only [Identifier.afterAs?, noBlank, Bool.and_false, Bool.false_eq_true, if_false]
  | quoted content =>
    cases inside : (doubled content.toList).flatMap blanksFor with
    | nil => simp [Name.shown, inside, Identifier.afterAs?, Letters.foldsTo]
    | cons first others => simp [Name.shown, inside, Identifier.afterAs?, Letters.foldsTo]

/-- A name has no blanks in front of it to be skipped. -/
theorem Name.dropWhile_shown (name : Name) : name.shown.dropWhile Text.isBlank = name.shown := by
  obtain ⟨first, others, isName, firstSolid⟩ := name.solidEnds_shown.first
  rw [isName, List.dropWhile_cons_of_neg (by simp [firstSolid])]

/-- A name alone is read to its end. -/
theorem Name.read?_alone (letters : Letters) (name : Name) :
    Identifier.read? letters name.shown = some (name.shown, []) := by
  have reading : Identifier.read? letters (name.shown ++ []) = some (name.shown, []) :=
    name.read?_shown letters rfl
  rwa [List.append_nil] at reading

/-- What stands behind a path does not go on with its last name. -/
theorem head?_spellAlias (letters : Letters) (aliasName : Option Alias) :
    (spellAlias Name.shown aliasName).head?.any (Identifier.continuesName letters) = false := by
  rcases aliasName with _ | ⟨_ | _, name⟩ <;> cases letters <;> rfl

/-- What stands behind a path does not begin with a dot. -/
theorem afterDot?_spellAlias (aliasName : Option Alias) :
    Identifier.afterDot? (spellAlias Name.shown aliasName) = none := by
  rcases aliasName with _ | ⟨_ | _, name⟩
  · rfl
  · have ahead : (spellAlias Name.shown (some ⟨false, name⟩)).dropWhile Text.isBlank =
        name.shown := name.dropWhile_shown
    rw [Identifier.afterDot?, ahead]
    split
    · rename_i rest isDot
      have shown := name.isShown_of_mem '.' (by simp [isDot])
      cases shown
    · rfl
  · rfl

/-- The alias is read where it stands. -/
theorem readAlias?_spellAlias (offset : Nat) (aliasName : Option Alias) :
    FromEntry.readAlias? offset (spellAlias Name.shown aliasName) =
      aliasName.map fun aliasName =>
        ⟨offset + width aliasName.introduction, aliasName.name.shown⟩ := by
  rcases aliasName with _ | ⟨isExplicit, name⟩
  · rfl
  · have distance : width (spellAlias Name.shown (some ⟨isExplicit, name⟩)) - width name.shown =
        width (Alias.introduction ⟨isExplicit, name⟩) := by
      rw [spellAlias, Option.elim_some, width_append, Nat.add_sub_cancel]
    have blank : (spellAlias Name.shown (some ⟨isExplicit, name⟩)).head?.any Text.isBlank =
        true := by
      cases isExplicit <;> rfl
    rw [FromEntry.readAlias?, if_pos blank]
    cases isExplicit with
    | false =>
      have ahead : (spellAlias Name.shown (some ⟨false, name⟩)).dropWhile Text.isBlank =
          name.shown := name.dropWhile_shown
      simp only [ahead, name.afterAs?_shown, name.read?_alone, Option.bind_none, Option.none_or,
        Option.map_some, distance]
    | true =>
      have ahead : (spellAlias Name.shown (some ⟨true, name⟩)).dropWhile Text.isBlank =
          'A' :: 'S' :: ' ' :: name.shown := rfl
      have behind : Identifier.afterAs? ('A' :: 'S' :: ' ' :: name.shown) = some name.shown :=
        congrArg some name.dropWhile_shown
      simp only [ahead, behind, name.read?_alone, Option.bind_some, Option.some_or, Option.map_some,
        distance]

/-- The shape of an item in the code view. -/
def Item.shape (item : Item) : FromEntry.Shape :=
  let name : Fragment := ⟨width (spellQualifier Name.shown item.qualifier), item.name.shown⟩
  { qualifier := FromEntry.cover (fragments 0 item.qualifier item.name).dropLast
    name
    aliasName := item.aliasName.map fun aliasName =>
      ⟨name.stop + width aliasName.introduction, aliasName.name.shown⟩ }

/-- An item is read in its shape. -/
theorem Item.read?_shown (item : Item) :
    FromEntry.Shape.read? (item.spell Name.shown) = some item.shape := by
  have path := readPath_shown .folded 0 item.qualifier item.name
    (head?_spellAlias .folded item.aliasName) (afterDot?_spellAlias item.aliasName)
  have nonempty : (fragments 0 item.qualifier item.name).isEmpty = false := by
    obtain ⟨next, others, isCons⟩ := exists_cons_fragments 0 item.qualifier item.name
    rw [isCons]
    rfl
  simp only [FromEntry.Shape.read?, Item.spell, path, nonempty, Bool.false_eq_true, if_false,
    afterDot?_spellAlias, Option.bind_none, getLast?_fragments, Option.map_some,
    readAlias?_spellAlias, Item.shape, Nat.zero_add]

/-! ## The reference that an entry makes -/

/-- A name may be a name, in the code view as well. -/
theorem Name.mayBeName_shown (name : Name) (offset : Nat) :
    FromEntry.mayBeName ⟨offset, name.shown⟩ = true := by
  cases name with
  | plain name =>
    simp only [FromEntry.mayBeName, Fragment.text, Name.shown, String.ofList_toList,
      name.not_isReserved, Bool.not_false, Bool.or_true]
  | quoted content => rfl

/-- A name is not the placeholder. -/
theorem Name.not_placeholder (name : Name) :
    Text.sameName (String.ofList name.shown) Placeholder.text = false := by
  apply EntryShape.not_placeholder
  intro member
  have shown := name.isShown_of_mem '(' member
  cases shown

/-- What is written at the place of a fragment is its name. -/
theorem Name.nameOf_written {text code : Bytes} (name : Name) {fragment : Fragment}
    (cut : Cut text code fragment.span (encoded name.written) (encoded name.shown)) :
    FromEntry.nameOf text fragment = name.meaning := by
  rw [FromEntry.nameOf, cut.extract_text, text_encoded, name.unquote_written]

/-- A part of an item, in its text and in its code. -/
theorem Item.cut_part (item : Item) {lead lead' middle middle' trail trail' : List Char}
    (isWritten : item.spell Name.written = lead ++ (middle ++ trail))
    (isShown : item.spell Name.shown = lead' ++ (middle' ++ trail'))
    (leads : width lead' = width lead) (middles : width middle' = width middle) :
    Cut (encoded (item.spell Name.written)) (encoded (item.spell Name.shown))
      ⟨width lead', width lead' + width middle'⟩ (encoded middle) (encoded middle') where
  inText := by
    refine ⟨encoded lead, encoded trail, ?_, by rw [length_encoded, leads]⟩
    rw [isWritten, encoded_append, encoded_append]
  inCode := by
    refine ⟨encoded lead', encoded trail', ?_, by rw [length_encoded]⟩
    rw [isShown, encoded_append, encoded_append]
  lengths := by rw [length_encoded, length_encoded, middles]
  stop := by rw [length_encoded]

/-- The table's name is read. -/
theorem Item.nameOf_name (item : Item) :
    FromEntry.nameOf (encoded (item.spell Name.written)) item.shape.name = item.name.meaning :=
  item.name.nameOf_written (item.cut_part rfl rfl (width_spellQualifier _) item.name.width_shown)

/-- The alias is read. -/
theorem Item.aliasName_shape (item : Item) :
    (item.shape.aliasName.filter FromEntry.mayBeName).map
      (FromEntry.nameOf (encoded (item.spell Name.written))) =
        item.aliasName.map (·.name.meaning) := by
  obtain ⟨qualifier, name, aliasName⟩ := item
  rcases aliasName with _ | aliasName
  · rfl
  · have spelled (spelling : Name → List Char) :
        Item.spell spelling ⟨qualifier, name, some aliasName⟩ =
          spellQualifier spelling qualifier ++ (spelling name ++ aliasName.introduction) ++
            (spelling aliasName.name ++ []) := by
      simp only [Item.spell, spellAlias, Option.elim_some, List.append_assoc, List.append_nil]
    have leads : width (spellQualifier Name.shown qualifier ++
        (name.shown ++ aliasName.introduction)) =
          width (spellQualifier Name.written qualifier ++
            (name.written ++ aliasName.introduction)) := by
      simp only [width_append, width_spellQualifier, name.width_shown]
    have cut := Item.cut_part ⟨qualifier, name, some aliasName⟩ (spelled Name.written)
      (spelled Name.shown) leads aliasName.name.width_shown
    simp only [Item.shape, Option.map_some, Option.filter_some, aliasName.name.mayBeName_shown,
      if_true, Option.some.injEq]
    apply aliasName.name.nameOf_written
    simpa only [Fragment.span, Fragment.stop, width_append, Nat.add_assoc] using cut

/-- The schema is read. -/
theorem Item.schema_shape (item : Item) :
    (item.shape.qualifier.map fun span =>
      (FromEntry.readQualifier ((encoded (item.spell Name.written)).extract span.start span.stop)
        ((encoded (item.spell Name.shown)).extract span.start span.stop)).value) =
      item.reference.schema := by
  obtain ⟨qualifier, name, aliasName⟩ := item
  rcases List.eq_nil_or_concat qualifier with rfl | ⟨others, previous, rfl⟩
  · rfl
  · rw [List.concat_eq_append]
    have spelled (spelling : Name → List Char) :
        Item.spell spelling ⟨others ++ [previous], name, aliasName⟩ =
          [] ++ ((spellQualifier spelling others ++ spelling previous) ++
            '.' :: (spelling name ++ spellAlias spelling aliasName)) := by
      simp only [Item.spell, spellQualifier, List.flatMap_append, List.flatMap_singleton,
        List.append_assoc, List.cons_append, List.nil_append]
    have middles : width (spellQualifier Name.shown others ++ previous.shown) =
        width (spellQualifier Name.written others ++ previous.written) := by
      simp only [width_append, width_spellQualifier, previous.width_shown]
    have cut := Item.cut_part ⟨others ++ [previous], name, aliasName⟩ (spelled Name.written)
      (spelled Name.shown) rfl middles
    have isText := cut.extract_text
    have isCode := cut.extract_code
    simp only [width] at isText isCode
    have present : (others ++ [previous]).isEmpty = false := by simp
    simp only [Item.shape, dropLast_fragments, cover_fragments, Option.map_some, isText, isCode,
      value_readQualifier, Item.reference, present, Bool.false_eq_true, if_false]

/-- An item makes the reference that it was written for. -/
theorem Item.value_ofShape (item : Item) (before : Bytes) :
    (FromEntry.ofShape (encoded (item.spell Name.written)) (encoded (item.spell Name.shown)) before
      item.shape).value = some ⟨item.reference, none⟩ := by
  have isName : item.shape.name.text = String.ofList item.name.shown := rfl
  have allowed : FromEntry.mayBeName item.shape.name = true := item.name.mayBeName_shown _
  rw [FromEntry.value_ofShape, FromEntry.made?, isName, item.name.not_placeholder,
    item.aliasName_shape, allowed]
  simp only [Bool.false_eq_true, if_false, if_true, item.schema_shape, item.nameOf_name]
  rfl

/-! ## The place of an entry -/

/-- A word that says what kind of join follows, in any case. -/
structure Modifier where
  spelling : String
  isModifier : Word.isJoinModifier (Bytes.ofString spelling) = true

/-- The bytes of a modifier. -/
def Modifier.bytes (modifier : Modifier) : Bytes := Bytes.ofString modifier.spelling

/-- Modifiers with a blank in front of each. -/
def modifierBytes (modifiers : List Modifier) : Bytes :=
  modifiers.flatMap fun modifier => Byte.space :: modifier.bytes

/-- A modifier is spelled with letters. -/
theorem isLetter_of_isJoinModifier {word : Bytes} (isModifier : Word.isJoinModifier word = true) :
    ∀ byte ∈ word, Byte.isLetter byte = true := by
  obtain ⟨modifier, member, same⟩ := List.any_eq_true.mp isModifier
  have checked : Word.joinModifiers.all (fun modifier =>
      (Bytes.ofString modifier).all Byte.isLetter) = true := by decide
  have letters := List.all_eq_true.mp (List.all_eq_true.mp checked modifier member)
  exact Keyword.isLetter_of_mem_spelled (beq_iff_eq.mp same) letters

/-- A modifier is a word with at least one letter. -/
theorem Modifier.ne_nil (modifier : Modifier) : modifier.bytes ≠ [] := by
  obtain ⟨word, member, same⟩ := List.any_eq_true.mp modifier.isModifier
  have nonempty : ∀ word ∈ Word.joinModifiers, Bytes.ofString word ≠ [] := by decide
  intro isNil
  rw [Modifier.bytes] at isNil
  rw [isNil, sameIgnoringCase, List.map_nil, beq_iff_eq, eq_comm, List.map_eq_nil_iff] at same
  exact nonempty word member same

/-- A letter is not blank. -/
theorem not_isBlank_of_isLetter {byte : UInt8} (letter : Byte.isLetter byte = true) :
    Byte.isBlank byte = false := by
  rw [Bool.eq_false_iff]
  intro blank
  rcases Byte.blank_eq blank with rfl | rfl | rfl | rfl | rfl <;> exact absurd letter (by decide)

/-- No byte of a modifier is blank, so a modifier is one run. -/
theorem Modifier.solid (modifier : Modifier) : ∀ byte ∈ modifier.bytes, Byte.isBlank byte = false :=
  fun byte member => not_isBlank_of_isLetter (isLetter_of_isJoinModifier modifier.isModifier byte member)

open FromEntry (runs runs_append_blank runs_solid)

/-- Behind modifiers come the runs of the modifiers. -/
theorem exists_runs_modifiers (offset : Nat) (entry : Bytes) (modifiers : List Modifier) :
    ∃ behind, runs offset (entry ++ modifierBytes modifiers) = runs offset entry ++ behind ∧
      ∀ run ∈ behind, Word.isJoinModifier run.2 = true := by
  induction modifiers generalizing entry with
  | nil =>
    refine ⟨[], ?_, fun run member => absurd member List.not_mem_nil⟩
    rw [modifierBytes, List.flatMap_nil, List.append_nil, List.append_nil]
  | cons modifier others inductionHypothesis =>
    obtain ⟨behind, isRuns, areModifiers⟩ :=
      inductionHypothesis (entry ++ Byte.space :: modifier.bytes)
    have one := runs_append_blank offset entry (by decide : Byte.isBlank Byte.space = true)
      modifier.bytes
    rw [runs_solid _ modifier.ne_nil modifier.solid] at one
    refine ⟨(offset + entry.length + 1, modifier.bytes) :: behind, ?_, ?_⟩
    · have whole : entry ++ modifierBytes (modifier :: others) =
          entry ++ Byte.space :: modifier.bytes ++ modifierBytes others := by
        simp only [modifierBytes, List.flatMap_cons, List.append_assoc]
      rw [whole, isRuns, one, List.append_assoc]
      rfl
    · intro run member
      cases member with
      | head => exact modifier.isModifier
      | tail _ member => exact areModifiers run member

/-- Code that ends with something other than a blank ends with a run. -/
theorem exists_last_run {bytes : Bytes} (solid : SolidEnds Byte.isBlank bytes) :
    ∃ before run, bytes = before ++ run ∧ run ≠ [] ∧ (∀ byte ∈ run, Byte.isBlank byte = false) ∧
      ∀ byte ∈ before.getLast?, Byte.isBlank byte = true := by
  obtain ⟨front, last, rfl, lastSolid⟩ := solid.last
  have split := List.takeWhile_append_dropWhile (p := fun byte => !Byte.isBlank byte)
    (l := (front ++ [last]).reverse)
  refine ⟨((front ++ [last]).reverse.dropWhile fun byte => !Byte.isBlank byte).reverse,
    ((front ++ [last]).reverse.takeWhile fun byte => !Byte.isBlank byte).reverse, ?_, ?_, ?_, ?_⟩
  · rw [← List.reverse_append, split, List.reverse_reverse]
  · rw [List.reverse_append, List.reverse_singleton, List.singleton_append,
      List.takeWhile_cons_of_pos (by simp [lastSolid])]
    simp
  · intro byte member
    have kept := List.mem_takeWhile_imp (List.mem_reverse.mp member)
    simpa using kept
  · intro byte isLast
    rw [List.getLast?_reverse] at isLast
    have stops := List.head?_dropWhile_not (fun byte => !Byte.isBlank byte) (front ++ [last]).reverse
    rw [Option.mem_def.mp isLast] at stops
    simpa using stops

/-- The last run of an item is not a word that says what kind of join follows: it ends with a quote,
or it has a dot, or it is a name. -/
theorem Item.not_isJoinModifier_last (item : Item) {before run : Bytes}
    (isItem : encoded (item.spell Name.shown) = before ++ run) (nonempty : run ≠ [])
    (blankBefore : ∀ byte ∈ before.getLast?, Byte.isBlank byte = true) :
    Word.isJoinModifier run = false := by
  rw [Bool.eq_false_iff]
  intro isModifier
  have letters := isLetter_of_isJoinModifier isModifier
  obtain ⟨front, ended, separated⟩ := item.exists_last Name.shown
  rw [ended, encoded_append] at isItem
  generalize item.label = name at isItem
  cases name with
  | quoted content =>
    have lastByte : (encoded front ++ encoded (Name.quoted content).shown).getLast? =
        some Byte.doubleQuote := by
      rw [Name.shown, encoded_append, ← List.append_assoc, List.getLast?_append]
      rfl
    rw [isItem, List.getLast?_append_of_ne_nil _ nonempty] at lastByte
    exact absurd (letters _ (List.mem_of_getLast? lastByte)) (by decide)
  | plain name =>
    have notName : run ≠ encoded name.spelling.toList := by
      rintro rfl
      obtain ⟨word, member, same⟩ := List.any_eq_true.mp isModifier
      have reserved : ∀ word ∈ Word.joinModifiers, word ∈ Word.reserved := by decide
      rw [name.not_sameIgnoringCase (reserved word member)] at same
      cases same
    -- The run begins with the name, inside it, or in front of it.
    rcases List.append_eq_append_iff.mp isItem with ⟨more, isBefore, isName⟩ | ⟨more, isFront, isRun⟩
    · cases more using List.reverseRecOn with
      | nil => exact notName isName.symm
      | append_singleton others byte =>
        have blank : Byte.isBlank byte = true := by
          apply blankBefore
          rw [isBefore, ← List.append_assoc, List.getLast?_concat]
          rfl
        have isWord := name.isWordByte_of_mem byte (by
          rw [Name.shown] at isName
          simp [isName])
        rw [Byte.not_word_of_blank blank] at isWord
        cases isWord
    · cases more using List.reverseRecOn with
      | nil => exact notName isRun
      | append_singleton others byte =>
        have isLast : (encoded front).getLast? = some byte := by
          rw [isFront, ← List.append_assoc, List.getLast?_concat]
        have letter := letters byte (by simp [isRun])
        cases front using List.reverseRecOn with
        | nil => cases isLast
        | append_singleton previous character =>
          obtain ⟨mark, isByte, isMark, _⟩ :=
            exists_mark_of_isSeparator (separated character (by rw [List.getLast?_concat]; rfl))
          rw [encoded_append, isByte, List.getLast?_concat, Option.some.injEq] at isLast
          simp only [Keyword.isMark, isLast, Keyword.isWordByte_of_isLetter letter,
            Bool.not_true, Bool.false_and, Bool.false_eq_true] at isMark

/-- Without the modifiers behind it an item has its own length. -/
theorem Item.lengthWithoutModifiers? (item : Item) (modifiers : List Modifier) :
    FromEntry.lengthWithoutModifiers?
      (encoded (item.spell Name.shown) ++ modifierBytes modifiers) =
        some (encoded (item.spell Name.shown)).length := by
  obtain ⟨behind, isRuns, areModifiers⟩ :=
    exists_runs_modifiers 0 (encoded (item.spell Name.shown)) modifiers
  obtain ⟨before, run, isItem, nonempty, solid, blankBefore⟩ :=
    exists_last_run (solidEnds_encoded (item.solidEnds Name.solidEnds_shown))
  have notModifier := item.not_isJoinModifier_last isItem nonempty blankBefore
  have lastRun : ∃ earlier, runs 0 (encoded (item.spell Name.shown)) =
      earlier ++ [(before.length, run)] := by
    rw [isItem]
    cases before using List.reverseRecOn with
    | nil => exact ⟨[], runs_solid 0 nonempty solid⟩
    | append_singleton others blank =>
      have isBlank := blankBefore blank (by rw [List.getLast?_concat]; rfl)
      refine ⟨runs 0 others, ?_⟩
      rw [List.append_assoc, List.singleton_append, runs_append_blank 0 others isBlank,
        runs_solid _ nonempty solid, List.length_append, List.length_singleton, Nat.zero_add]
  obtain ⟨earlier, isEarlier⟩ := lastRun
  have reversed : ∀ run ∈ behind.reverse, Word.isJoinModifier run.2 = true :=
    fun run member => areModifiers run (List.mem_reverse.mp member)
  have dropped : (runs 0 (encoded (item.spell Name.shown) ++
      modifierBytes modifiers)).reverse.dropWhile (Word.isJoinModifier ·.2) =
        (before.length, run) :: earlier.reverse := by
    rw [isRuns, isEarlier, List.reverse_append, List.dropWhile_append_of_pos reversed,
      List.reverse_append, List.reverse_singleton, List.singleton_append,
      List.dropWhile_cons_of_neg (by simp [notModifier])]
  rw [FromEntry.lengthWithoutModifiers?, dropped]
  simp only [isItem, List.length_append]

/-- Modifiers are as good with the blank behind each of them. -/
theorem modifierBytes_append_space (modifiers : List Modifier) :
    modifierBytes modifiers ++ [Byte.space] =
      Byte.space :: modifiers.flatMap fun modifier => modifier.bytes ++ [Byte.space] := by
  induction modifiers with
  | nil => rfl
  | cons modifier others inductionHypothesis =>
    have one : modifierBytes (modifier :: others) =
        Byte.space :: (modifier.bytes ++ modifierBytes others) := rfl
    rw [one, List.cons_append, List.append_assoc, inductionHypothesis, List.flatMap_cons,
      List.append_assoc, List.singleton_append]

/-- Keywords that are met neither in an item nor in the modifiers of a join. -/
structure UnmetInEntry (keywords : List Keyword) : Prop extends Unmet keywords where
  solid : ∀ keyword ∈ keywords, keyword.isSolid = true
  notModifier : ∀ keyword ∈ keywords, ∀ word ∈ Word.joinModifiers,
    keyword.isForeign (Bytes.ofString word) = true

/-- No keyword of a condition is met inside a written entry. -/
theorem unmetInEntry_conditions : UnmetInEntry FromEntry.conditions :=
  ⟨⟨by decide, by decide, by decide⟩, by decide, by decide⟩

variable {keywords : List Keyword}

/-- A modifier is foreign to such keywords, in whatever case it is written. -/
theorem Modifier.isForeign (unmet : UnmetInEntry keywords) (modifier : Modifier) :
    ∀ keyword ∈ keywords, keyword.isForeign modifier.bytes = true := by
  intro keyword member
  obtain ⟨word, isWord, same⟩ := List.any_eq_true.mp modifier.isModifier
  have foreign := unmet.notModifier keyword member word isWord
  rw [sameIgnoringCase, beq_iff_eq] at same
  simpa only [Keyword.isForeign, sameIgnoringCase, Modifier.bytes, same] using foreign

/-- A search passes over an entry, the modifiers behind it and a blank. -/
theorem Item.silent_entry (unmet : UnmetInEntry keywords) (item : Item)
    (modifiers : List Modifier) :
    Keyword.Silent keywords
      (encoded (item.spell Name.shown) ++ (modifierBytes modifiers ++ [Byte.space])) := by
  have modifiersSilent : Keyword.Silent keywords
      (modifiers.flatMap fun modifier => modifier.bytes ++ [Byte.space]) := by
    induction modifiers with
    | nil => exact Keyword.silent_nil
    | cons modifier others inductionHypothesis =>
      have isWord : ∀ byte ∈ modifier.bytes, Byte.isWordByte byte = true := fun byte member =>
        Keyword.isWordByte_of_isLetter (isLetter_of_isJoinModifier modifier.isModifier byte member)
      have one : Keyword.Silent keywords (modifier.bytes ++ [Byte.space]) :=
        Keyword.silent_word unmet.orderly modifier.ne_nil isWord (modifier.isForeign unmet)
          (by decide)
      exact one.append inductionHypothesis
  have itemSilent := item.silent unmet.toUnmet (by decide : isSeparator ' ' = true)
  have blank : encoded [' '] = [Byte.space] := by decide
  rw [encoded_append, blank] at itemSilent
  have whole := itemSilent.append modifiersSilent
  rw [modifierBytes_append_space]
  rwa [List.append_assoc, List.singleton_append] at whole

/-- An item where it stands in a FROM clause: behind blanks, and in front of the modifiers of a join
and of blanks. No word reaches over its ends. -/
structure EntryAt (text code : Bytes) (span : Span) (item : Item) (lead : Bytes)
    (modifiers : List Modifier) (trail : Bytes) : Prop where
  cut : Cut text code span
    (lead ++ ((encoded (item.spell Name.written) ++ modifierBytes modifiers) ++ trail))
    (lead ++ ((encoded (item.spell Name.shown) ++ modifierBytes modifiers) ++ trail))
  blankLead : ∀ byte ∈ lead, Byte.isBlank byte = true
  blankTrail : ∀ byte ∈ trail, Byte.isBlank byte = true
  before : lead = [] → (code.take span.start).getLast?.any Byte.isWordByte = false
  behind : (modifierBytes modifiers ++ (trail ++ code.drop span.stop)).head?.any Byte.isWordByte =
    false

namespace EntryAt

variable {text code lead trail : Bytes} {span : Span} {item : Item} {modifiers : List Modifier}

/-- No join condition is found. -/
theorem find?_conditions (entry : EntryAt text code span item lead modifiers trail) :
    Keyword.find? (code.extract 0 span.stop) span.start FromEntry.conditions = none := by
  have unmet := unmetInEntry_conditions
  obtain ⟨front, back, _, starts, isFront, upToEnd, _⟩ := entry.cut.exists_around
  have outside : lead = [] → front.getLast?.any Byte.isWordByte = false := by
    intro noLead
    have before := entry.before noLead
    rwa [isFront] at before
  have blank := Byte.isBlank_of_mem_space
  rw [Window.extract_zero, upToEnd, ← starts, Keyword.find?_append,
    Keyword.searchFrom_blank unmet.solid _ _ _ lead outside entry.blankLead,
    Keyword.searchFrom_append_blank unmet.solid entry.blankTrail,
    ← Keyword.searchFrom_append_blank unmet.solid blank, List.append_assoc,
    ← List.append_nil (encoded (item.spell Name.shown) ++ (modifierBytes modifiers ++ [Byte.space])),
    item.silent_entry unmet modifiers]
  rfl

/-- An entry with modifiers behind it is solid at both ends. -/
theorem solidEnds (entry : EntryAt text code span item lead modifiers trail) :
    SolidEnds Byte.isBlank (encoded (item.spell Name.shown) ++ modifierBytes modifiers) := by
  have itemSolid := solidEnds_encoded (item.solidEnds Name.solidEnds_shown)
  cases modifiers using List.reverseRecOn with
  | nil =>
    rw [modifierBytes, List.flatMap_nil, List.append_nil]
    exact itemSolid
  | append_singleton others last =>
    have lastSolid := SolidEnds.of_solid last.ne_nil last.solid
    have whole : modifierBytes (others ++ [last]) =
        (modifierBytes others ++ [Byte.space]) ++ last.bytes := by
      simp only [modifierBytes, List.flatMap_append, List.flatMap_singleton, List.append_assoc,
        List.singleton_append]
    rw [whole]
    exact itemSolid.join _ lastSolid

/-- An entry does not begin with `LATERAL`. -/
theorem not_lateral (entry : EntryAt text code span item lead modifiers trail) :
    Word.nextIs code (span.start + lead.length) "LATERAL" = false := by
  obtain ⟨front, back, isCode, starts, _, _, isBack⟩ := entry.cut.exists_around
  have behind := entry.behind
  have ahead : code.drop (span.start + lead.length) = encoded (item.spell Name.shown) ++
      (modifierBytes modifiers ++ (trail ++ back)) := by
    rw [isCode, ← starts, ← List.length_append]
    simp only [List.append_assoc]
    rw [← List.append_assoc front lead, List.drop_left]
  obtain ⟨first, rest, isFirst, firstSolid⟩ :=
    (solidEnds_encoded (item.solidEnds Name.solidEnds_shown)).first
  have noBlanks : (encoded (item.spell Name.shown) ++
      (modifierBytes modifiers ++ (trail ++ back))).dropWhile Byte.isBlank =
        encoded (item.spell Name.shown) ++ (modifierBytes modifiers ++ (trail ++ back)) := by
    rw [isFirst, List.cons_append, List.dropWhile_cons_of_neg (by simp [firstSolid])]
  rw [isBack] at behind
  rw [Word.nextIs, Option.any_eq_false]
  intro word next
  rw [Word.is, Word.spelling_of_next? next, ahead, noBlanks,
    item.not_reserved_first behind (by decide)]

/-- An entry is found where its item stands. -/
theorem place? (entry : EntryAt text code span item lead modifiers trail) :
    FromEntry.place? code span = some ⟨span.start + lead.length,
      span.start + lead.length + (encoded (item.spell Name.shown)).length⟩ := by
  have pieces : (lead ++ ((encoded (item.spell Name.shown) ++ modifierBytes modifiers) ++
      trail)).length = lead.length +
        ((encoded (item.spell Name.shown) ++ modifierBytes modifiers).length + trail.length) := by
    rw [List.length_append, List.length_append]
  have trimmed := value_trim_solid span entry.cut.extract_code (by rw [entry.cut.stop, pieces])
    entry.blankLead entry.blankTrail entry.solidEnds
  have sameLengths : (encoded (item.spell Name.written) ++ modifierBytes modifiers).length =
      (encoded (item.spell Name.shown) ++ modifierBytes modifiers).length := by
    rw [List.length_append, List.length_append, item.length_written]
  have wholeCode := (entry.cut.part rfl sameLengths).extract_code
  have nonempty : 0 < (encoded (item.spell Name.shown)).length := by
    obtain ⟨first, rest, isFirst, _⟩ :=
      (solidEnds_encoded (item.solidEnds Name.solidEnds_shown)).first
    rw [isFirst, List.length_cons]
    omega
  have taken : Span.isEmpty ⟨span.start + lead.length,
      span.start + lead.length + (encoded (item.spell Name.shown)).length⟩ = false := by
    simp only [Span.isEmpty, Span.length, beq_eq_false_iff_ne]
    omega
  simp only [FromEntry.place?, entry.find?_conditions, Option.map_none, Option.getD_none]
  rw [trimmed]
  simp only [wholeCode, item.lengthWithoutModifiers?, Option.bind_some, entry.not_lateral,
    Bool.false_eq_true, if_false, taken]

/-- An entry is read as the reference that its item was written for. -/
theorem value_readAt (entry : EntryAt text code span item lead modifiers trail) :
    (FromEntry.readAt text code span).value = some ⟨item.reference, none⟩ := by
  have cut := entry.cut
  rw [List.append_assoc, List.append_assoc] at cut
  have itemCut := cut.part rfl item.length_written
  have isText := itemCut.extract_text
  have isCode := itemCut.extract_code
  rw [FromEntry.value_readAt text cut.within, entry.place?, Option.bind_some, FromEntry.entryAt?,
    FromEntry.shapeAt?, isText, isCode, decode_encoded, item.read?_shown, Option.bind_some,
    item.value_ofShape]

end EntryAt

end QueryScope.Written

import Mathlib.Data.List.Basic
import QueryScope.Sql.FromEntry
import QueryScope.Proofs.Quotes

/-!
# Where the placeholder of an entry stands

The reader of an entry works on characters. What it passes over in front of a placeholder is a path:
identifiers, dots and blanks. In legible code none of these holds a parenthesis, because a quoted
identifier has only blanks inside. So the placeholder that makes an entry a derived table is the
first parenthesis of the entry.
-/

namespace QueryScope.EntryShape

open Quotes

/-- The bytes of characters. -/
abbrev encoded (characters : List Char) : Bytes := characters.flatMap String.utf8EncodeChar

/-- A byte of ASCII comes from its own character. -/
theorem mem_of_mem_encoded {characters : List Char} {byte : UInt8} (ascii : byte < 0x80)
    (member : byte ∈ encoded characters) : Char.ofNat byte.toNat ∈ characters := by
  obtain ⟨character, isCharacter, isByte⟩ := List.mem_flatMap.mp member
  rcases Bytes.utf8EncodeChar_ascii_or_wide character with ⟨only, single, _⟩ | wide
  · rw [single, List.mem_singleton] at isByte
    subst isByte
    have decoded := Bytes.decode_utf8EncodeChar_append character []
    rw [single, List.singleton_append, Bytes.decode_ascii ascii, Bytes.decode,
      List.cons.injEq] at decoded
    rwa [decoded.1]
  · exact absurd ascii (UInt8.not_lt.mpr (wide byte isByte))

theorem encoded_append (first second : List Char) :
    encoded (first ++ second) = encoded first ++ encoded second := List.flatMap_append

theorem encoded_cons (character : Char) (others : List Char) :
    encoded (character :: others) = String.utf8EncodeChar character ++ encoded others := rfl

/-- A byte of ASCII belongs to its own character alone. -/
theorem eq_of_mem_utf8EncodeChar {character : Char} {byte : UInt8} (ascii : byte < 0x80)
    (member : byte ∈ String.utf8EncodeChar character) : character = Char.ofNat byte.toNat := by
  have inBytes : byte ∈ encoded [character] := by
    rwa [encoded, List.flatMap_singleton]
  exact (List.mem_singleton.mp (mem_of_mem_encoded ascii inBytes)).symm

/-- A part of an entry that holds no parenthesis and leaves no quote open. -/
structure Passed (used : List Char) : Prop where
  noParenthesis : '(' ∉ used
  closed : openBehind none (encoded used) = none

namespace Passed

theorem nil : Passed [] := ⟨List.not_mem_nil, rfl⟩

/-- One part after another. -/
theorem append {first second : List Char} (front : Passed first) (back : Passed second) :
    Passed (first ++ second) := by
  constructor
  · rw [List.mem_append, not_or]
    exact ⟨front.noParenthesis, back.noParenthesis⟩
  · rw [encoded, List.flatMap_append, openBehind_append, front.closed]
    exact back.closed

/-- Characters that are neither quotes nor parentheses. -/
theorem of_plain {used : List Char}
    (plain : ∀ character ∈ used, character ≠ '(' ∧ character ≠ '"' ∧ character ≠ '\'') :
    Passed used := by
  refine ⟨fun member => (plain _ member).1 rfl, openBehind_of_plain ?_⟩
  intro byte member
  rw [isQuote, Bool.or_eq_false_iff, beq_eq_false_iff_ne, beq_eq_false_iff_ne]
  constructor
  · rintro rfl
    exact (plain _ (mem_of_mem_encoded (by decide) member)).2.2 rfl
  · rintro rfl
    exact (plain _ (mem_of_mem_encoded (by decide) member)).2.1 rfl

/-- What follows such a part is hollow when the whole is. -/
theorem hollow_rest {used rest : List Char} (passed : Passed used)
    (hollow : Hollow none (encoded (used ++ rest))) : Hollow none (encoded rest) := by
  rw [encoded, List.flatMap_append, hollow_append, passed.closed] at hollow
  exact hollow.2

end Passed

/-- Bytes other than the quote that is open leave it open. -/
theorem openBehind_of_ne {quote : UInt8} {bytes : Bytes}
    (different : ∀ byte ∈ bytes, byte ≠ quote) :
    openBehind (some quote) bytes = some quote := by
  induction bytes with
  | nil => rfl
  | cons byte rest inductionHypothesis =>
    rw [openBehind, openAfter, if_neg (different byte List.mem_cons_self)]
    exact inductionHypothesis fun other member => different other (List.mem_cons_of_mem _ member)

/-- The inside of a quoted identifier holds no parenthesis, and the quote stays open. -/
theorem quoted_inside {characters : List Char}
    (hollow : Hollow (some Byte.doubleQuote) (encoded characters)) :
    '(' ∉ characters.takeWhile (· != '"') ∧
      openBehind (some Byte.doubleQuote) (encoded (characters.takeWhile (· != '"'))) =
        some Byte.doubleQuote := by
  constructor
  · induction characters with
    | nil => exact List.not_mem_nil
    | cons character others inductionHypothesis =>
      by_cases isQuote : character = '"'
      · subst isQuote
        exact List.not_mem_nil
      · have goesOn : openBehind (some Byte.doubleQuote) (encoded [character]) =
            some Byte.doubleQuote := by
          apply openBehind_of_ne
          rintro byte member rfl
          exact isQuote (List.mem_singleton.mp (mem_of_mem_encoded (by decide) member)).symm
        rw [← List.singleton_append, encoded, List.flatMap_append, hollow_append, goesOn] at hollow
        rw [List.takeWhile_cons_of_pos (by simpa using isQuote), List.mem_cons, not_or]
        refine ⟨?_, inductionHypothesis hollow.2⟩
        rintro rfl
        rcases hollow.1.1 _ rfl with same | blank
        · cases same
        · cases blank
  · apply openBehind_of_ne
    rintro byte member rfl
    have isQuote := List.mem_takeWhile_imp (mem_of_mem_encoded (by decide) member)
    cases isQuote

/-- A quoted identifier holds no parenthesis and closes its quotes. -/
theorem passed_quoted {characters : List Char}
    (hollow : Hollow (some Byte.doubleQuote) (encoded characters)) :
    Passed ('"' :: characters.takeWhile (· != '"') ++ ['"']) := by
  obtain ⟨noParenthesis, stays⟩ := quoted_inside hollow
  constructor
  · simp [noParenthesis]
  · have spelled : encoded ('"' :: characters.takeWhile (· != '"') ++ ['"']) =
        Byte.doubleQuote ::
          (encoded (characters.takeWhile (· != '"')) ++ [Byte.doubleQuote]) := by
      rw [encoded, List.flatMap_append, List.flatMap_cons]
      rfl
    rw [spelled, openBehind, openAfter_quote rfl, openBehind_append, stays]
    rfl

/-- A letter of a bare name is neither a quote nor a parenthesis. -/
theorem plain_of_continuesName {letters : Letters} {character : Char}
    (continues : Identifier.continuesName letters character = true) :
    character ≠ '(' ∧ character ≠ '"' ∧ character ≠ '\'' := by
  refine ⟨?_, ?_, ?_⟩
  all_goals
    rintro rfl
    cases letters <;> cases continues

/-- Neither is a blank. -/
theorem plain_of_isBlank {character : Char} (blank : Text.isBlank character = true) :
    character ≠ '(' ∧ character ≠ '"' ∧ character ≠ '\'' := by
  refine ⟨?_, ?_, ?_⟩
  all_goals
    rintro rfl
    cases blank

/-- An identifier is passed over. -/
theorem read?_passed {letters : Letters} {characters name rest : List Char}
    (hollow : Hollow none (encoded characters))
    (reading : Identifier.read? letters characters = some (name, rest)) :
    characters = name ++ rest ∧ Passed name := by
  cases characters with
  | nil => cases reading
  | cons first others =>
    simp only [Identifier.read?] at reading
    split at reading
    · rename_i isQuote
      obtain rfl := beq_iff_eq.mp isQuote
      split at reading
      · cases reading
      · rename_i quote after remains
        cases reading
        have quoteAgain : quote = '"' := by
          have found := List.head?_dropWhile_not (fun character : Char => character != '"') others
          rw [remains] at found
          simpa using found
        subst quoteAgain
        have whole := List.takeWhile_append_dropWhile (p := (· != '"')) (l := others)
        rw [remains] at whole
        exact ⟨by simp [whole], passed_quoted hollow.2⟩
    · split at reading
      · rename_i notQuote starts
        cases reading
        refine ⟨by simp, .of_plain ?_⟩
        intro character member
        rcases List.mem_cons.mp member with rfl | further
        · have continues : Identifier.continuesName letters character = true := by
            rw [Identifier.continuesName, starts]
            rfl
          exact plain_of_continuesName continues
        · exact plain_of_continuesName (List.mem_takeWhile_imp further)
      · cases reading

/-- What separates two identifiers of a path: a dot with blanks around it. -/
structure Gap (gap : List Char) : Prop where
  parts : ∃ before behind, gap = before ++ '.' :: behind ∧
    (∀ character ∈ before, Text.isBlank character = true) ∧
    ∀ character ∈ behind, Text.isBlank character = true

/-- Skipping a dot skips such a separation. -/
theorem exists_gap_of_afterDot? {characters rest : List Char}
    (skipped : Identifier.afterDot? characters = some rest) :
    ∃ gap, characters = gap ++ rest ∧ Gap gap := by
  simp only [Identifier.afterDot?] at skipped
  split at skipped
  · rename_i behind remains
    cases skipped
    refine ⟨characters.takeWhile Text.isBlank ++ '.' :: behind.takeWhile Text.isBlank, ?_,
      ⟨_, _, rfl, fun _ => List.mem_takeWhile_imp, fun _ => List.mem_takeWhile_imp⟩⟩
    rw [List.append_assoc, List.cons_append, List.takeWhile_append_dropWhile, ← remains,
      List.takeWhile_append_dropWhile]
  · cases skipped

/-- A dot and the blanks around it are passed over. -/
theorem Gap.passed {gap : List Char} (isGap : Gap gap) : Passed gap := by
  obtain ⟨before, behind, rfl, blankBefore, blankBehind⟩ := isGap.parts
  apply Passed.of_plain
  intro character member
  rw [List.mem_append, List.mem_cons] at member
  rcases member with front | rfl | back
  · exact plain_of_isBlank (blankBefore character front)
  · decide
  · exact plain_of_isBlank (blankBehind character back)

/-- What a reader of paths tells about the characters: it has passed over those in front of the
rest, and none of the identifiers holds a parenthesis. -/
structure PathRead (characters : List Char) (path : List Fragment) (rest : List Char) : Prop where
  passed : ∃ used, characters = used ++ rest ∧ Passed used
  names : ∀ fragment ∈ path, '(' ∉ fragment.characters

/-- A path is passed over. -/
theorem readPath_passed (letters : Letters) (offset : Nat) {characters : List Char}
    (hollow : Hollow none (encoded characters)) :
    PathRead characters (Identifier.readPath letters offset characters).1
      (Identifier.readPath letters offset characters).2 := by
  fun_induction Identifier.readPath letters offset characters with
  | case1 => exact ⟨⟨[], rfl, .nil⟩, by rintro fragment ⟨⟩⟩
  | case2 offset characters name rest reading =>
    obtain ⟨whole, passed⟩ := read?_passed hollow reading
    refine ⟨⟨name, whole, passed⟩, ?_⟩
    intro fragment member
    rw [List.mem_singleton.mp member]
    exact passed.noParenthesis
  | case3 offset characters name rest reading =>
    obtain ⟨whole, passed⟩ := read?_passed hollow reading
    refine ⟨⟨name, whole, passed⟩, ?_⟩
    intro fragment member
    rw [List.mem_singleton.mp member]
    exact passed.noParenthesis
  | case4 offset characters name rest reading ahead dotted skippedWidth next others after further
      inductionHypothesis =>
    obtain ⟨rfl, passed⟩ := read?_passed hollow reading
    obtain ⟨dot, rfl, isGap⟩ := exists_gap_of_afterDot? dotted
    have behind := inductionHypothesis (isGap.passed.hollow_rest (passed.hollow_rest hollow))
    rw [further] at behind
    obtain ⟨⟨used, rfl, passedPath⟩, names⟩ := behind
    refine ⟨⟨name ++ (dot ++ used), by simp only [List.append_assoc],
      passed.append (isGap.passed.append passedPath)⟩, ?_⟩
    intro fragment member
    rcases List.mem_cons.mp member with rfl | later
    · exact passed.noParenthesis
    · exact names fragment later

/-- Characters take as many bytes as their width says. -/
theorem length_encoded (characters : List Char) :
    (encoded characters).length = Bytes.width characters := by
  induction characters with
  | nil => rfl
  | cons character others inductionHypothesis =>
    rw [encoded, List.flatMap_cons, List.length_append, inductionHypothesis,
      String.length_utf8EncodeChar, Bytes.width]

/-- The widths of parts add up. -/
theorem width_append (first second : List Char) :
    Bytes.width (first ++ second) = Bytes.width first + Bytes.width second := by
  rw [← length_encoded, ← length_encoded, ← length_encoded, encoded, List.flatMap_append,
    List.length_append]

/-- Every character takes a byte at least. -/
theorem width_pos {characters : List Char} (something : characters ≠ []) :
    0 < Bytes.width characters := by
  cases characters with
  | nil => exact absurd rfl something
  | cons character others =>
    rw [Bytes.width]
    exact Nat.add_pos_left character.utf8Size_pos _

/-- A character whose capital form is of ASCII is of ASCII itself. -/
theorem ascii_of_toUpper {character : Char} (ascii : character.toUpper.toNat < 128) :
    character.toNat < 128 := by
  delta Char.toUpper at ascii
  split at ascii
  · rename_i small
    have bound := UInt32.le_iff_toNat_le.mp small.2
    exact Nat.lt_of_le_of_lt bound (by decide)
  · exact ascii

/-- The capital form of a character of ASCII is that of its byte. -/
theorem map_upper_utf8EncodeChar {character : Char} (ascii : character.toNat < 128) :
    (String.utf8EncodeChar character).map Byte.upper = String.utf8EncodeChar character.toUpper := by
  have each : ∀ point < 128, (String.utf8EncodeChar (Char.ofNat point)).map Byte.upper =
      String.utf8EncodeChar (Char.ofNat point).toUpper := by decide
  have one := each character.toNat ascii
  rwa [Char.ofNat_toNat] at one

/-- Characters that spell the placeholder in any case do so in bytes. -/
theorem map_upper_encoded {characters : List Char}
    (same : Text.sameName (String.ofList characters) Placeholder.text = true) :
    (encoded characters).map Byte.upper = Placeholder.bytes := by
  have capitals : characters.map Char.toUpper = Placeholder.text.toList := by
    rw [Text.sameName, Text.upper, Text.upper, beq_iff_eq, String.ofList_inj,
      String.toList_ofList] at same
    rw [same]
    decide
  have ascii : ∀ character ∈ characters, character.toNat < 128 := by
    have expected : Placeholder.text.toList.all (·.toNat < 128) = true := by decide
    intro character member
    apply ascii_of_toUpper
    apply of_decide_eq_true
    apply List.all_eq_true.mp expected
    rw [← capitals]
    exact List.mem_map_of_mem member
  have bytes : Placeholder.bytes = encoded (characters.map Char.toUpper) := by
    rw [capitals]
    rfl
  rw [bytes, encoded, encoded, List.map_flatMap, List.flatMap_map]
  exact List.flatMap_congr fun character member => map_upper_utf8EncodeChar (ascii character member)

/-- Characters without a parenthesis do not spell the placeholder. -/
theorem not_placeholder {characters : List Char} (noParenthesis : '(' ∉ characters) :
    Text.sameName (String.ofList characters) Placeholder.text = false := by
  rw [Bool.eq_false_iff]
  intro same
  have bytes := map_upper_encoded same
  have first : Byte.openParen ∈ (encoded characters).map Byte.upper := by
    rw [bytes]
    decide
  obtain ⟨byte, member, isParenthesis⟩ := List.mem_map.mp first
  rcases Byte.eq_or_eq_of_upper_eq isParenthesis with rfl | rfl
  · exact noParenthesis (mem_of_mem_encoded (by decide) member)
  · exact absurd isParenthesis (by decide)

/-- Where the placeholder of an entry stands: behind characters without a parenthesis. -/
structure PlaceholderAt (characters : List Char) (name : Fragment) : Prop where
  split : ∃ used after, characters = used ++ (name.characters ++ after) ∧ '(' ∉ used ∧
    name.offset = (encoded used).length
  spelled : (encoded name.characters).map Byte.upper = Placeholder.bytes

/-- What the reader of placeholders takes is what the characters begin with. -/
theorem append_of_read? {characters placeholder after : List Char}
    (reading : Placeholder.read? characters = some (placeholder, after)) :
    characters = placeholder ++ after := by
  simp only [Placeholder.read?, Option.ite_none_right_eq_some, Option.some.injEq,
    Prod.mk.injEq] at reading
  obtain ⟨_, rfl, rfl⟩ := reading
  exact (List.take_append_drop _ _).symm

/-- It takes as many characters as the placeholder has, each equal to one of them in any case. -/
theorem foldsTo_of_read? {characters placeholder after : List Char}
    (reading : Placeholder.read? characters = some (placeholder, after)) :
    placeholder.length = Placeholder.text.toList.length ∧
      ∀ character ∈ placeholder, ∃ expected ∈ Placeholder.text.toList,
        Letters.foldsTo expected character = true := by
  simp only [Placeholder.read?, Option.ite_none_right_eq_some, Option.some.injEq,
    Prod.mk.injEq, Bool.and_eq_true, beq_iff_eq] at reading
  obtain ⟨⟨sameLength, spelled⟩, rfl, _⟩ := reading
  refine ⟨sameLength, ?_⟩
  intro character member
  rw [← List.map_snd_zip (Nat.le_of_eq sameLength)] at member
  obtain ⟨⟨expected, other⟩, paired, rfl⟩ := List.mem_map.mp member
  exact ⟨expected, (List.of_mem_zip paired).1, List.all_eq_true.mp spelled _ paired⟩

/-- The two ways to read the shape of an entry: its name is a placeholder, at the beginning or behind
the path and a dot, or else it is the last identifier of the path. -/
theorem shape_cases {characters : List Char} {shape : FromEntry.Shape}
    (shaped : FromEntry.Shape.read? characters = some shape) :
    let path := (Identifier.readPath .folded 0 characters).1
    let rest := (Identifier.readPath .folded 0 characters).2
    (∃ gap ahead placeholder after, rest = gap ++ ahead ∧ (gap = [] ∨ Gap gap) ∧
      Placeholder.read? ahead = some (placeholder, after) ∧
      shape.qualifier = FromEntry.cover path ∧
      shape.name = ⟨Bytes.width characters - Bytes.width ahead, placeholder⟩ ∧
      shape.aliasName = FromEntry.readAlias? shape.name.stop after) ∨
    (path.getLast? = some shape.name ∧ shape.qualifier = FromEntry.cover path.dropLast ∧
      shape.aliasName = FromEntry.readAlias? shape.name.stop rest) := by
  simp only [FromEntry.Shape.read?] at shaped
  split at shaped
  · rename_i ahead placeholder after met
    obtain ⟨found, before, isPlaceholder⟩ := Option.bind_eq_some_iff.mp met
    obtain ⟨_, reading, same⟩ := Option.map_eq_some_iff.mp isPlaceholder
    cases same
    cases shaped
    refine .inl ?_
    split at before
    · cases before
      exact ⟨[], _, placeholder, after, rfl, .inl rfl, reading, rfl, rfl, rfl⟩
    · obtain ⟨gap, dotted, isGap⟩ := exists_gap_of_afterDot? before
      exact ⟨gap, ahead, placeholder, after, dotted, .inr isGap, reading, rfl, rfl, rfl⟩
  · obtain ⟨name, isLast, rfl⟩ := Option.map_eq_some_iff.mp shaped
    exact .inr ⟨isLast, rfl, rfl⟩

/-- Where the reader of entries met the name of a derived table, and where it looked for an alias. -/
theorem exists_split_of_derived {characters : List Char} {shape : FromEntry.Shape}
    (hollow : Hollow none (encoded characters))
    (shaped : FromEntry.Shape.read? characters = some shape)
    (derived : Text.sameName shape.name.text Placeholder.text = true) :
    ∃ used after, characters = used ++ (shape.name.characters ++ after) ∧ '(' ∉ used ∧
      shape.name.offset = (encoded used).length ∧
      shape.aliasName = FromEntry.readAlias? shape.name.stop after := by
  have path := readPath_passed .folded 0 hollow
  rcases shape_cases shaped with
    ⟨gap, ahead, placeholder, after, before, eitherGap, reading, _, isName, isAlias⟩ | ⟨isLast, _, _⟩
  · obtain ⟨used, whole, passed⟩ := path.passed
    rw [before, ← List.append_assoc] at whole
    have passedFront : Passed (used ++ gap) := by
      rcases eitherGap with rfl | isGap
      · exact passed.append .nil
      · exact passed.append isGap.passed
    refine ⟨used ++ gap, after, ?_, passedFront.noParenthesis, ?_, isAlias⟩
    all_goals rw [isName]
    · rw [← append_of_read? reading, whole]
    · simp only [← length_encoded]
      rw [whole, encoded, List.flatMap_append, List.length_append, Nat.add_sub_cancel]
  · have noParenthesis := path.names shape.name (List.mem_of_getLast? isLast)
    rw [Fragment.text, not_placeholder noParenthesis] at derived
    cases derived

/-- The name of a derived table is a placeholder that the reader met. -/
theorem placeholderAt_of_derived {characters : List Char} {shape : FromEntry.Shape}
    (hollow : Hollow none (encoded characters))
    (shaped : FromEntry.Shape.read? characters = some shape)
    (derived : Text.sameName shape.name.text Placeholder.text = true) :
    PlaceholderAt characters shape.name := by
  obtain ⟨used, after, split, noParenthesis, offset, _⟩ :=
    exists_split_of_derived hollow shaped derived
  exact ⟨⟨used, after, split, noParenthesis, offset⟩, map_upper_encoded derived⟩

end QueryScope.EntryShape

import Mathlib.Data.List.TakeWhile
import QueryScope.Json.Document
import QueryScope.Json.Value
import QueryScope.Proofs.DataTypes

/-!
# Documents read back

A value that is written is read as the document it stands for. Both ways to write a value, on one
line and over several, are of one form, `Writes`, in which blanks may stand around the parts of a
list or a record. The reader takes such a form whole and leaves what follows it, by induction on the
form; the characters that are written bound the nesting.
-/

namespace QueryScope.Json

mutual

/-- The document that a value stands for. A value has every number and every text in full, so its
document leaves none of them open. -/
def document : Json → Document
  | null => .null
  | boolean value => .boolean value
  | number value => .number (some value)
  | text value => .text (some value)
  | list elements => .list (elementDocuments elements)
  | record members => .record (memberDocuments members)

/-- The documents that the elements of a list stand for, in their order. It is `document` on each
element, written out so that the recursion follows the value. -/
def elementDocuments : List Json → List Document
  | [] => []
  | element :: others => element.document :: elementDocuments others

/-- The documents that the members of a record stand for, each with its name. No member is dropped,
also where two members share a name. -/
def memberDocuments : List (String × Json) → List (Option String × Document)
  | [] => []
  | (name, value) :: others => (some name, value.document) :: memberDocuments others

end

namespace Document

/-! ### Texts -/

/-- The characters below the space are written with four hexadecimal digits, of which the
first two are zeros, and those digits are read as the character's number. The thirty-two cases
are computed. -/
theorem hexCode?_control : ∀ point : Fin 32,
    let upper := Nat.digitChar (point.val / 16)
    let lower := Nat.digitChar (point.val % 16)
    List.replicate (4 - (Text.hexadecimal point.val).length) '0' ++ Text.hexadecimal point.val =
      ['0', '0', upper, lower] ∧ hexCode? '0' '0' upper lower = some point.val := by
  decide

/-- A backslash and one of the simple escapes is read as the character it stands for. The escape is
not `u`, so the reader does not look for four digits behind it. -/
theorem readText?_simple {escaped : Char} {point : Nat}
    (simple : simpleEscape? escaped = some point) (rest : List Char) :
    readText? ('\\' :: escaped :: rest) =
      (readText? rest).map fun (points, after) => (point :: points, after) := by
  have notCode : escaped ≠ 'u' := by
    rintro rfl
    simp [simpleEscape?] at simple
  rw [readText?, simple]
  · cases readText? rest <;> rfl
  · exact fun _ _ _ _ _ isCode => absurd isCode notCode

/-- A character that needs no escape is read as itself. It is not the quote that ends the text, nor
the backslash that begins an escape, nor a control character, which the reader refuses. -/
theorem readText?_plain {character : Char} (quote : character ≠ '"') (escape : character ≠ '\\')
    (visible : ¬ character.toNat < 0x20) (rest : List Char) :
    readText? (character :: rest) =
      (readText? rest).map fun (points, after) => (character.toNat :: points, after) := by
  rw [readText?, if_neg (by simp [visible, escape])]
  · exact quote
  · exact fun _ _ _ _ _ isEscape => absurd isEscape escape
  · exact fun _ _ isEscape => absurd isEscape escape

/-- An escaped character is read as the character. The three ways in which the writer spells a
character are covered: a simple escape, four digits, and the character itself. -/
theorem readText?_escapeCharacter (character : Char) (rest : List Char) :
    readText? (escapeCharacter character ++ rest) =
      (readText? rest).map fun (points, after) => (character.toNat :: points, after) := by
  unfold escapeCharacter
  split
  case h_8 quote escape _ _ _ _ _ =>
    split
    case isTrue control =>
      obtain ⟨digits, code⟩ := hexCode?_control ⟨character.toNat, control⟩
      dsimp only at digits code ⊢
      rw [List.append_assoc ['\\', 'u'], digits]
      simp only [List.cons_append, List.nil_append, readText?, code]
      cases readText? rest <;> rfl
    case isFalse visible => exact readText?_plain quote escape visible rest
  all_goals exact readText?_simple rfl rest

/-- A text is read up to its closing quote, which is taken too, and what follows is left. A quote
inside the text is escaped, so the first bare quote is the closing one. -/
theorem readText?_quoted (characters rest : List Char) :
    readText? (characters.flatMap escapeCharacter ++ '"' :: rest) =
      some (characters.map Char.toNat, rest) := by
  induction characters with
  | nil => simp [readText?]
  | cons character others read =>
    rw [List.flatMap_cons, List.append_assoc, readText?_escapeCharacter, read]
    rfl

/-- No character is one half of a surrogate pair. The reader puts two halves together, and so it
never joins numbers that come from characters. -/
theorem not_surrogate (character : Char) :
    isHighSurrogate character.toNat = false ∧ isLowSurrogate character.toNat = false := by
  have valid : character.toNat < 0xD800 ∨ 0xDFFF < character.toNat := by
    obtain low | high := character.valid
    · exact .inl low
    · exact .inr high.1
  simp only [isHighSurrogate, isLowSurrogate, decide_eq_false_iff_not]
  omega

/-- Characters are spelled by their numbers. None of them is half of a pair, so the numbers give the
characters back one by one. -/
theorem spell?_map_toNat (characters : List Char) :
    spell? (characters.map Char.toNat) = some characters := by
  induction characters with
  | nil => rfl
  | cons character others spelled =>
    obtain ⟨notHigh, notLow⟩ := not_surrogate character
    cases others with
    | nil => simp [spell?, notHigh, notLow]
    | cons next others =>
      simp only [List.map_cons] at spelled ⊢
      simp [spell?, notHigh, notLow, spelled]

/-! ### Numbers -/

/-- Only zero begins with a zero. The reader refuses a number of several digits that begins with
one, and by this no number is written so; the induction drops the last digit. -/
theorem eq_zero_of_head?_toDigits (number : Nat)
    (begins : (Nat.toDigits 10 number).head? = some '0') : number = 0 := by
  induction number using Nat.strong_induction_on with
  | _ number smaller =>
    rw [Nat.toDigits_eq_if (by decide)] at begins
    split at begins
    case isTrue digit =>
      have only : ∀ digit : Fin 10, Nat.digitChar digit.val = '0' → digit.val = 0 := by decide
      exact only ⟨number, digit⟩ (by simpa using begins)
    case isFalse large =>
      rw [List.head?_append_of_ne_nil _ Nat.toDigits_ne_nil] at begins
      have := smaller (number / 10) (by omega) begins
      omega

/-- What may follow a value, seen from its first character: a blank, a comma or a closing bracket,
or nothing at all. Behind these a number cannot go on. -/
def Stops (rest : List Char) : Prop :=
  ∀ character ∈ rest.head?, isBlank character = true ∨ character ∈ [',', ']', '\x7d']

/-- What may follow a value does not go on with a number: it begins with no digit, no decimal point
and no mark of an exponent. -/
theorem Stops.not_number {first : Char} {rest : List Char} (stops : Stops (first :: rest)) :
    first.isDigit = false ∧ first ≠ '.' ∧ first ≠ 'e' ∧ first ≠ 'E' := by
  have stop : first = ' ' ∨ first = '\t' ∨ first = '\n' ∨ first = '\r' ∨ first = ',' ∨ first = ']' ∨
      first = '\x7d' := by
    simpa [isBlank, or_assoc] using stops first rfl
  rcases stop with rfl | rfl | rfl | rfl | rfl | rfl | rfl <;> decide

/-- Behind a whole number the reader looks for a fraction and an exponent. In front of what may
follow a value it finds neither and stays where it is. -/
theorem Stops.skip {rest : List Char} (stops : Stops rest) :
    skipFraction? rest = some rest ∧ skipExponent? rest = some rest := by
  cases rest with
  | nil => exact ⟨rfl, rfl⟩
  | cons first rest =>
    obtain ⟨-, notPoint, notSmall, notCapital⟩ := stops.not_number
    simp [skipFraction?, skipExponent?, *]

/-- All digits of a number are read and nothing behind them. The digits are those that the writer
gives, and what follows begins with none. -/
theorem readDigits?_toDigits (number : Nat) {rest : List Char} (stops : Stops rest) :
    readDigits? (Nat.toDigits 10 number ++ rest) = some (Nat.toDigits 10 number, rest) := by
  have digits : ∀ character ∈ Nat.toDigits 10 number, character.isDigit = true :=
    fun _ member => Nat.isDigit_of_mem_toDigits (by decide) (by decide) member
  have behind : rest.takeWhile Char.isDigit = [] ∧ rest.dropWhile Char.isDigit = rest := by
    cases rest with
    | nil => exact ⟨rfl, rfl⟩
    | cons first rest => simp [stops.not_number]
  rw [readDigits?, List.takeWhile_append_of_pos digits, List.dropWhile_append_of_pos digits,
    behind.1, behind.2, List.append_nil]
  split
  · next none => exact absurd none Nat.toDigits_ne_nil
  · rfl

/-- A number is written with at least one digit, which stands first. From this digit the reader
knows that a number follows. -/
theorem exists_isDigit_of_toDigits (number : Nat) :
    ∃ first others, Nat.toDigits 10 number = first :: others ∧ first.isDigit = true := by
  obtain ⟨first, others, digits⟩ :=
    List.exists_cons_of_ne_nil (Nat.toDigits_ne_nil : Nat.toDigits 10 number ≠ [])
  have member : first ∈ Nat.toDigits 10 number := by simp [digits]
  exact ⟨first, others, digits, Nat.isDigit_of_mem_toDigits (by decide) (by decide) member⟩

/-- The digits of a number are read as the number. There is no sign, no leading zero, no fraction
and no exponent, so the value that is kept is the exact one. -/
theorem readNumber?_toDigits (number : Nat) {rest : List Char} (stops : Stops rest) :
    readNumber? (Nat.toDigits 10 number ++ rest) = some (some number, rest) := by
  have unsigned : ∀ others, Nat.toDigits 10 number ++ rest ≠ '-' :: others := by
    obtain ⟨first, digits, isDigits, digit⟩ := exists_isDigit_of_toDigits number
    rintro others signed
    rw [isDigits, List.cons_append, List.cons_eq_cons] at signed
    simp [signed.1] at digit
  have zero : ¬ ((Nat.toDigits 10 number).head? == some '0' &&
      (Nat.toDigits 10 number).length != 1) = true := by
    intro both
    rw [Bool.and_eq_true, beq_iff_eq] at both
    have := eq_zero_of_head?_toDigits number both.1
    subst this
    exact absurd both.2 (by decide)
  unfold readNumber?
  split
  · next others signed => exact absurd signed (unsigned others)
  · simp only [readDigits?_toDigits number stops, Option.bind_eq_bind, Option.bind_some,
      if_neg zero, stops.skip, beq_self_eq_true, Bool.and_self, if_true]
    exact congrArg (fun value => some (some value, rest)) (Text.digitsValue_toDigits number)

end Document

/-! ### Values -/

/-- What a form writes: a value, or the rest of a list or a record behind its opening bracket. The
three kinds are read by three functions that call each other. -/
inductive Part where
  | value (value : Json)
  | elements (elements : List Json)
  | members (members : List (String × Json))

/-- Characters that are all blank. No characters at all are blank too, as they stand between the
parts of a value on one line. -/
def Blanks (characters : List Char) : Prop :=
  ∀ character ∈ characters, Document.isBlank character = true

/-- The characters that write a value. Blanks may stand in front of an element, in front of the name
and the value of a member, and in front of the closing bracket. -/
inductive Writes : Part → List Char → Prop
  | null : Writes (.value null) "null".toList
  | boolean (value : Bool) :
      Writes (.value (boolean value)) (if value then "true" else "false").toList
  | number (value : Nat) : Writes (.value (number value)) (Nat.toDigits 10 value)
  | text (value : String) : Writes (.value (text value)) (quote value).toList
  | emptyList : Writes (.value (list [])) ['[', ']']
  | list {elements : List Json} {inside : List Char} :
      Writes (.elements elements) inside → Writes (.value (list elements)) ('[' :: inside)
  | emptyRecord : Writes (.value (record [])) ['\x7b', '\x7d']
  | record {members : List (String × Json)} {inside : List Char} :
      Writes (.members members) inside → Writes (.value (record members)) ('\x7b' :: inside)
  | lastElement {element : Json} {before written behind : List Char} :
      Blanks before → Blanks behind → Writes (.value element) written →
      Writes (.elements [element]) (before ++ written ++ behind ++ [']'])
  | element {element : Json} {others : List Json} {before written rest : List Char} :
      Blanks before → Writes (.value element) written → Writes (.elements others) rest →
      Writes (.elements (element :: others)) (before ++ written ++ ',' :: rest)
  | lastMember {name : String} {value : Json} {before between written behind : List Char} :
      Blanks before → Blanks between → Blanks behind → Writes (.value value) written →
      Writes (.members [(name, value)])
        (before ++ (quote name).toList ++ ':' :: (between ++ written ++ behind ++ ['\x7d']))
  | member {name : String} {value : Json} {others : List (String × Json)}
      {before between written rest : List Char} : Blanks before → Blanks between →
      Writes (.value value) written → Writes (.members others) rest →
      Writes (.members ((name, value) :: others))
        (before ++ (quote name).toList ++ ':' :: (between ++ written ++ ',' :: rest))

namespace Document

/-- Blanks in front are skipped, and then the skipping goes on with the characters behind them. -/
theorem skipBlanks_append {before : List Char} (blanks : Blanks before) (characters : List Char) :
    skipBlanks (before ++ characters) = skipBlanks characters :=
  List.dropWhile_append_of_pos blanks

/-- Nothing is skipped in front of a character that is not blank. With `skipBlanks_append` this
gives what a reader sees behind any number of blanks. -/
theorem skipBlanks_cons {first : Char} (solid : isBlank first = false) (others : List Char) :
    skipBlanks (first :: others) = first :: others :=
  List.dropWhile_cons_of_neg (by simp [solid])

/-- A value is read behind blanks as it is read without them. This holds for every bound on the
nesting, also for the one that reads nothing. -/
theorem readValue?_append {before : List Char} (blanks : Blanks before) (bound : Nat)
    (characters : List Char) :
    readValue? bound (before ++ characters) = readValue? bound characters := by
  cases bound with
  | zero => simp only [readValue?]
  | succ bound => simp only [readValue?, skipBlanks_append blanks]

/-- Blanks in front of what may follow a value may follow it too. So a value may stand before the
blanks of a closing bracket. -/
theorem Stops.append {behind rest : List Char} (blanks : Blanks behind) (stops : Stops rest) :
    Stops (behind ++ rest) := by
  cases behind with
  | nil => exact stops
  | cons first others =>
    rintro character ⟨⟩
    exact .inl (blanks first List.mem_cons_self)

/-- A comma or a closing bracket may follow a value, whatever stands behind it. -/
theorem stops_cons {first : Char} (stop : first ∈ [',', ']', '\x7d']) (rest : List Char) :
    Stops (first :: rest) := by
  rintro character ⟨⟩
  exact .inr stop

section Step

variable {bound : Nat} {characters behind after : List Char}

/-- The characters of a quoted text with more characters behind it, opening quote first. In this
form the readers of values and of names can take the quote off. -/
theorem toList_quote_append (value : String) (rest : List Char) :
    (quote value).toList ++ rest =
      '"' :: (value.toList.flatMap escapeCharacter ++ '"' :: rest) := by
  simp [quote]

/-- A quoted text is read as a value, and what follows is left. A text ends at its quote, so
anything at all may follow it. -/
theorem readValue?_quote (value : String) (bound : Nat) (rest : List Char) :
    readValue? (bound + 1) ((quote value).toList ++ rest) = some (.text (some value), rest) := by
  simp (disch := decide) only [toList_quote_append, readValue?, skipBlanks_cons, readText?_quoted,
    spell?_map_toNat, Option.map_some, String.ofList_toList]

/-- A digit is not blank, so blanks in front of a number end at its first digit. -/
theorem isBlank_of_isDigit {character : Char} (digit : character.isDigit = true) :
    isBlank character = false := by
  rw [Bool.eq_false_iff]
  intro blank
  have : character = ' ' ∨ character = '\t' ∨ character = '\n' ∨ character = '\r' := by
    simpa [isBlank, or_assoc] using blank
  rcases this with rfl | rfl | rfl | rfl <;> simp at digit

/-- The digits of a number are read as a value, where what follows may follow one. The first digit
leaves the reader only the branch of numbers. -/
theorem readValue?_toDigits (value bound : Nat) {rest : List Char} (stops : Stops rest) :
    readValue? (bound + 1) (Nat.toDigits 10 value ++ rest) = some (.number (some value), rest) := by
  obtain ⟨first, others, digits, digit⟩ := exists_isDigit_of_toDigits value
  have read := readNumber?_toDigits value stops
  rw [digits, List.cons_append] at read ⊢
  rw [readValue?, skipBlanks_cons (isBlank_of_isDigit digit)]
  -- no digit begins a value of another kind
  split
  case h_7 => rw [read]; rfl
  all_goals simp_all

/-- Behind an opening bracket the elements of a list are read, unless the closing bracket comes
first. The list that holds nothing has a branch of its own. -/
theorem readValue?_list (nonempty : ∀ after, skipBlanks characters ≠ ']' :: after) :
    readValue? (bound + 1) ('[' :: characters) =
      (readElements? bound characters).map fun (elements, after) => (.list elements, after) := by
  simp only [readValue?, skipBlanks_cons (show isBlank '[' = false from rfl)]

/-- Behind an opening brace the members of a record are read, unless the closing brace comes first.
This is `readValue?_list` for the other kind of bracket. -/
theorem readValue?_record (nonempty : ∀ after, skipBlanks characters ≠ '\x7d' :: after) :
    readValue? (bound + 1) ('\x7b' :: characters) =
      (readMembers? bound characters).map fun (members, after) => (.record members, after) := by
  simp only [readValue?, skipBlanks_cons (show isBlank '\x7b' = false from rfl)]

/-- An element with the closing bracket behind it ends the list. Blanks may stand
between the two. -/
theorem readElements?_last {element : Document}
    (first : readValue? bound characters = some (element, behind))
    (closes : skipBlanks behind = ']' :: after) :
    readElements? (bound + 1) characters = some ([element], after) := by
  simp only [readElements?, first, closes]

/-- An element with a comma behind it is followed by more elements, which are read with the bound
one less. -/
theorem readElements?_more {element : Document}
    (first : readValue? bound characters = some (element, behind))
    (more : skipBlanks behind = ',' :: after) :
    readElements? (bound + 1) characters =
      (readElements? bound after).map fun (elements, after) => (element :: elements, after) := by
  simp only [readElements?, first, more]

/-- A member with the closing brace behind it ends the record. Its name is read as a text, behind
the blanks in front of it, and its value behind the colon. -/
theorem readMembers?_last {value : Document} {before : List Char} (blanks : Blanks before)
    (name : String) (first : readValue? bound characters = some (value, behind))
    (closes : skipBlanks behind = '\x7d' :: after) :
    readMembers? (bound + 1) (before ++ (quote name).toList ++ ':' :: characters) =
      some ([(some name, value)], after) := by
  simp (disch := decide) only [List.append_assoc, toList_quote_append, readMembers?,
    skipBlanks_append blanks, skipBlanks_cons, readText?_quoted, spell?_map_toNat, first, closes,
    Option.map_some, String.ofList_toList]

/-- A member with a comma behind it is followed by more members, which are read with the bound one
less. -/
theorem readMembers?_more {value : Document} {before : List Char} (blanks : Blanks before)
    (name : String) (first : readValue? bound characters = some (value, behind))
    (more : skipBlanks behind = ',' :: after) :
    readMembers? (bound + 1) (before ++ (quote name).toList ++ ':' :: characters) =
      (readMembers? bound after).map fun (members, after) =>
        ((some name, value) :: members, after) := by
  simp (disch := decide) only [List.append_assoc, toList_quote_append, readMembers?,
    skipBlanks_append blanks, skipBlanks_cons, readText?_quoted, spell?_map_toNat, first, more,
    Option.map_some, String.ofList_toList]

end Step

end Document

open Document

/-- The reader takes what is written whole and leaves what follows it. After a value, what follows
must be able to follow it; a list and a record end in a bracket, and anything may follow that. -/
def Part.Taken (bound : Nat) (written : List Char) : Part → Prop
  | .value json => ∀ rest, Stops rest →
      readValue? bound (written ++ rest) = some (json.document, rest)
  | .elements jsons => ∀ rest,
      readElements? bound (written ++ rest) = some (elementDocuments jsons, rest)
  | .members named => ∀ rest,
      readMembers? bound (written ++ rest) = some (memberDocuments named, rest)

namespace Writes

variable {part : Part} {written : List Char}

/-- A value begins with a character that is neither blank nor a closing bracket. So a reader that
looks for the end of a list does not take the beginning of a value for it. -/
theorem exists_first {value : Json} (writes : Writes (.value value) written) :
    ∃ first others, written = first :: others ∧ isBlank first = false ∧ first ≠ ']' := by
  cases writes with
  | null => exact ⟨'n', _, rfl, rfl, by decide⟩
  | boolean value => cases value <;> exact ⟨_, _, rfl, rfl, by decide⟩
  | number value =>
    obtain ⟨first, others, digits, digit⟩ := exists_isDigit_of_toDigits value
    refine ⟨first, others, digits, isBlank_of_isDigit digit, ?_⟩
    rintro rfl
    simp at digit
  | text value => exact ⟨'"', _, String.toList_ofList, rfl, by decide⟩
  | _ => exact ⟨_, _, rfl, rfl, by decide⟩

/-- Where elements are written, the closing bracket is not the first character behind the blanks.
The reader then goes on to the elements. -/
theorem skipBlanks_elements {elements : List Json} (writes : Writes (.elements elements) written)
    (rest after : List Char) : skipBlanks (written ++ rest) ≠ ']' :: after := by
  cases writes with
  | lastElement blank behind element =>
    obtain ⟨first, others, rfl, solid, notEnd⟩ := element.exists_first
    simp [skipBlanks_append blank, skipBlanks_cons solid, notEnd]
  | element blank element others =>
    obtain ⟨first, others, rfl, solid, notEnd⟩ := element.exists_first
    simp [skipBlanks_append blank, skipBlanks_cons solid, notEnd]

/-- Where members are written, the closing brace is not the first character behind the blanks: the
quote of a name is. -/
theorem skipBlanks_members {members : List (String × Json)}
    (writes : Writes (.members members) written) (rest after : List Char) :
    skipBlanks (written ++ rest) ≠ '\x7d' :: after := by
  have quoted := skipBlanks_cons (show isBlank '"' = false from rfl)
  cases writes with
  | lastMember blank => simp [skipBlanks_append blank, toList_quote_append, quoted]
  | member blank => simp [skipBlanks_append blank, toList_quote_append, quoted]

/-- A part that is taken with every bound from its length on, counted from one, is taken with any
bound above its length. In this form the cases of `taken` use their hypotheses. -/
theorem taken_of_lt {bound : Nat}
    (taken : ∀ bound, written.length ≤ bound → part.Taken (bound + 1) written)
    (enough : written.length < bound) : part.Taken bound written := by
  cases bound with
  | zero => simp at enough
  | succ bound => exact taken bound (Nat.le_of_lt_succ enough)

/-- A value that is taken whole is also read behind blanks. The bound is above the length of what is
written, blanks not counted. -/
theorem readValue?_of_taken {value : Json} {before rest : List Char} {bound : Nat}
    (blanks : Blanks before)
    (taken : ∀ bound, written.length ≤ bound → (Part.value value).Taken (bound + 1) written)
    (enough : written.length < bound) (stops : Stops rest) :
    readValue? bound (before ++ (written ++ rest)) = some (value.document, rest) := by
  rw [readValue?_append blanks]
  exact taken_of_lt taken enough rest stops

/-- What is written is read, with a bound that is as large as the characters are many. By induction
on the form: each bracket and each separator takes one character, and the bound goes down by one
there. -/
theorem taken (writes : Writes part written) :
    ∀ bound, written.length ≤ bound → part.Taken (bound + 1) written := by
  induction writes with
  | null =>
    intro bound enough rest stops
    simp [readValue?, skipBlanks, document, isBlank]
  | boolean value =>
    intro bound enough rest stops
    cases value <;> simp [readValue?, skipBlanks, document, isBlank]
  | number value => exact fun bound _ _ stops => readValue?_toDigits value bound stops
  | text value => exact fun bound _ rest _ => readValue?_quote value bound rest
  | emptyList =>
    intro bound enough rest stops
    simp [readValue?, skipBlanks, document, elementDocuments, isBlank]
  | list elements taken =>
    intro bound enough rest stops
    rw [List.cons_append, readValue?_list (elements.skipBlanks_elements rest),
      taken_of_lt taken enough rest]
    rfl
  | emptyRecord =>
    intro bound enough rest stops
    simp [readValue?, skipBlanks, document, memberDocuments, isBlank]
  | record members taken =>
    intro bound enough rest stops
    rw [List.cons_append, readValue?_record (members.skipBlanks_members rest),
      taken_of_lt taken enough rest]
    rfl
  | @lastElement element before written behind blank blanks writes taken =>
    intro bound enough rest
    simp only [List.length_append, List.length_singleton] at enough
    have stops : Stops (behind ++ ']' :: rest) := .append blanks (stops_cons (by simp) rest)
    have first := readValue?_of_taken blank taken (show written.length < bound by omega) stops
    have read := readElements?_last first (by rw [skipBlanks_append blanks, skipBlanks_cons rfl])
    simpa [elementDocuments] using read
  | @element element others before written more blank writes remaining taken takenMore =>
    intro bound enough rest
    simp only [List.length_append, List.length_cons] at enough
    have stops : Stops (',' :: (more ++ rest)) := stops_cons (by simp) _
    have first := readValue?_of_taken blank taken (show written.length < bound by omega) stops
    have read := readElements?_more first (skipBlanks_cons rfl _)
    rw [taken_of_lt takenMore (by omega) rest] at read
    simpa [elementDocuments] using read
  | @lastMember name value before between written behind blank blanks blanksBehind writes taken =>
    intro bound enough rest
    simp only [List.length_append, List.length_cons, List.length_nil] at enough
    have stops : Stops (behind ++ '\x7d' :: rest) :=
      .append blanksBehind (stops_cons (by simp) rest)
    have first := readValue?_of_taken blanks taken (show written.length < bound by omega) stops
    have read := readMembers?_last blank name first
      (by rw [skipBlanks_append blanksBehind, skipBlanks_cons rfl])
    simpa [memberDocuments] using read
  | @member name value others before between written more blank blanks writes remaining taken
      takenMore =>
    intro bound enough rest
    simp only [List.length_append, List.length_cons] at enough
    have stops : Stops (',' :: (more ++ rest)) := stops_cons (by simp) _
    have first := readValue?_of_taken blanks taken (show written.length < bound by omega) stops
    have read := readMembers?_more blank name first (skipBlanks_cons rfl _)
    rw [taken_of_lt takenMore (by omega) rest] at read
    simpa [memberDocuments] using read

/-- The document that a text holds is the one whose value it writes. The reader starts with one more
than the length as its bound, and behind the value nothing is left. -/
theorem parse?_eq {value : Json} (writes : Writes (.value value) written) :
    Document.parse? (String.ofList written) = some value.document := by
  have read : readValue? (written.length + 1) (written ++ []) = some (value.document, []) :=
    writes.taken written.length le_rfl [] (by simp [Stops])
  rw [List.append_nil] at read
  simp [Document.parse?, read, skipBlanks]

end Writes

/-! ### The two ways to write -/

/-- The text of an element is that of its value; the blanks around it belong to the list. -/
def WritesElement (element : Json) (text : String) : Prop := Writes (.value element) text.toList

/-- The text of a member is its name, a colon, blanks and its value. On one line there are no
blanks, and over several lines there is one space. -/
def WritesMember (member : String × Json) (text : String) : Prop :=
  ∃ between value, Blanks between ∧ Writes (.value member.2) value ∧
    text.toList = (quote member.1).toList ++ ':' :: (between ++ value)

section Joined

variable {before behind : List Char} {text : String} {texts : List String}

/-- Elements with a comma between them, and the same blanks in front of each, are the inside of
a list. The blanks in front of the closing bracket may be others, as it stands one level
further out. -/
theorem writes_elements {element : Json} {elements : List Json}
    (written : List.Forall₂ WritesElement (element :: elements) (text :: texts))
    (blanks : Blanks before) (blanksBehind : Blanks behind) :
    Writes (.elements (element :: elements)) (before ++
      (',' :: before).intercalate ((text :: texts).map String.toList) ++ behind ++ [']']) := by
  induction texts generalizing element elements text with
  | nil =>
    obtain ⟨first, ⟨⟩⟩ := List.forall₂_cons.mp written
    simpa using Writes.lastElement blanks blanksBehind first
  | cons next others joined =>
    obtain ⟨first, rest⟩ := List.forall₂_cons.mp written
    cases rest with
    | cons second rest =>
      simpa [List.intercalate_cons_cons] using
        Writes.element blanks first (joined (.cons second rest))

/-- Members with a comma between them, and the same blanks in front of each, are the inside of a
record. Between a name and its value each member has blanks of its own. -/
theorem writes_members {member : String × Json} {members : List (String × Json)}
    (written : List.Forall₂ WritesMember (member :: members) (text :: texts))
    (blanks : Blanks before) (blanksBehind : Blanks behind) :
    Writes (.members (member :: members)) (before ++
      (',' :: before).intercalate ((text :: texts).map String.toList) ++ behind ++ ['\x7d']) := by
  induction texts generalizing member members text with
  | nil =>
    obtain ⟨⟨between, value, blanksBetween, first, isText⟩, ⟨⟩⟩ := List.forall₂_cons.mp written
    simpa [isText] using Writes.lastMember blanks blanksBetween blanksBehind first
  | cons next others joined =>
    obtain ⟨⟨between, value, blanksBetween, first, isText⟩, rest⟩ := List.forall₂_cons.mp written
    cases rest with
    | cons second rest =>
      simpa [isText, List.intercalate_cons_cons] using
        Writes.member blanks blanksBetween first (joined (.cons second rest))

end Joined

/-- No characters are blanks: on one line nothing stands between the parts. -/
theorem blanks_nil : Blanks [] := by simp [Blanks]

/-- The beginning of a line, at any level, is made of blanks: the line end and the spaces that
indent. -/
theorem blanks_newLine (level : Nat) : Blanks (newLine level).toList := by
  intro character member
  simp only [newLine, String.toList_append, String.toList_ofList, List.mem_append,
    List.mem_replicate] at member
  obtain lineEnd | ⟨-, rfl⟩ := member
  · obtain rfl : character = '\n' := by simpa using lineEnd
    rfl
  · rfl

/-! #### On one line -/

/-- Texts of elements with commas between them, in brackets, write the list. Without elements the
two brackets stand alone. -/
theorem writes_compactList {elements : List Json} {texts : List String}
    (written : List.Forall₂ WritesElement elements texts) :
    Writes (.value (list elements)) ("[" ++ String.intercalate "," texts ++ "]").toList := by
  cases written with
  | nil => simpa using Writes.emptyList
  | cons first rest =>
    simpa [String.toList_intercalate] using
      Writes.list (writes_elements (.cons first rest) blanks_nil blanks_nil)

/-- Texts of members with commas between them, in braces, write the record. Without members the two
braces stand alone. -/
theorem writes_compactRecord {members : List (String × Json)} {texts : List String}
    (written : List.Forall₂ WritesMember members texts) :
    Writes (.value (record members)) ("\x7b" ++ String.intercalate "," texts ++ "\x7d").toList := by
  cases written with
  | nil => simpa using Writes.emptyRecord
  | cons first rest =>
    simpa [String.toList_intercalate] using
      Writes.record (writes_members (.cons first rest) blanks_nil blanks_nil)

mutual

/-- A value on one line is of the form that the reader takes. The recursion is the writer's own,
with one statement for each of its three functions. -/
theorem writes_compact : (value : Json) → Writes (.value value) value.compact.toList
  | null => by simpa [compact] using Writes.null
  | boolean value => by simpa [compact] using Writes.boolean value
  | number value => by simpa [compact, Nat.toList_repr] using Writes.number value
  | text value => by simpa [compact] using Writes.text value
  | list elements => by
    simpa only [compact] using writes_compactList (writes_compactElements elements)
  | record members => by
    simpa only [compact] using writes_compactRecord (writes_compactMembers members)

/-- Each element on one line is written as its value is; the texts and the elements go together in
order. -/
theorem writes_compactElements : (elements : List Json) →
    List.Forall₂ WritesElement elements (compactElements elements)
  | [] => .nil
  | element :: elements => .cons (writes_compact element) (writes_compactElements elements)

/-- Each member on one line is written with nothing between its colon and its value. -/
theorem writes_compactMembers : (members : List (String × Json)) →
    List.Forall₂ WritesMember members (compactMembers members)
  | [] => .nil
  | (_, value) :: members =>
    .cons ⟨[], value.compact.toList, blanks_nil, writes_compact value, by simp⟩
      (writes_compactMembers members)

end

/-! #### Over several lines -/

/-- Texts of elements on lines of their own, one level further in, write the list. The closing
bracket stands on a line at the level of the list. -/
theorem writes_encloseList (level : Nat) {elements : List Json} {texts : List String}
    (written : List.Forall₂ WritesElement elements texts) :
    Writes (.value (list elements)) (enclose level "[" "]" texts).toList := by
  cases written with
  | nil => simpa [enclose] using Writes.emptyList
  | cons first rest =>
    have inside := writes_elements (.cons first rest) (blanks_newLine (level + 1))
      (blanks_newLine level)
    simpa [enclose, String.toList_intercalate] using Writes.list inside

/-- Texts of members on lines of their own, one level further in, write the record. -/
theorem writes_encloseRecord (level : Nat) {members : List (String × Json)} {texts : List String}
    (written : List.Forall₂ WritesMember members texts) :
    Writes (.value (record members)) (enclose level "\x7b" "\x7d" texts).toList := by
  cases written with
  | nil => simpa [enclose] using Writes.emptyRecord
  | cons first rest =>
    have inside := writes_members (.cons first rest) (blanks_newLine (level + 1))
      (blanks_newLine level)
    simpa [enclose, String.toList_intercalate] using Writes.record inside

mutual

/-- A value over several lines is of the form that the reader takes, at every level of indentation.
As on one line, the recursion is the writer's own. -/
theorem writes_prettyAt (level : Nat) : (value : Json) →
    Writes (.value value) (value.prettyAt level).toList
  | null => by simpa [prettyAt] using Writes.null
  | boolean value => by simpa [prettyAt] using Writes.boolean value
  | number value => by simpa [prettyAt, Nat.toList_repr] using Writes.number value
  | text value => by simpa [prettyAt] using Writes.text value
  | list elements => by
    have inside := writes_prettyElements (level + 1) elements
    simpa only [prettyAt] using writes_encloseList level inside
  | record members => by
    have inside := writes_prettyMembers (level + 1) members
    simpa only [prettyAt] using writes_encloseRecord level inside

/-- Each element over several lines is written as its value is, at the level of the elements. -/
theorem writes_prettyElements (level : Nat) : (elements : List Json) →
    List.Forall₂ WritesElement elements (prettyElements level elements)
  | [] => .nil
  | element :: elements =>
    .cons (writes_prettyAt level element) (writes_prettyElements level elements)

/-- Each member over several lines is written with one space between its colon and its value. -/
theorem writes_prettyMembers (level : Nat) : (members : List (String × Json)) →
    List.Forall₂ WritesMember members (prettyMembers level members)
  | [] => .nil
  | (_, value) :: members =>
    .cons ⟨[' '], (value.prettyAt level).toList, by simp [Blanks, isBlank],
      writes_prettyAt level value, by simp⟩ (writes_prettyMembers level members)

end

/-- Both ways to write a value are read as the document it stands for. So nothing that is written is
lost, whichever way the caller asks for. -/
theorem parse?_written {value : Json} {written : String}
    (writer : written ∈ [value.compact, value.pretty]) :
    Document.parse? written = some value.document := by
  obtain rfl | rfl : written = value.compact ∨ written = value.pretty := by simpa using writer
  · simpa using (writes_compact value).parse?_eq
  · simpa [pretty] using (writes_prettyAt 0 value).parse?_eq

end QueryScope.Json

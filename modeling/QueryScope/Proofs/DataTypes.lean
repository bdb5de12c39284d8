import Mathlib.Data.List.DropRight
import QueryScope.Catalog.DataType

/-!
# Data types read back

The text in which a type is shown names a type again. The types that a text can name are few enough
to say what each of them is read back as: a type with arguments keeps them, because they are small
and are shown as the reader expects them, and a type that is not known keeps its text, which has no
blanks around it any more. One type is not read back: a decimal number with a scale and no
precision, which `DECIMAL(,2)` names, is shown without its scale.
-/

namespace QueryScope

namespace Text

/-- What does not begin or end with a blank is not changed by trimming. Blanks inside are of no
concern; without any characters both conditions hold and nothing is left to trim. -/
theorem trimCharacters_of_ends {characters : List Char}
    (first : ∀ nonempty : characters ≠ [], isBlank (characters.head nonempty) = false)
    (last : ∀ nonempty : characters ≠ [], isBlank (characters.getLast nonempty) = false) :
    trimCharacters characters = characters := by
  have leading : characters.dropWhile isBlank = characters := by
    rw [List.dropWhile_eq_self_iff]
    intro nonempty
    simpa [List.head_eq_getElem] using first (List.ne_nil_of_length_pos nonempty)
  have trailing : characters.rdropWhile isBlank = characters := by
    rw [List.rdropWhile_eq_self_iff]
    exact fun nonempty => by simp [last nonempty]
  rw [trimCharacters, dropLeadingBlanks, leading]
  exact trailing

/-- Characters of which none is blank are not changed by trimming. Base names and digits are of this
kind. -/
theorem trimCharacters_of_solid {characters : List Char}
    (solid : ∀ character ∈ characters, isBlank character = false) :
    trimCharacters characters = characters :=
  trimCharacters_of_ends (fun _ => solid _ (List.head_mem _)) fun _ => solid _ (List.getLast_mem _)

/-- Trimming twice is trimming once: what is left begins and ends without a blank. So a type that is
not known, and keeps its trimmed text, is read back as it is. -/
@[simp] theorem trimCharacters_trimCharacters (characters : List Char) :
    trimCharacters (trimCharacters characters) = trimCharacters characters := by
  apply trimCharacters_of_ends
  · intro nonempty
    -- what is trimmed at the end begins as it did before
    have starts : trimCharacters characters <+: characters.dropWhile isBlank :=
      List.rdropWhile_prefix isBlank _
    rw [starts.head nonempty]
    exact List.head_dropWhile_not isBlank _
  · intro nonempty
    exact Bool.eq_false_iff.mpr
      (List.rdropWhile_last_not isBlank (dropLeadingBlanks characters) nonempty)

/-- A digit is not blank, so the digits of an argument are not trimmed. -/
theorem isBlank_of_isDigit {character : Char} (digit : character.isDigit = true) :
    isBlank character = false := by
  have range : 48 ≤ character.toNat ∧ character.toNat ≤ 57 := by
    simpa [Char.isDigit, UInt32.le_iff_toNat_le] using digit
  simp only [isBlank, Bool.or_eq_false_iff, decide_eq_false_iff_not, beq_eq_false_iff_ne]
  omega

/-- The value of the digits of a number is the number. The two ways to add up the digits differ only
in the side on which the ten stands. -/
theorem digitsValue_toDigits (number : Nat) : digitsValue 0 (Nat.toDigits 10 number) = number := by
  calc digitsValue 0 (Nat.toDigits 10 number)
      = Nat.ofDigitChars 10 (Nat.toDigits 10 number) 0 := by
        simp only [digitsValue, Nat.ofDigitChars, Nat.mul_comm 10]
    _ = number := Nat.ofDigitChars_ten_toDigits

/-- A number that is written with its digits is read, if it is within the limit. The digits have no
sign in front, which the reader would accept. -/
theorem readNatural?_toDigits {limit number : Nat} (small : number ≤ limit) :
    readNatural? limit (Nat.toDigits 10 number) = some number := by
  have digits : (Nat.toDigits 10 number).all Char.isDigit = true :=
    List.all_eq_true.mpr fun _ member => Nat.isDigit_of_mem_toDigits (by decide) (by decide) member
  have unsigned : ∀ rest, Nat.toDigits 10 number ≠ '+' :: rest := by
    intro rest signed
    rw [signed] at digits
    simp at digits
  unfold readNatural?
  split
  · next rest signed => exact absurd signed (unsigned rest)
  · simp [digits, digitsValue_toDigits, small]

/-- A number that is read is within the limit, whatever the digits say; a greater one is not read at
all. -/
theorem le_of_readNatural? {limit number : Nat} {characters : List Char}
    (reads : readNatural? limit characters = some number) : number ≤ limit := by
  unfold readNatural? at reads
  grind

end Text

namespace DataType

/-! ### Arguments -/

/-- With the character at the end, everything before the end is in front of its last occurrence.
What is before may have the character too. -/
theorem upToLast?_append_self (character : Char) (before : List Char) :
    upToLast? character (before ++ [character]) = some before := by
  simp [upToLast?]

/-- Without a comma there is one part, which is everything. -/
theorem splitAtCommas_of_not_mem {part : List Char} (free : ',' ∉ part) :
    splitAtCommas part = [part] := by
  fun_induction splitAtCommas part <;> simp_all

/-- The first comma ends the first part, and the rest is split by itself. -/
theorem splitAtCommas_append_comma {part : List Char} (free : ',' ∉ part) (rest : List Char) :
    splitAtCommas (part ++ ',' :: rest) = part :: splitAtCommas rest := by
  fun_induction splitAtCommas part <;> simp_all [splitAtCommas]

/-- Parts without commas are found again between the commas that join them. There is at least one
part, since nothing at all would be split into one empty part. -/
theorem splitAtCommas_intercalate {part : List Char} {parts : List (List Char)}
    (free : ∀ one ∈ part :: parts, ',' ∉ one) :
    splitAtCommas ([','].intercalate (part :: parts)) = part :: parts := by
  induction parts generalizing part with
  | nil => simpa using splitAtCommas_of_not_mem (free part List.mem_cons_self)
  | cons next others found =>
    rw [List.intercalate_cons_cons, List.append_assoc, List.singleton_append,
      splitAtCommas_append_comma (free part List.mem_cons_self),
      found fun one member => free one (List.mem_cons_of_mem _ member)]

/-- The arguments of a type that are given are within their limit, at every place. An argument that
is too great is absent, as one that is no number is. -/
theorem le_of_argument {name : List Char} {place number : Nat}
    (given : (arguments name)[place]?.join = some number) : number ≤ argumentLimit := by
  have member : some number ∈ arguments name := by
    rw [Option.join_eq_some_iff] at given
    exact List.mem_of_getElem? given
  unfold arguments at member
  split at member
  · simp at member
  · obtain ⟨part, -, reads⟩ := List.mem_map.mp member
    exact Text.le_of_readNatural? reads

/-- The name of a type as it stands in front of arguments: some characters, none of them blank or an
opening parenthesis, in capitals. The reader can then tell the name from the arguments. -/
structure BaseName (name : String) : Prop where
  nonempty : name.toList ≠ []
  plain : name.toList.all (fun character => !Text.isBlank character && character != '(') = true
  capital : Text.upper name = name

namespace BaseName

variable {name : String} {numbers : List Nat}

/-- No character of a base name is blank, so a base name is trimmed already. -/
theorem solid (base : BaseName name) :
    ∀ character ∈ name.toList, Text.isBlank character = false := by
  intro character member
  have plain := List.all_eq_true.mp base.plain character member
  rw [Bool.and_eq_true, Bool.not_eq_true'] at plain
  exact plain.1

/-- No character of a base name opens the arguments, so the reader passes all of it in the search
for the parenthesis. -/
theorem passed (base : BaseName name) : ∀ character ∈ name.toList, (character != '(') = true := by
  intro character member
  have plain := List.all_eq_true.mp base.plain character member
  rw [Bool.and_eq_true] at plain
  exact plain.2

/-- The characters of a name with at least one argument: the name, the parenthesis, the digits with
commas between them, and the closing parenthesis. -/
theorem toList_withArguments (number : Nat) (others : List Nat) :
    (withArguments name (number :: others)).toList =
      name.toList ++
        '(' :: ([','].intercalate ((number :: others).map (Nat.toDigits 10)) ++ [')']) := by
  simp [withArguments, String.toList_intercalate, Function.comp_def]

/-- A base name with arguments has no blanks at its ends. It begins with the name and ends with the
name or with the closing parenthesis. -/
theorem trim_withArguments (base : BaseName name) (numbers : List Nat) :
    Text.trimCharacters (withArguments name numbers).toList =
      (withArguments name numbers).toList := by
  cases numbers with
  | nil => exact Text.trimCharacters_of_solid base.solid
  | cons number others =>
    rw [toList_withArguments]
    apply Text.trimCharacters_of_ends
    · intro nonempty
      rw [List.head_append_of_ne_nil base.nonempty]
      exact base.solid _ (List.head_mem _)
    · intro nonempty
      simp only [← List.cons_append, ← List.append_assoc, List.getLast_append_singleton]
      rfl

/-- What stands in front of the parentheses is the name. It is trimmed and in capitals already, so
the reader compares the name itself. -/
theorem upper_withArguments (base : BaseName name) (numbers : List Nat) :
    Text.upper (String.ofList (Text.trimCharacters
      ((Text.trimCharacters (withArguments name numbers).toList).takeWhile (· != '(')))) =
      name := by
  have front : (withArguments name numbers).toList.takeWhile (· != '(') = name.toList := by
    cases numbers with
    | nil => exact List.takeWhile_eq_self_iff.mpr base.passed
    | cons number others =>
      rw [toList_withArguments, List.takeWhile_append_of_pos base.passed]
      simp
  rw [base.trim_withArguments, front, Text.trimCharacters_of_solid base.solid, String.ofList_toList,
    base.capital]

/-- What stands between the parentheses is the numbers with commas between them. The closing
parenthesis at the end is the last one, since digits and commas have none. -/
theorem argumentText?_withArguments (base : BaseName name) (number : Nat) (others : List Nat) :
    argumentText? (withArguments name (number :: others)).toList =
      some ([','].intercalate ((number :: others).map (Nat.toDigits 10))) := by
  rw [toList_withArguments, argumentText?, List.dropWhile_append_of_pos base.passed]
  simp [upToLast?_append_self]

/-- The numbers between the parentheses are the arguments. Digits have no commas, so each number is
a part by itself; without numbers there are no parentheses and no arguments. -/
theorem arguments_withArguments (base : BaseName name)
    (small : ∀ number ∈ numbers, number ≤ argumentLimit) :
    arguments (withArguments name numbers).toList = numbers.map some := by
  cases numbers with
  | nil =>
    have nothing : name.toList.dropWhile (· != '(') = [] :=
      List.dropWhile_eq_nil_iff.mpr base.passed
    simp [arguments, argumentText?, withArguments, nothing]
  | cons number others =>
    have free : ∀ digits ∈ (number :: others).map (Nat.toDigits 10), ',' ∉ digits := by
      intro digits member comma
      obtain ⟨argument, -, rfl⟩ := List.mem_map.mp member
      exact absurd (Nat.isDigit_of_mem_toDigits (by decide) (by decide) comma) (by decide)
    simp only [arguments, base.argumentText?_withArguments]
    rw [List.map_cons, splitAtCommas_intercalate free, ← List.map_cons, List.map_map]
    apply List.map_congr_left
    intro argument member
    have solid : Text.trimCharacters (Nat.toDigits 10 argument) = Nat.toDigits 10 argument :=
      Text.trimCharacters_of_solid fun _ digit =>
        Text.isBlank_of_isDigit (Nat.isDigit_of_mem_toDigits (by decide) (by decide) digit)
    rw [Function.comp_apply, solid, Text.readNatural?_toDigits (small argument member)]

/-- The argument at a place is the number at this place, and absent behind the last. The reader asks
for the first two places. -/
theorem argument_withArguments (base : BaseName name)
    (small : ∀ number ∈ numbers, number ≤ argumentLimit) (place : Nat) :
    (arguments (Text.trimCharacters (withArguments name numbers).toList))[place]?.join =
      numbers[place]? := by
  rw [base.trim_withArguments, base.arguments_withArguments small, List.getElem?_map]
  cases numbers[place]? <;> rfl

/-- A base name with small arguments names the type with this base name and these arguments. The
reader finds the name in front of the parentheses and the numbers between them. -/
theorem parse_withArguments (base : BaseName name)
    (small : ∀ number ∈ numbers, number ≤ argumentLimit) :
    parse (withArguments name numbers) =
      ofBase name numbers[0]? numbers[1]? (withArguments name numbers) := by
  rw [parse, base.upper_withArguments, base.argument_withArguments small,
    base.argument_withArguments small, base.trim_withArguments, String.ofList_toList]

end BaseName

/-! ### Types -/

/-- What the text in which a type is shown is read as: a scale without a precision is lost. Every
other type is settled already. -/
def settled : DataType → DataType
  | decimal none _ => decimal none none
  | type => type

/-- The types that have a name of their own, with arguments within the limit. A type that is not
known is none of them, and one without arguments always is. -/
def Known : DataType → Prop
  | decimal precision scale =>
    (∀ number ∈ precision, number ≤ argumentLimit) ∧ ∀ number ∈ scale, number ≤ argumentLimit
  | char length | varchar length => ∀ number ∈ length, number ≤ argumentLimit
  | other _ => False
  | _ => True

/-- Blanks around a text do not matter for the type that it names, since the reader takes them off
first. -/
theorem parse_trim (name : String) : parse (Text.trim name) = parse name := by
  simp [parse, Text.trim]

/-- A text names a known type, or is kept without the blanks around it. The arguments of a known
type are within the limit, as greater ones are not read. -/
theorem known_or_other (name : String) :
    Known (parse name) ∨ parse name = other (Text.trim name) := by
  have limit : ∀ place, ∀ number ∈ (arguments (Text.trimCharacters name.toList))[place]?.join,
      number ≤ argumentLimit := fun _ _ given => le_of_argument given
  unfold parse ofBase
  dsimp only
  split
  all_goals first
    | exact .inl trivial
    | exact .inl (limit 0)
    | exact .inl ⟨limit 0, limit 1⟩
    | exact .inr rfl

/-- Every known type is read back from the text in which it is shown, but for a scale that is not
shown. -/
theorem Known.parse_display {type : DataType} (known : Known type) :
    parse type.display = type.settled := by
  cases type with
  | decimal precision scale =>
    cases precision with
    | none =>
      show parse "DECIMAL" = decimal none none
      decide
    | some precision =>
      have small : ∀ number ∈ precision :: scale.toList, number ≤ argumentLimit := by
        simpa [Known] using known
      have base : BaseName "DECIMAL" := ⟨by decide, by decide, by decide⟩
      rw [display, base.parse_withArguments small]
      cases scale <;> rfl
  | char length =>
    have base : BaseName "CHAR" := ⟨by decide, by decide, by decide⟩
    rw [display, base.parse_withArguments (by simpa [Known] using known)]
    cases length <;> rfl
  | varchar length =>
    have base : BaseName "VARCHAR" := ⟨by decide, by decide, by decide⟩
    rw [display, base.parse_withArguments (by simpa [Known] using known)]
    cases length <;> rfl
  | other name => exact known.elim
  | _ => decide

/-- What a text names, shown and read again, is the settled type. So only a scale without a
precision is lost on the way, whatever the text was. -/
theorem parse_display_parse (name : String) :
    parse (parse name).display = (parse name).settled := by
  refine (known_or_other name).elim Known.parse_display fun unknown => ?_
  rw [unknown, display, parse_trim, unknown, settled]
  simp

/-- A type is settled unless it is a decimal number with a scale and no precision: this is the one
kind that is not read back from the text in which it is shown. -/
theorem settled_eq_self_iff (type : DataType) :
    type.settled = type ↔ ∀ scale, type ≠ decimal none (some scale) := by
  fun_cases settled type with
  | case1 scale => cases scale <;> simp
  | case2 type other => grind

end DataType

end QueryScope

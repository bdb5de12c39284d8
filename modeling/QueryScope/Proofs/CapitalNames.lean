import Mathlib.Data.List.Basic
import QueryScope.Proofs.CapitalCode
import QueryScope.Proofs.SelectLists
import QueryScope.Proofs.WrittenPaths

/-!
# Names in capitals

The readers of identifiers, paths, aliases and items tell characters apart by classes that a capital
shares with its letter, and words by their capitals. So they read characters in capitals alike: what
they return are the same parts at the same offsets, in capitals. Capitals take as many bytes, and
unquoting, trimming and decoding commute with them.
-/

namespace QueryScope

/-! ## Classes of characters -/

namespace Text

/-- What does not tell a letter of ASCII from its capital tells no character from its capital.
Capitals are those of ASCII, so a finite check settles every class of characters that the readers
use. -/
theorem toUpper_of_ascii {α : Type} (kind : Char → α)
    (checked : ∀ point < 128, kind (Char.ofNat point).toUpper = kind (Char.ofNat point))
    (character : Char) : kind character.toUpper = kind character := by
  by_cases ascii : character.toNat < 128
  · have here := checked character.toNat ascii
    rwa [Char.ofNat_toNat] at here
  · rw [EntryShape.toUpper_of_wide ascii]

/-- The capital of a character is blank where the character is. This is stated of functions, as the
readers pass `isBlank` to the operations on lists. -/
@[simp] theorem isBlank_comp_toUpper : isBlank ∘ Char.toUpper = isBlank :=
  funext (toUpper_of_ascii isBlank (by decide))

/-- A capital is blank where its letter is, which is never; every other character is its own
capital. -/
@[simp] theorem isBlank_toUpper (character : Char) : isBlank character.toUpper = isBlank character :=
  congrFun isBlank_comp_toUpper character

/-- A capital takes as many bytes as its letter. From this the offsets of all parts
stay the same. -/
@[simp] theorem utf8Size_toUpper (character : Char) :
    character.toUpper.utf8Size = character.utf8Size :=
  toUpper_of_ascii Char.utf8Size (by decide) character

/-- The capital of a letter is a letter, and no other character has a letter for its capital. -/
@[simp] theorem isAlpha_toUpper (character : Char) : character.toUpper.isAlpha = character.isAlpha :=
  toUpper_of_ascii Char.isAlpha (by decide) character

/-- Digits have no capitals, and no letter has a digit for its capital. -/
@[simp] theorem isDigit_toUpper (character : Char) : character.toUpper.isDigit = character.isDigit :=
  toUpper_of_ascii Char.isDigit (by decide) character

/-- A character that is no letter is the capital of itself alone. So a quote, a dot or a star in
capitals was one before, and a reader that waits for it waits as long. -/
theorem toUpper_eq_iff {mark : Char} (notLetter : mark.isAlpha = false) (character : Char) :
    character.toUpper = mark ↔ character = mark := by
  by_cases letter : character.isAlpha = true
  · have capital : character.toUpper.isAlpha = true := (isAlpha_toUpper character).trans letter
    constructor
    · rintro rfl
      rw [capital] at notLetter
      cases notLetter
    · rintro rfl
      rw [letter] at notLetter
      cases notLetter
  · have same : character.toUpper = character := by
      by_cases ascii : character.toNat < 128
      · have checked : ∀ point < 128, (Char.ofNat point).isAlpha = true ∨
            (Char.ofNat point).toUpper = Char.ofNat point := by decide
        have here := checked character.toNat ascii
        rw [Char.ofNat_toNat] at here
        exact here.resolve_left letter
      · exact EntryShape.toUpper_of_wide ascii
    rw [same]

/-- The comparison with a character that is no letter gives the same answer in capitals. This is
`toUpper_eq_iff` as the readers ask it. -/
theorem beq_toUpper {mark : Char} (notLetter : mark.isAlpha = false) (character : Char) :
    (character.toUpper == mark) = (character == mark) := by
  rw [Bool.eq_iff_iff, beq_iff_eq, beq_iff_eq]
  exact toUpper_eq_iff notLetter character

/-- A capital is the quote where its character is: the case of `beq_toUpper` that `simp` uses. -/
@[simp] theorem beq_quote_toUpper (character : Char) :
    (character.toUpper == '"') = (character == '"') := beq_toUpper (by decide) character

/-- What is not a quote stays so in capitals, as a function, for the search of a closing quote. -/
@[simp] theorem bne_quote_comp_toUpper : (· != '"') ∘ Char.toUpper = (· != '"') :=
  funext fun character => congrArg (!·) (beq_quote_toUpper character)

/-- Characters that are no letters are the capitals of themselves alone, as a whole list. The marks
of an item that names nothing are of this kind. -/
theorem map_toUpper_eq_iff {marks : List Char}
    (noLetters : marks.all (fun mark => !mark.isAlpha) = true) (characters : List Char) :
    characters.map Char.toUpper = marks ↔ characters = marks := by
  induction marks generalizing characters with
  | nil => exact List.map_eq_nil_iff
  | cons mark others inductionHypothesis =>
    rw [List.all_cons, Bool.and_eq_true, Bool.not_eq_true'] at noLetters
    cases characters with
    | nil => simp
    | cons character rest =>
      rw [List.map_cons, List.cons.injEq, List.cons.injEq, toUpper_eq_iff noLetters.1,
        inductionHypothesis noLetters.2]

/-- The capital of a capital is itself, so a second change to capitals does nothing. -/
@[simp] theorem toUpper_toUpper (character : Char) :
    character.toUpper.toUpper = character.toUpper :=
  toUpper_of_ascii Char.toUpper (by decide) character

/-- A text in capitals stays as it is when it is put in capitals once more. -/
@[simp] theorem upper_upper (name : String) : upper (upper name) = upper name := by
  have twice : Char.toUpper ∘ Char.toUpper = Char.toUpper := funext toUpper_toUpper
  rw [upper, upper, String.toList_ofList, List.map_map, twice]

/-- Names are compared by their capitals, so the first may be put in capitals before the
comparison. -/
@[simp] theorem sameName_upper_left (left right : String) :
    sameName (upper left) right = sameName left right := by
  rw [sameName, sameName, upper_upper]

/-- Names are compared by their capitals, so the second may be put in capitals before the
comparison. -/
@[simp] theorem sameName_upper_right (left right : String) :
    sameName left (upper right) = sameName left right := by
  rw [sameName, sameName, upper_upper]

/-- The text that characters spell, in capitals, is the text that their capitals spell. -/
theorem upper_ofList (characters : List Char) :
    upper (String.ofList characters) = String.ofList (characters.map Char.toUpper) := by
  rw [upper, String.toList_ofList]

/-- A text in capitals is trimmed of the same blanks. Trimming looks at blanks alone, and capitals
neither make a blank nor take one away. -/
theorem trim_upper (text : String) : trim (upper text) = upper (trim text) := by
  rw [trim, trim, upper_ofList, upper, String.toList_ofList]
  simp only [trimCharacters, dropLeadingBlanks, dropTrailingBlanks, List.dropWhile_map,
    isBlank_comp_toUpper, ← List.map_reverse]

end Text

open Text

/-- A word is reserved in capitals where it is reserved. The table is searched without regard to
case. -/
@[simp] theorem Word.isReserved_upper (word : String) : isReserved (upper word) = isReserved word := by
  have same : Text.sameName (upper word) = Text.sameName word := funext (sameName_upper_left word)
  rw [isReserved, isReserved, same]

/-- Capitals take as many bytes as what they are the capitals of. All offsets are sums of such
widths, so they are the same in capitals. -/
@[simp] theorem Bytes.width_map_toUpper (characters : List Char) :
    width (characters.map Char.toUpper) = width characters := by
  induction characters with
  | nil => rfl
  | cons character others inductionHypothesis =>
    have size := utf8Size_toUpper character
    rw [List.map_cons, width, width, inductionHypothesis, size]

/-! ## Identifiers and paths -/

namespace Identifier

/-- A capital begins a name where its letter does, under both readings of letters. The two foreign
letters that fold into ASCII are no capitals of other characters. -/
@[simp] theorem startsName_toUpper (letters : Letters) (character : Char) :
    startsName letters character.toUpper = startsName letters character := by
  simp only [startsName, Letters.contains, isAlpha_toUpper,
    beq_toUpper (by decide : Letters.longS.isAlpha = false),
    beq_toUpper (by decide : Letters.kelvin.isAlpha = false),
    beq_toUpper (by decide : '_'.isAlpha = false)]

/-- A capital goes on with a name where its letter does. This is stated of functions, as a name is
the longest run of such characters. -/
@[simp] theorem continuesName_comp_toUpper (letters : Letters) :
    continuesName letters ∘ Char.toUpper = continuesName letters := by
  funext character
  simp only [Function.comp_apply, continuesName, startsName_toUpper, isDigit_toUpper,
    beq_toUpper (by decide : '$'.isAlpha = false), beq_toUpper (by decide : '#'.isAlpha = false),
    beq_toUpper (by decide : '@'.isAlpha = false)]

/-- A capital folds to the same letters as its character. The words `AS` and the placeholder's are
found by folding, hence in capitals too. -/
@[simp] theorem foldsTo_toUpper (capital character : Char) :
    Letters.foldsTo capital character.toUpper = Letters.foldsTo capital character := by
  simp only [Letters.foldsTo, toUpper_toUpper,
    beq_toUpper (by decide : Letters.longS.isAlpha = false),
    beq_toUpper (by decide : Letters.kelvin.isAlpha = false)]

/-- The identifier at the beginning is read in capitals, quoted or bare. It ends at the same
character, and a quoted one that is not closed is not read in either. -/
@[simp] theorem read?_map_toUpper (letters : Letters) (characters : List Char) :
    read? letters (characters.map Char.toUpper) =
      (read? letters characters).map fun (name, rest) =>
        (name.map Char.toUpper, rest.map Char.toUpper) := by
  cases characters with
  | nil => rfl
  | cons first rest =>
    simp only [List.map_cons, read?, beq_quote_toUpper, startsName_toUpper, List.takeWhile_map,
      List.dropWhile_map, bne_quote_comp_toUpper, continuesName_comp_toUpper]
    split
    · cases rest.dropWhile (· != '"') with
      | nil => rfl
      | cons quote after =>
        simp only [List.map_cons, Option.map_some, List.cons_append, List.map_append, List.map_nil]
    · split <;> rfl

/-- Characters are one whole identifier in capitals where they are one: the same is read and nothing
is left behind it. -/
@[simp] theorem isWhole_map_toUpper (letters : Letters) (characters : List Char) :
    isWhole letters (characters.map Char.toUpper) = isWhole letters characters := by
  rw [isWhole, isWhole, read?_map_toUpper]
  cases read? letters characters with
  | none => rfl
  | some found =>
    obtain ⟨name, rest⟩ := found
    cases rest <;> rfl

/-- A dot with blanks around it is passed in capitals, up to the same place. A dot is no letter, so
capitals bring in none. -/
@[simp] theorem afterDot?_map_toUpper (characters : List Char) :
    afterDot? (characters.map Char.toUpper) =
      (afterDot? characters).map (List.map Char.toUpper) := by
  simp only [afterDot?, List.dropWhile_map, isBlank_comp_toUpper]
  cases characters.dropWhile isBlank with
  | nil => rfl
  | cons first rest =>
    by_cases isDot : first = '.'
    · subst isDot
      have dot : Char.toUpper '.' = '.' := by decide
      simp only [List.map_cons, dot, List.dropWhile_map, isBlank_comp_toUpper, Option.map_some]
    · have notDot : first.toUpper ≠ '.' := fun same => isDot ((toUpper_eq_iff (by decide) first).mp same)
      simp [isDot, notDot]

/-- The word `AS` with a blank behind it is passed in capitals, up to the same place. It is found by
folding its letters, which capitals do not change. -/
@[simp] theorem afterAs?_map_toUpper (characters : List Char) :
    afterAs? (characters.map Char.toUpper) = (afterAs? characters).map (List.map Char.toUpper) := by
  match characters with
  | [] => rfl
  | [_] => rfl
  | first :: second :: rest =>
    have blank : (rest.map Char.toUpper).head?.any isBlank = rest.head?.any isBlank := by
      rw [List.head?_map, Option.any_map]
      exact congrArg (rest.head?.any ·) isBlank_comp_toUpper
    simp only [List.map_cons, afterAs?, foldsTo_toUpper, blank, List.dropWhile_map,
      isBlank_comp_toUpper]
    split <;> rfl

end Identifier

/-- A fragment in capitals: the same offset, with its characters in capitals. -/
def Fragment.capitals (fragment : Fragment) : Fragment :=
  { fragment with characters := fragment.characters.map Char.toUpper }

/-- A fragment in capitals has the same span. The offset is kept and the width of the characters is
the same, so its end is too. -/
@[simp] theorem Fragment.span_capitals (fragment : Fragment) :
    fragment.capitals.span = fragment.span := by
  simp only [capitals, span, stop, Bytes.width_map_toUpper]

namespace Identifier

section

variable {letters : Letters} {characters name rest ahead : List Char}

/-- An identifier that is read is read in capitals. This is `read?_map_toUpper` where the reading
succeeds. -/
theorem read?_capitals (reading : read? letters characters = some (name, rest)) :
    read? letters (characters.map Char.toUpper) =
      some (name.map Char.toUpper, rest.map Char.toUpper) := by
  rw [read?_map_toUpper, reading, Option.map_some]

/-- A dot that is passed is passed in capitals. This is `afterDot?_map_toUpper` where there is a
dot. -/
theorem afterDot?_capitals (skipped : afterDot? rest = some ahead) :
    afterDot? (rest.map Char.toUpper) = some (ahead.map Char.toUpper) := by
  rw [afterDot?_map_toUpper, skipped, Option.map_some]

end

/-- A path is read in capitals: the same parts at the same offsets, and the same rest. The induction
is that of the reader, which stops, ends or goes on at the same dots. -/
@[simp] theorem readPath_map_toUpper (letters : Letters) (offset : Nat) (characters : List Char) :
    readPath letters offset (characters.map Char.toUpper) =
      ((readPath letters offset characters).1.map Fragment.capitals,
        (readPath letters offset characters).2.map Char.toUpper) := by
  fun_induction readPath letters offset characters with
  | case1 offset characters notRead =>
    rw [readPath_of_none offset (by rw [read?_map_toUpper, notRead, Option.map_none])]
    rfl
  | case2 offset characters name rest reading noDot =>
    have noDotInCapitals : afterDot? (rest.map Char.toUpper) = none := by
      rw [afterDot?_map_toUpper, noDot, Option.map_none]
    exact readPath_of_last offset (read?_capitals reading) noDotInCapitals
  | case3 offset characters name rest reading ahead skipped skippedWidth after further
      inductionHypothesis =>
    rw [further, List.map_nil] at inductionHypothesis
    apply readPath_of_dangling (read?_capitals reading) (afterDot?_capitals skipped)
    rw [Bytes.width_map_toUpper, Bytes.width_map_toUpper, inductionHypothesis]
  | case4 offset characters name rest reading ahead skipped skippedWidth next others after further
      inductionHypothesis =>
    rw [further, List.map_cons] at inductionHypothesis
    apply readPath_of_dot (read?_capitals reading) (afterDot?_capitals skipped)
    rw [Bytes.width_map_toUpper, Bytes.width_map_toUpper, inductionHypothesis]

/-- Pairs of quotes are made one in capitals as well. The pairs stand at the same places, as a quote
is the capital of a quote alone. -/
theorem undouble_map_toUpper (characters : List Char) :
    undouble (characters.map Char.toUpper) = (undouble characters).map Char.toUpper := by
  have quote : Char.toUpper '"' = '"' := by decide
  fun_induction undouble characters with
  | case1 rest inductionHypothesis =>
    simp only [List.map_cons, quote, undouble, inductionHypothesis]
  | case2 character rest single inductionHypothesis =>
    have singleInCapitals : ∀ behind, character.toUpper = '"' →
        rest.map Char.toUpper = '"' :: behind → False := by
      intro behind isQuote isNext
      obtain ⟨next, others, rfl, isNextQuote, _⟩ := List.map_eq_cons_iff.mp isNext
      rw [toUpper_eq_iff (by decide)] at isQuote isNextQuote
      exact single others isQuote (by rw [isNextQuote])
    rw [List.map_cons, undouble, inductionHypothesis, List.map_cons]
    exact singleInCapitals
  | case3 => rfl

/-- The name that an identifier in capitals stands for is the name of the identifier in capitals.
Quotes around it are seen in both or in neither. -/
@[simp] theorem unquote_upper (identifier : String) :
    unquote (upper identifier) = upper (unquote identifier) := by
  have isUpper : (upper identifier).toList = identifier.toList.map Char.toUpper := by
    rw [upper, String.toList_ofList]
  have quote : Char.toUpper '"' = '"' := by decide
  rw [unquote, unquote, isUpper]
  cases identifier.toList with
  | nil => rfl
  | cons first rest =>
    by_cases isQuote : first = '"'
    · subst isQuote
      have closes : ((rest.map Char.toUpper).getLast? == some '"') = (rest.getLast? == some '"') := by
        rw [List.getLast?_map]
        cases rest.getLast? with
        | none => rfl
        | some last => exact beq_quote_toUpper last
      simp only [List.map_cons, quote, closes, ← List.map_dropLast, undouble_map_toUpper]
      split
      · rw [upper_ofList]
      · rfl
    · have notQuote : first.toUpper ≠ '"' := fun same => isQuote ((toUpper_eq_iff (by decide) first).mp same)
      simp [isQuote, notQuote]

end Identifier

/-! ## Entries -/

/-- The placeholder of a derived table is read in capitals, with the same rest. Its letters are
compared by folding. -/
@[simp] theorem Placeholder.read?_map_toUpper (characters : List Char) :
    read? (characters.map Char.toUpper) = (read? characters).map fun (placeholder, after) =>
      (placeholder.map Char.toUpper, after.map Char.toUpper) := by
  have same : (fun pair : Char × Char => Letters.foldsTo pair.1 pair.2) ∘ Prod.map id Char.toUpper =
      fun pair => Letters.foldsTo pair.1 pair.2 :=
    funext fun pair => Identifier.foldsTo_toUpper pair.1 pair.2
  simp only [read?, ← List.map_take, ← List.map_drop, List.length_map, List.zip_map_right,
    List.all_map, same]
  split <;> rfl

namespace FromEntry

/-- A shape in capitals: the qualifier is a span and stays, the name and the alias are
in capitals. -/
def Shape.capitals (shape : Shape) : Shape where
  qualifier := shape.qualifier
  name := shape.name.capitals
  aliasName := shape.aliasName.map Fragment.capitals

/-- The alias behind a name is read in capitals, at the same offset. It needs a blank in front and
may have the word `AS`, and both are seen alike. -/
@[simp] theorem readAlias?_map_toUpper (offset : Nat) (characters : List Char) :
    readAlias? offset (characters.map Char.toUpper) =
      (readAlias? offset characters).map Fragment.capitals := by
  have blank : (characters.map Char.toUpper).head?.any isBlank = characters.head?.any isBlank := by
    rw [List.head?_map, Option.any_map]
    exact congrArg (characters.head?.any ·) isBlank_comp_toUpper
  simp only [readAlias?, blank, List.dropWhile_map, isBlank_comp_toUpper,
    Identifier.afterAs?_map_toUpper, Identifier.read?_map_toUpper, Bytes.width_map_toUpper]
  split
  · rw [Option.bind_map, Option.map_or, Option.map_bind, Option.map_map, Option.map_map]
    congr 1
    congr 1
    funext rest
    simp only [Function.comp_apply, Identifier.read?_map_toUpper, Bytes.width_map_toUpper,
      Option.map_map]
    rfl
  · rfl

/-- The span from the first part of a path to its last is the same in capitals, as each part keeps
its own. -/
@[simp] theorem cover_map_capitals (path : List Fragment) :
    cover (path.map Fragment.capitals) = cover path := by
  rw [cover, cover, List.head?_map, List.getLast?_map]
  cases path.head? with
  | none => rfl
  | some first =>
    cases path.getLast? with
    | none => rfl
    | some last => simp only [Option.map_some, Fragment.capitals, Fragment.stop, Bytes.width_map_toUpper]

/-- The parts of an entry are read in capitals. The readers of the path, of the placeholder and of
the alias are asked for the same places, and each gives its own law. -/
theorem Shape.read?_map_toUpper (characters : List Char) :
    Shape.read? (characters.map Char.toUpper) = (Shape.read? characters).map Shape.capitals := by
  simp only [Shape.read?, Identifier.readPath_map_toUpper, List.isEmpty_map,
    Identifier.afterDot?_map_toUpper, Bytes.width_map_toUpper, cover_map_capitals,
    readAlias?_map_toUpper, ← List.map_dropLast, List.getLast?_map]
  obtain ⟨path, rest⟩ := Identifier.readPath .folded 0 characters
  have before : (if path.isEmpty = true then some (rest.map Char.toUpper)
      else (Identifier.afterDot? rest).map (List.map Char.toUpper)) =
        (if path.isEmpty = true then some rest else Identifier.afterDot? rest).map
          (List.map Char.toUpper) := by
    split <;> rfl
  simp only [before]
  have named : (path.getLast?.map Fragment.capitals).map (fun name : Fragment =>
      (⟨cover path.dropLast, name, (readAlias? name.stop rest).map Fragment.capitals⟩ : Shape)) =
        (path.getLast?.map fun name => (⟨cover path.dropLast, name, readAlias? name.stop rest⟩ :
          Shape)).map Shape.capitals := by
    cases path.getLast? with
    | none => rfl
    | some name =>
      simp only [Option.map_some, Shape.capitals, Fragment.capitals, Fragment.stop,
        Bytes.width_map_toUpper]
  cases (if path.isEmpty = true then some rest else Identifier.afterDot? rest) with
  | none => exact named
  | some ahead =>
    simp only [Option.map_some, Option.bind_some, Placeholder.read?_map_toUpper]
    cases Placeholder.read? ahead with
    | none => exact named
    | some found =>
      simp only [Option.map_some, Bytes.width_map_toUpper, Fragment.stop, readAlias?_map_toUpper]
      rfl

end FromEntry

/-! ## Items of a select list -/

namespace SelectItem

/-- A capital ends an operand where its character does. So an alias without `AS` is accepted behind
the same characters. -/
@[simp] theorem endsOperand_comp_toUpper : endsOperand ∘ Char.toUpper = endsOperand :=
  funext (toUpper_of_ascii endsOperand (by decide))

/-- What stands like an alias at the end of an item stands at the same place in capitals, with or
without `AS` as before. -/
def TrailingAlias.capitals (trailing : TrailingAlias) : TrailingAlias :=
  { trailing with name := trailing.name.map Char.toUpper }

/-- The search for an alias at the end of an item ends at the same blank in capitals. At each blank
both the form with `AS` and the form without are found in both or in neither. -/
theorem trailingAlias?_map_toUpper (offset : Nat) (characters : List Char) :
    trailingAlias? offset (characters.map Char.toUpper) =
      (trailingAlias? offset characters).map TrailingAlias.capitals := by
  induction characters generalizing offset with
  | nil => rfl
  | cons character rest inductionHypothesis =>
    have whole : Identifier.isWhole .folded ∘ List.map Char.toUpper = Identifier.isWhole .folded :=
      funext (Identifier.isWhole_map_toUpper .folded)
    simp only [List.map_cons, trailingAlias?, isBlank_toUpper, List.dropWhile_map,
      isBlank_comp_toUpper, Identifier.afterAs?_map_toUpper, Option.filter_map, whole,
      Identifier.isWhole_map_toUpper, utf8Size_toUpper, inductionHypothesis]
    split
    · cases (Identifier.afterAs? (rest.dropWhile isBlank)).filter (Identifier.isWhole .folded) with
      | some name => rfl
      | none =>
        simp only [Option.map_none]
        split <;> rfl
    · rfl

/-- An identifier in capitals may name a column where the identifier may: it is quoted, or it is no
reserved word. -/
theorem mayName_map_toUpper (name : List Char) : mayName (name.map Char.toUpper) = mayName name := by
  have quoted : ((name.map Char.toUpper).head? == some '"') = (name.head? == some '"') := by
    cases name with
    | nil => rfl
    | cons first rest => exact beq_quote_toUpper first
  rw [mayName, mayName, quoted, ← upper_ofList, Word.isReserved_upper]

/-- The same is accepted as an alias when all is in capitals: it may name a column, and it has the
word `AS` or follows a character that ends an operand. -/
theorem isAccepted_capitals (trailing : TrailingAlias) (before : List Char) :
    trailing.capitals.isAccepted (before.map Char.toUpper) = trailing.isAccepted before := by
  have operand : (before.map Char.toUpper).getLast?.any endsOperand =
      before.getLast?.any endsOperand := by
    rw [List.getLast?_map, Option.any_map]
    exact congrArg (before.getLast?.any ·) endsOperand_comp_toUpper
  simp only [TrailingAlias.isAccepted, TrailingAlias.capitals, mayName_map_toUpper, operand]

/-- So an item has the same alias in capitals. The characters in front of it are found by its
offset, which cuts the item at the same character. -/
theorem acceptedAlias?_map_toUpper (characters : List Char) :
    acceptedAlias? (characters.map Char.toUpper) =
      (acceptedAlias? characters).map TrailingAlias.capitals := by
  rw [acceptedAlias?, acceptedAlias?, trailingAlias?_map_toUpper]
  cases found : trailingAlias? 0 characters with
  | none => rfl
  | some trailing =>
    obtain ⟨front, back, rfl, place, _⟩ := exists_append_of_trailingAlias? found
    have before : charactersBefore (front ++ (back ++ trailing.name)) trailing.start = front := by
      rw [place, Nat.zero_add, charactersBefore_append]
    have beforeCapitals : charactersBefore ((front ++ (back ++ trailing.name)).map Char.toUpper)
        trailing.capitals.start = front.map Char.toUpper := by
      have isStart : trailing.capitals.start = Bytes.width (front.map Char.toUpper) := by
        rw [Bytes.width_map_toUpper]
        exact place.trans (Nat.zero_add _)
      rw [List.map_append, isStart, charactersBefore_append]
    rw [Option.map_some, Option.filter_some, Option.filter_some, before, beforeCapitals,
      isAccepted_capitals]
    split <;> rfl

/-- An item in capitals names nothing where the item names nothing: it is empty, or a star, or ends
in a dot and a star. These marks are no letters. -/
theorem namesNothing_map_toUpper (code : List Char) :
    namesNothing (code.map Char.toUpper) = namesNothing code := by
  have star : (code.map Char.toUpper == ['*']) = (code == ['*']) := by
    rw [Bool.eq_iff_iff, beq_iff_eq, beq_iff_eq]
    exact map_toUpper_eq_iff (by decide) code
  have allColumns : ['.', '*'].isSuffixOf (code.map Char.toUpper) = ['.', '*'].isSuffixOf code := by
    rw [Bool.eq_iff_iff, List.isSuffixOf_iff_suffix, List.isSuffixOf_iff_suffix]
    constructor
    · rintro ⟨front, isEnd⟩
      obtain ⟨before, ending, rfl, _, isMarks⟩ := List.map_eq_append_iff.mp isEnd.symm
      rw [map_toUpper_eq_iff (by decide)] at isMarks
      rw [isMarks]
      exact List.suffix_append before _
    · rintro ⟨front, rfl⟩
      rw [List.map_append]
      exact List.suffix_append (front.map Char.toUpper) _
  simp only [namesNothing, List.isEmpty_map, star, allColumns]

/-- The identifier that an item without an alias ends with is the same in capitals. It is the last
part of a path that is the whole item, or the item itself. -/
theorem lastName?_map_toUpper (code : List Char) :
    lastName? (code.map Char.toUpper) = (lastName? code).map (List.map Char.toUpper) := by
  have whole : (if (Identifier.isWhole .plain code && mayName code) = true then
      some (code.map Char.toUpper) else none) =
        (if (Identifier.isWhole .plain code && mayName code) = true then some code else
          none).map (List.map Char.toUpper) := by
    split <;> rfl
  simp only [lastName?, Identifier.readPath_map_toUpper, Identifier.isWhole_map_toUpper,
    mayName_map_toUpper]
  obtain ⟨path, rest⟩ := Identifier.readPath .plain 0 code
  rcases path with _ | ⟨initial, _ | ⟨next, others⟩⟩
  · exact whole
  · exact whole
  · cases rest with
    | nil =>
      change ((next :: others).map Fragment.capitals).getLast?.map (·.characters) =
        ((next :: others).getLast?.map (·.characters)).map (List.map Char.toUpper)
      rw [List.getLast?_map, Option.map_map, Option.map_map]
      rfl
    | cons character more => exact whole

/-- The identifier at the end of an item is the same in capitals. The three questions that decide
it, whether it names nothing, has an alias or ends in a name, have the same answers. -/
theorem visibleName?_map_toUpper (code : List Char) :
    visibleName? (code.map Char.toUpper) = (visibleName? code).map (List.map Char.toUpper) := by
  rw [visibleName?, visibleName?, namesNothing_map_toUpper, acceptedAlias?_map_toUpper,
    lastName?_map_toUpper]
  split
  · rfl
  · cases acceptedAlias? code with
    | some trailing => rfl
    | none => rfl

end SelectItem

end QueryScope

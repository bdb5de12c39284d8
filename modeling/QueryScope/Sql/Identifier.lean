import QueryScope.Text.Blank
import QueryScope.Text.Span
import QueryScope.Text.Bytes

/-!
# Identifiers and paths

An identifier is a bare name of letters, digits, `_`, `$`, `#` and `@`, or any characters between
double quotes. Identifiers joined by dots, with blanks allowed around each dot, form a path. They
are read from the characters of the code view, where the contents of quotes are blank, and the
reader reports where each one stands so that its spelling can be cut out of the query itself.
-/

namespace QueryScope

/-- Which characters are letters of a bare name. -/
inductive Letters where
  /-- The letters of ASCII. -/
  | plain
  /-- Every character that equals an ASCII letter when case is disregarded: the letters of ASCII,
  the long s and the sign for kelvin. -/
  | folded
deriving DecidableEq, Repr

namespace Letters

/-- The long s, whose capital is `S`. -/
def longS : Char := Char.ofNat 0x17F

/-- The sign for kelvin, whose small form is `k`. -/
def kelvin : Char := Char.ofNat 0x212A

/-- Whether a character is a letter. -/
def contains (letters : Letters) (character : Char) : Bool :=
  character.isAlpha || (letters == .folded && (character == longS || character == kelvin))

/-- Whether a character equals an ASCII capital when case is disregarded. -/
def foldsTo (capital character : Char) : Bool :=
  character.toUpper == capital || (capital == 'S' && character == longS)
    || (capital == 'K' && character == kelvin)

end Letters

/-- A part of a piece of code: its characters and the offset, in bytes, at which it stands. -/
structure Fragment where
  offset : Nat
  characters : List Char
deriving DecidableEq, Repr

namespace Fragment

/-- The offset just behind the fragment. -/
def stop (fragment : Fragment) : Nat := fragment.offset + Bytes.width fragment.characters

/-- Where the fragment stands. -/
def span (fragment : Fragment) : Span := ⟨fragment.offset, fragment.stop⟩

/-- The fragment's text. -/
def text (fragment : Fragment) : String := String.ofList fragment.characters

/-- Whether the fragment is written between quotes. -/
def isQuoted (fragment : Fragment) : Bool := fragment.characters.head? == some '"'

end Fragment

namespace Identifier

/-- Whether a bare name may begin with the character. -/
def startsName (letters : Letters) (character : Char) : Bool :=
  letters.contains character || character == '_'

/-- Whether a bare name may go on with the character. -/
def continuesName (letters : Letters) (character : Char) : Bool :=
  startsName letters character || character.isDigit || character == '$' || character == '#'
    || character == '@'

/-- The identifier that the characters begin with, as long as it can be, and what follows it. -/
def read? (letters : Letters) : List Char → Option (List Char × List Char)
  | [] => none
  | first :: rest =>
    if first == '"' then
      match rest.dropWhile (· != '"') with
      | [] => none
      | quote :: after => some (first :: rest.takeWhile (· != '"') ++ [quote], after)
    else if startsName letters first then
      some (first :: rest.takeWhile (continuesName letters),
        rest.dropWhile (continuesName letters))
    else
      none

/-- Whether the characters are one identifier and nothing else. -/
def isWhole (letters : Letters) (characters : List Char) : Bool :=
  match read? letters characters with
  | some (_, []) => true
  | _ => false

/-- Reading an identifier uses characters up. -/
theorem length_of_read?_eq_some {letters : Letters} {characters name rest : List Char}
    (reading : read? letters characters = some (name, rest)) :
    rest.length < characters.length := by
  cases characters with
  | nil => cases reading
  | cons first others =>
    simp only [read?] at reading
    split at reading
    · split at reading
      · cases reading
      · rename_i quote after remains
        cases reading
        have shorter := (List.dropWhile_suffix (· != '"') (l := others)).length_le
        rw [remains] at shorter
        simp only [List.length_cons] at shorter ⊢
        omega
    · split at reading
      · cases reading
        have shorter := (List.dropWhile_suffix (continuesName letters) (l := others)).length_le
        simp only [List.length_cons]
        omega
      · cases reading

/-- What follows a dot, when the characters begin with one; blanks around the dot are skipped. -/
def afterDot? (characters : List Char) : Option (List Char) :=
  match characters.dropWhile Text.isBlank with
  | '.' :: rest => some (rest.dropWhile Text.isBlank)
  | _ => none

/-- Skipping a dot uses characters up. -/
theorem length_of_afterDot?_eq_some {characters rest : List Char}
    (skipped : afterDot? characters = some rest) : rest.length < characters.length := by
  simp only [afterDot?] at skipped
  split at skipped
  · rename_i behind remains
    cases skipped
    have blanksBefore := (List.dropWhile_suffix Text.isBlank (l := characters)).length_le
    have blanksBehind := (List.dropWhile_suffix Text.isBlank (l := behind)).length_le
    rw [remains] at blanksBefore
    simp only [List.length_cons] at blanksBefore
    omega
  · cases skipped

/-- The identifiers of the path that the characters begin with, as long as it can be, and what
follows the last of them. The characters stand at `offset`. A dot that no identifier follows is
not part of the path. -/
def readPath (letters : Letters) (offset : Nat) (characters : List Char) :
    List Fragment × List Char :=
  match _ : read? letters characters with
  | none => ([], characters)
  | some (name, rest) =>
    match _ : afterDot? rest with
    | none => ([⟨offset, name⟩], rest)
    | some ahead =>
      let skippedWidth := Bytes.width characters - Bytes.width ahead
      match readPath letters (offset + skippedWidth) ahead with
      | ([], _) => ([⟨offset, name⟩], rest)
      | (next :: others, after) => (⟨offset, name⟩ :: next :: others, after)
termination_by characters.length
decreasing_by
  have readShorter := length_of_read?_eq_some ‹read? letters characters = some (name, rest)›
  have skippedShorter := length_of_afterDot?_eq_some ‹afterDot? rest = some ahead›
  omega

/-- What follows the word `AS` and the blanks behind it, when the characters begin with both. -/
def afterAs? : List Char → Option (List Char)
  | first :: second :: rest =>
    if Letters.foldsTo 'A' first && Letters.foldsTo 'S' second && rest.head?.any Text.isBlank then
      some (rest.dropWhile Text.isBlank)
    else
      none
  | _ => none

/-- Characters with each pair of double quotes made one. -/
def undouble : List Char → List Char
  | '"' :: '"' :: rest => '"' :: undouble rest
  | character :: rest => character :: undouble rest
  | [] => []

/-- The name that an identifier stands for: what is between the quotes, with quotes that are
written twice made one, or the bare name itself. -/
def unquote (identifier : String) : String :=
  match identifier.toList with
  | '"' :: rest =>
    if rest.getLast? == some '"' then String.ofList (undouble rest.dropLast) else identifier
  | _ => identifier

end Identifier

end QueryScope

/-!
# Blank characters

The characters that the standard calls white space, inside and outside ASCII. Names, type names
and settings are trimmed of them, and patterns skip them. They are a larger set than the blanks
that separate words of a query, which are bytes.
-/

namespace QueryScope.Text

/-- The characters with the `White_Space` property. -/
def isBlank (character : Char) : Bool :=
  let point := character.toNat
  decide (0x9 ≤ point ∧ point ≤ 0xD) || point == 0x20 || point == 0x85 || point == 0xA0
    || point == 0x1680 || decide (0x2000 ≤ point ∧ point ≤ 0x200A) || point == 0x2028
    || point == 0x2029 || point == 0x202F || point == 0x205F || point == 0x3000

/-- Characters without the blanks at the front. -/
def dropLeadingBlanks (characters : List Char) : List Char := characters.dropWhile isBlank

/-- Characters without the blanks at the end. -/
def dropTrailingBlanks (characters : List Char) : List Char :=
  (characters.reverse.dropWhile isBlank).reverse

/-- Characters without the blanks at either end. -/
def trimCharacters (characters : List Char) : List Char :=
  dropTrailingBlanks (dropLeadingBlanks characters)

/-- A text without the blanks at either end. -/
def trim (text : String) : String := String.ofList (trimCharacters text.toList)

/-- Whether a text has no character other than blanks. -/
def isBlankText (text : String) : Bool := text.toList.all isBlank

/-- The maximal runs of other characters between blanks, in order. -/
def blankSeparated : List Char → List (List Char)
  | [] => []
  | character :: rest =>
    if isBlank character then
      blankSeparated rest
    else match rest, blankSeparated rest with
      | next :: _, word :: words =>
        if isBlank next then [character] :: word :: words else (character :: word) :: words
      | _, words => [character] :: words

end QueryScope.Text

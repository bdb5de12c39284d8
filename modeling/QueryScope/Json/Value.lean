import QueryScope.Text.Escaped

/-!
# Writing JSON

A value is written with its members in the order in which they are given, either on one line
without blanks, or over several lines with each level of nesting moved in by two spaces.
-/

namespace QueryScope

/-- A value to be written. -/
inductive Json where
  | null
  | boolean (value : Bool)
  | number (value : Nat)
  | text (value : String)
  | list (elements : List Json)
  | record (members : List (String × Json))
deriving Repr

namespace Json

/-- A text, or null when it is absent. -/
def optionalText (value : Option String) : Json := value.elim null text

/-- A number, or null when it is absent. -/
def optionalNumber (value : Option Nat) : Json := value.elim null number

/-- A list of texts. -/
def texts (values : List String) : Json := list (values.map text)

/-- One character of a text. Only quotes, backslashes and the characters below the space are
escaped. -/
def escapeCharacter (character : Char) : List Char :=
  match character with
  | '"' => ['\\', '"']
  | '\\' => ['\\', '\\']
  | '\x08' => ['\\', 'b']
  | '\x0c' => ['\\', 'f']
  | '\n' => ['\\', 'n']
  | '\r' => ['\\', 'r']
  | '\t' => ['\\', 't']
  | other =>
    if other.toNat < 0x20 then
      let digits := Text.hexadecimal other.toNat
      ['\\', 'u'] ++ List.replicate (4 - digits.length) '0' ++ digits
    else
      [other]

/-- A text between double quotes, escaped. -/
def quote (value : String) : String :=
  String.ofList ('"' :: value.toList.flatMap escapeCharacter ++ ['"'])

mutual

/-- A value on one line. -/
def compact : Json → String
  | null => "null"
  | boolean value => if value then "true" else "false"
  | number value => value.repr
  | text value => quote value
  | list elements => "[" ++ String.intercalate "," (compactElements elements) ++ "]"
  | record members => "\x7b" ++ String.intercalate "," (compactMembers members) ++ "\x7d"

/-- The elements of a list, each on one line. -/
def compactElements : List Json → List String
  | [] => []
  | element :: others => compact element :: compactElements others

/-- The members of a record, each on one line. -/
def compactMembers : List (String × Json) → List String
  | [] => []
  | (name, value) :: others => (quote name ++ ":" ++ compact value) :: compactMembers others

end

/-- The beginning of a line at some level of nesting. -/
def newLine (level : Nat) : String := "\n" ++ String.ofList (List.replicate (2 * level) ' ')

/-- Parts on lines of their own between two brackets; nothing stands between the brackets when
there are no parts. -/
def enclose (level : Nat) (opening closing : String) (parts : List String) : String :=
  if parts.isEmpty then
    opening ++ closing
  else
    opening ++ newLine (level + 1) ++ String.intercalate ("," ++ newLine (level + 1)) parts
      ++ newLine level ++ closing

mutual

/-- A value over several lines, at some level of nesting. -/
def prettyAt (level : Nat) : Json → String
  | null => "null"
  | boolean value => if value then "true" else "false"
  | number value => value.repr
  | text value => quote value
  | list elements => enclose level "[" "]" (prettyElements (level + 1) elements)
  | record members => enclose level "\x7b" "\x7d" (prettyMembers (level + 1) members)

/-- The elements of a list, at some level of nesting. -/
def prettyElements (level : Nat) : List Json → List String
  | [] => []
  | element :: others => prettyAt level element :: prettyElements level others

/-- The members of a record, at some level of nesting. -/
def prettyMembers (level : Nat) : List (String × Json) → List String
  | [] => []
  | (name, value) :: others =>
    (quote name ++ ": " ++ prettyAt level value) :: prettyMembers level others

end

/-- A value over several lines. -/
def pretty (value : Json) : String := prettyAt 0 value

end Json

end QueryScope

import QueryScope.Text.Checked
import QueryScope.Text.Alphanumeric
import QueryScope.Sql.Word
import QueryScope.Sql.TopLevel
import QueryScope.Sql.Identifier

/-!
# Items of a select list

The items of a select list are separated by commas at top level. An item makes a column visible
under the alias at its end, or else under the last identifier when the item is a path. Other
items, and those that ask for all columns, name no column.
-/

namespace QueryScope.SelectItem

/-- What stands at the end of an item like an alias. -/
structure TrailingAlias where
  /-- Where the blanks before the alias begin. -/
  start : Nat
  /-- Whether the word `AS` comes first. -/
  isExplicit : Bool
  /-- The identifier, which ends the item. -/
  name : List Char
deriving DecidableEq, Repr

/-- The earliest blanks behind which the item ends with an identifier, or with `AS` and an
identifier. The characters ahead stand at `offset`. -/
def trailingAlias? (offset : Nat) : List Char → Option TrailingAlias
  | [] => none
  | character :: rest =>
    if Text.isBlank character then
      let ahead := rest.dropWhile Text.isBlank
      match (Identifier.afterAs? ahead).filter (Identifier.isWhole .folded) with
      | some name => some ⟨offset, true, name⟩
      | none =>
        if Identifier.isWhole .folded ahead then some ⟨offset, false, ahead⟩
        else trailingAlias? (offset + character.utf8Size) rest
    else
      trailingAlias? (offset + character.utf8Size) rest

/-- Whether a character can be the last one of an operand. -/
def endsOperand (character : Char) : Bool :=
  Text.isAlphanumeric character || character == '_' || character == ')' || character == '\''
    || character == '"' || character == ']'

/-- Whether an identifier may be the name of a column: it is quoted, or it is not reserved. -/
def mayName (name : List Char) : Bool :=
  name.head? == some '"' || !Word.isReserved (String.ofList name)

/-- Whether a trailing alias is one indeed, given the characters before it. Without `AS` it must
follow an operand, so that the second operand of a sum is not taken for an alias. -/
def TrailingAlias.isAccepted (trailing : TrailingAlias) (before : List Char) : Bool :=
  (trailing.isExplicit || before.getLast?.any endsOperand) && mayName trailing.name

/-- Whether an item asks for all columns, or is empty. -/
def namesNothing (code : List Char) : Bool :=
  code.isEmpty || code == ['*'] || ['.', '*'].isSuffixOf code

/-- Read the alias of an item, given by its code. -/
def readAlias (code : Bytes) : Checked (Option (List Char)) :=
  match trailingAlias? 0 (Bytes.decode code) with
  | none => return none
  | some trailing => do
    let before ← Bytes.cut code ⟨0, trailing.start⟩
    return if trailing.isAccepted (Bytes.decode before) then some trailing.name else none

/-- The identifier that an item without an alias ends with, when it is a path or a name. -/
def lastName? (code : List Char) : Option (List Char) :=
  match Identifier.readPath .plain 0 code with
  | (_ :: next :: others, []) => ((next :: others).getLast?).map (·.characters)
  | _ => if Identifier.isWhole .plain code && mayName code then some code else none

/-- Read the identifier at the end of an item under which its column is visible. -/
def readName (code : Bytes) : Checked (Option (List Char)) :=
  if namesNothing (Bytes.decode code) then
    return none
  else do
    match ← readAlias code with
    | some name => return some name
    | none => return lastName? (Bytes.decode code)

/-- The column that an item names, given by its text and its code. -/
def columnName (text code : Bytes) : Checked (Option String) := do
  match ← readName code with
  | none => return none
  | some name =>
    let identifier ← Bytes.cut text ⟨code.length - Bytes.width name, code.length⟩
    return some (Identifier.unquote (Bytes.text identifier))

/-- The columns that a select list names, in order. -/
def columnNames (text code : Bytes) : Checked (List String) :=
  Checked.eachSome (fun (part : Span) => do
    let item ← Bytes.trim code part
    let itemText ← Bytes.cut text item
    let itemCode ← Bytes.cut code item
    columnName itemText itemCode) (TopLevel.split code Byte.comma)

end QueryScope.SelectItem

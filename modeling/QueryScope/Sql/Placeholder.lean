import QueryScope.Text.Bytes
import QueryScope.Sql.Identifier

/-!
# The placeholder

While one SELECT block is taken apart, each subquery that it directly contains is replaced by a
placeholder, which looks like a parenthesised name. Placeholders are counted exactly as they are
written here, but an entry of a FROM clause recognises one in any case.
-/

namespace QueryScope.Placeholder

/-- The text that stands for a subquery. -/
def text : String := "(__SUBSELECT__)"

/-- The bytes of the placeholder. -/
def bytes : Bytes := Bytes.ofString text

/-- The placeholder that the characters begin with, when case is disregarded, and what follows. -/
def read? (characters : List Char) : Option (List Char × List Char) :=
  let length := text.toList.length
  let taken := characters.take length
  if taken.length == length && (text.toList.zip taken).all fun (expected, character) =>
      Letters.foldsTo expected character then
    some (taken, characters.drop length)
  else
    none

/-- The number of placeholders in a piece of code. -/
def count (code : Bytes) : Nat := Bytes.occurrences bytes code

end QueryScope.Placeholder

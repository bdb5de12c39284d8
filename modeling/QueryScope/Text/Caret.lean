import QueryScope.Text.Bytes

/-!
# Carets

A caret is a byte offset into a query. Editors count characters instead, and sample queries mark
the caret with a bar in the text; both are turned into byte offsets here.
-/

namespace QueryScope.Caret

/-- The byte offsets at which some characters begin, the first of them at `offset`. -/
def offsets (offset : Nat) : List Char → List Nat
  | [] => []
  | character :: others => offset :: offsets (offset + character.utf8Size) others

/-- The byte offset of the character at `index`; an index past the end gives the end. -/
def ofCharacterIndex (text : String) (index : Nat) : Nat :=
  (offsets 0 text.toList)[index]?.getD text.utf8ByteSize

/-- The character that marks a caret inside a query. -/
def marker : Char := '|'

/-- A query without its first marker and the byte offset at which the marker stood, or nothing
when the query has no marker. -/
def split (marked : String) : Option (String × Nat) :=
  let before := marked.toList.takeWhile (· != marker)
  match marked.toList.dropWhile (· != marker) with
  | [] => none
  | _ :: after => some (String.ofList (before ++ after), Bytes.width before)

end QueryScope.Caret

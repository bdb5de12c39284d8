import QueryScope.Text.Blank
import QueryScope.Text.Checked
import QueryScope.Sql.Word

/-!
# Subqueries

A subquery is a pair of matching parentheses whose contents begin with the word `SELECT`.
Parentheses match as in any text: a closing one belongs to the last open one before it, and those
without a partner are passed over. Subqueries are listed in the order in which they are closed,
so an inner one comes before the one around it.
-/

namespace QueryScope

/-- A subquery in the code of a query. -/
structure Subquery where
  /-- Where the subquery stands, parentheses included. -/
  span : Span
  /-- What is between the parentheses, without the blanks at its ends. -/
  content : Span
  /-- The alias written behind the subquery. -/
  aliasName : Option String
deriving DecidableEq, Repr

namespace Subquery

/-- The pairs of matching parentheses in the bytes ahead, which begin at `offset`, as the offsets of
the two parentheses. Those in `waiting` are open, the last one first. -/
def pairsFrom (offset : Nat) (waiting : List Nat) : Bytes → List (Nat × Nat)
  | [] => []
  | byte :: rest =>
    if byte = Byte.openParen then
      pairsFrom (offset + 1) (offset :: waiting) rest
    else if byte = Byte.closeParen then
      match waiting with
      | [] => pairsFrom (offset + 1) [] rest
      | opening :: others => (opening, offset) :: pairsFrom (offset + 1) others rest
    else
      pairsFrom (offset + 1) waiting rest

/-- The pairs of matching parentheses, in the order of closing. -/
def pairs (code : Bytes) : List (Nat × Nat) := pairsFrom 0 [] code

/-- The words that may come right behind an alias. -/
def aliasFollowers : List String := [
  "ON", "WHERE", "JOIN", "INNER", "LEFT", "RIGHT", "FULL", "CROSS", "NATURAL", "USING", "GROUP",
  "ORDER", "HAVING", "UNION", "INTERSECT", "EXCEPT", "FETCH", "LIMIT", "OFFSET", "FOR", "WITH"]

/-- Look whether an alias may end at `offset`: the query ends there, or a comma, a closing
parenthesis, a semicolon or a word comes next that cannot belong to an expression. -/
def checkAliasEnd (code : Bytes) (offset : Nat) : Checked Bool := do
  let rest ← Bytes.cut code ⟨offset, code.length⟩
  match Text.dropLeadingBlanks (Bytes.decode rest) with
  | [] => return true
  | next :: _ =>
    if next == ',' || next == ')' || next == ';' then
      return true
    else
      let word ← Word.scan code offset
      return word.any fun word => aliasFollowers.any word.is

/-- Whether an alias may end at `offset`. -/
def aliasMayEnd (code : Bytes) (offset : Nat) : Bool := (checkAliasEnd code offset).value

/-- Read the alias that comes at `offset`, with or without `AS`. -/
def readAlias (code : Bytes) (offset : Nat) : Checked (Option String) := do
  match ← Word.scan code offset with
  | none => return none
  | some first =>
    match ← (if first.is "AS" then Word.scan code first.span.stop else pure (some first)) with
    | none => return none
    | some word =>
      let name := Bytes.text word.spelling
      if Word.isReserved name then
        return none
      else
        let ends ← checkAliasEnd code word.span.stop
        return if ends then some name else none

/-- The alias that comes at `offset`. -/
def aliasAt? (code : Bytes) (offset : Nat) : Option String := (readAlias code offset).value

/-- The subquery that a pair of matching parentheses encloses, if it does. -/
def ofPair (code : Bytes) (pair : Nat × Nat) : Checked (Option Subquery) := do
  let content ← Bytes.trim code ⟨pair.1 + 1, pair.2⟩
  let word ← Word.scan code content.start
  if word.any (·.is "SELECT") then
    let aliasName ← readAlias code (pair.2 + 1)
    return some ⟨⟨pair.1, pair.2 + 1⟩, content, aliasName⟩
  else
    return none

/-- The subqueries of a query, given by its code, in the order of closing. -/
def all (code : Bytes) : Checked (List Subquery) :=
  Checked.eachSome (ofPair code) (pairs code)

end Subquery

end QueryScope

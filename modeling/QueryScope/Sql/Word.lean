import QueryScope.Text.Buffer
import QueryScope.Text.Case

/-!
# Words of a query

A word is a run of word bytes that begins with a letter, an underscore or a wide byte. Some words
are reserved: they can never name a table, a column or an alias.
-/

namespace QueryScope

/-- A word and where it stands. -/
structure Word where
  spelling : Bytes
  span : Span
deriving DecidableEq, Repr

namespace Word

/-- The word that comes first at or after `offset` when blanks are skipped, if what follows the
blanks is a word at all. -/
def scan (code : Bytes) (offset : Nat) : Checked (Option Word) := do
  let buffer := code.buffer
  let start ← buffer.advance Byte.isBlank offset buffer.size
  if start < buffer.size then
    let first ← buffer.read start
    if Byte.startsWord first then
      let stop ← buffer.advance Byte.isWordByte start buffer.size
      let spelling ← Bytes.cut code ⟨start, stop⟩
      return some ⟨spelling, ⟨start, stop⟩⟩
    else
      return none
  else
    return none

/-- The word that a scan from `offset` meets. -/
def next? (code : Bytes) (offset : Nat) : Option Word := (scan code offset).value

@[simp] theorem value_scan (code : Bytes) (offset : Nat) :
    (scan code offset).value = next? code offset := by rw [next?]

/-- Whether the word is `name`, in any case. -/
def is (word : Word) (name : String) : Bool :=
  Bytes.sameIgnoringCase word.spelling (Bytes.ofString name)

/-- Whether the first word at or after `offset` is `name`. -/
def nextIs (code : Bytes) (offset : Nat) (name : String) : Bool :=
  (next? code offset).any (·.is name)

/-- The words that cannot be names. -/
def reserved : List String := [
  "ALL", "ALTER", "AND", "AS", "ASC", "BETWEEN", "BY", "CASE", "CREATE", "CROSS", "DELETE",
  "DESC", "DISTINCT", "DROP", "ELSE", "END", "EXCEPT", "EXISTS", "FETCH", "FIRST", "FOR",
  "FROM", "FULL", "GROUP", "HAVING", "IN", "INDEX", "INNER", "INSERT", "INTERSECT", "INTO",
  "IS", "JOIN", "LATERAL", "LEFT", "LIKE", "LIMIT", "NATURAL", "NOT", "NULL", "OFFSET", "ON",
  "ONLY", "OR", "ORDER", "OUTER", "RIGHT", "ROWS", "SELECT", "SET", "TABLE", "THEN", "UNION",
  "UPDATE", "USING", "VALUES", "VIEW", "WHEN", "WHERE", "WITH"]

/-- Whether a word is reserved, in any case. -/
def isReserved (word : String) : Bool := reserved.any (Text.sameName word)

/-- The words that may stand before `JOIN` and say what kind of join it is. -/
def joinModifiers : List String :=
  ["INNER", "LEFT", "RIGHT", "FULL", "CROSS", "OUTER", "NATURAL"]

/-- Whether a word says what kind of join follows. -/
def isJoinModifier (word : Bytes) : Bool :=
  joinModifiers.any fun modifier => Bytes.sameIgnoringCase word (Bytes.ofString modifier)

end Word

end QueryScope

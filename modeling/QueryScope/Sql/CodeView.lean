import QueryScope.Text.Bytes

/-!
# The code view of a query

The code view is the query with everything blanked out that is not code: the contents of string
literals and quoted names, and whole comments. It has the same length as the query, byte for
byte, so an offset found in one is an offset into the other. The quotes themselves stay, because
they still show where an operand or a name stands, and so do line ends.

The view is made in one pass, a byte at a time. Only marks of two bytes need a look at the byte
that follows: the openers of comments, `*/`, and a quote written twice inside quotes.
-/

namespace QueryScope

/-- What the byte at some point of a query belongs to. -/
inductive Region where
  /-- Code proper. -/
  | code
  /-- The inside of a literal or a quoted name, which the given quote ends. -/
  | quoted (quote : UInt8)
  /-- A comment that the line's end closes. -/
  | lineComment
  /-- A comment that `*/` closes. -/
  | blockComment
  /-- The second byte of a mark, behind which the given region begins. -/
  | mark (behind : Region)
deriving DecidableEq, Repr

namespace CodeView

/-- What a byte that is not code is replaced by: a space, unless it ends a line. -/
def blanked (byte : UInt8) : UInt8 := if byte = Byte.lineFeed then byte else Byte.space

/-- What a byte of the given region looks like in the view, and the region of the byte after it,
which is `next` if there is one. A quote that is written twice inside quotes belongs to the
contents, so it is blanked and the quotes stay open. -/
def step (region : Region) (byte : UInt8) (next : Option UInt8) : UInt8 × Region :=
  match region with
  | .code =>
    if byte = Byte.singleQuote ∨ byte = Byte.doubleQuote then (byte, .quoted byte)
    else if byte = Byte.hyphen ∧ next = some Byte.hyphen then (Byte.space, .mark .lineComment)
    else if byte = Byte.slash ∧ next = some Byte.asterisk then (Byte.space, .mark .blockComment)
    else (byte, .code)
  | .quoted quote =>
    if byte ≠ quote then (blanked byte, .quoted quote)
    else if next = some quote then (Byte.space, .mark (.quoted quote))
    else (byte, .code)
  | .lineComment =>
    if byte = Byte.lineFeed then (byte, .code) else (blanked byte, .lineComment)
  | .blockComment =>
    if byte = Byte.asterisk ∧ next = some Byte.slash then (Byte.space, .mark .code)
    else (blanked byte, .blockComment)
  | .mark behind => (Byte.space, behind)

/-- The code view of bytes whose first one belongs to the given region. What is left open extends
to the end. -/
def viewFrom (region : Region) : Bytes → Bytes
  | [] => []
  | byte :: rest =>
    (step region byte rest.head?).1 :: viewFrom (step region byte rest.head?).2 rest

end CodeView

/-- The code view of a query. -/
def codeView (query : Bytes) : Bytes := CodeView.viewFrom .code query

end QueryScope

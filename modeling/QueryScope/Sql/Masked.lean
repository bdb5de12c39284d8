import QueryScope.Text.Checked
import QueryScope.Sql.Placeholder

/-!
# Masked texts

To take one SELECT block apart, the subqueries that it directly contains are replaced by
placeholders, in its text and in its code alike. The two keep the same layout, and the subqueries
are remembered in the order of their placeholders.
-/

namespace QueryScope

/-- A SELECT block with its direct subqueries replaced. -/
structure Masked where
  text : Bytes
  code : Bytes
  /-- For each placeholder, in order, the index of the scope it stands for. -/
  children : List Nat
deriving DecidableEq, Repr

namespace Masked

/-- Replace the children ahead, which come in order, from `cursor` on up to `stop`. A child that
begins before the cursor overlaps the one before it and is left out. -/
def maskFrom (text code : Bytes) (stop cursor : Nat) : List (Span × Nat) → Checked Masked
  | [] => do
    let remainingText ← Bytes.cut text ⟨cursor, stop⟩
    let remainingCode ← Bytes.cut code ⟨cursor, stop⟩
    return ⟨remainingText, remainingCode, []⟩
  | (span, index) :: others =>
    if span.start < cursor then
      maskFrom text code stop cursor others
    else do
      let textBefore ← Bytes.cut text ⟨cursor, span.start⟩
      let codeBefore ← Bytes.cut code ⟨cursor, span.start⟩
      let behind ← maskFrom text code stop span.stop others
      return ⟨textBefore ++ Placeholder.bytes ++ behind.text,
        codeBefore ++ Placeholder.bytes ++ behind.code, index :: behind.children⟩

/-- The part of a query that `content` covers, with those of the given children that lie inside it
replaced by placeholders. Each child comes with its span and the index of its scope. -/
def mask (text code : Bytes) (content : Span) (children : List (Span × Nat)) : Checked Masked :=
  maskFrom text code content.stop content.start
    ((children.filter fun child => content.encloses child.1).mergeSort fun left right =>
      decide (left.1.start ≤ right.1.start))

end Masked

end QueryScope

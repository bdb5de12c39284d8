import QueryScope.Text.Span
import QueryScope.Text.Bytes

/-!
# Nesting depth

The parentheses of a query need not match. Depth is counted from zero at the place where a scan
begins; a closing parenthesis without a partner leaves it at zero. What stands at depth zero is at
top level, and lists are split only there.
-/

namespace QueryScope

/-- The depth after a byte that is met at the given depth. -/
def depthAfter (depth : Nat) (byte : UInt8) : Nat :=
  if byte = Byte.openParen then depth + 1
  else if byte = Byte.closeParen then depth - 1
  else depth

/-- Whether a byte is a parenthesis of either kind. -/
def isParenthesis (byte : UInt8) : Bool := byte == Byte.openParen || byte == Byte.closeParen

/-- Only parentheses change the depth. -/
theorem depthAfter_of_not_isParenthesis {byte : UInt8} (notParenthesis : isParenthesis byte = false)
    (depth : Nat) : depthAfter depth byte = depth := by
  simp only [isParenthesis, Bool.or_eq_false_iff, beq_eq_false_iff_ne] at notParenthesis
  rw [depthAfter, if_neg notParenthesis.1, if_neg notParenthesis.2]

namespace TopLevel

/-- Split the bytes ahead, which begin at `offset` and at the given depth; the part that is being
read began at `start`. -/
def splitFrom (separator : UInt8) (start offset depth : Nat) : Bytes → List Span
  | [] => [⟨start, offset⟩]
  | byte :: rest =>
    if !isParenthesis byte && byte == separator && depth == 0 then
      ⟨start, offset⟩ :: splitFrom separator (offset + 1) (offset + 1) depth rest
    else
      splitFrom separator start (offset + 1) (depthAfter depth byte) rest

/-- The parts between the separators at top level. The last part runs to the end, and there is
always at least one. A parenthesis never separates. -/
def split (code : Bytes) (separator : UInt8) : List Span := splitFrom separator 0 0 0 code

end TopLevel

end QueryScope

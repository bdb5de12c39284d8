/-!
# Decimal numbers

Numbers in type names and on the command line are written with decimal digits, of which any number
may be zeros in front, and possibly a plus sign. A number that is larger than its place allows is
not a number there.
-/

namespace QueryScope.Text

/-- The value of decimal digits, read after a number that is already known. -/
def digitsValue (known : Nat) (digits : List Char) : Nat :=
  digits.foldl (fun value digit => value * 10 + (digit.toNat - '0'.toNat)) known

/-- The number that some characters write, if they are digits behind at most one plus sign and the
number is at most `limit`. -/
def readNatural? (limit : Nat) (characters : List Char) : Option Nat :=
  let digits := match characters with
    | '+' :: rest => rest
    | _ => characters
  if !digits.isEmpty && digits.all Char.isDigit && decide (digitsValue 0 digits ≤ limit) then
    some (digitsValue 0 digits)
  else
    none

end QueryScope.Text

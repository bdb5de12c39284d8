/-!
# Letter case

Names are compared without regard to the case of ASCII letters. No other letter has its case
changed, so `é` and `É` stay two different names.
-/

namespace QueryScope.Text

/-- A text with its ASCII letters in capitals. -/
def upper (text : String) : String := String.ofList (text.toList.map Char.toUpper)

/-- Whether two names differ at most in the case of ASCII letters. -/
def sameName (left right : String) : Bool := upper left == upper right

end QueryScope.Text

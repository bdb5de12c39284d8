import QueryScope.Json.Document

/-!
# Reading records

A record is written with named members in any order, or as a list of its fields in their declared
order. Members with other names are passed over. A field may be given at most once; a field that
is not given takes its default, if it has one.
-/

namespace QueryScope.Json.Document

/-- The value of a member, if it is given at most once. -/
def member? (name : String) (members : List (Option String × Document)) :
    Option (Option Document) :=
  match members.filter (·.1 == some name) with
  | [] => some none
  | [(_, value)] => some (some value)
  | _ => none

/-- The fields of a record in their declared order, each with its value if it is given. -/
def fields? (names : List String) : Document → Option (List (Option Document))
  | .record members =>
    if members.all (·.1.isSome) then names.mapM fun name => member? name members else none
  | .list elements =>
    if elements.length ≤ names.length then
      some (elements.map some ++ List.replicate (names.length - elements.length) none)
    else
      none
  | _ => none

/-- A text. -/
def text? : Document → Option String
  | .text value => value
  | _ => none

/-- A truth value. -/
def boolean? : Document → Option Bool
  | .boolean value => some value
  | _ => none

/-- The greatest number that can be written. -/
def numberLimit : Nat := 18446744073709551615

/-- A natural number. -/
def natural? : Document → Option Nat
  | .number (some value) => if value ≤ numberLimit then some value else none
  | _ => none

/-- A text that may be absent. -/
def optionalText? : Document → Option (Option String)
  | .null => some none
  | other => other.text?.map some

/-- A list whose elements can all be read. -/
def list? {α : Type} (read : Document → Option α) : Document → Option (List α)
  | .list elements => elements.mapM read
  | _ => none

/-- A field that takes a default when it is not given. -/
def orDefault {α : Type} (default : α) (read : Document → Option α) :
    Option Document → Option α
  | none => some default
  | some value => read value

end QueryScope.Json.Document

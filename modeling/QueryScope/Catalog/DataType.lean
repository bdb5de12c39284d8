import QueryScope.Text.Blank
import QueryScope.Text.Case
import QueryScope.Text.Decimal

/-!
# Data types

Catalogs write the type of a column as text, such as `VARCHAR(40)`. Each known type has several
spellings and one in which it is shown; a type that is not known keeps its text. Arguments that a
type does not take, or that are not numbers, are dropped.
-/

namespace QueryScope

/-- The type of a column. -/
inductive DataType where
  | smallInt
  | integer
  | bigInt
  | decimal (precision scale : Option Nat)
  | real
  | double
  | char (length : Option Nat)
  | varchar (length : Option Nat)
  | clob
  | text
  | binary
  | blob
  | date
  | time
  | timestamp
  | boolean
  | xml
  | json
  /-- A type that is not known, with its text. -/
  | other (name : String)
deriving DecidableEq, Repr

namespace DataType

/-- The greatest argument of a type. -/
def argumentLimit : Nat := 4294967295

/-- The characters before the last one that equals `character`, if there is one. -/
def upToLast? (character : Char) (characters : List Char) : Option (List Char) :=
  match characters.reverse.dropWhile (· != character) with
  | [] => none
  | _ :: before => some before.reverse

/-- The characters between the commas. -/
def splitAtCommas : List Char → List (List Char)
  | [] => [[]]
  | ',' :: rest => [] :: splitAtCommas rest
  | character :: rest =>
    match splitAtCommas rest with
    | [] => [[character]]
    | part :: parts => (character :: part) :: parts

/-- What is written between the parentheses of a type: everything from the first opening one to the
last closing one, or to the end if none is closed. There is nothing between them when the last
closing one comes first. -/
def argumentText? (name : List Char) : Option (List Char) :=
  match name.dropWhile (· != '(') with
  | [] => none
  | _ :: inside =>
    match upToLast? ')' inside with
    | some arguments => some arguments
    | none => if name.contains ')' then some [] else some inside

/-- The arguments of a type; one that is not a number is absent. -/
def arguments (name : List Char) : List (Option Nat) :=
  match argumentText? name with
  | none => []
  | some written =>
    (splitAtCommas written).map fun part =>
      Text.readNatural? argumentLimit (Text.trimCharacters part)

/-- The type with a base name, which is given in capitals, and its first two arguments. A base name
that is not known leaves the whole name as it is written. -/
def ofBase (base : String) (first second : Option Nat) (written : String) : DataType :=
  match base with
  | "SMALLINT" | "INT2" => smallInt
  | "INT" | "INTEGER" | "INT4" => integer
  | "BIGINT" | "INT8" => bigInt
  | "DECIMAL" | "NUMERIC" | "DEC" => decimal first second
  | "REAL" | "FLOAT4" => real
  | "DOUBLE" | "DOUBLE PRECISION" | "FLOAT" | "FLOAT8" => double
  | "CHAR" | "CHARACTER" => char first
  | "VARCHAR" | "CHARACTER VARYING" => varchar first
  | "CLOB" => clob
  | "TEXT" => text
  | "BINARY" | "VARBINARY" => binary
  | "BLOB" | "BYTEA" => blob
  | "DATE" => date
  | "TIME" => time
  | "TIMESTAMP" | "DATETIME" => timestamp
  | "BOOLEAN" | "BOOL" => boolean
  | "XML" => xml
  | "JSON" | "JSONB" => json
  | _ => other written

/-- The type that a text names. -/
def parse (name : String) : DataType :=
  let trimmed := Text.trimCharacters name.toList
  let base := Text.trimCharacters (trimmed.takeWhile (· != '('))
  ofBase (Text.upper (String.ofList base)) (arguments trimmed)[0]?.join (arguments trimmed)[1]?.join
    (String.ofList trimmed)

/-- A type's name with its arguments in parentheses, if it has any. -/
def withArguments (name : String) (arguments : List Nat) : String :=
  if arguments.isEmpty then name
  else name ++ "(" ++ String.intercalate "," (arguments.map Nat.repr) ++ ")"

/-- The text in which a type is shown. A scale is shown only behind a precision. -/
def display : DataType → String
  | smallInt => "SMALLINT"
  | integer => "INTEGER"
  | bigInt => "BIGINT"
  | decimal none _ => "DECIMAL"
  | decimal (some precision) scale => withArguments "DECIMAL" (precision :: scale.toList)
  | real => "REAL"
  | double => "DOUBLE"
  | char length => withArguments "CHAR" length.toList
  | varchar length => withArguments "VARCHAR" length.toList
  | clob => "CLOB"
  | text => "TEXT"
  | binary => "BINARY"
  | blob => "BLOB"
  | date => "DATE"
  | time => "TIME"
  | timestamp => "TIMESTAMP"
  | boolean => "BOOLEAN"
  | xml => "XML"
  | json => "JSON"
  | other name => name

end DataType

end QueryScope

import QueryScope.Text.Decimal

/-!
# Command-line arguments

Arguments are read from left to right. An option takes its value from the next argument or from
behind an equals sign; two hyphens end the options, and one hyphen alone is the name of a file. Each
option and the file may be given once. A request for the version is granted as soon as it is met,
whatever comes after it.
-/

namespace QueryScope.CommandLine

/-- What the arguments ask for. -/
structure Arguments where
  /-- The file with the query; without one the query comes from the standard input. -/
  file : Option String := none
  /-- The caret as a byte offset. -/
  caret : Option Nat := none
  /-- The caret as a number of characters. -/
  charCaret : Option Nat := none
  /-- The file with the catalog. -/
  catalog : Option String := none
  /-- The file with the settings. -/
  config : Option String := none
  /-- Whether all ancestors contribute names. -/
  ancestors : Bool := false
deriving DecidableEq, Repr

/-- What the program is called to do. -/
inductive Invocation where
  | run (arguments : Arguments)
  | showVersion
  | showHelp
  /-- The arguments make no sense. -/
  | misuse
deriving DecidableEq, Repr

/-- The options that take a value. -/
inductive ValueOption where
  | caret
  | charCaret
  | catalog
  | config
deriving DecidableEq, Repr

/-- What the name of an option stands for. -/
inductive OptionName where
  | takes (option : ValueOption)
  | ancestors
  | version
  | help
deriving DecidableEq, Repr

namespace OptionName

/-- The option with a name. Names are not abbreviated. -/
def ofString? : String → Option OptionName
  | "caret" => some (takes .caret)
  | "char-caret" => some (takes .charCaret)
  | "catalog" => some (takes .catalog)
  | "config" => some (takes .config)
  | "ancestors" => some ancestors
  | "version" => some version
  | "help" => some help
  | _ => none

end OptionName

namespace Arguments

/-- The greatest caret. -/
def caretLimit : Nat := 18446744073709551615

/-- A value for a place that is still empty. -/
def fillOnce {α : Type} (place : Option α) (value : Option α) : Option (Option α) :=
  match place, value with
  | none, some value => some (some value)
  | _, _ => none

/-- The name of a file, which is not empty. -/
def fileName? (value : String) : Option String := if value = "" then none else some value

/-- The arguments with the value of an option, if it makes sense and is the first. -/
def set? (arguments : Arguments) (option : ValueOption) (value : String) : Option Arguments :=
  match option with
  | .caret => (fillOnce arguments.caret (Text.readNatural? caretLimit value.toList)).map
      fun caret => { arguments with caret }
  | .charCaret => (fillOnce arguments.charCaret (Text.readNatural? caretLimit value.toList)).map
      fun charCaret => { arguments with charCaret }
  | .catalog => (fillOnce arguments.catalog (fileName? value)).map
      fun catalog => { arguments with catalog }
  | .config => (fillOnce arguments.config (fileName? value)).map
      fun config => { arguments with config }

/-- The arguments with a file, if it is the first. -/
def setFile? (arguments : Arguments) (name : String) : Option Arguments :=
  (fillOnce arguments.file (fileName? name)).map fun file => { arguments with file }

/-- The kinds of arguments. -/
inductive Kind where
  /-- The mark that ends the options. -/
  | endOfOptions
  /-- An option with its full name, and the value behind the equals sign if there is one. -/
  | long (name : String) (value : Option String)
  /-- An option with one letter. -/
  | short (letter : Char)
  /-- Anything else. -/
  | plain
deriving DecidableEq, Repr

/-- The kind of an argument. -/
def Kind.of (argument : String) : Kind :=
  match argument.toList with
  | ['-', '-'] => .endOfOptions
  | '-' :: '-' :: rest =>
    let name := String.ofList (rest.takeWhile (· != '='))
    match rest.dropWhile (· != '=') with
    | [] => .long name none
    | _ :: value => .long name (some (String.ofList value))
  | '-' :: letter :: _ => .short letter
  | _ => .plain

/-- All arguments have been read: the two kinds of caret exclude each other. -/
def finish (arguments : Arguments) : Invocation :=
  if arguments.caret.isSome && arguments.charCaret.isSome then .misuse else .run arguments

/-- Read the files behind the mark that ends the options. -/
def readFiles (arguments : Arguments) : List String → Invocation
  | [] => arguments.finish
  | argument :: others =>
    match arguments.setFile? argument with
    | some more => more.readFiles others
    | none => .misuse

/-- Read the arguments ahead. If an option is waiting, the next argument is its value. -/
def readFrom (arguments : Arguments) (waiting : Option ValueOption) : List String → Invocation
  | [] => if waiting.isSome then .misuse else arguments.finish
  | argument :: others =>
    match waiting, Kind.of argument with
    | some option, .plain =>
      match arguments.set? option argument with
      | some more => more.readFrom none others
      | none => .misuse
    | some _, _ => .misuse
    | none, .plain =>
      match arguments.setFile? argument with
      | some more => more.readFrom none others
      | none => .misuse
    | none, .endOfOptions => arguments.readFiles others
    | none, .short letter =>
      if letter = 'V' then .showVersion else if letter = 'h' then .showHelp else .misuse
    | none, .long name value =>
      match OptionName.ofString? name, value with
      | some (.takes option), none => arguments.readFrom (some option) others
      | some (.takes option), some value =>
        match arguments.set? option value with
        | some more => more.readFrom none others
        | none => .misuse
      | some .ancestors, none =>
        if arguments.ancestors then .misuse
        else { arguments with ancestors := true }.readFrom none others
      | some .version, none => .showVersion
      | some .help, none => .showHelp
      | _, _ => .misuse

end Arguments

/-- What a list of arguments calls the program to do. -/
def Invocation.ofArguments (arguments : List String) : Invocation :=
  Arguments.readFrom {} none arguments

end QueryScope.CommandLine

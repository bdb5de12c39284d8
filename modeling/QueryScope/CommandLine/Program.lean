import QueryScope.Text.Caret
import QueryScope.CommandLine.Arguments
import QueryScope.CommandLine.Report

/-!
# The program

The program reads a query, settings and a catalog, in this order, and prints a report. How files are
read is left to the environment, so that the program is the same inside and outside of `IO`.
-/

namespace QueryScope.CommandLine

/-- How the program reads. A text that is not there or that is not UTF-8 is nothing. -/
structure Environment (m : Type → Type) where
  standardInput : m (Option String)
  file : String → m (Option String)

/-- Why the program gives up. -/
inductive Failure where
  /-- The query cannot be read from a file, or from the standard input. -/
  | unreadableQuery (path : Option String)
  | unreadableConfig (path : String)
  | invalidConfig (path : String)
  | unreadableCatalog (path : String)
  | invalidCatalog (path : String)
  | refused (error : SessionError)
deriving DecidableEq, Repr

namespace Failure

/-- The text in which a failure is reported. -/
def message : Failure → String
  | unreadableQuery path => "Failed to read SQL from " ++ path.getD "stdin"
  | unreadableConfig path => "Failed to read config from " ++ path
  | invalidConfig path => "Invalid config in " ++ path
  | unreadableCatalog path => "Failed to read catalog from " ++ path
  | invalidCatalog path => "Invalid catalog in " ++ path
  | refused error => error.message

end Failure

/-- How a run of the program ends. -/
inductive Outcome where
  | printed (text : String)
  | failed (failure : Failure)
  | misused
deriving DecidableEq, Repr

/-- The line that tells the version. -/
def versionLine : String := "sql-scope 0.1.0\n"

/-- The lines that tell how to use the program. -/
def helpText : String :=
  "Resolve SQL scopes and the names visible at a caret\n\n" ++
  "Usage: sql-scope [OPTIONS] [FILE]\n"

section

variable {m : Type → Type} [Monad m]

/-- Read the query. -/
def readQuery (environment : Environment m) (arguments : Arguments) : ExceptT Failure m String := do
  let query ← match arguments.file with
    | some path => environment.file path
    | none => environment.standardInput
  match query with
  | some text => return text
  | none => throw (.unreadableQuery arguments.file)

/-- Read the settings. The option for ancestors can switch them on but not off. -/
def readSettings (environment : Environment m) (arguments : Arguments) :
    ExceptT Failure m Settings := do
  let settings ← match arguments.config with
    | none => pure {}
    | some path => do
      let some text ← environment.file path | throw (.unreadableConfig path)
      match Settings.ofText text with
      | .ok settings => pure settings
      | .error _ => throw (.invalidConfig path)
  return { settings with allAncestors := settings.allAncestors || arguments.ancestors }

/-- Read a catalog. -/
def readCatalog (environment : Environment m) (path : String) : ExceptT Failure m Directory := do
  let some text ← environment.file path | throw (.unreadableCatalog path)
  match Directory.ofText text with
  | .ok directory => return directory
  | .error _ => throw (.invalidCatalog path)

/-- What can be used at a caret when there is no catalog: columns of tables stay empty. -/
def resolvePlainly (scopes : List Scope) (settings : Settings) (caret : Nat) : Answer :=
  match Scopes.resolve? scopes settings.allAncestors caret with
  | none => ⟨0, 0, ⟨[], [], [], []⟩, []⟩
  | some (scope, visibility) => ⟨scope.index, scope.level, visibility, []⟩

/-- What can be used at a caret, with the columns of tables from the catalog if there is one. -/
def resolveAt (environment : Environment m) (arguments : Arguments) (query : String)
    (settings : Settings) (caret : Nat) : ExceptT Failure m Answer := do
  match arguments.catalog with
  | none => return resolvePlainly (extract query) settings caret
  | some path =>
    let directory ← readCatalog environment path
    match Session.start settings directory with
    | .ok session => return (session.resolve query caret).1
    | .error error => throw (.refused error)

/-- The byte offset of the caret in a query, if a caret is given. -/
def byteCaret? (arguments : Arguments) (query : String) : Option Nat :=
  arguments.caret.or (arguments.charCaret.map (Caret.ofCharacterIndex query))

/-- Make the report that the arguments ask for. -/
def report (environment : Environment m) (arguments : Arguments) : ExceptT Failure m Report := do
  let query ← readQuery environment arguments
  let settings ← readSettings environment arguments
  let resolution ← match byteCaret? arguments query with
    | none => pure none
    | some caret => do
      let answer ← resolveAt environment arguments query settings caret
      pure (some ⟨caret, answer⟩)
  return ⟨extract query, resolution⟩

/-- Run the program with a list of arguments. -/
def run (environment : Environment m) (arguments : List String) : m Outcome := do
  match Invocation.ofArguments arguments with
  | .misuse => return .misused
  | .showVersion => return .printed versionLine
  | .showHelp => return .printed helpText
  | .run arguments =>
    match ← (report environment arguments).run with
    | .ok report => return .printed (report.toJson.pretty ++ "\n")
    | .error failure => return .failed failure

end

end QueryScope.CommandLine

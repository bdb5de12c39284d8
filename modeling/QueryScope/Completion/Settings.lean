import QueryScope.Text.Blank
import QueryScope.Json.Record
import QueryScope.Json.Value

/-!
# Settings

What a host can choose: how long a pause in typing has to be, which scopes contribute names, how
long columns are remembered, and the schema of tables that are named without one. Settings from a
document are checked; settings made otherwise are checked when a session begins.
-/

namespace QueryScope

/-- The choices of a host. -/
structure Settings where
  /-- The pause after an edit, in milliseconds. -/
  debounceMs : Nat := 300
  /-- Whether all scopes around the one at the caret contribute names, and not only the nearest. -/
  allAncestors : Bool := false
  /-- How long columns are remembered, in seconds. With 0 they are not remembered at all. -/
  cacheTtlSecs : Nat := 300
  /-- The schema of tables that are named without one. -/
  defaultSchema : Option String := none
deriving DecidableEq, Repr

/-- What is wrong with settings. -/
inductive SettingsError where
  /-- A document cannot be read. -/
  | unreadable (reason : String)
  /-- A setting has a value that it must not have. -/
  | invalidValue (field reason : String)
deriving DecidableEq, Repr

namespace SettingsError

/-- The text in which an error is reported. -/
def message : SettingsError → String
  | unreadable reason => "Invalid configuration document: " ++ reason
  | invalidValue field reason => "Invalid value for " ++ field ++ ": " ++ reason

end SettingsError

namespace Settings

/-- The longest pause. -/
def longestDebounceMs : Nat := 10000

/-- What is wrong with the settings, if anything: the pause is too long, or the default schema is
blank. -/
def fault? (settings : Settings) : Option SettingsError :=
  if longestDebounceMs < settings.debounceMs then
    some (.invalidValue "debounce_ms" ("must not exceed " ++ longestDebounceMs.repr))
  else if settings.defaultSchema.any Text.isBlankText then
    some (.invalidValue "default_schema" "must not be blank")
  else
    none

/-- The settings that a document describes, unchecked. -/
def ofDocument? (document : Json.Document) : Option Settings := do
  let [debounceMs, allAncestors, cacheTtlSecs, defaultSchema] ← document.fields?
    ["debounce_ms", "include_ancestor_aliases", "cache_ttl_secs", "default_schema"] | none
  let standard : Settings := {}
  return {
    debounceMs := ← Json.Document.orDefault standard.debounceMs (·.natural?) debounceMs
    allAncestors := ← Json.Document.orDefault standard.allAncestors (·.boolean?) allAncestors
    cacheTtlSecs := ← Json.Document.orDefault standard.cacheTtlSecs (·.natural?) cacheTtlSecs
    defaultSchema := ← Json.Document.orDefault none (·.optionalText?) defaultSchema }

/-- The settings that a text describes, checked. -/
def ofText (text : String) : Except SettingsError Settings :=
  match (Json.Document.parse? text).bind ofDocument? with
  | none => .error (.unreadable "not a settings document")
  | some settings =>
    match settings.fault? with
    | some error => .error error
    | none => .ok settings

/-- The settings as a document. -/
def toJson (settings : Settings) : Json :=
  .record [("debounce_ms", .number settings.debounceMs),
    ("include_ancestor_aliases", .boolean settings.allAncestors),
    ("cache_ttl_secs", .number settings.cacheTtlSecs),
    ("default_schema", .optionalText settings.defaultSchema)]

end Settings

end QueryScope

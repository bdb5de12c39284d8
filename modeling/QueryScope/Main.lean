import QueryScope.CommandLine.Program

/-!
# The command

Runs the program on real files and the real standard input.
-/

namespace QueryScope.CommandLine

/-- All that is left on a stream. -/
partial def readAll (stream : IO.FS.Stream) (before : ByteArray) : IO ByteArray := do
  let chunk ← stream.read 65536
  if chunk.isEmpty then return before else readAll stream (before ++ chunk)

/-- The files of the system and the standard input. -/
def systemEnvironment : Environment IO where
  standardInput := do
    let bytes ← readAll (← IO.getStdin) ByteArray.empty
    return String.fromUTF8? bytes
  file path := do
    try
      return some (← IO.FS.readFile path)
    catch _ =>
      return none

end QueryScope.CommandLine

open QueryScope.CommandLine in
/-- Runs the program and turns its outcome into output and an exit code. -/
def main (arguments : List String) : IO UInt32 := do
  match ← run systemEnvironment arguments with
  | .printed text =>
    IO.print text
    return 0
  | .failed failure =>
    IO.eprintln ("Error: " ++ failure.message)
    return 1
  | .misused =>
    IO.eprint helpText
    return 2

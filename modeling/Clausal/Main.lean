import Clausal.CommandLine

/-!
# The program

Reads the files that the arguments name, carries out the command and prints its report.
-/

namespace Clausal

/-- The reason why a file cannot be read. -/
def readFailure : IO.Error → String
  | .noFileOrDirectory .. => "No such file or directory (os error 2)"
  | .permissionDenied .. => "Permission denied (os error 13)"
  | .inappropriateType .. => "Is a directory (os error 21)"
  | e => toString e

/-- The text of a file, or the reason why it cannot be read. -/
def readTextFile (path : String) : IO (Except String String) := do
  try
    let bytes ← IO.FS.readBinFile path
    match String.fromUTF8? bytes with
    | some text => return .ok text
    | none => return .error "stream did not contain valid UTF-8"
  catch e => return .error (readFailure e)

/-- The texts of the files that the arguments name. -/
def readNamedFiles (args : List String) : IO (List (String × Except String String)) :=
  match Command.read? args with
  | some (.search o) =>
      (o.config.toList ++ o.file.toList).mapM fun path => return (path, ← readTextFile path)
  | _ => return []

end Clausal

/-- Runs the command line. -/
def main (args : List String) : IO UInt32 := do
  let files ← Clausal.readNamedFiles args
  match Clausal.Command.run args fun path =>
    (files.lookup path).getD (.error "file was not read") with
  | .ok report =>
      IO.print report.output
      return report.exitCode.toUInt32
  | .error e =>
      IO.eprintln ("error: " ++ e.message)
      return e.exitCode.toUInt32

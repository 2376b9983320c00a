import Nullness.Command.Paths
import Nullness.Command.Run
import Nullness.Toml.Decoder

/-!
# The command line

Reads the files, runs the program, and writes what comes of it.
-/

namespace Nullness
namespace Command

/-- Writes bytes to a stream. -/
def writeText (stream : IO.FS.Stream) (t : Text) : IO Unit :=
  stream.write ⟨t.toArray⟩

/-- Reads a file.  The system's error 20 is about a file that stands where a
directory should. -/
def readPath (path : Text) : IO (Except FileError Text) := do
  try
    let content ← IO.FS.readBinFile path.decode
    return .ok content.data.toList
  catch
    | .noFileOrDirectory _ _ _ => return .error .missing
    | .inappropriateType _ 20 _ => return .error .notDirectory
    | .inappropriateType _ _ _ => return .error .isDirectory
    | _ => return .error .denied

/-- A line of the log. -/
def logLine (level message : Text) : Text :=
  text "[" ++ level ++ text "] " ++ message ++ text "\n"

end Command
end Nullness

open Nullness Nullness.Command in
/-- Analyzes the files that the arguments name. -/
def main (arguments : List String) : IO UInt32 := do
  let arguments := arguments.map text
  let found ← (paths arguments).mapM fun path => do
    let result ← readPath path
    return (path, result)
  let out ← IO.getStdout
  let err ← IO.getStderr
  match run Toml.decode (filesOf found) arguments with
  | none =>
    writeText err (logLine (text "error") (text "the analysis crashed"))
    return 2
  | some outcome =>
    writeText err outcome.complaint
    for entry in outcome.log do
      let level := if entry.isWarning then text "warning" else text "debug"
      writeText err (logLine level entry.message)
    writeText out outcome.output
    out.flush
    match outcome.error with
    | none => return 0
    | some (.flags .help) => return 1
    | some e =>
      writeText err (logLine (text "error") e.message)
      return 1

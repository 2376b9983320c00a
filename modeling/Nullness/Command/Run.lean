import Nullness.Analysis.Basic
import Nullness.Assembly.Basic
import Nullness.Command.Options
import Nullness.Diagnosis

/-!
# A run of the program

A run reads the configuration and the flags, and then looks at one file after
the other.  For every method it prints the positions it flags.  A method that
cannot be analyzed is skipped with a warning, and a file that cannot be read or
assembled is skipped as a whole; both make the run fail in the end, but keep
nothing else from being printed.
-/

namespace Nullness
namespace Command

/-- What went wrong with a file. -/
inductive FileFailure where
  | unreadable (file : Text) (e : FileError)
  | malformedSource (file : Text) (e : Assembly.SyntaxError)
  | malformedMethod (file : Text) (e : Analysis.Malformed)
  deriving DecidableEq, Repr

/-- The message about what went wrong with a file. -/
def FileFailure.message : FileFailure → Text
  | .unreadable file e =>
    text "read " ++ file ++ text ": " ++ e.message file
  | .malformedSource file e => file ++ text ": " ++ e.message
  | .malformedMethod file e => file ++ text ": " ++ e.message

/-- Why a run fails. -/
inductive Error where
  /-- The arguments are wrong, or help is asked for. -/
  | flags (e : Flags.Error)
  /-- The configuration file is wrong. -/
  | settings (e : Settings.LoadError)
  /-- No file is named. -/
  | noFiles
  /-- Something went wrong with files. -/
  | files (failures : List FileFailure)
  deriving DecidableEq, Repr

/-- The message about a failed run, with a line for each failure. -/
def Error.message : Error → Text
  | .flags e => e.message
  | .settings e => e.message
  | .noFiles => text "no input files"
  | .files failures =>
    Text.join (text "\n") (failures.map FileFailure.message)

/-- An entry of the log. -/
inductive LogEntry where
  /-- A configuration file has been read. -/
  | loaded (path : Text)
  /-- A file has been assembled. -/
  | assembled (file : Text) (methods : Nat)
  /-- A method has been analyzed. -/
  | analyzed (method : Text) (instructions flagged : Nat)
  /-- A method cannot be analyzed. -/
  | skipped (file : Text) (e : Analysis.Malformed)
  deriving DecidableEq, Repr

/-- Whether an entry of the log is a warning; the others are for debugging. -/
def LogEntry.isWarning : LogEntry → Bool
  | .skipped _ _ => true
  | _ => false

/-- The message of an entry of the log. -/
def LogEntry.message : LogEntry → Text
  | .loaded path => text "loaded configuration from " ++ path
  | .assembled file methods =>
    file ++ text ": " ++ Text.ofNat methods ++ text " method(s)"
  | .analyzed _ _ _ => text "analyzed"
  | .skipped _ e => text "skipping method: " ++ e.message

/-- What comes of a part of a run. -/
structure Report where
  /-- What is printed. -/
  output : Text := []
  log : List LogEntry := []
  failures : List FileFailure := []
  deriving DecidableEq, Repr

/-- One report after another. -/
def Report.append (a b : Report) : Report where
  output := a.output ++ b.output
  log := a.log ++ b.log
  failures := a.failures ++ b.failures

/-- The line that is printed about a method: what it is, and the positions that
are flagged. -/
def methodLine (m : Method) (positions : List Nat) : Text :=
  m.signature ++ text ":"
    ++ (positions.map fun pos => text " " ++ Text.ofNat pos).flatten
    ++ text "\n"

/-- The report on a method, unless its analysis crashes. -/
def reportMethod (settings : Settings) (file : Text) (m : Method) :
    Option Report :=
  match Analysis.analyze settings.unannotated m with
  | .error .crash => none
  | .error (.error e) =>
    some { log := [.skipped file e], failures := [.malformedMethod file e] }
  | .ok frames =>
    let positions := Diagnosis.diagnose frames m.instructions
    let dump := if settings.dump then Diagnosis.dump frames m.instructions
      else []
    some {
      output := methodLine m positions
        ++ (dump.map fun line => text "\t" ++ line ++ text "\n").flatten
      log := [.analyzed m.signature m.instructions.length positions.length] }

/-- The reports on each of a list of things, one after another. -/
def reportAll {α : Type} (report : α → Option Report) :
    List α → Option Report
  | [] => some {}
  | a :: rest => do
    let first ← report a
    let others ← reportAll report rest
    return first.append others

/-- The report on a file, unless its assembly or analysis ends the program. -/
def reportFile (files : Files) (settings : Settings) (file : Text) :
    Option Report :=
  match files file with
  | .error e => some { failures := [.unreadable file e] }
  | .ok source =>
    match Assembly.parse source with
    | .error .crash | .error .exhausted => none
    | .error (.error e) => some { failures := [.malformedSource file e] }
    | .ok methods => do
      let report ← reportAll (reportMethod settings file) methods
      return Report.append { log := [.assembled file methods.length] } report

/-- What comes of a run. -/
structure Outcome where
  /-- What is printed. -/
  output : Text := []
  /-- What is shown about the flags. -/
  complaint : Text := []
  log : List LogEntry := []
  error : Option Error := none
  deriving DecidableEq, Repr

/-- The settings that a configuration file makes the defaults. -/
def loadDefaults (decode : Settings.Decoder) (files : Files) (path : Text) :
    Except Settings.LoadError Settings :=
  if path.isEmpty then .ok {} else Settings.load decode files path {}

/-- A run once its arguments are understood. -/
def runFiles (files : Files) (path : Text) (options : Options)
    (operands : List Text) : Option Outcome :=
  let visible (log : List LogEntry) : List LogEntry :=
    log.filter fun entry => options.debug || entry.isWarning
  let loaded := if path.isEmpty then [] else [LogEntry.loaded path]
  if operands.isEmpty then
    some { log := visible loaded, error := some .noFiles }
  else do
    let report ← reportAll (reportFile files options.settings) operands
    return {
      output := report.output
      log := visible (loaded ++ report.log)
      error := if report.failures.isEmpty then none
        else some (.files report.failures) }

/-- A run with the given files and arguments, and with a decoder for the
configuration file.  There is no outcome if the program ends before it has
one. -/
def run (decode : Settings.Decoder) (files : Files) (arguments : List Text) :
    Option Outcome :=
  match configPath files arguments with
  | .error e => some { error := some (.flags e) }
  | .ok path =>
    match loadDefaults decode files path with
    | .error e => some { error := some (.settings e) }
    | .ok defaults =>
      let parsed := Flags.parse (flags defaults) arguments
        { settings := defaults }
      match parsed.error with
      | some e =>
        some {
          complaint := Flags.complaint programName (flags defaults) e
          error := some (.flags e) }
      | none => runFiles files path parsed.options parsed.rest

end Command
end Nullness

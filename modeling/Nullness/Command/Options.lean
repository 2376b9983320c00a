import Nullness.Flags
import Nullness.Settings

/-!
# The options of the command line

The settings can be given as flags, which win over the configuration file: what
the file says is the default of the flags.  The command line has two more flags,
for the name of that file and for debugging.
-/

namespace Nullness

namespace Settings

/-- The summary of the flag for parameters. -/
def unannotatedSummary : Text :=
  text "Nullability assumed for reference parameters without annotations: "
    ++ text "nullable, nonnull or null."

/-- The flag that says what is assumed about parameters. -/
def unannotatedFlag {σ : Type} (get : σ → Settings)
    (set : Settings → σ → σ) (defaults : Settings) : Flags.Flag σ where
  name := unannotatedName
  summary := unannotatedSummary
  placeholder := text "value"
  default := some defaults.unannotated.name
  action := .value fun name s =>
    match readAssumption name with
    | .ok n => .ok (set { get s with unannotated := n } s)
    | .error e => .error e.message

/-- The flag that asks for frames. -/
def dumpFlag {σ : Type} (get : σ → Settings) (set : Settings → σ → σ)
    (defaults : Settings) : Flags.Flag σ where
  name := dumpName
  summary := text "Print the frame before every instruction."
  default := if defaults.dump then some (text "true") else none
  action := .switch fun b s => set { get s with dump := b } s

/-- The flags for the settings alone, with their defaults. -/
def flags (defaults : Settings) : List (Flags.Flag Settings) :=
  [dumpFlag id (fun s _ => s) defaults,
    unannotatedFlag id (fun s _ => s) defaults]

end Settings

namespace Command

/-- The options of a run. -/
structure Options where
  settings : Settings
  /-- The name of the configuration file. -/
  config : Text := []
  debug : Bool := false
  deriving DecidableEq, Repr

/-- The configuration file that is used without a flag that names one. -/
def defaultFile : Text := text "nullsafe.toml"

/-- The name of the flag for the configuration file. -/
def configName : Text := text "config"

/-- The flag for the configuration file. -/
def configFlag : Flags.Flag Options where
  name := configName
  summary := text "TOML configuration file (default " ++ defaultFile
    ++ text " if present)."
  placeholder := text "string"
  action := .value fun path o => .ok { o with config := path }

/-- The flag for debugging. -/
def debugFlag : Flags.Flag Options where
  name := text "debug"
  summary := text "Enable debug logging."
  action := .switch fun b o => { o with debug := b }

/-- The flags of the command line. -/
def flags (defaults : Settings) : List (Flags.Flag Options) :=
  let set (s : Settings) (o : Options) : Options := { o with settings := s }
  [configFlag, debugFlag, Settings.dumpFlag Options.settings set defaults,
    Settings.unannotatedFlag Options.settings set defaults]

/-- The name under which the program shows its flags. -/
def programName : Text := text "nullsafe"

/-- What the arguments say about the configuration file. -/
inductive ConfigChoice where
  /-- The arguments name the file; an empty name asks for none. -/
  | named (path : Text)
  /-- The flag has no value. -/
  | noValue
  /-- The arguments say nothing. -/
  | unnamed
  deriving DecidableEq, Repr

/-- Finds the flag for the configuration file among the arguments up to two
dashes that stand alone, wherever it stands and however many dashes it has. -/
def configChoice : List Text → ConfigChoice
  | [] => .unnamed
  | argument :: rest =>
    if argument = text "--" then .unnamed
    else
      let name := argument.dropWhile (· == byte '-')
      if argument.head? ≠ some (byte '-') then configChoice rest
      else match Text.cut (byte '=') name with
        | some (before, value) =>
          if before = configName then .named value else configChoice rest
        | none =>
          if name ≠ configName then configChoice rest
          else match rest with
            | [] => .noValue
            | value :: _ => .named value

/-- The configuration file of a run; an empty name stands for none. -/
def configPath (files : Files) (arguments : List Text) :
    Except Flags.Error Text :=
  match configChoice arguments with
  | .named path => .ok path
  | .noValue => .error (.noValue configName)
  | .unnamed => .ok (if files.has defaultFile then defaultFile else [])

end Command
end Nullness

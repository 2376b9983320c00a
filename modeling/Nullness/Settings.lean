import Nullness.Files
import Nullness.Nullability

/-!
# Settings

The settings of a run say what is assumed about parameters that nothing is
declared about, and whether frames are printed.  A configuration file changes
the settings that it mentions; if there is anything wrong with it, it changes
none.

What is written in a file is found out by a decoder.  Nothing is assumed about
it: it refuses a content, or says which settings it has found, and which keys
are left over.
-/

namespace Nullness

/-- The settings of a run. -/
structure Settings where
  /-- The nullability that is assumed for reference parameters without a
  declared one. -/
  unannotated : Nullability := .nullable
  /-- Whether the frame before every instruction is printed. -/
  dump : Bool := false
  deriving DecidableEq, Repr

/-- Why a text names no assumption about parameters. -/
inductive AssumptionError where
  /-- The text names no nullability. -/
  | unknownName (found : Text)
  /-- The text names the nullability of what nothing is known about. -/
  | assumedUnknown
  deriving DecidableEq, Repr

/-- The message about a text that names no assumption. -/
def AssumptionError.message : AssumptionError → Text
  | .unknownName found => Nullability.unknownNameMessage found
  | .assumedUnknown => text "parameters cannot be assumed UNKNOWN"

/-- Reads what is to be assumed about parameters. -/
def readAssumption (name : Text) : Except AssumptionError Nullability :=
  match Nullability.ofName? name with
  | none => .error (.unknownName name)
  | some n => if n = .unknown then .error .assumedUnknown else .ok n

namespace Settings

/-- What a decoder finds in a configuration file. -/
structure Decoded where
  /-- The value of the setting for parameters, if the file has one. -/
  unannotated : Option Text := none
  /-- The value of the setting for frames, if the file has one. -/
  dump : Option Bool := none
  /-- The keys that belong to no setting. -/
  undecoded : List Text := []
  deriving DecidableEq, Repr

/-- Decodes the content of a configuration file, or says what is wrong with
it. -/
abbrev Decoder := Text → Except Text Decoded

/-- Why a configuration file changes nothing. -/
inductive LoadError where
  /-- The file cannot be read. -/
  | unreadable (path : Text) (e : FileError)
  /-- The content of the file cannot be decoded. -/
  | malformed (path : Text) (why : Text)
  /-- The file has a key that is no setting. -/
  | unknownKey (path : Text) (key : Text)
  /-- The file names no valid assumption. -/
  | assumption (path : Text) (e : AssumptionError)
  deriving DecidableEq, Repr

/-- The message about a configuration file. -/
def LoadError.message : LoadError → Text
  | .unreadable path e =>
    text "read config " ++ path ++ text ": " ++ e.message path
  | .malformed path why => text "parse config " ++ path ++ text ": " ++ why
  | .unknownKey path key =>
    text "parse config " ++ path ++ text ": unknown key " ++ Text.quote key
  | .assumption path e => text "config " ++ path ++ text ": " ++ e.message

/-- The name of the setting for parameters. -/
def unannotatedName : Text := text "unannotated-params"

/-- The name of the setting for frames. -/
def dumpName : Text := text "dump"

/-- A change of the settings in place.  What it assigned before it failed stays
assigned. -/
abbrev Action := EStateM LoadError Settings

/-- Assigns what has been found in a configuration file, one setting after the
other. -/
def assign (path : Text) (found : Decoded) : Action Unit := do
  if let some name := found.unannotated then
    match readAssumption name with
    | .error e => throw (.assumption path e)
    | .ok n => modify fun s => { s with unannotated := n }
  if let some dump := found.dump then
    modify fun s => { s with dump := dump }

/-- Changes the settings by the configuration file of the given name. -/
def update (decode : Decoder) (files : Files) (path : Text) : Action Unit :=
  match files path with
  | .error e => throw (.unreadable path e)
  | .ok content =>
    match decode content with
    | .error why => throw (.malformed path why)
    | .ok found =>
      match found.undecoded with
      | key :: _ => throw (.unknownKey path key)
      | [] => assign path found

/-- The settings after the configuration file of the given name. -/
def load (decode : Decoder) (files : Files) (path : Text) (s : Settings) :
    Except LoadError Settings :=
  match update decode files path s with
  | .ok _ s => .ok s
  | .error e _ => .error e

end Settings
end Nullness

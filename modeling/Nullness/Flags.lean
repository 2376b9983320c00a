import Nullness.Text.Quoted

/-!
# Command-line flags

Flags come before all other arguments, after one dash or two, in the order in
which they take effect.  A switch stands alone or has a truth value after an
equals sign; any other flag has a value, either after an equals sign or as the
next argument.

`Flags.parse` reads arguments from left to right.  It stops at the first
argument that is no flag, after two dashes that stand alone, or at the first
mistake, and what the flags before have done stays done.
-/

namespace Nullness
namespace Flags

/-- What a flag does to the options. -/
inductive Action (σ : Type) where
  /-- Sets a truth value. -/
  | switch (set : Bool → σ → σ)
  /-- Takes a value, or says why it does not. -/
  | value (set : Text → σ → Except Text σ)

/-- A flag. -/
structure Flag (σ : Type) where
  name : Text
  /-- What the flag is for. -/
  summary : Text
  /-- What stands for the value in the summary of all flags. -/
  placeholder : Text := []
  /-- The value without the flag, if it is worth mentioning. -/
  default : Option Text := none
  action : Action σ

/-- A mistake in the arguments, or a wish for help. -/
inductive Error where
  /-- Help is asked for. -/
  | help
  /-- An argument starts like a flag, but has no name. -/
  | malformed (argument : Text)
  /-- There is no such flag. -/
  | undefined (name : Text)
  /-- The value of a flag is missing. -/
  | noValue (name : Text)
  /-- The value of a switch is no truth value. -/
  | badBoolean (value name : Text)
  /-- The value of a flag is refused. -/
  | badValue (value name why : Text)
  deriving DecidableEq, Repr

/-- The message about a mistake. -/
def Error.message : Error → Text
  | .help => text "flag: help requested"
  | .malformed argument => text "bad flag syntax: " ++ argument
  | .undefined name => text "flag provided but not defined: -" ++ name
  | .noValue name => text "flag needs an argument: -" ++ name
  | .badBoolean value name =>
    text "invalid boolean value " ++ Text.quote value ++ text " for -" ++ name
      ++ text ": parse error"
  | .badValue value name why =>
    text "invalid value " ++ Text.quote value ++ text " for flag -" ++ name
      ++ text ": " ++ why

/-- How an argument is to be understood where a flag may stand. -/
inductive Argument where
  /-- It is no flag. -/
  | operand
  /-- It ends the flags. -/
  | terminator
  /-- It starts like a flag, but has no name. -/
  | malformed
  | flag (name : Text) (value : Option Text)
  deriving DecidableEq, Repr

/-- The name of a flag and its value after an equals sign, which cannot be the
first byte. -/
def splitValue (first : UInt8) (rest : Text) : Text × Option Text :=
  match Text.cut (byte '=') rest with
  | some (name, value) => (first :: name, some value)
  | none => (first :: rest, none)

/-- Understands what follows the dashes of an argument. -/
def Argument.named : Text → Argument
  | [] => .malformed
  | b :: rest =>
    if b = byte '-' || b = byte '=' then .malformed
    else
      let (name, value) := splitValue b rest
      .flag name value

/-- Understands an argument. -/
def Argument.ofText : Text → Argument
  | first :: second :: rest =>
    if first ≠ byte '-' then .operand
    else if second ≠ byte '-' then .named (second :: rest)
    else if rest.isEmpty then .terminator
    else .named rest
  | _ => .operand

/-- The ways to write a truth value. -/
def booleans : List (Text × Bool) :=
  [(text "1", true), (text "t", true), (text "T", true), (text "true", true),
    (text "TRUE", true), (text "True", true), (text "0", false),
    (text "f", false), (text "F", false), (text "false", false),
    (text "FALSE", false), (text "False", false)]

/-- What reading the arguments comes to: the options, the arguments that are
left, and the mistake that ended it. -/
structure Result (σ : Type) where
  options : σ
  rest : List Text
  error : Option Error

/-- The names that ask for help, unless they are flags. -/
def helpNames : List Text := [text "h", text "help"]

/-- Reads flags from the left. -/
def parse {σ : Type} (flags : List (Flag σ)) : List Text → σ → Result σ
  | [], s => ⟨s, [], none⟩
  | argument :: rest, s =>
    match Argument.ofText argument with
    | .operand => ⟨s, argument :: rest, none⟩
    | .terminator => ⟨s, rest, none⟩
    | .malformed => ⟨s, argument :: rest, some (.malformed argument)⟩
    | .flag name value =>
      match flags.find? (·.name = name) with
      | none =>
        ⟨s, rest,
          some (if helpNames.contains name then .help else .undefined name)⟩
      | some flag =>
        match flag.action, value with
        | .switch set, none => parse flags rest (set true s)
        | .switch set, some value =>
          match booleans.lookup value with
          | some b => parse flags rest (set b s)
          | none => ⟨set false s, rest, some (.badBoolean value name)⟩
        | .value set, some value =>
          match set value s with
          | .ok s => parse flags rest s
          | .error why => ⟨s, rest, some (.badValue value name why)⟩
        | .value set, none =>
          match rest with
          | [] => ⟨s, [], some (.noValue name)⟩
          | value :: rest =>
            match set value s with
            | .ok s => parse flags rest s
            | .error why => ⟨s, rest, some (.badValue value name why)⟩

/-- The lines on one flag. -/
def Flag.usage {σ : Type} (flag : Flag σ) : Text :=
  text "  -" ++ flag.name
    ++ (if flag.placeholder.isEmpty then [] else text " " ++ flag.placeholder)
    ++ text "\n    \t" ++ flag.summary
    ++ (match flag.default with
      | some d => text " (default " ++ d ++ text ")"
      | none => [])
    ++ text "\n"

/-- The summary of all flags. -/
def usage {σ : Type} (program : Text) (flags : List (Flag σ)) : Text :=
  text "Usage of " ++ program ++ text ":\n"
    ++ (flags.map Flag.usage).flatten

/-- What is shown about a mistake: its message, and the summary of all flags.
Who asks for help gets the summary alone. -/
def complaint {σ : Type} (program : Text) (flags : List (Flag σ)) :
    Error → Text
  | .help => usage program flags
  | e => e.message ++ text "\n" ++ usage program flags

/-- What is shown after reading the arguments. -/
def Result.shown {σ : Type} (r : Result σ) (program : Text)
    (flags : List (Flag σ)) : Text :=
  match r.error with
  | some e => complaint program flags e
  | none => []

end Flags
end Nullness

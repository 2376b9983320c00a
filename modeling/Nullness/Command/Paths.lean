import Nullness.Command.Options

/-!
# The files of a run

Every file that a run can look at is either the default configuration file or
named by an argument, as a whole or after an equals sign.  So the files can be
read before the run, which then does nothing but compute.
-/

namespace Nullness
namespace Command

/-- The names that an argument can give. -/
def namesIn (argument : Text) : List Text :=
  match Text.cut (byte '=') argument with
  | some (_, value) => [argument, value]
  | none => [argument]

/-- The names that a run can look at. -/
def paths (arguments : List Text) : List Text :=
  defaultFile :: arguments.flatMap namesIn

/-- The files that have been read, by name; nothing is found under any other
name. -/
def filesOf (found : List (Text × Except FileError Text)) : Files := fun path =>
  match found.lookup path with
  | some result => result
  | none => .error .missing

end Command
end Nullness

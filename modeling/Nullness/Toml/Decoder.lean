import Nullness.Settings
import Nullness.Toml.Document

/-!
# Settings in documents

A decoder of configuration files that are documents.  The names of settings
match in either case; of two entries for one setting, the later one counts.
-/

namespace Nullness
namespace Toml

open Settings

/-- Takes in a top-level entry of a document.  An entry for a setting has to be
of the right kind. -/
def addEntry (found : Decoded) (entry : Text × Node) : Option Decoded :=
  let (name, node) := entry
  if Text.matchesName unannotatedName name then
    match node with
    | .string s => some { found with unannotated := some s }
    | _ => none
  else if Text.matchesName dumpName name then
    match node with
    | .bool b => some { found with dump := some b }
    | _ => none
  else some found

/-- Whether a key of a document is a setting. -/
def isSetting : Key → Bool
  | [name] =>
    Text.matchesName unannotatedName name || Text.matchesName dumpName name
  | _ => false

/-- The settings in a document, and its keys that are no settings. -/
def Document.decode? (document : Document) : Option Decoded := do
  let found ← document.entries.foldlM addEntry {}
  let others := document.keys.filter fun key => !isSetting key
  return { found with undecoded := others.map Key.render }

/-- Decodes a configuration file.  Nothing more is said about a file that is
malformed. -/
def decode : Decoder := fun content =>
  match (Document.read? content).bind Document.decode? with
  | some found => .ok found
  | none => .error []

end Toml
end Nullness

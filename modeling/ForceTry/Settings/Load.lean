import ForceTry.Encoding.Basic
import ForceTry.Outcome
import ForceTry.Settings.Check

/-!
# Settings from a file

A file of settings is a document in UTF-8 that holds a mapping from names to values.  An empty document
leaves all settings as they are.  How a document is read is not said here.
-/

namespace ForceTry
namespace Settings

def unreadable (why : Text) : Fault :=
  .configuration (Text.ofString "Error loading configuration: " ++ why) none

def namedValues : List (Value × Value) → Except Fault Details
  | [] => .ok []
  | (.text name, v) :: es => do return (name, v) :: (← namedValues es)
  | _ :: _ => .error (unreadable (Text.ofString "expected names of settings as keys"))

variable (codecs : Codecs) (lib : SchemaLibrary) (document : Text → Except Text Value)

def ofDocument (t : Text) : Except Fault Settings :=
  match document t with
  | .error why => .error (unreadable why)
  | .ok .null => ofDetails codecs lib []
  | .ok (.map entries) => do ofDetails codecs lib (← namedValues entries)
  | .ok _ =>
      .error (.configuration (Text.ofString "Configuration file must contain a mapping") none)

def ofBytes (bytes : Bytes) : Except Fault Settings :=
  match (Encoding.utf8 false).decode bytes with
  | .ok t => ofDocument codecs lib document t
  | .error e => .error (unreadable (Fault.ofRead e).message)

def load (path : Text) (content : Except FileFault Bytes) : Outcome Settings :=
  let settings := match content with
    | .ok bytes => ofBytes codecs lib document bytes
    | .error (.missing _) => .error (.noConfiguration path)
    | .error e => .error (unreadable e.message)
  let metadata := [("config_file".toList, .text path)]
  match settings with
  | .ok s => .success s metadata
  | .error e => .failure e metadata

end Settings
end ForceTry

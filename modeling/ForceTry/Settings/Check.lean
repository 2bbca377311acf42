import ForceTry.Encoding.Codec
import ForceTry.LogLevel
import ForceTry.Settings.Basic
import ForceTry.Settings.Schema
import ForceTry.Text.Blank

/-!
# Checking settings

The settings are the fields of a schema, each with its kind and the function that accepts its texts.  A
library checks named values against the schema, and settings are right when it accepts their values.  What
it takes the values for is thrown away.

Main operations: `Settings.check` for whole settings, and `Settings.ofDetails` for named values.
-/

namespace ForceTry
namespace Setting

/-! ## Texts of settings -/

def indentStyles : List String := ["spaces", "tabs"]

def logLevels : List String := ["DEBUG", "INFO", "WARNING", "ERROR", "CRITICAL"]

def oneOfMessage (key : String) (allowed : List String) (found : Text) : Text :=
  Text.ofString s!"{key} must be one of: " ++ Text.join [',', ' '] (allowed.map String.toList) ++
    Text.ofString ", got " ++ ['\x27'] ++ found ++ ['\x27']

def checkIndentStyle (t : Text) : Except Text Text :=
  if indentStyles.any (·.toList == t) then .ok t
  else .error (oneOfMessage indentStyle.key indentStyles t)

def looksLikePlaceholder (t : Text) : Bool :=
  Text.startsWith ['<', '#'] t && Text.endsWith ['#', '>'] t && 5 ≤ t.length

/-- A placeholder stands between the marks of placeholders, holds something, and has no line feed. -/
def checkPlaceholder (t : Text) : Except Text Text :=
  if !looksLikePlaceholder t then
    .error (Text.ofString "placeholder must look like " ++ ['\x27'] ++ Token.defaultPlaceholder ++
      ['\x27'] ++ Text.ofString ", got " ++ ['\x27'] ++ t ++ ['\x27'])
  else if '\n' ∈ t then .error (Text.ofString "placeholder must fit on one line")
  else .ok t

def checkEncoding (codecs : Codecs) (t : Text) : Except Text Text :=
  match codecs.lookup t with
  | .ok _ => .ok t
  | .error .embeddedNull => .error NameFault.embeddedNull.message
  | .error _ => .error (Text.ofString "Unknown encoding " ++ ['\x27'] ++ t ++ ['\x27'])

def checkLogLevel (t : Text) : Except Text Text :=
  let large := t.map LogLevel.largeLetter
  if logLevels.any (·.toList == large) then .ok large
  else .error (oneOfMessage logLevel.key logLevels t)

/-! ## The schema -/

def fieldKind (codecs : Codecs) : Setting → FieldKind
  | indentStyle => .text checkIndentStyle
  | indentWidth => .whole 1 8
  | placeholder => .text checkPlaceholder
  | validateOutput => .flag
  | maxFileSize => .whole 1 100
  | encoding => .text (checkEncoding codecs)
  | backups => .flag
  | logLevel => .text checkLogLevel

def field (codecs : Codecs) (k : Setting) : Field :=
  ⟨k.key.toList, k.fieldKind codecs, Settings.standard.get k⟩

def schema (codecs : Codecs) : Schema :=
  ⟨Text.ofString "ValidatedRefactorConfig", all.map (field codecs)⟩

end Setting

namespace Settings

variable (codecs : Codecs) (lib : SchemaLibrary)

def validate (d : Details) : Except Fault Details :=
  (lib.build (Setting.schema codecs) d).mapError fun e =>
    .configuration (Text.ofString "Invalid refactoring configuration: " ++ e.text) e.key?

def check (s : Settings) : Except Fault Unit := do
  let _ ← validate codecs lib s.toDetails

def setKnown (s : Settings) (d : Details) : Settings :=
  d.foldl (fun s (name, v) =>
    match Setting.ofKey? name with
    | some k => s.set k v
    | none => s) s

/-- Settings from named values.  Unknown names are passed over; the values must be right, and are
kept as they are given. -/
def ofDetails (d : Details) : Except Fault Settings := do
  let s := standard.setKnown d
  s.check codecs lib
  .ok s

end Settings
end ForceTry

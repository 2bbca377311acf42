import ForceTry.Rule.Basic

/-!
# Settings

The eight settings of a run.  A settings record holds a value of any kind for each of them, because
values are kept as they were given; whether they are right is another question, which
`Settings.Check` answers.

Main operations: `Settings.get` and `Settings.set` by name of the setting, `Settings.override` for
several names at once, and `Settings.style`, which is what the rules see of the settings.
-/

namespace ForceTry

inductive Setting where
  | indentStyle
  | indentWidth
  | placeholder
  | validateOutput
  | maxFileSize
  | encoding
  | backups
  | logLevel
  deriving DecidableEq, Repr

namespace Setting

def key : Setting → String
  | indentStyle => "fallback_indent_style"
  | indentWidth => "fallback_indent_width"
  | placeholder => "placeholder"
  | validateOutput => "validate_output"
  | maxFileSize => "max_file_size_mb"
  | encoding => "encoding"
  | backups => "backup_originals"
  | logLevel => "log_level"

def all : List Setting :=
  [indentStyle, indentWidth, placeholder, validateOutput, maxFileSize, encoding, backups, logLevel]

def ofKey? (key : Text) : Option Setting := all.find? fun s => s.key.toList == key

end Setting

structure Settings where
  indentStyle : Value
  indentWidth : Value
  placeholder : Value
  validateOutput : Value
  maxFileSize : Value
  encoding : Value
  backups : Value
  logLevel : Value

namespace Settings

def standard : Settings where
  indentStyle := .ofString "spaces"
  indentWidth := .int 2
  placeholder := .text Token.defaultPlaceholder
  validateOutput := .bool true
  maxFileSize := .int 10
  encoding := .ofString "utf-8"
  backups := .bool true
  logLevel := .ofString "INFO"

def get (s : Settings) : Setting → Value
  | .indentStyle => s.indentStyle
  | .indentWidth => s.indentWidth
  | .placeholder => s.placeholder
  | .validateOutput => s.validateOutput
  | .maxFileSize => s.maxFileSize
  | .encoding => s.encoding
  | .backups => s.backups
  | .logLevel => s.logLevel

def set (s : Settings) (k : Setting) (v : Value) : Settings :=
  match k with
  | .indentStyle => { s with indentStyle := v }
  | .indentWidth => { s with indentWidth := v }
  | .placeholder => { s with placeholder := v }
  | .validateOutput => { s with validateOutput := v }
  | .maxFileSize => { s with maxFileSize := v }
  | .encoding => { s with encoding := v }
  | .backups => { s with backups := v }
  | .logLevel => { s with logLevel := v }

def toDetails (s : Settings) : Details := Setting.all.map fun k => (k.key.toList, s.get k)

def override (s : Settings) : Details → Except Fault Settings
  | [] => .ok s
  | (name, v) :: rest =>
      match Setting.ofKey? name with
      | some k => override (s.set k v) rest
      | none => .error .badKind

theorem get_set (s : Settings) (k k' : Setting) (v : Value) :
    (s.set k v).get k' = if k' = k then v else s.get k' := by
  cases k <;> cases k' <;> rfl

/-! ## Indentation where a file shows none -/

/-- The unit that the settings give, with the name under which it is reported.  A width that is a
number but no whole one makes a unit that cannot be written out. -/
structure Fallback where
  unit : IndentUnit
  name : Text
  writable : Bool
  deriving DecidableEq, Repr

/-- The unit of a width of some kind, which must be a number and at least one. -/
def Fallback.ofWidth (width : Value) : Except Fault Fallback :=
  let name := width.shown ++ Text.ofString " spaces"
  match width with
  | .int n =>
      match IndentUnit.ofWidth? n with
      | some u => .ok ⟨u, name, true⟩
      | none => .error (.badValue IndentUnit.widthMessage)
  | .bool true => .ok ⟨.spaces 1, name, true⟩
  | .bool false => .error (.badValue IndentUnit.widthMessage)
  | .float x =>
      if x < 1 then .error (.badValue IndentUnit.widthMessage)
      else .ok ⟨.standard, name, false⟩
  | _ => .error .badKind

/-- The unit of the settings.  The width plays a part for every style but tabs. -/
def fallback (s : Settings) : Except Fault Fallback :=
  match s.indentStyle with
  | .text t =>
      if t = "tabs".toList then .ok ⟨.tab, IndentUnit.tab.describe, true⟩
      else Fallback.ofWidth s.indentWidth
  | _ => Fallback.ofWidth s.indentWidth

def style (s : Settings) : Style where
  fallback := s.fallback.map fun f => (f.unit, f.name)
  placeholder :=
    match s.placeholder with
    | .text t => t
    | _ => []

/-- Code made with these settings can be written out: the placeholder is a text, and so is the
indentation, which is `known` where the file shows it. -/
def writes (s : Settings) (known : Option IndentUnit) : Bool :=
  s.placeholder.isText && (known.isSome || (s.fallback.toOption.any Fallback.writable))

end Settings
end ForceTry

import ForceTry.Refactor
import ForceTry.Outcome
import ForceTry.Store.Basic

/-!
# Refactoring a file

A file is read as text in the encoding of the settings, refactored, and written back if that is
asked for and anything has changed; before that its bytes may be copied to a file beside it.  Files
above the size that the settings allow are left alone.

What the file system refuses, and bytes that are no text, end the operation with a failure.
Settings that make no sense, and a text that the encoding cannot write, are faults of the caller.

The file is opened before its new text is encoded, and a file that is opened for writing is emptied.  So a
text that cannot be encoded leaves no bytes, and a write that breaks off leaves some.

Main operation: `Store.refactor`.
-/

namespace ForceTry
namespace Store

/-- What files are read and written with. -/
structure Host where
  codecs : Codecs
  device : Device

structure Plan where
  settings : Settings
  rule : Text
  inPlace : Bool
  debug : Bool

def isReported : Fault → Bool
  | .fileSystem _ => true
  | .decode _ => true
  | _ => false

def exceeds (size : Nat) (megabytes : Value) : Except Fault Bool :=
  match megabytes with
  | .int n => .ok (n * 1024 * 1024 < size)
  | .bool b => .ok ((if b then 1024 * 1024 else 0) < size)
  | .float x => .ok (x * 1024 * 1024 < Float.ofNat size)
  | _ => .error .badKind

def encodingName : Value → Except Fault Text
  | .text name =>
      if '\x00' ∈ name then .error (Fault.ofName .embeddedNull) else .ok name
  | .null => .ok "utf-8".toList
  | _ => .error .badKind

variable (host : Host)

def readText (s : Store) (encoding : Value) (p : Path) : Except Fault Text := do
  let name ← encodingName encoding
  let bytes ← (s.fetch host.device .read p).mapError .fileSystem
  let codec ← (host.codecs.codec name).mapError Fault.ofName
  (codec.decode bytes).mapError Fault.ofRead

def readSmall (s : Store) (settings : Settings) (p : Path) : Except Fault (Option Text) := do
  if p.isBroken then throw (.badValue (Text.ofString "embedded null byte"))
  let entry ← (s.look host.device p).mapError .fileSystem
  if ← exceeds (sizeOf entry) settings.maxFileSize then return none
  else return some (← s.readText host settings.encoding p)

def backupEnding : Text := ".bak".toList

/-- Where the copy of a file goes: beside it, or into the directory that stands there. -/
def backupPath (s : Store) (p : Path) : Path :=
  let beside := p.addEnding backupEnding
  if s.isDirectory beside then beside.within [p.name] else beside

def backUp (s : Store) (p : Path) : Store × Except FileFault Unit :=
  match s.fetch host.device .copy p, s.place host.device (s.backupPath p) with
  | .error e, _ => (s, .error e)
  | _, .error e => (s, .error e)
  | .ok content, .ok l => s.fill host.device l content

def secure (s : Store) (settings : Settings) (p : Path) : Store × Except FileFault Unit :=
  if settings.backups.isTruthy then s.backUp host p else (s, .ok ())

def writeText (s : Store) (encoding : Value) (p : Path) (text : Text) :
    Store × Except Fault Unit :=
  match encodingName encoding, s.place host.device p with
  | .error e, _ => (s, .error e)
  | _, .error e => (s, .error (.fileSystem e))
  | .ok name, .ok l =>
      let emptied := s.put l (.file [])
      match host.codecs.codec name with
      | .error e => (emptied, .error (Fault.ofName e))
      | .ok codec =>
          match codec.encode text with
          | .error e => (emptied, .error (Fault.ofWrite e))
          | .ok bytes =>
              match emptied.fill host.device l bytes with
              | (s, .error e) => (s, .error (.fileSystem e))
              | (s, .ok ()) => (s, .ok ())

/-- Replaces the text of a file, behind a copy if the settings ask for one. -/
def replace (s : Store) (settings : Settings) (p : Path) (text : Text) :
    Store × Except Fault Unit :=
  match s.secure host settings p with
  | (s, .error e) => (s, .error (.fileSystem e))
  | (s, .ok ()) => s.writeText host settings.encoding p text

/-- Writes a refactored text back, if that is asked for and the text has changed, and says so in the
metadata. -/
def finish (s : Store) (plan : Plan) (p : Path) (old new : Text) (metadata : Details) :
    Store × Except Fault (Outcome Text) :=
  let changed := new != old
  let metadata := metadata.putAll
    [("path".toList, .text p.text), ("changed".toList, .bool changed),
      ("written".toList, .bool false)]
  if plan.inPlace && changed then
    match s.replace host plan.settings p new with
    | (s, .ok ()) => (s, .ok (.success new (metadata.put "written".toList (.bool true))))
    | (s, .error e) => (s, if isReported e then .ok (.failure e metadata) else .error e)
  else (s, .ok (.success new metadata))

def refactor (s : Store) (plan : Plan) (p : Path) : Store × Except Fault (Outcome Text) :=
  let path : Details := [("path".toList, .text p.text)]
  match s.readSmall host plan.settings p with
  | .error e => (s, if isReported e then .ok (.failure e path) else .error e)
  | .ok none =>
      let reason := Text.ofString "file exceeds " ++ plan.settings.maxFileSize.display ++
        Text.ofString " MB"
      (s, .ok (.skip reason path))
  | .ok (some old) =>
      match Refactor.source .standard plan.settings plan.rule p.text old plan.debug with
      | .error e => (s, .error e)
      | .ok (.success new metadata) => s.finish host plan p old new metadata
      | .ok (.failure e metadata) => (s, .ok (.failure e (metadata.putAll path)))
      | .ok (.skipped e metadata) => (s, .ok (.skipped e (metadata.putAll path)))

end Store
end ForceTry

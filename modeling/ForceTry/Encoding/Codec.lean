import ForceTry.Encoding.Utf8
import ForceTry.Text.Quoted

/-!
# Codecs

What is asked of the encodings of files: which names they have, what text the bytes of a file are, and
which bytes a file holds to which a text was written.  Nothing here says how an encoding does this;
`Encoding.codecs` is one answer, and the theory is about every answer.
-/

namespace ForceTry

/-- Bytes that an encoding cannot read: those from `start` up to `stop`, the first being `byte`. -/
structure DecodeFault where
  encoding : String
  byte : Nat
  start : Nat
  stop : Nat
  reason : String
  deriving DecidableEq, Repr

namespace DecodeFault

def message (e : DecodeFault) : Text :=
  let place :=
    if e.stop ≤ e.start + 1 then
      s!"byte 0x{(Text.hexDigits 2 e.byte).toString} in position {e.start}"
    else s!"bytes in position {e.start}-{e.stop - 1}"
  Text.ofString s!"'{e.encoding}' codec can't decode {place}: {e.reason}"

end DecodeFault

inductive ReadFault where
  | decode (fault : DecodeFault)
  | refused (why : Text)
  deriving DecidableEq, Repr

inductive WriteFault where
  | unencodable
  | refused (why : Text)
  deriving DecidableEq, Repr

structure Codec where
  decode : Bytes → Except ReadFault Text
  encode : Text → Except WriteFault Bytes

/-- What the name of an encoding stands for; not all encodings are for text. -/
inductive Coding where
  | text (codec : Codec)
  | binary

structure Codecs where
  find? : Text → Option Coding

inductive NameFault where
  | unknown (name : Text)
  | notText (name : Text)
  | embeddedNull
  deriving DecidableEq, Repr

namespace NameFault

def message : NameFault → Text
  | unknown name => Text.ofString "unknown encoding: " ++ name
  | notText name =>
      name.quoted ++
        Text.ofString " is not a text encoding; use codecs.open() to handle arbitrary codecs"
  | embeddedNull => Text.ofString "embedded null character"

end NameFault

namespace Codecs

def lookup (cs : Codecs) (name : Text) : Except NameFault Coding :=
  if '\x00' ∈ name then .error .embeddedNull
  else
    match cs.find? name with
    | some coding => .ok coding
    | none => .error (.unknown name)

def codec (cs : Codecs) (name : Text) : Except NameFault Codec := do
  match ← cs.lookup name with
  | .text codec => .ok codec
  | .binary => .error (.notText name)

end Codecs
end ForceTry

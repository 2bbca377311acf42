import ForceTry.Encoding.CodePage
import ForceTry.Encoding.Codec
import ForceTry.Encoding.Name
import ForceTry.Encoding.Wide

/-!
# Encodings

How texts become bytes and bytes become texts in the encodings of which a table is kept here.  A
registered encoding without a table has its name, but reads and writes nothing.

Main operations: `Encoding.encode?`, `Encoding.decode`, and `Encoding.codecs`, which answers for all names.
-/

namespace ForceTry

inductive Encoding where
  | utf8 (marked : Bool)
  | ascii
  | latin
  | wide (size : UnitSize) (order : Option ByteOrder)
  | page (upper : Text)
  deriving DecidableEq, Repr

inductive DecodeReason where
  | utf8 (flaw : Utf8.Flaw)
  | wide (flaw : Wide.Flaw)
  | outOfRange (limit : Nat)
  | undefined
  deriving DecidableEq, Repr

namespace DecodeReason

def message : DecodeReason → String
  | utf8 .badStart => "invalid start byte"
  | utf8 .badContinuation => "invalid continuation byte"
  | utf8 .cutOff => "unexpected end of data"
  | wide .truncated => "truncated data"
  | wide .cutOff => "unexpected end of data"
  | wide .loneLow => "illegal encoding"
  | wide .loneHigh => "illegal UTF-16 surrogate"
  | wide .surrogate => "code point in surrogate code point range(0xd800, 0xe000)"
  | wide .tooLarge => "code point not in range(0x110000)"
  | outOfRange limit => s!"ordinal not in range({limit})"
  | undefined => "character maps to <undefined>"

end DecodeReason

namespace Encoding

def ofRegistered? (name : String) : Option Encoding :=
  if name = "utf_8" then some (utf8 false)
  else if name = "utf_8_sig" then some (utf8 true)
  else if name = "ascii" then some ascii
  else if name = "latin_1" || name = "iso8859_1" then some latin
  else if name = "utf_16" then some (wide .two none)
  else if name = "utf_16_le" then some (wide .two (some .little))
  else if name = "utf_16_be" then some (wide .two (some .big))
  else if name = "utf_32" then some (wide .four none)
  else if name = "utf_32_le" then some (wide .four (some .little))
  else if name = "utf_32_be" then some (wide .four (some .big))
  else (CodePage.upperHalf? name).map page

/-! ## Writing -/

def pageByte? (upper : Text) (c : Char) : Option UInt8 :=
  if c.toNat < 128 then some (UInt8.ofNat c.toNat)
  else if c = CodePage.undefined then none
  else if c ∈ upper then some (UInt8.ofNat (128 + upper.idxOf c))
  else none

def smallByte? (limit : Nat) (c : Char) : Option UInt8 :=
  if c.toNat < limit then some (UInt8.ofNat c.toNat) else none

def encode? (e : Encoding) (t : Text) : Option Bytes :=
  match e with
  | utf8 marked => some (Utf8.encode (if marked then Wide.mark :: t else t))
  | ascii => t.mapM (smallByte? 128)
  | latin => t.mapM (smallByte? 256)
  | wide size order => some (Wide.encode size order t)
  | page upper => t.mapM (pageByte? upper)

/-! ## Reading -/

/-- Reads bytes one by one; `position` counts those before.  A byte without a character is refused
in the name of `encoding` with the reason. -/
def decodeBytes (encoding : String) (reason : DecodeReason) (char? : UInt8 → Option Char)
    (position : Nat) (read : Text) : Bytes → Except ReadFault Text
  | [] => .ok read.reverse
  | b :: r =>
      match char? b with
      | some c => decodeBytes encoding reason char? (position + 1) (c :: read) r
      | none => .error (.decode ⟨encoding, b.toNat, position, position + 1, reason.message⟩)

def smallChar? (limit : Nat) (b : UInt8) : Option Char :=
  if b.toNat < limit then some (Char.ofNat b.toNat) else none

def pageChar? (upper : Array Char) (b : UInt8) : Option Char :=
  if b < 128 then some (Char.ofNat b.toNat)
  else (upper[b.toNat - 128]?).filter (· != CodePage.undefined)

/-- The bytes without the mark at their start.  Bytes that are only a part of the mark are none at
all. -/
def withoutMark (bytes : Bytes) : Bytes :=
  let mark := Utf8.encodeChar Wide.mark
  if bytes.length < mark.length && bytes.isPrefixOf mark then []
  else if mark.isPrefixOf bytes then bytes.drop mark.length
  else bytes

def decodeUtf8 (bytes : Bytes) : Except ReadFault Text :=
  match Utf8.decode bytes with
  | .ok t => .ok t
  | .error r => .error (.decode ⟨"utf-8", r.first.toNat, r.start, r.stop, (DecodeReason.utf8 r.flaw).message⟩)

def decodeWide (size : UnitSize) (order : ByteOrder) (start : Nat) (bytes : Bytes) :
    Except ReadFault Text :=
  let ending := match order with
    | .little => "-le"
    | .big => "-be"
  match Wide.decodeFrom size order start [] bytes with
  | .ok t => .ok t
  | .error r =>
      .error (.decode ⟨size.name ++ ending, r.first.toNat, r.start, r.stop,
        (DecodeReason.wide r.flaw).message⟩)

/-- Reads wide units in the order that the mark shows.  Units that can be read but bear no mark are
refused. -/
def decodeMarked (size : UnitSize) (bytes : Bytes) : Except ReadFault Text :=
  match Wide.markedOrder? size bytes with
  | some order => decodeWide size order size.bytes (bytes.drop size.bytes)
  | none =>
      match decodeWide size .little 0 bytes with
      | .ok [] => .ok []
      | .ok _ => .error (.refused (Text.ofString s!"{size.name.toUpper} stream does not start with BOM"))
      | .error e => .error e

def decode (e : Encoding) (bytes : Bytes) : Except ReadFault Text :=
  match e with
  | utf8 marked => decodeUtf8 (if marked then withoutMark bytes else bytes)
  | ascii => decodeBytes "ascii" (.outOfRange 128) (smallChar? 128) 0 [] bytes
  | latin => decodeBytes "latin-1" (.outOfRange 256) (smallChar? 256) 0 [] bytes
  | wide size (some order) => decodeWide size order 0 bytes
  | wide size none => decodeMarked size bytes
  | page upper => decodeBytes "charmap" .undefined (pageChar? upper.toArray) 0 [] bytes

/-! ## Names -/

def codec (e : Encoding) : Codec where
  decode := e.decode
  encode t :=
    match e.encode? t with
    | some bytes => .ok bytes
    | none => .error .unencodable

def untabulated (name : String) : Codec :=
  let why := Text.ofString s!"no table of the encoding {name}"
  ⟨fun _ => .error (.refused why), fun _ => .error (.refused why)⟩

def codecs : Codecs where
  find? name :=
    match EncodingName.registered? name with
    | none => none
    | some r =>
        if r ∈ EncodingName.notText then some .binary
        else
          match ofRegistered? r with
          | some e => some (.text e.codec)
          | none => some (.text (untabulated r))

end Encoding
end ForceTry

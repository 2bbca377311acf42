import ForceTry.Encoding.Utf8
import ForceTry.Settings.Schema
import ForceTry.Text.Blank

/-!
# Lax checks

A library that takes whole numbers also from texts, bytes and floating-point numbers, flags also from
numbers and words, and texts also from bytes.  All values are checked, and every problem is reported.

Main operations: `Lax.read` for one value, `Lax.build` for a record and `Lax.assign` for one entry of it.
-/

namespace ForceTry
namespace Lax

inductive Objection where
  | notWhole
  | unreadableWhole
  | fractional
  | tooLong
  | notFinite
  | below (least : Int)
  | above (greatest : Int)
  | notText
  | unreadableText
  | notFlag
  | unreadableFlag
  | refused (why : Text)
  | extraKey
  | noSuchKey (key : Text)
  deriving DecidableEq, Repr

namespace Objection

def name : Objection → String
  | notWhole => "int_type"
  | unreadableWhole => "int_parsing"
  | fractional => "int_from_float"
  | tooLong => "int_parsing_size"
  | notFinite => "finite_number"
  | below _ => "greater_than_equal"
  | above _ => "less_than_equal"
  | notText => "string_type"
  | unreadableText => "string_unicode"
  | notFlag => "bool_type"
  | unreadableFlag => "bool_parsing"
  | refused _ => "value_error"
  | extraKey => "extra_forbidden"
  | noSuchKey _ => "no_such_attribute"

def message : Objection → Text
  | notWhole => Text.ofString "Input should be a valid integer"
  | unreadableWhole =>
      Text.ofString "Input should be a valid integer, unable to parse string as an integer"
  | fractional =>
      Text.ofString "Input should be a valid integer, got a number with a fractional part"
  | tooLong =>
      Text.ofString "Unable to parse input string as an integer, exceeded maximum size"
  | notFinite => Text.ofString "Input should be a finite number"
  | below least => Text.ofString s!"Input should be greater than or equal to {least}"
  | above greatest => Text.ofString s!"Input should be less than or equal to {greatest}"
  | notText => Text.ofString "Input should be a valid string"
  | unreadableText =>
      Text.ofString "Input should be a valid string, unable to parse raw data as a unicode string"
  | notFlag => Text.ofString "Input should be a valid boolean"
  | unreadableFlag => Text.ofString "Input should be a valid boolean, unable to interpret input"
  | refused why => Text.ofString "Value error, " ++ why
  | extraKey => Text.ofString "Extra inputs are not permitted"
  | noSuchKey key => Text.ofString "Object has no attribute " ++ ['\x27'] ++ key ++ ['\x27']

end Objection

structure Problem where
  key : Text
  objection : Objection
  value : Value

namespace Problem

def takeBytes (n : Nat) : Text → Text
  | [] => []
  | c :: t => if c.utf8Size ≤ n then c :: takeBytes (n - c.utf8Size) t else []

def byteLength (t : Text) : Nat := t.foldl (fun n c => n + c.utf8Size) 0

def shortened (t : Text) : Text :=
  if byteLength t ≤ 50 then t
  else takeBytes 25 t ++ ['.', '.', '.'] ++ (takeBytes 24 t.reverse).reverse

def describe (p : Problem) : Text :=
  p.key ++ Text.ofString "\n  " ++ p.objection.message ++
    Text.ofString s!" [type={p.objection.name}, input_value=" ++ shortened p.value.shown ++
    Text.ofString ", input_type=" ++ p.value.kind ++ [']']

def describeAll (title : Text) (ps : List Problem) : Text :=
  let noun := if ps.length = 1 then "error" else "errors"
  Text.join ['\n']
    ((Text.ofString s!"{ps.length} validation {noun} for " ++ title) :: ps.map describe)

end Problem

/-! ## Values of a kind -/

abbrev Reading := Except Objection


def isMargin (c : Char) : Bool := Text.isBlank c && !(0x1c ≤ c.toNat && c.toNat ≤ 0x1f)

def trimmed (t : Text) : Text :=
  ((t.dropWhile isMargin).reverse.dropWhile isMargin).reverse

def readDigits (n : Nat) : Text → Option Nat
  | [] => some n
  | '_' :: c :: t => if c.isDigit then readDigits (n * 10 + (c.toNat - 48)) t else none
  | c :: t => if c.isDigit then readDigits (n * 10 + (c.toNat - 48)) t else none

/-- The whole number that a text without sign stands for; a point with zeros may follow. -/
def readUnsigned (t : Text) : Option Nat :=
  let whole := t.takeWhile (· != '.')
  let fraction := (t.dropWhile (· != '.')).drop 1
  match whole with
  | c :: rest =>
      if c.isDigit && fraction.all (· == '0') then readDigits (c.toNat - 48) rest else none
  | [] => none

def readWhole (t : Text) : Option Int :=
  match trimmed t with
  | '-' :: t => (readUnsigned t).map fun n => -(n : Int)
  | '+' :: t => (readUnsigned t).map fun n => (n : Int)
  | t => (readUnsigned t).map fun n => (n : Int)

def longestNumber : Nat := 4300

def wholeOfFloat (x : Float) : Reading Int :=
  match Value.floatShape x, (Value.floatShape x).integral? with
  | .finite _ _ _, some n =>
      if -wordBound < n && n < wordBound then .ok n else .error .tooLong
  | .finite _ _ _, none => .error .fractional
  | _, _ => .error .notFinite

def wholeOfText (t : Text) : Reading Int :=
  if longestNumber < t.length then .error .tooLong
  else
    match readWhole t with
    | some n => .ok n
    | none => .error .unreadableWhole

def textOfBytes (objection : Objection) (content : Bytes) : Reading Text :=
  match Utf8.decode content with
  | .ok t => .ok t
  | .error _ => .error objection

def asWhole : Value → Reading Int
  | .int n => .ok n
  | .bool b => .ok (if b then 1 else 0)
  | .float x => wholeOfFloat x
  | .text t => wholeOfText t
  | .bytes content => do wholeOfText (← textOfBytes .unreadableWhole content)
  | _ => .error .notWhole

def flagWords : List (String × Bool) :=
  [("0", false), ("off", false), ("f", false), ("false", false), ("n", false), ("no", false),
   ("1", true), ("on", true), ("t", true), ("true", true), ("y", true), ("yes", true)]

def flagOfWord (t : Text) : Reading Bool :=
  match flagWords.find? fun (w, _) => w.toList == t.map Char.toLower with
  | some (_, b) => .ok b
  | none => .error .unreadableFlag

def flagOfWhole (n : Int) : Reading Bool :=
  if n = 0 then .ok false else if n = 1 then .ok true else .error .unreadableFlag

def asFlag : Value → Reading Bool
  | .bool b => .ok b
  | .int n => if -wordBound ≤ n && n < wordBound then flagOfWhole n else .error .notFlag
  | .float x =>
      match wholeOfFloat x with
      | .ok n => flagOfWhole n
      | .error _ => .error .notFlag
  | .text t => flagOfWord t
  | .bytes content => do flagOfWord (← textOfBytes .unreadableFlag content)
  | _ => .error .notFlag

def asText : Value → Reading Text
  | .text t => .ok t
  | .bytes content => textOfBytes .unreadableText content
  | _ => .error .notText

def read : FieldKind → Value → Reading Value
  | .text refine, v => do
      match refine (← asText v) with
      | .ok t => .ok (.text t)
      | .error why => .error (.refused why)
  | .flag, v => do return .bool (← asFlag v)
  | .whole least greatest, v => do
      let n ← asWhole v
      if greatest < n then .error (.above greatest)
      else if n < least then .error (.below least)
      else .ok (.int n)

/-! ## Records -/

/-- The entries of fields, and the problems with the values that are given for them. -/
def readFields (d : Details) : List Field → Details × List Problem
  | [] => ([], [])
  | f :: fs =>
      let (r, ps) := readFields d fs
      match d.get? f.key with
      | none => ((f.key, f.standard) :: r, ps)
      | some v =>
          match read f.kind v with
          | .ok w => ((f.key, w) :: r, ps)
          | .error e => (r, ⟨f.key, e, v⟩ :: ps)

def extraKeys (fields : List Field) (d : Details) : List Problem :=
  (d.filter fun e => !fields.any fun f => f.key == e.1).map fun e => ⟨e.1, .extraKey, e.2⟩

/-- The problems stand in the order of the fields, and those with unknown keys behind them. -/
def build (schema : Schema) (d : Details) : Except Rejection Details :=
  let (r, ps) := readFields d schema.fields
  match ps ++ extraKeys schema.fields d with
  | [] => .ok r
  | p :: ps => .error ⟨Problem.describeAll schema.title (p :: ps), some p.key⟩

def assign (schema : Schema) (r : Details) (key : Text) (v : Value) : Except Problem Details :=
  match schema.fields.find? fun f => f.key == key with
  | none => .error ⟨key, .noSuchKey key, v⟩
  | some f =>
      match read f.kind v with
      | .ok w => .ok (r.put key w)
      | .error e => .error ⟨key, e, v⟩

def library : SchemaLibrary where
  whole? v := (asWhole v).toOption
  flag? v := (asFlag v).toOption
  text? v := (asText v).toOption
  build := build

end Lax
end ForceTry

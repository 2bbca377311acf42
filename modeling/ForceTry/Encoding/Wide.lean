import ForceTry.Encoding.Utf8

/-!
# Encodings in wide units

UTF-16 and UTF-32, with units of two and four bytes in either order.  Without a given order the text
starts with a mark that shows it.
-/

namespace ForceTry

inductive ByteOrder where
  | little
  | big
  deriving DecidableEq, Repr

inductive UnitSize where
  | two
  | four
  deriving DecidableEq, Repr

namespace UnitSize

def bytes : UnitSize → Nat
  | two => 2
  | four => 4

theorem bytes_pos (s : UnitSize) : 0 < s.bytes := by cases s <;> decide

def name : UnitSize → String
  | two => "utf-16"
  | four => "utf-32"

end UnitSize

namespace Wide

inductive Flaw where
  | truncated
  | cutOff
  | loneLow
  | loneHigh
  | surrogate
  | tooLarge
  deriving DecidableEq, Repr

/-- A refused part: the bytes from `start` up to `stop`. -/
structure Refusal where
  first : UInt8
  start : Nat
  stop : Nat
  flaw : Flaw
  deriving DecidableEq, Repr

def unitBytes (size : UnitSize) (order : ByteOrder) (n : Nat) : Bytes :=
  let little := (List.range size.bytes).map fun i => UInt8.ofNat (n / Nat.pow 256 i % 256)
  match order with
  | .little => little
  | .big => little.reverse

def unitValue (order : ByteOrder) (bytes : Bytes) : Nat :=
  let big := match order with
    | .little => bytes.reverse
    | .big => bytes
  big.foldl (fun n b => n * 256 + b.toNat) 0

def units (size : UnitSize) (c : Char) : List Nat :=
  let n := c.toNat
  match size with
  | .four => [n]
  | .two =>
      if n < 0x10000 then [n]
      else [0xd800 + (n - 0x10000) / 1024, 0xdc00 + (n - 0x10000) % 1024]

def mark : Char := '\ufeff'

def encodeIn (size : UnitSize) (order : ByteOrder) (t : Text) : Bytes :=
  t.flatMap fun c => (units size c).flatMap (unitBytes size order)

def encode (size : UnitSize) (order : Option ByteOrder) (t : Text) : Bytes :=
  match order with
  | some o => encodeIn size o t
  | none => encodeIn size .little (mark :: t)

def isHigh (n : Nat) : Bool := 0xd800 ≤ n && n < 0xdc00

def isLow (n : Nat) : Bool := 0xdc00 ≤ n && n < 0xe000

/-- The first character of some bytes, of which there are as many as a unit has, and the number of
bytes it takes; or the number of bytes that are refused, and why. -/
def next (size : UnitSize) (order : ByteOrder) (bytes : Bytes) :
    Except (Nat × Flaw) (Char × Nat) :=
  let n := unitValue order (bytes.take size.bytes)
  match size with
  | .four =>
      if 0x110000 ≤ n then .error (4, .tooLarge)
      else if isHigh n || isLow n then .error (4, .surrogate)
      else .ok (Char.ofNat n, 4)
  | .two =>
      if isLow n then .error (2, .loneLow)
      else if isHigh n then
        let second := (bytes.drop 2).take 2
        let m := unitValue order second
        if second.length < 2 then .error (bytes.length, .cutOff)
        else if isLow m then
          .ok (Char.ofNat (0x10000 + (n - 0xd800) * 1024 + (m - 0xdc00)), 4)
        else .error (2, .loneHigh)
      else .ok (Char.ofNat n, 2)

theorem next_pos {size : UnitSize} {order : ByteOrder} {bytes : Bytes} {c : Char} {n : Nat}
    (h : next size order bytes = .ok (c, n)) : 0 < n := by
  unfold next at h
  cases size <;> dsimp only at h <;> repeat' split at h
  all_goals simp only [Except.ok.injEq, Prod.mk.injEq, reduceCtorEq] at h
  all_goals omega

/-- Reads the bytes from a position on; `read` holds the text before them, last character first. -/
def decodeFrom (size : UnitSize) (order : ByteOrder) (position : Nat) (read : Text)
    (bytes : Bytes) : Except Refusal Text :=
  match bytes with
  | [] => .ok read.reverse
  | b :: r =>
      if (b :: r).length < size.bytes then
        .error ⟨b, position, position + (b :: r).length, .truncated⟩
      else
        match _h : next size order (b :: r) with
        | .ok (c, n) => decodeFrom size order (position + n) (c :: read) ((b :: r).drop n)
        | .error (n, flaw) => .error ⟨b, position, position + n, flaw⟩
termination_by bytes.length
decreasing_by
  have := next_pos _h
  simp only [List.length_drop, List.length_cons]
  omega

def markedOrder? (size : UnitSize) (bytes : Bytes) : Option ByteOrder :=
  if bytes.take size.bytes = unitBytes size .little mark.toNat then some .little
  else if bytes.take size.bytes = unitBytes size .big mark.toNat then some .big
  else none

end Wide
end ForceTry

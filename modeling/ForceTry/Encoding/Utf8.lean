import ForceTry.Text.Basic

/-!
# UTF-8

Reading and writing UTF-8.  A sequence that is not well formed is refused with its longest part that
could start a well-formed one, so surrogates, overlong forms and code points past the last one are
refused at their second byte.
-/

namespace ForceTry

abbrev Bytes := List UInt8

namespace Utf8

inductive Flaw where
  | badStart
  | badContinuation
  | cutOff
  deriving DecidableEq, Repr

def encodeChar (c : Char) : Bytes :=
  let n := c.toNat
  if n < 0x80 then [UInt8.ofNat n]
  else if n < 0x800 then [UInt8.ofNat (0xc0 + n / 64), UInt8.ofNat (0x80 + n % 64)]
  else if n < 0x10000 then
    [UInt8.ofNat (0xe0 + n / 4096), UInt8.ofNat (0x80 + n / 64 % 64), UInt8.ofNat (0x80 + n % 64)]
  else
    [UInt8.ofNat (0xf0 + n / 262144), UInt8.ofNat (0x80 + n / 4096 % 64),
      UInt8.ofNat (0x80 + n / 64 % 64), UInt8.ofNat (0x80 + n % 64)]

def encode (t : Text) : Bytes := t.flatMap encodeChar

def isContinuation (b : UInt8) : Bool := 0x80 ≤ b && b < 0xc0

def isSecond (first b : UInt8) : Bool :=
  isContinuation b &&
    (if first = 0xe0 then 0xa0 ≤ b
      else if first = 0xed then b < 0xa0
      else if first = 0xf0 then 0x90 ≤ b
      else if first = 0xf4 then b < 0x90
      else true)

/-- The number of bytes of a sequence with the byte `first`, if one can start with it. -/
def lengthOf? (first : UInt8) : Option Nat :=
  if first < 0x80 then some 1
  else if first < 0xc2 then none
  else if first < 0xe0 then some 2
  else if first < 0xf0 then some 3
  else if first < 0xf5 then some 4
  else none

/-- The number of bytes at the start of a sequence that are well formed, of `n` expected ones behind
the first two. -/
def continuations : (n : Nat) → Bytes → Nat
  | n + 1, b :: r => if isContinuation b then continuations n r + 1 else 0
  | _, _ => 0

def low (b : UInt8) : Nat := b.toNat % 64

/-- The first character of some bytes and the number of bytes it takes.  Of a sequence that is not
well formed the answer is the number of bytes that are refused, and why. -/
def next (first : UInt8) (rest : Bytes) : Except (Nat × Flaw) (Char × Nat) :=
  match lengthOf? first, rest with
  | none, _ => .error (1, .badStart)
  | some 1, _ => .ok (Char.ofNat first.toNat, 1)
  | some _, [] => .error (1, .cutOff)
  | some length, second :: more =>
      if isSecond first second then
        let found := continuations (length - 2) more
        if found + 2 = length then
          let head := if length = 2 then first.toNat % 32 else if length = 3 then first.toNat % 16
            else first.toNat % 8
          let code := (more.take (length - 2)).foldl (fun n b => n * 64 + low b)
            (head * 64 + low second)
          .ok (Char.ofNat code, length)
        else .error (found + 2, if found < more.length then .badContinuation else .cutOff)
      else .error (1, .badContinuation)

/-- A sequence that is refused: the bytes from `start` up to `stop`. -/
structure Refusal where
  first : UInt8
  start : Nat
  stop : Nat
  flaw : Flaw
  deriving DecidableEq, Repr

theorem next_pos {first : UInt8} {rest : Bytes} {c : Char} {n : Nat}
    (h : next first rest = .ok (c, n)) : 0 < n := by
  unfold next at h
  split at h
  · cases h
  · cases h; decide
  · cases h
  · split at h
    · dsimp only at h
      split at h
      · cases h; omega
      · cases h
    · cases h

/-- Reads the bytes from position `at` on; `read` holds the text before them, last character
first. -/
def decodeFrom (position : Nat) (read : Text) : Bytes → Except Refusal Text
  | [] => .ok read.reverse
  | b :: r =>
      match _h : next b r with
      | .ok (c, n) => decodeFrom (position + n) (c :: read) ((b :: r).drop n)
      | .error (n, flaw) => .error ⟨b, position, position + n, flaw⟩
termination_by bytes => bytes.length
decreasing_by
  have := next_pos _h
  simp only [List.length_drop, List.length_cons]
  omega

def decode (bytes : Bytes) : Except Refusal Text := decodeFrom 0 [] bytes

end Utf8
end ForceTry

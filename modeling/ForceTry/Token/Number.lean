import ForceTry.Text.Basic

/-!
# Number literals

Hexadecimal, octal, binary and decimal literals with underscores between the digits.  Only a
hexadecimal or decimal literal takes a fraction and an exponent, and each of these only if a digit
or underscore follows its sign (a decimal fraction starts with a digit).
-/

namespace ForceTry
namespace Numeral

def isHex (c : Char) : Bool :=
  c.isDigit || ('a' ≤ c && c ≤ 'f') || ('A' ≤ c && c ≤ 'F') || c == '_'

def isOctal (c : Char) : Bool := ('0' ≤ c && c ≤ '7') || c == '_'

def isBinary (c : Char) : Bool := c == '0' || c == '1' || c == '_'

def isDecimal (c : Char) : Bool := c.isDigit || c == '_'

def exponentLength (lower upper : Char) (t : Text) : Nat :=
  match t with
  | e :: sign :: r =>
      if e == lower || e == upper then
        let signed := sign == '+' || sign == '-'
        let digits := Text.runLength isDecimal (if signed then r else sign :: r)
        if digits = 0 then 0 else digits + (if signed then 2 else 1)
      else 0
  | _ => 0

def fractionLength (isFirst isRest : Char → Bool) (t : Text) : Nat :=
  match t with
  | '.' :: c :: r => if isFirst c then 2 + Text.runLength isRest r else 0
  | _ => 0

def realLength (whole : Nat) (isFirst isRest : Char → Bool) (lower upper : Char) (t : Text) : Nat :=
  let n := whole + fractionLength isFirst isRest (t.drop whole)
  n + exponentLength lower upper (t.drop n)

/-- The length of a literal in a base other than ten, with its sign of two characters. -/
def basedLength? (t : Text) : Option Nat :=
  match t with
  | '0' :: base :: r =>
      if base == 'x' then
        match Text.runLength isHex r with
        | 0 => none
        | n => some (realLength (2 + n) isHex isHex 'p' 'P' t)
      else if base == 'o' then
        match Text.runLength isOctal r with
        | 0 => none
        | n => some (2 + n)
      else if base == 'b' then
        match Text.runLength isBinary r with
        | 0 => none
        | n => some (2 + n)
      else none
  | _ => none

/-- The length of the number literal at the start of `t`; zero when there is none. -/
def length (t : Text) : Nat :=
  match t with
  | c :: _ =>
      if c.isDigit then
        match basedLength? t with
        | some n => n
        | none => realLength (Text.runLength isDecimal t) Char.isDigit isDecimal 'e' 'E' t
      else 0
  | [] => 0

def isFloat (literal : Text) : Bool :=
  literal.any (· == '.') ||
    (!Text.startsWith ['0', 'x'] literal && literal.any fun c => c == 'e' || c == 'E')

end Numeral
end ForceTry

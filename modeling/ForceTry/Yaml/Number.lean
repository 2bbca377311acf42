import ForceTry.Yaml.Scalar

/-!
# Numbers of YAML

Whole numbers are written in decimal, binary, octal or hexadecimal digits, or in base sixty with
colons; floating-point numbers have a point.  Underscores between digits do not count.

`isWhole` and `isFloating` say which plain scalars are numbers, and `whole?` and `floating?` read
them.  The readers accept more than the recognisers, because a tag can ask for a number too.
-/

namespace ForceTry
namespace Yaml

/-! ## Shapes -/

def splitSign : Text → Bool × Text
  | '-' :: t => (true, t)
  | '+' :: t => (false, t)
  | t => (false, t)

def isDigitOrGap (c : Char) : Bool := c.isDigit || c == '_'

def isDigits : Text → Bool
  | [] => false
  | c :: t => c.isDigit && t.all isDigitOrGap

def isSixtieth : Text → Bool
  | [a] => a.isDigit
  | [a, b] => '0' ≤ a && a ≤ '5' && b.isDigit
  | _ => false

def areDigits (p : Char → Bool) (t : Text) : Bool := !t.isEmpty && t.all fun c => p c || c == '_'

def isOctal (c : Char) : Bool := '0' ≤ c && c ≤ '7'

def isWhole (t : Text) : Bool :=
  let body := (splitSign t).2
  match body with
  | '0' :: 'b' :: digits => areDigits (fun c => c == '0' || c == '1') digits
  | '0' :: 'x' :: digits => areDigits (fun c => (hexDigit? c).isSome) digits
  | ['0'] => true
  | '0' :: digits => areDigits isOctal digits
  | _ =>
      match Text.split ':' body with
      | first :: rest => isDigits first && rest.all isSixtieth
      | [] => false

def isExponent : Text → Bool
  | [] => true
  | e :: sign :: digits =>
      (e == 'e' || e == 'E') && (sign == '+' || sign == '-') && !digits.isEmpty &&
        digits.all Char.isDigit
  | _ => false

def isFraction (least : Nat) (t : Text) : Bool :=
  let digits := t.takeWhile isDigitOrGap
  least ≤ digits.length && (least = 0 || digits.head?.any Char.isDigit) &&
    isExponent (t.drop digits.length)

def isFloating (t : Text) : Bool :=
  let body := (splitSign t).2
  let whole := body.takeWhile (· != '.')
  if [".inf", ".Inf", ".INF"].any (·.toList == body) then true
  else if [".nan", ".NaN", ".NAN"].any (·.toList == t) then true
  else if whole.length = body.length then false
  else
    let fraction := body.drop (whole.length + 1)
    match Text.split ':' whole with
    | [[]] => body.length = t.length && isFraction 1 fraction
    | [digits] => isDigits digits && isFraction 0 fraction
    | first :: rest => isDigits first && rest.all isSixtieth && fraction.all isDigitOrGap
    | [] => false

/-! ## Values -/

/-- The number that digits of a base stand for, of which there is at least one. -/
def digitsIn? (base : Nat) (t : Text) : Option Nat :=
  if t = [] then none
  else
    t.foldlM (fun n c =>
      (hexDigit? c).bind fun d => if d < base then some (n * base + d) else none) 0

def mostDigits : Nat := 4300

def decimal? (t : Text) : Option Nat := if mostDigits < t.length then none else digitsIn? 10 t

def unsigned? : Text → Option Nat
  | '0' :: 'b' :: digits => digitsIn? 2 digits
  | '0' :: 'x' :: digits => digitsIn? 16 digits
  | '0' :: digits => digitsIn? 8 ('0' :: digits)
  | t => (Text.split ':' t).foldlM (fun n part => (decimal? part).map (n * 60 + ·)) 0

def whole? (t : Text) : Option Int :=
  let (negative, body) := splitSign (t.filter (· != '_'))
  (unsigned? body).map fun n => if negative then -(n : Int) else n

def exponent? : Text → Option Int
  | [] => some 0
  | e :: t =>
      if e == 'e' then
        let (negative, digits) := splitSign t
        (digitsIn? 10 digits).map fun n => if negative then -(n : Int) else n
      else none

def nearestFloat (m : Nat) (e : Int) : Float :=
  let digits : Int := (toString m).length
  if m = 0 ∨ digits + e < -400 then 0
  else if 400 < digits + e then 1.0 / 0.0
  else if e < 0 then Float.ofScientific m true e.natAbs
  else Float.ofScientific m false e.natAbs

def decimalFloat? (t : Text) : Option Float := do
  let whole := t.takeWhile Char.isDigit
  let rest := t.drop whole.length
  let fraction := if Text.startsWith ['.'] rest then (rest.drop 1).takeWhile Char.isDigit else []
  let rest := if Text.startsWith ['.'] rest then rest.drop (fraction.length + 1) else rest
  let m ← digitsIn? 10 (whole ++ fraction)
  let e ← exponent? rest
  some (nearestFloat m (e - fraction.length))

def floating? (t : Text) : Option Float := do
  let (negative, body) := splitSign ((t.filter (· != '_')).map Char.toLower)
  let x ←
    if body = ".inf".toList then some (1.0 / 0.0)
    else if body = ".nan".toList then some (0.0 / 0.0)
    else do
      let digits ← (Text.split ':' body).mapM decimalFloat?
      let sums := digits.reverse.foldl (fun (sum, base) d => (sum + d * base, base * 60))
        ((0.0 : Float), (1.0 : Float))
      some sums.1
  some (if negative then -x else x)

end Yaml
end ForceTry

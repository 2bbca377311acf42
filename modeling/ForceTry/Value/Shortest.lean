import ForceTry.Text.Basic

/-!
# Shortest decimals

The shortest decimal that reads back as a given binary fraction, and how it is written: with a
point when its decimal exponent lies between -4 and 15, and with an exponent otherwise.

All comparisons are made in whole numbers: a positive number `m * 2 ^ q` is the quotient of
`numerator` and `denominator`, and both are multiplied by powers of ten as needed.
-/

namespace ForceTry

/-- A positive number `mantissa * 2 ^ exponent`.  `narrow` says that the gap to the next smaller
number of the format is half as wide as the gap to the next larger one. -/
structure BinaryFraction where
  mantissa : Nat
  exponent : Int
  narrow : Bool
  deriving DecidableEq, Repr

namespace BinaryFraction

def quadruple (b : BinaryFraction) : Nat × Nat :=
  match b.exponent with
  | .ofNat q => (4 * b.mantissa * Nat.pow 2 q, 1)
  | .negSucc q => (4 * b.mantissa, Nat.pow 2 (q + 1))

/-- The decimal `digits * 10 ^ place` reads back as `b`: it lies between the middles of the gaps on
both sides, which count as inside when the mantissa is even. -/
def readsBack (b : BinaryFraction) (digits : Nat) (place : Int) : Bool :=
  let unit : Nat × Nat := match b.exponent with
    | .ofNat q => (Nat.pow 2 q, 1)
    | .negSucc q => (1, Nat.pow 2 (q + 1))
  let value : Nat × Nat := match place with
    | .ofNat e => (4 * digits * Nat.pow 10 e, 1)
    | .negSucc e => (4 * digits, Nat.pow 10 (e + 1))
  let low := (4 * b.mantissa - (if b.narrow then 1 else 2)) * unit.1 * value.2
  let high := (4 * b.mantissa + 2) * unit.1 * value.2
  let middle := value.1 * unit.2
  if b.mantissa % 2 == 0 then low ≤ middle && middle ≤ high else low < middle && middle < high

def leadingPlace (b : BinaryFraction) : (fuel : Nat) → (high : Int) → Int
  | 0, high => high
  | fuel + 1, high =>
      let (n, d) := b.quadruple
      let fits : Bool := match high with
        | .ofNat e => 4 * Nat.pow 10 e * d ≤ n
        | .negSucc e => 4 * d ≤ n * Nat.pow 10 (e + 1)
      if fits then high else leadingPlace b fuel (high - 1)

/-- The whole number of units of `10 ^ place` in `b`, and whether the rest is more than half a
unit, or exactly half of it. -/
def units (b : BinaryFraction) (place : Int) : Nat × Bool × Bool :=
  let (n, d) := b.quadruple
  let (n, d) : Nat × Nat := match place with
    | .ofNat e => (n, 4 * d * Nat.pow 10 e)
    | .negSucc e => (n * Nat.pow 10 (e + 1), 4 * d)
  (n / d, 2 * (n % d) > d, 2 * (n % d) == d)

/-- The shortest digits that read back, with the place of the last one.  Of two candidates of one
length the nearer counts, and of two equally near ones the even one. -/
def shortest (b : BinaryFraction) (top : Int) : (fuel length : Nat) → Nat × Int
  | 0, length => ((b.units (top - length + 1)).1, top - length + 1)
  | fuel + 1, length =>
      let place := top - length + 1
      let (below, more, half) := b.units place
      let belowFits := b.readsBack below place
      let aboveFits := b.readsBack (below + 1) place
      if belowFits && aboveFits then
        (if more || (half && below % 2 == 1) then below + 1 else below, place)
      else if belowFits then (below, place)
      else if aboveFits then (below + 1, place)
      else shortest b top fuel (length + 1)

end BinaryFraction

inductive NumberShape where
  | undefined
  | infinite (negative : Bool)
  | finite (negative : Bool) (digits : Nat) (place : Int)
  deriving DecidableEq, Repr

namespace NumberShape

def trim : (fuel digits : Nat) → (place : Int) → Nat × Int
  | 0, digits, place => (digits, place)
  | fuel + 1, digits, place =>
      if digits != 0 && digits % 10 == 0 then trim fuel (digits / 10) (place + 1)
      else (digits, place)

def sign (negative : Bool) : Text := if negative then ['-'] else []

/-- Digits with a point at a place, or with an exponent of at least two digits. -/
def layout (digits : Nat) (place : Int) : Text :=
  let ds := (Nat.toDigits 10 digits)
  let first := place + ds.length - 1
  if digits == 0 then ['0', '.', '0']
  else if -4 ≤ first && first < 16 then
    if 0 ≤ place then ds ++ List.replicate place.toNat '0' ++ ['.', '0']
    else if 0 ≤ first then
      let whole := (first + 1).toNat
      ds.take whole ++ '.' :: ds.drop whole
    else '0' :: '.' :: List.replicate (-first - 1).toNat '0' ++ ds
  else
    let power := Nat.toDigits 10 first.natAbs
    let padded := if power.length < 2 then '0' :: power else power
    let fraction := if ds.length ≤ 1 then [] else '.' :: ds.drop 1
    ds.take 1 ++ fraction ++ 'e' :: (if first < 0 then '-' else '+') :: padded

def describe : NumberShape → Text
  | undefined => ['n', 'a', 'n']
  | infinite negative => sign negative ++ ['i', 'n', 'f']
  | finite negative digits place => sign negative ++ layout digits place

def ofBits (bits : Nat) : NumberShape :=
  let negative : Bool := (bits / Nat.pow 2 63) % 2 == (1 : Nat)
  let exponent : Nat := bits / Nat.pow 2 52 % 2048
  let fraction : Nat := bits % Nat.pow 2 52
  if exponent == 2047 then
    if fraction == 0 then .infinite negative else .undefined
  else if exponent == 0 && fraction == 0 then .finite negative 0 0
  else
    let b : BinaryFraction :=
      if exponent == 0 then ⟨fraction, -1074, false⟩
      else ⟨Nat.pow 2 52 + fraction, (exponent : Int) - 1075, fraction == 0 && exponent > 1⟩
    let (digits, place) := b.shortest (b.leadingPlace 700 309) 17 1
    let (digits, place) := trim 20 digits place
    .finite negative digits place

def integral? : NumberShape → Option Int
  | .finite negative digits place =>
      let magnitude : Option Nat := match place with
        | .ofNat e => some (digits * Nat.pow 10 e)
        | .negSucc _ => if digits == 0 then some 0 else none
      magnitude.map fun n => if negative then -(n : Int) else n
  | _ => none

end NumberShape
end ForceTry

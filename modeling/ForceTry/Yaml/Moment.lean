import ForceTry.Yaml.Number

/-!
# Dates and times of YAML

A day is written as year, month and day, and may have a time of day behind it, with parts of a
second and the distance from universal time.

Main operations: `Moment.isWritten` for the plain scalars that are dates, and `Moment.read?`, which
refuses days and times that do not exist.
-/

namespace ForceTry
namespace Yaml

structure DayTime where
  hour : Nat
  minute : Nat
  second : Nat
  fraction : Nat
  zone : Option Int
  deriving DecidableEq, Repr

structure Moment where
  year : Nat
  month : Nat
  day : Nat
  time : Option DayTime
  deriving DecidableEq, Repr

namespace Moment

def digits? (least most : Nat) (t : Text) : Option (Nat × Text) :=
  let found := (t.take most).takeWhile Char.isDigit
  if found.length < least then none
  else (digitsIn? 10 found).map fun n => (n, t.drop found.length)

def following? (sign : Char) (least : Nat) (t : Text) : Option (Nat × Text) :=
  match t with
  | c :: rest => if c == sign then digits? least 2 rest else none
  | [] => none

def fraction? (t : Text) : Option (Nat × Text) :=
  match t with
  | '.' :: rest =>
      let found := rest.takeWhile Char.isDigit
      (digitsIn? 10 ((found ++ "000000".toList).take 6)).map fun n => (n, rest.drop found.length)
  | _ => some (0, t)

def zone? (t : Text) : Option (Option Int) :=
  match t.dropWhile isGap with
  | [] => if t = [] then some none else none
  | ['Z'] => some (some 0)
  | sign :: rest => do
      guard (sign == '+' || sign == '-')
      let (hours, rest) ← digits? 1 2 rest
      let minutes ← if rest = [] then some 0 else do
        let (minutes, rest) ← following? ':' 2 rest
        guard (rest = [])
        some minutes
      let distance : Int := hours * 60 + minutes
      some (some (if sign == '-' then -distance else distance))

def dayTime? (t : Text) : Option DayTime := do
  let rest ← match t with
    | 'T' :: rest => some rest
    | 't' :: rest => some rest
    | c :: _ => if isGap c then some (t.dropWhile isGap) else none
    | [] => none
  let (hour, rest) ← digits? 1 2 rest
  let (minute, rest) ← following? ':' 2 rest
  let (second, rest) ← following? ':' 2 rest
  let (fraction, rest) ← fraction? rest
  let zone ← zone? rest
  some ⟨hour, minute, second, fraction, zone⟩

def parts? (t : Text) : Option Moment := do
  let (year, rest) ← digits? 4 4 t
  let (month, afterMonth) ← following? '-' 1 rest
  let (day, afterDay) ← following? '-' 1 afterMonth
  if afterDay = [] then
    guard (t.length = 10)
    some ⟨year, month, day, none⟩
  else some ⟨year, month, day, some (← dayTime? afterDay)⟩

def isWritten (t : Text) : Bool := (parts? t).isSome

def daysIn (year month : Nat) : Nat :=
  if month = 2 then
    if year % 4 = 0 ∧ (year % 100 ≠ 0 ∨ year % 400 = 0) then 29 else 28
  else if month = 4 ∨ month = 6 ∨ month = 9 ∨ month = 11 then 30
  else 31

def isPossible (m : Moment) : Bool :=
  1 ≤ m.year && 1 ≤ m.month && m.month ≤ 12 && 1 ≤ m.day && m.day ≤ daysIn m.year m.month &&
    m.time.all fun t =>
      t.hour < 24 && t.minute < 60 && t.second < 60 && t.zone.all (·.natAbs < 1440)

def read? (t : Text) : Option Moment := (parts? t).filter isPossible

/-! ## Written form -/

def kind (m : Moment) : String := if m.time.isSome then "datetime" else "date"

/-- The distance from universal time: whole days, and the seconds that are missing from them. -/
def zoneShown (minutes : Int) : String :=
  let seconds := minutes * 60
  if minutes = 0 then "datetime.timezone.utc"
  else if minutes < 0 then
    s!"datetime.timezone(datetime.timedelta(days=-1, seconds={seconds + 86400}))"
  else s!"datetime.timezone(datetime.timedelta(seconds={seconds}))"

/-- The written form of a date, in which zeros at the end of the time are left out. -/
def shown (m : Moment) : String :=
  let numbers := match m.time with
    | none => [m.year, m.month, m.day]
    | some t =>
        let start := [m.year, m.month, m.day, t.hour, t.minute]
        if t.fraction ≠ 0 then start ++ [t.second, t.fraction]
        else if t.second ≠ 0 then start ++ [t.second]
        else start
  let zone := (m.time.bind DayTime.zone).elim "" fun z => ", tzinfo=" ++ zoneShown z
  "datetime." ++ m.kind ++ "(" ++ ", ".intercalate (numbers.map toString) ++ zone ++ ")"

end Moment
end Yaml
end ForceTry

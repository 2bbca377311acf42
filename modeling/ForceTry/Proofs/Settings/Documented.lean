import ForceTry.Settings.Schema
import Mathlib.Data.List.Forall2

/-!
# What is documented of checks

What the theory relies on of a library that checks named values against a schema.  It accepts values exactly
when each is taken for one that its field may hold, and it takes a value of the kind of its field for itself.
How far it goes beyond this is left open, but for digits, numbers without fraction and some words.
-/

namespace ForceTry

/-- The values that are taken for a flag: flags, the numbers zero and one, and words. -/
inductive FlagForm : Value → Bool → Prop
  | bool (b : Bool) : FlagForm (.bool b) b
  | int (b : Bool) : FlagForm (.int (if b then 1 else 0)) b
  | float {x : Float} {b : Bool}
      (h : (Value.floatShape x).integral? = some (if b then 1 else 0)) : FlagForm (.float x) b
  | text {t : Text} {b : Bool} (h : t ≠ []) : FlagForm (.text t) b
  | bytes {content : List UInt8} {b : Bool} (h : content ≠ []) : FlagForm (.bytes content) b

namespace SchemaLibrary

/-- A value is taken for another one, which a field may hold. -/
def Reads (lib : SchemaLibrary) : FieldKind → Value → Value → Prop
  | .text refine, v, w => ∃ t u, lib.text? v = some t ∧ refine t = .ok u ∧ w = .text u
  | .flag, v, w => ∃ b, lib.flag? v = some b ∧ w = .bool b
  | .whole least greatest, v, w =>
      ∃ n, lib.whole? v = some n ∧ least ≤ n ∧ n ≤ greatest ∧ w = .int n

/-- The entry of a field in a record: what its value is taken for, or its standard value. -/
def Fills (lib : SchemaLibrary) (d : Details) (f : Field) (e : Text × Value) : Prop :=
  e.1 = f.key ∧
    match d.get? f.key with
    | some v => lib.Reads f.kind v e.2
    | none => e.2 = f.standard

/-- What is documented of a library whose checks are lax.  A value of the kind of a field is taken for
itself, a number also from its digits or from a floating-point number without fraction, and a flag from the
numbers zero and one and from some words. -/
structure Documented (lib : SchemaLibrary) : Prop where
  build_eq_ok : ∀ {schema : Schema} {d r : Details}, lib.build schema d = .ok r ↔
    (∀ e ∈ d, ∃ f ∈ schema.fields, f.key = e.1) ∧ List.Forall₂ (lib.Fills d) schema.fields r
  whole_int : ∀ n, lib.whole? (.int n) = some n
  whole_bool : ∀ b, lib.whole? (.bool b) = some (if b then 1 else 0)
  whole_digits : ∀ n : Nat, n < wordBound → lib.whole? (.text (Nat.toDigits 10 n)) = some n
  whole_float : ∀ {x : Float} {n : Int}, (Value.floatShape x).integral? = some n →
    -wordBound < n → n < wordBound → lib.whole? (.float x) = some n
  whole_other : ∀ kind shown, lib.whole? (.other kind shown) = none
  flag_bool : ∀ b, lib.flag? (.bool b) = some b
  flag_no : ∀ word ∈ ["off", "false", "no"], lib.flag? (.ofString word) = some false
  flag_form : ∀ {v : Value} {b : Bool}, lib.flag? v = some b → FlagForm v b
  text_text : ∀ t, lib.text? (.text t) = some t
  text_other : ∀ kind shown, lib.text? (.other kind shown) = none

end SchemaLibrary
end ForceTry

import ForceTry.Value.Basic

/-!
# Schemas

A schema declares the fields of a record: the key of each, the kind of its values and what else is asked
of them.  Named values are checked against a schema by a library, which may take a value of one kind for
one of another.  Nothing here says how it does so: `Lax.library` is one answer, and the theory is about
every library that keeps to what is documented of it.
-/

namespace ForceTry

/-- What a field holds: a text that a function accepts and perhaps changes, a flag, or a whole number within
bounds. -/
inductive FieldKind where
  | text (refine : Text → Except Text Text)
  | flag
  | whole (least greatest : Int)

structure Field where
  key : Text
  kind : FieldKind
  standard : Value

structure Schema where
  title : Text
  fields : List Field

/-- The least number that is too large for a word of the machine. -/
def wordBound : Int := 9223372036854775808

/-- Why values are refused, and the key of the first of them. -/
structure Rejection where
  text : Text
  key? : Option Text
  deriving DecidableEq, Repr

/-- How values are taken for values of a kind, and named values for a record with the fields of a schema. -/
structure SchemaLibrary where
  whole? : Value → Option Int
  flag? : Value → Option Bool
  text? : Value → Option Text
  build : Schema → Details → Except Rejection Details

end ForceTry

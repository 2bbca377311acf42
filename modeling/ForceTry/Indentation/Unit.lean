import ForceTry.Trivia.Basic

/-!
# Indentation units

How much one level of nesting indents: some spaces, or one tab.
-/

namespace ForceTry

inductive IndentUnit where
  | tab
  | spaces (width : Nat)
  deriving DecidableEq, Repr

namespace IndentUnit

def standard : IndentUnit := spaces 2

def widthMessage : Text := Text.ofString "Indentation width must be positive"

def ofWidth? (width : Int) : Option IndentUnit :=
  if width < 1 then none else some (spaces width.toNat)

def usesTabs : IndentUnit → Bool
  | tab => true
  | spaces _ => false

def width : IndentUnit → Nat
  | tab => 1
  | spaces n => n

def run : IndentUnit → Run
  | tab => .tabs
  | spaces _ => .spaces

def piece (u : IndentUnit) : Piece := .run u.run u.width

def trivia : IndentUnit → Trivia
  | tab => Trivia.tabs 1
  | spaces n => Trivia.spaces n

def code (u : IndentUnit) : Text := u.trivia.code

/-- `base` with one more level.  The unit joins a run of the same kind at the end of `base`, which
is what reading the same text gives. -/
def addedTo (u : IndentUnit) (base : Trivia) : Trivia :=
  match base.getLast? with
  | some (.run kind count) =>
      if kind = u.run then base.dropLast ++ [.run kind (count + u.width)] else base ++ [u.piece]
  | _ => base ++ [u.piece]

def describe : IndentUnit → Text
  | tab => Text.ofString "1 tab"
  | spaces n => Text.ofString s!"{n} spaces"

end IndentUnit
end ForceTry

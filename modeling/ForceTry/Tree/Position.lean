import ForceTry.Tree.Basic

/-!
# Positions

A position is a line, counted from one, and a column, counted from zero in characters.  Only a line
feed starts a new line.  Elements carry no positions; those of a tree are computed from its root.
-/

namespace ForceTry

structure Position where
  line : Nat
  column : Nat
  deriving DecidableEq, Repr

namespace Position

def start : Position := ⟨1, 0⟩

def next (p : Position) (c : Char) : Position :=
  if c = '\n' then ⟨p.line + 1, 0⟩ else ⟨p.line, p.column + 1⟩

def advance (p : Position) (t : Text) : Position := t.foldl next p

def describe (p : Position) : Text := Text.ofString s!"{p.line}:{p.column}"

@[simp] theorem advance_nil (p : Position) : p.advance [] = p := rfl

@[simp] theorem advance_append (p : Position) (s t : Text) :
    p.advance (s ++ t) = (p.advance s).advance t := by
  simp [advance]

theorem line_advance (p : Position) (t : Text) :
    (p.advance t).line = p.line + t.count '\n' := by
  induction t generalizing p with
  | nil => rfl
  | cons c t ih =>
      have hcons : p.advance (c :: t) = (p.next c).advance t := rfl
      rw [hcons, ih]
      by_cases hc : c = '\n'
      · subst hc
        simp only [next, if_true, List.count_cons_self]
        omega
      · rw [List.count_cons_of_ne hc]
        simp [next, hc]

end Position

namespace Tree

def leafPositionsFrom (p : Position) : List Leaf → List (Nat × Position)
  | [] => []
  | l :: ls =>
      let q := p.advance l.token.leading.code
      (l.label, q) :: leafPositionsFrom (q.advance (l.token.text ++ l.token.trailing.code)) ls

def leafPositions (root : Tree) : List (Nat × Position) :=
  leafPositionsFrom Position.start root.leaves

/-- The start of an element in a list of leaf positions: where its first token starts.  Of a leaf
that stands at several places, the last one counts. -/
def startIn? (positions : List (Nat × Position)) (t : Tree) : Option Position :=
  t.firstLeaf?.bind fun l =>
    (positions.reverse.find? fun entry => entry.1 == l.label).map Prod.snd

def start? (root t : Tree) : Option Position := startIn? root.leafPositions t

end Tree
end ForceTry

import ForceTry.Indentation.Line
import ForceTry.Tree.Edit

/-!
# Moving lines

Lines move from one indentation to another by taking the old indentation from behind every line
break and putting the new one there.  The old indentation is taken off piece by piece as far as it
agrees, so a line that is indented otherwise keeps what it has.
-/

namespace ForceTry

namespace Trivia

/-- Takes `base` off the front, up to the first piece that differs.  The last piece of `base` may
also be the front part of a longer run of the same blanks, whose rest then stays. -/
def strip : (t base : Trivia) → Trivia
  | p :: t, e :: base =>
      if p = e then strip t base
      else
        match p, e, base with
        | .run kind n, .run kind' m, [] =>
            if !kind.breaksLine && kind = kind' && m < n then .run kind (n - m) :: t
            else p :: t
        | _, _, _ => p :: t
  | t, _ => t

theorem strip_nil (t : Trivia) : t.strip [] = t := by
  cases t <;> rfl

theorem strip_cons_self (p : Piece) (t base : Trivia) : strip (p :: t) (p :: base) = strip t base := by
  rw [strip.eq_def]
  exact if_pos rfl

theorem strip_longer {kind : Run} (hkind : kind.breaksLine = false) {m n : Int} (hlt : m < n)
    (t : Trivia) : strip (.run kind n :: t) [.run kind m] = .run kind (n - m) :: t := by
  have hne : Piece.run kind n ≠ .run kind m := by
    intro heq
    injection heq with _ hcount
    omega
  simp [strip, hne, hkind, hlt]

theorem length_strip_le (t base : Trivia) : (strip t base).length ≤ t.length := by
  fun_induction strip t base with
  | case1 p t base ih => exact Nat.le_succ_of_le ih
  | case2 => simp
  | case3 => exact Nat.le_refl _
  | case4 => exact Nat.le_refl _
  | case5 => exact Nat.le_refl _

def shift (t base indentation : Trivia) : Trivia :=
  match t with
  | [] => []
  | p :: t =>
      if p.isNewline then p :: indentation ++ shift (strip t base) base indentation
      else p :: shift t base indentation
termination_by t.length
decreasing_by
  · exact Nat.lt_succ_of_le (length_strip_le t base)
  · exact Nat.lt_succ_self _

end Trivia

namespace Token

def shift (base indentation : Trivia) (t : Token) : Token :=
  { t with
    leading := t.leading.shift base indentation
    trailing := t.trailing.shift base indentation }

end Token

namespace Tree

/-- Moves every line of `t` from `base` to `indentation`.  With `firstLine`, the line of the first
token gets the new indentation too; its old one must have been taken off before. -/
def reindent (base indentation : Trivia) (firstLine : Bool) (t : Tree) : Fresh Tree := do
  let moved ← t.mapTokens (Token.shift base indentation)
  if firstLine && !indentation.isEmpty then
    match moved.firstLeaf? with
    | some l => moved.withLeading (indentation ++ l.token.leading)
    | none => pure moved
  else pure moved

end Tree
end ForceTry

import ForceTry.Tree.Position
import Mathlib.Data.List.Induction

/-!
# What a position denotes

A position is computed character by character.  Read as a place in a text, its line counts the line
feeds in front of the place, and its column counts the characters behind the last of them.  Positions
grow along a text, so a position denotes one place of a text at most.
-/

namespace ForceTry
namespace Position

def lastLine (t : Text) : Text := (t.reverse.takeWhile (· != '\n')).reverse

/-- The position denotes the place of a source in front of which `offset` characters stand. -/
structure Denotes (p : Position) (source : Text) (offset : Nat) : Prop where
  within : offset ≤ source.length
  line : p.line = (source.take offset).count '\n' + 1
  column : p.column = (lastLine (source.take offset)).length

/-- The position `p` stands in front of the position `q`. -/
def Precedes (p q : Position) : Prop :=
  p.line < q.line ∨ (p.line = q.line ∧ p.column < q.column)

instance (p q : Position) : Decidable (p.Precedes q) :=
  inferInstanceAs (Decidable (p.line < q.line ∨ (p.line = q.line ∧ p.column < q.column)))

/-!
# Columns
-/

theorem lastLine_snoc (t : Text) (c : Char) :
    lastLine (t ++ [c]) = if c = '\n' then [] else lastLine t ++ [c] := by
  unfold lastLine
  rw [List.reverse_append, List.reverse_singleton, List.singleton_append, List.takeWhile_cons]
  by_cases hc : c = '\n'
  · rw [if_pos hc, if_neg (by simp [hc]), List.reverse_nil]
  · rw [if_neg hc, if_pos (by simp [hc]), List.reverse_cons]

theorem advance_snoc (p : Position) (t : Text) (c : Char) :
    p.advance (t ++ [c]) = (p.advance t).next c :=
  advance_append p t [c]

theorem column_advance_start (t : Text) :
    (start.advance t).column = (lastLine t).length := by
  induction t using List.reverseRecOn with
  | nil => rfl
  | append_singleton t c ih =>
      rw [advance_snoc, lastLine_snoc, next]
      by_cases hc : c = '\n'
      · rw [if_pos hc, if_pos hc, List.length_nil]
      · rw [if_neg hc, if_neg hc, List.length_append, List.length_singleton, ih]

theorem denotes_advance {source : Text} {offset : Nat} (hwithin : offset ≤ source.length) :
    (start.advance (source.take offset)).Denotes source offset where
  within := hwithin
  line := by
    rw [line_advance]
    exact Nat.add_comm 1 _
  column := column_advance_start _

theorem denotes_iff (p : Position) (source : Text) (offset : Nat) :
    p.Denotes source offset ↔ offset ≤ source.length ∧ p = start.advance (source.take offset) := by
  constructor
  · intro h
    have hadvance := denotes_advance h.within
    refine ⟨h.within, ?_⟩
    cases p with
    | mk line column =>
        have hline : line = _ := h.line.trans hadvance.line.symm
        have hcolumn : column = _ := h.column.trans hadvance.column.symm
        rw [hline, hcolumn]
  · rintro ⟨hwithin, rfl⟩
    exact denotes_advance hwithin

/-!
# Order
-/

theorem Precedes.trans {p q r : Position} (hpq : p.Precedes q) (hqr : q.Precedes r) :
    p.Precedes r := by
  unfold Precedes at *
  omega

theorem not_precedes_self (p : Position) : ¬ p.Precedes p := by
  unfold Precedes
  omega

theorem precedes_next (p : Position) (c : Char) : p.Precedes (p.next c) := by
  unfold next
  split
  · exact Or.inl (Nat.lt_succ_self p.line)
  · exact Or.inr ⟨rfl, Nat.lt_succ_self p.column⟩

theorem precedes_advance (p : Position) {t : Text} (ht : t ≠ []) : p.Precedes (p.advance t) := by
  induction t generalizing p with
  | nil => exact absurd rfl ht
  | cons c t ih =>
      have hcons : p.advance (c :: t) = (p.next c).advance t := rfl
      rw [hcons]
      cases t with
      | nil => exact precedes_next p c
      | cons d t => exact (precedes_next p c).trans (ih (p.next c) (List.cons_ne_nil d t))

theorem Denotes.precedes {p q : Position} {source : Text} {i j : Nat} (hp : p.Denotes source i)
    (hq : q.Denotes source j) (hij : i < j) : p.Precedes q := by
  rw [denotes_iff] at hp hq
  rcases hp with ⟨_, rfl⟩
  rcases hq with ⟨hj, rfl⟩
  have hsplit : source.take j = source.take i ++ (source.drop i).take (j - i) := by
    rw [← List.take_add, Nat.add_sub_cancel' (Nat.le_of_lt hij)]
  rw [hsplit, advance_append]
  apply precedes_advance
  intro hnil
  have hlength := congrArg List.length hnil
  rw [List.length_take, List.length_drop, List.length_nil] at hlength
  omega

theorem Denotes.unique {p : Position} {source : Text} {i j : Nat} (hi : p.Denotes source i)
    (hj : p.Denotes source j) : i = j := by
  rcases Nat.lt_trichotomy i j with hlt | heq | hgt
  · exact absurd (hi.precedes hj hlt) (not_precedes_self p)
  · exact heq
  · exact absurd (hj.precedes hi hgt) (not_precedes_self p)

end Position

namespace Leaf

/-!
# Leaves in a text
-/

def codeOf (ls : List Leaf) : Text := ls.flatMap fun l => l.token.code

/-- The number of characters in front of the text of a leaf that stands behind other leaves. -/
def offset (before : List Leaf) (l : Leaf) : Nat :=
  (codeOf before ++ l.token.leading.code).length

theorem codeOf_append (ls ms : List Leaf) : codeOf (ls ++ ms) = codeOf ls ++ codeOf ms :=
  List.flatMap_append

theorem codeOf_cons (l : Leaf) (ls : List Leaf) : codeOf (l :: ls) = l.token.code ++ codeOf ls :=
  List.flatMap_cons

theorem codeOf_split (before : List Leaf) (l : Leaf) (behind : List Leaf) :
    codeOf (before ++ l :: behind) =
      (codeOf before ++ l.token.leading.code) ++
        (l.token.text ++ (l.token.trailing.code ++ codeOf behind)) := by
  rw [codeOf_append, codeOf_cons, Token.code]
  simp only [List.append_assoc]

variable {before behind : List Leaf} {l : Leaf} {source : Text}

theorem take_offset (h : source = codeOf (before ++ l :: behind)) :
    source.take (offset before l) = codeOf before ++ l.token.leading.code := by
  rw [h, codeOf_split, offset, List.take_left]

theorem drop_offset (h : source = codeOf (before ++ l :: behind)) :
    source.drop (offset before l) =
      l.token.text ++ (l.token.trailing.code ++ codeOf behind) := by
  rw [h, codeOf_split, offset, List.drop_left]

theorem denotes_offset (h : source = codeOf (before ++ l :: behind)) :
    (Position.start.advance (codeOf before ++ l.token.leading.code)).Denotes source
      (offset before l) := by
  rw [← take_offset h]
  apply Position.denotes_advance
  rw [h, codeOf_split, offset]
  exact (List.prefix_append _ _).length_le

end Leaf
end ForceTry

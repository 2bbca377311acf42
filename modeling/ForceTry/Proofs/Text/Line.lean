import ForceTry.Proofs.Text.Trimmed
import ForceTry.Proofs.Tree.Position

/-!
# Lines of a text

The lines of a text are what stands between its line feeds, counted from zero.  The line on which a
place stands goes from the last line feed in front of the place to the next one behind it.
-/

namespace ForceTry

namespace Position

theorem lastLine_of_notMem {t : Text} (h : '\n' ∉ t) : lastLine t = t := by
  induction t using List.reverseRecOn with
  | nil => rfl
  | append_singleton t c ih =>
      rw [List.mem_append, not_or, List.mem_singleton] at h
      rw [lastLine_snoc, if_neg (Ne.symm h.2), ih h.1]

theorem lastLine_append_newline (s t : Text) : lastLine (s ++ '\n' :: t) = lastLine t := by
  induction t using List.reverseRecOn with
  | nil => rw [lastLine_snoc, if_pos rfl]; rfl
  | append_singleton t c ih =>
      rw [← List.cons_append, ← List.append_assoc, lastLine_snoc, lastLine_snoc, ih]

theorem lastLine_cons_of_mem (c : Char) {t : Text} (h : '\n' ∈ t) :
    lastLine (c :: t) = lastLine t := by
  rcases List.append_of_mem h with ⟨front, behind, rfl⟩
  rw [← List.cons_append, lastLine_append_newline, lastLine_append_newline]

end Position

namespace Text

open Position (lastLine lastLine_append_newline lastLine_cons_of_mem lastLine_of_notMem)

/-- The number of the line on which the character at `offset` stands. -/
def lineOf (t : Text) (offset : Nat) : Nat := (t.take offset).count '\n'

theorem head?_split (u : Text) : (split '\n' u).head? = some (u.takeWhile (· != '\n')) := by
  induction u with
  | nil => rfl
  | cons c u ih =>
      rcases exists_split '\n' u with ⟨p, ps, hsplit⟩
      by_cases hc : c = '\n'
      · rw [hc, split_cons_separator hsplit]
        rfl
      · rw [hsplit, List.head?_cons, Option.some_inj] at ih
        rw [split_cons_of_ne hsplit hc, List.takeWhile_cons, if_pos (by simpa using hc),
          List.head?_cons, ih]

/-- The line that the text `s` leads to begins with the last line of `s` and goes on behind it. -/
theorem getElem?_split (s u : Text) :
    (split '\n' (s ++ u))[s.count '\n']? = some (lastLine s ++ u.takeWhile (· != '\n')) := by
  induction s with
  | nil =>
      rw [List.nil_append, List.count_nil, ← List.head?_eq_getElem?]
      exact head?_split u
  | cons c s ih =>
      rcases exists_split '\n' (s ++ u) with ⟨p, ps, hsplit⟩
      rw [hsplit] at ih
      rw [List.cons_append]
      by_cases hc : c = '\n'
      · subst hc
        have hlast : lastLine ('\n' :: s) = lastLine s := lastLine_append_newline [] s
        rw [split_cons_separator hsplit, List.count_cons_self, List.getElem?_cons_succ, ih, hlast]
      rw [split_cons_of_ne hsplit hc, List.count_cons_of_ne hc]
      by_cases hs : '\n' ∈ s
      · rcases Nat.exists_eq_succ_of_ne_zero (Nat.ne_of_gt (List.count_pos_iff.mpr hs)) with ⟨k, hk⟩
        rw [hk, List.getElem?_cons_succ] at ih
        rw [hk, List.getElem?_cons_succ, ih, lastLine_cons_of_mem c hs]
      · have hcons : '\n' ∉ c :: s := by
          rw [List.mem_cons, not_or]
          exact ⟨Ne.symm hc, hs⟩
        rw [List.count_eq_zero.mpr hs, List.getElem?_cons_zero, Option.some_inj,
          lastLine_of_notMem hs] at ih
        rw [List.count_eq_zero.mpr hs, List.getElem?_cons_zero, ih, lastLine_of_notMem hcons]
        rfl

/-!
# Line starts
-/

/-- The text `line` is all of `t`, or what stands behind a line feed of `t`. -/
def FromLineStart (t line : Text) : Prop := line = t ∨ ∃ s, t = s ++ '\n' :: line

variable {t line : Text}

theorem FromLineStart.append (h : FromLineStart t line) (u : Text) :
    FromLineStart (t ++ u) (line ++ u) := by
  rcases h with rfl | ⟨s, rfl⟩
  · exact .inl rfl
  · exact .inr ⟨s, List.append_assoc s _ u⟩

theorem FromLineStart.lastLine_eq (h : FromLineStart t line) : lastLine t = lastLine line := by
  rcases h with rfl | ⟨s, rfl⟩
  · rfl
  · exact lastLine_append_newline s line

/-!
# Blanks at the start
-/

theorem takeWhile_pads_append (s : Text) {u : Text} (hu : ∀ c ∈ u.head?, ¬ Pads c) :
    (s ++ u).takeWhile (Pads ·) = s.takeWhile (Pads ·) := by
  induction s with
  | nil =>
      cases u with
      | nil => rfl
      | cons c u => exact List.takeWhile_cons_of_neg (by simpa only [decide_eq_true_eq] using hu c rfl)
  | cons c s ih => rw [List.cons_append, List.takeWhile_cons, List.takeWhile_cons, ih]

end Text
end ForceTry

import ForceTry.Proofs.Text.Ahead
import ForceTry.Proofs.Trivia.Holds
import Mathlib.Data.List.Chain

/-!
# Texts cut in two

A text that is cut between two tokens keeps its line breaks of two characters whole, and blanks at the
ends of its lines stay in one part.  What holds of all line breaks of a text then holds of those of its
parts.
-/

namespace ForceTry
namespace Text

/-- A blank, or the first character of a line break of two. -/
def isLoose (c : Char) : Bool := c == ' ' || c == '\t' || c == '\r'

theorem isLoose_of_stopsWord {c : Char} (h : stopsWord c = false) : isLoose c = false := by
  rw [← Bool.not_eq_true] at h ⊢
  intro hloose
  apply h
  rw [isLoose, Bool.or_eq_true, Bool.or_eq_true, beq_iff_eq, beq_iff_eq, beq_iff_eq] at hloose
  rcases hloose with (rfl | rfl) | rfl <;> rfl

/-- The text `s` in front of the text `u` ends where it may be cut off. -/
structure Parted (s u : Text) : Prop where
  pair : s.getLast? = some '\r' → u.head? ≠ some '\n'
  blank : ∀ c ∈ s.getLast?, c = ' ' ∨ c = '\t' → EndsLine u

theorem parted_of_last {s u : Text} (h : ∀ c ∈ s.getLast?, isLoose c = false) : Parted s u := by
  constructor
  · intro hlast
    cases h _ hlast
  · rintro c hc (rfl | rfl)
    · cases h _ hc
    · cases h _ hc

theorem parted_nil (s : Text) : Parted s [] := by
  constructor
  · intro _ hhead
    cases hhead
  · intro c _ _ d hd
    cases hd

theorem parted_concat {s : Text} {c : Char} (hc : isLoose c = false) (u : Text) :
    Parted (s ++ [c]) u := by
  apply parted_of_last
  intro d hd
  rw [List.getLast?_concat] at hd
  cases hd
  exact hc

/-!
# Line breaks of two characters
-/

/-- A carriage return stands in front of every line feed. -/
def Returned (t : Text) : Prop :=
  ∀ front back, t = front ++ '\n' :: back → front.getLast? = some '\r'

theorem returned_iff (t : Text) :
    Returned t ↔ (' ' :: t).IsChain fun c d => d = '\n' → c = '\r' := by
  rw [List.isChain_iff_forall_rel_of_append_cons_cons]
  constructor
  · rintro h c d front back heq rfl
    cases front with
    | nil =>
        injection heq with _ ht
        cases h [] back ht
    | cons e front =>
        injection heq with _ ht
        have hlast := h (front ++ [c]) back (by rw [ht, List.append_assoc]; rfl)
        rw [List.getLast?_concat] at hlast
        exact Option.some.inj hlast
  · rintro h front back rfl
    rcases List.eq_nil_or_concat front with rfl | ⟨front, c, rfl⟩
    · cases @h ' ' '\n' [] back rfl rfl
    · have hc := @h c '\n' (' ' :: front) back (by simp) rfl
      rw [hc, List.concat_eq_append, List.getLast?_concat]

instance : DecidablePred Returned := fun t => decidable_of_iff _ (returned_iff t).symm

theorem returned_of_not_mem {t : Text} (h : '\n' ∉ t) : Returned t := by
  rintro front back rfl
  exact absurd (List.mem_append_right front (List.mem_cons_self ..)) h

theorem Returned.append {s u : Text} (hs : Returned s) (hu : Returned u) : Returned (s ++ u) := by
  intro front back heq
  rcases List.append_eq_append_iff.mp heq with ⟨rest, rfl, hrest⟩ | ⟨rest, rfl, hrest⟩
  · have hlast := hu rest back hrest
    rw [List.getLast?_append, hlast]
    rfl
  · cases rest with
    | nil =>
        cases hu [] back hrest.symm
    | cons c rest =>
        injection hrest with hc hback
        subst hc
        exact hs front rest rfl

theorem returned_nil : Returned [] := returned_of_not_mem List.not_mem_nil

theorem Returned.left {s u : Text} (h : Returned (s ++ u)) : Returned s := by
  rintro front back rfl
  apply h front (back ++ u)
  rw [List.append_assoc, List.cons_append]

/-- Behind a part that ends where it may be cut off, the rest has its own carriage returns. -/
theorem Returned.right {s u : Text} (h : Returned (s ++ u))
    (hcut : s.getLast? = some '\r' → u.head? ≠ some '\n') : Returned u := by
  rintro front back rfl
  have hlast := h (s ++ front) back (by rw [List.append_assoc])
  rw [List.getLast?_append] at hlast
  cases hfront : front.getLast? with
  | some c =>
      rw [hfront] at hlast
      exact hlast
  | none =>
      rw [List.getLast?_eq_none_iff] at hfront
      subst hfront
      exact absurd rfl (hcut hlast)

end Text
end ForceTry

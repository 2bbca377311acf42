import ForceTry.Proofs.Text.Aligned
import Mathlib.Data.List.Chain

/-!
# Texts without blanks at the ends of lines

No line of a text ends in a blank when none of its blanks stands in front of a line break and the text does
not end in one.  Such texts can be put together at places where no blank meets a line break.
-/

namespace ForceTry
namespace Text

def Pads (c : Char) : Prop := c = ' ' ∨ c = '\t'

instance : DecidablePred Pads := fun c => inferInstanceAs (Decidable (c = ' ' ∨ c = '\t'))

/-- No line of the text ends in a space or a tab. -/
def Trimmed (t : Text) : Prop := ∀ line ∈ t.split '\n', ∀ c ∈ line.getLast?, c ≠ ' ' ∧ c ≠ '\t'

/-- No blank of the text stands in front of a line break. -/
def Flush (t : Text) : Prop := t.IsChain fun c d => d = '\n' → ¬ Pads c

instance : DecidablePred Flush := fun t =>
  inferInstanceAs (Decidable (t.IsChain fun c d => d = '\n' → ¬ Pads c))

theorem flush_cons {c : Char} {t : Text} :
    Flush (c :: t) ↔ (t.head? = some '\n' → ¬ Pads c) ∧ Flush t := by
  rw [Flush, List.isChain_cons]
  apply and_congr_left'
  constructor
  · exact fun h hhead => h '\n' hhead rfl
  · rintro h d hd rfl
    exact h hd

theorem flush_append {s u : Text} :
    Flush (s ++ u) ↔ Flush s ∧ Flush u ∧ (u.head? = some '\n' → ∀ c ∈ s.getLast?, ¬ Pads c) := by
  rw [Flush, List.isChain_append]
  constructor
  · rintro ⟨hs, hu, hjoin⟩
    exact ⟨hs, hu, fun hhead c hc => hjoin c hc '\n' hhead rfl⟩
  · rintro ⟨hs, hu, hjoin⟩
    refine ⟨hs, hu, ?_⟩
    rintro c hc d hd rfl
    exact hjoin hd c hc

/-!
# Lines
-/

theorem head?_of_split {t p : Text} {ps : List Text} (h : t.split '\n' = p :: ps) :
    (t ++ ['\n']).head? = some '\n' ↔ p = [] := by
  cases t with
  | nil =>
      cases h
      exact iff_of_true rfl rfl
  | cons c t =>
      rcases exists_split '\n' t with ⟨q, qs, hsplit⟩
      by_cases hc : c = '\n'
      · subst hc
        rw [split_cons_separator hsplit] at h
        cases h
        exact iff_of_true rfl rfl
      · rw [split_cons_of_ne hsplit hc] at h
        cases h
        simp [hc]

theorem flush_iff_of_split {t p : Text} {ps : List Text} (h : t.split '\n' = p :: ps) :
    Flush (t ++ ['\n']) ↔ ∀ line ∈ p :: ps, ∀ c ∈ line.getLast?, ¬ Pads c := by
  induction t generalizing p ps with
  | nil =>
      cases h
      exact iff_of_true (List.isChain_singleton _) (by simp)
  | cons c t ih =>
      rcases exists_split '\n' t with ⟨q, qs, hsplit⟩
      have hhead := head?_of_split hsplit
      by_cases hc : c = '\n'
      · subst hc
        rw [split_cons_separator hsplit] at h
        cases h
        rw [List.cons_append, flush_cons, ih hsplit, List.forall_mem_cons (l := q :: qs)]
        apply and_congr_left'
        exact iff_of_true (fun _ => by decide) (by simp)
      · rw [split_cons_of_ne hsplit hc] at h
        cases h
        rw [List.cons_append, flush_cons, hhead, ih hsplit, List.forall_mem_cons,
          List.forall_mem_cons, ← and_assoc]
        apply and_congr_left'
        cases q with
        | nil => simp
        | cons d q => simp [List.getLast?_cons_cons]

theorem trimmed_iff (t : Text) : Trimmed t ↔ Flush (t ++ ['\n']) := by
  rcases exists_split '\n' t with ⟨p, ps, hsplit⟩
  rw [flush_iff_of_split hsplit, Trimmed, hsplit]
  simp only [Pads, not_or, ne_eq]

instance : DecidablePred Trimmed := fun t => decidable_of_iff _ (trimmed_iff t).symm

example : Trimmed (ofString " a\n\n\tb") ∧ ¬ Trimmed (ofString "a \nb") := by decide

/-!
# Texts of tokens
-/

/-- A text that neither begins with a line break nor ends in a blank, with no blank in front of a line
break in it. -/
structure Solid (t : Text) : Prop where
  ne_nil : t ≠ []
  start : t.head? ≠ some '\n'
  flush : Flush (t ++ ['\n'])

instance : DecidablePred Solid := fun t =>
  decidable_of_iff (t ≠ [] ∧ t.head? ≠ some '\n' ∧ Flush (t ++ ['\n']))
    ⟨fun h => ⟨h.1, h.2.1, h.2.2⟩, fun h => ⟨h.ne_nil, h.start, h.flush⟩⟩

namespace Solid

variable {s : Text} (h : Solid s)

include h

theorem last : ∀ c ∈ s.getLast?, ¬ Pads c := (flush_append.mp h.flush).2.2 rfl

theorem append {u : Text} (hu : Flush u) : Flush (s ++ u) :=
  flush_append.mpr ⟨(flush_append.mp h.flush).1, hu, fun _ => h.last⟩

theorem head?_append (u : Text) : (s ++ u).head? ≠ some '\n' := by
  cases s with
  | nil => exact absurd rfl h.ne_nil
  | cons c s => exact h.start

end Solid

end Text
end ForceTry

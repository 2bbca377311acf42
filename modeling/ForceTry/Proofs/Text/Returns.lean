import ForceTry.Proofs.Text.Ahead

/-!
# Carriage returns in front of line feeds

A text without carriage returns becomes longer when one is put in front of every line feed.  What does
not look for line breaks finds the same in both texts: words of the same length, and the same words at
places that have moved on.
-/

namespace ForceTry
namespace Text

/-- The text with a carriage return in front of every line feed. -/
def withReturns : Text → Text
  | [] => []
  | c :: t => if c = '\n' then '\r' :: '\n' :: withReturns t else c :: withReturns t

/-- The number of characters that the first `n` characters of a text become. -/
def stretched (n : Nat) (t : Text) : Nat := (withReturns (t.take n)).length

theorem withReturns_newline (t : Text) :
    withReturns ('\n' :: t) = '\r' :: '\n' :: withReturns t := rfl

theorem withReturns_cons {c : Char} (h : c ≠ '\n') (t : Text) :
    withReturns (c :: t) = c :: withReturns t := if_neg h

theorem withReturns_append (s t : Text) : withReturns (s ++ t) = withReturns s ++ withReturns t := by
  induction s with
  | nil => rfl
  | cons c s ih =>
      rw [List.cons_append, withReturns, withReturns, ih]
      split <;> rfl

theorem withReturns_of_notMem {t : Text} (h : '\n' ∉ t) : withReturns t = t := by
  induction t with
  | nil => rfl
  | cons c t ih =>
      rw [List.mem_cons, not_or] at h
      rw [withReturns_cons (Ne.symm h.1), ih h.2]

theorem return_mem_withReturns {t : Text} (h : '\n' ∈ t) : '\r' ∈ withReturns t := by
  rcases List.append_of_mem h with ⟨s, u, rfl⟩
  rw [withReturns_append, withReturns_newline]
  exact List.mem_append_right _ (List.mem_cons_self ..)

theorem withReturns_eq_iff {t line : Text} (hline : '\n' ∉ line) (hreturn : '\r' ∉ line) :
    withReturns t = line ↔ t = line := by
  constructor
  · rintro rfl
    exact (withReturns_of_notMem fun h => hreturn (return_mem_withReturns h)).symm
  · rintro rfl
    exact withReturns_of_notMem hline

theorem head?_withReturns {t : Text} {c : Char} (hc : c ≠ '\r') (h : (withReturns t).head? = some c) :
    t.head? = some c := by
  cases t with
  | nil => exact h
  | cons d t =>
      rw [withReturns] at h
      split at h
      · exact absurd (Option.some.inj h).symm hc
      · exact h

/-!
# Places that move on
-/

theorem withReturns_split (n : Nat) (t : Text) :
    withReturns t = withReturns (t.take n) ++ withReturns (t.drop n) := by
  rw [← withReturns_append, List.take_append_drop]

theorem take_stretched (n : Nat) (t : Text) :
    (withReturns t).take (stretched n t) = withReturns (t.take n) := by
  rw [withReturns_split n t]
  exact List.take_left

theorem drop_stretched (n : Nat) (t : Text) :
    (withReturns t).drop (stretched n t) = withReturns (t.drop n) := by
  rw [withReturns_split n t]
  exact List.drop_left

theorem stretched_of_notMem {n : Nat} {t : Text} (h : '\n' ∉ t.take n) (hle : n ≤ t.length) :
    stretched n t = n := by
  rw [stretched, withReturns_of_notMem h, List.length_take, Nat.min_eq_left hle]

theorem stretched_succ {c : Char} (h : c ≠ '\n') (n : Nat) (t : Text) :
    stretched (n + 1) (c :: t) = stretched n t + 1 := by
  rw [stretched, List.take_succ_cons, withReturns_cons h]
  rfl

theorem stretched_newline (n : Nat) (t : Text) :
    stretched (n + 1) ('\n' :: t) = stretched n t + 2 := rfl

/-!
# Words
-/

/-- The text has no character that belongs to a line break. -/
def Unbroken (p : Text) : Prop := ∀ c ∈ p, c ≠ '\n' ∧ c ≠ '\r'

instance (p : Text) : Decidable (Unbroken p) :=
  List.decidableBAll (fun c => c ≠ '\n' ∧ c ≠ '\r') p

theorem runLength_withReturns {p : Char → Bool} (hfeed : p '\n' = false) (hreturn : p '\r' = false)
    (t : Text) : runLength p (withReturns t) = runLength p t := by
  induction t with
  | nil => rfl
  | cons c t ih =>
      by_cases hc : c = '\n'
      · simp [hc, withReturns_newline, runLength_cons, hfeed, hreturn]
      · rw [withReturns_cons hc, runLength_cons, runLength_cons, ih]

theorem notMem_take_runLength {p : Char → Bool} (hfeed : p '\n' = false) (t : Text) :
    '\n' ∉ t.take (runLength p t) := by
  rw [take_runLength]
  intro h
  have hp := List.mem_takeWhile_imp h
  rw [hfeed] at hp
  cases hp

theorem stretched_runLength {p : Char → Bool} (hfeed : p '\n' = false) (hreturn : p '\r' = false)
    (t : Text) : stretched (runLength p t) t = runLength p (withReturns t) := by
  rw [runLength_withReturns hfeed hreturn,
    stretched_of_notMem (notMem_take_runLength hfeed t) (runLength_le p t)]

theorem startsWith_withReturns {p : Text} (hp : Unbroken p) (t : Text) :
    startsWith p (withReturns t) = startsWith p t := by
  induction p generalizing t with
  | nil => rfl
  | cons c p ih =>
      have hc := hp c (List.mem_cons_self ..)
      have hrest : Unbroken p := fun d hd => hp d (List.mem_cons_of_mem _ hd)
      cases t with
      | nil => rfl
      | cons d t =>
          by_cases hd : d = '\n'
          · subst hd
            rw [withReturns_newline, startsWith_cons, startsWith_cons, beq_eq_false_iff_ne.mpr hc.1,
              beq_eq_false_iff_ne.mpr hc.2]
            rfl
          · rw [withReturns_cons hd, startsWith_cons, startsWith_cons, ih hrest]

theorem startsWith_break {p : Text} (hne : p ≠ []) (hp : Unbroken p) {c : Char}
    (hc : c = '\n' ∨ c = '\r') (t : Text) : startsWith p (c :: t) = false := by
  cases p with
  | nil => exact absurd rfl hne
  | cons d p =>
      have hd := hp d (List.mem_cons_self ..)
      have hdc : (d == c) = false := by
        rw [beq_eq_false_iff_ne]
        rcases hc with rfl | rfl
        · exact hd.1
        · exact hd.2
      rw [startsWith_cons, hdc]
      rfl

theorem find?_withReturns {p : Text} (hne : p ≠ []) (hp : Unbroken p) (t : Text) :
    find? p (withReturns t) = (find? p t).map (stretched · t) := by
  have hfeed := startsWith_break hne hp (Or.inl rfl)
  have hreturn := startsWith_break hne hp (Or.inr rfl)
  induction t with
  | nil => rw [withReturns, find?, if_neg hne, Option.map_none]
  | cons c t ih =>
      by_cases hc : c = '\n'
      · subst hc
        rw [withReturns_newline, find?, hreturn, find?, hfeed, find?, hfeed, ih]
        cases find? p t <;> rfl
      · have hstarts := startsWith_withReturns hp (c :: t)
        rw [withReturns_cons hc] at hstarts ⊢
        rw [find?, find?, hstarts, ih]
        split
        · rfl
        · cases find? p t with
          | none => rfl
          | some i => rw [Option.map_some, Option.map_some, Option.map_some, Option.map_some,
              stretched_succ hc]

theorem exists_first_line (t : Text) :
    ∃ s u, t = s ++ u ∧ '\n' ∉ s ∧ (u = [] ∨ ∃ v, u = '\n' :: v) := by
  induction t with
  | nil => exact ⟨[], [], rfl, List.not_mem_nil, Or.inl rfl⟩
  | cons c t ih =>
      by_cases hc : c = '\n'
      · subst hc
        exact ⟨[], _, rfl, List.not_mem_nil, Or.inr ⟨t, rfl⟩⟩
      · rcases ih with ⟨s, u, rfl, hs, hu⟩
        refine ⟨c :: s, u, rfl, ?_, hu⟩
        rw [List.mem_cons, not_or]
        exact ⟨Ne.symm hc, hs⟩

end Text
end ForceTry

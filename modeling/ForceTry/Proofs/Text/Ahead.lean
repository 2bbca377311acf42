import ForceTry.Proofs.Trivia.Canonical

/-!
# Looking ahead

Where a token ends depends on the text behind it, but not on much of it: a reader looks at a few
characters of the word that follows, and a blank, a line break, a semicolon or a brace stops it.  Two
texts that start with the same few characters of a word are the same to such a reader.
-/

namespace ForceTry
namespace Text

def stopsWord (c : Char) : Bool :=
  c == ' ' || c == '\t' || c == '\n' || c == '\r' || c == ';' || c == '\x7b' || c == '\x7d'

/-- The first `n` characters of the word that a text starts with. -/
def ahead (n : Nat) (t : Text) : Text := (t.takeWhile fun c => !stopsWord c).take n

def Quiet (t : Text) : Prop := ∀ c ∈ t.head?, stopsWord c = true

theorem quiet_nil : Quiet [] := by
  intro c hc
  cases hc

theorem quiet_cons {c : Char} (h : stopsWord c = true) (t : Text) : Quiet (c :: t) := by
  intro d hd
  cases hd
  exact h

theorem ahead_of_quiet {t : Text} (h : Quiet t) (n : Nat) : ahead n t = [] := by
  cases t with
  | nil => exact List.take_nil
  | cons c t =>
      have hc : stopsWord c = true := h c rfl
      rw [ahead, List.takeWhile_cons, hc]
      exact List.take_nil

theorem ahead_cons {c : Char} (h : stopsWord c = false) (n : Nat) (t : Text) :
    ahead (n + 1) (c :: t) = c :: ahead n t := by
  rw [ahead, List.takeWhile_cons, h]
  rfl

theorem ahead_of_le {n m : Nat} {t t' : Text} (h : ahead m t = ahead m t') (hle : n ≤ m) :
    ahead n t = ahead n t' := by
  have htake : ∀ t : Text, ahead n t = (ahead m t).take n := by
    intro t
    rw [ahead, ahead, List.take_take, Nat.min_eq_left hle]
  rw [htake t, htake t', h]

theorem ahead_cases {n : Nat} {t t' : Text} (h : ahead (n + 1) t = ahead (n + 1) t') :
    Quiet t ∧ Quiet t' ∨
      ∃ c u u', t = c :: u ∧ t' = c :: u' ∧ stopsWord c = false ∧ ahead n u = ahead n u' := by
  have hquiet : ∀ t : Text, ahead (n + 1) t = [] → Quiet t := by
    intro t ht
    cases t with
    | nil => exact quiet_nil
    | cons c t =>
        cases hc : stopsWord c with
        | true => exact quiet_cons hc t
        | false =>
            rw [ahead_cons hc] at ht
            cases ht
  cases hahead : ahead (n + 1) t with
  | nil => exact .inl ⟨hquiet t hahead, hquiet t' (h.symm.trans hahead)⟩
  | cons d ds =>
      have hword : ∀ t : Text, ahead (n + 1) t = d :: ds →
          ∃ u, t = d :: u ∧ stopsWord d = false ∧ ahead n u = ds := by
        intro t ht
        cases t with
        | nil => cases ht
        | cons c t =>
            cases hc : stopsWord c with
            | true =>
                rw [ahead_of_quiet (quiet_cons hc t)] at ht
                cases ht
            | false =>
                rw [ahead_cons hc] at ht
                injection ht with hcd ht
                subst hcd
                exact ⟨t, rfl, hc, ht⟩
      rcases hword t hahead with ⟨u, rfl, hd, hu⟩
      rcases hword t' (h.symm.trans hahead) with ⟨u', rfl, _, hu'⟩
      exact .inr ⟨d, u, u', rfl, rfl, hd, hu.trans hu'.symm⟩

theorem ahead_append {n : Nat} {t t' : Text} (h : ahead n t = ahead n t') (s : Text) :
    ahead n (s ++ t) = ahead n (s ++ t') := by
  induction s generalizing n with
  | nil => exact h
  | cons c s ih =>
      cases n with
      | zero => rfl
      | succ n =>
          cases hc : stopsWord c with
          | true => rw [List.cons_append, List.cons_append, ahead_of_quiet (quiet_cons hc _),
              ahead_of_quiet (quiet_cons hc _)]
          | false =>
              rw [List.cons_append, List.cons_append, ahead_cons hc, ahead_cons hc,
                ih (ahead_of_le h (Nat.le_succ n))]

theorem ahead_append_of_le {n : Nat} {s : Text} (h : n ≤ s.length) (t t' : Text) :
    ahead n (s ++ t) = ahead n (s ++ t') := by
  induction s generalizing n with
  | nil =>
      rw [Nat.le_zero.mp h]
      rfl
  | cons c s ih =>
      cases n with
      | zero => rfl
      | succ n =>
          cases hc : stopsWord c with
          | true => rw [List.cons_append, List.cons_append, ahead_of_quiet (quiet_cons hc _),
              ahead_of_quiet (quiet_cons hc _)]
          | false =>
              rw [List.cons_append, List.cons_append, ahead_cons hc, ahead_cons hc,
                ih (Nat.le_of_succ_le_succ h)]

/-!
# Readers that look ahead
-/

/-- A reader that answers a length looks at no more than `n` characters of the word behind what it
reads. -/
def LooksAhead (n : Nat) (F : Text → Nat) : Prop :=
  ∀ s t t', ahead n t = ahead n t' → F (s ++ t) ≤ s.length → F (s ++ t') = F (s ++ t)

theorem runLength_cons (p : Char → Bool) (c : Char) (t : Text) :
    runLength p (c :: t) = if p c then runLength p t + 1 else 0 := by
  rw [runLength, List.takeWhile_cons]
  cases p c <;> rfl

def WithinWord (p : Char → Bool) : Prop := ∀ c, stopsWord c = true → p c = false

theorem runLength_of_quiet {p : Char → Bool} (hp : WithinWord p) {t : Text} (h : Quiet t) :
    runLength p t = 0 := by
  cases t with
  | nil => rfl
  | cons c t =>
      rw [runLength_cons, hp c (h c rfl)]
      rfl

theorem looksAhead_runLength {p : Char → Bool} (hp : WithinWord p) (n : Nat) :
    LooksAhead (n + 1) (runLength p) := by
  intro s t t' hahead hle
  induction s with
  | nil =>
      rw [List.nil_append, List.nil_append] at *
      rcases ahead_cases hahead with ⟨ht, ht'⟩ | ⟨c, u, u', rfl, rfl, _, _⟩
      · rw [runLength_of_quiet hp ht, runLength_of_quiet hp ht']
      · rw [runLength_cons] at hle ⊢
        rw [runLength_cons]
        cases hc : p c with
        | true =>
            rw [hc] at hle
            cases hle
        | false => rfl
  | cons c s ih =>
      rw [List.cons_append, runLength_cons] at hle ⊢
      rw [List.cons_append, runLength_cons]
      cases hc : p c with
      | true =>
          rw [hc] at hle
          rw [if_pos rfl, if_pos rfl, ih (Nat.le_of_succ_le_succ hle)]
      | false => rfl

theorem runLength_append_quiet {p : Char → Bool} (hp : WithinWord p) (s : Text) {t : Text}
    (h : Quiet t) : runLength p (s ++ t) = runLength p s := by
  induction s with
  | nil => exact runLength_of_quiet hp h
  | cons c s ih => rw [List.cons_append, runLength_cons, runLength_cons, ih]

theorem runLength_append_of_lt {p : Char → Bool} {s t : Text}
    (h : runLength p (s ++ t) < s.length) (t' : Text) :
    runLength p (s ++ t') = runLength p (s ++ t) := by
  induction s with
  | nil => cases h
  | cons c s ih =>
      rw [List.cons_append, runLength_cons] at h ⊢
      rw [List.cons_append, runLength_cons]
      split
      · next hc =>
          rw [if_pos hc, List.length_cons] at h
          rw [ih (Nat.lt_of_succ_lt_succ h)]
      · rfl

theorem looksAhead_of_long {F : Text → Nat} {n : Nat} (m : Nat)
    (hquiet : ∀ s t, Quiet t → F (s ++ t) = F s)
    (hlong : ∀ s t t', m ≤ s.length → ahead n t = ahead n t' → F (s ++ t) ≤ s.length →
      F (s ++ t') = F (s ++ t)) : LooksAhead (n + m) F := by
  have hgrow : ∀ k s t t', m ≤ s.length + k → ahead (n + k) t = ahead (n + k) t' →
      F (s ++ t) ≤ s.length → F (s ++ t') = F (s ++ t) := by
    intro k
    induction k with
    | zero => exact hlong
    | succ k ih =>
        intro s t t' hm hahead hle
        rcases ahead_cases hahead with ⟨ht, ht'⟩ | ⟨c, u, u', rfl, rfl, _, hu⟩
        · rw [hquiet s t ht, hquiet s t' ht']
        · have hlength : (s ++ [c]).length = s.length + 1 := by simp
          rw [List.append_cons s c u] at hle ⊢
          rw [List.append_cons s c u']
          exact ih (s ++ [c]) u u' (by omega) hu (by omega)
  intro s t t' hahead hle
  exact hgrow m s t t' (Nat.le_add_left m _) hahead hle

/-!
# Texts that are looked for
-/

theorem head?_of_ahead {n : Nat} {t t' : Text} (h : ahead (n + 1) t = ahead (n + 1) t') {d : Char}
    (hd : stopsWord d = false) : t.head? = some d ↔ t'.head? = some d := by
  have hquiet : ∀ t : Text, Quiet t → ¬ t.head? = some d := by
    intro t ht hhead
    exact Bool.noConfusion (hd.symm.trans (ht d hhead))
  rcases ahead_cases h with ⟨ht, ht'⟩ | ⟨c, u, u', rfl, rfl, _, _⟩
  · exact iff_of_false (hquiet t ht) (hquiet t' ht')
  · exact Iff.rfl

theorem startsWith_cons (c d : Char) (p t : Text) :
    startsWith (c :: p) (d :: t) = (c == d && startsWith p t) := by
  rw [startsWith, after?]
  by_cases hcd : c = d
  · rw [if_pos hcd, beq_iff_eq.mpr hcd]
    rfl
  · rw [if_neg hcd, beq_eq_false_iff_ne.mpr hcd]
    rfl

theorem startsWith_append {n : Nat} {p s t t' : Text} (hword : ∀ c ∈ p, stopsWord c = false)
    (hahead : ahead n t = ahead n t') (hlength : p.length ≤ s.length + n) :
    startsWith p (s ++ t) = startsWith p (s ++ t') := by
  induction p generalizing n s t t' with
  | nil => rfl
  | cons c p ih =>
      have hp : ∀ d ∈ p, stopsWord d = false := fun d hd => hword d (List.mem_cons_of_mem c hd)
      cases s with
      | cons d s =>
          rw [List.cons_append, List.cons_append, startsWith_cons, startsWith_cons,
            ih hp hahead (by simpa [Nat.add_right_comm] using hlength)]
      | nil =>
          cases n with
          | zero => cases hlength
          | succ n =>
              have hc := hword c (List.mem_cons_self ..)
              have hquiet : ∀ t : Text, Quiet t → startsWith (c :: p) t = false := by
                intro t ht
                cases t with
                | nil => rfl
                | cons d t =>
                    have hne : (c == d) = false := by
                      rw [beq_eq_false_iff_ne]
                      rintro rfl
                      exact Bool.noConfusion (hc.symm.trans (ht c rfl))
                    rw [startsWith_cons, hne]
                    rfl
              rcases ahead_cases hahead with ⟨ht, ht'⟩ | ⟨d, u, u', rfl, rfl, _, hu⟩
              · exact (hquiet t ht).trans (hquiet t' ht').symm
              · rw [List.nil_append, List.nil_append, startsWith_cons, startsWith_cons]
                congr 1
                exact @ih n [] u u' hp hu (by simpa using hlength)

theorem startsWith_append_of_le {p s : Text} (h : p.length ≤ s.length) (t t' : Text) :
    startsWith p (s ++ t) = startsWith p (s ++ t') := by
  induction p generalizing s with
  | nil => rfl
  | cons c p ih =>
      cases s with
      | nil => cases h
      | cons d s =>
          rw [List.cons_append, List.cons_append, startsWith_cons, startsWith_cons,
            ih (Nat.le_of_succ_le_succ h)]

theorem length_le_of_startsWith {p t : Text} (h : startsWith p t = true) : p.length ≤ t.length := by
  rcases Option.isSome_iff_exists.mp h with ⟨r, hr⟩
  rw [eq_append_of_after? hr, List.length_append]
  exact Nat.le_add_right _ _

theorem find?_le {p t : Text} {i : Nat} (h : find? p t = some i) : i + p.length ≤ t.length := by
  induction t generalizing i with
  | nil =>
      rw [find?] at h
      split at h
      · next hp =>
          cases h
          rw [hp]
          exact Nat.le_refl _
      · cases h
  | cons c t ih =>
      rw [find?] at h
      split at h
      · next hstarts =>
          cases h
          rw [Nat.zero_add]
          exact length_le_of_startsWith hstarts
      · rcases Option.map_eq_some_iff.mp h with ⟨j, hj, rfl⟩
        have hle := ih hj
        rw [List.length_cons]
        omega

theorem find?_append {p s t : Text} {i : Nat} (h : find? p (s ++ t) = some i)
    (hle : i + p.length ≤ s.length) (t' : Text) : find? p (s ++ t') = some i := by
  induction s generalizing i with
  | nil =>
      rw [List.length_nil, Nat.le_zero, Nat.add_eq_zero_iff, List.length_eq_zero_iff] at hle
      rcases hle with ⟨rfl, rfl⟩
      cases t' <;> rfl
  | cons c s ih =>
      rw [List.cons_append, find?] at h
      have hp : p.length ≤ (c :: s).length := Nat.le_trans (Nat.le_add_left _ _) hle
      rw [← List.cons_append, startsWith_append_of_le hp t t', List.cons_append] at h
      rw [List.cons_append, find?]
      split
      · next hstarts =>
          rw [if_pos hstarts] at h
          exact h
      · next hstarts =>
          rw [if_neg hstarts, Option.map_eq_some_iff] at h
          rcases h with ⟨j, hj, rfl⟩
          rw [ih hj (by rw [List.length_cons] at hle; omega)]
          rfl

theorem startsWith_of_append {p q t : Text} (h : startsWith (p ++ q) t = true) :
    startsWith p t = true := by
  cases hafter : after? (p ++ q) t with
  | none =>
      rw [startsWith, hafter] at h
      cases h
  | some r =>
      rw [eq_append_of_after? hafter, List.append_assoc, startsWith, after?_append]
      rfl

end Text
end ForceTry

import ForceTry.Proofs.Text.Ahead
import ForceTry.Proofs.Token.Stream

/-!
# Literals in front of other texts

A literal that is closed looks at nothing behind it, except that two quotes may be the start of three.
What is open inside it must be closed before it ends, so no sign inside it reaches over its end.
-/

namespace ForceTry
namespace Literal

open ForceTry.Text

theorem stopsWord_of_mem_quotes {multiline : Bool} {c : Char} (h : c ∈ quotes multiline) :
    stopsWord c = false := by
  have hc : c = '"' := by
    cases multiline <;> simpa [quotes] using h
  rw [hc]
  rfl

def closingCost : List Layer → Nat
  | [] => 0
  | .quoted hashes multiline _ :: outer => (closing hashes multiline).length + closingCost outer
  | .interpolation _ :: outer => closingCost outer

theorem length_closing_le (hashes : Nat) (multiline : Bool) :
    hashes + 1 ≤ (closing hashes multiline).length := by
  have hquotes : 1 ≤ (quotes multiline).length := by
    cases multiline <;> decide
  rw [closing, List.length_append, List.length_replicate]
  omega

theorem closingCost_step {layers layers' : List Layer} {n skip : Nat} {t : Text}
    (h : step layers n t = some (layers', skip)) :
    closingCost layers ≤ skip + 1 + closingCost layers' := by
  rcases step_cases h with ⟨l, outer, pushed, rfl, rfl, _, hmoves⟩
  cases hmoves with
  | @closed hashes multiline start hclosing =>
      have hpos := length_closing_le hashes multiline
      rw [closingCost, List.nil_append]
      omega
  | interpolated =>
      rw [List.cons_append, closingCost]
      exact Nat.le_add_left _ _
  | stayed => exact Nat.le_add_left _ _
  | nested hquote =>
      rw [List.cons_append, closingCost, List.singleton_append]
      omega
  | counted =>
      rw [List.singleton_append, closingCost, closingCost]
      exact Nat.le_add_left _ _
  | left =>
      rw [closingCost]
      exact Nat.le_add_left _ _

theorem closingCost_le {layers : List Layer} {skip n m : Nat} {t : Text}
    (h : lengthFrom layers skip n t = .ok m) : n + skip + closingCost layers ≤ m := by
  fun_induction lengthFrom layers skip n t with
  | case1 layers skip n hc =>
      simp only [Bool.and_eq_true, beq_iff_eq, List.isEmpty_iff] at hc
      cases h
      rw [hc.1, hc.2]
      exact Nat.le_refl _
  | case2 => cases h
  | case3 layers n c t skip ih => have := ih h; omega
  | case4 layers n c t hc =>
      cases h
      rw [List.isEmpty_iff.mp hc]
      exact Nat.le_refl _
  | case5 => cases h
  | case6 layers n c t hc layers' skip' hs ih =>
      have := ih h
      have := closingCost_step hs
      omega

theorem step_quoted (hashes : Nat) (multiline : Bool) (start n : Nat) (outer : List Layer)
    (t : Text) :
    step (.quoted hashes multiline start :: outer) n t =
      if startsWith (closing hashes multiline) t then
        some (outer, (closing hashes multiline).length - 1)
      else if !multiline && startsWith ['\n'] t then none
      else if startsWith (escape hashes ++ ['(']) t then
        some (.interpolation 0 :: .quoted hashes multiline start :: outer, hashes + 1)
      else if startsWith (escape hashes) t then
        some (.quoted hashes multiline start :: outer, hashes + 1)
      else some (.quoted hashes multiline start :: outer, 0) := rfl

theorem step_interpolation (depth n : Nat) (outer : List Layer) (c : Char) (t : Text) :
    step (.interpolation depth :: outer) n (c :: t) =
      if c = '"' then
        some (.quoted 0 (opensMultiline (c :: t)) n :: .interpolation depth :: outer,
          (quotes (opensMultiline (c :: t))).length - 1)
      else if c = '(' then some (.interpolation (depth + 1) :: outer, 0)
      else if c = ')' then
        some (if depth = 0 then outer else .interpolation (depth - 1) :: outer, 0)
      else some (.interpolation depth :: outer, 0) := by
  unfold step
  split
  · next heq => cases heq
  · next heq => cases heq
  · next heq =>
      cases heq
      split
      · next heq =>
          cases heq
          rfl
      · next heq =>
          cases heq
          rfl
      · next heq =>
          cases heq
          cases depth <;> rfl
      · next hquote hopen hclose =>
          rw [if_neg (fun hc => hquote t (by rw [hc])), if_neg (fun hc => hopen t (by rw [hc])),
            if_neg (fun hc => hclose t (by rw [hc]))]

/-- What a character does shows in the rest of the literal, because the literal is closed there. -/
theorem step_append {layers layers' : List Layer} {n skip : Nat} {c : Char} {s t t' : Text}
    (hahead : ahead 3 t = ahead 3 t') (h : step layers n (c :: (s ++ t)) = some (layers', skip))
    (hend : skip + closingCost layers' ≤ s.length) :
    step layers n (c :: (s ++ t')) = some (layers', skip) := by
  have hcost := closingCost_step h
  have hstarts : ∀ p : Text, p.length ≤ s.length + 1 →
      startsWith p (c :: (s ++ t)) = startsWith p (c :: (s ++ t')) := by
    intro p hp
    exact @startsWith_append_of_le p (c :: s) hp t t'
  -- All signs that the step looks for are over before the literal is closed, three quotes in an
  -- interpolation apart.
  match layers with
  | [] => cases h
  | .quoted hashes multiline start :: outer =>
      have hpos := length_closing_le hashes multiline
      rw [closingCost] at hcost
      have hescape : (escape hashes).length = hashes + 1 := by simp [escape]
      rw [step_quoted] at h ⊢
      rw [hstarts (closing hashes multiline) (by omega),
        hstarts ['\n'] (by simp), hstarts (escape hashes) (by omega)] at h
      split
      · next hclose =>
          rw [if_pos hclose] at h
          exact h
      next hclose =>
      rw [if_neg hclose] at h
      split
      · next hbreak =>
          rw [if_pos hbreak] at h
          exact h
      next hbreak =>
      rw [if_neg hbreak] at h
      by_cases hback : startsWith (escape hashes) (c :: (s ++ t')) = true
      · have hskip : skip = hashes + 1 := by
          rw [if_pos hback] at h
          split at h <;> cases h <;> rfl
        rw [hstarts (escape hashes ++ ['(']) (by rw [List.length_append, hescape]; simp; omega)] at h
        exact h
      · have hopen : ∀ u : Text, startsWith (escape hashes) u = false →
            startsWith (escape hashes ++ ['(']) u = false := by
          intro u hu
          cases hstart : startsWith (escape hashes ++ ['(']) u with
          | false => rfl
          | true => exact Bool.noConfusion (hu.symm.trans (startsWith_of_append hstart))
        rw [if_neg hback] at h ⊢
        rw [Bool.not_eq_true] at hback
        rw [hopen _ hback]
        rw [← hstarts _ (by omega)] at hback
        rw [hopen _ hback] at h
        exact h
  | .interpolation depth :: outer =>
      have hopens : opensMultiline (c :: (s ++ t)) = opensMultiline (c :: (s ++ t')) :=
        @startsWith_append 3 (quotes true) (c :: s) t t' (fun _ => stopsWord_of_mem_quotes) hahead
          (by simp [quotes])
      rw [step_interpolation, hopens] at h
      rw [step_interpolation]
      exact h

theorem lengthFrom_append {layers : List Layer} {skip n : Nat} {s t t' : Text}
    (hahead : ahead 3 t = ahead 3 t') (h : lengthFrom layers skip n (s ++ t) = .ok (n + s.length)) :
    lengthFrom layers skip n (s ++ t') = .ok (n + s.length) := by
  have hcost := closingCost_le h
  -- By induction on the literal; what must be read to close it bounds how far each step looks.
  induction s generalizing layers skip n with
  | nil =>
      have hskip : skip = 0 := by
        rw [List.length_nil] at hcost
        omega
      subst hskip
      have hopen : layers = [] := by
        cases t with
        | nil =>
            rw [List.append_nil, lengthFrom] at h
            split at h
            · next hc =>
                simp only [Bool.and_eq_true, List.isEmpty_iff] at hc
                exact hc.1
            · cases h
        | cons c t =>
            rw [List.nil_append, lengthFrom] at h
            split at h
            · next hc => exact List.isEmpty_iff.mp hc
            · split at h
              · cases h
              · have hle := lengthFrom_ge h
                rw [List.length_nil] at hle
                omega
      subst hopen
      cases t' <;> rfl
  | cons c s ih =>
      have hlength : n + (c :: s).length = n + 1 + s.length := by
        rw [List.length_cons]
        omega
      rw [List.cons_append] at h ⊢
      rw [hlength] at h ⊢
      cases skip with
      | succ skip =>
          rw [lengthFrom] at h ⊢
          exact ih h (closingCost_le h)
      | zero =>
          rw [lengthFrom] at h ⊢
          split at h
          · injection h with h
            omega
          · next hopen =>
              rw [if_neg hopen]
              split at h
              · cases h
              · next layers' skip' hstep =>
                  have hend := closingCost_le h
                  rw [step_append hahead hstep (by omega)]
                  exact ih h hend

theorem length_append {s t t' : Text} (hahead : ahead 3 t = ahead 3 t')
    (h : length (s ++ t) = .ok s.length) : length (s ++ t') = .ok s.length := by
  have hge := lengthFrom_ge h
  have hquotes : 0 < (quotes (opensMultiline ((s ++ t).drop
      (runLength (· == '#') (s ++ t))))).length := by
    unfold quotes
    split <;> simp
  have hhashes : runLength (· == '#') (s ++ t') = runLength (· == '#') (s ++ t) :=
    runLength_append_of_lt (by omega) t'
  have hopens : opensMultiline ((s ++ t').drop (runLength (· == '#') (s ++ t'))) =
      opensMultiline ((s ++ t).drop (runLength (· == '#') (s ++ t))) := by
    rw [hhashes, List.drop_append_of_le_length (by omega),
      List.drop_append_of_le_length (by omega)]
    exact (startsWith_append (fun _ => stopsWord_of_mem_quotes) hahead (by simp [quotes])).symm
  unfold length at h ⊢
  dsimp only at h ⊢
  rw [hopens, hhashes]
  rw [← Nat.zero_add s.length] at h ⊢
  exact lengthFrom_append hahead h

theorem lengthFrom_le {layers : List Layer} {skip n m : Nat} {t : Text}
    (h : lengthFrom layers skip n t = .ok m) : m ≤ n + t.length := by
  fun_induction lengthFrom layers skip n t with
  | case1 =>
      cases h
      exact Nat.le_refl _
  | case2 => cases h
  | case3 layers n c t skip ih =>
      have hle := ih h
      rw [List.length_cons]
      omega
  | case4 =>
      cases h
      exact Nat.le_add_right _ _
  | case5 => cases h
  | case6 layers n c t hopen layers' skip' hstep ih =>
      have hle := ih h
      rw [List.length_cons]
      omega

theorem length_le {t : Text} {n : Nat} (h : length t = .ok n) : n ≤ t.length := by
  have hle := lengthFrom_le h
  rwa [Nat.zero_add] at hle

theorem opensAt_append {t t' : Text} (h : opensAt t = opensAt t') (s : Text) :
    opensAt (s ++ t) = opensAt (s ++ t') := by
  induction s with
  | nil => exact h
  | cons c s ih => rw [List.cons_append, List.cons_append, opensAt_cons, opensAt_cons, ih]

theorem opensAt_of_quiet {t : Text} (h : Quiet t) : opensAt t = false := by
  cases t with
  | nil => rfl
  | cons c t =>
      have hne : ∀ d, stopsWord d = false → (c == d) = false := by
        intro d hd
        rw [beq_eq_false_iff_ne]
        rintro rfl
        exact Bool.noConfusion (hd.symm.trans (h c rfl))
      rw [opensAt_cons, hne '#' rfl, hne '"' rfl]
      rfl

end Literal
end ForceTry

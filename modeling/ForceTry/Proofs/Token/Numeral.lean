import ForceTry.Proofs.Text.Ahead

/-!
# Numbers in front of other texts

A number literal looks at three characters of the word behind it: a fraction or an exponent needs a
digit behind its sign, and so does a base other than ten.
-/

namespace ForceTry
namespace Numeral

open ForceTry.Text

theorem withinWord_of_stops {p : Char → Bool}
    (h : ([' ', '\t', '\n', '\r', ';', '\x7b', '\x7d'].any p) = false) : WithinWord p := by
  intro c hc
  have hmem : c ∈ [' ', '\t', '\n', '\r', ';', '\x7b', '\x7d'] := by
    simpa [stopsWord, or_assoc] using hc
  simpa using List.any_eq_false.mp h c hmem

theorem withinWord_isDigit : WithinWord Char.isDigit := withinWord_of_stops rfl

theorem withinWord_isHex : WithinWord isHex := withinWord_of_stops rfl

theorem withinWord_isOctal : WithinWord isOctal := withinWord_of_stops rfl

theorem withinWord_isBinary : WithinWord isBinary := withinWord_of_stops rfl

theorem withinWord_isDecimal : WithinWord isDecimal := withinWord_of_stops rfl

/-!
# Fractions and exponents
-/

theorem fractionLength_cons (isFirst isRest : Char → Bool) (a b : Char) (t : Text) :
    fractionLength isFirst isRest (a :: b :: t) =
      if a == '.' && isFirst b then 2 + runLength isRest t else 0 := by
  unfold fractionLength
  split
  · next heq =>
      cases heq
      rfl
  · next hne =>
      have ha : (a == '.') = false := by
        rw [beq_eq_false_iff_ne]
        rintro rfl
        exact hne b t rfl
      rw [ha]
      rfl

theorem fractionLength_of_short (isFirst isRest : Char → Bool) {t : Text} (h : t.length < 2) :
    fractionLength isFirst isRest t = 0 := by
  unfold fractionLength
  split
  · simp only [List.length_cons] at h
    omega
  · rfl

theorem fractionLength_append_quiet {isFirst isRest : Char → Bool} (hfirst : WithinWord isFirst)
    (hrest : WithinWord isRest) (s : Text) {t : Text} (h : Quiet t) :
    fractionLength isFirst isRest (s ++ t) = fractionLength isFirst isRest s := by
  match s, t with
  | a :: b :: s, t =>
      rw [List.cons_append, List.cons_append, fractionLength_cons, fractionLength_cons,
        runLength_append_quiet hrest s h]
  | s, [] => rw [List.append_nil]
  | [a], c :: t =>
      rw [List.singleton_append, fractionLength_cons, hfirst c (h c rfl), Bool.and_false,
        fractionLength_of_short _ _ (by simp)]
      rfl
  | [], [c] => rw [fractionLength_of_short _ _ (by simp), fractionLength_of_short _ _ (by simp)]
  | [], c :: d :: t =>
      have hc : (c == '.') = false := by
        rw [beq_eq_false_iff_ne]
        rintro rfl
        exact absurd (h '.' rfl) (by decide)
      rw [List.nil_append, fractionLength_cons, hc]
      rfl

theorem looksAhead_fractionLength {isFirst isRest : Char → Bool} (hfirst : WithinWord isFirst)
    (hrest : WithinWord isRest) : LooksAhead 3 (fractionLength isFirst isRest) := by
  apply looksAhead_of_long (n := 1) 2
  · exact fun s t h => fractionLength_append_quiet hfirst hrest s h
  · intro s t t' hlength hahead hle
    match s, hlength with
    | a :: b :: s, _ =>
        rw [List.cons_append, List.cons_append, fractionLength_cons] at hle ⊢
        rw [List.cons_append, List.cons_append, fractionLength_cons]
        cases hc : (a == '.' && isFirst b) with
        | false => rfl
        | true =>
            rw [hc, if_pos rfl, List.length_cons, List.length_cons] at hle
            rw [if_pos rfl, if_pos rfl,
              looksAhead_runLength hrest 0 s t t' hahead (by omega)]

theorem exponentLength_cons (lower upper a b : Char) (t : Text) :
    exponentLength lower upper (a :: b :: t) =
      if a == lower || a == upper then
        if b == '+' || b == '-' then
          if runLength isDecimal t = 0 then 0 else runLength isDecimal t + 2
        else if runLength isDecimal (b :: t) = 0 then 0 else runLength isDecimal (b :: t) + 1
      else 0 := by
  rw [exponentLength]
  cases b == '+' || b == '-' <;> rfl

theorem exponentLength_append_quiet {lower upper : Char} (hlower : stopsWord lower = false)
    (hupper : stopsWord upper = false) (s : Text) {t : Text} (h : Quiet t) :
    exponentLength lower upper (s ++ t) = exponentLength lower upper s := by
  have hrun : ∀ s, runLength isDecimal (s ++ t) = runLength isDecimal s :=
    fun s => runLength_append_quiet withinWord_isDecimal s h
  match s, t with
  | a :: b :: s, t =>
      rw [List.cons_append, List.cons_append, exponentLength_cons, exponentLength_cons, hrun s,
        ← List.cons_append, hrun (b :: s)]
  | s, [] => rw [List.append_nil]
  | [a], c :: t =>
      have hsign : (c == '+' || c == '-') = false := by
        rw [Bool.or_eq_false_iff, beq_eq_false_iff_ne, beq_eq_false_iff_ne]
        constructor
        · rintro rfl
          exact absurd (h '+' rfl) (by decide)
        · rintro rfl
          exact absurd (h '-' rfl) (by decide)
      rw [List.singleton_append, exponentLength_cons, hsign,
        runLength_of_quiet withinWord_isDecimal h]
      simp [exponentLength]
  | [], [c] => rfl
  | [], c :: d :: t =>
      have hletter : (c == lower || c == upper) = false := by
        rw [Bool.or_eq_false_iff, beq_eq_false_iff_ne, beq_eq_false_iff_ne]
        constructor
        · rintro rfl
          exact Bool.noConfusion (hlower.symm.trans (h c rfl))
        · rintro rfl
          exact Bool.noConfusion (hupper.symm.trans (h c rfl))
      rw [List.nil_append, exponentLength_cons, hletter]
      rfl

theorem looksAhead_exponentLength {lower upper : Char} (hlower : stopsWord lower = false)
    (hupper : stopsWord upper = false) : LooksAhead 3 (exponentLength lower upper) := by
  apply looksAhead_of_long (n := 1) 2
  · exact fun s t h => exponentLength_append_quiet hlower hupper s h
  · intro s t t' hlength hahead hle
    have hrun := looksAhead_runLength withinWord_isDecimal 0
    match s, hlength with
    | a :: b :: s, _ =>
        rw [List.cons_append, List.cons_append, exponentLength_cons, List.length_cons,
          List.length_cons] at hle
        rw [List.cons_append, List.cons_append, List.cons_append, List.cons_append,
          exponentLength_cons, exponentLength_cons]
        split
        · next hletter =>
            rw [if_pos hletter] at hle
            split
            · next hsign =>
                rw [if_pos hsign] at hle
                have hdigits : runLength isDecimal (s ++ t) ≤ s.length := by
                  split at hle <;> omega
                rw [hrun s t t' hahead hdigits]
            · next hsign =>
                rw [if_neg hsign] at hle
                have hdigits : runLength isDecimal (b :: s ++ t) ≤ (b :: s).length := by
                  rw [List.length_cons, List.cons_append]
                  split at hle <;> omega
                have hsame := hrun (b :: s) t t' hahead hdigits
                rw [List.cons_append, List.cons_append] at hsame
                rw [hsame]
        · rfl

/-!
# Number literals
-/

theorem realLength_append {whole : Nat} {isFirst isRest : Char → Bool} {lower upper : Char}
    (hfirst : WithinWord isFirst) (hrest : WithinWord isRest) (hlower : stopsWord lower = false)
    (hupper : stopsWord upper = false) {s t t' : Text} (hahead : ahead 3 t = ahead 3 t')
    (hle : realLength whole isFirst isRest lower upper (s ++ t) ≤ s.length) :
    realLength whole isFirst isRest lower upper (s ++ t') =
      realLength whole isFirst isRest lower upper (s ++ t) := by
  simp only [realLength] at hle ⊢
  have hdrop : ∀ n, n ≤ s.length → ∀ t : Text, (s ++ t).drop n = s.drop n ++ t :=
    fun n hn t => List.drop_append_of_le_length hn
  have hwhole : whole ≤ s.length := by omega
  have hfraction : fractionLength isFirst isRest ((s ++ t').drop whole) =
      fractionLength isFirst isRest ((s ++ t).drop whole) := by
    rw [hdrop whole hwhole, hdrop whole hwhole] at *
    apply looksAhead_fractionLength hfirst hrest _ _ _ hahead
    rw [List.length_drop]
    omega
  rw [hfraction]
  have hn : whole + fractionLength isFirst isRest ((s ++ t).drop whole) ≤ s.length := by omega
  rw [hdrop _ hn] at hle ⊢
  rw [hdrop _ hn, looksAhead_exponentLength hlower hupper _ _ _ hahead]
  rw [List.length_drop]
  omega

theorem basedLength?_cons (a b : Char) (t : Text) :
    basedLength? (a :: b :: t) =
      if a == '0' then
        if b == 'x' then
          if runLength isHex t = 0 then none
          else some (realLength (2 + runLength isHex t) isHex isHex 'p' 'P' (a :: b :: t))
        else if b == 'o' then
          if runLength isOctal t = 0 then none else some (2 + runLength isOctal t)
        else if b == 'b' then
          if runLength isBinary t = 0 then none else some (2 + runLength isBinary t)
        else none
      else none := by
  unfold basedLength?
  split
  · next base r heq =>
      cases heq
      rw [if_pos (beq_self_eq_true '0')]
      split
      · cases runLength isHex t <;> rfl
      split
      · cases runLength isOctal t <;> rfl
      split
      · cases runLength isBinary t <;> rfl
      · rfl
  · next hne =>
      have ha : (a == '0') = false := by
        rw [beq_eq_false_iff_ne]
        rintro rfl
        exact hne b t rfl
      rw [ha]
      rfl

theorem basedLength?_of_quiet (a : Char) {t : Text} (h : Quiet t) : basedLength? (a :: t) = none := by
  match t with
  | [] =>
      unfold basedLength?
      split
      · next heq => cases heq
      · rfl
  | b :: t =>
      have hbase : ∀ d, stopsWord d = false → (b == d) = false := by
        intro d hd
        rw [beq_eq_false_iff_ne]
        rintro rfl
        exact Bool.noConfusion (hd.symm.trans (h b rfl))
      rw [basedLength?_cons, hbase 'x' rfl, hbase 'o' rfl, hbase 'b' rfl]
      cases a == '0' <;> rfl

theorem basedLength?_eq_none (a : Char) {t t' : Text} (hahead : ahead 3 t = ahead 3 t')
    (h : basedLength? (a :: t) = none) : basedLength? (a :: t') = none := by
  rcases ahead_cases hahead with ⟨_, ht'⟩ | ⟨b, u, u', rfl, rfl, _, hu⟩
  · exact basedLength?_of_quiet a ht'
  · have hzero : ∀ p, WithinWord p → runLength p u = 0 → runLength p u' = 0 := by
      intro p hp hrun
      rw [← hrun]
      exact looksAhead_runLength hp 1 [] u u' hu (Nat.le_of_eq hrun)
    rw [basedLength?_cons] at h ⊢
    split
    · next ha =>
        rw [if_pos ha] at h
        split
        · next hx =>
            rw [if_pos hx] at h
            exact if_pos (hzero _ withinWord_isHex (by simpa using h))
        next hx =>
        rw [if_neg hx] at h
        split
        · next ho =>
            rw [if_pos ho] at h
            exact if_pos (hzero _ withinWord_isOctal (by simpa using h))
        next ho =>
        rw [if_neg ho] at h
        split
        · next hb =>
            rw [if_pos hb] at h
            exact if_pos (hzero _ withinWord_isBinary (by simpa using h))
        · rfl
    · rfl

theorem basedLength?_append (a b : Char) (s : Text) {t t' : Text} (hahead : ahead 3 t = ahead 3 t')
    (hle : ∀ n, basedLength? (a :: b :: (s ++ t)) = some n → n ≤ s.length + 2) :
    basedLength? (a :: b :: (s ++ t')) = basedLength? (a :: b :: (s ++ t)) := by
  have hrun : ∀ p, WithinWord p → runLength p (s ++ t) ≤ s.length →
      runLength p (s ++ t') = runLength p (s ++ t) :=
    fun p hp => looksAhead_runLength hp 2 s t t' hahead
  rw [basedLength?_cons] at hle ⊢
  rw [basedLength?_cons]
  cases ha : a == '0' with
  | false => rfl
  | true =>
      rw [ha] at hle
      simp only [if_true] at hle ⊢
      split
      · next hx =>
          simp only [hx, if_true] at hle
          by_cases hzero : runLength isHex (s ++ t) = 0
          · rw [hrun _ withinWord_isHex (by omega), hzero]
            rfl
          · have hn := hle _ (if_neg hzero)
            have hwhole : runLength isHex (s ++ t) ≤ s.length := by
              simp only [realLength] at hn
              omega
            have hreal := @realLength_append (2 + runLength isHex (s ++ t)) isHex isHex 'p' 'P'
              withinWord_isHex withinWord_isHex rfl rfl (a :: b :: s) t t' hahead hn
            simp only [List.cons_append] at hreal
            rw [hrun _ withinWord_isHex hwhole, if_neg hzero, if_neg hzero, hreal]
      split
      · next hx ho =>
          simp only [hx, ho, if_true, if_false, Bool.false_eq_true] at hle
          by_cases hzero : runLength isOctal (s ++ t) = 0
          · rw [hrun _ withinWord_isOctal (by omega), hzero]
          · have hn := hle _ (if_neg hzero)
            rw [hrun _ withinWord_isOctal (by omega)]
      split
      · next hx ho hb =>
          simp only [hx, ho, hb, if_true, if_false, Bool.false_eq_true] at hle
          by_cases hzero : runLength isBinary (s ++ t) = 0
          · rw [hrun _ withinWord_isBinary (by omega), hzero]
          · have hn := hle _ (if_neg hzero)
            rw [hrun _ withinWord_isBinary (by omega)]
      · rfl

theorem two_lt_of_basedLength? {a : Char} {t : Text} {n : Nat}
    (h : basedLength? (a :: t) = some n) : 2 < n := by
  cases t with
  | nil =>
      rw [basedLength?_of_quiet a quiet_nil] at h
      cases h
  | cons b t =>
      rw [basedLength?_cons] at h
      simp only [realLength] at h
      split at h
      · split at h
        · split at h <;> cases h
          omega
        split at h
        · split at h <;> cases h
          omega
        split at h
        · split at h <;> cases h
          omega
        · cases h
      · cases h

theorem length_cons (a : Char) (t : Text) :
    length (a :: t) =
      if a.isDigit then
        (basedLength? (a :: t)).getD
          (realLength (runLength isDecimal (a :: t)) Char.isDigit isDecimal 'e' 'E' (a :: t))
      else 0 := by
  rw [length]
  cases basedLength? (a :: t) <;> rfl

theorem length_append (a : Char) (s : Text) {t t' : Text} (hahead : ahead 3 t = ahead 3 t')
    (hle : length (a :: (s ++ t)) ≤ s.length + 1) :
    length (a :: (s ++ t')) = length (a :: (s ++ t)) := by
  rw [length_cons] at hle ⊢
  rw [length_cons]
  cases ha : a.isDigit with
  | false => rfl
  | true =>
      rw [ha, if_pos rfl] at hle
      rw [if_pos rfl, if_pos rfl]
      have hbased : basedLength? (a :: (s ++ t')) = basedLength? (a :: (s ++ t)) := by
        cases s with
        | nil =>
            rw [List.nil_append, List.nil_append] at *
            cases hnone : basedLength? (a :: t) with
            | none => exact basedLength?_eq_none a hahead hnone
            | some n =>
                have hn := two_lt_of_basedLength? hnone
                rw [hnone, Option.getD_some] at hle
                rw [List.length_nil] at hle
                omega
        | cons b s =>
            apply basedLength?_append a b s hahead
            intro n hn
            rw [List.cons_append, hn, Option.getD_some, List.length_cons] at hle
            exact hle
      rw [hbased]
      cases hnone : basedLength? (a :: (s ++ t)) with
      | some n => rfl
      | none =>
          rw [hnone, Option.getD_none] at hle
          rw [Option.getD_none, Option.getD_none]
          have hwhole : runLength isDecimal (a :: (s ++ t)) ≤ (a :: s).length := by
            simp only [realLength, List.length_cons] at hle ⊢
            omega
          have hrun := looksAhead_runLength withinWord_isDecimal 2 (a :: s) t t' hahead hwhole
          rw [List.cons_append, List.cons_append] at hrun
          rw [hrun]
          exact @realLength_append _ Char.isDigit isDecimal 'e' 'E' withinWord_isDigit
            withinWord_isDecimal rfl rfl (a :: s) t t' hahead hle

/-!
# A number literal is part of the text
-/

theorem fractionLength_le (isFirst isRest : Char → Bool) (t : Text) :
    fractionLength isFirst isRest t ≤ t.length := by
  match t with
  | [] => exact Nat.le_refl 0
  | [a] =>
      rw [fractionLength_of_short _ _ (by simp)]
      exact Nat.zero_le _
  | a :: b :: t =>
      have hrun := runLength_le isRest t
      rw [fractionLength_cons, List.length_cons, List.length_cons]
      split <;> omega

theorem exponentLength_le (lower upper : Char) (t : Text) :
    exponentLength lower upper t ≤ t.length := by
  match t with
  | [] => exact Nat.le_refl 0
  | [a] => exact Nat.zero_le _
  | a :: b :: t =>
      have hrun := runLength_le isDecimal t
      have hrun' := runLength_le isDecimal (b :: t)
      rw [exponentLength_cons, List.length_cons, List.length_cons]
      rw [List.length_cons] at hrun'
      split
      · split
        · split <;> omega
        · split <;> omega
      · exact Nat.zero_le _

theorem realLength_le {whole : Nat} {t : Text} (h : whole ≤ t.length) (isFirst isRest : Char → Bool)
    (lower upper : Char) : realLength whole isFirst isRest lower upper t ≤ t.length := by
  have hfraction := fractionLength_le isFirst isRest (t.drop whole)
  have hexponent := exponentLength_le lower upper
    (t.drop (whole + fractionLength isFirst isRest (t.drop whole)))
  rw [List.length_drop] at hfraction hexponent
  simp only [realLength]
  omega

theorem basedLength?_le {t : Text} {n : Nat} (h : basedLength? t = some n) : n ≤ t.length := by
  match t with
  | [] => cases h
  | [a] =>
      rw [basedLength?_of_quiet a quiet_nil] at h
      cases h
  | a :: b :: t =>
      have hoctal := runLength_le isOctal t
      have hbinary := runLength_le isBinary t
      have hreal : realLength (2 + runLength isHex t) isHex isHex 'p' 'P' (a :: b :: t) ≤
          (a :: b :: t).length := by
        apply realLength_le
        have hhex := runLength_le isHex t
        rw [List.length_cons, List.length_cons]
        omega
      rw [basedLength?_cons] at h
      rw [List.length_cons, List.length_cons] at hreal ⊢
      split at h
      · split at h
        · split at h <;> cases h
          exact hreal
        split at h
        · split at h <;> cases h
          omega
        split at h
        · split at h <;> cases h
          omega
        · cases h
      · cases h

theorem length_le (t : Text) : length t ≤ t.length := by
  cases t with
  | nil => exact Nat.le_refl 0
  | cons a t =>
      rw [length_cons]
      split
      · cases hbased : basedLength? (a :: t) with
        | some n => exact basedLength?_le hbased
        | none => exact realLength_le (runLength_le _ _) _ _ _ _
      · exact Nat.zero_le _

end Numeral
end ForceTry

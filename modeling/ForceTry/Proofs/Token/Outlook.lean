import ForceTry.Proofs.Token.Literal
import ForceTry.Proofs.Token.Numeral
import ForceTry.Proofs.Trivia.Holds

/-!
# Tokens in front of other texts

A token looks at three characters of the word behind it, and a `#` looks whether a literal opens
behind further ones.  Two texts that agree on this are the same outlook, and a token is read again in
front of a text with the same outlook.  Only a placeholder or a name between backquotes that is never
closed looks at the whole text behind it.
-/

namespace ForceTry

/-- The text `t'` looks like `t` to the tokens in front of it: it starts with the same characters of a
word, opens a literal behind the same signs, and ends a line where `t` does. -/
structure Outlook (t t' : Text) : Prop where
  ahead : Text.ahead 3 t = Text.ahead 3 t'
  opens : Literal.opensAt t = Literal.opensAt t'
  line : Text.EndsLine t → Text.EndsLine t'

namespace Outlook

open ForceTry.Text

theorem refl (t : Text) : Outlook t t := ⟨rfl, rfl, id⟩

theorem append {t t' : Text} (h : Outlook t t') (s : Text) : Outlook (s ++ t) (s ++ t') := by
  refine ⟨ahead_append h.ahead s, Literal.opensAt_append h.opens s, ?_⟩
  cases s with
  | nil => exact h.line
  | cons c s => exact id

theorem of_quiet {t t' : Text} (ht : Quiet t) (ht' : Quiet t')
    (hline : EndsLine t → EndsLine t') : Outlook t t' := by
  refine ⟨?_, ?_, hline⟩
  · rw [ahead_of_quiet ht, ahead_of_quiet ht']
  · rw [Literal.opensAt_of_quiet ht, Literal.opensAt_of_quiet ht']

theorem of_stop {c : Char} (hc : stopsWord c = true) (s t t' : Text) :
    Outlook (s ++ c :: t) (s ++ c :: t') :=
  (of_quiet (quiet_cons hc t) (quiet_cons hc t') id).append s

end Outlook

namespace Token
open ForceTry.Text

def opensComment (t : Text) : Bool := t.head? == some '/' || t.head? == some '*'

theorem operatorTail_cons (c : Char) (t : Text) :
    operatorTail (c :: t) =
      if isOperatorChar c && !(c == '/' && opensComment t) then operatorTail t + 1 else 0 := by
  rw [operatorTail.eq_def]
  dsimp only
  congr 3
  split
  · rfl
  · rfl
  · next hline hblock =>
      cases t with
      | nil => simp [opensComment]
      | cons d t =>
          have hdone : c = '/' → ¬ d = '/' ∧ ¬ d = '*' := by
            rintro rfl
            exact ⟨fun hd => hline t rfl (by rw [hd]), fun hd => hblock t rfl (by rw [hd])⟩
          simpa [opensComment, imp_iff_not_or] using hdone

theorem opensComment_append {n : Nat} {t t' : Text} (h : ahead (n + 1) t = ahead (n + 1) t')
    (s : Text) : opensComment (s ++ t) = opensComment (s ++ t') := by
  cases s with
  | cons c s => rfl
  | nil =>
      have hslash := head?_of_ahead h (d := '/') rfl
      have hstar := head?_of_ahead h (d := '*') rfl
      rw [Bool.eq_iff_iff]
      simp only [opensComment, List.nil_append, Bool.or_eq_true, beq_iff_eq, hslash, hstar]

theorem withinWord_isOperatorChar : WithinWord isOperatorChar := Numeral.withinWord_of_stops rfl

theorem withinWord_isIdentifierChar : WithinWord isIdentifierChar := Numeral.withinWord_of_stops rfl

theorem operatorTail_of_quiet {t : Text} (h : Quiet t) : operatorTail t = 0 := by
  cases t with
  | nil => rfl
  | cons c t =>
      rw [operatorTail_cons, withinWord_isOperatorChar c (h c rfl)]
      rfl

theorem looksAhead_operatorTail : LooksAhead 2 operatorTail := by
  intro s t t' hahead hle
  induction s with
  | nil =>
      rw [List.nil_append, List.nil_append] at *
      rcases ahead_cases hahead with ⟨ht, ht'⟩ | ⟨c, u, u', rfl, rfl, _, hu⟩
      · rw [operatorTail_of_quiet ht, operatorTail_of_quiet ht']
      · have hcomment := opensComment_append hu []
        rw [List.nil_append, List.nil_append] at hcomment
        rw [operatorTail_cons] at hle ⊢
        rw [operatorTail_cons, ← hcomment]
        split
        · next hc =>
            rw [if_pos hc] at hle
            cases hle
        · rfl
  | cons c s ih =>
      rw [List.cons_append, operatorTail_cons] at hle ⊢
      rw [List.cons_append, operatorTail_cons, ← opensComment_append hahead s]
      split
      · next hc =>
          rw [if_pos hc] at hle
          rw [ih (Nat.le_of_succ_le_succ hle)]
      · rfl

/-!
# Reading a token again
-/

theorem placeholderLength?_cons (c d : Char) (t : Text) :
    placeholderLength? (c :: d :: t) =
      if c == '<' && d == '#' then (find? ['#', '>'] t).map (· + 4) else none := by
  unfold placeholderLength?
  split
  · next heq =>
      cases heq
      rfl
  · next hne =>
      have hcd : (c == '<' && d == '#') = false := by
        rw [Bool.and_eq_false_imp, beq_iff_eq, beq_eq_false_iff_ne]
        rintro rfl rfl
        exact hne t rfl
      rw [hcd]
      rfl

theorem placeholderLength?_of_head {t : Text} (h : t.head? ≠ some '#') (c : Char) :
    placeholderLength? (c :: t) = none := by
  cases t with
  | nil =>
      unfold placeholderLength?
      split
      · next heq => cases heq
      · rfl
  | cons d t =>
      have hd : (d == '#') = false := by
        rw [beq_eq_false_iff_ne]
        rintro rfl
        exact h rfl
      rw [placeholderLength?_cons, hd, Bool.and_false]
      rfl

theorem measure_less (marks : Bool) {t : Text} (h : placeholderLength? ('<' :: t) = none) :
    measure marks '<' t = .ok (.operatorSign, operatorTail t + 1) :=
  measure_eq_ok_iff.mpr (.plain (fun _ => by decide) (.operator rfl h fun hdot => absurd hdot (by decide)))

theorem measure_placeholder (marks : Bool) {t : Text} {n : Nat}
    (h : placeholderLength? ('<' :: t) = some n) :
    measure marks '<' t = .ok (.editorPlaceholder, n) :=
  measure_eq_ok_iff.mpr (.plain (fun _ => by decide) (.placeholder h))

theorem placeholderLength?_append {marks : Bool} {c : Char} {s t t' : Text} {kind : TokenKind}
    (hless : c = '<' → s = [] → t.head? ≠ some '#') (hahead : ahead 3 t = ahead 3 t')
    (h : measure marks c (s ++ t) = .ok (kind, s.length + 1)) :
    placeholderLength? (c :: (s ++ t')) = placeholderLength? (c :: (s ++ t)) := by
  by_cases hc : c = '<'
  · subst hc
    cases s with
    | nil =>
        have ht := hless rfl rfl
        have ht' := mt (head?_of_ahead hahead (d := '#') rfl).mpr ht
        rw [List.nil_append, List.nil_append, placeholderLength?_of_head ht,
          placeholderLength?_of_head ht']
    | cons d s =>
        rw [List.cons_append, List.cons_append, placeholderLength?_cons, placeholderLength?_cons]
        split
        · next hsign =>
            have hd : d = '#' := by simpa using hsign
            subst hd
            cases hfind : find? ['#', '>'] (s ++ t) with
            | some i =>
                have hlength : placeholderLength? ('<' :: '#' :: (s ++ t)) = some (i + 4) := by
                  rw [placeholderLength?_cons, if_pos hsign, hfind]
                  rfl
                rw [List.cons_append, measure_placeholder marks hlength] at h
                injection h with h
                injection h with _ hn
                have hle : i + 2 ≤ s.length := by
                  rw [List.length_cons] at hn
                  omega
                rw [find?_append hfind hle]
            | none =>
                have hnone : placeholderLength? ('<' :: '#' :: (s ++ t)) = none := by
                  rw [placeholderLength?_cons, if_pos hsign, hfind]
                  rfl
                rw [List.cons_append, measure_less marks hnone, operatorTail_cons] at h
                injection h with h
                injection h with _ hn
                cases hn
        · rfl
  · rw [placeholderLength?_of_ne hc, placeholderLength?_of_ne hc]

theorem backquotedLength_append {s : Text} (h : find? ['\x60'] s ≠ none) (t t' : Text) :
    backquotedLength (s ++ t') = backquotedLength (s ++ t) := by
  rcases Option.ne_none_iff_exists'.mp h with ⟨i, hi⟩
  have hfind : ∀ t, find? ['\x60'] (s ++ t) = some i := by
    intro t
    have hself : find? ['\x60'] (s ++ []) = some i := by rw [List.append_nil, hi]
    exact find?_append hself (find?_le hi) t
  rw [backquotedLength, backquotedLength, hfind t, hfind t']

theorem Stray.append {c : Char} {s t t' : Text} (h : Stray c (s ++ t)) (hahead : ahead 3 t = ahead 3 t') :
    Stray c (s ++ t') := by
  refine { h with number := ?_ }
  rw [← h.number]
  apply Numeral.length_append c s hahead
  rw [h.number]
  exact Nat.zero_le _

theorem take_token (c : Char) (s t : Text) : (c :: (s ++ t)).take (s.length + 1) = c :: s :=
  @List.take_left _ (c :: s) t

theorem Plain.append {c : Char} {s t t' : Text} {kind : TokenKind} {n : Nat}
    (h : Plain c (s ++ t) kind n) (hn : n = s.length + 1) (ho : Outlook t t')
    (hplaceholder : placeholderLength? (c :: (s ++ t')) = placeholderLength? (c :: (s ++ t)))
    (hname : c = '\x60' → find? ['\x60'] s ≠ none) : Plain c (s ++ t') kind n := by
  have hword : ∀ {m}, runLength isIdentifierChar (s ++ t) + 1 = m → m = s.length + 1 →
      runLength isIdentifierChar (s ++ t') + 1 = m := by
    rintro m rfl hm
    rw [looksAhead_runLength withinWord_isIdentifierChar 2 s t t' ho.ahead (by omega)]
  have hdots : startsWith ['.'] (s ++ t') = startsWith ['.'] (s ++ t) :=
    (startsWith_append (List.forall_mem_singleton.mpr rfl) ho.ahead (by simp)).symm
  cases h with
  | placeholder hlength => exact .placeholder (hplaceholder.trans hlength)
  | punctuation hkind => exact .punctuation hkind
  | literal hopens hlength =>
      refine .literal ((Literal.opensAt_append ho.opens (c :: s)).symm.trans hopens) ?_
      subst hn
      exact @Literal.length_append (c :: s) t t' ho.ahead hlength
  | pound hc hopens =>
      rw [← hword rfl hn]
      exact .pound hc ((Literal.opensAt_append ho.opens s).symm.trans hopens)
  | atSign hc =>
      rw [← hword rfl hn]
      exact .atSign hc
  | quoted hc =>
      rw [← backquotedLength_append (hname hc) t t']
      exact .quoted hc
  | word hc hrun =>
      have hagain := Plain.word hc (hword hrun hn)
      subst hn
      rwa [take_token] at hagain ⊢
  | number hlength hpos =>
      have hagain : Numeral.length (c :: (s ++ t')) = n := by
        rw [← hlength]
        exact Numeral.length_append c s ho.ahead (Nat.le_of_eq (hlength.trans hn))
      have hagain := Plain.number hagain hpos
      subst hn
      rwa [take_token] at hagain ⊢
  | period hc hr => exact .period hc (hdots.trans hr)
  | operator hc hnone hperiod =>
      rw [← looksAhead_operatorTail s t t' (ahead_of_le ho.ahead (by decide)) (by omega)]
      exact .operator hc (hplaceholder.trans hnone) fun hdot => hdots.trans (hperiod hdot)
  | unknown hstray => exact .unknown (hstray.append ho.ahead)

theorem measure_append {marks : Bool} {c : Char} {s t t' : Text} {kind : TokenKind}
    (hless : c = '<' → s = [] → t.head? ≠ some '#')
    (hname : c = '\x60' → find? ['\x60'] s ≠ none) (ho : Outlook t t')
    (h : measure marks c (s ++ t) = .ok (kind, s.length + 1)) :
    measure marks c (s ++ t') = .ok (kind, s.length + 1) := by
  have hplaceholder := placeholderLength?_append hless ho.ahead h
  rw [measure_eq_ok_iff] at h ⊢
  generalize hn : s.length + 1 = n at h ⊢
  cases h with
  | force hmarks hc => exact .force hmarks hc
  | optional hmarks hc => exact .optional hmarks hc
  | plain hmark h => exact .plain hmark (h.append hn.symm ho hplaceholder hname)

theorem operatorTail_le (t : Text) : operatorTail t ≤ t.length := by
  induction t with
  | nil => exact Nat.le_refl 0
  | cons c t ih =>
      rw [operatorTail_cons, List.length_cons]
      split <;> omega

theorem placeholderLength?_le {t : Text} {n : Nat} (h : placeholderLength? t = some n) :
    n ≤ t.length := by
  unfold placeholderLength? at h
  split at h
  · next r =>
      rcases Option.map_eq_some_iff.mp h with ⟨i, hi, rfl⟩
      have hle := find?_le hi
      simp only [List.length_cons, List.length_nil] at hle ⊢
      omega
  · cases h

theorem backquotedLength_le (t : Text) : backquotedLength t ≤ t.length + 1 := by
  unfold backquotedLength
  split
  · next i hi =>
      have hle := find?_le hi
      rw [List.length_singleton] at hle
      omega
  · exact Nat.le_refl _

theorem Plain.le {c : Char} {t : Text} {kind : TokenKind} {n : Nat} (h : Plain c t kind n) :
    n ≤ t.length + 1 := by
  have hword := runLength_le isIdentifierChar t
  cases h with
  | placeholder hlength => exact placeholderLength?_le hlength
  | literal _ hlength => exact Literal.length_le hlength
  | quoted => exact backquotedLength_le t
  | number hn => exact hn ▸ Numeral.length_le (c :: t)
  | operator => exact Nat.succ_le_succ (operatorTail_le t)
  | _ => omega

theorem measure_le {marks : Bool} {c : Char} {t : Text} {kind : TokenKind} {n : Nat}
    (h : measure marks c t = .ok (kind, n)) : n ≤ t.length + 1 := by
  cases measured_of_measure h with
  | plain _ h => exact h.le
  | _ => exact Nat.le_add_left 1 _

/-!
# Texts that start no trivia
-/

/-- A text starts no trivia when it does not start with a blank, a line break or a comment. -/
theorem next?_eq_none_iff (c : Char) (t : Text) :
    Piece.next? (c :: t) = none ↔
      c ≠ ' ' ∧ c ≠ '\t' ∧ c ≠ '\n' ∧ ¬ (c = '\r' ∧ t.head? = some '\n') ∧
        ¬ (c = '/' ∧ opensComment t = true) := by
  unfold Piece.next?
  split
  · next heq => cases heq; simp
  · next heq => cases heq; simp
  · next heq => cases heq; simp
  · next heq => cases heq; simp
  · next heq => cases heq; simp [opensComment]
  · next heq => cases heq; simp [opensComment]
  · next hspace htab hbreak hpair hline hblock =>
      refine iff_of_true rfl ⟨?_, ?_, ?_, ?_, ?_⟩
      · rintro rfl
        exact hspace t rfl
      · rintro rfl
        exact htab t rfl
      · rintro rfl
        exact hbreak t rfl
      · rintro ⟨rfl, ht⟩
        rcases List.head?_eq_some_iff.mp ht with ⟨u, rfl⟩
        exact hpair u rfl
      · rintro ⟨rfl, ht⟩
        simp only [opensComment, Bool.or_eq_true, beq_iff_eq, List.head?_eq_some_iff] at ht
        rcases ht with ⟨u, rfl⟩ | ⟨u, rfl⟩
        · exact hline u rfl
        · exact hblock u rfl

/-- A token starts no trivia in front of a text with the same outlook either, unless it is a carriage
return, which a line feed could follow. -/
theorem next?_append {c : Char} {s t t' : Text} (hreturn : c ≠ '\r') (ho : Outlook t t')
    (h : Piece.next? (c :: (s ++ t)) = none) : Piece.next? (c :: (s ++ t')) = none := by
  rw [next?_eq_none_iff] at h ⊢
  rcases h with ⟨hspace, htab, hbreak, _, hcomment⟩
  refine ⟨hspace, htab, hbreak, fun hc => hreturn hc.1, ?_⟩
  rw [← opensComment_append ho.ahead s]
  exact hcomment

end Token
end ForceTry

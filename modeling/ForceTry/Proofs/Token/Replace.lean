import ForceTry.Proofs.Token.Reread

/-!
# Tokens in the place of others

Some tokens of a text are replaced, and the text behind them changes as well.  The new tokens hold
before the new text if they held before the old one and it looks the same from where they stand.  What
the token in front sees must not change either; a semicolon or a brace sees nothing of what is behind
it, so there anything may follow.
-/

namespace ForceTry

def TokenKind.standsAlone : TokenKind → Bool
  | semicolon | leftBrace | rightBrace => true
  | _ => false

namespace Token

open ForceTry.Text

/-- A semicolon or a brace, which is read without a look at what is behind it. -/
def Free (t : Token) : Prop := ∃ c, t.text = [c] ∧ stopsWord c = true ∧ (punctuation? c).isSome = true

theorem ne_of_punctuation {c : Char} {kind : TokenKind} (h : punctuation? c = some kind) :
    ∀ d, punctuation? d = none → c ≠ d := by
  rintro d hd rfl
  rw [h] at hd
  cases hd

theorem measure_punctuation {c : Char} {kind : TokenKind} (h : punctuation? c = some kind)
    (marks : Bool) (r : Text) : measure marks c r = .ok (kind, 1) :=
  have hplain := ne_of_punctuation h
  measure_eq_ok_iff.mpr (.plain (fun _ => ⟨hplain _ rfl, hplain _ rfl⟩) (.punctuation h))

theorem found_punctuation {c : Char} {kind : TokenKind} (h : punctuation? c = some kind)
    (marks : Bool) (r : Text) : Found marks c [] r kind := by
  have hplain := ne_of_punctuation h
  refine ⟨measure_punctuation h marks r, ?_, hplain _ rfl, fun hc => absurd hc (hplain _ rfl),
    fun hc => absurd hc (hplain _ rfl)⟩
  rw [next?_eq_none_iff]
  exact ⟨hplain _ rfl, hplain _ rfl, hplain _ rfl, fun hc => hplain _ rfl hc.1,
    fun hc => hplain _ rfl hc.1⟩

theorem HoldsBefore.free {marks : Bool} {r : Text} {t : Token} (h : t.HoldsBefore marks r)
    (ht : t.Free) (marks' : Bool) (r' : Text) : t.HoldsBefore marks' r' := by
  rcases h with ⟨c, s, htext, hfound⟩
  rcases ht with ⟨d, htext', _, hsome⟩
  rw [htext] at htext'
  cases htext'
  rcases Option.isSome_iff_exists.mp hsome with ⟨kind, hkind⟩
  have hread := hfound.read
  rw [measure_punctuation hkind] at hread
  injection hread with hread
  injection hread with hkinds
  exact ⟨c, [], htext, hkinds ▸ found_punctuation hkind marks' r'⟩

theorem punctuation_of_measure {marks : Bool} {c : Char} {r : Text} {kind : TokenKind} {n : Nat}
    (h : measure marks c r = .ok (kind, n)) (hkind : kind.standsAlone = true) :
    punctuation? c = some kind ∧ n = 1 := by
  cases measured_of_measure h with
  | force => cases hkind
  | optional => cases hkind
  | plain _ h =>
      cases h with
      | punctuation hc => exact ⟨hc, rfl⟩
      | word => split at hkind <;> cases hkind
      | number => split at hkind <;> cases hkind
      | _ => cases hkind

theorem HoldsBefore.free_of_kind {marks : Bool} {r : Text} {t : Token} (h : t.HoldsBefore marks r)
    (hkind : t.kind.standsAlone = true) : t.Free := by
  rcases h with ⟨c, s, htext, hfound⟩
  rcases punctuation_of_measure hfound.read hkind with ⟨hc, hlength⟩
  have hs : s = [] := List.eq_nil_of_length_eq_zero (Nat.succ.inj hlength)
  refine ⟨c, by rw [htext, hs], ?_, by rw [hc]; rfl⟩
  generalize t.kind = kind at hc hkind
  unfold punctuation? at hc
  split at hc <;> cases hc <;> first | rfl | cases hkind

end Token

namespace Tokens

open ForceTry.Text

/-- Behind both tokens the same trivia lets a `!` or `?` mark a `try`. -/
def SameMarks (previous previous' : Option Token) : Prop :=
  ∀ gap, Token.marksBehind previous gap = Token.marksBehind previous' gap

theorem marksBehind_of_not_try {previous : Option Token}
    (h : ∀ p ∈ previous, p.isKeyword "try" = false) (gap : Trivia) :
    Token.marksBehind previous gap = false := by
  cases previous with
  | none => rfl
  | some p =>
      show (p.isKeyword "try" && _) = false
      rw [h p rfl, Bool.false_and]

theorem sameMarks_of_not_try {previous previous' : Option Token}
    (h : ∀ p ∈ previous, p.isKeyword "try" = false)
    (h' : ∀ p ∈ previous', p.isKeyword "try" = false) : SameMarks previous previous' := by
  intro gap
  rw [marksBehind_of_not_try h, marksBehind_of_not_try h']

/-- The text `r'` may take the place of `r` behind the token `previous`. -/
def Follows (previous : Option Token) (r r' : Text) : Prop :=
  ∀ t ∈ previous, Outlook r r' ∨ t.Free ∧ (EndsLine r → EndsLine r')

theorem Follows.line {t : Token} {r r' : Text} (h : Follows (some t) r r') :
    EndsLine r → EndsLine r' := by
  rcases h t rfl with ho | hfree
  · exact ho.line
  · exact hfree.2

theorem follows_of_outlook {r r' : Text} (h : Outlook r r') (previous : Option Token) :
    Follows previous r r' :=
  fun _ _ => .inl h

theorem outlook_text {t : Token} {r r' : Text} (h : Follows (some t) r r') :
    Outlook (t.text ++ r) (t.text ++ r') := by
  rcases h t rfl with ho | ⟨⟨c, htext, hstop, _⟩, _⟩
  · exact ho.append t.text
  · rw [htext]
    exact .of_stop hstop [] r r'

theorem outlook_of_follows {previous : Option Token} {r r' : Text} {ts : List Token}
    (hne : ts ≠ []) (h : Follows (lastToken previous ts) r r') :
    Outlook (codeOf ts ++ r) (codeOf ts ++ r') := by
  rcases List.eq_nil_or_concat ts with hnil | ⟨front, t, rfl⟩
  · exact absurd hnil hne
  rw [List.concat_eq_append] at h ⊢
  rw [lastToken_append] at h
  have hcode : ∀ r, codeOf (front ++ [t]) ++ r =
      (codeOf front ++ t.leading.code) ++ (t.text ++ (t.trailing.code ++ r)) := by
    intro r
    simp [codeOf_append, codeOf_cons, codeOf_nil, Token.code]
  have hbehind : Follows (some t) (t.trailing.code ++ r) (t.trailing.code ++ r') := by
    rintro t' ⟨⟩
    rcases h t rfl with ho | hfree
    · exact .inl (ho.append _)
    · refine .inr ⟨hfree.1, ?_⟩
      cases t.trailing.code with
      | nil => exact hfree.2
      | cons c s => exact id
  rw [hcode r, hcode r']
  exact (outlook_text hbehind).append _

theorem follows_append {previous : Option Token} {r r' : Text} {ts : List Token}
    (h : Follows (lastToken previous ts) r r') :
    Follows previous (codeOf ts ++ r) (codeOf ts ++ r') := by
  cases ts with
  | nil => exact h
  | cons t ts => exact follows_of_outlook (outlook_of_follows (List.cons_ne_nil t ts) h) previous

variable {previous previous' : Option Token} {r r' : Text}

theorem not_endsLine_of_holds {t : Token} {marks : Bool} {u : Text} (h : t.HoldsBefore marks u)
    (v : Text) : ¬ EndsLine (t.text ++ v) := by
  rcases h with ⟨c, s, htext, hfound⟩
  rw [htext]
  exact not_endsLine_cons hfound.staysInLine _

theorem endsLine_append_of_holds {t : Token} {marks : Bool} {u : Text} (h : t.HoldsBefore marks u)
    (v w : Text) : EndsLine (t.text ++ v) → EndsLine (t.text ++ w) :=
  fun hline => absurd hline (not_endsLine_of_holds h v)

theorem Holds.replace {ts : List Token} (h : Holds previous r ts)
    (hprevious : SameMarks previous previous') (hr : Follows (lastToken previous ts) r r') :
    Holds previous' r' ts := by
  induction ts generalizing previous previous' with
  | nil => trivial
  | cons t ts ih =>
      rw [lastToken_cons] at hr
      rcases h with ⟨hleading, htoken, htrailing, hrest⟩
      have hbehind : Follows (some t) (codeOf ts ++ r) (codeOf ts ++ r') := follows_append hr
      refine ⟨hleading.mono (endsLine_append_of_holds htoken _ _), ?_, htrailing.mono hbehind.line,
        ih hrest (fun _ => rfl) hr⟩
      rw [← hprevious t.leading]
      rcases hbehind t rfl with ho | hfree
      · exact htoken.append (ho.append _)
      · exact htoken.free hfree.1 _ _

theorem Holds.of_sameMarks {ts : List Token} (h : Holds previous r ts)
    (hprevious : SameMarks previous previous') : Holds previous' r ts :=
  h.replace hprevious (follows_of_outlook (.refl r) _)

theorem Holds.of_previous {t : Token} {ts : List Token} (h : Holds previous r (t :: ts))
    (hmarks : Token.marksBehind previous t.leading = Token.marksBehind previous' t.leading ∨
      t.startsWithMark = false) : Holds previous' r (t :: ts) :=
  ⟨h.1, h.2.1.of_marks hmarks, h.2.2⟩

/-- The tokens `ts'` may take the place of `ts`, which stand between `previous` and the text `r`. -/
structure Replaces (previous : Option Token) (r : Text) (ts ts' : List Token) : Prop where
  last : ∀ previous', SameMarks previous previous' →
    SameMarks (lastToken previous ts) (lastToken previous' ts')
  follows : ∀ r', Follows (lastToken previous ts) r r' →
    Follows previous (codeOf ts ++ r) (codeOf ts' ++ r')
  holds : ∀ previous' r', SameMarks previous previous' → Follows (lastToken previous ts) r r' →
    Holds previous' r' ts'

theorem replaces_refl {ts : List Token} (h : Holds previous r ts) : Replaces previous r ts ts := by
  refine ⟨?_, fun r' => follows_append, fun previous' r' => h.replace⟩
  intro previous' hprevious
  cases ts with
  | nil => exact hprevious
  | cons t ts =>
      rw [lastToken_cons, lastToken_cons]
      exact fun _ => rfl

theorem Replaces.append {ts ts' us us' : List Token}
    (h : Replaces previous (codeOf us ++ r) ts ts')
    (hs : Replaces (lastToken previous ts) r us us') :
    Replaces previous r (ts ++ us) (ts' ++ us') := by
  refine ⟨?_, ?_, ?_⟩
  · intro previous' hprevious
    rw [lastToken_append, lastToken_append]
    exact hs.last _ (h.last previous' hprevious)
  · intro r' hr
    rw [lastToken_append] at hr
    rw [codeOf_append, codeOf_append, List.append_assoc, List.append_assoc]
    exact h.follows _ (hs.follows r' hr)
  · intro previous' r' hprevious hr
    rw [lastToken_append] at hr
    rw [holds_append]
    exact ⟨h.holds previous' _ hprevious (hs.follows r' hr),
      hs.holds _ r' (h.last previous' hprevious) hr⟩

end Tokens
end ForceTry

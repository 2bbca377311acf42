import ForceTry.Proofs.Token.Reread

/-!
# Marks behind a `try`

A token marks a `try` exactly when it is a `!` or a `?` behind one, with no trivia in between or with a
line break as the first trivia.  The reader looks only at the trivia behind the keyword, and a line break
is never part of it.
-/

namespace ForceTry

namespace TokenKind

def sign? : TokenKind → Option Char
  | exclamationMark => some '!'
  | postfixQuestionMark => some '?'
  | _ => none

theorem sign?_of_not_marksTry {kind : TokenKind} (h : kind.marksTry = false) : kind.sign? = none := by
  cases kind with
  | exclamationMark => cases h
  | postfixQuestionMark => cases h
  | _ => rfl

end TokenKind

namespace Token

theorem sign_of_measure {marks : Bool} {c : Char} {r : Text} {kind : TokenKind} {n : Nat}
    (h : measure marks c r = .ok (kind, n)) (d : Char) :
    kind.sign? = some d ↔ (d = '!' ∨ d = '?') ∧ (c :: r).take n = [d] ∧ marks = true := by
  rcases Nat.exists_eq_succ_of_ne_zero (Nat.ne_of_gt (measure_pos h)) with ⟨m, rfl⟩
  cases measured_of_measure h with
  | force hmarks hc =>
      subst hmarks hc
      simpa [TokenKind.sign?, eq_comm (a := d)] using fun hd : '!' = d => .inl hd
  | optional hmarks hc =>
      subst hmarks hc
      simpa [TokenKind.sign?, eq_comm (a := d)] using fun hd : '?' = d => .inr hd
  | plain hmark h =>
      rw [TokenKind.sign?_of_not_marksTry (kind_of_plain h).2, List.take_succ_cons]
      constructor
      · intro hsome
        cases hsome
      · rintro ⟨hsign, htext, hmarks⟩
        injection htext with hd
        subst hd
        exact (hsign.elim (hmark hmarks).1 (hmark hmarks).2).elim

end Token

namespace Tokens

/-- The token `t` behind the tokens `before` stands behind a `try`, and `gap` is the trivia between the
two. -/
def BehindTry (before : List Token) (t : Token) (gap : Trivia) : Prop :=
  ∃ keyword ∈ before.getLast?, keyword.isKeyword "try" = true ∧ gap = keyword.trailing ++ t.leading

/-- The token `t` behind the tokens `before` stands behind a `try`, and a line break is the first trivia
between the two. -/
def BreaksBehindTry (before : List Token) (t : Token) : Prop :=
  ∃ p gap, BehindTry before t (p :: gap) ∧ p.isNewline = true

theorem marksBehind_iff (before : List Token) (t : Token) :
    Token.marksBehind before.getLast? t.leading = true ↔
      BehindTry before t [] ∨ BreaksBehindTry before t := by
  cases hlast : before.getLast? with
  | none => simp [Token.marksBehind, BreaksBehindTry, BehindTry, hlast]
  | some keyword =>
      have hbehind : ∀ gap, BehindTry before t gap ↔
          keyword.isKeyword "try" = true ∧ gap = keyword.trailing ++ t.leading := by
        simp [BehindTry, hlast]
      simp only [BreaksBehindTry, hbehind, Token.marksBehind, Option.any_some, Bool.and_eq_true]
      cases keyword.trailing ++ t.leading with
      | nil => simp
      | cons p gap => simp

theorem measure_of_lexes {previous : Option Token} {source : Text} {body before after : List Token}
    {ending : Trivia} {t : Token} (h : Lexes previous source body ending)
    (hbody : body = before ++ t :: after) :
    ∃ c r n, Token.measure (Token.afterTry (lastToken previous before)) c r = .ok (t.kind, n) ∧
      t.text = (c :: r).take n := by
  induction h generalizing before with
  | ending gap => cases before <;> cases hbody
  | @token previous u leading trailing ending c r rest kind n body gap found behind next ih =>
      cases before with
      | nil =>
          injection hbody with ht _
          subst ht
          exact ⟨c, r, n, found, rfl⟩
      | cons x before =>
          injection hbody with hx hbody
          subst hx
          rw [lastToken_cons]
          exact ih hbody

/-- A token is a mark exactly when it is a sign behind a `try` with no trivia in between, or with a line
break as the first. -/
theorem sign_of_ofText {source : Text} {ts : Tokens} (h : ofText source = .ok ts)
    {before after : List Token} {t : Token} (hts : ts.toList = before ++ t :: after) (c : Char) :
    t.kind.sign? = some c ↔ (c = '!' ∨ c = '?') ∧ t.text = [c] ∧
      (BehindTry before t [] ∨ BreaksBehindTry before t) := by
  have hlexes := (ofText_eq_ok_iff source ts).mp h
  have hdivide := divide_of_ofText h
  rw [← marksBehind_iff]
  rcases List.eq_nil_or_concat after with rfl | ⟨after, last, rfl⟩
  · rw [hdivide.ending] at hts
    rcases List.append_inj' hts rfl with ⟨-, hlast⟩
    have ht : t = ⟨.endOfFile, [], ts.ending, []⟩ := (List.singleton_inj.mp hlast).symm
    rw [ht]
    simp [TokenKind.sign?]
  · rw [hdivide.ending, List.concat_eq_append, ← List.cons_append, ← List.append_assoc] at hts
    rcases List.append_inj' hts rfl with ⟨hbody, -⟩
    rcases measure_of_lexes hlexes hbody with ⟨d, r, n, hmeasure, htext⟩
    have hprevious : lastToken none before = before.getLast? := Option.or_none
    have hmem : ∀ x ∈ before, x ∈ ts.toList := by
      intro x hx
      rw [hdivide.ending, hbody]
      exact List.mem_append_left _ (List.mem_append_left _ hx)
    have hmarks : Token.afterTry before.getLast? = Token.marksBehind before.getLast? t.leading := by
      apply Token.afterTry_eq_marksBehind
      · exact fun p hp => hdivide.trailing p (hmem p (List.mem_of_mem_getLast? hp))
      · intro hsome
        apply hdivide.leading t
        cases before with
        | nil => cases hsome
        | cons x before =>
            rw [hdivide.ending, hbody]
            simp
    rw [Token.sign_of_measure hmeasure c, ← htext, hprevious, hmarks]

end Tokens
end ForceTry

import ForceTry.Token.Lexer

/-!
# What stands at the start of a text

The reader tries the kinds of tokens one after the other.  `Measured` has one rule for each of them,
which says what the text has to show and not which kinds were tried before, and the reader answers with
a token exactly when there is a rule for it.
-/

namespace ForceTry

namespace Literal

theorem opensAt_cons (c : Char) (t : Text) :
    opensAt (c :: t) = if c == '#' then opensAt t else c == '"' := by
  unfold opensAt
  rw [List.dropWhile_cons]
  by_cases hc : (c == '#') = true
  · rw [if_pos hc, if_pos hc]
  · rw [if_neg hc, if_neg hc]
    split
    · next heq =>
        cases heq
        rfl
    · next hne =>
        rw [eq_comm, beq_eq_false_iff_ne]
        rintro rfl
        exact hne t rfl

theorem opensAt_eq (c : Char) (t : Text) :
    opensAt (c :: t) = (c == '"' || (c == '#' && opensAt t)) := by
  rw [opensAt_cons]
  by_cases hc : c = '#'
  · subst hc
    rfl
  · rw [beq_false_of_ne hc, if_neg Bool.false_ne_true, Bool.false_and, Bool.or_false]

end Literal

namespace Token

open ForceTry.Text

structure Stray (c : Char) (r : Text) : Prop where
  punctuation : punctuation? c = none
  quote : c ≠ '"'
  pound : c ≠ '#'
  atSign : c ≠ '@'
  backquote : c ≠ '\x60'
  word : startsIdentifier c = false
  number : Numeral.length (c :: r) = 0
  operator : isOperatorChar c = false

/-- A token of this kind and length stands at the start of `c :: r`, wherever the text stands. -/
inductive Plain (c : Char) (r : Text) : TokenKind → Nat → Prop where
  | placeholder {n : Nat} (hlength : placeholderLength? (c :: r) = some n) :
      Plain c r .editorPlaceholder n
  | punctuation {kind : TokenKind} (hkind : punctuation? c = some kind) : Plain c r kind 1
  | literal {n : Nat} (hopens : Literal.opensAt (c :: r) = true)
      (hlength : Literal.length (c :: r) = .ok n) : Plain c r .stringLiteral n
  | pound (hc : c = '#') (hopens : Literal.opensAt r = false) :
      Plain c r .poundKeyword (runLength isIdentifierChar r + 1)
  | atSign (hc : c = '@') : Plain c r .atSign (runLength isIdentifierChar r + 1)
  | quoted (hc : c = '\x60') : Plain c r .identifier (backquotedLength r)
  | word {n : Nat} (hc : startsIdentifier c = true) (hn : runLength isIdentifierChar r + 1 = n) :
      Plain c r (if isReserved ((c :: r).take n) then .keyword else .identifier) n
  | number {n : Nat} (hn : Numeral.length (c :: r) = n) (hpos : 0 < n) :
      Plain c r (if Numeral.isFloat ((c :: r).take n) then .floatLiteral else .integerLiteral) n
  | period (hc : c = '.') (hr : startsWith ['.'] r = false) : Plain c r .period 1
  | operator (hc : isOperatorChar c = true) (hplaceholder : placeholderLength? (c :: r) = none)
      (hperiod : c = '.' → startsWith ['.'] r = true) : Plain c r .operatorSign (operatorTail r + 1)
  | unknown (hstray : Stray c r) : Plain c r .unknown 1

/-- A token of this kind and length stands at the start of `c :: r`, where `marks` says whether a
`try` stands in front of it. -/
inductive Measured (marks : Bool) (c : Char) (r : Text) : TokenKind → Nat → Prop where
  | force (hmarks : marks = true) (hc : c = '!') : Measured marks c r .exclamationMark 1
  | optional (hmarks : marks = true) (hc : c = '?') : Measured marks c r .postfixQuestionMark 1
  | plain {kind : TokenKind} {n : Nat} (hmark : marks = true → c ≠ '!' ∧ c ≠ '?')
      (h : Plain c r kind n) : Measured marks c r kind n

theorem placeholderLength?_of_ne {c : Char} (h : c ≠ '<') (t : Text) :
    placeholderLength? (c :: t) = none := by
  unfold placeholderLength?
  split
  · next heq =>
      cases heq
      exact absurd rfl h
  · rfl

def Answers (marks : Bool) (c : Char) (r : Text) : Except Nat (TokenKind × Nat) → Prop
  | .ok (kind, n) => Measured marks c r kind n
  | .error e => Literal.opensAt (c :: r) = true ∧ Literal.length (c :: r) = .error e

theorem answers_measure (marks : Bool) (c : Char) (r : Text) :
    Answers marks c r (measure marks c r) := by
  generalize h : measure marks c r = answer
  -- The kinds are tried in the order of the reader.  What is known of the text behind each of them
  -- is kept, because the last two rules ask for it.
  unfold measure at h
  split at h
  · next hmark =>
      rw [Bool.and_eq_true, beq_iff_eq] at hmark
      exact h ▸ .force hmark.1 hmark.2
  next hforce =>
  split at h
  · next hmark =>
      rw [Bool.and_eq_true, beq_iff_eq] at hmark
      exact h ▸ .optional hmark.1 hmark.2
  next hoptional =>
  have hplain : ∀ {kind n}, Plain c r kind n → Answers marks c r (.ok (kind, n)) := by
    refine fun hplain => .plain ?_ hplain
    rintro rfl
    simpa using And.intro hforce hoptional
  split at h
  · next hlength => exact h ▸ hplain (.placeholder hlength)
  next hplaceholder =>
  split at h
  · next hkind => exact h ▸ hplain (.punctuation hkind)
  next hpunctuation =>
  split at h
  · next hquote =>
      have hopens : Literal.opensAt (c :: r) = true := (Literal.opensAt_eq c r).trans hquote
      subst h
      cases hlength : Literal.length (c :: r) with
      | error e => exact ⟨hopens, hlength⟩
      | ok n => exact hplain (.literal hopens hlength)
  next hquote =>
  rw [Bool.or_eq_true, not_or, Bool.and_eq_true, beq_iff_eq, beq_iff_eq, not_and,
    Bool.not_eq_true] at hquote
  split at h
  · next hc => exact h ▸ hplain (.pound (eq_of_beq hc) (hquote.2 (eq_of_beq hc)))
  next hpound =>
  split at h
  · next hc => exact h ▸ hplain (.atSign (eq_of_beq hc))
  next hat =>
  split at h
  · next hc => exact h ▸ hplain (.quoted (eq_of_beq hc))
  next hbackquote =>
  split at h
  · next hc => exact h ▸ hplain (.word hc rfl)
  next hword =>
  split at h
  · next n hn => exact h ▸ hplain (.number hn (Nat.succ_pos n))
  next hnumber =>
  split at h
  · next hperiod =>
      rw [Bool.and_eq_true, beq_iff_eq, Bool.not_eq_true'] at hperiod
      exact h ▸ hplain (.period hperiod.1 hperiod.2)
  next hperiod =>
  rw [Bool.and_eq_true, beq_iff_eq, Bool.not_eq_true', not_and, Bool.not_eq_false] at hperiod
  split at h
  · next hc => exact h ▸ hplain (.operator hc hplaceholder hperiod)
  · next hoperator =>
      exact h ▸ hplain (.unknown ⟨hpunctuation, hquote.1, ne_of_beq_false (by simpa using hpound),
        ne_of_beq_false (by simpa using hat), ne_of_beq_false (by simpa using hbackquote),
        by simpa using hword, hnumber, by simpa using hoperator⟩)

theorem measured_of_measure {marks : Bool} {c : Char} {r : Text} {kind : TokenKind} {n : Nat}
    (h : measure marks c r = .ok (kind, n)) : Measured marks c r kind n := by
  have hanswers := answers_measure marks c r
  rw [h] at hanswers
  exact hanswers

theorem literal_of_measure_error {marks : Bool} {c : Char} {r : Text} {e : Nat}
    (h : measure marks c r = .error e) :
    Literal.opensAt (c :: r) = true ∧ Literal.length (c :: r) = .error e := by
  have hanswers := answers_measure marks c r
  rw [h] at hanswers
  exact hanswers

/-!
# A text that shows a kind is read so

What one rule asks for is found out by none of the kinds before it.
-/

theorem ne_of_holds {p : Char → Bool} {c : Char} (hc : p c = true) {d : Char} (hd : p d = false) :
    c ≠ d := by
  rintro rfl
  exact Bool.noConfusion (hc.symm.trans hd)

theorem ne_of_not_holds {p : Char → Bool} {c : Char} (hc : p c = false) {d : Char}
    (hd : p d = true) : c ≠ d :=
  (ne_of_holds hd hc).symm

theorem punctuation?_of_holds {p : Char → Bool} {c : Char} (hc : p c = true)
    (hp : (['\x7b', '\x7d', '(', ')', '[', ']', ',', ':', ';'].any p) = false) :
    punctuation? c = none := by
  unfold punctuation?
  split <;> first | rfl | simp [hc] at hp

theorem isAlpha_of_isDigit {c : Char} (h : c.isDigit = true) : c.isAlpha = false := by
  have hc : c.val ≤ '9'.val := of_decide_eq_true ((Bool.and_eq_true _ _).mp h).2
  refine Bool.eq_false_iff.mpr fun halpha => ?_
  rcases (Bool.or_eq_true _ _).mp halpha with hupper | hlower
  · exact absurd (UInt32.le_trans (of_decide_eq_true hupper).1 hc) (by decide)
  · have hlow := of_decide_eq_true ((Bool.and_eq_true _ _).mp hlower).1
    exact absurd (UInt32.le_trans hlow hc) (by decide)

theorem startsIdentifier_of_isDigit {c : Char} (h : c.isDigit = true) :
    startsIdentifier c = false := by
  have hnarrow : c.toNat ≤ 57 :=
    UInt32.le_iff_toNat_le.mp (of_decide_eq_true ((Bool.and_eq_true _ _).mp h).2)
  have hletter : isLetter c = false := by
    rw [isLetter, if_pos (by omega), isAlpha_of_isDigit h]
  rw [startsIdentifier, hletter, beq_false_of_ne (ne_of_holds h rfl),
    beq_false_of_ne (ne_of_holds h rfl)]
  rfl

theorem length_of_not_isDigit {c : Char} (h : c.isDigit = false) (r : Text) :
    Numeral.length (c :: r) = 0 := by
  rw [Numeral.length, h]
  rfl

theorem plain_of_isOperatorChar {c : Char} (h : isOperatorChar c = true) :
    punctuation? c = none ∧ startsIdentifier c = false ∧ c.isDigit = false := by
  have hall : (operatorChars.all fun d =>
      (punctuation? d).isNone && !startsIdentifier d && !d.isDigit) = true := rfl
  have hc := List.all_eq_true.mp hall c (List.contains_iff_mem.mp h)
  simpa [and_assoc] using hc

theorem measure_of_ne {c : Char} (hforce : c ≠ '!') (hoptional : c ≠ '?') (marks marks' : Bool)
    (r : Text) : measure marks c r = measure marks' c r := by
  have h : ∀ marks : Bool, (marks && c == '!') = false ∧ (marks && c == '?') = false := by
    intro marks
    rw [beq_eq_false_iff_ne.mpr hforce, beq_eq_false_iff_ne.mpr hoptional, Bool.and_false]
    exact ⟨rfl, rfl⟩
  unfold measure
  simp only [h, Bool.false_eq_true, if_false]

theorem measure_literal {marks : Bool} {c : Char} {r : Text} (h : Literal.opensAt (c :: r) = true) :
    measure marks c r = (Literal.length (c :: r)).map fun n => (.stringLiteral, n) := by
  rw [Literal.opensAt_cons] at h
  unfold measure
  split at h
  · next hc =>
      cases eq_of_beq hc
      rw [placeholderLength?_of_ne (by decide), h]
      cases marks <;> rfl
  · cases eq_of_beq h
    rw [placeholderLength?_of_ne (by decide)]
    cases marks <;> rfl

theorem measure_word {c : Char} {r : Text} (hc : startsIdentifier c = true) :
    measure false c r =
      .ok (if isReserved ((c :: r).take (runLength isIdentifierChar r + 1)) then .keyword
        else .identifier, runLength isIdentifierChar r + 1) := by
  have hne {d : Char} (hd : startsIdentifier d = false) : (c == d) = false :=
    beq_false_of_ne (ne_of_holds hc hd)
  unfold measure
  rw [placeholderLength?_of_ne (ne_of_holds hc rfl), punctuation?_of_holds hc rfl]
  simp only [hne (d := '"') rfl, hne (d := '#') rfl, hne (d := '@') rfl, hne (d := '\x60') rfl, hc]
  rfl

theorem measure_number {c : Char} {r : Text} {n : Nat} (hn : Numeral.length (c :: r) = n + 1) :
    measure false c r =
      .ok (if Numeral.isFloat ((c :: r).take (n + 1)) then .floatLiteral else .integerLiteral,
        n + 1) := by
  have hdigit : c.isDigit = true := by
    cases hdigit : c.isDigit with
    | true => rfl
    | false => cases (length_of_not_isDigit hdigit r).symm.trans hn
  have hne {d : Char} (hd : d.isDigit = false) : (c == d) = false :=
    beq_false_of_ne (ne_of_holds hdigit hd)
  unfold measure
  rw [placeholderLength?_of_ne (ne_of_holds hdigit rfl), punctuation?_of_holds hdigit rfl, hn]
  simp only [hne (d := '"') rfl, hne (d := '#') rfl, hne (d := '@') rfl, hne (d := '\x60') rfl,
    startsIdentifier_of_isDigit hdigit]
  rfl

theorem measure_operator {c : Char} {r : Text} (hc : isOperatorChar c = true)
    (hplaceholder : placeholderLength? (c :: r) = none)
    (hperiod : c = '.' → startsWith ['.'] r = true) :
    measure false c r = .ok (.operatorSign, operatorTail r + 1) := by
  have hne {d : Char} (hd : isOperatorChar d = false) : (c == d) = false :=
    beq_false_of_ne (ne_of_holds hc hd)
  have hdots : (c == '.' && !startsWith ['.'] r) = false := by
    rw [Bool.and_eq_false_imp, beq_iff_eq]
    intro hdot
    rw [hperiod hdot]
    rfl
  rcases plain_of_isOperatorChar hc with ⟨hpunctuation, hword, hdigit⟩
  unfold measure
  rw [hplaceholder, hpunctuation, length_of_not_isDigit hdigit]
  simp only [hne (d := '"') rfl, hne (d := '#') rfl, hne (d := '@') rfl, hne (d := '\x60') rfl,
    hword, hdots, hc]
  rfl

theorem measure_stray {c : Char} {r : Text} (h : Stray c r) :
    measure false c r = .ok (.unknown, 1) := by
  have hne {d : Char} (hd : c ≠ d) : (c == d) = false := beq_false_of_ne hd
  have hoperator {d : Char} (hd : isOperatorChar d = true) : c ≠ d :=
    ne_of_not_holds h.operator hd
  unfold measure
  rw [placeholderLength?_of_ne (hoperator rfl), h.punctuation, h.number]
  simp only [hne h.quote, hne h.pound, hne h.atSign, hne h.backquote, hne (hoperator (d := '.') rfl),
    h.word, h.operator]
  rfl

theorem measure_of_plain {c : Char} {r : Text} {kind : TokenKind} {n : Nat} (h : Plain c r kind n) :
    measure false c r = .ok (kind, n) := by
  cases h with
  | placeholder hlength =>
      unfold measure
      rw [hlength]
      rfl
  | punctuation hkind =>
      have hplaceholder : placeholderLength? (c :: r) = none := by
        apply placeholderLength?_of_ne
        rintro rfl
        cases hkind
      unfold measure
      rw [hplaceholder, hkind]
      rfl
  | literal hopens hlength =>
      rw [measure_literal hopens, hlength]
      rfl
  | pound hc hopens =>
      subst hc
      unfold measure
      rw [placeholderLength?_of_ne (by decide), hopens]
      rfl
  | atSign hc =>
      subst hc
      unfold measure
      rw [placeholderLength?_of_ne (by decide)]
      rfl
  | quoted hc =>
      subst hc
      unfold measure
      rw [placeholderLength?_of_ne (by decide)]
      rfl
  | word hc hn => exact hn ▸ measure_word hc
  | number hn hpos =>
      rcases Nat.exists_eq_succ_of_ne_zero (Nat.ne_of_gt hpos) with ⟨m, rfl⟩
      exact measure_number hn
  | period hc hr =>
      subst hc
      unfold measure
      rw [placeholderLength?_of_ne (by decide), hr]
      rfl
  | operator hc hplaceholder hperiod => exact measure_operator hc hplaceholder hperiod
  | unknown hstray => exact measure_stray hstray

theorem measure_eq_ok_iff {marks : Bool} {c : Char} {r : Text} {kind : TokenKind} {n : Nat} :
    measure marks c r = .ok (kind, n) ↔ Measured marks c r kind n := by
  refine ⟨measured_of_measure, fun h => ?_⟩
  cases h with
  | force hmarks hc =>
      subst hmarks hc
      rfl
  | optional hmarks hc =>
      subst hmarks hc
      rfl
  | plain hmark h =>
      rw [← measure_of_plain h]
      cases marks with
      | false => rfl
      | true => exact measure_of_ne (hmark rfl).1 (hmark rfl).2 true false r

end Token
end ForceTry

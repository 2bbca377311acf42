import ForceTry.Proofs.Token.Measured
import Mathlib.Data.List.TakeWhile

/-!
# Reading tokens

The reader of tokens is a loop over the rest of a text.  This module restates it as a relation with
one rule for the end of the text and one rule for each token, shows that the loop and the relation
agree, and draws the first consequences: nothing of the text is lost, and what stands between two
tokens is divided at the first line break.
-/

namespace ForceTry

namespace Text

theorem times_singleton (n : Nat) (c : Char) : times n [c] = List.replicate n c := by
  induction n with
  | zero => rfl
  | succ n ih => rw [times_succ, ih, List.replicate_succ]; rfl

theorem takeWhile_eq_replicate (c : Char) (t : Text) :
    t.takeWhile (· == c) = List.replicate (runLength (· == c) t) c := by
  rw [List.eq_replicate_iff]
  constructor
  · rfl
  · intro d hd
    have hp := List.mem_takeWhile_imp hd
    exact eq_of_beq hp

end Text

namespace Piece

/-!
# Pieces

A piece that is read off a text has the characters that it was read from.
-/

theorem times_crlfPairs (t : Text) :
    Text.times (crlfPairs t) ['\r', '\n'] = t.take (2 * crlfPairs t) := by
  fun_induction crlfPairs t with
  | case1 t ih =>
      rw [Text.times_succ, ih, show 2 * (crlfPairs t + 1) = 2 * crlfPairs t + 1 + 1 by omega]
      rfl
  | case2 => rfl

theorem code_run (kind : Run) (n : Nat) :
    Piece.code (.run kind n) = Text.times n kind.unit := by
  simp [Piece.code]

theorem code_run_singleton {kind : Run} {c : Char} {t : Text} (h : kind.unit = [c]) :
    Piece.code (.run kind (Text.runLength (· == c) t)) =
      t.take (Text.runLength (· == c) t) := by
  rw [code_run, h, Text.times_singleton, Text.take_runLength, Text.takeWhile_eq_replicate]

theorem code_of_next? {t : Text} {p : Piece} {n : Nat} (h : next? t = some (p, n)) :
    p.code = t.take n := by
  unfold next? at h
  split at h <;> simp only [Option.some.injEq, Prod.mk.injEq, reduceCtorEq] at h
  · rcases h with ⟨rfl, rfl⟩
    exact code_run_singleton (c := ' ') rfl
  · rcases h with ⟨rfl, rfl⟩
    exact code_run_singleton (c := '\t') rfl
  · rcases h with ⟨rfl, rfl⟩
    exact code_run_singleton (c := '\n') rfl
  · rcases h with ⟨rfl, rfl⟩
    exact (code_run .carriageReturnLineFeeds _).trans (times_crlfPairs _)
  · rcases h with ⟨rfl, rfl⟩
    rfl
  · rcases h with ⟨rfl, rfl⟩
    rfl

end Piece

namespace Trivia

/-!
# Trivia

Reading trivia divides a text in two, and with `inLine` the first part has no line break and the
second part starts with one or with no trivia at all.
-/

theorem code_scanFrom (inLine : Bool) (read : List Piece) (t : Text) :
    code (scanFrom inLine read t).1 ++ (scanFrom inLine read t).2 = code read.reverse ++ t := by
  fun_induction scanFrom inLine read t with
  | case1 => rfl
  | case2 => rfl
  | case3 read t p n h _ ih =>
      rw [ih, List.reverse_cons, code_append, code_cons, code_nil, List.append_nil,
        Piece.code_of_next? h, List.append_assoc, List.take_append_drop]

theorem code_scan (inLine : Bool) (t : Text) :
    code (scan inLine t).1 ++ (scan inLine t).2 = t :=
  code_scanFrom inLine [] t

theorem containsNewline_append (s t : Trivia) :
    containsNewline (s ++ t) = (containsNewline s || containsNewline t) := by
  simp [containsNewline]

theorem containsNewline_cons (p : Piece) (t : Trivia) :
    containsNewline (p :: t) = (p.isNewline || containsNewline t) := rfl

theorem containsNewline_scanFrom (read : List Piece) (t : Text)
    (hread : containsNewline read.reverse = false) :
    containsNewline (scanFrom true read t).1 = false := by
  fun_induction scanFrom true read t with
  | case1 => exact hread
  | case2 => exact hread
  | case3 read t p n h hp ih =>
      apply ih
      rw [List.reverse_cons, containsNewline_append, hread]
      simpa [containsNewline] using hp

theorem containsNewline_scan (t : Text) : containsNewline (scan true t).1 = false :=
  containsNewline_scanFrom [] t rfl

theorem scanFrom_append (inLine : Bool) (read : List Piece) (t : Text) (before : List Piece) :
    scanFrom inLine (read ++ before) t =
      (before.reverse ++ (scanFrom inLine read t).1, (scanFrom inLine read t).2) := by
  fun_induction scanFrom inLine read t with
  | case1 read t hnone =>
      rw [scanFrom]
      split
      · simp
      · next p n hsome => cases hnone.symm.trans hsome
  | case2 read t p n hsome hstops =>
      rw [scanFrom]
      split
      · next hnone => cases hsome.symm.trans hnone
      · next p' n' hsome' =>
          cases hsome.symm.trans hsome'
          rw [if_pos hstops]
          simp
  | case3 read t p n hsome hgoes ih =>
      rw [scanFrom]
      split
      · next hnone => cases hsome.symm.trans hnone
      · next p' n' hsome' =>
          cases hsome.symm.trans hsome'
          rw [if_neg hgoes]
          exact ih

theorem scanFrom_eq (inLine : Bool) (read : List Piece) (t : Text) :
    scanFrom inLine read t = (read.reverse ++ (scan inLine t).1, (scan inLine t).2) :=
  scanFrom_append inLine [] t read

theorem scan_of_next?_eq_none {inLine : Bool} {t : Text} (h : Piece.next? t = none) :
    scan inLine t = ([], t) := by
  rw [scan, scanFrom]
  split
  · rfl
  · next p n hp => rw [h] at hp; cases hp

theorem scan_of_next?_eq_some {inLine : Bool} {t : Text} {p : Piece} {n : Nat}
    (h : Piece.next? t = some (p, n)) :
    scan inLine t =
      if inLine && p.isNewline then ([], t)
      else (p :: (scan inLine (t.drop n)).1, (scan inLine (t.drop n)).2) := by
  rw [scan, scanFrom]
  split
  · next hn => rw [h] at hn; cases hn
  · next p' n' hp' =>
      rw [h] at hp'
      cases hp'
      by_cases hc : (inLine && p.isNewline) = true
      · rw [if_pos hc, if_pos hc]; rfl
      · rw [if_neg hc, if_neg hc, scanFrom_eq]; rfl

end Trivia

namespace Token

/-- A `!` or `?` at this place marks the `try` before it. -/
def afterTry (previous : Option Token) : Bool := previous.any isBareTry

theorem kind_of_plain {c : Char} {r : Text} {kind : TokenKind} {n : Nat} (h : Plain c r kind n) :
    kind ≠ .endOfFile ∧ kind.marksTry = false := by
  cases h with
  | punctuation hkind =>
      unfold punctuation? at hkind
      split at hkind <;> cases hkind <;> decide
  | word => split <;> decide
  | number => split <;> decide
  | _ => decide

/-- No text reads as the end of the file, and marks stand only behind a bare `try`. -/
theorem kind_of_measure {marks : Bool} {c : Char} {r : Text} {kind : TokenKind} {n : Nat}
    (h : measure marks c r = .ok (kind, n)) :
    kind ≠ .endOfFile ∧ (kind.marksTry = true → marks = true) := by
  cases measured_of_measure h with
  | force hmarks => exact ⟨by decide, fun _ => hmarks⟩
  | optional hmarks => exact ⟨by decide, fun _ => hmarks⟩
  | plain _ h =>
      rcases kind_of_plain h with ⟨hend, hmark⟩
      exact ⟨hend, fun hmarks => Bool.noConfusion (hmark.symm.trans hmarks)⟩

end Token

namespace Tokens

/-!
# The reading of a text

`Lexes previous t body ending` says that the tokens `body` are read off `t` one after the other
behind the token `previous`, and that the trivia `ending` is left at the end.
-/

inductive Lexes : Option Token → Text → List Token → Trivia → Prop where
  | ending {previous : Option Token} {t : Text} {leading : Trivia}
      (gap : Trivia.scan false t = (leading, [])) : Lexes previous t [] leading
  | token {previous : Option Token} {t : Text} {leading trailing ending : Trivia} {c : Char}
      {r rest : Text} {kind : TokenKind} {n : Nat} {body : List Token}
      (gap : Trivia.scan false t = (leading, c :: r))
      (found : Token.measure (Token.afterTry previous) c r = .ok (kind, n))
      (behind : Trivia.scan true ((c :: r).drop n) = (trailing, rest))
      (next : Lexes (some ⟨kind, (c :: r).take n, leading, trailing⟩) rest body ending) :
      Lexes previous t (⟨kind, (c :: r).take n, leading, trailing⟩ :: body) ending

theorem lexes_of_readFrom (read : List Token) (t : Text) :
    ∀ ts, readFrom read t = .ok ts →
      ∃ body, ts.body = read.reverse ++ body ∧ Lexes read.head? t body ts.ending := by
  fun_induction readFrom read t with
  | case1 read t leading hl =>
      intro ts h
      cases h
      exact ⟨[], by simp, Lexes.ending hl⟩
  | case2 => intro ts h; cases h
  | case3 read t leading c r hl kind n hm trailing rest ht ih =>
      intro ts h
      rcases ih ts h with ⟨body, hbody, hlexes⟩
      refine ⟨⟨kind, (c :: r).take n, leading, trailing⟩ :: body, ?_, ?_⟩
      · rw [hbody]
        simp
      · have hflag : Token.afterTry read.head? = (read.head?.map Token.isBareTry).getD false := by
          cases read.head? <;> rfl
        exact Lexes.token hl (hflag ▸ hm) ht hlexes

theorem readFrom_of_lexes {previous : Option Token} {t : Text} {body : List Token}
    {ending : Trivia} (h : Lexes previous t body ending) :
    ∀ read : List Token, read.head? = previous →
      readFrom read t = .ok ⟨read.reverse ++ body, ending⟩ := by
  -- By induction on the reading; `read` holds the tokens in front, the last one first.
  induction h with
  | ending gap =>
      intro read _
      rw [readFrom]
      split
      · next leading hl =>
          rw [gap] at hl
          cases hl
          simp
      · next leading c r hl =>
          rw [gap] at hl
          cases hl
  | @token previous t leading trailing ending c r rest kind n body gap found behind next ih =>
      intro read hread
      have hflag : (read.head?.map Token.isBareTry).getD false = Token.afterTry previous := by
        rw [hread]
        cases previous <;> rfl
      rw [readFrom]
      split
      · next leading' hl =>
          rw [gap] at hl
          cases hl
      · next leading' c' r' hl =>
          rw [gap] at hl
          cases hl
          split
          · next offset hm =>
              rw [hflag, found] at hm
              cases hm
          · next kind' n' hm =>
              rw [hflag, found] at hm
              cases hm
              split
              next trailing' rest' ht =>
                rw [behind] at ht
                cases ht
                rw [ih _ rfl]
                simp

theorem ofText_eq_ok_iff (source : Text) (ts : Tokens) :
    ofText source = .ok ts ↔ Lexes none source ts.body ts.ending := by
  unfold ofText
  constructor
  · intro h
    split at h
    · next ts' hread =>
        cases h
        rcases lexes_of_readFrom [] source ts hread with ⟨body, hbody, hlexes⟩
        have heq : ts.body = body := by simpa using hbody
        rw [heq]
        exact hlexes
    · cases h
  · intro h
    rw [readFrom_of_lexes h [] rfl]
    rfl

/-!
# Consequences
-/

theorem code_of_lexes {previous : Option Token} {t : Text} {body : List Token} {ending : Trivia}
    (h : Lexes previous t body ending) : body.flatMap Token.code ++ ending.code = t := by
  induction h with
  | @ending previous t leading gap =>
      have hcode := Trivia.code_scan false t
      rw [gap] at hcode
      simpa using hcode
  | @token previous t leading trailing ending c r rest kind n body gap found behind next ih =>
      have hleading := Trivia.code_scan false t
      rw [gap] at hleading
      have htrailing := Trivia.code_scan true ((c :: r).drop n)
      rw [behind] at htrailing
      rw [List.flatMap_cons, List.append_assoc, ih, ← hleading]
      show leading.code ++ (c :: r).take n ++ trailing.code ++ rest = leading.code ++ (c :: r)
      rw [List.append_assoc, htrailing, List.append_assoc, List.take_append_drop]

theorem code_of_ofText {source : Text} {ts : Tokens} (h : ofText source = .ok ts) :
    ts.code = source := by
  have hlexes := (ofText_eq_ok_iff source ts).mp h
  have hcode := code_of_lexes hlexes
  rw [← hcode]
  simp [code, toList, endOfFile, Token.code]

/-- Tokens as they stand one after the other in a text: none of them is the end of the file, line
breaks are left to the token behind, and a mark has a bare `try` in front of it. -/
def Ordinary (previous : Option Token) : List Token → Prop
  | [] => True
  | t :: ts =>
      (t.kind ≠ .endOfFile ∧ t.trailing.containsNewline = false ∧
        (t.kind.marksTry = true → Token.afterTry previous = true)) ∧
      Ordinary (some t) ts

theorem ordinary_of_lexes {previous : Option Token} {t : Text} {body : List Token}
    {ending : Trivia} (h : Lexes previous t body ending) : Ordinary previous body := by
  induction h with
  | ending gap => trivial
  | @token previous t leading trailing ending c r rest kind n body gap found behind next ih =>
      have hkind := Token.kind_of_measure found
      have hline := Trivia.containsNewline_scan ((c :: r).drop n)
      rw [behind] at hline
      exact ⟨⟨hkind.1, hline, hkind.2⟩, ih⟩

end Tokens
end ForceTry

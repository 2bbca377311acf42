import ForceTry.Proofs.Grammar.Neighbours
import ForceTry.Proofs.Token.Outlook
import ForceTry.Proofs.Token.Stream
import Mathlib.Data.List.Chain

/-!
# Tokens that read back

Tokens with trivia around them are written one after the other, and the text is read again.  If each
token and each piece of trivia holds before what is written behind it, the same tokens come back, with
line breaks in front of the same ones.  How the trivia is shared out between neighbours may differ,
because reading divides it at the first line break.
-/

namespace ForceTry

namespace Token

open ForceTry.Text

/-- The character `c` with `s` behind it is read as one token in front of the text `r`, and so it is
in front of every text with the same outlook. -/
structure Found (marks : Bool) (c : Char) (s r : Text) (kind : TokenKind) : Prop where
  read : measure marks c (s ++ r) = .ok (kind, s.length + 1)
  starts : Piece.next? (c :: (s ++ r)) = none
  noReturn : c ≠ '\r'
  noSign : c = '<' → s = [] → r.head? ≠ some '#'
  closed : c = '\x60' → find? ['\x60'] s ≠ none

namespace Found

variable {marks : Bool} {c : Char} {s r : Text} {kind : TokenKind}

theorem append (h : Found marks c s r kind) {r' : Text} (ho : Outlook r r') :
    Found marks c s r' kind := by
  refine ⟨measure_append h.noSign h.closed ho h.read, next?_append h.noReturn ho h.starts,
    h.noReturn, ?_, h.closed⟩
  intro hc hs
  exact mt (head?_of_ahead ho.ahead (d := '#') rfl).mpr (h.noSign hc hs)

theorem staysInLine (h : Found marks c s r kind) : Piece.staysInLine c = true := by
  have hstarts := (next?_eq_none_iff c (s ++ r)).mp h.starts
  rw [Piece.staysInLine, Bool.and_eq_true, bne_iff_ne, bne_iff_ne]
  exact ⟨h.noReturn, hstarts.2.2.1⟩

end Found

def HoldsBefore (marks : Bool) (r : Text) (t : Token) : Prop :=
  ∃ c s, t.text = c :: s ∧ Found marks c s r t.kind

theorem HoldsBefore.append {marks : Bool} {r r' : Text} {t : Token} (h : t.HoldsBefore marks r)
    (ho : Outlook r r') : t.HoldsBefore marks r' := by
  rcases h with ⟨c, s, htext, hfound⟩
  exact ⟨c, s, htext, hfound.append ho⟩

def startsWithMark (t : Token) : Bool := t.text.head? == some '!' || t.text.head? == some '?'

theorem HoldsBefore.of_marks {marks marks' : Bool} {r : Text} {t : Token}
    (h : t.HoldsBefore marks r) (hmarks : marks = marks' ∨ t.startsWithMark = false) :
    t.HoldsBefore marks' r := by
  rcases hmarks with rfl | hmark
  · exact h
  · rcases h with ⟨c, s, htext, hfound⟩
    rw [startsWithMark, htext, Bool.or_eq_false_iff] at hmark
    refine ⟨c, s, htext, ?_, hfound.starts, hfound.noReturn, hfound.noSign, hfound.closed⟩
    rw [measure_of_ne (by simpa using hmark.1) (by simpa using hmark.2) marks' marks]
    exact hfound.read

theorem found_word {c : Char} {s r : Text} (hc : startsIdentifier c = true)
    (hs : ∀ d ∈ s, isIdentifierChar d = true) (hr : ∀ d ∈ r.head?, isIdentifierChar d = false)
    (marks : Bool) :
    Found marks c s r (if isReserved (c :: s) then .keyword else .identifier) := by
  have hplain : ∀ d, startsIdentifier d = false → c ≠ d := fun _ => ne_of_holds hc
  refine ⟨?_, ?_, hplain _ rfl, fun h => absurd h (hplain _ rfl), fun h => absurd h (hplain _ rfl)⟩
  · have hlength : runLength isIdentifierChar (s ++ r) + 1 = s.length + 1 := by
      rw [runLength_append hs hr]
    have hword := Plain.word hc hlength
    rw [take_token] at hword
    exact measure_eq_ok_iff.mpr (.plain (fun _ => ⟨hplain _ rfl, hplain _ rfl⟩) hword)
  · rw [next?_eq_none_iff]
    exact ⟨hplain _ rfl, hplain _ rfl, hplain _ rfl, fun h => hplain _ rfl h.1,
      fun h => hplain _ rfl h.1⟩

/-- With `leading` between the two, a `!` or `?` behind `previous` marks a `try`. -/
def marksBehind (previous : Option Token) (leading : Trivia) : Bool :=
  previous.any fun p => p.isKeyword "try" && (p.trailing ++ leading).head?.all Piece.isNewline

/-- Where trivia is divided at the first line break, a bare `try` has none behind it up to there. -/
theorem afterTry_eq_marksBehind {previous : Option Token} {leading : Trivia}
    (htrailing : ∀ p ∈ previous, p.trailing.containsNewline = false)
    (hleading : previous.isSome = true → ∀ p ∈ leading.head?, p.isNewline = true) :
    afterTry previous = marksBehind previous leading := by
  cases previous with
  | none => rfl
  | some p =>
      have hp := htrailing p rfl
      show (p.isKeyword "try" && p.trailing.isEmpty) =
        (p.isKeyword "try" && (p.trailing ++ leading).head?.all Piece.isNewline)
      congr 1
      cases hbehind : p.trailing with
      | nil =>
          cases leading with
          | nil => rfl
          | cons q leading => exact (hleading rfl q rfl).symm
      | cons q trailing =>
          rw [hbehind, Trivia.containsNewline_cons, Bool.or_eq_false_iff] at hp
          exact hp.1.symm

end Token

namespace Tokens

open ForceTry.Text ForceTry.Grammar

def codeOf (ts : List Token) : Text := ts.flatMap Token.code

theorem codeOf_nil : codeOf [] = [] := rfl

theorem codeOf_cons (t : Token) (ts : List Token) : codeOf (t :: ts) = t.code ++ codeOf ts := rfl

theorem codeOf_cons_append (t : Token) (ts : List Token) (r : Text) :
    codeOf (t :: ts) ++ r = t.leading.code ++ (t.text ++ (t.trailing.code ++ (codeOf ts ++ r))) := by
  rw [codeOf_cons, Token.code, List.append_assoc, List.append_assoc, List.append_assoc]

theorem codeOf_append (ts us : List Token) : codeOf (ts ++ us) = codeOf ts ++ codeOf us :=
  List.flatMap_append

/-- The last of some tokens, or the token in front of them. -/
def lastToken (previous : Option Token) (ts : List Token) : Option Token := ts.getLast?.or previous

theorem lastToken_nil (previous : Option Token) : lastToken previous [] = previous := rfl

theorem lastToken_cons (previous : Option Token) (t : Token) (ts : List Token) :
    lastToken previous (t :: ts) = lastToken (some t) ts := by
  rw [lastToken, lastToken, List.getLast?_cons, Option.some_or]
  cases ts.getLast? <;> rfl

theorem lastToken_append (previous : Option Token) (ts us : List Token) :
    lastToken previous (ts ++ us) = lastToken (lastToken previous ts) us := by
  rw [lastToken, lastToken, lastToken, List.getLast?_append]
  cases us.getLast? <;> rfl

/-- Every token and all trivia holds before what stands behind it, with the text `r` at the end. -/
def Holds (previous : Option Token) (r : Text) : List Token → Prop
  | [] => True
  | t :: ts =>
      t.leading.HoldsBefore (t.text ++ (t.trailing.code ++ (codeOf ts ++ r))) ∧
        t.HoldsBefore (Token.marksBehind previous t.leading) (t.trailing.code ++ (codeOf ts ++ r)) ∧
        t.trailing.HoldsBefore (codeOf ts ++ r) ∧ Holds (some t) r ts

theorem holds_append {previous : Option Token} {r : Text} {ts us : List Token} :
    Holds previous r (ts ++ us) ↔
      Holds previous (codeOf us ++ r) ts ∧ Holds (lastToken previous ts) r us := by
  induction ts generalizing previous with
  | nil => simp [Holds, lastToken_nil]
  | cons t ts ih =>
      rw [List.cons_append, Holds, Holds, ih, lastToken_cons, codeOf_append, List.append_assoc,
        and_assoc, and_assoc, and_assoc]

/-!
# Reading again
-/

/-- A reader stands behind the token `previous'`, which is `previous` read again, in front of the text
`v`, where the writer has written the text `t` behind the text of `previous`. -/
inductive Between : Option Token → Option Token → Text → Text → Prop where
  | start (t : Text) : Between none none t t
  | behind {p p' : Token} {t v : Text} (hbare : p.bare = p'.bare)
      (hscan : Trivia.scan true t = (p'.trailing, v)) : Between (some p) (some p') t v

def trailingOf (previous : Option Token) : Trivia := (previous.map Token.trailing).getD []

theorem breaksBefore_eq (previous : Option Token) (t : Token) :
    breaksBefore previous t = (trailingOf previous ++ t.leading).containsNewline := by
  rw [Trivia.containsNewline_append, breaksBefore, Bool.or_comm]
  cases previous <;> rfl

theorem head_all_of_lineView {s t : Trivia} (h : s.lineView = t.lineView) :
    s.head?.all Piece.isNewline = t.head?.all Piece.isNewline := by
  have hmap : ∀ t : Trivia, t.head?.all Piece.isNewline = (t.head?.map Piece.isNewline).all id := by
    intro t
    cases t.head? <;> rfl
  have hhead : s.head?.map Piece.isNewline = t.head?.map Piece.isNewline := congrArg Prod.fst h
  rw [hmap s, hmap t, hhead]

variable {previous previous' : Option Token} {t v : Text}

theorem scan_between (h : Between previous previous' t v) {gap : Trivia} {w : Text}
    (hgap : gap.HoldsBefore w) (ht : t = gap.code ++ w) :
    ∃ leading, Trivia.scan false v = (leading, (Trivia.scan false w).2) ∧
      (trailingOf previous' ++ leading).lineView = (gap ++ (Trivia.scan false w).1).lineView ∧
      (Trivia.scan false t).1.lineView = (gap ++ (Trivia.scan false w).1).lineView := by
  have hscan := Trivia.scan_append hgap
  rw [← ht] at hscan
  cases h with
  | start => exact ⟨(Trivia.scan false t).1, Prod.ext rfl hscan.1, hscan.2, hscan.2⟩
  | behind hbare hline =>
      have hwhole := Trivia.scan_line t
      rw [hline] at hwhole
      refine ⟨(Trivia.scan false v).1, ?_, ?_, hscan.2⟩
      · rw [← hscan.1, hwhole]
      · rw [← hscan.2, hwhole]
        rfl

theorem afterTry_between (h : Between previous previous' t v) {leading : Trivia}
    (hview : (Trivia.scan false t).1.lineView = (trailingOf previous ++ leading).lineView) :
    Token.afterTry previous' = Token.marksBehind previous leading := by
  cases h with
  | start => rfl
  | @behind p p' _ _ hbare hline =>
      have hempty := Trivia.isEmpty_scan t
      rw [hline, head_all_of_lineView hview] at hempty
      show (p'.isKeyword "try" && p'.trailing.isEmpty) =
        (p.isKeyword "try" && (p.trailing ++ leading).head?.all Piece.isNewline)
      rw [Token.isKeyword_of_bare hbare, hempty]
      rfl

/-- Tokens that hold read back as tokens that look alike, with the end of the file behind them. -/
theorem lexes_of_holds {r : Text} {ending : Trivia} (hr : Trivia.scan false r = (ending, []))
    {ts : List Token} (h : Holds previous r ts) (hbetween : Between previous previous' t v)
    (htrailing : (trailingOf previous).HoldsBefore (codeOf ts ++ r))
    (ht : t = (trailingOf previous).code ++ (codeOf ts ++ r)) :
    ∃ body ending', Lexes previous' v body ending' ∧
      AlikeList previous previous' ts body ∧
      AlikeTokens (lastToken previous ts) (lastToken previous' body)
        ⟨.endOfFile, [], ending, []⟩ ⟨.endOfFile, [], ending', []⟩ := by
  -- By induction on the tokens. Between two of them the reader may divide the trivia elsewhere,
  -- which `Between` keeps track of.
  induction ts generalizing previous previous' t v with
  | nil =>
      rcases scan_between hbetween htrailing ht with ⟨leading, hscan, hview, _⟩
      rw [codeOf_nil, List.nil_append, hr] at hscan hview
      refine ⟨[], leading, .ending hscan, trivial, rfl, ?_⟩
      rw [lastToken_nil, lastToken_nil, breaksBefore_eq, breaksBefore_eq]
      exact (Prod.ext_iff.mp hview).2.symm
  | cons x ts ih =>
      rcases h with ⟨hleading, ⟨c, s, htext, hfound⟩, hbehind, hrest⟩
      rw [htext] at hleading
      have hnone := hfound.starts
      have hgap : (trailingOf previous ++ x.leading).HoldsBefore
          (c :: (s ++ (x.trailing.code ++ (codeOf ts ++ r)))) := by
        rw [Trivia.holdsBefore_append]
        refine ⟨?_, hleading⟩
        simpa [codeOf_cons, Token.code, htext] using htrailing
      rcases scan_between hbetween hgap (by rw [ht]; simp [codeOf_cons, Token.code, htext]) with
        ⟨leading, hscan, hview, hwhole⟩
      rw [Trivia.scan_of_next?_eq_none hnone, List.append_nil] at hview hwhole
      rw [Trivia.scan_of_next?_eq_none hnone] at hscan
      rcases hbehindScan : Trivia.scan true (x.trailing.code ++ (codeOf ts ++ r)) with
        ⟨trailing, rest⟩
      have hdrop : (c :: (s ++ (x.trailing.code ++ (codeOf ts ++ r)))).drop (s.length + 1) =
          x.trailing.code ++ (codeOf ts ++ r) := @List.drop_left _ (c :: s) _
      have htake : (c :: (s ++ (x.trailing.code ++ (codeOf ts ++ r)))).take (s.length + 1) =
          x.text := by
        rw [htext]
        exact @List.take_left _ (c :: s) _
      have hmeasure := hfound.read
      rw [← afterTry_between hbetween hwhole] at hmeasure
      rcases @ih (some x) (some ⟨x.kind, x.text, leading, trailing⟩) _ rest hrest
        (.behind rfl hbehindScan) hbehind rfl with ⟨body, ending', hlexes, halike, hend⟩
      rw [← lastToken_cons previous, ← lastToken_cons previous'] at hend
      rw [← htake] at hlexes halike hend
      refine ⟨_, ending', .token hscan hmeasure (by rw [hdrop, hbehindScan]) hlexes,
        ⟨⟨?_, ?_⟩, halike⟩, hend⟩
      · rw [Token.bare_eq_bare]
        exact ⟨rfl, htake.symm⟩
      · rw [breaksBefore_eq, breaksBefore_eq]
        exact (Prod.ext_iff.mp hview).2.symm

/-!
# The tokens of a source hold
-/

/-- Tokens as reading leaves them: no line break behind a token, and trivia in front of a token is
empty or starts with a line break, the first token apart. -/
def Lined (previous : Option Token) : List Token → Prop
  | [] => True
  | t :: ts =>
      (t.trailing.containsNewline = false ∧
        (previous.isSome = true → ∀ p ∈ t.leading.head?, p.isNewline = true)) ∧ Lined (some t) ts

theorem lined_append {previous : Option Token} {ts us : List Token} :
    Lined previous (ts ++ us) ↔ Lined previous ts ∧ Lined (lastToken previous ts) us := by
  induction ts generalizing previous with
  | nil => simp [Lined, lastToken_nil]
  | cons t ts ih => rw [List.cons_append, Lined, Lined, ih, lastToken_cons, ← and_assoc]

/-- The tokens read back wherever their outlook stays the same: no carriage return could be joined by
a line feed, no `<` and `#` next to each other could become the start of a placeholder, and no name
between backquotes and no comment behind a token runs on to the end of the file. -/
structure Steady (ts : List Token) : Prop where
  returns : ∀ t ∈ ts, t.text ≠ ['\r']
  signs : ts.IsChain fun t u =>
    t.text = ['<'] → t.trailing = [] → u.leading = [] → u.text.head? ≠ some '#'
  names : ∀ t ∈ ts, t.text.head? = some '\x60' → find? ['\x60'] t.text.tail ≠ none
  comments : ∀ t ∈ ts, ∀ p ∈ t.trailing, p.Closed

theorem Steady.tail {t : Token} {ts : List Token} (h : Steady (t :: ts)) : Steady ts :=
  ⟨fun u hu => h.returns u (List.mem_cons_of_mem t hu), h.signs.tail,
    fun u hu => h.names u (List.mem_cons_of_mem t hu),
    fun u hu => h.comments u (List.mem_cons_of_mem t hu)⟩

theorem measure_return (marks : Bool) (r : Text) :
    Token.measure marks '\r' r = .ok (.unknown, 1) := by
  have hstray : Token.Stray '\r' r := {
    punctuation := rfl
    quote := by decide
    pound := by decide
    atSign := by decide
    backquote := by decide
    word := rfl
    number := Token.length_of_not_isDigit rfl r
    operator := rfl }
  exact Token.measure_eq_ok_iff.mpr (.plain (fun _ => by decide) (.unknown hstray))

theorem head_of_canonical {gap : Trivia} (h : gap.Canonical) (hne : gap ≠ []) (u : Text) :
    (gap.code ++ u).head? ≠ some '#' := by
  cases gap with
  | nil => exact absurd rfl hne
  | cons p gap =>
      rcases h.opening_starts with ⟨v, hv⟩
      rw [← hv]
      match p with
      | .run .spaces _ => exact fun heq => by cases heq
      | .run .tabs _ => exact fun heq => by cases heq
      | .run .newlines _ => exact fun heq => by cases heq
      | .run .carriageReturnLineFeeds _ => exact fun heq => by cases heq
      | .comment .line _ => exact fun heq => by cases heq
      | .comment .block _ => exact fun heq => by cases heq

theorem head_of_steady {t : Token} {ts : List Token} {ending : Trivia} (hsteady : Steady (t :: ts))
    (hcanonical : (∀ x ∈ t :: ts, x.leading.Canonical ∧ x.trailing.Canonical) ∧ ending.Canonical)
    (htexts : ∀ x ∈ ts, x.text ≠ []) (ht : t.text = ['<']) :
    (t.trailing.code ++ (codeOf ts ++ ending.code)).head? ≠ some '#' := by
  by_cases htrailing : t.trailing = []
  · rw [htrailing, Trivia.code_nil, List.nil_append]
    cases ts with
    | nil =>
        by_cases hending : ending = []
        · rw [hending]
          exact fun heq => by cases heq
        · have hhead := head_of_canonical hcanonical.2 hending []
          rwa [List.append_nil] at hhead
    | cons u ts =>
        rw [codeOf_cons, Token.code, List.append_assoc, List.append_assoc, List.append_assoc]
        by_cases hleading : u.leading = []
        · have hhead := (List.isChain_cons_cons.mp hsteady.signs).1 ht htrailing hleading
          cases htext : u.text with
          | nil => exact absurd htext (htexts u (List.mem_cons_self ..))
          | cons c s =>
              rw [htext] at hhead
              rw [hleading]
              exact hhead
        · exact head_of_canonical (hcanonical.1 u (by simp)).1 hleading _
  · exact head_of_canonical (hcanonical.1 t (by simp)).2 htrailing _

theorem holds_of_lexes {previous : Option Token} {t : Text} {body : List Token} {ending : Trivia}
    (h : Lexes previous t body ending) (hsteady : Steady body)
    (hprevious : ∀ p ∈ previous, p.trailing.containsNewline = false ∧
      ∃ u, t = (Trivia.scan true u).2) :
    Holds previous ending.code body ∧ Lined previous body := by
  have hcanonical := canonical_of_lexes h
  have htexts := text_of_lexes h
  -- By induction on the reading. What stands in front of each token is what the token before it
  -- left, so the step hands down that this was read up to the end of a line.
  induction h with
  | ending gap => exact ⟨trivial, trivial⟩
  | @token previous t leading trailing ending c r rest kind n body gap found behind next ih =>
      have hle := Token.measure_le found
      rcases Nat.exists_eq_succ_of_ne_zero (Nat.ne_of_gt (Token.measure_pos found)) with ⟨m, rfl⟩
      have hlength : (r.take m).length = m := by
        rw [List.length_take]
        omega
      have hbehind := Trivia.code_scan true ((c :: r).drop (m + 1))
      rw [behind, ← code_of_lexes next] at hbehind
      have hr : r.take m ++ (trailing.code ++ (codeOf body ++ ending.code)) = r := by
        rw [codeOf, hbehind, List.drop_succ_cons, List.take_append_drop]
      have hline := Trivia.containsNewline_scan ((c :: r).drop (m + 1))
      rw [behind] at hline
      have hleadingBreak : previous.isSome = true → ∀ p ∈ leading.head?, p.isNewline = true := by
        intro hsome
        rcases Option.isSome_iff_exists.mp hsome with ⟨p, hp⟩
        rcases (hprevious p hp).2 with ⟨u, rfl⟩
        have hhead := Trivia.scan_behind_line u
        rw [gap] at hhead
        exact hhead
      have hmarks := Token.afterTry_eq_marksBehind (fun p hp => (hprevious p hp).1) hleadingBreak
      have hleading := Trivia.holdsBefore_scan false t
      have htrailing := Trivia.holdsBefore_scan true ((c :: r).drop (m + 1))
      rw [gap] at hleading
      rw [behind] at htrailing
      have hrest := ih hsteady.tail (by
        intro p hp
        cases hp
        exact ⟨hline, (c :: r).drop (m + 1), by rw [behind]⟩)
        ⟨fun x hx => hcanonical.1 x (List.mem_cons_of_mem _ hx), hcanonical.2⟩
        fun x hx => htexts x (List.mem_cons_of_mem _ hx)
      have hself : (⟨kind, (c :: r).take (m + 1), leading, trailing⟩ : Token) ∈
          (⟨kind, (c :: r).take (m + 1), leading, trailing⟩ : Token) :: body := List.mem_cons_self ..
      refine ⟨⟨?_, ⟨c, r.take m, rfl, ?_⟩, ?_, hrest.1⟩, ⟨hline, hleadingBreak⟩, hrest.2⟩
      · show leading.HoldsBefore (c :: r.take m ++ (trailing.code ++ (codeOf body ++ ending.code)))
        rw [List.cons_append, hr]
        exact hleading (.inl (List.cons_ne_nil c r))
      · refine ⟨?_, ?_, ?_, ?_, ?_⟩
        · rw [hr, hlength, ← hmarks]
          exact found
        · rw [hr]
          have hnext := Trivia.next?_scan t
          rw [gap] at hnext
          exact hnext
        · rintro rfl
          rw [measure_return] at found
          cases found
          exact hsteady.returns _ hself rfl
        · intro hc hs
          apply head_of_steady hsteady hcanonical fun x hx => (htexts x (List.mem_cons_of_mem _ hx)).2
          show c :: r.take m = ['<']
          rw [hc, hs]
        · intro hc
          exact hsteady.names _ hself (congrArg some hc)
      · rw [codeOf, code_of_lexes next]
        exact htrailing (.inr (hsteady.comments _ hself))

end Tokens
end ForceTry

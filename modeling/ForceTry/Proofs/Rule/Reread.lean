import ForceTry.Proofs.Indentation.Reread
import ForceTry.Proofs.Rule.Build

/-!
# Wrapped statements read back

The tokens that the rule makes of a statement may take its place in a source.  The statement keeps its
tokens in the body of `do`, on lines of their own, and the tokens around it are words, braces and a
placeholder, which read back behind whatever stands in front of them.
-/

namespace ForceTry

open ForceTry.Text ForceTry.Tokens

namespace IndentUnit

theorem indents_piece {u : IndentUnit} (hu : 0 < u.width) : Trivia.Indents [u.piece] := by
  intro p hp
  rw [List.mem_singleton] at hp
  refine ⟨u.run, u.width, hp, ?_, by omega⟩
  cases u <;> rfl

theorem indents_addedTo {u : IndentUnit} (hu : 0 < u.width) {base : Trivia} (h : base.Indents) :
    (u.addedTo base).Indents := by
  have hadded : (base ++ [u.piece]).Indents := by
    intro p hp
    rcases List.mem_append.mp hp with hp | hp
    · exact h p hp
    · exact indents_piece hu p hp
  unfold addedTo
  split
  · next kind count hlast =>
      split
      · next hkind =>
          rcases List.getLast?_eq_some_iff.mp hlast with ⟨front, rfl⟩
          rw [List.dropLast_concat]
          intro p hp
          rcases List.mem_append.mp hp with hp | hp
          · exact h p (List.mem_append_left _ hp)
          · rcases h (.run kind count) (by simp) with ⟨kind', n, heq, hbreaks, hn⟩
            cases heq
            exact ⟨kind, count + u.width, List.mem_singleton.mp hp, hbreaks, by omega⟩
      · exact hadded
  · exact hadded

end IndentUnit

namespace Token

theorem holdsBefore_keyword {t : Token} (word : String) (h : t.isKeyword word = true)
    (hword : isReserved word.toList = true ∧ word.toList.head?.any startsIdentifier = true ∧
      word.toList.all isIdentifierChar = true)
    (marks : Bool) {r : Text} (hr : ∀ d ∈ r.head?, isIdentifierChar d = false) :
    t.HoldsBefore marks r := by
  rw [isKeyword, Bool.and_eq_true, beq_iff_eq, beq_iff_eq] at h
  rcases hword with ⟨hreserved, hstarts, hall⟩
  cases htext : word.toList with
  | nil =>
      rw [htext] at hstarts
      cases hstarts
  | cons c s =>
      rw [htext] at hreserved hstarts hall
      have hfound := found_word hstarts
        (fun d hd => List.all_eq_true.mp hall d (List.mem_cons_of_mem c hd)) hr marks
      rw [if_pos hreserved] at hfound
      exact ⟨c, s, h.2.trans htext, h.1 ▸ hfound⟩

theorem holdsBefore_punctuation {t : Token} {c : Char} (htext : t.text = [c])
    (h : punctuation? c = some t.kind) (marks : Bool) (r : Text) : t.HoldsBefore marks r :=
  ⟨c, [], htext, found_punctuation h marks r⟩

theorem holdsBefore_placeholder {text : Text} (h : placeholderLength? text = some text.length)
    (leading trailing : Trivia) (marks : Bool) (r : Text) :
    (Token.placeholder text leading trailing).HoldsBefore marks r := by
  unfold placeholderLength? at h
  split at h
  · next s =>
      rcases Option.map_eq_some_iff.mp h with ⟨i, hi, hlength⟩
      have hfind : find? ['#', '>'] (s ++ r) = some i := by
        apply find?_append (t := []) _ _ r
        · rw [List.append_nil]
          exact hi
        · simp only [List.length_cons, List.length_nil] at hlength ⊢
          omega
      refine ⟨'<', '#' :: s, rfl, ?_, rfl, by decide, fun _ hnil => absurd hnil (List.cons_ne_nil _ _),
        fun hc => absurd hc (by decide)⟩
      apply measure_placeholder
      show (find? ['#', '>'] (s ++ r)).map (· + 4) = _
      rw [hfind]
      exact congrArg some hlength
  · cases h

end Token

namespace DoCatch

/-!
# The parts of a layout
-/

structure Layout.Written (o : Layout) : Prop where
  newline : ∃ kind : Run, kind.breaksLine = true ∧ o.newline = [.run kind 1]
  base : o.base.Indents
  unit : 0 < o.unit.width
  placeholder : Token.placeholderLength? o.placeholder = some o.placeholder.length

theorem holdsBefore_newline {o : Layout} (ho : o.Written) (u : Text) : o.newline.HoldsBefore u := by
  rcases ho.newline with ⟨kind, _, hnewline⟩
  rw [hnewline]
  exact ⟨Int.one_pos, trivial⟩

theorem holdsBefore_line {o : Layout} (ho : o.Written) {indentation : Trivia}
    (h : indentation.Indents) (u : Text) : (o.newline ++ indentation).HoldsBefore u := by
  rw [Trivia.holdsBefore_append]
  exact ⟨holdsBefore_newline ho _, Trivia.holdsBefore_of_indents h u⟩

theorem line_of_layout {o : Layout} (ho : o.Written) {indentation : Trivia}
    (h : indentation.Indents) (u : Text) :
    Quiet ((o.newline ++ indentation).code ++ u) ∧ EndsLine ((o.newline ++ indentation).code ++ u) := by
  have hline := holdsBefore_line ho h u
  rcases ho.newline with ⟨kind, hbreaks, hnewline⟩
  apply Trivia.line_of_newline hline (p := .run kind 1)
  · rw [hnewline]
    rfl
  · exact hbreaks

theorem indents_deeper {o : Layout} (ho : o.Written) : o.deeper.Indents :=
  IndentUnit.indents_addedTo ho.unit ho.base

/-- Trivia in front of a token is divided into trivia that can stand in front of any text and trivia
that can stand in front of the token. -/
theorem holdsBefore_splitLeading {base leading : Trivia} (hbase : base.Indents) {u : Text}
    (h : leading.HoldsBefore u) (hu : ¬ EndsLine u) (atLineStart : Bool) (v : Text) :
    (splitLeading leading base atLineStart).1.HoldsBefore v ∧
      (splitLeading leading base atLineStart).2.HoldsBefore u := by
  cases atLineStart with
  | false => exact ⟨h.mono fun hline => absurd hline hu, trivial⟩
  | true =>
      rw [← Trivia.throughLastNewline_append_afterLastNewline leading,
        Trivia.holdsBefore_append] at h
      have hrest : ¬ EndsLine (leading.afterLastNewline.code ++ u) :=
        Trivia.not_endsLine_of_holdsBefore h.2 (Trivia.containsNewline_afterLastNewline leading) hu
      refine ⟨?_, Trivia.holdsBefore_strip h.2 base⟩
      show (leading.throughLastNewline ++ base).HoldsBefore v
      rw [Trivia.holdsBefore_append]
      exact ⟨h.1.mono fun hline => absurd hline hrest, Trivia.holdsBefore_of_indents hbase v⟩

theorem head?_splitLeading {leading : Trivia} {p : Piece} (hhead : leading.head? = some p)
    (hp : p.isNewline = true) (base : Trivia) (atLineStart : Bool) :
    (splitLeading leading base atLineStart).1.head? = some p := by
  cases atLineStart with
  | false => exact hhead
  | true =>
      show (leading.throughLastNewline ++ base).head? = _
      cases leading with
      | nil => cases hhead
      | cons q leading =>
          cases hhead
          have hbreak : Trivia.containsNewline (p :: leading) = true := by
            rw [Trivia.containsNewline_cons, hp, Bool.true_or]
          unfold Trivia.throughLastNewline
          split
          · next hnone =>
              rw [Trivia.containsNewline_of_lastNewlineIndex?_eq_none hnone] at hbreak
              cases hbreak
          · rfl

/-!
# The statement in the body
-/

theorem doLeading_cons (o : Layout) (t : Token) (ts : List Token) :
    o.doLeading (t :: ts) = (o.split t).1 := by
  cases ts <;> rfl

variable {previous : Option Token} {r : Text} {ts ts' : List Token}

theorem holds_trimLast (h : Holds previous r ts) (hquiet : Quiet r) (hline : EndsLine r) :
    Holds previous r (trimLast ts) := by
  rcases List.eq_nil_or_concat ts with rfl | ⟨front, last, rfl⟩
  · trivial
  rw [List.concat_eq_append] at h ⊢
  rw [trimLast_append]
  rw [holds_append] at h ⊢
  rcases h with ⟨hfront, hleading, htoken, htrailing, _⟩
  rw [codeOf_nil, List.nil_append] at hleading htoken htrailing
  have hblanks := htrailing
  rw [← Trivia.withoutTrailingBlanks_append_trailingBlanks last.trailing,
    Trivia.holdsBefore_append] at hblanks
  have hbehind : Outlook (last.trailing.code ++ r) (last.trailing.withoutTrailingBlanks.code ++ r) := by
    have hquiet' := Trivia.quiet_of_blanks hblanks.2 (Trivia.isBlank_of_mem_trailingBlanks _) hquiet
    have hall := (Outlook.of_quiet hquiet' hquiet fun _ => hline).append
      last.trailing.withoutTrailingBlanks.code
    rw [← List.append_assoc, ← Trivia.code_append,
      Trivia.withoutTrailingBlanks_append_trailingBlanks] at hall
    exact hall
  refine ⟨hfront.replace (fun _ => rfl) (follows_of_outlook ?_ _), ?_, htoken.append hbehind, ?_,
    trivial⟩
  · have hall := (hbehind.append last.text).append last.leading.code
    simpa [codeOf_cons, codeOf_nil, Token.code] using hall
  · exact hleading.mono (endsLine_append_of_holds htoken _ _)
  · exact hblanks.1.mono fun _ => hline

theorem holds_dress {o : Layout} (ho : o.Written)
    (hprevious : ∀ p ∈ previous, p.isKeyword "try" = false) (h : Holds previous r ts)
    (hquiet : Quiet r) (hline : EndsLine r) : Holds previous r (o.dress ts) := by
  have htrim := holds_trimLast h hquiet hline
  unfold Layout.dress
  cases hts : trimLast ts with
  | nil => trivial
  | cons first rest =>
      rw [hts] at htrim
      rcases htrim with ⟨hleading, htoken, htrailing, hrest⟩
      have hstays := (holdsBefore_splitLeading ho.base hleading (not_endsLine_of_holds htoken _)
        o.atLineStart []).2
      have hsplit : Holds previous r ({ first with leading := (o.split first).2 } :: rest) := by
        refine ⟨hstays, ?_, htrailing, hrest.of_sameMarks fun _ => rfl⟩
        rw [marksBehind_of_not_try hprevious] at htoken ⊢
        exact htoken
      rcases (replaces_shift o.base (indents_deeper ho) hsplit).holds previous r (fun _ => rfl)
        (follows_of_outlook (.refl r) _) with ⟨hmoved, hfirst, hbehind, hmovedRest⟩
      refine ⟨?_, ?_, hbehind, hmovedRest.of_sameMarks fun _ => rfl⟩
      · show (o.newline ++ (o.deeper ++ _)).HoldsBefore _
        rw [Trivia.holdsBefore_append, Trivia.holdsBefore_append]
        exact ⟨holdsBefore_newline ho _, Trivia.holdsBefore_of_indents (indents_deeper ho) _, hmoved⟩
      · rw [marksBehind_of_not_try hprevious] at hfirst ⊢
        exact hfirst

/-!
# The tokens around it
-/

namespace Layout

def opening (o : Layout) (ts : List Token) : List Token :=
  [⟨.keyword, "do".toList, o.doLeading ts, [.spaces 1]⟩, Token.leftBrace [] []]

def closing (o : Layout) (blanks : Trivia) : List Token :=
  [Token.rightBrace (o.newline ++ o.base) [.spaces 1], ⟨.keyword, "catch".toList, [], [.spaces 1]⟩,
   Token.leftBrace [] [], Token.placeholder o.placeholder (o.newline ++ o.deeper) [],
   Token.rightBrace (o.newline ++ o.base) blanks]

def wrappedTokens (o : Layout) (ts : List Token) : List Token :=
  o.opening ts ++ (o.dress ts ++ o.closing (blanksBehind ts))

end Layout

theorem tokens_wrapped (o : Layout) (content : Tree) :
    (o.wrapped content).tokens = o.wrappedTokens content.tokens := by
  have hlength := length_dress o content.tokens
  have hrefill : (content.refill (o.dress content.tokens)).tokens = o.dress content.tokens := by
    rw [Tree.tokens_refill _ _ (Nat.le_of_eq hlength.symm), ← hlength, List.take_length]
  simp [Layout.wrapped, Layout.braces, Layout.wrappedTokens, Layout.opening, Layout.closing, hrefill]

theorem holdsBefore_space (u : Text) : Trivia.HoldsBefore u [.spaces 1] := ⟨Int.one_pos, trivial⟩

theorem not_identifier_of_space (u : Text) :
    ∀ d ∈ ((Trivia.code [.spaces 1]) ++ u).head?, Token.isIdentifierChar d = false := by
  intro d hd
  cases hd
  rfl

theorem holds_opening {o : Layout} (u : Text)
    (h : ∀ v, (o.doLeading ts).HoldsBefore v) (previous : Option Token) :
    Holds previous u (o.opening ts) :=
  ⟨h _, Token.holdsBefore_keyword "do" rfl ⟨rfl, rfl, rfl⟩ _ (not_identifier_of_space _),
    holdsBefore_space _, trivial, Token.holdsBefore_punctuation rfl rfl _ _, trivial, trivial⟩

theorem holds_closing {o : Layout} (ho : o.Written) {blanks : Trivia} (h : blanks.Indents) (u : Text)
    (previous : Option Token) : Holds previous u (o.closing blanks) :=
  ⟨holdsBefore_line ho ho.base _, Token.holdsBefore_punctuation rfl rfl _ _, holdsBefore_space _,
    trivial, Token.holdsBefore_keyword "catch" rfl ⟨rfl, rfl, rfl⟩ _ (not_identifier_of_space _),
    holdsBefore_space _, trivial, Token.holdsBefore_punctuation rfl rfl _ _, trivial,
    holdsBefore_line ho (indents_deeper ho) _,
    Token.holdsBefore_placeholder ho.placeholder _ _ _ _, trivial,
    holdsBefore_line ho ho.base _, Token.holdsBefore_punctuation rfl rfl _ _,
    Trivia.holdsBefore_of_indents h _, trivial⟩

theorem trailing_of_holds {front : List Token} {last : Token}
    (h : Holds previous r (front ++ [last])) : last.trailing.HoldsBefore r :=
  (holds_append.mp h).2.2.2.1

theorem indents_blanksBehind (h : Holds previous r ts) : (blanksBehind ts).Indents := by
  rcases List.eq_nil_or_concat ts with rfl | ⟨front, last, rfl⟩
  · intro p hp
    cases hp
  rw [List.concat_eq_append] at h ⊢
  have htrailing := trailing_of_holds h
  rw [← Trivia.withoutTrailingBlanks_append_trailingBlanks last.trailing,
    Trivia.holdsBefore_append] at htrailing
  rw [blanksBehind_append]
  exact Trivia.indents_of_blanks htrailing.2 (Trivia.isBlank_of_mem_trailingBlanks _)

/-!
# A statement that is wrapped
-/

/-- What stands around a statement that can be wrapped: nothing sees the statement in front of it if
no line break does so, and the statement ends in front of something that it does not see. -/
structure Apart (previous : Option Token) (r : Text) (ts : List Token) : Prop where
  front : ∀ p ∈ previous, p.isKeyword "try" = false
  start : ∀ p ∈ previous, p.Free ∨ ∀ t ∈ ts.head?, t.leading ≠ []
  last : ∀ t ∈ lastToken previous ts, t.isKeyword "try" = false
  quiet : Quiet r

theorem follows_wrapped {o : Layout} {first first' : Token} {rest rest' : List Token}
    (h : Holds previous r (first :: rest)) (hlined : Lined previous (first :: rest))
    (hfree : ∀ p ∈ previous, p.Free ∨ first.leading ≠ []) (hleading : first'.leading = first.leading)
    (hdo : ∀ v, (o.doLeading (first' :: rest')).HoldsBefore v) (r' : Text) :
    Follows previous (codeOf (first :: rest) ++ r)
      (codeOf (o.wrappedTokens (first' :: rest')) ++ r') := by
  intro p hp
  rcases h with ⟨hgap, htoken, _⟩
  have hlined := hlined.1.2 (by rw [hp]; rfl)
  have hnew : ∃ u, codeOf (o.wrappedTokens (first' :: rest')) ++ r' =
      (o.doLeading (first' :: rest')).code ++ u :=
    ⟨_, codeOf_cons_append ⟨.keyword, "do".toList, o.doLeading (first' :: rest'), [.spaces 1]⟩ _ r'⟩
  rcases hnew with ⟨u, hnew⟩
  rw [codeOf_cons_append first rest r, hnew]
  cases hfirst : first.leading with
  | nil =>
      refine .inr ⟨(hfree p hp).resolve_right fun hne => hne hfirst, fun hline => ?_⟩
      exact absurd hline (not_endsLine_of_holds htoken _)
  | cons q gap =>
      have hq := hlined q (by rw [hfirst]; rfl)
      have hhead : (o.doLeading (first' :: rest')).head? = some q := by
        rw [doLeading_cons]
        exact head?_splitLeading (by rw [hleading, hfirst]; rfl) hq o.base o.atLineStart
      rw [hfirst] at hgap
      have hline := Trivia.line_of_newline hgap rfl hq
      have hline' := Trivia.line_of_newline (hdo u) hhead hq
      exact .inl (.of_quiet hline.1 hline'.1 fun _ => hline'.2)

theorem replaces_wrapped {o : Layout} (ho : o.Written) {first first' : Token}
    {rest rest' : List Token} (hold : Holds previous r (first :: rest))
    (hlined : Lined previous (first :: rest)) (hapart : Apart previous r (first :: rest))
    (hleading : first'.leading = first.leading)
    (h : Replaces previous r (first :: rest) (first' :: rest')) :
    Replaces previous r (first :: rest) (o.wrappedTokens (first' :: rest')) := by
  have hbody : ∀ u, Quiet u → EndsLine u →
      Holds (some (Token.leftBrace [] [])) u (first' :: rest') := by
    intro u hquiet hline
    refine h.holds _ u (sameMarks_of_not_try hapart.front fun p hp => ?_)
      (follows_of_outlook (.of_quiet hapart.quiet hquiet fun _ => hline) _)
    cases hp
    rfl
  have hline := line_of_layout ho ho.base
  have hdo : ∀ v, (o.doLeading (first' :: rest')).HoldsBefore v := by
    intro v
    have hfirst := hbody _ (hline []).1 (hline []).2
    rw [doLeading_cons]
    exact (holdsBefore_splitLeading ho.base hfirst.1 (not_endsLine_of_holds hfirst.2.1 _) _ v).1
  refine ⟨?_, fun r' _ => ?_, ?_⟩
  · intro previous' _
    apply sameMarks_of_not_try hapart.last
    intro p hp
    rw [Layout.wrappedTokens, lastToken_append, lastToken_append] at hp
    cases hp
    rfl
  · exact follows_wrapped hold hlined (fun p hp => (hapart.start p hp).imp id fun hne => hne first rfl)
      hleading hdo r'
  · intro previous' r' _ _
    have hclosing : ∃ u, codeOf (o.closing (blanksBehind (first' :: rest'))) ++ r' =
        (o.newline ++ o.base).code ++ u :=
      ⟨_, codeOf_cons_append (Token.rightBrace (o.newline ++ o.base) [.spaces 1]) _ r'⟩
    rcases hclosing with ⟨u, hclosing⟩
    have hstatement := hbody _ (hline u).1 (hline u).2
    rw [Layout.wrappedTokens, holds_append, holds_append]
    refine ⟨holds_opening _ hdo previous', ?_, ?_⟩
    · rw [hclosing]
      refine holds_dress ho (fun p hp => ?_) hstatement (hline u).1 (hline u).2
      cases hp
      rfl
    · exact holds_closing ho (indents_blanksBehind hstatement) r' _

/-!
# A `try` that loses its mark
-/

/-- Without its mark the `try` would take the first character of its operand for one: a line break
comes first behind `try`, and the operand starts with such a sign. -/
def exposes (keyword mark first : Token) : Bool :=
  first.startsWithMark &&
    (keyword.trailing ++ mark.leading ++ mark.trailing ++ first.leading).head?.any Piece.isNewline

theorem trailingOfTry_cases (keyword mark : Token) {operand : Tree} {first : Token}
    {rest : List Token} (h : operand.tokens = first :: rest) :
    trailingOfTry keyword mark operand = [.spaces 1] ∨
      trailingOfTry keyword mark operand = keyword.trailing ++ mark.leading ++ mark.trailing ∧
        keyword.trailing ++ mark.leading ++ mark.trailing ++ first.leading ≠ [] := by
  have hfirst : operand.firstLeaf?.any (·.token.leading.isEmpty) = first.leading.isEmpty := by
    rw [any_firstLeaf?, h]
    rfl
  rw [trailingOfTry, hfirst]
  split
  · exact .inl rfl
  · next hne =>
      refine .inr ⟨rfl, fun hnil => hne ?_⟩
      rw [List.append_eq_nil_iff] at hnil
      rw [hnil.1, hnil.2]
      rfl

theorem holdsBefore_aroundMark {keyword mark : Token} {os : List Token}
    (h : Holds previous r (keyword :: mark :: os)) {u : Text}
    (hline : EndsLine (codeOf os ++ r) → EndsLine u) :
    (keyword.trailing ++ mark.leading ++ mark.trailing).HoldsBefore u := by
  rcases h with ⟨_, _, hbehind, hleading, hmark, htrailing, _⟩
  rw [codeOf_cons_append] at hbehind
  have hfront : (keyword.trailing ++ mark.leading).HoldsBefore
      (mark.text ++ (mark.trailing.code ++ (codeOf os ++ r))) := by
    rw [Trivia.holdsBefore_append]
    exact ⟨hbehind, hleading⟩
  rw [Trivia.holdsBefore_append]
  refine ⟨hfront.mono fun hmarkLine => absurd hmarkLine (not_endsLine_of_holds hmark _),
    htrailing.mono hline⟩

theorem outlook_try (t t' : Text) : Outlook ("try".toList ++ t) ("try".toList ++ t') := by
  refine ⟨ahead_append_of_le (by decide) t t', ?_, fun hline => ?_⟩
  · show Literal.opensAt ('t' :: _) = Literal.opensAt ('t' :: _)
    rw [Literal.opensAt_cons, Literal.opensAt_cons]
    rfl
  · exact absurd hline (not_endsLine_cons rfl _)

theorem not_identifier_of_trailingOfTry {keyword mark : Token} {operand : Tree} {first : Token}
    {rest : List Token} {u : Text} (hoperand : operand.tokens = first :: rest)
    (hgap : (keyword.trailing ++ mark.leading ++ mark.trailing).HoldsBefore (first.leading.code ++ u))
    (hleading : first.leading.HoldsBefore u) :
    ∀ d ∈ ((trailingOfTry keyword mark operand).code ++ (first.leading.code ++ u)).head?,
      Token.isIdentifierChar d = false := by
  rcases trailingOfTry_cases keyword mark hoperand with hspace | ⟨heq, hsome⟩
  · rw [hspace]
    exact not_identifier_of_space _
  · have hall := Trivia.holdsBefore_append.mpr ⟨hgap, hleading⟩
    have hhead := Trivia.not_identifier_of_holdsBefore hall hsome
    rw [Trivia.code_append, List.append_assoc] at hhead
    rw [heq]
    exact hhead

theorem marksBehind_trailingOfTry {keyword mark : Token} {operand : Tree} {first : Token}
    {rest : List Token} (hoperand : operand.tokens = first :: rest)
    (hexposes : exposes keyword mark first = false) :
    Token.marksBehind
        (some { keyword with trailing := trailingOfTry keyword mark operand }) first.leading = false ∨
      first.startsWithMark = false := by
  rw [exposes, Bool.and_eq_false_iff] at hexposes
  refine hexposes.symm.imp (fun hbreak => ?_) id
  show (keyword.isKeyword "try" && (trailingOfTry keyword mark operand ++
    first.leading).head?.all Piece.isNewline) = false
  rcases trailingOfTry_cases keyword mark hoperand with hspace | ⟨heq, hsome⟩
  · rw [hspace]
    exact Bool.and_false _
  · rcases List.exists_cons_of_ne_nil hsome with ⟨p, gap, hcons⟩
    rw [heq, hcons]
    rw [hcons] at hbreak
    have hp : p.isNewline = false := hbreak
    rw [List.head?_cons, Option.all_some, hp, Bool.and_false]

/-- A `try` without its mark may take the place of the `try` with it, if it exposes nothing. -/
theorem replaces_unmark {keyword mark : Token} {operand : Tree} {first : Token} {rest : List Token}
    (hkeyword : keyword.isKeyword "try" = true) (hmark : mark.kind.marksTry = true)
    (h : Holds previous r (keyword :: mark :: first :: rest))
    (hos : Replaces (some mark) r (first :: rest) operand.tokens)
    (hfirst : operand.tokens.head? = some first) (hexposes : exposes keyword mark first = false) :
    Replaces previous r (keyword :: mark :: first :: rest)
      ({ keyword with trailing := trailingOfTry keyword mark operand } :: operand.tokens) := by
  have htext : keyword.text = "try".toList := by
    rw [Token.isKeyword, Bool.and_eq_true, beq_iff_eq, beq_iff_eq] at hkeyword
    exact hkeyword.2
  have hnot : ∀ p ∈ some mark, p.isKeyword "try" = false := by
    rintro p ⟨⟩
    rw [Token.isKeyword, Bool.and_eq_false_imp]
    intro hkind
    rw [beq_iff_eq.mp hkind] at hmark
    cases hmark
  rcases List.head?_eq_some_iff.mp hfirst with ⟨rest', hoperand⟩
  rw [hoperand] at hos ⊢
  refine ⟨fun previous' _ => ?_, fun r' _ => ?_, fun previous' r' hprevious hr => ?_⟩
  · have hlast := hos.last (some mark) fun _ => rfl
    rw [lastToken_cons, lastToken_cons] at hlast
    rw [lastToken_cons, lastToken_cons, lastToken_cons, lastToken_cons, lastToken_cons]
    exact hlast
  · apply follows_of_outlook
    rw [codeOf_cons_append keyword, codeOf_cons_append ({ keyword with trailing := _ }), htext]
    exact (outlook_try _ _).append keyword.leading.code
  · rw [lastToken_cons, lastToken_cons] at hr
    have hrest := hos.holds (some mark) r' (fun _ => rfl) hr
    -- Three things can go wrong: what stood around the mark runs on, the word `try` does, or the
    -- operand starts with what would be the mark of this `try`.
    have hgap := holdsBefore_aroundMark h (hos.follows r' hr).line
    have hword := not_identifier_of_trailingOfTry hoperand
      (by rw [← codeOf_cons_append]; exact hgap) hrest.1
    rw [← codeOf_cons_append] at hword
    refine ⟨h.1.mono (endsLine_append_of_holds h.2.1 _ _),
      Token.holdsBefore_keyword "try" hkeyword ⟨rfl, rfl, rfl⟩ _ hword, ?_, ?_⟩
    · rcases trailingOfTry_cases keyword mark hoperand with hspace | ⟨heq, _⟩
      · rw [hspace]
        exact holdsBefore_space _
      · rw [heq]
        exact hgap
    · apply hrest.of_previous
      rw [marksBehind_of_not_try hnot, eq_comm]
      exact marksBehind_trailingOfTry hoperand hexposes

end DoCatch
end ForceTry

import ForceTry.Proofs.Indentation.Margins
import ForceTry.Proofs.Rule.Reread

/-!
# Wrapped statements keep the margins

The lines that the rule begins are indented by steps, and the lines of the statement are moved by
steps.  So every line of a wrapped statement has a margin that may end where it does, if this is so for
the lines of the statement.
-/

namespace ForceTry
namespace DoCatch

open ForceTry.Text ForceTry.Tokens

variable {n : Nat} {a b : Column n} {o : Layout}

structure Layout.Aligned (n : Nat) (o : Layout) : Prop where
  unit : o.unit.IsStep n
  base : o.base.Steps n
  newline : o.newline = Trivia.newline
  placeholder : ∃ s, o.placeholder = '<' :: s ∧ '\n' ∉ s

theorem steps_deeper (ho : o.Aligned n) : o.deeper.Steps n :=
  IndentUnit.steps_addedTo ho.unit ho.base

theorem walk?_newLine (ho : o.Aligned n) {indentation : Trivia} (h : indentation.Steps n)
    (a : Column n) (u : Text) :
    a.walk? ((o.newline ++ indentation).code ++ u) = (Column.margin 0 : Column n).walk? u := by
  rw [ho.newline]
  show a.walk? ('\n' :: (indentation.code ++ u)) = _
  rw [Column.walk?_cons_of_some (Column.next?_newline a), Trivia.walk?_steps_append h]

theorem walk?_line (ho : o.Aligned n) {indentation : Trivia} (h : indentation.Steps n)
    (a : Column n) {c : Char} (hc : EndsMargin c) (u : Text) :
    a.walk? ((o.newline ++ indentation).code ++ c :: u) = (Column.inside : Column n).walk? u := by
  rw [walk?_newLine ho h, Column.open_margin.walk?_cons hc]

/-!
# The statement in the body
-/

theorem walk?_shift_token (ho : o.Aligned n) (t : Token) (a : Column n) :
    a.walk? (t.shift o.base o.deeper).code = a.walk? t.code := by
  have hshift := @Trivia.walk?_shift n o.base o.deeper ho.base (steps_deeper ho)
  rw [Token.shift, Token.code, Token.code]
  exact Column.walk?_append_congr
    (Column.walk?_append_congr (hshift t.leading a) fun _ => rfl) (hshift t.trailing)

theorem walk?_shift_tokens (ho : o.Aligned n) (ts : List Token) (a : Column n) :
    a.walk? (codeOf (ts.map (Token.shift o.base o.deeper))) = a.walk? (codeOf ts) := by
  induction ts generalizing a with
  | nil => rfl
  | cons t ts ih =>
      rw [List.map_cons, codeOf_cons, codeOf_cons]
      exact Column.walk?_append_congr (walk?_shift_token ho t a) ih

theorem walk?_splitLeading {base leading : Trivia} (hbase : base.Steps n)
    (hcanonical : leading.Canonical) (h : a.walk? leading.code = some b) (hb : b.Open)
    {atLineStart : Bool}
    (hline : atLineStart = true → leading.containsNewline = true ∨ a = .margin 0) :
    (∃ d, a.walk? (splitLeading leading base atLineStart).1.code = some d ∧ d.Open) ∧
      ∃ d, (Column.margin 0 : Column n).walk? (splitLeading leading base atLineStart).2.code =
        some d ∧ d.Open := by
  cases atLineStart with
  | false => exact ⟨⟨b, h, hb⟩, .margin 0, rfl, Column.open_margin⟩
  | true =>
      rcases Trivia.walk?_throughLastNewline hcanonical h (hline rfl) with ⟨hfront, hbehind⟩
      constructor
      · refine ⟨.margin 0, ?_, Column.open_margin⟩
        show a.walk? (Trivia.code (leading.throughLastNewline ++ base)) = _
        rw [Trivia.code_append, Column.walk?_append_of_some hfront, Trivia.walk?_steps hbase]
      · refine ⟨b, ?_, hb⟩
        show (Column.margin 0 : Column n).walk? (leading.afterLastNewline.strip base).code = _
        rw [Trivia.walk?_strip hbase]
        exact hbehind

theorem trimLast_cons (t : Token) (ts : List Token) :
    ∃ trailing rest, trimLast (t :: ts) = { t with trailing } :: rest := by
  cases ts with
  | nil => exact ⟨_, [], rfl⟩
  | cons u ts => exact ⟨t.trailing, trimLast (u :: ts), rfl⟩

theorem codeOf_trimLast (ts : List Token) :
    codeOf (trimLast ts) ++ (blanksBehind ts).code = codeOf ts := by
  rcases List.eq_nil_or_concat ts with rfl | ⟨front, last, rfl⟩
  · rfl
  have htrailing := congrArg Trivia.code
    (Trivia.withoutTrailingBlanks_append_trailingBlanks last.trailing)
  rw [Trivia.code_append] at htrailing
  rw [List.concat_eq_append, trimLast_append, blanksBehind_append, codeOf_append, codeOf_append,
    codeOf_cons, codeOf_cons, Token.code, Token.code, codeOf_nil, List.append_nil, List.append_nil,
    List.append_assoc, List.append_assoc, htrailing]

theorem codeOf_dressed (o : Layout) (first : Token) (rest : List Token) :
    codeOf (o.dressFirst first :: rest.map (Token.shift o.base o.deeper)) =
      (o.newline ++ o.deeper).code ++
        codeOf (({ first with leading := (o.split first).2 } :: rest).map
          (Token.shift o.base o.deeper)) := by
  simp [codeOf_cons, Layout.dressFirst, Token.code, Token.shift]

/-- The trivia in front of `do` and the statement in the body can be walked, each from where it comes to
stand. -/
theorem walk?_dress (ho : o.Aligned n) {first : Token} {rest : List Token}
    (hcanonical : first.leading.Canonical) (htext : ∃ c s, first.text = c :: s ∧ EndsMargin c)
    (hline : o.atLineStart = true → first.leading.containsNewline = true ∨ a = .margin 0)
    (h : a.walk? (codeOf (first :: rest)) = some b) :
    (∃ d, a.walk? (o.doLeading (first :: rest)).code = some d ∧ d.Open) ∧
      ∃ d, (Column.inside : Column n).walk? (codeOf (o.dress (first :: rest))) = some d := by
  rw [← codeOf_trimLast] at h
  rcases Column.walk?_append_some h with ⟨d, hd, _⟩
  rcases trimLast_cons first rest with ⟨trailing, rest', htrim⟩
  rcases htext with ⟨c, s, htext, hc⟩
  rw [htrim, ← List.append_nil (codeOf _), codeOf_cons_append, htext] at hd
  rcases Column.walk?_append_some hd with ⟨e, he, hrest⟩
  have hopen := Column.open_of_walk? hc hrest
  rw [List.cons_append, hopen.walk?_cons hc] at hrest
  rcases walk?_splitLeading ho.base hcanonical he hopen hline with ⟨hfront, e', he', hopen'⟩
  constructor
  · rw [doLeading_cons]
    exact hfront
  · refine ⟨d, ?_⟩
    rw [Layout.dress, htrim]
    show (Column.inside : Column n).walk? (codeOf (o.dressFirst _ :: _)) = _
    rw [codeOf_dressed, walk?_newLine ho (steps_deeper ho), walk?_shift_tokens ho,
      ← List.append_nil (codeOf _), codeOf_cons_append, htext]
    show (Column.margin 0 : Column n).walk?
      ((splitLeading first.leading o.base o.atLineStart).2.code ++ _) = _
    rw [Column.walk?_append_of_some he', List.cons_append, hopen'.walk?_cons hc]
    exact hrest

/-!
# The tokens around it
-/

theorem codeOf_opening (o : Layout) (ts : List Token) :
    codeOf (o.opening ts) = (o.doLeading ts).code ++ Text.ofString "do \x7b" := by
  have hspace : Trivia.code [.spaces 1] = [' '] := rfl
  simp only [codeOf, Layout.opening, List.flatMap_cons, List.flatMap_nil, Token.code,
    Token.leftBrace, hspace, Trivia.code_nil, List.append_assoc]
  rfl

theorem codeOf_closing (o : Layout) (blanks : Trivia) :
    codeOf (o.closing blanks) =
      (o.newline ++ o.base).code ++ (Text.ofString "\x7d catch \x7b" ++
        ((o.newline ++ o.deeper).code ++ (o.placeholder ++
          ((o.newline ++ o.base).code ++ '\x7d' :: blanks.code)))) := by
  have hspace : Trivia.code [.spaces 1] = [' '] := rfl
  simp only [codeOf, Layout.closing, List.flatMap_cons, List.flatMap_nil, Token.code,
    Token.leftBrace, Token.rightBrace, Token.placeholder, hspace, Trivia.code_nil,
    List.append_assoc, List.append_nil]
  rfl

theorem newline_not_mem_of_blanks {t : Trivia} (h : ∀ p ∈ t, p.isBlank = true) : '\n' ∉ t.code := by
  intro hmem
  rcases List.mem_flatMap.mp hmem with ⟨p, hp, hmem⟩
  have hblank := h p hp
  cases p with
  | comment form text => cases hblank
  | run kind m =>
      rcases List.mem_flatten.mp hmem with ⟨u, hu, hmem⟩
      rw [List.eq_of_mem_replicate hu] at hmem
      cases kind with
      | spaces => cases List.mem_singleton.mp hmem
      | tabs => cases List.mem_singleton.mp hmem
      | newlines => cases hblank
      | carriageReturnLineFeeds => cases hblank

theorem newline_not_mem_blanksBehind (ts : List Token) : '\n' ∉ (blanksBehind ts).code := by
  apply newline_not_mem_of_blanks
  unfold blanksBehind
  cases ts.getLast? with
  | none =>
      intro p hp
      cases hp
  | some t => exact Trivia.isBlank_of_mem_trailingBlanks t.trailing

theorem walk?_closing (ho : o.Aligned n) {blanks : Trivia} (hblanks : '\n' ∉ blanks.code)
    (a : Column n) : a.walk? (codeOf (o.closing blanks)) = some .inside := by
  rcases ho.placeholder with ⟨s, hplaceholder, hs⟩
  have hcatch : (Column.inside : Column n).walk? (Text.ofString " catch \x7b") = some .inside :=
    Column.walk?_inside (by decide)
  have hbrace : EndsMargin '\x7d' := ⟨by decide, by decide⟩
  have hsign : EndsMargin '<' := ⟨by decide, by decide⟩
  rw [codeOf_closing, hplaceholder]
  calc
    a.walk? _ = (Column.inside : Column n).walk? _ := walk?_line ho ho.base a hbrace _
    _ = (Column.inside : Column n).walk? _ := Column.walk?_append_of_some hcatch _
    _ = (Column.inside : Column n).walk? _ := walk?_line ho (steps_deeper ho) _ hsign _
    _ = (Column.inside : Column n).walk? _ := Column.walk?_append_of_some (Column.walk?_inside hs) _
    _ = (Column.inside : Column n).walk? _ := walk?_line ho ho.base _ hbrace _
    _ = some .inside := Column.walk?_inside hblanks

/-- A wrapped statement can be walked from where the statement can be walked, and the walk ends behind
its last brace. -/
theorem walk?_wrapped (ho : o.Aligned n) {first : Token} {rest : List Token}
    (hcanonical : first.leading.Canonical) (htext : ∃ c s, first.text = c :: s ∧ EndsMargin c)
    (hline : o.atLineStart = true → first.leading.containsNewline = true ∨ a = .margin 0)
    (h : a.walk? (codeOf (first :: rest)) = some b) :
    a.walk? (codeOf (o.wrappedTokens (first :: rest))) = some .inside := by
  rcases walk?_dress ho hcanonical htext hline h with ⟨⟨d, hd, hopen⟩, e, he⟩
  have hdo : d.walk? (Text.ofString "do \x7b") = some .inside := by
    show d.walk? ('d' :: Text.ofString "o \x7b") = _
    rw [hopen.walk?_cons ⟨by decide, by decide⟩]
    exact Column.walk?_inside (by decide)
  rw [Layout.wrappedTokens, codeOf_append, codeOf_append, codeOf_opening, List.append_assoc,
    Column.walk?_append_of_some hd, Column.walk?_append_of_some hdo,
    Column.walk?_append_of_some he]
  exact walk?_closing ho (newline_not_mem_blanksBehind _) e

/-!
# A `try` that loses its mark
-/

/-- Without a mark that stands directly behind it, a `try` keeps the column behind both, or the text
goes on inside the line. -/
theorem follows_unmark {keyword mark : Token} (operand : Tree)
    (hkeyword : keyword.text = "try".toList) (hkeywordBare : keyword.trailing = [])
    (hmarkBare : mark.leading = []) (a : Column n) :
    a.Follows (keyword.code ++ mark.code)
      ({ keyword with trailing := trailingOfTry keyword mark operand } : Token).code := by
  intro b hb
  have hcode : keyword.code ++ mark.code =
      keyword.leading.code ++ ('t' :: ("ry".toList ++ (mark.text ++ mark.trailing.code))) := by
    simp [Token.code, hkeyword, hkeywordBare, hmarkBare]
  rw [hcode] at hb
  rcases Column.walk?_append_some hb with ⟨d, hd, hb⟩
  have hletter : EndsMargin 't' := ⟨by decide, by decide⟩
  have hopen := Column.open_of_walk? hletter hb
  have hword : (Column.inside : Column n).walk? "ry".toList = some .inside :=
    Column.walk?_inside (by decide)
  rw [hopen.walk?_cons hletter, Column.walk?_append_of_some hword] at hb
  rcases Column.walk?_append_some hb with ⟨e, _, hb⟩
  have hnew : ∀ trailing : Trivia, a.walk? ({ keyword with trailing } : Token).code =
      (Column.inside : Column n).walk? trailing.code := by
    intro trailing
    have hparts : ({ keyword with trailing } : Token).code =
        keyword.leading.code ++ ('t' :: ("ry".toList ++ trailing.code)) := by
      simp [Token.code, hkeyword]
    rw [hparts, Column.walk?_append_of_some hd, hopen.walk?_cons hletter,
      Column.walk?_append_of_some hword]
  rw [hnew, trailingOfTry, hkeywordBare, hmarkBare, List.nil_append, List.nil_append]
  split
  · exact ⟨.inside, Column.walk?_inside (by decide), .inside b⟩
  · exact (Column.Below.inside e).walk? hb

end DoCatch
end ForceTry

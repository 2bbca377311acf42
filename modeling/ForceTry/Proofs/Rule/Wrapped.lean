import ForceTry.Proofs.Indentation.Moved
import ForceTry.Proofs.Rule.Aligned

/-!
# The text of a wrapped statement

A statement that is wrapped is divided three ways: its front stays in front of `do`, the rest goes into
the body, where its lines are moved, and the blanks at its end go behind the last brace.
-/

namespace ForceTry
namespace DoCatch

open ForceTry.Tokens

def movedText (ts : List Token) (base : Trivia) (indentation : Text) : Text :=
  ts.flatMap fun t =>
    t.leading.movedText base indentation ++ t.text ++ t.trailing.movedText base indentation

theorem codeOf_map_shift (ts : List Token) (base indentation : Trivia) :
    codeOf (ts.map (Token.shift base indentation)) = movedText ts base indentation.code := by
  induction ts with
  | nil => rfl
  | cons t ts ih =>
      rw [List.map_cons, codeOf_cons, ih, Token.code, Token.shift, Trivia.code_shift,
        Trivia.code_shift]
      rfl

namespace Layout

/-- The front of a statement: at the start of a line everything through the last line break, and then
the indentation of the line. -/
def inFront (o : Layout) (leading : Trivia) : Text :=
  if o.atLineStart then leading.throughLastNewline.code ++ o.base.code else leading.code

/-- What the first token of a statement keeps in front of it: at the start of a line everything behind
the indentation. -/
def kept (o : Layout) (leading : Trivia) : Trivia :=
  if o.atLineStart then leading.afterLastNewline.dropWhile Piece.isBlank else []

def remaining (o : Layout) (ts : List Token) : List Token :=
  match trimLast ts with
  | [] => []
  | first :: rest => { first with leading := o.kept first.leading } :: rest

def body (o : Layout) (ts : List Token) : Text :=
  movedText (o.remaining ts) o.base (o.base.code ++ o.unit.code)

/-- The text of the layout around the parts of a statement. -/
def text (o : Layout) (front body blanks : Text) : Text :=
  let line := o.newline.code ++ o.base.code
  let deeperLine := line ++ o.unit.code
  front ++ Text.ofString "do \x7b" ++ deeperLine ++ body ++ line ++ Text.ofString "\x7d catch \x7b" ++
    deeperLine ++ o.placeholder ++ line ++ Text.ofString "\x7d" ++ blanks

variable {o : Layout}

theorem split_eq {t : Token} (h : o.atLineStart = true → o.base = t.leading.leadingIndentation) :
    (o.split t).1.code = o.inFront t.leading ∧ (o.split t).2 = o.kept t.leading := by
  rw [split, splitLeading, inFront, kept]
  split
  · next hstart =>
      rw [h hstart]
      exact ⟨Trivia.code_append _ _, Trivia.strip_takeWhile _ _⟩
  · exact ⟨rfl, rfl⟩

theorem codeOf_dress (hbase : o.base.Indents) {first : Token} {rest : List Token}
    (h : o.atLineStart = true → o.base = first.leading.leadingIndentation) :
    codeOf (o.dress (first :: rest)) =
      o.newline.code ++ o.base.code ++ o.unit.code ++ o.body (first :: rest) := by
  have hdeeper : o.deeper.code = o.base.code ++ o.unit.code := o.unit.code_addedTo hbase
  rcases trimLast_cons first rest with ⟨trailing, rest', htrim⟩
  have hkept : (o.split { first with trailing }).2 = o.kept first.leading := (split_eq h).2
  rw [dress, body, remaining, htrim]
  simp only
  rw [codeOf_dressed, codeOf_map_shift, Trivia.code_append, hdeeper, hkept]
  simp only [List.append_assoc]

theorem codeOf_wrappedTokens (hbase : o.base.Indents) {first : Token} {rest : List Token}
    (h : o.atLineStart = true → o.base = first.leading.leadingIndentation) :
    codeOf (o.wrappedTokens (first :: rest)) =
      o.text (o.inFront first.leading) (o.body (first :: rest)) (blanksBehind (first :: rest)).code := by
  have hdeeper : o.deeper.code = o.base.code ++ o.unit.code := o.unit.code_addedTo hbase
  have hbrace : Text.ofString "\x7d" = ['\x7d'] := rfl
  rw [wrappedTokens, codeOf_append, codeOf_append, codeOf_opening, codeOf_closing, doLeading_cons,
    (split_eq h).1, codeOf_dress hbase h, Trivia.code_append, Trivia.code_append, hdeeper, text, hbrace]
  simp only [List.append_assoc, List.cons_append, List.nil_append]

/-!
# The start of the body
-/

theorem head_kept {leading : Trivia} (h : leading.Canonical) {p : Piece} {rest : Trivia}
    (hkept : o.kept leading = p :: rest) : ∃ c s, p.code = c :: s ∧ c ≠ ' ' ∧ c ≠ '\t' := by
  unfold kept at hkept
  split at hkept
  · have hcanonical : Trivia.Canonical (p :: rest) := by
      rw [← hkept]
      apply Trivia.canonical_of_append
      rw [List.takeWhile_append_dropWhile]
      apply Trivia.canonical_of_append
      rw [Trivia.throughLastNewline_append_afterLastNewline]
      exact h
    have hblank : p.isBlank = false := by
      have hhead := List.head?_dropWhile_not Piece.isBlank leading.afterLastNewline
      rw [hkept] at hhead
      simpa using hhead
    rcases Piece.opening_of_endsBefore hcanonical.1 with ⟨s, hs⟩
    rw [← hs]
    match p, hblank with
    | .run .newlines _, _ => exact ⟨'\n', s, rfl, by decide, by decide⟩
    | .run .carriageReturnLineFeeds _, _ => exact ⟨'\r', _, rfl, by decide, by decide⟩
    | .comment .line _, _ => exact ⟨'/', _, rfl, by decide, by decide⟩
    | .comment .block _, _ => exact ⟨'/', _, rfl, by decide, by decide⟩
  · cases hkept

theorem head_body {first : Token} (hcanonical : first.leading.Canonical)
    (htext : ∃ c s, first.text = c :: s ∧ c ≠ ' ' ∧ c ≠ '\t') (rest : List Token) :
    ∃ c s, o.body (first :: rest) = c :: s ∧ c ≠ ' ' ∧ c ≠ '\t' := by
  rcases trimLast_cons first rest with ⟨trailing, rest', htrim⟩
  rw [body, remaining, htrim]
  simp only
  rw [movedText, List.flatMap_cons]
  cases hkept : o.kept first.leading with
  | nil =>
      rcases htext with ⟨c, s, htext, hc⟩
      rw [htext, Trivia.movedText, List.nil_append]
      exact ⟨c, _, rfl, hc⟩
  | cons p ps =>
      rcases head_kept hcanonical hkept with ⟨c, s, hcode, hc⟩
      rcases Trivia.movedText_cons p ps o.base (o.base.code ++ o.unit.code) with ⟨u, hu⟩
      rw [hu, hcode]
      exact ⟨c, _, rfl, hc⟩

end Layout
end DoCatch
end ForceTry

import ForceTry.Fault

/-!
# Comments of a source

The comments of all tokens, in order.  A refactoring must not lose any: `Comments.lost` is what a
source had more of than another, text by text, and `Comments.checkResult` refuses a refactored
source that has no tree or lacks a comment.
-/

namespace ForceTry

namespace Token

def comments (t : Token) : List Text := t.leading.comments ++ t.trailing.comments

end Token

namespace Text

def le (s t : Text) : Bool := !List.lex t s fun c d => c.toNat < d.toNat

def sortedDistinct (ts : List Text) : List Text := ts.eraseDups.mergeSort le

end Text

namespace Comments

def ofSource (file source : Text) : Except Fault (List Text) :=
  match Tokens.ofText source with
  | .ok ts => .ok (ts.toList.flatMap Token.comments)
  | .error offset =>
      .error (.ofSyntax file ⟨.unterminatedString, Position.start.advance (source.take offset)⟩)

def tally (comments : List Text) : List (Text × Nat) :=
  (Text.sortedDistinct comments).map fun t => (t, comments.count t)

/-- What is over of `before` when every comment of `after` is taken away once. -/
def lost (before after : List Text) : List Text := after.foldl List.erase before

def lostMessage (comments : List Text) : Text :=
  Text.ofString s!"Rewritten code lost {comments.length} comment(s): " ++
    Text.join [',', ' '] (((Text.sortedDistinct comments).take 3).map Text.quoted)

/-- Refuses a refactored source that has no tree or lacks a comment of the source it was made of. -/
def checkResult (file old new : Text) : Except Fault Unit := do
  match Tree.ofText new with
  | .error e =>
      .error (.validation
        (Text.ofString "Rewritten code does not parse: " ++ (Fault.ofSyntax file e).message) file)
  | .ok _ =>
      let before ← ofSource file old
      let after ← ofSource file new
      match lost before after with
      | [] => .ok ()
      | comments => .error (.validation (lostMessage comments) file)

theorem lost_nil (before : List Text) : lost before [] = before := rfl

theorem count_lost (c : Text) (before after : List Text) :
    (lost before after).count c = before.count c - after.count c := by
  induction after generalizing before with
  | nil => simp [lost]
  | cons a after ih =>
      have hstep : lost before (a :: after) = lost (before.erase a) after := rfl
      rw [hstep, ih]
      by_cases h : a = c
      · subst h
        simp only [List.count_erase_self, List.count_cons_self]
        omega
      · rw [List.count_erase_of_ne (Ne.symm h), List.count_cons_of_ne h]

end Comments
end ForceTry

import ForceTry.Text.Quoted

/-!
# Trivia

The text between tokens that means nothing to the program: blanks, line breaks and comments.  It
is kept as an ordered list of pieces.  A piece is a run of one kind of blank or line break, or one
comment with its delimiters.  Pieces are compared by value, and joining two lists of pieces never
merges neighbouring runs.
-/

namespace ForceTry

inductive Run where
  | spaces
  | tabs
  | newlines
  | carriageReturnLineFeeds
  deriving DecidableEq, Repr

namespace Run

def unit : Run → Text
  | spaces => [' ']
  | tabs => ['\t']
  | newlines => ['\n']
  | carriageReturnLineFeeds => ['\r', '\n']

def breaksLine : Run → Bool
  | spaces | tabs => false
  | newlines | carriageReturnLineFeeds => true

def name : Run → String
  | spaces => "spaces"
  | tabs => "tabs"
  | newlines => "newlines"
  | carriageReturnLineFeeds => "carriage_return_line_feeds"

end Run

inductive CommentForm where
  | line
  | block
  deriving DecidableEq, Repr

namespace CommentForm

def name : CommentForm → String
  | line => "line_comment"
  | block => "block_comment"

end CommentForm

/-- One piece of trivia.  A run with a count below one has no text. -/
inductive Piece where
  | run (kind : Run) (count : Int)
  | comment (form : CommentForm) (text : Text)
  deriving DecidableEq, Repr

namespace Piece

def spaces (n : Int) : Piece := .run .spaces n

def tabs (n : Int) : Piece := .run .tabs n

def newlines (n : Int) : Piece := .run .newlines n

def carriageReturnLineFeeds (n : Int) : Piece := .run .carriageReturnLineFeeds n

def code : Piece → Text
  | .run kind count => Text.times count.toNat kind.unit
  | .comment _ text => text

def isNewline : Piece → Bool
  | .run kind _ => kind.breaksLine
  | .comment _ _ => false

def isBlank : Piece → Bool
  | .run kind _ => !kind.breaksLine
  | .comment _ _ => false

def isComment : Piece → Bool
  | .run _ _ => false
  | .comment _ _ => true

def comment? : Piece → Option Text
  | .run _ _ => none
  | .comment _ text => some text

def name : Piece → String
  | .run kind _ => kind.name
  | .comment form _ => form.name

def describe (p : Piece) : Text :=
  let argument := match p with
    | .run _ count => Text.ofString (toString count)
    | .comment _ text => Text.quoted text
  Text.ofString "TriviaPiece." ++ Text.ofString p.name ++ ['('] ++ argument ++ [')']

end Piece

abbrev Trivia := List Piece

namespace Trivia

def spaces (n : Int) : Trivia := if n = 0 then [] else [.spaces n]

def tabs (n : Int) : Trivia := if n = 0 then [] else [.tabs n]

def newline : Trivia := [.newlines 1]

def code (t : Trivia) : Text := t.flatMap Piece.code

/-- Some piece breaks the line.  A block comment over several lines does not count. -/
def containsNewline (t : Trivia) : Bool := t.any Piece.isNewline

def comments (t : Trivia) : List Text := t.filterMap Piece.comment?

inductive Addend where
  | trivia (t : Trivia)
  | piece (p : Piece)
  | other

def add? (t : Trivia) : Addend → Option Trivia
  | .trivia u => some (t ++ u)
  | .piece p => some (t ++ [p])
  | .other => none

def lastNewlineIndex? : Trivia → Option Nat
  | [] => none
  | p :: t =>
      match lastNewlineIndex? t with
      | some i => some (i + 1)
      | none => if p.isNewline then some 0 else none

def throughLastNewline (t : Trivia) : Trivia :=
  match lastNewlineIndex? t with
  | none => []
  | some i => t.take (i + 1)

def afterLastNewline (t : Trivia) : Trivia :=
  match lastNewlineIndex? t with
  | none => t
  | some i => t.drop (i + 1)

def trailingBlanks (t : Trivia) : Trivia := (t.reverse.takeWhile Piece.isBlank).reverse

def withoutTrailingBlanks (t : Trivia) : Trivia := (t.reverse.dropWhile Piece.isBlank).reverse

def describe (t : Trivia) : Text :=
  Text.ofString "Trivia([" ++ Text.join [',', ' '] (t.map Piece.describe) ++ [']', ')']

@[simp] theorem code_nil : code [] = [] := rfl

@[simp] theorem code_cons (p : Piece) (t : Trivia) : code (p :: t) = p.code ++ code t := rfl

@[simp] theorem code_append (s t : Trivia) : code (s ++ t) = code s ++ code t := by
  simp [code]

@[simp] theorem comments_nil : comments [] = [] := rfl

@[simp] theorem comments_append (s t : Trivia) : comments (s ++ t) = comments s ++ comments t := by
  simp [comments]

@[simp] theorem throughLastNewline_append_afterLastNewline (t : Trivia) :
    throughLastNewline t ++ afterLastNewline t = t := by
  unfold throughLastNewline afterLastNewline
  cases lastNewlineIndex? t <;> simp

@[simp] theorem withoutTrailingBlanks_append_trailingBlanks (t : Trivia) :
    withoutTrailingBlanks t ++ trailingBlanks t = t := by
  rw [withoutTrailingBlanks, trailingBlanks, ← List.reverse_append,
    List.takeWhile_append_dropWhile, List.reverse_reverse]

end Trivia
end ForceTry

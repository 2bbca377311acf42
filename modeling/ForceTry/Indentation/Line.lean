import ForceTry.Indentation.Unit
import ForceTry.Tree.Basic

/-!
# Lines of a tree

Which tokens start a line, how lines are indented, and what the indentation of a file tells about
its unit and its line breaks.

A token starts a line when it is the first of the tree or a line break stands in its leading trivia
or in the trailing trivia of the token before it.  Elements are looked up under their root; of an
element that stands at several places the first one counts.
-/

namespace ForceTry

namespace Trivia

/-- The blanks directly behind the last line break; without a line break, those at the start. -/
def leadingIndentation (t : Trivia) : Trivia := t.afterLastNewline.takeWhile Piece.isBlank

end Trivia

namespace Tree

/-- The leaves of a list with the answer whether they start a line, where `previous` is the token
in front of the list. -/
def lineStartsFrom (previous : Option Token) : List Leaf → List (Leaf × Bool)
  | [] => []
  | l :: ls =>
      let starts := match previous with
        | none => true
        | some p => l.token.leading.containsNewline || p.trailing.containsNewline
      (l, starts) :: lineStartsFrom (some l.token) ls

def lineStarts (root : Tree) : List (Leaf × Bool) := lineStartsFrom none root.leaves

/-- The first token of `t` is the first one of its line.  Without a root every element with a token
starts its line; an element that is not under the root does when a line break leads it. -/
def startsLine (root : Option Tree) (t : Tree) : Bool :=
  match t.firstLeaf?, root with
  | none, _ => false
  | some _, none => true
  | some l, some root =>
      match root.lineStarts.find? fun entry => entry.1.label == l.label with
      | some entry => entry.2
      | none => l.token.leading.containsNewline

/-- The indentation of the line of the leaf labelled `n`, where `current` is the indentation of the
line in front of the list. -/
def indentationFrom (n : Nat) (current : Trivia) : List (Leaf × Bool) → Trivia
  | [] => []
  | (l, starts) :: rest =>
      let current := if starts then l.token.leading.leadingIndentation else current
      if l.label == n then current else indentationFrom n current rest

/-- The indentation of the line on which the first token of `t` stands.  It is empty for an element
that is not under the root or has no token. -/
def lineIndentation (root t : Tree) : Trivia :=
  match t.firstLeaf? with
  | none => []
  | some l => indentationFrom l.label [] root.lineStarts

/-- The unit by which `line` is indented further than `before`: one tab or some spaces. -/
def sample? (before line : Text) : Option IndentUnit :=
  match Text.after? before line with
  | some ['\t'] => some .tab
  | some (c :: r) => if (c :: r).all (· == ' ') then some (.spaces (r.length + 1)) else none
  | _ => none

/-- The units of all lines that are indented further than the line before them. -/
def samplesFrom (before : Text) : List Text → List IndentUnit
  | [] => []
  | line :: lines => (sample? before line).toList ++ samplesFrom line lines

/-- The indentations of the lines of a tree, the one of the end of the file left out. -/
def indentations (root : Tree) : List Text :=
  root.lineStarts.filterMap fun (l, starts) =>
    if starts && l.token.kind != .endOfFile then some l.token.leading.leadingIndentation.code
    else none

def mostCommon? (samples : List IndentUnit) : Option IndentUnit :=
  samples.foldl (fun best u =>
    match best with
    | none => some u
    | some b => if samples.count b < samples.count u then some u else some b) none

def inferUnit? (root : Tree) : Option IndentUnit := mostCommon? (samplesFrom [] root.indentations)

def pieces (t : Tree) : List Piece := t.tokens.flatMap fun t => t.leading ++ t.trailing

/-- One line break of the kind that comes first in a tree; a line feed when it has none. -/
def newlineStyle (t : Option Tree) : Trivia :=
  match (t.map pieces).bind (·.find? Piece.isNewline) with
  | some (.run kind _) => [.run kind 1]
  | _ => Trivia.newline

end Tree
end ForceTry

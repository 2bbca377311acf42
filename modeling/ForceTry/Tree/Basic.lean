import ForceTry.Token.Basic

/-!
# Syntax trees

A tree has tokens at its leaves and nodes of eight kinds above them.  Its children stand in source
order, so the source text is the text of its leaves.

Every leaf and every node carries a label.  Labels tell elements apart that look alike: two
elements are the same element when they have the same label, and an edit that leaves an element
alone keeps its label.  A tree may hold one element at several places.
-/

namespace ForceTry

inductive NodeKind where
  | expression
  | tryExpression
  | statement
  | item
  | block
  | catchClause
  | doStatement
  | sourceFile
  deriving DecidableEq, Repr

namespace NodeKind

def name : NodeKind → String
  | expression => "Expr"
  | tryExpression => "TryExpr"
  | statement => "Statement"
  | item => "CodeBlockItem"
  | block => "CodeBlock"
  | catchClause => "CatchClause"
  | doStatement => "DoStmt"
  | sourceFile => "SourceFile"

def all : List NodeKind :=
  [expression, tryExpression, statement, item, block, catchClause, doStatement, sourceFile]

def ofName? (s : String) : Option NodeKind := all.find? fun k => k.name == s

end NodeKind

/-- A set of node kinds: one kind, or all of them. -/
inductive KindFilter where
  | any
  | only (kind : NodeKind)
  deriving DecidableEq, Repr

namespace KindFilter

def holds : KindFilter → NodeKind → Bool
  | any, _ => true
  | only k, k' => k == k'

/-- The kind of a name; the name of the common kind stands for all of them. -/
def ofName? (s : String) : Option KindFilter :=
  if s == "SyntaxNode" then some .any else (NodeKind.ofName? s).map .only

end KindFilter

structure Leaf where
  label : Nat
  token : Token
  deriving DecidableEq, Repr

inductive Tree where
  | leaf (l : Leaf)
  | node (label : Nat) (kind : NodeKind) (children : List Tree)
  deriving Repr

namespace Tree

@[elab_as_elim]
theorem induction {motive : Tree → Prop} (leaf : ∀ l, motive (.leaf l))
    (node : ∀ n k cs, (∀ c ∈ cs, motive c) → motive (.node n k cs)) (t : Tree) : motive t :=
  Tree.rec (motive_1 := motive) (motive_2 := fun cs => ∀ c ∈ cs, motive c) leaf node
    (by simp) (fun _ _ hc hcs => by simpa using ⟨hc, hcs⟩) t

def label : Tree → Nat
  | .leaf l => l.label
  | .node n _ _ => n

def kind? : Tree → Option NodeKind
  | .leaf _ => none
  | .node _ k _ => some k

def children : Tree → List Tree
  | .leaf _ => []
  | .node _ _ cs => cs

def isKind (k : NodeKind) (t : Tree) : Bool := t.kind? == some k

def matchesFilter (f : KindFilter) : Tree → Bool
  | .leaf _ => false
  | .node _ k _ => f.holds k

/-- The name of the element: of its kind of node or of its category of token. -/
def name : Tree → String
  | .leaf l => l.token.kind.name
  | .node _ k _ => k.name

/-! ## Leaves and nodes -/

mutual

def leaves : Tree → List Leaf
  | .leaf l => [l]
  | .node _ _ cs => leavesOf cs

def leavesOf : List Tree → List Leaf
  | [] => []
  | c :: cs => leaves c ++ leavesOf cs

end

mutual

def nodes : Tree → List Tree
  | .leaf _ => []
  | .node n k cs => .node n k cs :: nodesOf cs

def nodesOf : List Tree → List Tree
  | [] => []
  | c :: cs => nodes c ++ nodesOf cs

end

mutual

/-- The node itself and the nodes below it that are not inside a nested block. -/
def directNodes : Tree → List Tree
  | .leaf _ => []
  | .node n k cs => .node n k cs :: directNodesOf cs

def directNodesOf : List Tree → List Tree
  | [] => []
  | c :: cs => (if c.isKind .block then [] else directNodes c) ++ directNodesOf cs

end

theorem leavesOf_eq_flatMap (cs : List Tree) : leavesOf cs = cs.flatMap leaves := by
  induction cs with
  | nil => rfl
  | cons c cs ih => simp [leavesOf, ih]

theorem nodesOf_eq_flatMap (cs : List Tree) : nodesOf cs = cs.flatMap nodes := by
  induction cs with
  | nil => rfl
  | cons c cs ih => simp [nodesOf, ih]

theorem directNodesOf_eq_flatMap (cs : List Tree) :
    directNodesOf cs = (cs.filter fun c => !c.isKind .block).flatMap directNodes := by
  induction cs with
  | nil => rfl
  | cons c cs ih => by_cases hc : c.isKind .block <;> simp [directNodesOf, ih, hc]

def tokens (t : Tree) : List Token := t.leaves.map Leaf.token

def code (t : Tree) : Text := t.tokens.flatMap Token.code

def firstLeaf? (t : Tree) : Option Leaf := t.leaves.head?

def lastLeaf? (t : Tree) : Option Leaf := t.leaves.getLast?

def findAll (f : KindFilter) (t : Tree) : List Tree := t.nodes.filter (matchesFilter f)

/-- The nodes of a filter that belong to `t` and not to an item of a nested block. -/
def directCandidates (f : KindFilter) (t : Tree) : List Tree :=
  t.directNodes.filter (matchesFilter f)

def hasNode (n : Nat) (t : Tree) : Bool := t.nodes.any fun m => m.label == n

/-! ## Equality of shape

Labels play no part here: two trees are equal when they have the same kinds in the same shape and
the same tokens. -/

mutual

def sameShape : Tree → Tree → Bool
  | .leaf l, .leaf m => l.token == m.token
  | .node _ k cs, .node _ k' cs' => k == k' && sameShapes cs cs'
  | _, _ => false

def sameShapes : List Tree → List Tree → Bool
  | [], [] => true
  | c :: cs, c' :: cs' => sameShape c c' && sameShapes cs cs'
  | _, _ => false

end

/-! ## The parts of a node -/

def tryMark? : Tree → Option Leaf
  | .node _ .tryExpression [_, .leaf m, _] => some m
  | _ => none

def isForceTry (t : Tree) : Bool :=
  match t.tryMark? with
  | some m => m.token.kind == .exclamationMark
  | none => false

end Tree

/-! ## Places of children -/

/-- A place of a node: one element that is always there, one token that may be missing, or any
number of elements. -/
inductive Place where
  | one (name : String)
  | optional (name : String)
  | many (name : String)
  deriving DecidableEq, Repr

namespace NodeKind

def places : NodeKind → List Place
  | expression => [.many "elements"]
  | tryExpression =>
      [.one "try_keyword", .optional "question_or_exclamation_mark", .one "expression"]
  | statement => [.many "elements"]
  | item => [.one "item", .optional "semicolon"]
  | block => [.one "left_brace", .many "statements", .one "right_brace"]
  | catchClause => [.one "catch_keyword", .many "catch_items", .one "body"]
  | doStatement => [.one "do_keyword", .one "body", .many "catch_clauses"]
  | sourceFile => [.many "statements", .one "end_of_file"]

end NodeKind

namespace Place

def isOne : Place → Bool
  | one _ => true
  | _ => false

def countOne (ps : List Place) : Nat := (ps.filter isOne).length

/-- Deals children out to places: one each to the places for one element, and what is over to the
place that can take it. -/
def deal {α : Type} : List Place → List α → List (Place × List α)
  | [], _ => []
  | .one s :: ps, cs => (.one s, cs.take 1) :: deal ps (cs.drop 1)
  | p :: ps, cs =>
      let n := cs.length - countOne ps
      (p, cs.take n) :: deal ps (cs.drop n)

/-- For each child the name of its place, if that place takes exactly one element. -/
def singleNames {α : Type} (k : NodeKind) (cs : List α) : List (Option String) :=
  (deal k.places cs).flatMap fun
    | (.one s, part) => part.map fun _ => some s
    | (_, part) => part.map fun _ => none

end Place
end ForceTry

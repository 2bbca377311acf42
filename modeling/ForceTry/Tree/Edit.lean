import ForceTry.Tree.Basic

/-!
# Edits that keep the shape

Edits hand out labels that no element has yet.  An element that an edit leaves alone stays the same
element; a node with a changed child becomes a new one, and so do all nodes above it.

Main operations: `Tree.replace` puts one element in the place of another, wherever that element
stands; `Tree.mapTokens` changes the tokens; `Tree.withLeading` and `Tree.withTrailing` set the
trivia at the two ends.
-/

namespace ForceTry

abbrev Fresh := StateM Nat

namespace Fresh

def label : Fresh Nat := modifyGet fun n => (n, n + 1)

def leaf (t : Token) : Fresh Leaf := do return ⟨← label, t⟩

def token (t : Token) : Fresh Tree := do return .leaf (← leaf t)

def node (k : NodeKind) (cs : List Tree) : Fresh Tree := do return .node (← label) k cs

end Fresh

namespace Tree

def sameElements (cs cs' : List Tree) : Bool := cs.map label == cs'.map label

/-- The node with the children `cs'` in the place of `cs`: the same node when these are the same
elements, and a new one otherwise. -/
def rebuild (n : Nat) (k : NodeKind) (cs cs' : List Tree) : Fresh Tree :=
  if sameElements cs cs' then pure (.node n k cs) else Fresh.node k cs'

mutual

/-- Puts `new` in the place of the element with label `old`, wherever it stands. -/
def replace (t : Tree) (old : Nat) (new : Tree) : Fresh Tree :=
  match t with
  | .leaf l => pure (if l.label = old then new else .leaf l)
  | .node n k cs => do
      let cs' ← replaceAll cs old new
      if n = old then pure new else rebuild n k cs cs'

def replaceAll (ts : List Tree) (old : Nat) (new : Tree) : Fresh (List Tree) :=
  match ts with
  | [] => pure []
  | c :: cs => do
      let c' ← replace c old new
      let cs' ← replaceAll cs old new
      pure (c' :: cs')

end

mutual

/-- Changes every token by `f`.  A token that `f` answers unchanged stays the same element. -/
def mapTokens (f : Token → Token) : Tree → Fresh Tree
  | .leaf l => if f l.token = l.token then pure (.leaf l) else Fresh.token (f l.token)
  | .node n k cs => do
      let cs' ← mapTokensAll f cs
      rebuild n k cs cs'

def mapTokensAll (f : Token → Token) : List Tree → Fresh (List Tree)
  | [] => pure []
  | c :: cs => do
      let c' ← mapTokens f c
      let cs' ← mapTokensAll f cs
      pure (c' :: cs')

end

def replaceToken (l : Leaf) (t : Token) (tree : Tree) : Fresh Tree := do
  tree.replace l.label (← Fresh.token t)

def withLeading (trivia : Trivia) (t : Tree) : Fresh Tree :=
  match t.firstLeaf? with
  | none => pure t
  | some l => t.replaceToken l { l.token with leading := trivia }

def withTrailing (trivia : Trivia) (t : Tree) : Fresh Tree :=
  match t.lastLeaf? with
  | none => pure t
  | some l => t.replaceToken l { l.token with trailing := trivia }

mutual

def renumber : Tree → Fresh Tree
  | .leaf l => pure (.leaf l)
  | .node _ k cs => do
      let n ← Fresh.label
      let cs' ← renumberAll cs
      pure (.node n k cs')

def renumberAll : List Tree → Fresh (List Tree)
  | [] => pure []
  | c :: cs => do
      let c' ← renumber c
      let cs' ← renumberAll cs
      pure (c' :: cs')

end

end Tree
end ForceTry

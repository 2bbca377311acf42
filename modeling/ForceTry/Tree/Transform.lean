import ForceTry.Tree.Edit

/-!
# Transformations with splices

A transformation visits a tree from the leaves up.  It answers for every node either one element or
any number of them, which are then spliced in among the neighbours.  Splices are possible only at
places that take any number of elements.  A node keeps its label when every child came back as
itself and nothing was spliced.

`Tree.events` is the same walk without changes: it lists what a visitor meets.
-/

namespace ForceTry

/-- What stands in the place of an element after a transformation. -/
inductive Replacement where
  | one (t : Tree)
  | many (ts : List Tree)

namespace Replacement

def describeSplice (ts : List Tree) : Text :=
  Text.ofString "FlattenSentinel([" ++
    Text.join [',', ' '] (ts.map fun t => Text.quoted t.name.toList) ++ [']', ')']

end Replacement

/-- What a transformation does at each element, with a state `σ` that holds the supply of labels. -/
structure Transformation (σ ε : Type) where
  /-- takes a label from the supply -/
  supply : σ → Nat × σ
  /-- the failure of a splice at a place for one element, given the name of the place -/
  unspliceable : String → ε
  /-- the children of nodes of this kind are visited -/
  enters : NodeKind → Bool
  onLeaf : Leaf → StateT σ (Except ε) Tree
  onNode : (old updated : Tree) → StateT σ (Except ε) Replacement

namespace Tree

variable {σ ε : Type}

mutual

/-- Transforms the children of a node, where the transformation enters it, and then the node. -/
def transform (r : Transformation σ ε) : Tree → StateT σ (Except ε) Replacement
  | .leaf l => do return .one (← r.onLeaf l)
  | .node n k cs => do
      if r.enters k then
        let (cs', spliced) ← transformAll r (Place.singleNames k cs) cs
        if sameElements cs cs' && !spliced then r.onNode (.node n k cs) (.node n k cs)
        else
          let m ← modifyGet r.supply
          r.onNode (.node n k cs) (.node m k cs')
      else r.onNode (.node n k cs) (.node n k cs)

/-- Transforms several trees, each with the name of its place if that takes one element only.  The
second part of the answer says that something was spliced in. -/
def transformAll (r : Transformation σ ε) (places : List (Option String)) :
    List Tree → StateT σ (Except ε) (List Tree × Bool)
  | [] => pure ([], false)
  | c :: cs => do
      match ← transform r c with
      | .one t =>
          let (ts, spliced) ← transformAll r places.tail cs
          pure (t :: ts, spliced)
      | .many new =>
          match places.head? with
          | some (some name) => throw (r.unspliceable name)
          | _ =>
              let (ts, _) ← transformAll r places.tail cs
              pure (new ++ ts, true)

end

/-! ## Walking -/

inductive Event where
  | enter (kind : NodeKind)
  | token (text : Text)
  | leave (kind : NodeKind)
  deriving DecidableEq, Repr

mutual

def events (skips : NodeKind → Bool) : Tree → List Event
  | .leaf l => [.token l.token.text]
  | .node _ k cs => .enter k :: (if skips k then [] else eventsOf skips cs) ++ [.leave k]

def eventsOf (skips : NodeKind → Bool) : List Tree → List Event
  | [] => []
  | c :: cs => events skips c ++ eventsOf skips cs

end

end Tree
end ForceTry

import ForceTry.Proofs.Grammar.Basic

/-!
# Outlines

An outline of a tree forgets its labels and sees its tokens through a function.  `plain` keeps the
tokens as they are, `bare` takes the trivia off, and `skeleton` sees nothing of them.  A plain tree
is known by its skeleton and its tokens, so a change of tokens can be written as a change of the
list of tokens.
-/

namespace ForceTry

namespace Token

def bare (t : Token) : Token := ⟨t.kind, t.text, [], []⟩

theorem bare_eq_bare {t t' : Token} : t.bare = t'.bare ↔ t.kind = t'.kind ∧ t.text = t'.text := by
  simp [bare]

end Token

namespace Tree

mutual

/-- A tree without labels, its tokens seen through `f`. -/
def outline (f : Token → Token) : Tree → Tree
  | .leaf l => .leaf ⟨0, f l.token⟩
  | .node _ k cs => .node 0 k (outlineAll f cs)

def outlineAll (f : Token → Token) : List Tree → List Tree
  | [] => []
  | c :: cs => outline f c :: outlineAll f cs

end

def plain (t : Tree) : Tree := t.outline id

def bare (t : Tree) : Tree := t.outline Token.bare

def skeleton (t : Tree) : Tree := t.outline fun _ => Grammar.nothing

@[simp] theorem outline_leaf (f : Token → Token) (l : Leaf) :
    (Tree.leaf l).outline f = .leaf ⟨0, f l.token⟩ := rfl

@[simp] theorem outline_node (f : Token → Token) (n : Nat) (k : NodeKind) (cs : List Tree) :
    (Tree.node n k cs).outline f = .node 0 k (outlineAll f cs) := rfl

theorem outlineAll_eq_map (f : Token → Token) (cs : List Tree) :
    outlineAll f cs = cs.map (outline f) := by
  induction cs with
  | nil => rfl
  | cons c cs ih => rw [outlineAll, ih, List.map_cons]

theorem outlineAll_append (f : Token → Token) (cs ds : List Tree) :
    outlineAll f (cs ++ ds) = outlineAll f cs ++ outlineAll f ds := by
  rw [outlineAll_eq_map, outlineAll_eq_map, outlineAll_eq_map, List.map_append]

theorem outline_outline (f g : Token → Token) (t : Tree) :
    (t.outline f).outline g = t.outline (g ∘ f) := by
  induction t using Tree.induction with
  | leaf l => rfl
  | node n k cs ih =>
      rw [outline_node, outline_node, outline_node, outlineAll_eq_map, outlineAll_eq_map,
        outlineAll_eq_map, List.map_map]
      congr 1
      exact List.map_congr_left ih

def tokensOf (cs : List Tree) : List Token := (leavesOf cs).map Leaf.token

@[simp] theorem tokensOf_nil : tokensOf [] = [] := rfl

@[simp] theorem tokensOf_cons (c : Tree) (cs : List Tree) :
    tokensOf (c :: cs) = c.tokens ++ tokensOf cs := by
  simp [tokensOf, tokens]

theorem tokensOf_append (cs ds : List Tree) :
    tokensOf (cs ++ ds) = tokensOf cs ++ tokensOf ds := by
  rw [tokensOf, leavesOf_append, List.map_append, ← tokensOf, ← tokensOf]

@[simp] theorem tokens_leaf (l : Leaf) : (Tree.leaf l).tokens = [l.token] := rfl

@[simp] theorem tokens_node (n : Nat) (k : NodeKind) (cs : List Tree) :
    (Tree.node n k cs).tokens = tokensOf cs := rfl

theorem tokens_outline (f : Token → Token) (t : Tree) :
    (t.outline f).tokens = t.tokens.map f := by
  induction t using Tree.induction with
  | leaf l => rfl
  | node n k cs ih =>
      rw [outline_node, tokens_node, tokens_node, outlineAll_eq_map]
      clear n k
      induction cs with
      | nil => rfl
      | cons c cs ihcs =>
          rw [List.map_cons, tokensOf_cons, tokensOf_cons, List.map_append, ih c (by simp),
            ihcs fun d hd => ih d (List.mem_cons_of_mem c hd)]

theorem length_tokens_of_skeleton {t t' : Tree} (h : t.skeleton = t'.skeleton) :
    t.tokens.length = t'.tokens.length := by
  have htokens := congrArg (fun s => s.tokens.length) h
  simpa only [skeleton, tokens_outline, List.length_map] using htokens

/-!
# Skeleton and tokens
-/

mutual

theorem outline_eq_of_skeleton (f : Token → Token) {t t' : Tree}
    (hskeleton : t.skeleton = t'.skeleton) (htokens : t.tokens.map f = t'.tokens.map f) :
    t.outline f = t'.outline f := by
  cases t with
  | leaf l =>
      cases t' with
      | leaf l' =>
          simp only [tokens_leaf, List.map_cons, List.map_nil, List.cons.injEq, and_true] at htokens
          rw [outline_leaf, outline_leaf, htokens]
      | node n' k' cs' => cases hskeleton
  | node n k cs =>
      cases t' with
      | leaf l' => cases hskeleton
      | node n' k' cs' =>
          simp only [skeleton, outline_node, Tree.node.injEq, true_and] at hskeleton
          rw [outline_node, outline_node, hskeleton.1,
            outlineAll_eq_of_skeleton f hskeleton.2 htokens]
termination_by structural t

theorem outlineAll_eq_of_skeleton (f : Token → Token) {cs cs' : List Tree}
    (hskeleton : outlineAll (fun _ => Grammar.nothing) cs =
      outlineAll (fun _ => Grammar.nothing) cs')
    (htokens : (tokensOf cs).map f = (tokensOf cs').map f) :
    outlineAll f cs = outlineAll f cs' := by
  cases cs with
  | nil =>
      cases cs' with
      | nil => rfl
      | cons c' cs' => cases hskeleton
  | cons c cs =>
      cases cs' with
      | nil => cases hskeleton
      | cons c' cs' =>
          simp only [outlineAll, List.cons.injEq] at hskeleton
          rw [tokensOf_cons, tokensOf_cons, List.map_append, List.map_append] at htokens
          have hlength : (c.tokens.map f).length = (c'.tokens.map f).length := by
            rw [List.length_map, List.length_map]
            exact length_tokens_of_skeleton hskeleton.1
          have hparts := List.append_inj htokens hlength
          rw [outlineAll, outlineAll, outline_eq_of_skeleton f hskeleton.1 hparts.1,
            outlineAll_eq_of_skeleton f hskeleton.2 hparts.2]
termination_by structural cs

end

theorem plain_eq_iff (t t' : Tree) :
    t.plain = t'.plain ↔ t.skeleton = t'.skeleton ∧ t.tokens = t'.tokens := by
  constructor
  · intro h
    constructor
    · have hskeleton := congrArg skeleton h
      simpa only [skeleton, plain, outline_outline, Function.comp_id] using hskeleton
    · have htokens := congrArg tokens h
      simpa only [plain, tokens_outline, List.map_id] using htokens
  · intro h
    exact outline_eq_of_skeleton id h.1 (by rw [h.2])

theorem outline_eq_of_plain (f : Token → Token) {t t' : Tree} (h : t.plain = t'.plain) :
    t.outline f = t'.outline f := by
  have hf := congrArg (outline f) h
  simpa only [plain, outline_outline, Function.comp_id] using hf

theorem bare_eq_of_plain {t t' : Tree} (h : t.plain = t'.plain) : t.bare = t'.bare :=
  outline_eq_of_plain Token.bare h

/-!
# Other tokens in the same tree
-/

mutual

/-- The tree with its tokens replaced by those of a list, in order. -/
def refill (ts : List Token) : Tree → Tree
  | .leaf l => .leaf ⟨l.label, ts.headD l.token⟩
  | .node n k cs => .node n k (refillAll ts cs)

def refillAll (ts : List Token) : List Tree → List Tree
  | [] => []
  | c :: cs => refill ts c :: refillAll (ts.drop c.tokens.length) cs

end

mutual

theorem skeleton_refill (ts : List Token) (t : Tree) : (t.refill ts).skeleton = t.skeleton := by
  cases t with
  | leaf l => rfl
  | node n k cs =>
      show Tree.node 0 k (outlineAll _ (refillAll ts cs)) = Tree.node 0 k (outlineAll _ cs)
      rw [outlineAll_refillAll]
termination_by structural t

theorem outlineAll_refillAll (ts : List Token) (cs : List Tree) :
    outlineAll (fun _ => Grammar.nothing) (refillAll ts cs) =
      outlineAll (fun _ => Grammar.nothing) cs := by
  cases cs with
  | nil => rfl
  | cons c cs =>
      have hc := skeleton_refill ts c
      rw [skeleton, skeleton] at hc
      rw [refillAll, outlineAll, outlineAll, hc, outlineAll_refillAll]
termination_by structural cs

end

mutual

theorem tokens_refill (ts : List Token) (t : Tree) (h : t.tokens.length ≤ ts.length) :
    (t.refill ts).tokens = ts.take t.tokens.length := by
  cases t with
  | leaf l =>
      cases ts with
      | nil => cases h
      | cons t ts => rfl
  | node n k cs => exact tokensOf_refillAll ts cs h
termination_by structural t

theorem tokensOf_refillAll (ts : List Token) (cs : List Tree)
    (h : (tokensOf cs).length ≤ ts.length) :
    tokensOf (refillAll ts cs) = ts.take (tokensOf cs).length := by
  cases cs with
  | nil => simp [refillAll]
  | cons c cs =>
      rw [tokensOf_cons, List.length_append] at h
      rw [refillAll, tokensOf_cons, tokens_refill ts c (by omega),
        tokensOf_refillAll _ cs (by rw [List.length_drop]; omega), tokensOf_cons,
        List.length_append, List.take_add]
termination_by structural cs

end

end Tree
end ForceTry

import ForceTry.Pass
import ForceTry.Proofs.Grammar.WellFormed
import ForceTry.Proofs.Rule.Build

/-!
# The pass as a function

A pass carries a supply of labels and a tally through the tree.  Without labels its result is a
function of the tree: every item whose nested items are done is wrapped when a forced `try` belongs
to it directly.
-/

namespace ForceTry

open ForceTry.DoCatch ForceTry.Tree

namespace Pass

def layout (pass : Pass) (old : Tree) : Layout where
  unit := pass.unit
  base := pass.root.lineIndentation old
  atLineStart := Tree.startsLine (some pass.root) old
  placeholder := pass.style.placeholder
  newline := Tree.newlineStyle (some pass.root)

/-- A node whose children are done; an item is wrapped when there is something to change. -/
def reworked (o : Layout) (n : Nat) (k : NodeKind) (cs : List Tree) : Tree :=
  match (if k = .item then unforceAll? withoutMark cs else none) with
  | some (content :: semicolon) => o.wrappedItem content semicolon
  | _ => .node n k cs

mutual

def rewritten (pass : Pass) : Tree → Tree
  | .leaf l => .leaf l
  | .node n k cs => reworked (pass.layout (.node n k cs)) n k (rewrittenAll pass cs)

def rewrittenAll (pass : Pass) : List Tree → List Tree
  | [] => []
  | c :: cs => rewritten pass c :: rewrittenAll pass cs

end

theorem reworked_of_not_item (o : Layout) (n : Nat) {k : NodeKind} (cs : List Tree)
    (h : k ≠ .item) : reworked o n k cs = .node n k cs := by
  rw [reworked, if_neg h]

theorem rewrittenAll_eq_map (pass : Pass) (cs : List Tree) :
    pass.rewrittenAll cs = cs.map pass.rewritten := by
  induction cs with
  | nil => rfl
  | cons c cs ih => rw [rewrittenAll, ih, List.map_cons]

theorem rewrittenAll_leaves (pass : Pass) {cs : List Tree} (h : ∀ c ∈ cs, c.kind? = none) :
    pass.rewrittenAll cs = cs := by
  rw [rewrittenAll_eq_map]
  refine (List.map_congr_left ?_).trans (List.map_id _)
  intro c hc
  have hleaf := h c hc
  cases c with
  | leaf l => rfl
  | node n k ds => cases hleaf

theorem reworked_item (o : Layout) (n : Nat) {content : Tree} {semicolon : List Tree}
    (hblock : content.isKind .block = false) (hleaves : ∀ s ∈ semicolon, s.kind? = none) :
    reworked o n .item (content :: semicolon) =
      match unforce? withoutMark content with
      | some stripped => o.wrappedItem stripped semicolon
      | none => .node n .item (content :: semicolon) := by
  have hrest : unforceAll? withoutMark semicolon = none := by
    have hnone := firstForcedOf?_isSome withoutMark semicolon
    rw [firstForcedOf?, directNodesOf_leaves hleaves] at hnone
    exact Option.isNone_iff_eq_none.mp (Option.isSome_eq_false_iff.mp hnone)
  rw [reworked, if_pos rfl, unforceAll?, hblock, if_neg Bool.false_ne_true, hrest]
  cases unforce? withoutMark content <;> rfl

theorem kind?_rewritten (pass : Pass) (t : Tree) : (pass.rewritten t).kind? = t.kind? := by
  cases t with
  | leaf l => rfl
  | node n k cs =>
      rw [rewritten, reworked]
      split
      · next content semicolon heq =>
          split at heq
          · next hitem =>
              rw [hitem]
              rfl
          · cases heq
      · rfl

theorem isKind_rewritten (pass : Pass) (k : NodeKind) (t : Tree) :
    (pass.rewritten t).isKind k = t.isKind k := by
  rw [isKind, isKind, kind?_rewritten]

end Pass

namespace Tree

/-!
# The candidates of an item

What is done inside nested blocks does not change which nodes belong to an item directly.
-/

theorem isMarked_of_hasMark {t : Tree} (h : t.hasMark = true) : IsMarked t := by
  unfold hasMark at h
  split at h
  · exact ⟨_, _, _, _, rfl⟩
  · cases h

/-- What counts of a `try` for the rule: whether it is forced, and whether it has a mark. -/
def trait (t : Tree) : Bool × Bool := (t.isForceTry, t.hasMark)

/-- The traits of the `try` nodes that belong to a tree directly. -/
def traits (t : Tree) : List (Bool × Bool) :=
  (t.directCandidates (.only .tryExpression)).map trait

/-- The traits of the `try` nodes that belong to several trees directly, blocks left out. -/
def traitsOf (cs : List Tree) : List (Bool × Bool) :=
  ((directNodesOf cs).filter (matchesFilter (.only .tryExpression))).map trait

theorem traits_node (n : Nat) (k : NodeKind) (cs : List Tree) :
    (Tree.node n k cs).traits =
      (if k = .tryExpression then [(Tree.node n k cs).trait] else []) ++ traitsOf cs := by
  rw [traits, directCandidates, directNodes, List.filter_cons, traitsOf]
  by_cases hk : k = .tryExpression
  · simp [matchesFilter, KindFilter.holds, hk]
  · have hk' : NodeKind.tryExpression ≠ k := fun h => hk h.symm
    simp [matchesFilter, KindFilter.holds, hk, hk']

theorem traitsOf_cons (c : Tree) (cs : List Tree) :
    traitsOf (c :: cs) = (if c.isKind .block then [] else c.traits) ++ traitsOf cs := by
  rw [traitsOf, directNodesOf, List.filter_append, List.map_append]
  split <;> rfl

theorem trait_outline {f : Token → Token} (hf : ∀ t, (f t).kind = t.kind) (t : Tree) :
    (t.outline f).trait = t.trait := by
  rw [trait, trait, isForceTry_outline hf, hasMark_outline hf]

mutual

theorem traits_outline {f : Token → Token} (hf : ∀ t, (f t).kind = t.kind) (t : Tree) :
    (t.outline f).traits = t.traits := by
  cases t with
  | leaf l => rfl
  | node n k cs =>
      have htrait := trait_outline hf (.node n k cs)
      rw [outline_node] at htrait ⊢
      rw [traits_node, traits_node, htrait, traitsOf_outline hf cs]
termination_by structural t

theorem traitsOf_outline {f : Token → Token} (hf : ∀ t, (f t).kind = t.kind) (cs : List Tree) :
    traitsOf (outlineAll f cs) = traitsOf cs := by
  cases cs with
  | nil => rfl
  | cons c cs =>
      rw [outlineAll, traitsOf_cons, traitsOf_cons, isKind_outline, traits_outline hf c,
        traitsOf_outline hf cs]
termination_by structural cs

end

end Tree

namespace Pass

open ForceTry.Grammar

theorem map_leafKind_rewrittenAll (pass : Pass) (cs : List Tree) :
    (pass.rewrittenAll cs).map leafKind? = cs.map leafKind? := by
  induction cs with
  | nil => rfl
  | cons c cs ih =>
      rw [rewrittenAll, List.map_cons, List.map_cons, ih]
      congr 1
      cases c with
      | leaf l => rfl
      | node n k ds =>
          rw [rewritten, reworked]
          split <;> rfl

mutual

theorem traits_rewritten (pass : Pass) (t : Tree) (h : Formed t)
    (hitem : t.isKind .item = false) (hblock : t.isKind .block = false) :
    (pass.rewritten t).traits = t.traits := by
  cases t with
  | leaf l => rfl
  | node n k cs =>
      have hk : k ≠ .item := by
        rw [isKind_node] at hitem
        simpa using hitem
      have hfits := formed_cases h
      have htrait := @isForceTry_of_leafKind n n k _ _ (map_leafKind_rewrittenAll pass cs)
      have hkind : k ≠ .block := by
        rw [isKind_node] at hblock
        simpa using hblock
      have hcs : ∀ c ∈ cs, Formed c ∧ c.isKind .item = false := by
        intro c hc
        exact ⟨(hfits.2 c hc).1, (hfits.2 c hc).2 hkind⟩
      rw [rewritten, reworked_of_not_item _ _ _ hk, traits_node, traits_node, trait, trait, htrait.1,
        htrait.2, traitsOf_rewrittenAll pass cs hcs]
termination_by structural t

theorem traitsOf_rewrittenAll (pass : Pass) (cs : List Tree)
    (h : ∀ c ∈ cs, Formed c ∧ c.isKind .item = false) :
    traitsOf (pass.rewrittenAll cs) = traitsOf cs := by
  cases cs with
  | nil => rfl
  | cons c cs =>
      have hcs := traitsOf_rewrittenAll pass cs fun d hd => h d (List.mem_cons_of_mem c hd)
      have hc := h c (List.mem_cons_self ..)
      rw [rewrittenAll, traitsOf_cons, traitsOf_cons, isKind_rewritten, hcs]
      by_cases hblock : c.isKind .block = true
      · rw [if_pos hblock, if_pos hblock]
      · rw [if_neg hblock, if_neg hblock,
          traits_rewritten pass c hc.1 hc.2 (by simpa using hblock)]
termination_by structural cs

end

end Pass
end ForceTry

import ForceTry.Proofs.Grammar.Children
import ForceTry.Proofs.Pass.Measure
import ForceTry.Proofs.Tree.Parsed
import ForceTry.Proofs.Tree.Starts
import Mathlib.Data.List.Flatten
import Mathlib.Data.List.Nodup
import Mathlib.Data.List.Pairwise
import Mathlib.Data.List.Perm.Basic

/-!
# The item that a `try` belongs to

A `try` of a file is a candidate of exactly one item: the innermost one around it.  So the candidates of
all items are the `try` nodes of the file, each once, and within an item they stand in source order.

The candidates of an item can also be found by a search that keeps the nodes still to be looked at on a
stack.
-/

namespace ForceTry
namespace Tree

open Grammar

/-!
# The search with a stack
-/

def withoutBlocks (cs : List Tree) : List Tree := cs.filter fun c => !c.isKind .block

theorem length_labelsOf_withoutBlocks (cs : List Tree) :
    (labelsOf (withoutBlocks cs)).length ≤ (labelsOf cs).length := by
  induction cs with
  | nil => exact Nat.le_refl 0
  | cons c cs ih =>
      rw [withoutBlocks, List.filter_cons, labelsOf_cons, List.length_append]
      split
      · rw [labelsOf_cons, List.length_append]
        exact Nat.add_le_add_left ih _
      · exact Nat.le_trans ih (Nat.le_add_left _ _)

/-- The nodes that are met when the children of a node, nested blocks left out, take its place on the
stack. -/
def search : List Tree → List Tree
  | [] => []
  | .leaf _ :: stack => search stack
  | .node n k cs :: stack => .node n k cs :: search (withoutBlocks cs ++ stack)
termination_by stack => (labelsOf stack).length
decreasing_by
  · simp
  · have := length_labelsOf_withoutBlocks cs
    simp only [labelsOf_append, labelsOf_cons, labels_node, List.length_append, List.length_cons]
    omega

/-- The search meets the direct nodes of what is on the stack, from the top on. -/
theorem search_eq_flatMap (stack : List Tree) : search stack = stack.flatMap directNodes := by
  fun_induction search stack with
  | case1 => rfl
  | case2 l stack ih =>
      rw [ih, List.flatMap_cons]
      rfl
  | case3 n k cs stack ih =>
      rw [ih, List.flatMap_append, List.flatMap_cons, directNodes, directNodesOf_eq_flatMap]
      rfl

/-!
# Every `try` belongs to an item
-/

/-- The items of a tree, each before the items below it. -/
def allItems (t : Tree) : List Tree := t.findAll (.only .item)

def tries (t : Tree) : List Tree := t.findAll (.only .tryExpression)

/-- The `try` nodes that are left to the item around a tree. -/
def outerTries (t : Tree) : List Tree :=
  if t.isKind .item || t.isKind .block then [] else t.directTries

def ownedTries (t : Tree) : List Tree := t.allItems.flatMap directTries

section

variable (f : KindFilter) (n : Nat) (k : NodeKind) (cs : List Tree)

theorem findAll_node : (Tree.node n k cs).findAll f =
    (if f.holds k then [.node n k cs] else []) ++ cs.flatMap (findAll f) := by
  rw [findAll, nodes, nodesOf_eq_flatMap, List.filter_cons, List.filter_flatMap]
  show (if f.holds k then _ else _) = _
  split <;> rfl

theorem directCandidates_node : (Tree.node n k cs).directCandidates f =
    (if f.holds k then [.node n k cs] else []) ++
      (withoutBlocks cs).flatMap (directCandidates f) := by
  rw [directCandidates, directNodes, directNodesOf_eq_flatMap, List.filter_cons, List.filter_flatMap]
  show (if f.holds k then _ else _) = _
  split <;> rfl

end

theorem ownedTries_node (n : Nat) (k : NodeKind) (cs : List Tree) :
    (Tree.node n k cs).ownedTries =
      (if k = .item then (Tree.node n k cs).directTries else []) ++ cs.flatMap ownedTries := by
  rw [ownedTries, allItems, findAll_node, List.flatMap_append, List.flatMap_assoc]
  congr 1
  by_cases hk : k = .item
  · subst hk
    exact List.append_nil _
  · have hfilter : (KindFilter.only .item).holds k = false := beq_false_of_ne (Ne.symm hk)
    rw [hfilter, if_neg hk]
    rfl

theorem flatMap_outerTries {cs : List Tree} (h : ∀ c ∈ cs, c.isKind .item = false) :
    cs.flatMap outerTries = (withoutBlocks cs).flatMap directTries := by
  induction cs with
  | nil => rfl
  | cons c cs ih =>
      have hrest := ih fun d hd => h d (List.mem_cons_of_mem c hd)
      rw [List.flatMap_cons, hrest, outerTries, h c (List.mem_cons_self ..), Bool.false_or,
        withoutBlocks, withoutBlocks, List.filter_cons]
      cases c.isKind .block <;> rfl

theorem flatMap_outerTries_eq_nil {cs : List Tree}
    (h : ∀ c ∈ cs, c.kind? = none ∨ c.isKind .item = true) : cs.flatMap outerTries = [] := by
  rw [List.flatMap_eq_nil_iff]
  intro c hc
  rcases h c hc with hleaf | hitem
  · cases c with
    | leaf l => rfl
    | node n k cs => cases hleaf
  · rw [outerTries, hitem]
    rfl

theorem perm_flatMap_tries {cs : List Tree}
    (h : ∀ c ∈ cs, c.tries.Perm (c.outerTries ++ c.ownedTries)) :
    (cs.flatMap tries).Perm (cs.flatMap outerTries ++ cs.flatMap ownedTries) :=
  (List.Perm.flatMap_left cs h).trans (List.flatMap_append_perm cs outerTries ownedTries).symm

/-- Every `try` of a tree is left to the item around the tree or belongs to one item below it. -/
theorem perm_tries (t : Tree) (h : Formed t) : t.tries.Perm (t.outerTries ++ t.ownedTries) := by
  induction t using Tree.induction with
  | leaf l => exact List.Perm.refl []
  | node n k cs ih =>
      have hcases := (formed_cases h).2
      have hcs := perm_flatMap_tries fun c hc => ih c hc (hcases c hc).1
      rw [tries, findAll_node, ownedTries_node]
      by_cases hblock : k = .block
      · subst hblock
        rw [flatMap_outerTries_eq_nil (items_of_block h)] at hcs
        exact hcs
      rw [flatMap_outerTries fun c hc => (hcases c hc).2 hblock] at hcs
      have hself := hcs.append_left
        (if (KindFilter.only .tryExpression).holds k then [Tree.node n k cs] else [])
      rw [← List.append_assoc] at hself
      refine hself.trans (List.Perm.of_eq ?_)
      rw [outerTries, isKind_node, isKind_node, directTries, directCandidates_node]
      by_cases hitem : k = .item
      · subst hitem
        rfl
      · rw [if_neg hitem, beq_false_of_ne hitem, beq_false_of_ne hblock]
        rfl

theorem perm_ownedTries {t : Tree} (h : FormsFile t) : t.ownedTries.Perm t.tries := by
  rcases items_of_formsFile h with ⟨n, items, ending, rfl, _, hitems⟩
  have hcs : ∀ c ∈ items ++ [.leaf ending], Formed c ∧ (c.kind? = none ∨ c.isKind .item = true) := by
    intro c hc
    rcases List.mem_append.mp hc with hc | hc
    · exact ⟨(hitems c hc).1, .inr (hitems c hc).2⟩
    · rw [List.mem_singleton.mp hc]
      exact ⟨.leaf ending, .inl rfl⟩
  have hall := perm_flatMap_tries fun c hc => perm_tries c (hcs c hc).1
  rw [flatMap_outerTries_eq_nil fun c hc => (hcs c hc).2] at hall
  rw [tries, findAll_node, ownedTries_node]
  exact hall.symm

/-!
# Only one item
-/

theorem mem_findAll {f : KindFilter} {t m : Tree} :
    m ∈ t.findAll f ↔ m ∈ t.nodes ∧ m.matchesFilter f = true := List.mem_filter

mutual

theorem count_label_nodes (t : Tree) (x : Nat) :
    (t.nodes.map label).count x ≤ t.labels.count x := by
  cases t with
  | leaf l => exact Nat.zero_le _
  | node n k cs =>
      have hcs := count_label_nodesOf cs x
      rw [nodes, List.map_cons, labels_node, List.count_cons, List.count_cons]
      exact Nat.add_le_add_right hcs _
termination_by structural t

theorem count_label_nodesOf (cs : List Tree) (x : Nat) :
    ((nodesOf cs).map label).count x ≤ (labelsOf cs).count x := by
  cases cs with
  | nil => exact Nat.zero_le _
  | cons c cs =>
      rw [nodesOf_cons, List.map_append, List.count_append, labelsOf_cons, List.count_append]
      exact Nat.add_le_add (count_label_nodes c x) (count_label_nodesOf cs x)
termination_by structural cs

end

theorem nodup_label_nodes {t : Tree} {n : Nat} (h : t.Neat n) : (t.nodes.map label).Nodup := by
  rw [List.nodup_iff_count_le_one]
  exact fun x => Nat.le_trans (count_label_nodes t x) (h.count_le_one x)

theorem directNodes_sublist (t : Tree) : t.directNodes.Sublist t.nodes := by
  induction t using Tree.induction with
  | leaf l => exact List.Sublist.refl []
  | node n k cs ih =>
      rw [directNodes, nodes, directNodesOf_eq_flatMap, nodesOf_eq_flatMap]
      apply List.Sublist.cons_cons
      calc
        ((withoutBlocks cs).flatMap directNodes).Sublist ((withoutBlocks cs).flatMap nodes) :=
          List.Sublist.flatMap_right _ fun c hc => ih c (List.mem_filter.mp hc).1
        List.Sublist _ (cs.flatMap nodes) := List.filter_sublist.flatMap nodes

theorem eq_of_mem_directTries {t item other m : Tree} {n : Nat} (hfile : FormsFile t)
    (hneat : t.Neat n) (hitem : item ∈ t.allItems) (hother : other ∈ t.allItems)
    (hm : m ∈ item.directTries) (hm' : m ∈ other.directTries) : other = item := by
  have hnodup : t.ownedTries.Nodup := by
    rw [(perm_ownedTries hfile).nodup_iff]
    exact (nodup_label_nodes hneat).of_map.filter _
  by_contra hne
  have : Std.Symm (Function.onFun List.Disjoint directTries) := ⟨fun _ _ h _ hm hm' => h hm' hm⟩
  have hdisjoint := (List.nodup_flatMap.mp hnodup).2.forall hother hitem hne
  exact hdisjoint hm' hm

/-- The item is the innermost one around a `try`, which belongs to it and to no other item. -/
structure Owns (t owner m : Tree) : Prop where
  item : owner ∈ t.allItems
  direct : m ∈ owner.directTries
  innermost : ∀ other ∈ t.allItems, m ∈ other.nodes → owner ∈ other.nodes
  alone : ∀ other ∈ t.allItems, m ∈ other.directTries → other = owner

theorem owns_of_mem {t m : Tree} {n : Nat} (hfile : FormsFile t) (hneat : t.Neat n)
    (hm : m ∈ t.tries) : ∃ owner, t.Owns owner m := by
  rcases List.mem_flatMap.mp ((perm_ownedTries hfile).mem_iff.mpr hm) with ⟨owner, hitem, hdirect⟩
  refine ⟨owner, hitem, hdirect, ?_, ?_⟩
  · intro other hother hmem
    have hnodes := (mem_findAll.mp hother).1
    have hkind : other.isKind .item = true := by
      rw [← matchesFilter_only]
      exact (mem_findAll.mp hother).2
    have hforms : Formed other := by
      apply formed_of_file hfile hnodes
      cases other with
      | leaf l => rfl
      | node k kind cs =>
          rw [isKind_node, beq_iff_eq] at hkind
          rw [hkind]
          rfl
    have hbelow : m ∈ other.outerTries ++ other.ownedTries :=
      (perm_tries other hforms).mem_iff.mp (mem_findAll.mpr ⟨hmem, (mem_findAll.mp hm).2⟩)
    rw [outerTries, hkind] at hbelow
    rcases List.mem_flatMap.mp hbelow with ⟨inner, hinner, hdirect'⟩
    have hinner' := mem_findAll.mp hinner
    have hsame := eq_of_mem_directTries hfile hneat hitem
      (mem_findAll.mpr ⟨(nodes_sublist hnodes).subset hinner'.1, hinner'.2⟩) hdirect hdirect'
    rw [← hsame]
    exact hinner'.1
  · intro other hother hdirect'
    exact eq_of_mem_directTries hfile hneat hitem hother hdirect hdirect'

/-- Every `try` of a source is a candidate of exactly one item, the innermost one around it, and the
candidates of an item stand in source order without repetitions.  So the candidates of all items are the
`try` nodes of the source, each once.  A search with a stack finds the candidates of an item in the same
order. -/
theorem ofText_tries_owned {source : Text} {t : Tree} (h : ofText source = .ok t) :
    (∀ m ∈ t.tries, ∃ owner, t.Owns owner m) ∧
      (∀ item ∈ t.allItems, item.directTries.Sublist t.tries ∧
        (item.directTries.map label).Nodup ∧
        item.directTries = (search [item]).filter (matchesFilter (.only .tryExpression))) ∧
      (t.allItems.flatMap directTries).Perm t.tries := by
  rcases ofText_forms h with ⟨_, _, _, _, hfile, hneat⟩
  refine ⟨fun m hm => owns_of_mem hfile hneat hm, ?_, perm_ownedTries hfile⟩
  intro item hitem
  have hsublist : item.directTries.Sublist t.tries :=
    ((directNodes_sublist item).trans (nodes_sublist (mem_findAll.mp hitem).1)).filter _
  refine ⟨hsublist, ?_, ?_⟩
  · exact (nodup_label_nodes hneat).sublist ((hsublist.trans List.filter_sublist).map label)
  · rw [search_eq_flatMap, List.flatMap_singleton]
    rfl

theorem ofText_tries_owned_closures :
    let source := Text.ofString
      "try! f \x7b try a(try! b \x7b try c() \x7d) \x7d; do \x7b try d() \x7d catch \x7b \x7d\n"
    ∃ t, ofText source = .ok t ∧
      (∀ m ∈ t.tries, ∃ owner, t.Owns owner m) ∧
      (∀ item ∈ t.allItems, item.directTries.Sublist t.tries ∧
        (item.directTries.map label).Nodup ∧
        item.directTries = (search [item]).filter (matchesFilter (.only .tryExpression))) ∧
      (t.allItems.flatMap directTries).Perm t.tries := by
  intro source
  have hok : (ofText source).isOk = true := by decide +kernel
  cases h : ofText source with
  | error e =>
      rw [h] at hok
      cases hok
  | ok t => exact ⟨t, rfl, ofText_tries_owned h⟩

end Tree
end ForceTry

import ForceTry.Proofs.Tree.TokenEdit
import ForceTry.Rule.DoCatch

/-!
# The first forced `try`

The rule asks about the nodes that belong to an item directly, in source order, and changes the first
forced `try` among them.  As a function of the tree this is a search that does not enter blocks.
-/

namespace ForceTry
namespace Tree

mutual

/-- The tree with `strip` applied to its first forced `try`, blocks left out. -/
def unforce? (strip : Tree → Tree) : Tree → Option Tree
  | .leaf _ => none
  | .node n k cs =>
      if (Tree.node n k cs).isForceTry then some (strip (.node n k cs))
      else (unforceAll? strip cs).map (.node n k)

/-- `unforce?` in the first of several trees in which there is something to change. -/
def unforceAll? (strip : Tree → Tree) : List Tree → Option (List Tree)
  | [] => none
  | c :: cs =>
      match (if c.isKind .block then none else unforce? strip c) with
      | some c' => some (c' :: cs)
      | none => (unforceAll? strip cs).map (c :: ·)

end

def firstForced? (t : Tree) : Option Tree := t.directNodes.find? isForceTry

/-- The first forced `try` that belongs to one of several trees directly, blocks left out. -/
def firstForcedOf? (cs : List Tree) : Option Tree := (directNodesOf cs).find? isForceTry

theorem firstForced?_node (n : Nat) (k : NodeKind) (cs : List Tree) :
    (Tree.node n k cs).firstForced? =
      if (Tree.node n k cs).isForceTry then some (.node n k cs) else firstForcedOf? cs := by
  rw [firstForced?, directNodes, List.find?_cons, firstForcedOf?]
  cases (Tree.node n k cs).isForceTry <;> rfl

theorem firstForcedOf?_cons (c : Tree) (cs : List Tree) :
    firstForcedOf? (c :: cs) =
      (if c.isKind .block then none else c.firstForced?).or (firstForcedOf? cs) := by
  rw [firstForcedOf?, directNodesOf, List.find?_append]
  split <;> rfl

theorem directNodesOf_leaves {cs : List Tree} (h : ∀ c ∈ cs, c.kind? = none) :
    directNodesOf cs = [] := by
  induction cs with
  | nil => rfl
  | cons c cs ih =>
      have hc := h c (List.mem_cons_self ..)
      cases c with
      | leaf l => exact ih fun d hd => h d (List.mem_cons_of_mem _ hd)
      | node n k ds => cases hc

mutual

theorem firstForced?_isSome (strip : Tree → Tree) (t : Tree) :
    (unforce? strip t).isSome = t.firstForced?.isSome := by
  cases t with
  | leaf l => rfl
  | node n k cs =>
      rw [unforce?, firstForced?_node]
      split
      · rfl
      · rw [Option.isSome_map, firstForcedOf?_isSome strip cs]
termination_by structural t

theorem firstForcedOf?_isSome (strip : Tree → Tree) (cs : List Tree) :
    (unforceAll? strip cs).isSome = (firstForcedOf? cs).isSome := by
  cases cs with
  | nil => rfl
  | cons c cs =>
      have hc := firstForced?_isSome strip c
      have hcs := firstForcedOf?_isSome strip cs
      rw [unforceAll?, firstForcedOf?_cons]
      by_cases hblock : c.isKind .block = true
      · rw [if_pos hblock, if_pos hblock, Option.none_or, Option.isSome_map]
        exact hcs
      · rw [if_neg hblock, if_neg hblock]
        cases hun : unforce? strip c with
        | none =>
            rw [hun] at hc
            cases hforced : c.firstForced? with
            | none =>
                rw [Option.none_or, Option.isSome_map]
                exact hcs
            | some m =>
                rw [hforced] at hc
                cases hc
        | some c' =>
            rw [hun] at hc
            cases hforced : c.firstForced? with
            | none =>
                rw [hforced] at hc
                cases hc
            | some m => rfl
termination_by structural cs

end

theorem mem_nodes_of_mem_directNodes (t m : Tree) (h : m ∈ t.directNodes) : m ∈ t.nodes := by
  induction t using Tree.induction with
  | leaf l => cases h
  | node n k cs ih =>
      rw [directNodes, directNodesOf_eq_flatMap] at h
      rw [nodes, nodesOf_eq_flatMap]
      rcases List.mem_cons.mp h with rfl | h
      · exact List.mem_cons_self ..
      · rcases List.mem_flatMap.mp h with ⟨c, hc, hm⟩
        have hmem := (List.mem_filter.mp hc).1
        exact List.mem_cons_of_mem _ (List.mem_flatMap.mpr ⟨c, hmem, ih c hmem hm⟩)

theorem labels_of_mem_nodes (t m : Tree) (h : m ∈ t.nodes) :
    ∀ x, m.labels.count x ≤ t.labels.count x := by
  induction t using Tree.induction with
  | leaf l => cases h
  | node n k cs ih =>
      intro x
      rw [nodes, nodesOf_eq_flatMap] at h
      rcases List.mem_cons.mp h with rfl | h
      · exact Nat.le_refl _
      · rcases List.mem_flatMap.mp h with ⟨c, hc, hm⟩
        have hle := ih c hc hm x
        have hsum := count_labels_le_labelsOf hc x
        rw [labels_node, List.count_cons]
        omega

/-- Labels that stand apart in a tree do so in each of its nodes, for every larger supply. -/
theorem Neat.of_mem_nodes {t m : Tree} {n n' : Nat} (h : t.Neat n) (hm : m ∈ t.nodes) (hle : n ≤ n') :
    m.Neat n' := by
  intro x
  have hm := labels_of_mem_nodes t m hm x
  have ht := h x
  split at ht <;> split <;> omega

theorem mem_nodes_of_firstForced? {t m : Tree} (h : t.firstForced? = some m) : m ∈ t.nodes :=
  mem_nodes_of_mem_directNodes t m (List.mem_of_find?_eq_some h)

theorem label_mem_of_firstForced? {t m : Tree} (h : t.firstForced? = some m) :
    m.label ∈ t.labels := by
  have hcount := labels_of_mem_nodes t m (mem_nodes_of_firstForced? h) m.label
  have hpos := List.count_pos_iff.mpr (label_mem_labels m)
  exact List.count_pos_iff.mp (Nat.lt_of_lt_of_le hpos hcount)

theorem label_mem_of_firstForcedOf? {cs : List Tree} {m : Tree}
    (h : firstForcedOf? cs = some m) : m.label ∈ labelsOf cs := by
  induction cs with
  | nil => cases h
  | cons c cs ih =>
      rw [firstForcedOf?_cons, Option.or_eq_some_iff] at h
      rw [labelsOf_cons, List.mem_append]
      rcases h with h | h
      · split at h
        · cases h
        · exact .inl (label_mem_of_firstForced? h)
      · exact .inr (ih h.2)

/-!
# Replacing a node
-/

theorem substAll_append (old : Nat) (new : Tree) (cs ds : List Tree) :
    substAll old new (cs ++ ds) = substAll old new cs ++ substAll old new ds := by
  induction cs with
  | nil => rfl
  | cons c cs ih => rw [List.cons_append, substAll, substAll, ih, List.cons_append]

/-- A node that stands once in a tree is replaced at one place: what is in front of it and behind it
stays. -/
theorem split_subst (t : Tree) {m : Tree} (h : m ∈ t.nodes) (hcount : t.labels.count m.label ≤ 1)
    (new : Tree) :
    (∃ front back, t.leaves = front ++ (m.leaves ++ back) ∧
      (subst m.label new t).leaves = front ++ (new.leaves ++ back)) ∧
    ∃ front back, t.labels = front ++ (m.labels ++ back) ∧
      (subst m.label new t).labels = front ++ (new.labels ++ back) := by
  induction t using Tree.induction with
  | leaf l => cases h
  | node n k cs ih =>
      rw [nodes, nodesOf_eq_flatMap] at h
      rcases List.mem_cons.mp h with rfl | h
      · rw [subst, label, if_pos rfl]
        exact ⟨⟨[], [], by simp⟩, [], [], by simp⟩
      rcases List.mem_flatMap.mp h with ⟨c, hc, hm⟩
      rcases List.append_of_mem hc with ⟨xs, ys, rfl⟩
      have hpos : 0 < c.labels.count m.label :=
        Nat.lt_of_lt_of_le (List.count_pos_iff.mpr (label_mem_labels m)) (labels_of_mem_nodes c m hm _)
      rw [labels_node, List.count_cons, labelsOf_append, labelsOf_cons, List.count_append,
        List.count_append] at hcount
      have hfront : m.label ∉ labelsOf xs := List.count_eq_zero.mp (by omega)
      have hback : m.label ∉ labelsOf ys := List.count_eq_zero.mp (by omega)
      have hne : n ≠ m.label := by
        intro heq
        rw [if_pos (beq_iff_eq.mpr heq)] at hcount
        omega
      rcases ih c hc hm (by omega) with
        ⟨⟨front, back, hleaves, hleaves'⟩, front', back', hlabels, hlabels'⟩
      rw [subst, if_neg hne, substAll_append, substAll, substAll_of_not_mem new xs hfront,
        substAll_of_not_mem new ys hback]
      constructor
      · refine ⟨leavesOf xs ++ front, back ++ leavesOf ys, ?_, ?_⟩
        · rw [leaves_node, leavesOf_append, leavesOf_cons, hleaves]
          simp only [List.append_assoc]
        · rw [leaves_node, leavesOf_append, leavesOf_cons, hleaves']
          simp only [List.append_assoc]
      · refine ⟨n :: (labelsOf xs ++ front'), back' ++ labelsOf ys, ?_, ?_⟩
        · rw [labels_node, labelsOf_append, labelsOf_cons, hlabels]
          simp only [List.append_assoc, List.cons_append]
        · rw [labels_node, labelsOf_append, labelsOf_cons, hlabels']
          simp only [List.append_assoc, List.cons_append]

theorem count_subst {t m : Tree} (h : m ∈ t.nodes) (hcount : t.labels.count m.label ≤ 1)
    (new : Tree) (x : Nat) : (subst m.label new t).labels.count x + m.labels.count x =
      t.labels.count x + new.labels.count x := by
  rcases (split_subst t h hcount new).2 with ⟨front, back, hlabels, hlabels'⟩
  rw [hlabels, hlabels']
  simp only [List.count_append]
  omega

theorem tokens_subst_ne_nil {t m new : Tree} (h : m ∈ t.nodes)
    (hcount : t.labels.count m.label ≤ 1) (hnew : new.tokens ≠ []) :
    (subst m.label new t).tokens ≠ [] := by
  rcases (split_subst t h hcount new).1 with ⟨front, back, _, hleaves⟩
  intro hnil
  rw [tokens, hleaves, List.map_append, List.map_append, List.append_eq_nil_iff,
    List.append_eq_nil_iff] at hnil
  exact hnew hnil.2.1

/-!
# The search finds what a replacement by label changes

In a tree in which no label occurs twice, only the `try` that is found has its label.
-/

mutual

theorem unforce?_eq_subst (strip : Tree → Tree) {m : Tree} (t : Tree)
    (h : t.firstForced? = some m) (hcount : t.labels.count m.label ≤ 1) :
    unforce? strip t = some (subst m.label (strip m) t) := by
  cases t with
  | leaf l => cases h
  | node n k cs =>
      rw [firstForced?_node] at h
      rw [unforce?]
      split at h
      · next hforced =>
          cases h
          rw [if_pos hforced, subst, label, if_pos rfl]
      · next hforced =>
          have hpos := List.count_pos_iff.mpr (label_mem_of_firstForcedOf? h)
          rw [labels_node, List.count_cons] at hcount
          have hne : n ≠ m.label := by
            intro heq
            rw [if_pos (beq_iff_eq.mpr heq)] at hcount
            omega
          rw [if_neg hforced, unforceAll?_eq_subst strip cs h (by omega), subst, if_neg hne]
          rfl
termination_by structural t

theorem unforceAll?_eq_subst (strip : Tree → Tree) {m : Tree} (cs : List Tree)
    (h : firstForcedOf? cs = some m) (hcount : (labelsOf cs).count m.label ≤ 1) :
    unforceAll? strip cs = some (substAll m.label (strip m) cs) := by
  cases cs with
  | nil => cases h
  | cons c cs =>
      rw [labelsOf_cons, List.count_append] at hcount
      have hsearch := firstForced?_isSome strip c
      rw [firstForcedOf?_cons, Option.or_eq_some_iff] at h
      rw [unforceAll?]
      rcases h with h | ⟨hnone, h⟩
      · split at h
        · cases h
        · next hblock =>
            have hrest := not_mem_of_count_le_one hcount (label_mem_of_firstForced? h)
            rw [if_neg hblock, unforce?_eq_subst strip c h (by omega), substAll,
              substAll_of_not_mem _ cs hrest]
      · have hnot : m.label ∉ c.labels := by
          rw [Nat.add_comm] at hcount
          exact not_mem_of_count_le_one hcount (label_mem_of_firstForcedOf? h)
        have hhead : (if c.isKind .block then none else unforce? strip c) = none := by
          split
          · rfl
          · next hblock =>
              rw [if_neg hblock] at hnone
              rw [hnone] at hsearch
              exact Option.isSome_eq_false_iff.mp hsearch |> Option.isNone_iff_eq_none.mp
        rw [hhead, unforceAll?_eq_subst strip cs h (by omega), substAll, subst_of_not_mem _ c hnot]
        rfl
termination_by structural cs

end

/-!
# The search and outlines

An outline that keeps the kinds of tokens has its forced `try` at the same place.
-/

theorem isKind_outline (f : Token → Token) (k : NodeKind) (t : Tree) :
    (t.outline f).isKind k = t.isKind k := by
  cases t <;> rfl

def leafKind? : Tree → Option TokenKind
  | .leaf l => some l.token.kind
  | .node _ _ _ => none

def hasMark : Tree → Bool
  | .node _ .tryExpression [.leaf _, .leaf _, _] => true
  | _ => false

/-- A `try` with children of these kinds has the mark that forces it. -/
def forcedBy : List (Option TokenKind) → Bool
  | [_, some m, _] => m == .exclamationMark
  | _ => false

/-- A `try` with children of these kinds has a mark behind its keyword. -/
def markedBy : List (Option TokenKind) → Bool
  | [some _, some _, _] => true
  | _ => false

theorem isForceTry_try (n : Nat) (cs : List Tree) :
    (Tree.node n .tryExpression cs).isForceTry = forcedBy (cs.map leafKind?) := by
  match cs with
  | [] => rfl
  | [_] => rfl
  | [_, _] => simp [isForceTry, tryMark?, forcedBy]
  | [_, .leaf _, _] => rfl
  | [_, .node _ _ _, _] => rfl
  | _ :: _ :: _ :: _ :: _ => simp [isForceTry, tryMark?, forcedBy]

theorem hasMark_try (n : Nat) (cs : List Tree) :
    (Tree.node n .tryExpression cs).hasMark = markedBy (cs.map leafKind?) := by
  match cs with
  | [] => rfl
  | [_] => simp [hasMark, markedBy]
  | [_, _] => simp [hasMark, markedBy]
  | [.leaf _, .leaf _, _] => rfl
  | [.leaf _, .node _ _ _, _] => rfl
  | [.node _ _ _, _, _] => rfl
  | _ :: _ :: _ :: _ :: _ => simp [hasMark, markedBy]

/-- Whether a node is a `try` with a mark, and with which one, shows in the kinds of its leaves. -/
theorem isForceTry_of_leafKind {n n' : Nat} {k : NodeKind} {cs cs' : List Tree}
    (h : cs.map leafKind? = cs'.map leafKind?) :
    (Tree.node n k cs).isForceTry = (Tree.node n' k cs').isForceTry ∧
      (Tree.node n k cs).hasMark = (Tree.node n' k cs').hasMark := by
  cases k with
  | tryExpression =>
      rw [isForceTry_try, isForceTry_try, hasMark_try, hasMark_try, h]
      exact ⟨rfl, rfl⟩
  | _ => exact ⟨rfl, rfl⟩

theorem map_leafKind_outlineAll {f : Token → Token} (hf : ∀ t, (f t).kind = t.kind)
    (cs : List Tree) : (outlineAll f cs).map leafKind? = cs.map leafKind? := by
  rw [outlineAll_eq_map, List.map_map]
  apply List.map_congr_left
  intro c _
  cases c with
  | leaf l => exact congrArg some (hf l.token)
  | node n k cs => rfl

theorem isForceTry_outline {f : Token → Token} (hf : ∀ t, (f t).kind = t.kind) (t : Tree) :
    (t.outline f).isForceTry = t.isForceTry := by
  cases t with
  | leaf l => rfl
  | node n k cs => exact (isForceTry_of_leafKind (map_leafKind_outlineAll hf cs)).1

theorem hasMark_outline {f : Token → Token} (hf : ∀ t, (f t).kind = t.kind) (t : Tree) :
    (t.outline f).hasMark = t.hasMark := by
  cases t with
  | leaf l => rfl
  | node n k cs => exact (isForceTry_of_leafKind (map_leafKind_outlineAll hf cs)).2

variable {f : Token → Token} {strip strip' : Tree → Tree}

mutual

theorem unforce?_outline (hf : ∀ t, (f t).kind = t.kind)
    (hstrip : ∀ m, m.isForceTry = true → strip' (m.outline f) = (strip m).outline f) (t : Tree) :
    unforce? strip' (t.outline f) = (unforce? strip t).map (outline f) := by
  cases t with
  | leaf l => rfl
  | node n k cs =>
      have hforce := isForceTry_outline hf (.node n k cs)
      have hcs := unforceAll?_outline hf hstrip cs
      rw [outline_node] at hforce ⊢
      rw [unforce?, unforce?, hforce]
      split
      · next h =>
          have hm := hstrip (.node n k cs) h
          rw [outline_node] at hm
          rw [hm]
          rfl
      · rw [hcs, Option.map_map, Option.map_map]
        rfl
termination_by structural t

theorem unforceAll?_outline (hf : ∀ t, (f t).kind = t.kind)
    (hstrip : ∀ m, m.isForceTry = true → strip' (m.outline f) = (strip m).outline f)
    (cs : List Tree) :
    unforceAll? strip' (outlineAll f cs) = (unforceAll? strip cs).map (outlineAll f) := by
  cases cs with
  | nil => rfl
  | cons c cs =>
      have hc := unforce?_outline hf hstrip c
      have hcs := unforceAll?_outline hf hstrip cs
      rw [outlineAll, unforceAll?, unforceAll?, isKind_outline, hc, hcs]
      split
      · next c' h =>
          split at h
          · cases h
          · next hblock =>
              rw [if_neg hblock]
              cases hun : unforce? strip c with
              | none =>
                  rw [hun] at h
                  cases h
              | some u =>
                  rw [hun] at h
                  cases h
                  rfl
      · next h =>
          have hnone : (if c.isKind .block then none else unforce? strip c) = none := by
            split
            · rfl
            · next hblock =>
                rw [if_neg hblock, Option.map_eq_none_iff] at h
                exact h
          rw [hnone, Option.map_map, Option.map_map]
          rfl
termination_by structural cs

end

end Tree
end ForceTry

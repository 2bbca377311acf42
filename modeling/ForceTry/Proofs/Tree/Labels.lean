import ForceTry.Proofs.Tree.Outline

/-!
# Labels

An edit hands out labels that stand nowhere in the tree.  So an element that comes back with its old
label is unchanged, no label occurs twice, and without its labels the result is that of the same
edit on plain trees.
-/

namespace ForceTry

/-- How often the label `x` is among those from `n` up to `n'`. -/
def handedOut (n n' x : Nat) : Nat := if n ≤ x ∧ x < n' then 1 else 0

theorem handedOut_add {n n' n'' : Nat} (h : n ≤ n') (h' : n' ≤ n'') (x : Nat) :
    handedOut n n' x + handedOut n' n'' x = handedOut n n'' x := by
  unfold handedOut
  split <;> split <;> split <;> omega

theorem handedOut_succ (n x : Nat) : handedOut n (n + 1) x = if n == x then 1 else 0 := by
  unfold handedOut
  simp only [beq_iff_eq]
  split <;> split <;> omega

theorem handedOut_add_one (n k x : Nat) :
    handedOut n (n + (k + 1)) x = handedOut n (n + k) x + if n + k == x then 1 else 0 := by
  have hadd := handedOut_add (Nat.le_add_right n k) (Nat.le_succ (n + k)) x
  rw [Nat.succ_eq_add_one, handedOut_succ] at hadd
  exact hadd.symm

theorem handedOut_eq_count (n k x : Nat) :
    handedOut n (n + k) x = (List.range' n k).count x := by
  induction k with
  | zero =>
      unfold handedOut
      split
      · omega
      · rfl
  | succ k ih =>
      rw [handedOut_add_one, ih, List.range'_concat, List.count_append, List.count_singleton,
        Nat.one_mul]

theorem handedOut_self (n x : Nat) : handedOut n n x = 0 := by
  unfold handedOut
  split <;> omega

namespace Tree

mutual

def labels : Tree → List Nat
  | .leaf l => [l.label]
  | .node n _ cs => n :: labelsOf cs

def labelsOf : List Tree → List Nat
  | [] => []
  | c :: cs => labels c ++ labelsOf cs

end

@[simp] theorem labels_leaf (l : Leaf) : (Tree.leaf l).labels = [l.label] := rfl

@[simp] theorem labels_node (n : Nat) (k : NodeKind) (cs : List Tree) :
    (Tree.node n k cs).labels = n :: labelsOf cs := rfl

@[simp] theorem labelsOf_nil : labelsOf [] = [] := rfl

@[simp] theorem labelsOf_cons (c : Tree) (cs : List Tree) :
    labelsOf (c :: cs) = c.labels ++ labelsOf cs := rfl

theorem labelsOf_append (cs ds : List Tree) :
    labelsOf (cs ++ ds) = labelsOf cs ++ labelsOf ds := by
  induction cs with
  | nil => rfl
  | cons c cs ih => rw [List.cons_append, labelsOf_cons, labelsOf_cons, ih, List.append_assoc]

theorem label_mem_labels (t : Tree) : t.label ∈ t.labels := by
  cases t <;> simp [label]

theorem count_labels_le_labelsOf {c : Tree} {cs : List Tree} (h : c ∈ cs) (x : Nat) :
    c.labels.count x ≤ (labelsOf cs).count x := by
  induction cs with
  | nil => cases h
  | cons d cs ih =>
      rw [labelsOf_cons, List.count_append]
      rcases List.mem_cons.mp h with rfl | h
      · exact Nat.le_add_right _ _
      · exact Nat.le_trans (ih h) (Nat.le_add_left _ _)

theorem label_mem_labelsOf {c : Tree} {cs : List Tree} {x : Nat} (hc : c ∈ cs) (h : x ∈ c.labels) :
    x ∈ labelsOf cs :=
  List.count_pos_iff.mp
    (Nat.lt_of_lt_of_le (List.count_pos_iff.mpr h) (count_labels_le_labelsOf hc x))

mutual

theorem count_leaves_le (t : Tree) (x : Nat) :
    (t.leaves.map Leaf.label).count x ≤ t.labels.count x := by
  cases t with
  | leaf l => exact Nat.le_refl _
  | node n k cs =>
      rw [leaves_node, labels_node, List.count_cons]
      exact Nat.le_trans (count_leavesOf_le cs x) (Nat.le_add_right _ _)
termination_by structural t

theorem count_leavesOf_le (cs : List Tree) (x : Nat) :
    ((leavesOf cs).map Leaf.label).count x ≤ (labelsOf cs).count x := by
  cases cs with
  | nil => exact Nat.le_refl _
  | cons c cs =>
      rw [leavesOf_cons, labelsOf_cons, List.map_append, List.count_append, List.count_append]
      exact Nat.add_le_add (count_leaves_le c x) (count_leavesOf_le cs x)
termination_by structural cs

end

/-- No label occurs twice, and all labels are below `n`. -/
def Neat (n : Nat) (t : Tree) : Prop := ∀ x, t.labels.count x ≤ if x < n then 1 else 0

theorem Neat.lt {n : Nat} {t : Tree} (h : t.Neat n) : ∀ x ∈ t.labels, x < n := by
  intro x hx
  have hcount := h x
  have hpos := List.count_pos_iff.mpr hx
  split at hcount
  · next hlt => exact hlt
  · omega

theorem Neat.children {n m : Nat} {k : NodeKind} {cs : List Tree} (h : (Tree.node m k cs).Neat n) :
    ∀ x, (labelsOf cs).count x ≤ if x < n then 1 else 0 := by
  intro x
  have hx := h x
  rw [labels_node, List.count_cons] at hx
  omega

theorem not_mem_of_count_le_one {x : Nat} {xs ys : List Nat} (hcount : xs.count x + ys.count x ≤ 1)
    (hx : x ∈ xs) : x ∉ ys := by
  intro hy
  have hpos := List.count_pos_iff.mpr hx
  have hpos' := List.count_pos_iff.mpr hy
  omega

theorem Neat.count_le_one {n : Nat} {t : Tree} (h : t.Neat n) (x : Nat) :
    t.labels.count x ≤ 1 := by
  have hcount := h x
  split at hcount <;> omega

/-- What an edit makes of `t`, starting with the label `n`: up to labels it is `u`. -/
structure Edit (n : Nat) (t u : Tree) (result : Tree × Nat) : Prop where
  le : n ≤ result.2
  same : result.1.label = t.label → result.1 = t
  plain : result.1.plain = u.plain
  count : ∀ x, result.1.labels.count x ≤ u.labels.count x + handedOut n result.2 x

structure EditAll (n : Nat) (ts us : List Tree) (result : List Tree × Nat) : Prop where
  le : n ≤ result.2
  same : sameElements ts result.1 = true → result.1 = ts
  plain : outlineAll id result.1 = outlineAll id us
  count : ∀ x, (labelsOf result.1).count x ≤ (labelsOf us).count x + handedOut n result.2 x

theorem Edit.refl (n : Nat) (t : Tree) : Edit n t t (t, n) :=
  ⟨Nat.le_refl n, fun _ => rfl, rfl, fun _ => Nat.le_add_right _ _⟩

theorem EditAll.nil (n : Nat) : EditAll n [] [] ([], n) :=
  ⟨Nat.le_refl n, fun _ => rfl, rfl, fun _ => Nat.le_add_right _ _⟩

theorem EditAll.cons {n n' n'' : Nat} {t t' u : Tree} {ts ts' us : List Tree}
    (h : Edit n t u (t', n')) (hs : EditAll n' ts us (ts', n'')) :
    EditAll n (t :: ts) (u :: us) (t' :: ts', n'') := by
  constructor
  · exact Nat.le_trans h.le hs.le
  · intro hsame
    simp only [sameElements, List.map_cons, beq_iff_eq, List.cons.injEq] at hsame
    have hts : ts' = ts := hs.same (by simpa [sameElements] using hsame.2)
    have ht : t' = t := h.same hsame.1.symm
    rw [hts, ht]
  · have hplain := h.plain
    rw [Tree.plain, Tree.plain] at hplain
    rw [outlineAll, outlineAll, hplain, hs.plain]
  · intro x
    have hadd : handedOut n n' x + handedOut n' n'' x = handedOut n n'' x :=
      handedOut_add h.le hs.le x
    have hcount := h.count x
    have hcounts := hs.count x
    simp only [labelsOf_cons, List.count_append] at hcount hcounts ⊢
    omega

theorem Edit.rebuild {n m : Nat} {k : NodeKind} {cs us : List Tree} {result : List Tree × Nat}
    (hm : m < n) (h : EditAll n cs us result) :
    Edit n (.node m k cs) (.node m k us)
      ((Tree.rebuild m k cs result.1).run result.2) := by
  unfold Tree.rebuild
  split
  · next hsame =>
      have hcs := h.same hsame
      constructor
      · exact h.le
      · intro _
        rfl
      · have hplain := h.plain
        rw [hcs] at hplain
        show Tree.node 0 k (outlineAll id cs) = Tree.node 0 k (outlineAll id us)
        rw [hplain]
      · intro x
        have hcount := h.count x
        rw [hcs] at hcount
        show List.count x (m :: labelsOf cs) ≤ List.count x (m :: labelsOf us) + _
        rw [List.count_cons, List.count_cons]
        exact Nat.le_trans (Nat.add_le_add_right hcount _) (by
          show _ ≤ _ + handedOut n result.2 x
          omega)
  · next hdiffers =>
      have hle := h.le
      constructor
      · exact Nat.le_succ_of_le hle
      · intro hlabel
        have hfresh : result.2 = m := hlabel
        omega
      · show Tree.node 0 k (outlineAll id result.1) = Tree.node 0 k (outlineAll id us)
        rw [h.plain]
      · intro x
        have hcount := h.count x
        have hadd := handedOut_add hle (Nat.le_succ result.2) x
        rw [Nat.succ_eq_add_one, handedOut_succ] at hadd
        show List.count x (result.2 :: labelsOf result.1) ≤
          List.count x (m :: labelsOf us) + handedOut n (result.2 + 1) x
        rw [List.count_cons, List.count_cons]
        omega

/-!
# Replacing an element
-/

mutual

/-- Puts `new` in the place of every element with the label `old`; all other elements keep their
labels. -/
def subst (old : Nat) (new : Tree) : Tree → Tree
  | .leaf l => if l.label = old then new else .leaf l
  | .node n k cs => if n = old then new else .node n k (substAll old new cs)

def substAll (old : Nat) (new : Tree) : List Tree → List Tree
  | [] => []
  | c :: cs => subst old new c :: substAll old new cs

end

mutual

theorem replace_edit (old : Nat) (new t : Tree) (n : Nat)
    (hlt : ∀ x ∈ t.labels, x < n) (hnew : new.label ∉ t.labels) :
    Edit n t (subst old new t) ((replace t old new).run n) := by
  cases t with
  | leaf l =>
      show Edit n (.leaf l) (if l.label = old then new else .leaf l)
        (if l.label = old then new else .leaf l, n)
      split
      · constructor
        · exact Nat.le_refl n
        · intro hlabel
          rw [show new.label = l.label from hlabel] at hnew
          exact absurd (List.mem_singleton.mpr rfl) hnew
        · rfl
        · intro x
          exact Nat.le_add_right _ _
      · exact Edit.refl n (.leaf l)
  | node m k cs =>
      have hcs := replaceAll_edit old new cs n
        (fun x hx => hlt x (List.mem_cons_of_mem m hx))
        (fun hmem => hnew (List.mem_cons_of_mem m hmem))
      have hm : m < n := hlt m (List.mem_cons_self ..)
      rw [replace, subst]
      split
      · constructor
        · exact hcs.le
        · intro hlabel
          have heq : new.label = m := hlabel
          rw [heq] at hnew
          exact absurd (List.mem_cons_self ..) hnew
        · rfl
        · intro x
          exact Nat.le_add_right _ _
      · exact Edit.rebuild hm hcs
termination_by structural t

theorem replaceAll_edit (old : Nat) (new : Tree) (ts : List Tree) (n : Nat)
    (hlt : ∀ x ∈ labelsOf ts, x < n) (hnew : new.label ∉ labelsOf ts) :
    EditAll n ts (substAll old new ts) ((replaceAll ts old new).run n) := by
  cases ts with
  | nil => exact EditAll.nil n
  | cons t ts =>
      have ht := replace_edit old new t n
        (fun x hx => hlt x (List.mem_append_left _ hx))
        (fun hmem => hnew (List.mem_append_left _ hmem))
      have hts := replaceAll_edit old new ts ((replace t old new).run n).2
        (fun x hx => Nat.lt_of_lt_of_le (hlt x (List.mem_append_right _ hx)) ht.le)
        (fun hmem => hnew (List.mem_append_right _ hmem))
      exact EditAll.cons ht hts
termination_by structural ts

end

mutual

theorem subst_of_not_mem {old : Nat} (new : Tree) (t : Tree) (h : old ∉ t.labels) :
    subst old new t = t := by
  cases t with
  | leaf l =>
      rw [subst, if_neg]
      intro heq
      exact h (List.mem_singleton.mpr heq.symm)
  | node n k cs =>
      rw [subst, if_neg, substAll_of_not_mem new cs]
      · exact fun hmem => h (List.mem_cons_of_mem n hmem)
      · intro heq
        exact h (heq ▸ List.mem_cons_self ..)
termination_by structural t

theorem substAll_of_not_mem {old : Nat} (new : Tree) (ts : List Tree) (h : old ∉ labelsOf ts) :
    substAll old new ts = ts := by
  cases ts with
  | nil => rfl
  | cons t ts =>
      rw [substAll, subst_of_not_mem new t fun hmem => h (List.mem_append_left _ hmem),
        substAll_of_not_mem new ts fun hmem => h (List.mem_append_right _ hmem)]
termination_by structural ts

end

mutual

theorem plain_subst (old : Nat) {new new' : Tree} (h : new.plain = new'.plain) (t : Tree) :
    (subst old new t).plain = (subst old new' t).plain := by
  cases t with
  | leaf l =>
      rw [subst, subst]
      split
      · exact h
      · rfl
  | node n k cs =>
      rw [subst, subst]
      split
      · exact h
      · show Tree.node 0 k (outlineAll id _) = Tree.node 0 k (outlineAll id _)
        rw [plain_substAll old h cs]
termination_by structural t

theorem plain_substAll (old : Nat) {new new' : Tree} (h : new.plain = new'.plain)
    (ts : List Tree) :
    outlineAll id (substAll old new ts) = outlineAll id (substAll old new' ts) := by
  cases ts with
  | nil => rfl
  | cons t ts =>
      have ht := plain_subst old h t
      rw [plain, plain] at ht
      rw [substAll, substAll, outlineAll, outlineAll, ht, plain_substAll old h ts]
termination_by structural ts

end

/-!
# Replacing a leaf
-/

theorem label_mem_of_mem_leaves {t : Tree} {l : Leaf} (h : l ∈ t.leaves) : l.label ∈ t.labels := by
  have hcount := count_leaves_le t l.label
  have hpos := List.count_pos_iff.mpr (List.mem_map_of_mem (f := Leaf.label) h)
  exact List.count_pos_iff.mp (Nat.lt_of_lt_of_le hpos hcount)

theorem label_mem_of_mem_leavesOf {ts : List Tree} {l : Leaf} (h : l ∈ leavesOf ts) :
    l.label ∈ labelsOf ts := by
  have hcount := count_leavesOf_le ts l.label
  have hpos := List.count_pos_iff.mpr (List.mem_map_of_mem (f := Leaf.label) h)
  exact List.count_pos_iff.mp (Nat.lt_of_lt_of_le hpos hcount)

structure Relabels (l m : Leaf) (t u : Tree) : Prop where
  skeleton : u.skeleton = t.skeleton
  leaves : u.leaves = t.leaves.map fun x => if x.label = l.label then m else x
  count : ∀ x, u.labels.count x ≤ t.labels.count x + if m.label == x then 1 else 0

theorem map_leaves_of_not_mem {l m : Leaf} {ls : List Leaf} (h : l.label ∉ ls.map Leaf.label) :
    (ls.map fun x => if x.label = l.label then m else x) = ls := by
  rw [List.map_congr_left (g := id), List.map_id]
  intro x hx
  rw [if_neg]
  · rfl
  · intro heq
    exact h (heq ▸ List.mem_map_of_mem hx)

theorem Relabels.of_not_mem {l m : Leaf} {t : Tree} (h : l.label ∉ t.labels) :
    Relabels l m t (subst l.label (.leaf m) t) := by
  rw [subst_of_not_mem _ t h]
  refine ⟨rfl, ?_, fun _ => Nat.le_add_right _ _⟩
  rw [map_leaves_of_not_mem]
  intro hmem
  rcases List.mem_map.mp hmem with ⟨l', hl', heq⟩
  exact h (heq ▸ label_mem_of_mem_leaves hl')

mutual

theorem subst_leaf (l m : Leaf) (t : Tree) (hl : l ∈ t.leaves)
    (hcount : t.labels.count l.label ≤ 1) : Relabels l m t (subst l.label (.leaf m) t) := by
  cases t with
  | leaf l' =>
      rw [leaves_leaf, List.mem_singleton] at hl
      rw [← hl, subst, if_pos rfl]
      refine ⟨rfl, ?_, ?_⟩
      · simp
      · intro x
        rw [labels_leaf, labels_leaf, List.count_singleton]
        exact Nat.le_add_left _ _
  | node n k cs =>
      rw [leaves_node] at hl
      rw [labels_node, List.count_cons] at hcount
      have hpos := List.count_pos_iff.mpr (label_mem_of_mem_leavesOf hl)
      have hne : n ≠ l.label := by
        intro heq
        rw [if_pos (beq_iff_eq.mpr heq)] at hcount
        omega
      have hcs := substAll_leaf l m cs hl (by omega)
      rw [subst, if_neg hne]
      refine ⟨?_, hcs.2.1, ?_⟩
      · show Tree.node 0 k (outlineAll _ _) = Tree.node 0 k (outlineAll _ _)
        rw [hcs.1]
      · intro x
        have hx := hcs.2.2 x
        rw [labels_node, labels_node, List.count_cons, List.count_cons]
        omega
termination_by structural t

theorem substAll_leaf (l m : Leaf) (ts : List Tree) (hl : l ∈ leavesOf ts)
    (hcount : (labelsOf ts).count l.label ≤ 1) :
    outlineAll (fun _ => Grammar.nothing) (substAll l.label (.leaf m) ts) =
        outlineAll (fun _ => Grammar.nothing) ts ∧
      leavesOf (substAll l.label (.leaf m) ts) =
        (leavesOf ts).map (fun x => if x.label = l.label then m else x) ∧
      ∀ x, (labelsOf (substAll l.label (.leaf m) ts)).count x ≤
        (labelsOf ts).count x + if m.label == x then 1 else 0 := by
  cases ts with
  | nil => cases hl
  | cons t ts =>
      rw [leavesOf_cons, List.mem_append] at hl
      rw [labelsOf_cons, List.count_append] at hcount
      rw [substAll]
      by_cases ht : l ∈ t.leaves
      · have hrest := not_mem_of_count_le_one hcount (label_mem_of_mem_leaves ht)
        have hstep := subst_leaf l m t ht (by omega)
        have hskeleton := hstep.skeleton
        rw [skeleton, skeleton] at hskeleton
        rw [substAll_of_not_mem _ ts hrest]
        refine ⟨?_, ?_, ?_⟩
        · rw [outlineAll, outlineAll, hskeleton]
        · rw [leavesOf_cons, leavesOf_cons, List.map_append, hstep.leaves]
          congr 1
          rw [map_leaves_of_not_mem]
          intro hmem
          rcases List.mem_map.mp hmem with ⟨l', hl', heq⟩
          exact hrest (heq ▸ label_mem_of_mem_leavesOf hl')
        · intro x
          have hx := hstep.count x
          rw [labelsOf_cons, labelsOf_cons, List.count_append, List.count_append]
          omega
      · have hts : l ∈ leavesOf ts := hl.resolve_left ht
        have hnot : l.label ∉ t.labels := by
          rw [Nat.add_comm] at hcount
          exact not_mem_of_count_le_one hcount (label_mem_of_mem_leavesOf hts)
        have hstep := substAll_leaf l m ts hts (by omega)
        have hsame := Relabels.of_not_mem (m := m) hnot
        have hskeleton := hsame.skeleton
        rw [skeleton, skeleton] at hskeleton
        refine ⟨?_, ?_, ?_⟩
        · rw [outlineAll, outlineAll, hskeleton, hstep.1]
        · rw [leavesOf_cons, leavesOf_cons, List.map_append, hsame.leaves, hstep.2.1]
        · intro x
          have hx := hstep.2.2 x
          rw [subst_of_not_mem _ t hnot, labelsOf_cons, labelsOf_cons, List.count_append,
            List.count_append]
          omega
termination_by structural ts

end

end Tree
end ForceTry

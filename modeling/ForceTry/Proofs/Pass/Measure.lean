import ForceTry.Proofs.Pass.Forms
import ForceTry.Proofs.Pass.Reference

/-!
# What a pass leaves to do

A pass takes the mark off one forced `try` of every item that has one of its own.  So the number of
forced `try` nodes falls by the number of applications, and the largest number of them that one item
has falls by one, although every application adds items.
-/

namespace ForceTry
namespace Tree

open ForceTry.DoCatch ForceTry.Grammar

/-- The number of forced `try` nodes in a tree. -/
def forcedTries (t : Tree) : Nat := t.nodes.countP isForceTry

/-- The number of forced `try` nodes that belong to a tree directly. -/
def directForced (t : Tree) : Nat := t.directTries.countP isForceTry

/-- The number of forced `try` nodes that belong to an item directly. -/
def ownForced (t : Tree) : Nat := if t.isKind .item then t.directForced else 0

/-- The largest number of forced `try` nodes that belong to one item directly. -/
def mostForced (t : Tree) : Nat := (t.nodes.map ownForced).foldr max 0

def forcedTriesOf (cs : List Tree) : Nat := (nodesOf cs).countP isForceTry

def mostForcedOf (cs : List Tree) : Nat := ((nodesOf cs).map ownForced).foldr max 0

def directForcedOf (cs : List Tree) : Nat :=
  ((directNodesOf cs).filter (matchesFilter (.only .tryExpression))).countP isForceTry

theorem foldr_max_append (ns ms : List Nat) :
    (ns ++ ms).foldr max 0 = max (ns.foldr max 0) (ms.foldr max 0) := by
  induction ns with
  | nil => exact (Nat.zero_max _).symm
  | cons n ns ih => rw [List.cons_append, List.foldr_cons, List.foldr_cons, ih, Nat.max_assoc]

theorem foldr_max_pos (ns : List Nat) : 0 < ns.foldr max 0 ↔ ∃ n ∈ ns, 0 < n := by
  induction ns with
  | nil => simp
  | cons n ns ih =>
      rw [List.foldr_cons, List.exists_mem_cons_iff, ← ih]
      omega

section

variable (n : Nat) (k : NodeKind) (c : Tree) (cs : List Tree)

theorem forcedTries_node : (Tree.node n k cs).forcedTries =
    (if (Tree.node n k cs).isForceTry then 1 else 0) + forcedTriesOf cs := by
  rw [forcedTries, nodes, List.countP_cons, forcedTriesOf, Nat.add_comm]

theorem forcedTriesOf_cons : forcedTriesOf (c :: cs) = c.forcedTries + forcedTriesOf cs := by
  rw [forcedTriesOf, nodesOf_cons, List.countP_append, forcedTries, forcedTriesOf]

theorem mostForced_node : (Tree.node n k cs).mostForced =
    max (Tree.node n k cs).ownForced (mostForcedOf cs) := by
  rw [mostForced, nodes, List.map_cons, List.foldr_cons, mostForcedOf]

theorem mostForcedOf_cons : mostForcedOf (c :: cs) = max c.mostForced (mostForcedOf cs) := by
  rw [mostForcedOf, nodesOf_cons, List.map_append, foldr_max_append, mostForced, mostForcedOf]

theorem directForced_node : (Tree.node n k cs).directForced =
    (if (Tree.node n k cs).isForceTry then 1 else 0) + directForcedOf cs := by
  rw [directForced, directTries, directCandidates, directNodes, List.filter_cons, directForcedOf]
  split
  · rw [List.countP_cons, Nat.add_comm]
  · next h =>
      have hforced : ¬(Tree.node n k cs).isForceTry = true := fun hforced => h (isKind_of_isForceTry hforced)
      rw [if_neg hforced, Nat.zero_add]

theorem directForcedOf_cons : directForcedOf (c :: cs) =
    (if c.isKind .block then 0 else c.directForced) + directForcedOf cs := by
  rw [directForcedOf, directNodesOf, List.filter_append, List.countP_append]
  split <;> rfl

theorem ownForced_node : (Tree.node n k cs).ownForced = if k = .item then directForcedOf cs else 0 := by
  rw [ownForced, isKind_node]
  by_cases hk : k = .item
  · subst hk
    show (Tree.node n .item cs).directForced = _
    rw [directForced_node, if_pos rfl]
    exact Nat.zero_add _
  · rw [if_neg hk, if_neg (by simpa using hk)]

end

@[simp] theorem forcedTries_leaf (l : Leaf) : (Tree.leaf l).forcedTries = 0 := rfl

@[simp] theorem mostForced_leaf (l : Leaf) : (Tree.leaf l).mostForced = 0 := rfl

@[simp] theorem directForced_leaf (l : Leaf) : (Tree.leaf l).directForced = 0 := rfl

@[simp] theorem forcedTriesOf_nil : forcedTriesOf [] = 0 := rfl

@[simp] theorem mostForcedOf_nil : mostForcedOf [] = 0 := rfl

@[simp] theorem directForcedOf_nil : directForcedOf [] = 0 := rfl

theorem directForced_eq_traits (t : Tree) : t.directForced = t.traits.countP Prod.fst := by
  rw [directForced, traits, List.countP_map]
  rfl

theorem nodesOf_leaves {cs : List Tree} (h : ∀ c ∈ cs, c.kind? = none) : nodesOf cs = [] := by
  induction cs with
  | nil => rfl
  | cons c cs ih =>
      have hc := h c (List.mem_cons_self ..)
      cases c with
      | leaf l => exact ih fun d hd => h d (List.mem_cons_of_mem _ hd)
      | node n k ds => cases hc

theorem forced_leaves {cs : List Tree} (h : ∀ c ∈ cs, c.kind? = none) :
    forcedTriesOf cs = 0 ∧ mostForcedOf cs = 0 ∧ directForcedOf cs = 0 := by
  rw [forcedTriesOf, mostForcedOf, directForcedOf, nodesOf_leaves h, directNodesOf_leaves h]
  exact ⟨rfl, rfl, rfl⟩

/-!
# Items with something to do
-/

theorem isForcedItem_iff (t : Tree) : t.isForcedItem = true ↔ 0 < t.ownForced := by
  rw [isForcedItem, ownForced, directForced, Bool.and_eq_true]
  split
  · next h => rw [List.countP_pos_iff, List.any_eq_true, and_iff_right h]
  · next h => exact ⟨fun hboth => absurd hboth.1 h, fun hpos => absurd hpos (Nat.lt_irrefl 0)⟩

/-- Some item has a forced `try` of its own exactly when the largest number of them is not zero. -/
theorem forcedItemsOf_pos (t : Tree) : 0 < forcedItemsOf [t] ↔ 0 < t.mostForced := by
  rw [forcedItemsOf, nodesOf_cons, nodesOf_nil, List.append_nil, List.countP_pos_iff, mostForced,
    foldr_max_pos]
  constructor
  · rintro ⟨m, hm, hforced⟩
    exact ⟨m.ownForced, List.mem_map_of_mem hm, (isForcedItem_iff m).mp hforced⟩
  · rintro ⟨count, hcount, hpos⟩
    rcases List.mem_map.mp hcount with ⟨m, hm, rfl⟩
    exact ⟨m, hm, (isForcedItem_iff m).mpr hpos⟩

theorem directForced_le (t : Tree) : t.directForced ≤ t.forcedTries := by
  induction t using Tree.induction with
  | leaf l => exact Nat.le_refl 0
  | node n k cs ih =>
      have hcs : directForcedOf cs ≤ forcedTriesOf cs := by
        clear n k
        induction cs with
        | nil => exact Nat.le_refl 0
        | cons c cs ihcs =>
            have hc := ih c (List.mem_cons_self ..)
            have hrest := ihcs fun d hd => ih d (List.mem_cons_of_mem c hd)
            rw [directForcedOf_cons, forcedTriesOf_cons]
            split <;> omega
      rw [directForced_node, forcedTries_node]
      exact Nat.add_le_add_left hcs _

theorem mostForced_le (t : Tree) : t.mostForced ≤ t.forcedTries := by
  induction t using Tree.induction with
  | leaf l => exact Nat.le_refl 0
  | node n k cs ih =>
      have hcs : mostForcedOf cs ≤ forcedTriesOf cs := by
        clear n k
        induction cs with
        | nil => exact Nat.le_refl 0
        | cons c cs ihcs =>
            have hc := ih c (List.mem_cons_self ..)
            have hrest := ihcs fun d hd => ih d (List.mem_cons_of_mem c hd)
            rw [mostForcedOf_cons, forcedTriesOf_cons]
            omega
      have hown : (Tree.node n k cs).ownForced ≤ (Tree.node n k cs).forcedTries := by
        rw [ownForced]
        split
        · exact directForced_le _
        · exact Nat.zero_le _
      rw [mostForced_node]
      rw [forcedTries_node] at hown ⊢
      exact Nat.max_le.mpr ⟨hown, Nat.le_trans hcs (Nat.le_add_left _ _)⟩

/-!
# Every forced `try` belongs to an item
-/

theorem mostForced_of_mem {c : Tree} {cs : List Tree} (h : c ∈ cs) :
    c.mostForced ≤ mostForcedOf cs := by
  induction cs with
  | nil => cases h
  | cons d cs ih =>
      rw [mostForcedOf_cons]
      rcases List.mem_cons.mp h with rfl | h
      · exact Nat.le_max_left _ _
      · exact Nat.le_trans (ih h) (Nat.le_max_right _ _)

theorem directForced_of_mem {c : Tree} {cs : List Tree} (h : c ∈ cs)
    (hblock : c.isKind .block = false) : c.directForced ≤ directForcedOf cs := by
  induction cs with
  | nil => cases h
  | cons d cs ih =>
      rw [directForcedOf_cons]
      rcases List.mem_cons.mp h with rfl | h
      · rw [hblock]
        exact Nat.le_add_right _ _
      · exact Nat.le_trans (ih h) (Nat.le_add_left _ _)

theorem forcedTriesOf_eq_zero {cs : List Tree} (h : ∀ c ∈ cs, c.forcedTries = 0) :
    forcedTriesOf cs = 0 := by
  induction cs with
  | nil => rfl
  | cons c cs ih =>
      rw [forcedTriesOf_cons, h c (List.mem_cons_self ..),
        ih fun d hd => h d (List.mem_cons_of_mem c hd)]

theorem directForced_le_mostForced {c : Tree} (h : c.kind? = none ∨ c.isKind .item = true) :
    c.directForced ≤ c.mostForced := by
  cases c with
  | leaf l => exact Nat.le_refl 0
  | node n k cs =>
      have hitem : (Tree.node n k cs).isKind .item = true := h.resolve_left (by simp [kind?])
      rw [mostForced_node, ownForced, if_pos hitem]
      exact Nat.le_max_left _ _

theorem items_of_block {n : Nat} {cs : List Tree} (h : Formed (.node n .block cs)) :
    ∀ c ∈ cs, c.kind? = none ∨ c.isKind .item = true := by
  rcases (formsBraces_iff cs).mp (braces_of_formed h) with ⟨left, items, right, rfl, _, _, hitems⟩
  intro c hc
  rcases List.mem_cons.mp hc with rfl | hc
  · exact .inl rfl
  rcases List.mem_append.mp hc with hc | hc
  · exact .inr (formed_of_formsItems hitems c hc).2
  · rw [List.mem_singleton.mp hc]
    exact .inl rfl

/-- Without items that have one, and without one of its own, a tree has no forced `try`. -/
theorem forcedTries_eq_zero (t : Tree) (h : Formed t) (hmost : t.mostForced = 0)
    (hdirect : t.isKind .block = false → t.directForced = 0) : t.forcedTries = 0 := by
  induction t using Tree.induction with
  | leaf l => rfl
  | node n k cs ih =>
      rw [mostForced_node] at hmost
      have hbelow : ∀ c ∈ cs, c.mostForced = 0 := by
        intro c hc
        have hle := mostForced_of_mem hc
        omega
      have hown : (if (Tree.node n k cs).isForceTry then 1 else 0) = 0 ∧
          ∀ c ∈ cs, c.isKind .block = false → c.directForced = 0 := by
        by_cases hk : k = .block
        · subst hk
          refine ⟨rfl, ?_⟩
          intro c hc _
          have hle := directForced_le_mostForced (items_of_block h c hc)
          rw [hbelow c hc] at hle
          exact Nat.le_zero.mp hle
        · have hzero := hdirect (by rw [isKind_node]; simpa using hk)
          rw [directForced_node] at hzero
          refine ⟨by omega, ?_⟩
          intro c hc hblock
          have hle := directForced_of_mem hc hblock
          omega
      rw [forcedTries_node, hown.1, Nat.zero_add]
      apply forcedTriesOf_eq_zero
      intro c hc
      exact ih c hc ((formed_cases h).2 c hc).1 (hbelow c hc) (hown.2 c hc)

theorem forcedTries_eq_zero_iff {t : Tree} (h : FormsFile t) :
    t.forcedTries = 0 ↔ t.mostForced = 0 := by
  constructor
  · intro hzero
    have hle := mostForced_le t
    omega
  · intro hmost
    rcases items_of_formsFile h with ⟨n, items, ending, rfl, _, hitems⟩
    rw [mostForced_node] at hmost
    rw [forcedTries_node]
    refine Nat.add_eq_zero_iff.mpr ⟨rfl, forcedTriesOf_eq_zero ?_⟩
    intro c hc
    have hle := mostForced_of_mem hc
    rcases List.mem_append.mp hc with hc | hc
    · have hitem := hitems c hc
      have hdirect := directForced_le_mostForced (.inr hitem.2)
      exact forcedTries_eq_zero c hitem.1 (by omega) fun _ => by omega
    · rw [List.mem_singleton.mp hc]
      rfl

/-!
# Labels and trivia do not count
-/

mutual

theorem forced_outline {f : Token → Token} (hf : ∀ t, (f t).kind = t.kind) (t : Tree) :
    (t.outline f).forcedTries = t.forcedTries ∧ (t.outline f).mostForced = t.mostForced ∧
      (t.outline f).directForced = t.directForced := by
  have hdirect : (t.outline f).directForced = t.directForced := by
    rw [directForced_eq_traits, directForced_eq_traits, traits_outline hf]
  cases t with
  | leaf l => exact ⟨rfl, rfl, rfl⟩
  | node n k cs =>
      have hforce := isForceTry_outline hf (.node n k cs)
      have hcs := forcedOf_outlineAll hf cs
      refine ⟨?_, ?_, hdirect⟩
      · rw [outline_node] at hforce ⊢
        rw [forcedTries_node, forcedTries_node, hforce, hcs.1]
      · rw [outline_node] at hdirect ⊢
        rw [mostForced_node, mostForced_node, ownForced, ownForced, hdirect, hcs.2]
        rfl
termination_by structural t

theorem forcedOf_outlineAll {f : Token → Token} (hf : ∀ t, (f t).kind = t.kind) (cs : List Tree) :
    forcedTriesOf (outlineAll f cs) = forcedTriesOf cs ∧
      mostForcedOf (outlineAll f cs) = mostForcedOf cs := by
  cases cs with
  | nil => exact ⟨rfl, rfl⟩
  | cons c cs =>
      have hc := forced_outline hf c
      have hcs := forcedOf_outlineAll hf cs
      rw [outlineAll, forcedTriesOf_cons, forcedTriesOf_cons, mostForcedOf_cons, mostForcedOf_cons,
        hc.1, hc.2.1, hcs.1, hcs.2]
      exact ⟨rfl, rfl⟩
termination_by structural cs

end

theorem forced_of_plain {t t' : Tree} (h : t.plain = t'.plain) :
    t.forcedTries = t'.forcedTries ∧ t.mostForced = t'.mostForced := by
  have ht := @forced_outline id (fun _ => rfl) t
  have ht' := @forced_outline id (fun _ => rfl) t'
  rw [plain, plain] at h
  exact ⟨ht.1.symm.trans ((congrArg forcedTries h).trans ht'.1),
    ht.2.1.symm.trans ((congrArg mostForced h).trans ht'.2.1)⟩

/-!
# One mark less
-/

theorem kinds_of_unforce {t t' : Tree} (h : unforce? withoutMark t = some t') :
    leafKind? t' = leafKind? t ∧ t'.kind? = t.kind? := by
  cases t with
  | leaf l => cases h
  | node n k cs =>
      rw [unforce?] at h
      split at h
      · next hforced =>
          cases h
          rcases shape_of_isForceTry hforced with ⟨n, c, mark, operand, heq⟩
          rw [heq]
          cases c <;> exact ⟨rfl, rfl⟩
      · rcases Option.map_eq_some_iff.mp h with ⟨ds, _, rfl⟩
        exact ⟨rfl, rfl⟩

theorem unforceAll?_cons {c : Tree} {cs ds : List Tree}
    (h : unforceAll? withoutMark (c :: cs) = some ds) :
    (∃ c', ds = c' :: cs ∧ c.isKind .block = false ∧ unforce? withoutMark c = some c') ∨
      ∃ cs', ds = c :: cs' ∧ unforceAll? withoutMark cs = some cs' := by
  rw [unforceAll?] at h
  split at h
  · next c' hc =>
      cases h
      split at hc
      · cases hc
      · next hblock => exact .inl ⟨c', rfl, by simpa using hblock, hc⟩
  · rcases Option.map_eq_some_iff.mp h with ⟨cs', hcs, rfl⟩
    exact .inr ⟨cs', rfl, hcs⟩

theorem leafKinds_of_unforceAll {cs ds : List Tree} (h : unforceAll? withoutMark cs = some ds) :
    ds.map leafKind? = cs.map leafKind? := by
  induction cs generalizing ds with
  | nil => cases h
  | cons c cs ih =>
      rcases unforceAll?_cons h with ⟨c', rfl, _, hc⟩ | ⟨cs', rfl, hcs⟩
      · rw [List.map_cons, List.map_cons, (kinds_of_unforce hc).1]
      · rw [List.map_cons, List.map_cons, ih hcs]

mutual

/-- Taking the first mark off leaves one forced `try` less, and no item below loses one. -/
theorem forced_unforce {t t' : Tree} (hformed : Formed t) (hitem : t.isKind .item = false)
    (hblock : t.isKind .block = false) (h : unforce? withoutMark t = some t') :
    t'.forcedTries + 1 = t.forcedTries ∧ t'.mostForced = t.mostForced ∧
      t'.directForced + 1 = t.directForced := by
  cases t with
  | leaf l => cases h
  | node n k cs =>
      rw [unforce?] at h
      split at h
      · next hforced =>
          cases h
          rcases isMarked_of_hasMark (hasMark_of_formed hformed hforced) with
            ⟨n, keyword, mark, operand, heq⟩
          rw [heq] at hforced ⊢
          have hless : ∀ l : Leaf, (Tree.node n .tryExpression [.leaf l, operand]).isForceTry = false :=
            fun _ => by simp [isForceTry, tryMark?]
          rw [withoutMark, forcedTries_node, forcedTries_node, mostForced_node, mostForced_node,
            directForced_node, directForced_node, ownForced_node, ownForced_node, hforced, hless]
          simp only [forcedTriesOf_cons, mostForcedOf_cons, directForcedOf_cons, forcedTries_leaf,
            mostForced_leaf, directForced_leaf, Nat.zero_max, Nat.zero_add, ite_self]
          refine ⟨?_, trivial, ?_⟩
          · exact (congrArg (· + 1) (Nat.zero_add _)).trans (Nat.add_comm _ _)
          · exact (congrArg (· + 1) (Nat.zero_add _)).trans (Nat.add_comm _ _)
      · next hforced =>
          rcases Option.map_eq_some_iff.mp h with ⟨ds, hds, rfl⟩
          rw [isKind_node, beq_eq_false_iff_ne] at hitem hblock
          have hchildren := (formed_cases hformed).2
          have hcs := forcedOf_unforceAll
            (fun c hc => ⟨(hchildren c hc).1, (hchildren c hc).2 hblock⟩) hds
          have hforce := (@isForceTry_of_leafKind n n k _ _ (leafKinds_of_unforceAll hds)).1
          rw [forcedTries_node, forcedTries_node, mostForced_node, mostForced_node,
            directForced_node, directForced_node, ownForced_node, ownForced_node, hforce,
            if_neg hitem, if_neg hitem, hcs.2.1, ← hcs.1, ← hcs.2.2]
          exact ⟨rfl, rfl, rfl⟩
termination_by structural t

theorem forcedOf_unforceAll {cs ds : List Tree} (hformed : ∀ c ∈ cs, Formed c ∧ c.isKind .item = false)
    (h : unforceAll? withoutMark cs = some ds) :
    forcedTriesOf ds + 1 = forcedTriesOf cs ∧ mostForcedOf ds = mostForcedOf cs ∧
      directForcedOf ds + 1 = directForcedOf cs := by
  cases cs with
  | nil => cases h
  | cons c cs =>
      rw [forcedTriesOf_cons, mostForcedOf_cons, directForcedOf_cons]
      rcases unforceAll?_cons h with ⟨c', rfl, hblock, hunforce⟩ | ⟨cs', rfl, hunforce⟩
      · have hmember := hformed c (List.mem_cons_self ..)
        have hc := forced_unforce hmember.1 hmember.2 hblock hunforce
        have hblock' : c'.isKind .block = false := by
          rw [isKind, (kinds_of_unforce hunforce).2, ← isKind, hblock]
        rw [forcedTriesOf_cons, mostForcedOf_cons, directForcedOf_cons, hblock, hblock', hc.2.1]
        refine ⟨by omega, rfl, ?_⟩
        simp only [Bool.false_eq_true, if_false]
        omega
      · have hcs := forcedOf_unforceAll (fun d hd => hformed d (List.mem_cons_of_mem c hd)) hunforce
        rw [forcedTriesOf_cons, mostForcedOf_cons, directForcedOf_cons, hcs.2.1]
        exact ⟨by omega, rfl, by omega⟩
termination_by structural cs

end

theorem directForced_of_unforce_none {t : Tree} (h : unforce? withoutMark t = none) :
    t.directForced = 0 := by
  have hsearch := firstForced?_isSome withoutMark t
  rw [h, isSome_firstForced?] at hsearch
  rw [directForced_eq_traits, List.countP_eq_zero]
  exact fun x hx hforced => by
    have hany := List.any_eq_true.mpr ⟨x, hx, hforced⟩
    rw [hany] at hsearch
    cases hsearch

/-!
# One item more
-/

theorem isForceTry_of_ne (n : Nat) {k : NodeKind} (cs : List Tree) (h : k ≠ .tryExpression) :
    (Tree.node n k cs).isForceTry = false := by
  cases k <;> first | rfl | exact absurd rfl h

theorem forced_node {n : Nat} {k : NodeKind} {cs : List Tree} (h : k ≠ .tryExpression) :
    (Tree.node n k cs).forcedTries = forcedTriesOf cs ∧
      (Tree.node n k cs).directForced = directForcedOf cs := by
  rw [forcedTries_node, directForced_node, isForceTry_of_ne n cs h]
  exact ⟨Nat.zero_add _, Nat.zero_add _⟩

theorem forced_braced {t : Tree} (h : t.isKind .block = false) :
    (braced t).forcedTries = t.forcedTries ∧
      (braced t).mostForced = max t.directForced t.mostForced := by
  simp [braced, forced_node, mostForced_node, ownForced_node, forcedTriesOf_cons, mostForcedOf_cons,
    directForcedOf_cons, h]

/-- The item of a rewritten statement has nothing to do itself; what the statement has left belongs
to the item in the body of `do`. -/
theorem forced_guarded (placeholder : Text) {content : Tree}
    (hblock : content.isKind .block = false) :
    (guarded placeholder content).forcedTries = content.forcedTries ∧
      (guarded placeholder content).mostForced = max content.directForced content.mostForced ∧
      (guarded placeholder content).directForced = 0 := by
  have hbody := forced_braced hblock
  have hcatch := @forced_braced (.node 0 .statement
    [.leaf ⟨0, Token.placeholder placeholder [] []⟩]) rfl
  have hblocks : ∀ t, (braced t).isKind .block = true := fun _ => rfl
  have hplaceholder : ∀ l : Leaf, (Tree.node 0 .statement [.leaf l]).forcedTries = 0 ∧
      (Tree.node 0 .statement [.leaf l]).mostForced = 0 ∧
      (Tree.node 0 .statement [.leaf l]).directForced = 0 := fun _ => ⟨rfl, rfl, rfl⟩
  simp [guarded, keyword, forced_node, mostForced_node, ownForced_node, forcedTriesOf_cons, mostForcedOf_cons,
    directForcedOf_cons, hbody, hcatch, hblocks, hplaceholder]

theorem forced_wrappedItem (o : Layout) {content : Tree} (hblock : content.isKind .block = false)
    {semicolon : List Tree} (hleaves : ∀ s ∈ semicolon, s.kind? = none) :
    (o.wrappedItem content semicolon).forcedTries = content.forcedTries ∧
      (o.wrappedItem content semicolon).mostForced =
        max content.directForced content.mostForced := by
  have hbare := @forced_outline Token.bare (fun _ => rfl) (o.wrapped content)
  have hcontent := @forced_outline Token.bare (fun _ => rfl) content
  have hguarded := @forced_guarded o.placeholder content.bare (by rw [bare, isKind_outline, hblock])
  have hrest := forced_leaves hleaves
  rw [← bare, bare_wrapped, hguarded.1, hguarded.2.1, hguarded.2.2, bare, hcontent.1, hcontent.2.1,
    hcontent.2.2] at hbare
  have hnot : (o.wrapped content).isKind .block = false := rfl
  rw [Layout.wrappedItem, (forced_node (by decide)).1, mostForced_node, ownForced_node, if_pos rfl,
    forcedTriesOf_cons, mostForcedOf_cons, directForcedOf_cons, hrest.1, hrest.2.1, hrest.2.2, hnot,
    ← hbare.1, ← hbare.2.1, ← hbare.2.2]
  simp

end Tree

namespace Pass

open ForceTry.DoCatch ForceTry.Tree ForceTry.Grammar

structure Lowered (t t' : Tree) : Prop where
  tries : t'.forcedTries + forcedItemsOf [t] = t.forcedTries
  most : t'.mostForced = t.mostForced - 1

theorem lowered_all (pass : Pass) {cs : List Tree} (h : ∀ c ∈ cs, Lowered c (pass.rewritten c)) :
    forcedTriesOf (pass.rewrittenAll cs) + forcedItemsOf cs = forcedTriesOf cs ∧
      mostForcedOf (pass.rewrittenAll cs) = mostForcedOf cs - 1 := by
  induction cs with
  | nil => exact ⟨rfl, rfl⟩
  | cons c cs ih =>
      have hc := h c (List.mem_cons_self ..)
      have hcs := ih fun d hd => h d (List.mem_cons_of_mem c hd)
      have htries := hc.tries
      rw [rewrittenAll, forcedTriesOf_cons, forcedTriesOf_cons, mostForcedOf_cons, mostForcedOf_cons,
        forcedItemsOf_cons c cs, hc.most, hcs.2]
      exact ⟨by omega, by omega⟩

theorem lowered_of_not_item (pass : Pass) {n : Nat} {k : NodeKind} {cs : List Tree} (hk : k ≠ .item)
    (h : ∀ c ∈ cs, Lowered c (pass.rewritten c)) :
    Lowered (.node n k cs) (pass.rewritten (.node n k cs)) := by
  have hcs := lowered_all pass h
  have hforce := (@isForceTry_of_leafKind n n k _ _ (map_leafKind_rewrittenAll pass cs)).1
  have hkind : (Tree.node n k cs).isForcedItem = false := by
    rw [isForcedItem, isKind_node, beq_eq_false_iff_ne.mpr hk, Bool.false_and]
  rw [rewritten_of_not_item pass n cs hk]
  constructor
  · rw [forcedTries_node, forcedTries_node, hforce, forcedItemsOf_node, hkind, ← hcs.1]
    exact Nat.add_assoc _ _ _
  · rw [mostForced_node, mostForced_node, ownForced_node, ownForced_node, if_neg hk, if_neg hk,
      Nat.zero_max, Nat.zero_max, hcs.2]

theorem formed_rewritten_content (pass : Pass) {n : Nat} {content : Tree} {semicolon : List Tree}
    (h : Formed (.node n .item (content :: semicolon))) : Formed (pass.rewritten content) := by
  cases shape_of_formed h with
  | item _ hnext hcontent => exact .content (formsContent_rewritten pass hcontent).1
  | closedItem _ hsemicolon hcontent => exact .content (formsContent_rewritten pass hcontent).1

/-- An item that is wrapped has one forced `try` less, and so has the item inside. -/
theorem lowered_item (pass : Pass) {n : Nat} {content : Tree} {semicolon : List Tree}
    (hformed : Formed (.node n .item (content :: semicolon)))
    (hblock : content.isKind .block = false) (hitem : content.isKind .item = false)
    (hleaves : ∀ s ∈ semicolon, s.kind? = none) (h : Lowered content (pass.rewritten content)) :
    Lowered (.node n .item (content :: semicolon))
      (pass.rewritten (.node n .item (content :: semicolon))) := by
  have hblock' : (pass.rewritten content).isKind .block = false := by rw [isKind_rewritten, hblock]
  have hitem' : (pass.rewritten content).isKind .item = false := by rw [isKind_rewritten, hitem]
  have hrest := forced_leaves hleaves
  have hdirect : (pass.rewritten content).directForced = content.directForced := by
    rw [directForced_eq_traits, directForced_eq_traits, traits_rewritten pass content
      ((formed_cases hformed).2 content (List.mem_cons_self ..)).1 hitem hblock]
  have hitems : forcedItemsOf [.node n .item (content :: semicolon)] = forcedItemsOf [content] +
      if (unforce? withoutMark (pass.rewritten content)).isSome then 1 else 0 := by
    have hsemicolon : forcedItemsOf semicolon = 0 := by
      rw [forcedItemsOf, nodesOf_leaves hleaves]
      rfl
    rw [forcedItemsOf_node, isForcedItem_eq pass hformed hblock hleaves,
      forcedItemsOf_cons content semicolon, hsemicolon, Nat.add_zero]
  have hold : (Tree.node n .item (content :: semicolon)).forcedTries = content.forcedTries ∧
      (Tree.node n .item (content :: semicolon)).mostForced =
        max content.directForced content.mostForced := by
    rw [(forced_node (by decide)).1, mostForced_node, ownForced_node, if_pos rfl,
      forcedTriesOf_cons, mostForcedOf_cons, directForcedOf_cons, hrest.1, hrest.2.1, hrest.2.2,
      hblock]
    simp
  have htries := h.tries
  have hmost := h.most
  rw [rewritten, rewrittenAll, rewrittenAll_leaves pass hleaves,
    reworked_item _ n hblock' hleaves]
  cases hunforce : unforce? withoutMark (pass.rewritten content) with
  | none =>
      have hzero := directForced_of_unforce_none hunforce
      constructor
      · rw [hitems, hunforce, hold.1, (forced_node (by decide)).1, forcedTriesOf_cons, hrest.1]
        exact htries
      · rw [hold.2, mostForced_node, ownForced_node, if_pos rfl, mostForcedOf_cons,
          directForcedOf_cons, hrest.2.1, hrest.2.2, hblock', ← hdirect, hzero, hmost]
        simp
  | some stripped =>
      have hstripped := forced_unforce (formed_rewritten_content pass hformed) hitem' hblock' hunforce
      have hkind : stripped.isKind .block = false := by
        rw [isKind, (kinds_of_unforce hunforce).2, ← isKind, hblock']
      have hwrapped := forced_wrappedItem (pass.layout (.node n .item (content :: semicolon))) hkind
        hleaves
      constructor
      · rw [hitems, hunforce, hold.1, hwrapped.1, Option.isSome_some, if_pos rfl]
        omega
      · rw [hold.2, hwrapped.2]
        omega

/-- A pass lowers the number of forced `try` nodes by the number of items that have one of their
own, and the largest number that one item has by one. -/
theorem lowered_of_formed (pass : Pass) (t : Tree) (h : Formed t) :
    Lowered t (pass.rewritten t) := by
  induction t using Tree.induction with
  | leaf l => exact ⟨rfl, rfl⟩
  | node n k cs ih =>
      have hchildren := (formed_cases h).2
      by_cases hk : k = .item
      · subst hk
        rcases item_of_formed h with ⟨content, semicolon, rfl, hblock, hitem, hleaves⟩
        have hmem : content ∈ content :: semicolon := List.mem_cons_self ..
        exact lowered_item pass h hblock hitem hleaves (ih content hmem (hchildren content hmem).1)
      · exact lowered_of_not_item pass hk fun c hc => ih c hc (hchildren c hc).1

theorem lowered_of_file (pass : Pass) {t : Tree} (h : FormsFile t) :
    Lowered t (pass.rewritten t) := by
  rcases file_of_formsFile h with ⟨_, n, cs, rfl, hformed⟩
  exact lowered_of_not_item pass (by decide) fun c hc => lowered_of_formed pass c (hformed c hc)

end Pass
end ForceTry

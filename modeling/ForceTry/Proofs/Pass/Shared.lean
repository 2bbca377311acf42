import ForceTry.Proofs.Grammar.Braces
import ForceTry.Proofs.Pass.Measure

/-!
# What a pass leaves alone

An item without forced `try` nodes comes out of a pass as the element that it was, unless it lies in a
statement that is wrapped.
-/

namespace ForceTry

open ForceTry.Tree ForceTry.Grammar

namespace Tree

/-- In the tree there is the item `m`, which has no forced `try`, and no item around it has one of its
own. -/
structure Untouched (t m : Tree) : Prop where
  mem : m ∈ t.nodes
  item : m.isKind .item = true
  free : m.forcedTries = 0
  outside : ∀ r ∈ t.nodes, r.isForcedItem = true → m ∉ r.nodes

/-- An item that is not the whole tree is in a child, and there it is untouched, too. -/
theorem Untouched.child {n : Nat} {k : NodeKind} {cs : List Tree} {m : Tree}
    (h : (Tree.node n k cs).Untouched m) (hne : m ≠ .node n k cs) : ∃ c ∈ cs, c.Untouched m := by
  have hmem := h.mem
  rw [nodes, nodesOf_eq_flatMap] at hmem
  rcases List.mem_cons.mp hmem with heq | hmem
  · exact absurd heq hne
  · rcases List.mem_flatMap.mp hmem with ⟨c, hc, hm⟩
    refine ⟨c, hc, hm, h.item, h.free, ?_⟩
    exact fun r hr => h.outside r (mem_nodes_of_child hc hr)

theorem forcedItemsOf_eq_zero {t : Tree} (h : t.forcedTries = 0) : forcedItemsOf [t] = 0 := by
  have hmost := mostForced_le t
  have hpos := forcedItemsOf_pos t
  omega

end Tree

namespace Pass

variable {pass : Pass} (hrule : pass.rule = DoCatch.rule)

include hrule

theorem mem_nodes_of_becomes_node {n : Nat} {k : NodeKind} {cs : List Tree} {u m : Tree}
    (hformed : k = .item → Formed (.node n k cs)) (hfits : (Tree.node n k cs).Fits)
    (hcs : ∀ c ∈ cs, Formed c) (h : pass.Becomes (.node n k cs) u)
    (hm : (Tree.node n k cs).Untouched m)
    (ih : ∀ c ∈ cs, ∀ v, pass.Becomes c v → c.Untouched m → m ∈ v.nodes) : m ∈ u.nodes := by
  rcases h with ⟨p, rep, p', hneat, hrun, hrep⟩
  by_cases hself : m = .node n k cs
  · rcases transform_same hrule m p (forcedItemsOf_eq_zero hm.free) with ⟨skipped, hsame⟩
    rw [hself, hrun] at hsame
    injection hsame with hsame
    injection hsame with hsame _
    rw [hsame] at hrep
    rcases hrep with hrep | hrep
    · injection hrep with hrep
      rw [← hrep, hself]
      exact List.mem_cons_self ..
    · cases hrep
  · rcases hm.child hself with ⟨c, hc, hchild⟩
    rcases transformAll_result hrule cs (Place.singleNames k cs) p hcs (admits_of_fits hfits)
      hneat.children with ⟨us, spliced, q, hruns, hrenewed, hplain, -, hbecome⟩
    rcases @transform_children pass n k cs us spliced p q hruns hrenewed with ⟨l, q', hstep, -⟩
    have hnode : (Tree.node n k cs).isForcedItem = false := by
      cases hforced : (Tree.node n k cs).isForcedItem with
      | false => rfl
      | true => exact absurd hm.mem (hm.outside _ (List.mem_cons_self ..) hforced)
    have htraits : (Tree.node n k cs).isKind .item = true →
        (Tree.node l k us).traits = (Tree.node n k cs).traits := by
      intro hitem
      rw [isKind_node, beq_iff_eq] at hitem
      subst hitem
      exact traits_item (hformed rfl) hplain
    rcases onNode_same hrule htraits hnode q' with ⟨skipped, hlast⟩
    rw [hstep, hlast] at hrun
    cases hrun
    have hu : u = .node l k us := by
      rcases hrep with hrep | hrep
      · injection hrep with hrep
        exact hrep.symm
      · cases hrep
    rcases hbecome c hc with ⟨v, hv, hbecomes⟩
    rw [hu]
    exact mem_nodes_of_child hv (ih c hc v hbecomes hchild)

theorem mem_nodes_of_becomes (t : Tree) (hformed : Formed t) {u m : Tree} (h : pass.Becomes t u)
    (hm : t.Untouched m) : m ∈ u.nodes := by
  -- By induction on the tree; the leaves hold nothing that is untouched.
  induction t using Tree.induction generalizing u with
  | leaf l => cases hm.mem
  | node n k cs ih =>
      have hcases := formed_cases hformed
      have hcs : ∀ c ∈ cs, Formed c := fun c hc => (hcases.2 c hc).1
      apply mem_nodes_of_becomes_node hrule (fun _ => hformed) hcases.1 hcs h hm
      exact fun c hc v hv hchild => ih c hc (hcs c hc) hv hchild

theorem mem_nodes_of_run {next : Nat} {report : Report} (hfile : FormsFile pass.root)
    (hneat : pass.root.Neat next) (hrun : pass.run next = .ok report) {m : Tree}
    (hm : pass.root.Untouched m) : m ∈ report.tree.nodes := by
  have hbecomes : pass.Becomes pass.root report.tree := by
    rw [run, bind_eq_ok] at hrun
    rcases hrun with ⟨⟨rep, p'⟩, htransform, hreport⟩
    cases rep with
    | one u =>
        cases hreport
        exact ⟨Progress.start next, .one u, p', hneat, htransform, .inl rfl⟩
    | many us => cases hreport
  rcases file_of_formsFile hfile with ⟨hfits, n, cs, hroot, hformed⟩
  rw [hroot] at hfits hbecomes hm
  apply mem_nodes_of_becomes_node hrule (fun h => by cases h) hfits hformed hbecomes hm
  exact fun c hc v hv hchild => mem_nodes_of_becomes hrule c (hformed c hc) hv hchild

end Pass
end ForceTry

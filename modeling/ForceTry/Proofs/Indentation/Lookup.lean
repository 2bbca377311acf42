import ForceTry.Indentation.Line
import ForceTry.Proofs.Tree.Labels

/-!
# Looking up lines

Lines are looked up by the label of a first token.  In a tree whose labels stand apart, the lookup of
an element of the tree comes to its own first token and to no other one.
-/

namespace ForceTry
namespace Tree

theorem leaves_lineStartsFrom (previous : Option Token) (ls : List Leaf) :
    (lineStartsFrom previous ls).map Prod.fst = ls := by
  induction ls generalizing previous with
  | nil => rfl
  | cons l ls ih => exact congrArg (l :: ·) (ih (some l.token))

/-- An element is found under a root: of the leaves of the root, its first one and no other has the
label that is looked up.  `starts` says whether it starts its line. -/
def FoundUnder (root t : Tree) (starts : Bool) : Prop :=
  ∃ l, t.firstLeaf? = some l ∧
    root.lineStarts.filter (fun entry => entry.1.label == l.label) = [(l, starts)]

theorem startsLine_of_foundUnder {root t : Tree} {starts : Bool} (h : FoundUnder root t starts) :
    startsLine (some root) t = starts := by
  rcases h with ⟨l, hfirst, hentries⟩
  have hfind : root.lineStarts.find? (fun entry => entry.1.label == l.label) = some (l, starts) := by
    rw [← List.head?_filter, hentries]
    rfl
  simp only [startsLine, hfirst, hfind]

theorem leaves_of_mem_nodes (t m : Tree) (h : m ∈ t.nodes) : ∀ l ∈ m.leaves, l ∈ t.leaves := by
  induction t using Tree.induction with
  | leaf l => cases h
  | node n k cs ih =>
      intro l hl
      rw [nodes, nodesOf_eq_flatMap] at h
      rcases List.mem_cons.mp h with rfl | h
      · exact hl
      · rcases List.mem_flatMap.mp h with ⟨c, hc, hm⟩
        rw [leaves_node, leavesOf_eq_flatMap]
        exact List.mem_flatMap.mpr ⟨c, hc, ih c hc hm l hl⟩

theorem foundUnder_of_mem_nodes {root m : Tree} {n : Nat} (hneat : root.Neat n)
    (hm : m ∈ root.nodes) (hleaves : m.leaves ≠ []) : ∃ starts, FoundUnder root m starts := by
  rcases List.exists_cons_of_ne_nil hleaves with ⟨l, ls, hl⟩
  have hmem : l ∈ root.leaves := by
    apply leaves_of_mem_nodes root m hm
    rw [hl]
    exact List.mem_cons_self ..
  rw [← leaves_lineStartsFrom none root.leaves] at hmem
  rcases List.mem_map.mp hmem with ⟨⟨l', starts⟩, hentry, rfl⟩
  refine ⟨starts, l', by rw [firstLeaf?, hl]; rfl, ?_⟩
  have hlength : (root.lineStarts.filter fun entry => entry.1.label == l'.label).length ≤ 1 := by
    have hcount := Nat.le_trans (count_leaves_le root l'.label) (hneat.count_le_one l'.label)
    rw [← leaves_lineStartsFrom none root.leaves, List.map_map, List.count_eq_countP,
      List.countP_map, List.countP_eq_length_filter] at hcount
    exact hcount
  have hfilter : (l', starts) ∈ root.lineStarts.filter fun entry => entry.1.label == l'.label :=
    List.mem_filter.mpr ⟨hentry, beq_self_eq_true _⟩
  rcases List.exists_cons_of_ne_nil (List.ne_nil_of_mem hfilter) with ⟨entry, rest, heq⟩
  rw [heq] at hlength hfilter
  have hrest : rest = [] := List.eq_nil_of_length_eq_zero (by simpa using hlength)
  rw [hrest, List.mem_singleton] at hfilter
  rw [heq, hrest, hfilter]

end Tree
end ForceTry

import ForceTry.Proofs.Grammar.WellFormed
import ForceTry.Proofs.Tree.Labels
import ForceTry.Proofs.Tree.Position

/-!
# Where elements start

The start of an element is looked up by the label of its first leaf.  In a tree whose labels stand
apart this is the place of that leaf, and the order of the leaves is the order of the places.  Every
`try` starts with a keyword of its own, so the `try` nodes of a file start one behind the other.
-/

namespace ForceTry
namespace Tree

open ForceTry.Grammar

/-!
# Looking up a leaf
-/

theorem code_eq_codeOf (t : Tree) : t.code = Leaf.codeOf t.leaves := by
  rw [code, tokens, Leaf.codeOf, List.flatMap_map]

theorem map_fst_leafPositionsFrom (p : Position) (ls : List Leaf) :
    (leafPositionsFrom p ls).map Prod.fst = ls.map Leaf.label := by
  induction ls generalizing p with
  | nil => rfl
  | cons l ls ih => exact congrArg (l.label :: ·) (ih _)

theorem leafPositionsFrom_append (p : Position) (ls ms : List Leaf) :
    leafPositionsFrom p (ls ++ ms) =
      leafPositionsFrom p ls ++ leafPositionsFrom (p.advance (Leaf.codeOf ls)) ms := by
  induction ls generalizing p with
  | nil => rfl
  | cons l ls ih =>
      rw [List.cons_append, leafPositionsFrom, leafPositionsFrom, ih, List.cons_append,
        Leaf.codeOf_cons, Token.code]
      simp only [Position.advance_append]

variable {root t : Tree} {l : Leaf} {before behind : List Leaf} {n : Nat}

def startBehind (before : List Leaf) (l : Leaf) : Position :=
  Position.start.advance (Leaf.codeOf before ++ l.token.leading.code)

/-- An element starts where its first leaf stands, if no leaf behind has the same label. -/
theorem start?_of_split (hleaves : root.leaves = before ++ l :: behind)
    (hfirst : t.firstLeaf? = some l) (hlabel : l.label ∉ behind.map Leaf.label) :
    root.start? t = some (startBehind before l) := by
  have hpositions : root.leafPositions =
      leafPositionsFrom Position.start before ++
        (l.label, startBehind before l) ::
          leafPositionsFrom (Position.start.advance (Leaf.codeOf before ++ l.token.code)) behind := by
    rw [leafPositions, hleaves, leafPositionsFrom_append, leafPositionsFrom, startBehind, Token.code]
    simp only [Position.advance_append]
  have hbehind : (leafPositionsFrom (Position.start.advance (Leaf.codeOf before ++ l.token.code))
      behind).reverse.find? (fun entry => entry.1 == l.label) = none := by
    rw [List.find?_eq_none]
    intro entry hentry heq
    apply hlabel
    rw [← map_fst_leafPositionsFrom, ← eq_of_beq heq]
    exact List.mem_map_of_mem (List.mem_reverse.mp hentry)
  rw [start?, startIn?, hfirst, hpositions, Option.bind_some, List.reverse_append,
    List.reverse_cons, List.append_assoc, List.find?_append, hbehind]
  simp

theorem label_not_behind (hneat : root.Neat n) (hleaves : root.leaves = before ++ l :: behind) :
    l.label ∉ behind.map Leaf.label := by
  intro hmem
  have hcount := Nat.le_trans (count_leaves_le root l.label) (hneat.count_le_one l.label)
  have hpos := List.count_pos_iff.mpr hmem
  rw [hleaves, List.map_append, List.map_cons, List.count_append, List.count_cons_self] at hcount
  omega

/-- Of two leaves of a tree, an element that starts with the first one starts in front of an element
that starts with the other. -/
theorem precedes_of_sublist {t' : Tree} {l' : Leaf} {p q : Position} (hneat : root.Neat n)
    (hsublist : [l, l'].Sublist root.leaves) (htext : l.token.text ≠ [])
    (hfirst : t.firstLeaf? = some l) (hfirst' : t'.firstLeaf? = some l')
    (hp : root.start? t = some p) (hq : root.start? t' = some q) : p.Precedes q := by
  rcases List.cons_sublist_iff.mp hsublist with ⟨front, rest, hleaves, hl, hl'⟩
  rcases List.append_of_mem hl with ⟨before, between, rfl⟩
  rcases List.append_of_mem (List.singleton_sublist.mp hl') with ⟨between', behind, rfl⟩
  have hsplit : root.leaves = before ++ l :: (between ++ between' ++ l' :: behind) := by
    rw [hleaves]
    simp only [List.append_assoc, List.cons_append]
  have hsplit' : root.leaves = (before ++ l :: (between ++ between')) ++ l' :: behind := by
    rw [hleaves]
    simp only [List.append_assoc, List.cons_append]
  rw [start?_of_split hsplit hfirst (label_not_behind hneat hsplit)] at hp
  rw [start?_of_split hsplit' hfirst' (label_not_behind hneat hsplit')] at hq
  injection hp with hp
  injection hq with hq
  have hadvance : q = p.advance (l.token.text ++ (l.token.trailing.code ++
      Leaf.codeOf (between ++ between') ++ l'.token.leading.code)) := by
    rw [← hp, ← hq, startBehind, startBehind, Leaf.codeOf_append, Leaf.codeOf_cons, Token.code]
    simp only [Position.advance_append]
  rw [hadvance]
  apply Position.precedes_advance
  intro hnil
  exact htext (List.append_eq_nil_iff.mp hnil).1

/-!
# The starts of all nodes of a kind
-/

/-- All nodes of the kind start with a leaf of their own. -/
def LedByLeaves (k : NodeKind) (nodes : List Tree) : Prop :=
  ∀ m ∈ nodes, m.isKind k = true → ∃ n l cs, m = .node n k (.leaf l :: cs)

theorem firstLeavesOf_sublist {k : NodeKind} {cs : List Tree}
    (h : ∀ c ∈ cs, ((c.nodes.filter (isKind k)).filterMap firstLeaf?).Sublist c.leaves) :
    (((nodesOf cs).filter (isKind k)).filterMap firstLeaf?).Sublist (leavesOf cs) := by
  induction cs with
  | nil => exact List.nil_sublist _
  | cons c cs ih =>
      have hcs := ih fun d hd => h d (List.mem_cons_of_mem c hd)
      show (((c.nodes ++ nodesOf cs).filter (isKind k)).filterMap firstLeaf?).Sublist
        (c.leaves ++ leavesOf cs)
      rw [List.filter_append, List.filterMap_append]
      exact (h c (List.mem_cons_self ..)).append hcs

/-- Nodes of one kind that start with leaves of their own start in the order of the leaves. -/
theorem firstLeaves_sublist {k : NodeKind} (t : Tree) :
    LedByLeaves k t.nodes →
      ((t.nodes.filter (isKind k)).filterMap firstLeaf?).Sublist t.leaves := by
  induction t using Tree.induction with
  | leaf l =>
      intro _
      exact List.nil_sublist _
  | node n k' cs ih =>
      intro h
      rw [nodes] at h ⊢
      have hchild : ∀ c ∈ cs, LedByLeaves k c.nodes := by
        intro c hc m hm
        apply h m
        rw [nodesOf_eq_flatMap]
        exact List.mem_cons_of_mem _ (List.mem_flatMap.mpr ⟨c, hc, hm⟩)
      cases hk : (Tree.node n k' cs).isKind k with
      | false =>
          rw [List.filter_cons_of_neg (by rw [hk]; exact Bool.false_ne_true)]
          exact firstLeavesOf_sublist fun c hc => ih c hc (hchild c hc)
      | true =>
          rcases h _ (List.mem_cons_self ..) hk with ⟨n', l, ds, heq⟩
          cases heq
          rw [List.filter_cons_of_pos hk]
          have hds := firstLeavesOf_sublist fun c hc =>
            ih c (List.mem_cons_of_mem (.leaf l) hc) (hchild c (List.mem_cons_of_mem (.leaf l) hc))
          exact hds.cons_cons l

/-!
# The starts of `try` nodes
-/

theorem keyword_of_file {t m : Tree} (hfile : FormsFile t) (hm : m ∈ t.nodes)
    (hkind : m.isKind .tryExpression = true) :
    ∃ n keyword cs, m = .node n .tryExpression (.leaf keyword :: cs) ∧
      keyword.token.isKeyword "try" = true := by
  cases m with
  | leaf l => cases hkind
  | node n k cs =>
      have hk : k = .tryExpression := by simpa [isKind, kind?] using hkind
      subst hk
      rcases try_of_formed (formed_of_file hfile hm rfl) with
        ⟨keyword, m, parts, hkeyword, rfl | ⟨mark, rfl⟩⟩
      · exact ⟨n, keyword, _, rfl, hkeyword⟩
      · exact ⟨n, keyword, _, rfl, hkeyword⟩

theorem matchesFilter_only (k : NodeKind) (m : Tree) : m.matchesFilter (.only k) = m.isKind k := by
  cases m with
  | leaf l => rfl
  | node n k' cs =>
      show (k == k') = (some k' == some k)
      rw [Option.some_beq_some, BEq.comm]

theorem keywords_sublist {t : Tree} (hfile : FormsFile t) :
    ((t.findAll (.only .tryExpression)).filterMap firstLeaf?).Sublist t.leaves := by
  have hled : LedByLeaves .tryExpression t.nodes := by
    intro m hm hkind
    rcases keyword_of_file hfile hm hkind with ⟨n, keyword, cs, hshape, _⟩
    exact ⟨n, keyword, cs, hshape⟩
  have hfilter : t.findAll (.only .tryExpression) = t.nodes.filter (isKind .tryExpression) := by
    rw [findAll]
    congr 1
    funext m
    exact matchesFilter_only _ m
  rw [hfilter]
  exact firstLeaves_sublist t hled

end Tree
end ForceTry

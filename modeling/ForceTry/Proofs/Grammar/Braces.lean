import ForceTry.Proofs.Computation
import ForceTry.Proofs.Grammar.Brackets
import ForceTry.Proofs.Tree.Parsed

/-!
# Braces

The parser knows blocks by their braces.  Every left brace of a tree is that of a block, and a right brace
that is none stands among the parts of a phrase.  All brackets are well nested when the tokens between the
braces of each block are, nested blocks left out.
-/

namespace ForceTry
namespace Tree

open ForceTry.Bracket Grammar

/-!
# Braces and blocks
-/

theorem mem_nodes_of_child {n : Nat} {k : NodeKind} {cs : List Tree} {c m : Tree} (hc : c ∈ cs)
    (hm : m ∈ c.nodes) : m ∈ (Tree.node n k cs).nodes := by
  rw [nodes, nodesOf_eq_flatMap]
  exact List.mem_cons_of_mem _ (List.mem_flatMap.mpr ⟨c, hc, hm⟩)

def leftBrace? : Tree → Option Leaf
  | .node _ .block (.leaf l :: _) => some l
  | _ => none

def rightBrace? : Tree → Option Leaf
  | .node _ .block cs =>
      match cs.getLast? with
      | some (.leaf l) => some l
      | _ => none
  | _ => none

/-- Every brace is a brace of one block. -/
def BracesBelong (t : Tree) : Prop :=
  ∀ l ∈ t.leaves,
    (l.token.kind = .leftBrace → t.nodes.countP (fun m => m.leftBrace? = some l) = 1) ∧
      (l.token.kind = .rightBrace → t.nodes.countP (fun m => m.rightBrace? = some l) = 1)

def strayBrace? : Tree → Option Leaf
  | .leaf l => if l.token.kind = .rightBrace then some l else none
  | .node _ _ _ => none

/-- The right braces among the children of a node that is no block. -/
def strayBraces : Tree → List Leaf
  | .leaf _ => []
  | .node _ k cs => if k = .block then [] else cs.filterMap strayBrace?

/-- A block has its braces around other nodes, and no other node has a left brace. -/
def HoldsBraces : Tree → Prop
  | .leaf _ => True
  | .node _ .block cs =>
      ∃ left items right, cs = .leaf left :: (items ++ [.leaf right]) ∧
        left.token.kind = .leftBrace ∧ right.token.kind = .rightBrace ∧ ∀ c ∈ items, c.kind? ≠ none
  | .node _ _ cs => ∀ l, .leaf l ∈ cs → l.token.kind ≠ .leftBrace

theorem leftBrace?_of_ne (n : Nat) {k : NodeKind} (cs : List Tree) (h : k ≠ .block) :
    (Tree.node n k cs).leftBrace? = none := by
  cases k <;> first | rfl | exact absurd rfl h

theorem rightBrace?_of_ne (n : Nat) {k : NodeKind} (cs : List Tree) (h : k ≠ .block) :
    (Tree.node n k cs).rightBrace? = none := by
  cases k <;> first | rfl | exact absurd rfl h

theorem holdsBraces_of_ne {n : Nat} {k : NodeKind} {cs : List Tree} (h : k ≠ .block) :
    (Tree.node n k cs).HoldsBraces ↔ ∀ l, .leaf l ∈ cs → l.token.kind ≠ .leftBrace := by
  cases k <;> first | exact Iff.rfl | exact absurd rfl h

theorem rightBrace?_block (n : Nat) (left right : Leaf) (items : List Tree) :
    (Tree.node n .block (.leaf left :: (items ++ [.leaf right]))).rightBrace? = some right := by
  have hlast : (Tree.leaf left :: (items ++ [.leaf right])).getLast? = some (.leaf right) := by
    rw [← List.cons_append, List.getLast?_append]
    rfl
  simp only [rightBrace?, hlast]

def isLeftBrace (l : Leaf) : Bool := l.token.kind == .leftBrace

def isRightBrace (l : Leaf) : Bool := l.token.kind == .rightBrace

theorem leftBraces_all {cs : List Tree}
    (hleaf : ∀ l, .leaf l ∈ cs → l.token.kind ≠ .leftBrace)
    (h : ∀ c ∈ cs, c.kind? ≠ none → c.leaves.filter isLeftBrace = c.nodes.filterMap leftBrace?) :
    (leavesOf cs).filter isLeftBrace = (nodesOf cs).filterMap leftBrace? := by
  induction cs with
  | nil => rfl
  | cons c cs ih =>
      have hcs := ih (fun l hl => hleaf l (List.mem_cons_of_mem c hl))
        fun d hd => h d (List.mem_cons_of_mem c hd)
      have hc : c.leaves.filter isLeftBrace = c.nodes.filterMap leftBrace? := by
        cases c with
        | leaf l =>
            have hl := hleaf l (List.mem_cons_self ..)
            simp [leaves, nodes, isLeftBrace, hl]
        | node n k ds => exact h _ (List.mem_cons_self ..) (Option.some_ne_none k)
      rw [leavesOf_cons, nodesOf, List.filter_append, List.filterMap_append, hc, hcs]

theorem nodesOf_append (cs ds : List Tree) : nodesOf (cs ++ ds) = nodesOf cs ++ nodesOf ds := by
  rw [nodesOf_eq_flatMap, nodesOf_eq_flatMap, nodesOf_eq_flatMap, List.flatMap_append]

theorem leftBraces_eq (t : Tree) (hnode : t.kind? ≠ none) (h : ∀ m ∈ t.nodes, m.HoldsBraces) :
    t.leaves.filter isLeftBrace = t.nodes.filterMap leftBrace? := by
  induction t using Tree.induction with
  | leaf l => exact absurd rfl hnode
  | node n k cs ih =>
      have hself := h _ (List.mem_cons_self ..)
      have hbelow : ∀ c ∈ cs, c.kind? ≠ none →
          c.leaves.filter isLeftBrace = c.nodes.filterMap leftBrace? := by
        intro c hc hkind
        exact ih c hc hkind fun m hm => h m (mem_nodes_of_child hc hm)
      by_cases hk : k = .block
      · subst hk
        rcases hself with ⟨left, items, right, rfl, hleft, hright, hitems⟩
        have hall := @leftBraces_all items
          (fun l hl => absurd rfl (hitems _ hl))
          fun c hc => hbelow c (List.mem_cons_of_mem _ (List.mem_append_left _ hc))
        rw [leaves_node, leavesOf_cons, leavesOf_append, nodes, nodesOf, nodesOf_append]
        simp [isLeftBrace, hleft, hright, leftBrace?, nodes, nodesOf] at hall ⊢
        exact hall
      · rw [leaves_node, nodes, List.filterMap_cons_none (leftBrace?_of_ne n cs hk)]
        exact leftBraces_all ((holdsBraces_of_ne hk).mp hself) hbelow

theorem rightBraces_all {cs : List Tree} (x : Leaf)
    (h : ∀ c ∈ cs, c.kind? ≠ none → (c.leaves.filter isRightBrace).count x =
      (c.nodes.filterMap rightBrace?).count x + (c.nodes.flatMap strayBraces).count x) :
    ((leavesOf cs).filter isRightBrace).count x = ((nodesOf cs).filterMap rightBrace?).count x +
      ((cs.filterMap strayBrace?).count x + ((nodesOf cs).flatMap strayBraces).count x) := by
  induction cs with
  | nil => rfl
  | cons c cs ih =>
      have hcs := ih fun d hd => h d (List.mem_cons_of_mem c hd)
      rw [leavesOf_cons, nodesOf, List.filter_append, List.filterMap_append, List.flatMap_append,
        List.count_append, List.count_append, List.count_append, hcs]
      cases c with
      | leaf l =>
          by_cases hl : l.token.kind = .rightBrace
          · simp [leaves, nodes, isRightBrace, strayBrace?, hl, List.count_cons]
            omega
          · simp [leaves, nodes, isRightBrace, strayBrace?, hl]
      | node n k ds =>
          have hc := h _ (List.mem_cons_self ..) (Option.some_ne_none k)
          rw [hc, List.filterMap_cons_none rfl]
          omega

theorem rightBraces_eq (t : Tree) (hnode : t.kind? ≠ none) (h : ∀ m ∈ t.nodes, m.HoldsBraces)
    (x : Leaf) : (t.leaves.filter isRightBrace).count x =
      (t.nodes.filterMap rightBrace?).count x + (t.nodes.flatMap strayBraces).count x := by
  induction t using Tree.induction with
  | leaf l => exact absurd rfl hnode
  | node n k cs ih =>
      have hself := h _ (List.mem_cons_self ..)
      have hbelow : ∀ c ∈ cs, c.kind? ≠ none → (c.leaves.filter isRightBrace).count x =
          (c.nodes.filterMap rightBrace?).count x + (c.nodes.flatMap strayBraces).count x := by
        intro c hc hkind
        exact ih c hc hkind fun m hm => h m (mem_nodes_of_child hc hm)
      have hall := rightBraces_all x hbelow
      rw [leaves_node, nodes, List.flatMap_cons, List.count_append, hall]
      by_cases hk : k = .block
      · subst hk
        rcases hself with ⟨left, items, right, rfl, hleft, hright, hitems⟩
        have hnone : items.filterMap strayBrace? = [] := by
          rw [List.filterMap_eq_nil_iff]
          intro c hc
          cases c with
          | leaf l => exact absurd rfl (hitems _ hc)
          | node m k' ds => rfl
        have hown : (Tree.leaf left :: (items ++ [.leaf right])).filterMap strayBrace? = [right] := by
          simp [strayBrace?, hleft, hright, hnone]
        rw [hown, List.filterMap_cons_some (rightBrace?_block n left right items), strayBraces,
          if_pos rfl, List.count_cons, List.count_cons]
        simp only [List.count_nil]
        omega
      · rw [List.filterMap_cons_none (rightBrace?_of_ne n cs hk), strayBraces, if_neg hk]

theorem countP_filterMap (f : Tree → Option Leaf) (ts : List Tree) (l : Leaf) :
    ts.countP (fun m => f m = some l) = (ts.filterMap f).count l := by
  induction ts with
  | nil => rfl
  | cons t ts ih =>
      rw [List.countP_cons, ih]
      cases hf : f t with
      | none => simp [hf]
      | some l' =>
          rw [List.filterMap_cons_some hf, List.count_cons]
          by_cases heq : l' = l <;> simp [heq]

/-- Every brace is a brace of one block exactly when no right brace is stray.  A left brace always
is. -/
theorem bracesBelong_iff {t : Tree} (hnode : t.kind? ≠ none) (h : ∀ m ∈ t.nodes, m.HoldsBraces)
    (hnodup : t.leaves.Nodup) : t.BracesBelong ↔ ∀ m ∈ t.nodes, m.strayBraces = [] := by
  have hright := rightBraces_eq t hnode h
  have hone : ∀ {p : Leaf → Bool} {l : Leaf}, l ∈ t.leaves → p l = true →
      (t.leaves.filter p).count l = 1 := by
    intro p l hl hp
    rw [List.count_filter hp]
    exact hnodup.count.trans (if_pos hl)
  constructor
  · intro hbelong
    have hnil : t.nodes.flatMap strayBraces = [] := by
      rw [List.eq_nil_iff_forall_not_mem]
      intro x hx
      have hpos := List.count_pos_iff.mpr hx
      have hmem : x ∈ t.leaves.filter isRightBrace := by
        rw [← List.count_pos_iff, hright x]
        omega
      rcases List.mem_filter.mp hmem with ⟨hleaf, hkind⟩
      have hblock := (hbelong x hleaf).2 (by simpa [isRightBrace] using hkind)
      have hcount := hone hleaf hkind
      rw [countP_filterMap] at hblock
      rw [hright x] at hcount
      omega
    exact List.flatMap_eq_nil_iff.mp hnil
  · intro hstray l hl
    have hnil : t.nodes.flatMap strayBraces = [] := List.flatMap_eq_nil_iff.mpr hstray
    refine ⟨?_, ?_⟩
    · intro hkind
      rw [countP_filterMap, ← leftBraces_eq t hnode h]
      exact hone hl (by simpa [isLeftBrace] using hkind)
    · intro hkind
      have hcount := hright l
      rw [hnil, List.count_nil, Nat.add_zero] at hcount
      rw [countP_filterMap, ← hcount]
      exact hone hl (by simpa [isRightBrace] using hkind)

/-!
# Tokens outside nested blocks
-/

mutual

/-- The tokens of a tree that are not inside a nested block. -/
def directTokens : Tree → List Token
  | .leaf l => [l.token]
  | .node _ _ cs => directTokensOf cs

def directTokensOf : List Tree → List Token
  | [] => []
  | c :: cs => (if c.isKind .block then [] else directTokens c) ++ directTokensOf cs

end

theorem directTokensOf_append (cs ds : List Tree) :
    directTokensOf (cs ++ ds) = directTokensOf cs ++ directTokensOf ds := by
  induction cs with
  | nil => rfl
  | cons c cs ih =>
      rw [List.cons_append, directTokensOf, directTokensOf, ih, List.append_assoc]

theorem mem_directTokensOf {cs : List Tree} {t : Token} :
    t ∈ directTokensOf cs ↔ ∃ c ∈ cs, c.isKind .block = false ∧ t ∈ c.directTokens := by
  induction cs with
  | nil => simp [directTokensOf]
  | cons c cs ih =>
      simp only [directTokensOf, List.mem_append, ih, List.mem_cons, exists_eq_or_imp]
      cases c.isKind .block <;> simp

/-- The tokens that are directly in a block are well nested, and so in every block below. -/
def BlocksNested (t : Tree) : Prop := ∀ m ∈ t.nodes, m.isKind .block = true → WellNested m.directTokens

theorem BlocksNested.child {n : Nat} {k : NodeKind} {cs : List Tree} {c : Tree}
    (h : (Tree.node n k cs).BlocksNested) (hc : c ∈ cs) : c.BlocksNested :=
  fun m hm => h m (mem_nodes_of_child hc hm)

mutual

theorem openBehindAll_tokens (t : Tree) (h : t.BlocksNested) (stack : List Bracket) :
    openBehindAll stack t.tokens = openBehindAll stack t.directTokens := by
  cases t with
  | leaf l => rfl
  | node n k cs => exact openBehindAll_tokensOf cs (fun c hc => h.child hc) stack
termination_by structural t

theorem openBehindAll_tokensOf (cs : List Tree) (h : ∀ c ∈ cs, c.BlocksNested)
    (stack : List Bracket) :
    openBehindAll stack (tokensOf cs) = openBehindAll stack (directTokensOf cs) := by
  cases cs with
  | nil => rfl
  | cons c cs =>
      have hc := h c (List.mem_cons_self ..)
      have hrest := openBehindAll_tokensOf cs fun d hd => h d (List.mem_cons_of_mem c hd)
      rw [tokensOf_cons, directTokensOf, openBehindAll_append, openBehindAll_append,
        openBehindAll_tokens c hc stack]
      cases hblock : c.isKind .block with
      | true =>
          have hself : c ∈ c.nodes := by
            cases c with
            | leaf l => cases hblock
            | node m k ds => exact List.mem_cons_self ..
          rw [(hc c hself hblock).neutral stack]
          exact hrest stack
      | false => exact Option.bind_congr fun s _ => hrest s
termination_by structural cs

end

theorem parent_of_mem_directTokens (t : Tree) (hnode : t.kind? ≠ none)
    (hblock : t.isKind .block = false) {token : Token} (htoken : token ∈ t.directTokens) :
    ∃ n k cs l, .node n k cs ∈ t.nodes ∧ k ≠ .block ∧ .leaf l ∈ cs ∧ token = l.token := by
  induction t using Tree.induction with
  | leaf l => exact absurd rfl hnode
  | node n k cs ih =>
      rw [isKind_node, beq_eq_false_iff_ne] at hblock
      rcases mem_directTokensOf.mp htoken with ⟨c, hc, hcblock, hmem⟩
      cases c with
      | leaf l =>
          exact ⟨n, k, cs, l, List.mem_cons_self .., hblock, hc, List.mem_singleton.mp hmem⟩
      | node m k' ds =>
          rcases ih _ hc (Option.some_ne_none k') hcblock hmem with ⟨n', k'', es, l, hparent, hrest⟩
          exact ⟨n', k'', es, l, mem_nodes_of_child hc hparent, hrest⟩

theorem not_leftBrace_of_direct {t : Tree} (hnode : t.kind? ≠ none)
    (hblock : t.isKind .block = false) (h : ∀ m ∈ t.nodes, m.HoldsBraces) :
    ∀ token ∈ t.directTokens, token.kind ≠ .leftBrace := by
  intro token htoken
  rcases parent_of_mem_directTokens t hnode hblock htoken with ⟨n, k, cs, l, hparent, hk, hl, rfl⟩
  exact (holdsBraces_of_ne hk).mp (h _ hparent) l hl

theorem strayBraces_ne_nil {n : Nat} {k : NodeKind} {cs : List Tree} {l : Leaf} (hk : k ≠ .block)
    (hl : .leaf l ∈ cs) (hkind : l.token.kind = .rightBrace) :
    (Tree.node n k cs).strayBraces ≠ [] := by
  intro hnil
  rw [strayBraces, if_neg hk, List.filterMap_eq_nil_iff] at hnil
  have hnone := hnil _ hl
  rw [strayBrace?, if_pos hkind] at hnone
  cases hnone

theorem not_rightBrace_of_direct {t : Tree} (hnode : t.kind? ≠ none)
    (hblock : t.isKind .block = false) (h : ∀ m ∈ t.nodes, m.strayBraces = []) :
    ∀ token ∈ t.directTokens, token.kind ≠ .rightBrace := by
  intro token htoken hkind
  rcases parent_of_mem_directTokens t hnode hblock htoken with ⟨n, k, cs, l, hparent, hk, hl, rfl⟩
  exact strayBraces_ne_nil hk hl hkind (h _ hparent)

theorem noBrace_of_direct {items : List Tree} (hitems : ∀ c ∈ items, c.kind? ≠ none)
    (h : ∀ c ∈ items, ∀ m ∈ c.nodes, m.HoldsBraces ∧ m.strayBraces = []) :
    ∀ token ∈ directTokensOf items, NoBrace token := by
  intro token htoken
  rcases mem_directTokensOf.mp htoken with ⟨c, hc, hblock, hmem⟩
  exact ⟨not_leftBrace_of_direct (hitems c hc) hblock (fun m hm => (h c hc m hm).1) token hmem,
    not_rightBrace_of_direct (hitems c hc) hblock (fun m hm => (h c hc m hm).2) token hmem⟩

theorem directTokens_block (n : Nat) (left right : Leaf) (items : List Tree) :
    (Tree.node n .block (.leaf left :: (items ++ [.leaf right]))).directTokens =
      left.token :: (directTokensOf items ++ [right.token]) := by
  rw [directTokens, directTokensOf, directTokensOf_append]
  rfl

theorem open_of_mem {c : Tree} {cs : List Tree} (hc : c ∈ cs) {stack stack' : List Bracket}
    (h : openBehindAll stack (tokensOf cs) = some stack') :
    ∃ s s', openBehindAll s c.tokens = some s' := by
  induction cs generalizing stack with
  | nil => cases hc
  | cons d cs ih =>
      rw [tokensOf_cons, openBehindAll_append] at h
      rcases Option.bind_eq_some_iff.mp h with ⟨s, hs, hrest⟩
      rcases List.mem_cons.mp hc with rfl | hc
      · exact ⟨stack, s, hs⟩
      · exact ih hc hrest

/-- In a tree whose tokens find their brackets, every block is well nested, when no brace is stray. -/
theorem blocksNested_of_open (t : Tree) (h : ∀ m ∈ t.nodes, m.HoldsBraces ∧ m.strayBraces = [])
    {stack stack' : List Bracket} (hopen : openBehindAll stack t.tokens = some stack') :
    t.BlocksNested := by
  -- By induction on the tree. What is open around a block does not matter within it.
  induction t using Tree.induction generalizing stack stack' with
  | leaf l =>
      intro m hm
      cases hm
  | node n k cs ih =>
      have hcs : ∀ c ∈ cs, c.BlocksNested := by
        intro c hc
        rcases open_of_mem hc hopen with ⟨s, s', hs⟩
        exact ih c hc (fun m hm => h m (mem_nodes_of_child hc hm)) hs
      intro m hm hblock
      rw [nodes] at hm
      rcases List.mem_cons.mp hm with rfl | hm
      · rw [isKind_node, beq_iff_eq] at hblock
        subst hblock
        rcases (h _ (List.mem_cons_self ..)).1 with ⟨left, items, right, rfl, hleft, hright, hitems⟩
        have hbrace : ∀ token ∈ directTokensOf items, NoBrace token := by
          refine noBrace_of_direct hitems fun c hc m hm => h m (mem_nodes_of_child ?_ hm)
          exact List.mem_cons_of_mem (Tree.leaf left) (List.mem_append_left [.leaf right] hc)
        have hdirect := directTokens_block n left right items
        rw [directTokens] at hdirect
        rw [tokens_node, openBehindAll_tokensOf _ hcs, hdirect] at hopen
        rw [directTokens, hdirect, wellNested_braces_iff hleft hright hbrace]
        exact (wellNested_inside hleft hright hbrace hopen).1
      · rw [nodesOf_eq_flatMap] at hm
        rcases List.mem_flatMap.mp hm with ⟨c, hc, hm⟩
        exact hcs c hc m hm hblock

theorem not_rightBrace_of_nested {n : Nat} {cs : List Tree}
    (h : WellNested (Tree.node n .block cs).directTokens)
    (hholds : ∀ m ∈ (Tree.node n .block cs).nodes, m.HoldsBraces) :
    ∀ c ∈ cs, c.kind? ≠ none → c.isKind .block = false →
      ∀ token ∈ c.directTokens, token.kind ≠ .rightBrace := by
  rcases hholds _ (List.mem_cons_self ..) with ⟨left, items, right, rfl, hleft, hright, hitems⟩
  have hmember : ∀ {c}, c ∈ items → c ∈ .leaf left :: (items ++ [.leaf right]) :=
    fun hc => List.mem_cons_of_mem _ (List.mem_append_left _ hc)
  have hbetween : ∀ token ∈ directTokensOf items, token.kind ≠ .leftBrace := by
    intro token htoken
    rcases mem_directTokensOf.mp htoken with ⟨c, hc, hblock, hmem⟩
    exact not_leftBrace_of_direct (hitems c hc) hblock
      (fun m hm => hholds m (mem_nodes_of_child (hmember hc) hm)) token hmem
  rw [directTokens_block] at h
  intro c hc hnode hblock token htoken
  have hitem : c ∈ items := by
    rcases List.mem_cons.mp hc with rfl | hc
    · exact absurd rfl hnode
    rcases List.mem_append.mp hc with hc | hc
    · exact hc
    · rw [List.mem_singleton.mp hc] at hnode
      exact absurd rfl hnode
  exact not_rightBrace_between hleft hright hbetween h token
    (mem_directTokensOf.mpr ⟨c, hitem, hblock, htoken⟩)

theorem strayBraces_of_nested (t : Tree) (h : t.BlocksNested) (hholds : ∀ m ∈ t.nodes, m.HoldsBraces)
    (hdirect : t.isKind .block = false → ∀ token ∈ t.directTokens, token.kind ≠ .rightBrace) :
    ∀ m ∈ t.nodes, m.strayBraces = [] := by
  induction t using Tree.induction with
  | leaf l =>
      intro m hm
      cases hm
  | node n k cs ih =>
      have hbelow : ∀ c ∈ cs, c.kind? ≠ none → c.isKind .block = false →
          ∀ token ∈ c.directTokens, token.kind ≠ .rightBrace := by
        by_cases hk : k = .block
        · subst hk
          exact not_rightBrace_of_nested (h _ (List.mem_cons_self ..) rfl) hholds
        · intro c hc _ hblock token htoken
          exact hdirect (by simpa [isKind_node] using hk) token
            (mem_directTokensOf.mpr ⟨c, hc, hblock, htoken⟩)
      intro m hm
      rw [nodes] at hm
      rcases List.mem_cons.mp hm with rfl | hm
      · rw [strayBraces]
        split
        · rfl
        · next hk =>
            rw [List.filterMap_eq_nil_iff]
            intro c hc
            cases c with
            | node m k' ds => rfl
            | leaf l =>
                rw [strayBrace?, if_neg]
                exact hdirect (by simpa [isKind_node] using hk) l.token
                  (mem_directTokensOf.mpr ⟨_, hc, rfl, List.mem_singleton.mpr rfl⟩)
      · rw [nodesOf_eq_flatMap] at hm
        rcases List.mem_flatMap.mp hm with ⟨c, hc, hm⟩
        have hnode : c.kind? ≠ none := by
          cases c with
          | leaf l => cases hm
          | node m k' ds => exact Option.some_ne_none k'
        exact ih c hc (h.child hc) (fun x hx => hholds x (mem_nodes_of_child hc hx))
          (fun hblock => hbelow c hc hnode hblock) m hm

/-- All brackets of a tree are well nested, and all its braces are those of blocks, exactly when the
tokens outside blocks are well nested and those directly in each block are. -/
theorem wellNested_iff {t : Tree} (hnode : t.kind? ≠ none) (hblock : t.isKind .block = false)
    (hholds : ∀ m ∈ t.nodes, m.HoldsBraces) (hnodup : t.leaves.Nodup) :
    WellNested t.tokens ∧ t.BracesBelong ↔ WellNested t.directTokens ∧ t.BlocksNested := by
  rw [bracesBelong_iff hnode hholds hnodup]
  constructor
  · rintro ⟨hnested, hstray⟩
    have hblocks := blocksNested_of_open t (fun m hm => ⟨hholds m hm, hstray m hm⟩) hnested
    refine ⟨?_, hblocks⟩
    rw [WellNested, ← openBehindAll_tokens t hblocks]
    exact hnested
  · rintro ⟨hdirect, hblocks⟩
    refine ⟨?_, ?_⟩
    · rw [WellNested, openBehindAll_tokens t hblocks]
      exact hdirect
    · apply strayBraces_of_nested t hblocks hholds
      exact fun _ => hdirect.not_rightBrace (not_leftBrace_of_direct hnode hblock hholds)

/-!
# Trees that follow the grammar
-/

theorem not_leftBrace_of_keyword {t : Token} {word : String} (h : t.isKeyword word = true) :
    t.kind ≠ .leftBrace := by
  rw [kind_of_isKeyword h]
  decide

theorem not_leftBrace_of_formsParts {f : Frame} {previous : Option Token} {next : Token}
    {parts : List Tree} (h : FormsParts f previous next parts) :
    ∀ l, .leaf l ∈ parts → l.token.kind ≠ .leftBrace := by
  intro l hl
  rcases part_of_formsParts h _ hl with ⟨_, _, _, hpart⟩
  rw [FormsPart] at hpart
  exact hpart.2.1

theorem not_leftBrace_of_formsPattern {cs : List Tree} (h : FormsPattern cs) :
    ∀ l, .leaf l ∈ cs → l.token.kind ≠ .leftBrace := by
  intro l hl
  rcases shapes_of_formsPattern h _ hl with ⟨l', heq, hkind⟩ | hblock
  · cases heq
    exact hkind
  · rcases (formsBlock_iff _).mp hblock with ⟨n, cs, heq, _⟩
    cases heq

theorem holdsBraces_block (n : Nat) {cs : List Tree} (h : FormsBraces cs) :
    (Tree.node n .block cs).HoldsBraces := by
  rcases (formsBraces_iff cs).mp h with ⟨left, items, right, rfl, hleft, hright, hitems⟩
  refine ⟨left, items, right, rfl, hleft, hright, ?_⟩
  intro c hc hleaf
  have hitem := (formed_of_formsItems hitems c hc).2
  rw [isKind, hleaf] at hitem
  cases hitem

theorem node_of_formsClauses {clauses : List Tree} (h : FormsClauses clauses) :
    ∀ c ∈ clauses, c.kind? ≠ none := by
  intro c hc
  rcases shapes_of_formsClauses h c hc with ⟨n, keyword, cs, rfl, _⟩
  exact Option.some_ne_none _

theorem node_of_formsContent {mayBeEmpty : Bool} {previous : Option Token} {next : Token}
    {t : Tree} (h : FormsContent mayBeEmpty previous next t) : t.kind? ≠ none := by
  cases shape_of_formsContent h <;> exact Option.some_ne_none _

theorem holdsBraces_of_formed {t : Tree} (h : Formed t) : t.HoldsBraces := by
  cases shape_of_formed h with
  | leaf l => trivial
  | block n hbraces => exact holdsBraces_block n hbraces
  | bareTry n m htry =>
      intro l hl
      simp only [List.mem_cons, List.not_mem_nil, or_false, Tree.leaf.injEq, reduceCtorEq] at hl
      rw [hl]
      exact not_leftBrace_of_keyword htry
  | markedTry n m htry hmark =>
      intro l hl
      simp only [List.mem_cons, List.not_mem_nil, or_false, Tree.leaf.injEq, reduceCtorEq] at hl
      rcases hl with rfl | rfl
      · exact not_leftBrace_of_keyword htry
      · intro hkind
        rw [hkind] at hmark
        cases hmark
  | expression n hphrase => exact not_leftBrace_of_formsParts hphrase.forms
  | item n hnext hcontent =>
      intro l hl
      rw [List.mem_singleton] at hl
      exact absurd (congrArg kind? hl).symm (node_of_formsContent hcontent)
  | closedItem n hsemicolon hcontent =>
      intro l hl
      rcases List.mem_cons.mp hl with heq | hl
      · exact absurd (congrArg kind? heq).symm (node_of_formsContent hcontent)
      · cases List.mem_singleton.mp hl
        rw [hsemicolon]
        decide
  | statement n hphrase => exact not_leftBrace_of_formsParts hphrase.forms
  | doStatement n hdo hbody hclauses =>
      intro l hl
      rcases List.mem_cons.mp hl with heq | hl
      · cases heq
        exact not_leftBrace_of_keyword hdo
      rcases List.mem_cons.mp hl with rfl | hl
      · exact absurd hbody (by simp [FormsBlock])
      · exact absurd rfl (node_of_formsClauses hclauses _ hl)
  | clause n hcatch hpattern =>
      intro l hl
      rcases List.mem_cons.mp hl with heq | hl
      · cases heq
        exact not_leftBrace_of_keyword hcatch
      · exact not_leftBrace_of_formsPattern hpattern l hl

theorem holdsBraces_of_file {t : Tree} (h : FormsFile t) : ∀ m ∈ t.nodes, m.HoldsBraces := by
  rcases items_of_formsFile h with ⟨n, items, ending, rfl, hending, hitems⟩
  intro m hm
  rw [nodes] at hm
  rcases List.mem_cons.mp hm with rfl | hm
  · intro l hl
    rcases List.mem_append.mp hl with hl | hl
    · cases (hitems _ hl).2
    · cases List.mem_singleton.mp hl
      rw [hending]
      decide
  · rw [nodesOf_eq_flatMap] at hm
    rcases List.mem_flatMap.mp hm with ⟨c, hc, hm⟩
    rcases List.mem_append.mp hc with hc | hc
    · exact holdsBraces_of_formed (formed_of_mem_nodes c (hitems c hc).1 m hm)
    · rw [List.mem_singleton.mp hc] at hm
      cases hm

end Tree
end ForceTry

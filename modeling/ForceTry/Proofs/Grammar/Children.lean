import Mathlib.Data.List.Flatten
import Mathlib.Data.List.Nodup
import ForceTry.Proofs.Grammar.Braces
import ForceTry.Proofs.Indentation.Lookup

/-!
# Parents and children

Nodes of one kind have children of few kinds only.  A `try` keyword or a mark is a child of a `try`
expression, or it stands in the pattern of a catch clause, where tokens are taken as they are.  In a tree
whose leaves stand apart a leaf has one parent, and every `try` stands in a statement.
-/

namespace ForceTry

namespace NodeKind

/-- A node of the first kind may have a child of the second kind. -/
def mayHold : NodeKind → NodeKind → Bool
  | expression, block => true
  | expression, tryExpression => true
  | statement, block => true
  | statement, tryExpression => true
  | tryExpression, expression => true
  | item, statement => true
  | item, doStatement => true
  | block, item => true
  | catchClause, block => true
  | doStatement, block => true
  | doStatement, catchClause => true
  | sourceFile, item => true
  | _, _ => false

end NodeKind

namespace Grammar

open ForceTry.Tree

/-!
# What a node may hold
-/

/-- The tree may be a child of a node of the kind. -/
def Suits (k : NodeKind) : Tree → Prop
  | .leaf l =>
      l.token.isKeyword "try" = true ∨ l.token.kind.marksTry = true →
        k = .tryExpression ∨ k = .catchClause
  | .node _ k' _ => k.mayHold k' = true

theorem suits_ordinary {l : Leaf} (hkeyword : l.token.isKeyword "try" = false)
    (hmark : l.token.kind.marksTry = false) (k : NodeKind) : Suits k (.leaf l) := by
  rintro (h | h)
  · rw [hkeyword] at h
    cases h
  · rw [hmark] at h
    cases h

theorem suits_sign {l : Leaf} (hkeyword : l.token.kind ≠ .keyword)
    (hmark : l.token.kind.marksTry = false) (k : NodeKind) : Suits k (.leaf l) := by
  apply suits_ordinary _ hmark
  rw [Token.isKeyword, beq_eq_false_iff_ne.mpr hkeyword, Bool.false_and]

theorem suits_keyword {l : Leaf} {word : String} (h : l.token.isKeyword word = true)
    (hword : word.toList ≠ "try".toList) (k : NodeKind) : Suits k (.leaf l) := by
  rw [Token.isKeyword, Bool.and_eq_true, beq_iff_eq, beq_iff_eq] at h
  apply suits_ordinary
  · rw [Token.isKeyword, h.2, beq_eq_false_iff_ne.mpr hword, Bool.and_false]
  · rw [h.1]
    rfl

theorem suits_of_formsPart {k : NodeKind} (hk : k = .expression ∨ k = .statement) {f : Frame}
    {previous : Option Token} {next : Token} {t : Tree} (h : FormsPart f previous next t) :
    Suits k t := by
  cases shape_of_formsPart h with
  | leaf l hstays htakes => exact suits_ordinary htakes.2.2.1 htakes.2.2.2.1 k
  | _ => rcases hk with rfl | rfl <;> rfl

theorem suits_of_formsParts {k : NodeKind} (hk : k = .expression ∨ k = .statement) {f : Frame}
    {previous : Option Token} {next : Token} {parts : List Tree}
    (h : FormsParts f previous next parts) : ∀ c ∈ parts, Suits k c := by
  intro c hc
  rcases part_of_formsParts h c hc with ⟨_, _, _, hpart⟩
  exact suits_of_formsPart hk hpart

theorem suits_of_item {k : NodeKind} (hk : k.mayHold .item = true) {t : Tree}
    (h : t.isKind .item = true) : Suits k t := by
  cases t with
  | leaf l => cases h
  | node n k' cs =>
      have hk' : k' = .item := by simpa [isKind, kind?] using h
      rw [hk']
      exact hk

theorem suits_of_formsBraces {cs : List Tree} (h : FormsBraces cs) : ∀ c ∈ cs, Suits .block c := by
  rcases (formsBraces_iff cs).mp h with ⟨left, items, right, rfl, hleft, hright, hitems⟩
  intro c hc
  rcases List.mem_cons.mp hc with rfl | hc
  · exact suits_sign (by rw [hleft]; decide) (by rw [hleft]; rfl) _
  rcases List.mem_append.mp hc with hc | hc
  · exact suits_of_item rfl (formed_of_formsItems hitems c hc).2
  · rw [List.mem_singleton.mp hc]
    exact suits_sign (by rw [hright]; decide) (by rw [hright]; rfl) _

theorem suits_of_formsBlock {k : NodeKind} (hk : k.mayHold .block = true) {t : Tree}
    (h : FormsBlock t) : Suits k t := by
  rcases (formsBlock_iff t).mp h with ⟨n, cs, rfl, _⟩
  exact hk

theorem suits_of_formsPattern {cs : List Tree} (h : FormsPattern cs) :
    ∀ c ∈ cs, Suits .catchClause c := by
  intro c hc
  rcases shapes_of_formsPattern h c hc with ⟨l, rfl, _⟩ | hblock
  · exact fun _ => .inr rfl
  · exact suits_of_formsBlock rfl hblock

theorem suits_of_formsClauses {clauses : List Tree} (h : FormsClauses clauses) :
    ∀ c ∈ clauses, Suits .doStatement c := by
  intro c hc
  rcases shapes_of_formsClauses h c hc with ⟨n, keyword, cs, rfl, _⟩
  rfl

theorem suits_content {mayBeEmpty : Bool} {previous : Option Token} {next : Token} {t : Tree}
    (h : FormsContent mayBeEmpty previous next t) : Suits .item t := by
  cases shape_of_formsContent h <;> rfl

theorem suits_of_formed {n : Nat} {k : NodeKind} {cs : List Tree} (h : Formed (.node n k cs)) :
    ∀ c ∈ cs, Suits k c := by
  have htry : ∀ l : Leaf, Suits .tryExpression (.leaf l) := fun _ _ => .inl rfl
  cases shape_of_formed h with
  | block _ hbraces => exact suits_of_formsBraces hbraces
  | bareTry =>
      rw [List.forall_mem_cons, List.forall_mem_singleton]
      exact ⟨htry _, rfl⟩
  | markedTry =>
      rw [List.forall_mem_cons, List.forall_mem_cons, List.forall_mem_singleton]
      exact ⟨htry _, htry _, rfl⟩
  | expression _ hphrase => exact suits_of_formsParts (.inl rfl) hphrase.forms
  | item _ hnext hcontent =>
      rw [List.forall_mem_singleton]
      exact suits_content hcontent
  | closedItem _ hsemicolon hcontent =>
      rw [List.forall_mem_cons, List.forall_mem_singleton]
      exact ⟨suits_content hcontent,
        suits_sign (by rw [hsemicolon]; decide) (by rw [hsemicolon]; rfl) _⟩
  | statement _ hphrase => exact suits_of_formsParts (.inr rfl) hphrase.forms
  | doStatement _ hdo hbody hclauses =>
      rw [List.forall_mem_cons, List.forall_mem_cons]
      exact ⟨suits_keyword hdo (by decide) _, suits_of_formsBlock rfl hbody,
        suits_of_formsClauses hclauses⟩
  | clause _ hcatch hpattern =>
      rw [List.forall_mem_cons]
      exact ⟨suits_keyword hcatch (by decide) _, suits_of_formsPattern hpattern⟩

theorem suits_of_file {t : Tree} (h : FormsFile t) {n : Nat} {k : NodeKind} {cs : List Tree}
    (hm : .node n k cs ∈ t.nodes) : ∀ c ∈ cs, Suits k c := by
  rcases items_of_formsFile h with ⟨m, items, ending, rfl, hending, hitems⟩
  rcases List.mem_cons.mp hm with heq | hbelow
  · cases heq
    intro c hc
    rcases List.mem_append.mp hc with hc | hc
    · exact suits_of_item rfl (hitems c hc).2
    · rw [List.mem_singleton.mp hc]
      exact suits_sign (by rw [hending]; decide) (by rw [hending]; rfl) _
  · rw [nodesOf_eq_flatMap] at hbelow
    rcases List.mem_flatMap.mp hbelow with ⟨c, hc, hm⟩
    rcases List.mem_append.mp hc with hc | hc
    · exact suits_of_formed (formed_of_mem_nodes c (hitems c hc).1 _ hm)
    · rw [List.mem_singleton.mp hc] at hm
      cases hm

end Grammar

namespace Tree

open Grammar

/-!
# Parents
-/

theorem exists_parent {l : Leaf} (t : Tree) (hnode : t.kind? ≠ none) (hl : l ∈ t.leaves) :
    ∃ n k cs, .node n k cs ∈ t.nodes ∧ .leaf l ∈ cs := by
  induction t using Tree.induction with
  | leaf l' => exact absurd rfl hnode
  | node n k cs ih =>
      rw [leaves_node, leavesOf_eq_flatMap] at hl
      rcases List.mem_flatMap.mp hl with ⟨c, hc, hl⟩
      cases c with
      | leaf l' =>
          rw [leaves_leaf, List.mem_singleton] at hl
          subst hl
          exact ⟨n, k, cs, List.mem_cons_self .., hc⟩
      | node m k' ds =>
          rcases ih _ hc (Option.some_ne_none k') hl with ⟨p, k'', es, hp, hes⟩
          exact ⟨p, k'', es, mem_nodes_of_child hc hp, hes⟩

/-- If nothing stands twice in the lists of some elements, no two of the elements share anything. -/
theorem eq_of_mem_flatMap {α β : Type} {f : α → List β} {xs : List α} (hnodup : (xs.flatMap f).Nodup)
    {x y : α} (hx : x ∈ xs) (hy : y ∈ xs) {b : β} (hbx : b ∈ f x) (hby : b ∈ f y) : x = y := by
  induction xs with
  | nil => cases hx
  | cons z zs ih =>
      rw [List.flatMap_cons, List.nodup_append] at hnodup
      have hapart : b ∈ f z → ∀ y ∈ zs, b ∉ f y := by
        intro hbz y hy hby
        exact hnodup.2.2 b hbz b (List.mem_flatMap.mpr ⟨y, hy, hby⟩) rfl
      rw [List.mem_cons] at hx hy
      rcases hx with hx | hx
      · rcases hy with hy | hy
        · rw [hx, hy]
        · exact absurd hby (hapart (hx ▸ hbx) y hy)
      · rcases hy with hy | hy
        · exact absurd hbx (hapart (hy ▸ hby) x hx)
        · exact ih hnodup.2.1 hx hy

theorem nodup_of_toLeaves {first : Nat} {ts : List Token} {t : Tree}
    (h : t.leaves = Tokens.toLeaves first ts) : t.leaves.Nodup := by
  rw [h]
  exact List.Nodup.of_map _ (nodup_label_toLeaves first ts)

theorem nodes_sublist {t m : Tree} (h : m ∈ t.nodes) : m.nodes.Sublist t.nodes := by
  induction t using Tree.induction with
  | leaf l => cases h
  | node n k cs ih =>
      rw [nodes, nodesOf_eq_flatMap] at h ⊢
      rcases List.mem_cons.mp h with rfl | h
      · rw [nodes, nodesOf_eq_flatMap]
      · rcases List.mem_flatMap.mp h with ⟨c, hc, hm⟩
        have hchild := (List.singleton_sublist.mpr hc).flatMap nodes
        rw [List.flatMap_singleton] at hchild
        exact ((ih c hc hm).trans hchild).cons _

theorem exists_parent_node (t : Tree) {m : Tree} (hm : m ∈ t.nodes) :
    m = t ∨ ∃ p ∈ t.nodes, m ∈ p.children := by
  induction t using Tree.induction with
  | leaf l => cases hm
  | node n k cs ih =>
      rw [nodes, nodesOf_eq_flatMap] at hm
      rcases List.mem_cons.mp hm with rfl | hm
      · exact .inl rfl
      · rcases List.mem_flatMap.mp hm with ⟨c, hc, hm⟩
        rcases ih c hc hm with rfl | ⟨p, hp, hchild⟩
        · exact .inr ⟨_, List.mem_cons_self .., hc⟩
        · exact .inr ⟨p, mem_nodes_of_child hc hp, hchild⟩

theorem leaves_split (t m : Tree) (h : m ∈ t.nodes) :
    ∃ front back, t.leaves = front ++ m.leaves ++ back := by
  induction t using Tree.induction with
  | leaf l => cases h
  | node n k cs ih =>
      rw [nodes, nodesOf_eq_flatMap] at h
      rcases List.mem_cons.mp h with rfl | h
      · exact ⟨[], [], (List.append_nil _).symm⟩
      · rcases List.mem_flatMap.mp h with ⟨c, hc, hm⟩
        rcases ih c hc hm with ⟨front, back, hleaves⟩
        rcases List.append_of_mem hc with ⟨xs, ys, rfl⟩
        refine ⟨leavesOf xs ++ front, back ++ leavesOf ys, ?_⟩
        rw [leaves_node, leavesOf_append, leavesOf_cons, hleaves]
        simp only [List.append_assoc]

theorem mem_leaves_of_child {m t : Tree} {l : Leaf} (hm : m ∈ t.nodes) (hl : .leaf l ∈ m.children) :
    l ∈ t.leaves := by
  apply leaves_of_mem_nodes t m hm
  cases m with
  | leaf l' => cases hl
  | node n k cs =>
      rw [leaves_node, leavesOf_eq_flatMap]
      exact List.mem_flatMap.mpr ⟨_, hl, List.mem_singleton_self l⟩

/-- In a tree in which no leaf stands twice, a leaf is the child of one node. -/
theorem parent_unique {l : Leaf} (t : Tree) (hnodup : t.leaves.Nodup) {p q : Tree} (hp : p ∈ t.nodes)
    (hq : q ∈ t.nodes) (hlp : .leaf l ∈ p.children) (hlq : .leaf l ∈ q.children) : p = q := by
  induction t using Tree.induction with
  | leaf l' => cases hp
  | node n k cs ih =>
      rw [leaves_node, leavesOf_eq_flatMap] at hnodup
      have hroot : ∀ m ∈ nodesOf cs, .leaf l ∈ m.children → .leaf l ∉ cs := by
        intro m hm hlm hl
        rw [nodesOf_eq_flatMap] at hm
        rcases List.mem_flatMap.mp hm with ⟨c, hc, hm⟩
        have heq := eq_of_mem_flatMap hnodup hc hl (mem_leaves_of_child hm hlm)
          (List.mem_singleton_self l)
        rw [heq] at hm
        cases hm
      rw [nodes] at hp hq
      rcases List.mem_cons.mp hp with rfl | hp
      · rcases List.mem_cons.mp hq with rfl | hq
        · rfl
        · exact absurd hlp (hroot q hq hlq)
      · rcases List.mem_cons.mp hq with rfl | hq
        · exact absurd hlq (hroot p hp hlp)
        · rw [nodesOf_eq_flatMap] at hp hq
          rcases List.mem_flatMap.mp hp with ⟨c, hc, hp⟩
          rcases List.mem_flatMap.mp hq with ⟨d, hd, hq⟩
          have heq := eq_of_mem_flatMap hnodup hc hd (mem_leaves_of_child hp hlp)
            (mem_leaves_of_child hq hlq)
          subst heq
          exact ih c hc ((List.nodup_flatMap.mp hnodup).1 c hc) hp hq

/-!
# Enclosing statements
-/

/-- The node `m` stands in a statement of `t` with the given parts, outside the blocks within it. -/
def StandsIn (t : Tree) (parts : List Tree) (m : Tree) : Prop :=
  (∃ n k semicolon, .node n .item (.node k .statement parts :: semicolon) ∈ t.nodes) ∧
    m ∈ directNodesOf parts

theorem StandsIn.child {n : Nat} {k : NodeKind} {cs parts : List Tree} {c m : Tree} (hc : c ∈ cs)
    (h : c.StandsIn parts m) : (Tree.node n k cs).StandsIn parts m := by
  rcases h with ⟨⟨n', k', semicolon, hitem⟩, hm⟩
  exact ⟨⟨n', k', semicolon, mem_nodes_of_child hc hitem⟩, hm⟩

theorem mem_directNodesOf {cs : List Tree} {c m : Tree} (hc : c ∈ cs)
    (hblock : c.isKind .block = false) (hm : m ∈ c.directNodes) : m ∈ directNodesOf cs := by
  rw [directNodesOf_eq_flatMap, List.mem_flatMap]
  exact ⟨c, List.mem_filter.mpr ⟨hc, by rw [hblock]; rfl⟩, hm⟩

/-- A `try` stands in a statement below the tree, or the tree itself is a part of a statement. -/
theorem standsIn_of_formed (t : Tree) (h : Formed t) {m : Tree} (hm : m ∈ t.nodes)
    (htry : m.isKind .tryExpression = true) :
    (∃ parts, t.StandsIn parts m) ∨ m ∈ t.directNodes ∧
      (t.isKind .tryExpression = true ∨ t.isKind .expression = true ∨ t.isKind .statement = true) := by
  induction t using Tree.induction with
  | leaf l => cases hm
  | node n k cs ih =>
      rw [nodes, nodesOf_eq_flatMap] at hm
      rcases List.mem_cons.mp hm with rfl | hm
      · exact .inr ⟨List.mem_cons_self .., .inl htry⟩
      rcases List.mem_flatMap.mp hm with ⟨c, hc, hm⟩
      rcases ih c hc ((formed_cases h).2 c hc).1 hm with ⟨parts, hstands⟩ | ⟨hdirect, hkind⟩
      · exact .inl ⟨parts, hstands.child hc⟩
      have hsuits := suits_of_formed h c hc
      cases c with
      | leaf l => cases hdirect
      | node n' k' ds =>
          rw [isKind_node, isKind_node, isKind_node, beq_iff_eq, beq_iff_eq, beq_iff_eq] at hkind
          rcases hkind with rfl | rfl | rfl
          · have hmem := mem_directNodesOf hc rfl hdirect
            refine .inr ⟨List.mem_cons_of_mem _ hmem, ?_⟩
            cases k <;> first | exact .inr (.inl rfl) | exact .inr (.inr rfl) | cases hsuits
          · have hmem := mem_directNodesOf hc rfl hdirect
            refine .inr ⟨List.mem_cons_of_mem _ hmem, ?_⟩
            cases k <;> first | exact .inl rfl | cases hsuits
          · have hk : k = .item := by cases k <;> first | rfl | cases hsuits
            subst hk
            rcases item_of_formed h with ⟨content, semicolon, rfl, _, _, hleaves⟩
            rcases List.mem_cons.mp hc with rfl | hc
            · rcases List.mem_cons.mp hdirect with rfl | hdirect
              · cases htry
              · exact .inl ⟨ds, ⟨n, n', semicolon, List.mem_cons_self ..⟩, hdirect⟩
            · cases hleaves _ hc

theorem standsIn_of_file {t : Tree} (h : FormsFile t) {m : Tree} (hm : m ∈ t.nodes)
    (htry : m.isKind .tryExpression = true) : ∃ parts, t.StandsIn parts m := by
  rcases items_of_formsFile h with ⟨n, items, ending, rfl, _, hitems⟩
  rw [nodes, nodesOf_eq_flatMap] at hm
  rcases List.mem_cons.mp hm with rfl | hm
  · cases htry
  rcases List.mem_flatMap.mp hm with ⟨c, hc, hm⟩
  rcases List.mem_append.mp hc with hitem | hending
  · rcases standsIn_of_formed c (hitems c hitem).1 hm htry with ⟨parts, hstands⟩ | ⟨_, hkind⟩
    · exact ⟨parts, hstands.child hc⟩
    · cases c with
      | leaf l => cases hm
      | node n' k cs =>
          have hk := (hitems _ hitem).2
          rw [isKind_node, beq_iff_eq] at hk
          subst hk
          rcases hkind with hkind | hkind | hkind <;> cases hkind
  · rw [List.mem_singleton.mp hending] at hm
    cases hm

end Tree
end ForceTry

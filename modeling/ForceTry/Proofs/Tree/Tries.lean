import ForceTry.Proofs.Grammar.Children
import ForceTry.Proofs.Grammar.Unambiguous
import ForceTry.Proofs.Token.Mark
import ForceTry.Proofs.Tree.Faults
import ForceTry.Proofs.Tree.Starts

/-!
# The tries of a source

A `try` is found as a node of the tree.  The parser makes such a node of every `try` keyword but of those
in the pattern of a catch clause, and it gives every mark to the node of the keyword in front of it.
-/

namespace ForceTry

/-- The token of the leaf is the keyword `try`. -/
def Leaf.isTry (l : Leaf) : Bool := l.token.isKeyword "try"

namespace Tree

open Grammar

def patternOf : Tree → List Leaf
  | .node _ .catchClause (_ :: cs) => leavesOf (cs.filter fun c => c.kind? == none)
  | _ => []

/-- The leaves that stand in patterns of catch clauses. -/
def patternLeaves (t : Tree) : List Leaf := t.nodes.flatMap patternOf

/-- The keywords of the `try` nodes, each before those below it. -/
def tryKeywords (t : Tree) : List Leaf := (t.findAll (.only .tryExpression)).filterMap firstLeaf?

/-!
# Patterns
-/

theorem mem_patternOf {n : Nat} {c : Tree} {cs : List Tree} {l : Leaf} :
    l ∈ patternOf (.node n .catchClause (c :: cs)) ↔ .leaf l ∈ cs := by
  rw [patternOf, leavesOf_eq_flatMap, List.mem_flatMap]
  constructor
  · rintro ⟨d, hd, hl⟩
    rw [List.mem_filter] at hd
    cases d with
    | leaf l' =>
        rw [leaves_leaf, List.mem_singleton] at hl
        rw [hl]
        exact hd.1
    | node m k ds => exact absurd hd.2 (by simp [kind?])
  · intro hl
    exact ⟨.leaf l, List.mem_filter.mpr ⟨hl, rfl⟩, List.mem_singleton_self l⟩

theorem clause_of_formed {n : Nat} {cs : List Tree} (h : Formed (.node n .catchClause cs)) :
    ∃ keyword ds, cs = .leaf keyword :: ds ∧ keyword.token.isKeyword "catch" = true ∧
      FormsPattern ds := by
  cases shape_of_formed h with
  | clause _ hcatch hpattern => exact ⟨_, _, rfl, hcatch, hpattern⟩

theorem leaves_of_formsPattern {cs : List Tree} (h : FormsPattern cs) :
    ∃ (ls : List Leaf) (block : Tree), cs = ls.map Tree.leaf ++ [block] ∧ FormsBlock block := by
  induction cs with
  | nil => cases shape_of_formsPattern h
  | cons c cs ih =>
      cases shape_of_formsPattern h with
      | leaf l cs hleft hright hend hcs =>
          rcases ih hcs with ⟨ls, block, rfl, hblock⟩
          exact ⟨l :: ls, block, rfl, hblock⟩
      | block n cs hbraces => exact ⟨[], _, rfl, (formsBlock_iff _).mpr ⟨n, cs, rfl, hbraces⟩⟩

/-- In front of a leaf of a pattern stands `catch` or another leaf of the pattern. -/
theorem pattern_of_clause {n : Nat} {cs : List Tree} (h : Formed (.node n .catchClause cs))
    {l : Leaf} (hl : l ∈ patternOf (.node n .catchClause cs)) :
    ∃ front keyword back, leavesOf cs = front ++ keyword :: l :: back ∧
      (keyword ∈ patternOf (.node n .catchClause cs) ∨ keyword.token.isKeyword "catch" = true) := by
  rcases clause_of_formed h with ⟨keyword, ds, rfl, hkeyword, hpattern⟩
  rcases leaves_of_formsPattern hpattern with ⟨ls, block, rfl, hblock⟩
  have hleaf : ∀ m : Leaf, .leaf m ∈ ls.map Tree.leaf ++ [block] ↔ m ∈ ls := by
    rcases (formsBlock_iff block).mp hblock with ⟨m, es, rfl, _⟩
    simp
  have hleaves : leavesOf (ls.map Tree.leaf) = ls := by
    rw [leavesOf_eq_flatMap, List.flatMap_map]
    exact List.flatMap_singleton' ls
  rw [mem_patternOf, hleaf] at hl
  simp only [mem_patternOf, hleaf]
  rcases List.append_of_mem hl with ⟨xs, ys, rfl⟩
  rw [leavesOf_cons, leavesOf_append, hleaves]
  rcases List.eq_nil_or_concat xs with rfl | ⟨xs, a, rfl⟩
  · exact ⟨[], keyword, ys ++ leavesOf [block], rfl, .inr hkeyword⟩
  · refine ⟨keyword :: xs, a, ys ++ leavesOf [block], ?_, .inl (by simp)⟩
    simp

theorem parent_of_pattern {m : Tree} {l : Leaf} (hl : l ∈ patternOf m) :
    ∃ n c cs, m = .node n .catchClause (c :: cs) ∧ .leaf l ∈ cs := by
  have hpattern := hl
  unfold patternOf at hl
  split at hl
  · exact ⟨_, _, _, rfl, mem_patternOf.mp hpattern⟩
  · cases hl

/-!
# Keywords and marks
-/

variable {t : Tree} {l : Leaf}

theorem mark_of_formed {n : Nat} {keyword mark : Leaf} {expression : Tree}
    (h : Formed (.node n .tryExpression [.leaf keyword, .leaf mark, expression])) :
    mark.token.kind.marksTry = true := by
  cases shape_of_formed h with
  | markedTry _ m htry hmark => exact hmark

theorem not_isTry_of_marksTry (h : l.token.kind.marksTry = true) : l.isTry = false := by
  cases hkeyword : l.isTry with
  | false => rfl
  | true =>
      rw [kind_of_isKeyword hkeyword] at h
      cases h

theorem mem_tryKeywords (hfile : FormsFile t) :
    l ∈ t.tryKeywords ↔ ∃ n cs, .node n .tryExpression (.leaf l :: cs) ∈ t.nodes := by
  rw [tryKeywords, List.mem_filterMap]
  constructor
  · rintro ⟨m, hm, hfirst⟩
    rw [findAll, List.mem_filter, matchesFilter_only] at hm
    rcases keyword_of_file hfile hm.1 hm.2 with ⟨n, keyword, cs, rfl, _⟩
    cases hfirst
    exact ⟨n, cs, hm.1⟩
  · rintro ⟨n, cs, hm⟩
    exact ⟨_, List.mem_filter.mpr ⟨hm, rfl⟩, rfl⟩

theorem parent_of_leaf (hfile : FormsFile t) (hl : l ∈ t.leaves)
    (h : l.isTry = true ∨ l.token.kind.marksTry = true) :
    (l.isTry = true ∧ l ∈ t.tryKeywords) ∨
      (l.token.kind.marksTry = true ∧ ∃ n keyword cs,
        .node n .tryExpression (.leaf keyword :: .leaf l :: cs) ∈ t.nodes) ∨
      ∃ n cs, .node n .catchClause cs ∈ t.nodes ∧ l ∈ patternOf (.node n .catchClause cs) := by
  have hnode : t.kind? ≠ none := by
    rcases file_of_formsFile hfile with ⟨_, n, cs, rfl, _⟩
    exact Option.some_ne_none _
  rcases exists_parent t hnode hl with ⟨n, k, cs, hm, hchild⟩
  have hformed : k = .tryExpression ∨ k = .catchClause → Formed (.node n k cs) := by
    intro hk
    apply formed_of_file hfile hm
    rcases hk with rfl | rfl <;> rfl
  rcases suits_of_file hfile hm _ hchild h with rfl | rfl
  · have htry := hformed (.inl rfl)
    rcases try_of_formed htry with ⟨keyword, m, parts, hkeyword, rfl | ⟨mark, rfl⟩⟩
    · have heq : l = keyword := by simpa using hchild
      subst heq
      exact .inl ⟨hkeyword, (mem_tryKeywords hfile).mpr ⟨n, _, hm⟩⟩
    · have heq : l = keyword ∨ l = mark := by simpa using hchild
      rcases heq with rfl | rfl
      · exact .inl ⟨hkeyword, (mem_tryKeywords hfile).mpr ⟨n, _, hm⟩⟩
      · exact .inr (.inl ⟨mark_of_formed htry, n, keyword, _, hm⟩)
  · rcases clause_of_formed (hformed (.inr rfl)) with ⟨keyword, ds, rfl, hkeyword, _⟩
    rcases List.mem_cons.mp hchild with heq | hchild
    · cases heq
      rcases suits_keyword hkeyword (by decide) .item h with hk | hk <;> cases hk
    · exact .inr (.inr ⟨n, _, hm, mem_patternOf.mpr hchild⟩)

theorem mem_tryKeywords_iff (hfile : FormsFile t) (hnodup : t.leaves.Nodup) (hl : l ∈ t.leaves) :
    l ∈ t.tryKeywords ↔ l.isTry = true ∧ l ∉ t.patternLeaves := by
  constructor
  · intro hkeyword
    rcases (mem_tryKeywords hfile).mp hkeyword with ⟨n, cs, hm⟩
    constructor
    · rcases keyword_of_file hfile hm rfl with ⟨_, _, _, heq, htry⟩
      cases heq
      exact htry
    · intro hpattern
      rcases List.mem_flatMap.mp hpattern with ⟨m, hclause, hl⟩
      rcases parent_of_pattern hl with ⟨n', c, ds, rfl, hds⟩
      have heq := parent_unique t hnodup hm hclause (List.mem_cons_self ..)
        (List.mem_cons_of_mem c hds)
      cases heq
  · rintro ⟨htry, hpattern⟩
    rcases parent_of_leaf hfile hl (.inl htry) with ⟨_, hkeyword⟩ | ⟨hmark, _⟩ | ⟨n, cs, hm, hl⟩
    · exact hkeyword
    · rw [not_isTry_of_marksTry hmark] at htry
      cases htry
    · exact absurd (List.mem_flatMap.mpr ⟨_, hm, hl⟩) hpattern

/-!
# Order
-/

theorem eq_filter_of_sublist {α : Type} {xs ys : List α} (hnodup : ys.Nodup) (h : xs.Sublist ys)
    {p : α → Bool} (hp : ∀ x ∈ ys, x ∈ xs ↔ p x = true) : xs = ys.filter p := by
  have hself : xs.filter p = xs := List.filter_eq_self.mpr fun x hx => (hp x (h.subset hx)).mp hx
  have hsublist : xs.Sublist (ys.filter p) := by
    rw [← hself]
    exact h.filter p
  have hperm : xs.Perm (ys.filter p) := by
    rw [List.perm_ext_iff_of_nodup (hnodup.sublist h) (hnodup.sublist List.filter_sublist)]
    intro x
    constructor
    · exact fun hx => hsublist.subset hx
    · intro hx
      rw [List.mem_filter] at hx
      exact (hp x hx.1).mpr hx.2
  exact hsublist.eq_of_length hperm.length_eq

theorem tryKeywords_eq (hfile : FormsFile t) (hnodup : t.leaves.Nodup) :
    t.tryKeywords = t.leaves.filter fun l => l.isTry && !t.patternLeaves.contains l := by
  apply eq_filter_of_sublist hnodup (keywords_sublist hfile)
  intro l hl
  rw [Bool.and_eq_true, Bool.not_eq_true', List.contains_eq_mem, decide_eq_false_iff_not]
  exact mem_tryKeywords_iff hfile hnodup hl

theorem patternLeaves_subset (t : Tree) : ∀ l ∈ t.patternLeaves, l ∈ t.leaves := by
  intro l hl
  rcases List.mem_flatMap.mp hl with ⟨m, hm, hl⟩
  rcases parent_of_pattern hl with ⟨n, c, cs, rfl, hchild⟩
  exact mem_leaves_of_child hm (List.mem_cons_of_mem c hchild)

theorem tryKeywords_eq_all_iff (hfile : FormsFile t) (hnodup : t.leaves.Nodup) :
    t.tryKeywords = t.leaves.filter Leaf.isTry ↔ ∀ l ∈ t.patternLeaves, l.isTry = false := by
  constructor
  · intro hall l hpattern
    have hl := patternLeaves_subset t l hpattern
    cases htry : l.isTry with
    | false => rfl
    | true =>
        have hkeyword : l ∈ t.tryKeywords := by
          rw [hall]
          exact List.mem_filter.mpr ⟨hl, htry⟩
        exact absurd hpattern ((mem_tryKeywords_iff hfile hnodup hl).mp hkeyword).2
  · intro hnone
    apply eq_filter_of_sublist hnodup (keywords_sublist hfile)
    intro l hl
    have hiff := mem_tryKeywords_iff hfile hnodup hl
    constructor
    · exact fun hkeyword => (hiff.mp hkeyword).1
    · intro htry
      refine hiff.mpr ⟨htry, fun hpattern => ?_⟩
      rw [hnone l hpattern] at htry
      cases htry

/-!
# Sources
-/

theorem keyword_of_mark {source : Text} {ts : Tokens} (hts : Tokens.ofText source = .ok ts)
    (htokens : t.tokens = ts.toList) {front back : List Leaf} {keyword : Leaf}
    (hleaves : t.leaves = front ++ keyword :: l :: back) (hmark : l.token.kind.marksTry = true) :
    keyword.isTry = true := by
  have hsplit : ts.toList =
      (front ++ [keyword]).map Leaf.token ++ l.token :: back.map Leaf.token := by
    rw [← htokens, tokens, hleaves]
    simp
  have hsign : ∃ c, l.token.kind.sign? = some c := by
    cases hkind : l.token.kind <;> rw [hkind] at hmark <;>
      first | exact ⟨_, rfl⟩ | cases hmark
  rcases hsign with ⟨c, hc⟩
  have hbehind := ((Tokens.sign_of_ofText hts hsplit c).mp hc).2.2
  have hlast : ((front ++ [keyword]).map Leaf.token).getLast? = some keyword.token := by simp
  rcases hbehind with ⟨k, hk, htry, _⟩ | ⟨_, _, ⟨k, hk, htry, _⟩, _⟩
  · rw [hlast] at hk
    cases hk
    exact htry
  · rw [hlast] at hk
    cases hk
    exact htry

/-- The `try` nodes of a source, each before those below it, have the `try` keywords of its tokens in
order, but for those in patterns of catch clauses.  So none is missed exactly when no pattern holds one.
Every mark belongs to the node of the `try` in front of it or stands in a pattern behind a `try`. -/
theorem ofText_tries {source : Text} (h : ofText source = .ok t) :
    ∃ ts, Tokens.ofText source = .ok ts ∧ t.tokens = ts.toList ∧
      t.tryKeywords = t.leaves.filter (fun l => l.isTry && !t.patternLeaves.contains l) ∧
      (t.tryKeywords = t.leaves.filter Leaf.isTry ↔ ∀ l ∈ t.patternLeaves, l.isTry = false) ∧
      ∀ l ∈ t.leaves, l.token.kind.marksTry = true →
        ∃ front keyword back, t.leaves = front ++ keyword :: l :: back ∧ keyword.isTry = true ∧
          ((∃ m ∈ t.nodes, m.firstLeaf? = some keyword ∧ m.tryMark? = some l) ∨
            keyword ∈ t.patternLeaves ∧ l ∈ t.patternLeaves) := by
  rcases ofText_forms h with ⟨ts, next, hts, hleaves, hfile, _⟩
  have htokens := tokens_of_toLeaves hleaves
  have hnodup := nodup_of_toLeaves hleaves
  refine ⟨ts, hts, htokens, tryKeywords_eq hfile hnodup,
    tryKeywords_eq_all_iff hfile hnodup, ?_⟩
  intro l hl hmark
  rcases parent_of_leaf hfile hl (.inr hmark) with ⟨htry, _⟩ | ⟨_, n, keyword, cs, hm⟩ |
    ⟨n, cs, hm, hpattern⟩
  · rw [not_isTry_of_marksTry hmark] at htry
    cases htry
  · rcases leaves_split t _ hm with ⟨front, back, hsplit⟩
    have hstands : t.leaves = front ++ keyword :: l :: (leavesOf cs ++ back) := by
      rw [hsplit]
      simp
    refine ⟨front, keyword, _, hstands, keyword_of_mark hts htokens hstands hmark,
      .inl ⟨_, hm, rfl, ?_⟩⟩
    rcases try_of_formed (formed_of_file hfile hm rfl) with ⟨_, _, _, _, heq | ⟨mark, heq⟩⟩
    · cases heq
    · cases heq
      rfl
  · rcases pattern_of_clause (formed_of_file hfile hm rfl) hpattern with
      ⟨front, keyword, back, hclause, hbefore⟩
    rcases leaves_split t _ hm with ⟨front', back', hsplit⟩
    have hstands : t.leaves = (front' ++ front) ++ keyword :: l :: (back ++ back') := by
      rw [hsplit, leaves_node, hclause]
      simp
    have htry := keyword_of_mark hts htokens hstands hmark
    refine ⟨_, keyword, _, hstands, htry, .inr ⟨?_, List.mem_flatMap.mpr ⟨_, hm, hpattern⟩⟩⟩
    rcases hbefore with hkeyword | hcatch
    · exact List.mem_flatMap.mpr ⟨_, hm, hkeyword⟩
    · rcases suits_keyword hcatch (by decide) .item (.inl htry) with hk | hk <;> cases hk

/-- A `try` in an argument and one in a pattern: the first one only is a node. -/
theorem ofText_tries_pattern :
    ∃ t ts, ofText (Text.ofString "do \x7b f(try! g()) \x7d catch E where try? h() \x7b \x7d\n") = .ok t ∧
      (Tokens.ofText (Text.ofString "do \x7b f(try! g()) \x7d catch E where try? h() \x7b \x7d\n") = .ok ts ∧
        t.tokens = ts.toList ∧
        t.tryKeywords = t.leaves.filter (fun l => l.isTry && !t.patternLeaves.contains l) ∧
        (t.tryKeywords = t.leaves.filter Leaf.isTry ↔ ∀ l ∈ t.patternLeaves, l.isTry = false) ∧
        ∀ l ∈ t.leaves, l.token.kind.marksTry = true →
          ∃ front keyword back, t.leaves = front ++ keyword :: l :: back ∧ keyword.isTry = true ∧
            ((∃ m ∈ t.nodes, m.firstLeaf? = some keyword ∧ m.tryMark? = some l) ∨
              keyword ∈ t.patternLeaves ∧ l ∈ t.patternLeaves)) ∧
      t.tryKeywords.length = 1 ∧ t.leaves.countP Leaf.isTry = 2 := by
  have hcheck : (ofText (Text.ofString
      "do \x7b f(try! g()) \x7d catch E where try? h() \x7b \x7d\n")).toOption.map
        (fun t => (t.tryKeywords.length, t.leaves.countP Leaf.isTry)) = some (1, 2) := by
    decide +kernel
  rcases Option.map_eq_some_iff.mp hcheck with ⟨t, ht, hcounts⟩
  rcases ofText_tries (eq_ok_of_toOption ht) with ⟨ts, hall⟩
  exact ⟨t, ts, eq_ok_of_toOption ht, hall, (Prod.ext_iff.mp hcounts).1, (Prod.ext_iff.mp hcounts).2⟩

/-- A `try!` in the pattern of a catch clause is a marked keyword of the source, and no node. -/
theorem ofText_missed_try :
    ∃ t, ofText (Text.ofString "do \x7b \x7d catch E where (try! f()) \x7b \x7d\n") = .ok t ∧
      t.findAll (.only .tryExpression) = [] ∧ t.leaves.countP Leaf.isTry = 1 ∧
      t.leaves.countP (fun l => l.token.kind == .exclamationMark) = 1 := by
  have hcheck : (ofText (Text.ofString
      "do \x7b \x7d catch E where (try! f()) \x7b \x7d\n")).toOption.map
        (fun t => ((t.findAll (.only .tryExpression)).length, t.leaves.countP Leaf.isTry,
          t.leaves.countP (fun l => l.token.kind == .exclamationMark))) = some (0, 1, 1) := by
    decide +kernel
  rcases Option.map_eq_some_iff.mp hcheck with ⟨t, ht, hcounts⟩
  simp only [Prod.mk.injEq] at hcounts
  exact ⟨t, eq_ok_of_toOption ht, List.eq_nil_of_length_eq_zero hcounts.1, hcounts.2⟩

end Tree
end ForceTry

import ForceTry.Proofs.Pass.Transform

/-!
# The rewriting without trivia

What the rule does to a tree can be said in one step when trivia do not count: an item with a forced
`try` of its own becomes `do` and `catch` around what it held, where the first forced `try` has lost
its mark, and blocks inside it come first.
-/

namespace ForceTry
namespace Tree

open DoCatch Grammar

def dropMark : Tree → Tree
  | .node n .tryExpression [.leaf keyword, .leaf _, operand] =>
      .node n .tryExpression [.leaf keyword, operand]
  | t => t

/-- The tree in which the first forced `try` of its own has lost the mark. -/
def withoutFirstMark (t : Tree) : Tree := (unforce? dropMark t).getD t

def braced (content : Tree) : Tree :=
  .node 0 .block
    [.leaf ⟨0, Token.leftBrace [] []⟩, .node 0 .item [content], .leaf ⟨0, Token.rightBrace [] []⟩]

def keyword (word : String) : Tree := .leaf ⟨0, ⟨.keyword, word.toList, [], []⟩⟩

def guarded (placeholder : Text) (content : Tree) : Tree :=
  .node 0 .doStatement
    [keyword "do", braced content,
     .node 0 .catchClause
       [keyword "catch",
        braced (.node 0 .statement [.leaf ⟨0, Token.placeholder placeholder [] []⟩])]]

mutual

/-- The tree with every item wrapped that has a forced `try` of its own, inner blocks first. -/
def guardForced (placeholder : Text) : Tree → Tree
  | .leaf l => .leaf l
  | .node n .item (content :: semicolon) =>
      if (Tree.node n .item (content :: semicolon)).isForcedItem then
        .node n .item
          (guarded placeholder (withoutFirstMark (guardForced placeholder content)) :: semicolon)
      else .node n .item (guardForced placeholder content :: semicolon)
  | .node n k cs => .node n k (guardForcedAll placeholder cs)

def guardForcedAll (placeholder : Text) : List Tree → List Tree
  | [] => []
  | c :: cs => guardForced placeholder c :: guardForcedAll placeholder cs

end

theorem guardForcedAll_eq_map (placeholder : Text) (cs : List Tree) :
    guardForcedAll placeholder cs = cs.map (guardForced placeholder) := by
  induction cs with
  | nil => rfl
  | cons c cs ih => rw [guardForcedAll, ih, List.map_cons]

theorem guardForced_of_not_item (placeholder : Text) (n : Nat) {k : NodeKind} (cs : List Tree)
    (h : k ≠ .item) : guardForced placeholder (.node n k cs) =
      .node n k (guardForcedAll placeholder cs) := by
  cases k <;> first | exact absurd rfl h | rfl

/-!
# Trivia do not count
-/

theorem dropMark_bare {m : Tree} (h : m.isForceTry = true) :
    dropMark (m.outline Token.bare) = (withoutMark m).outline Token.bare := by
  rcases shape_of_isForceTry h with ⟨n, c, mark, operand, rfl⟩
  cases c <;> rfl

theorem isForcedItem_of_traits {t t' : Tree} (hkind : t.isKind .item = t'.isKind .item)
    (h : t.traits = t'.traits) : t.isForcedItem = t'.isForcedItem := by
  rw [isForcedItem, isForcedItem, any_isForceTry_directTries, any_isForceTry_directTries, hkind, h]

end Tree

namespace DoCatch

open ForceTry.Tree

theorem map_bare_trimLast (ts : List Token) :
    (trimLast ts).map Token.bare = ts.map Token.bare := by
  fun_induction trimLast ts with
  | case1 => rfl
  | case2 t => rfl
  | case3 t ts _ ih => rw [List.map_cons, List.map_cons, ih]

theorem map_bare_dress (o : Layout) (ts : List Token) :
    (o.dress ts).map Token.bare = ts.map Token.bare := by
  have htrim := map_bare_trimLast ts
  unfold Layout.dress
  split
  · next h => rw [← htrim, h]
  · next first rest h =>
      rw [← htrim, h, List.map_cons, List.map_cons, List.map_map]
      rfl

theorem bare_wrapped (o : Layout) (content : Tree) :
    (o.wrapped content).bare = guarded o.placeholder content.bare := by
  have hrefill : (content.refill (o.dress content.tokens)).outline Token.bare =
      content.outline Token.bare := by
    apply outline_eq_of_skeleton
    · rw [skeleton_refill]
    · have hlength := length_dress o content.tokens
      rw [tokens_refill _ _ (Nat.le_of_eq hlength.symm), ← hlength, List.take_length,
        map_bare_dress]
  simp only [Layout.wrapped, Layout.braces, guarded, braced, keyword, bare, outline_node,
    outline_leaf, outlineAll, hrefill]
  rfl

end DoCatch

namespace Pass

open ForceTry.DoCatch ForceTry.Tree ForceTry.Grammar

theorem bare_reworked_item {o : Layout} {n : Nat} {content : Tree} {semicolon : List Tree}
    (hblock : content.isKind .block = false) (hleaves : ∀ s ∈ semicolon, s.kind? = none) :
    (reworked o n .item (content :: semicolon)).bare =
      if content.firstForced?.isSome then
        .node 0 .item (guarded o.placeholder (withoutFirstMark content.bare) ::
          outlineAll Token.bare semicolon)
      else .node 0 .item (content.bare :: outlineAll Token.bare semicolon) := by
  have hsearch := firstForced?_isSome withoutMark content
  have hbare : unforce? dropMark content.bare = (unforce? withoutMark content).map bare :=
    unforce?_outline (f := Token.bare) (fun _ => rfl) (fun m hm => dropMark_bare hm) content
  rw [reworked_item o n hblock hleaves, ← hsearch]
  cases hcontent : unforce? withoutMark content with
  | none => rfl
  | some stripped =>
      rw [hcontent, Option.map_some] at hbare
      rw [withoutFirstMark, hbare, Option.getD_some, Option.isSome_some, if_pos rfl]
      show Tree.node 0 .item ((o.wrapped stripped).bare :: _) = _
      rw [bare_wrapped]

theorem bare_rewritten_node (pass : Pass) (n : Nat) {k : NodeKind} {cs : List Tree} (hk : k ≠ .item)
    (h : ∀ c ∈ cs, (pass.rewritten c).bare = guardForced pass.style.placeholder c.bare) :
    (pass.rewritten (.node n k cs)).bare =
      guardForced pass.style.placeholder (Tree.node n k cs).bare := by
  rw [rewritten, reworked_of_not_item _ _ _ hk, bare, bare, outline_node, outline_node,
    guardForced_of_not_item _ _ _ hk, rewrittenAll_eq_map, guardForcedAll_eq_map,
    outlineAll_eq_map, outlineAll_eq_map, List.map_map, List.map_map]
  congr 1
  exact List.map_congr_left h

theorem bare_rewritten (pass : Pass) (t : Tree) (h : Formed t) :
    (pass.rewritten t).bare = guardForced pass.style.placeholder t.bare := by
  induction t using Tree.induction with
  | leaf l => rfl
  | node n k cs ih =>
      have hcases := formed_cases h
      by_cases hk : k = .item
      · subst hk
        rcases item_of_formed h with ⟨content, semicolon, rfl, hblock, hitem, hleaves⟩
        have hcontent := (hcases.2 content (List.mem_cons_self ..)).1
        have hforced : (Tree.node 0 .item (content.bare :: outlineAll Token.bare semicolon)).isForcedItem =
            (pass.rewritten content).firstForced?.isSome := by
          rw [← firstForced?_isSome withoutMark, ← isForcedItem_eq pass h hblock hleaves]
          exact isForcedItem_of_traits rfl (@traits_outline Token.bare (fun _ => rfl)
            (.node n .item (content :: semicolon)))
        rw [rewritten, rewrittenAll, rewrittenAll_leaves pass hleaves, bare_reworked_item (by rw [isKind_rewritten, hblock])
          hleaves, ih content (List.mem_cons_self ..) hcontent, ← hforced]
        show _ = guardForced _ (Tree.node 0 .item (content.bare :: outlineAll Token.bare semicolon))
        rw [guardForced]
        rfl
      · exact bare_rewritten_node pass n hk fun c hc => ih c hc (hcases.2 c hc).1

theorem bare_rewritten_file (pass : Pass) {t : Tree} (h : FormsFile t) :
    (pass.rewritten t).bare = guardForced pass.style.placeholder t.bare := by
  rcases file_of_formsFile h with ⟨_, n, cs, rfl, hformed⟩
  exact bare_rewritten_node pass n (by decide) fun c hc => bare_rewritten pass c (hformed c hc)

end Pass
end ForceTry

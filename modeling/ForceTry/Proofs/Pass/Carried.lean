import ForceTry.Proofs.Pass.Measure
import ForceTry.Proofs.Rule.Reread

/-!
# What a pass does to tokens

A pass takes the marks of some statements and puts tokens around these statements.  What is to be shown
of the tokens in front of a pass and behind it can be shown of these two steps, of tokens that stay and of
tokens in a row.  By induction on the tree it holds of the whole file.
-/

namespace ForceTry

open ForceTry.Tree ForceTry.DoCatch ForceTry.Grammar

namespace Pass

theorem forcedTry_of_formed {n : Nat} {cs : List Tree} (h : Formed (.node n .tryExpression cs))
    (hforced : (Tree.node n .tryExpression cs).isForceTry = true) :
    ∃ keyword mark operand, cs = [.leaf keyword, .leaf mark, operand] ∧
      keyword.token.isKeyword "try" = true ∧ mark.token.kind = .exclamationMark := by
  rcases try_of_formed h with ⟨keyword, m, parts, hkeyword, rfl | ⟨mark, rfl⟩⟩
  · cases hforced
  · exact ⟨keyword, mark, _, rfl, hkeyword, by simpa [isForceTry, tryMark?] using hforced⟩

theorem isForcedItem_of_not_item (n : Nat) {k : NodeKind} (cs : List Tree) (hk : k ≠ .item) :
    (Tree.node n k cs).isForcedItem = false := by
  rw [isForcedItem, isKind_node]
  simp [hk]

/-- The tokens of a `try` behind the pass, without its mark. -/
def unmarked (pass : Pass) (keyword mark : Token) (operand : Tree) : List Token :=
  { keyword with trailing := trailingOfTry keyword mark (pass.rewritten operand) } ::
    (pass.rewritten operand).tokens

/-- The relation `R extra wrapped ts us` of the tokens `ts` of a tree and the tokens `us` that come out for
them holds of what a pass does to the file.  Of the statements, `wrapped` are wrapped, and `extra` more
marks are gone. -/
structure Carries (pass : Pass) (file : Tree) (R : Nat → Nat → List Token → List Token → Prop) : Prop where
  nil : R 0 0 [] []
  leaf : ∀ t, R 0 0 [t] [t]
  append : ∀ {e e' n n' : Nat} {ts ts' us us' : List Token}, R e n ts us → R e' n' ts' us' →
    R (e + e') (n + n') (ts ++ ts') (us ++ us')
  unmark : ∀ {k n : Nat} {keyword mark : Leaf} {operand : Tree},
    Tree.node k .tryExpression [.leaf keyword, .leaf mark, operand] ∈ file.nodes →
    keyword.token.isKeyword "try" = true → mark.token.kind = .exclamationMark →
    R 0 n operand.tokens (pass.rewritten operand).tokens →
    R 1 n (keyword.token :: mark.token :: operand.tokens)
      (pass.unmarked keyword.token mark.token operand)
  wrap : ∀ {n : Nat} {ts us : List Token} (t : Tree), R 1 n ts us →
    R 0 (n + 1) ts ((pass.layout t).wrappedTokens us)

variable {pass : Pass} {file : Tree} {R : Nat → Nat → List Token → List Token → Prop}

/-- The relation holds of a tree and its result, and of the result without its first mark. -/
def CarriesTree (pass : Pass) (R : Nat → Nat → List Token → List Token → Prop) (t : Tree) : Prop :=
  R 0 (forcedItemsOf [t]) t.tokens (pass.rewritten t).tokens ∧
    (t.isKind .item = false → t.isKind .block = false → ∀ stripped,
      unforce? withoutMark (pass.rewritten t) = some stripped →
        R 1 (forcedItemsOf [t]) t.tokens stripped.tokens)

namespace Carries

theorem rewrittenAll (h : pass.Carries file R) {ts : List Tree} (hts : ∀ t ∈ ts, pass.CarriesTree R t) :
    R 0 (forcedItemsOf ts) (tokensOf ts) (tokensOf (pass.rewrittenAll ts)) := by
  induction ts with
  | nil => exact h.nil
  | cons t ts ih =>
      have hhead := (hts t (List.mem_cons_self ..)).1
      have htail := ih fun u hu => hts u (List.mem_cons_of_mem t hu)
      rw [Pass.rewrittenAll, tokensOf_cons, tokensOf_cons, forcedItemsOf_cons]
      exact h.append hhead htail

theorem unforceAll (h : pass.Carries file R) {ts : List Tree} (hts : ∀ t ∈ ts, pass.CarriesTree R t)
    (hitem : ∀ t ∈ ts, t.isKind .item = false) {stripped : List Tree}
    (hstripped : unforceAll? withoutMark (pass.rewrittenAll ts) = some stripped) :
    R 1 (forcedItemsOf ts) (tokensOf ts) (tokensOf stripped) := by
  induction ts generalizing stripped with
  | nil => cases hstripped
  | cons t ts ih =>
      have hhead := hts t (List.mem_cons_self ..)
      have htail := fun u (hu : u ∈ ts) => hts u (List.mem_cons_of_mem t hu)
      rw [Pass.rewrittenAll] at hstripped
      rw [tokensOf_cons, forcedItemsOf_cons]
      rcases unforceAll?_cons hstripped with ⟨u, rfl, hblock, hu⟩ | ⟨us, rfl, hus⟩
      · rw [isKind_rewritten] at hblock
        rw [tokensOf_cons]
        exact h.append (hhead.2 (hitem t (List.mem_cons_self ..)) hblock u hu) (h.rewrittenAll htail)
      · have hrest := h.append hhead.1
          (ih htail (fun u hu => hitem u (List.mem_cons_of_mem t hu)) hus)
        rw [tokensOf_cons]
        rwa [Nat.zero_add] at hrest

theorem node {e n m : Nat} {k : NodeKind} {cs us : List Tree}
    (hforced : (Tree.node n k cs).isForcedItem = false)
    (h : R e (forcedItemsOf cs) (tokensOf cs) (tokensOf us)) :
    R e (forcedItemsOf [.node n k cs]) (Tree.node n k cs).tokens (Tree.node m k us).tokens := by
  rw [forcedItemsOf_node, hforced, tokens_node, tokens_node]
  exact h

theorem tryExpression (h : pass.Carries file R) {n : Nat} {cs : List Tree}
    (hmem : Tree.node n .tryExpression cs ∈ file.nodes)
    (hformed : Formed (.node n .tryExpression cs))
    (hforced : (Tree.node n .tryExpression cs).isForceTry = true)
    (hcs : ∀ c ∈ cs, pass.CarriesTree R c) :
    R 1 (forcedItemsOf [.node n .tryExpression cs]) (Tree.node n .tryExpression cs).tokens
      (withoutMark (.node n .tryExpression (pass.rewrittenAll cs))).tokens := by
  rcases forcedTry_of_formed hformed hforced with ⟨keyword, mark, operand, rfl, hkeyword, hmark⟩
  have hall := h.unmark hmem hkeyword hmark (hcs operand (by simp)).1
  have hcount : forcedItemsOf [.node n .tryExpression [.leaf keyword, .leaf mark, operand]] =
      forcedItemsOf [operand] := by
    simp [forcedItemsOf, nodes, isForcedItem, isKind, kind?]
  have hold : (Tree.node n .tryExpression [.leaf keyword, .leaf mark, operand]).tokens =
      keyword.token :: mark.token :: operand.tokens := by
    simp
  have hnew : (withoutMark (.node n .tryExpression
      (pass.rewrittenAll [.leaf keyword, .leaf mark, operand]))).tokens =
        pass.unmarked keyword.token mark.token operand := by
    simp [Pass.rewrittenAll, rewritten, withoutMark, unmarked]
  rw [hcount, hold, hnew]
  exact hall

theorem item (h : pass.Carries file R) {n : Nat} {cs : List Tree} (hformed : Formed (.node n .item cs))
    (hcs : ∀ c ∈ cs, pass.CarriesTree R c) :
    R 0 (forcedItemsOf [.node n .item cs]) (Tree.node n .item cs).tokens
      (pass.rewritten (.node n .item cs)).tokens := by
  rcases item_of_formed hformed with ⟨content, semicolon, rfl, hblock, hitem, hleaves⟩
  have hforced := isForcedItem_eq pass hformed hblock hleaves
  have hcontent := hcs content (List.mem_cons_self ..)
  have hsemicolon := h.rewrittenAll fun s hs => hcs s (List.mem_cons_of_mem _ hs)
  rw [rewrittenAll_leaves pass hleaves] at hsemicolon
  rw [rewritten, Pass.rewrittenAll, rewrittenAll_leaves pass hleaves,
    reworked_item _ n (by rw [isKind_rewritten, hblock]) hleaves]
  cases hstripped : unforce? withoutMark (pass.rewritten content) with
  | none =>
      rw [hstripped] at hforced
      apply node hforced
      rw [forcedItemsOf_cons, tokensOf_cons, tokensOf_cons]
      exact h.append hcontent.1 hsemicolon
  | some stripped =>
      have hwrapped := h.wrap (.node n .item (content :: semicolon))
        (hcontent.2 hitem hblock stripped hstripped)
      have hall := h.append hwrapped hsemicolon
      have hcount : forcedItemsOf [.node n .item (content :: semicolon)] =
          forcedItemsOf [content] + 1 + forcedItemsOf semicolon := by
        rw [forcedItemsOf_node, hforced, hstripped, forcedItemsOf_cons, Nat.add_right_comm]
        rfl
      show R 0 _ _ (Layout.wrappedItem _ stripped semicolon).tokens
      rw [hcount, Layout.wrappedItem, tokens_node, tokens_node, tokensOf_cons, tokensOf_cons,
        tokens_wrapped]
      exact hall

theorem of_formed (h : pass.Carries file R) (t : Tree) (hformed : Formed t)
    (hnodes : ∀ m ∈ t.nodes, m ∈ file.nodes) : pass.CarriesTree R t := by
  -- By induction on a tree of the grammar that stands in the file, where items, forced `try` nodes
  -- and all other nodes have their own laws.
  induction t using Tree.induction with
  | leaf l =>
      constructor
      · exact h.leaf l.token
      · intro _ _ stripped hstripped
        cases hstripped
  | node n k cs ih =>
      have hcases := formed_cases hformed
      have hcs : ∀ c ∈ cs, pass.CarriesTree R c := by
        intro c hc
        apply ih c hc (hcases.2 c hc).1
        intro m hm
        apply hnodes
        rw [nodes, nodesOf_eq_flatMap]
        exact List.mem_cons_of_mem _ (List.mem_flatMap.mpr ⟨c, hc, hm⟩)
      by_cases hk : k = .item
      · subst hk
        constructor
        · exact h.item hformed hcs
        · intro hitem
          cases hitem
      · have hforced := isForcedItem_of_not_item n cs hk
        rw [CarriesTree, rewritten_of_not_item pass n cs hk]
        constructor
        · exact node hforced (h.rewrittenAll hcs)
        · intro _ hblock stripped hstripped
          have hnotBlock : k ≠ .block := by simpa [isKind_node] using hblock
          rcases unforce?_cases hstripped with ⟨rfl, htry, rfl⟩ | ⟨us, rfl, hus⟩
          · exact h.tryExpression (hnodes _ (List.mem_cons_self ..)) hformed htry hcs
          · exact node hforced (h.unforceAll hcs (fun c hc => (hcases.2 c hc).2 hnotBlock) hus)

theorem of_formsFile (h : pass.Carries file R) (hfile : FormsFile file) :
    ∃ ts us ending, file.tokens = ts ++ [ending] ∧
      (pass.rewritten file).tokens = us ++ [ending] ∧ ending.kind = .endOfFile ∧
      R 0 (forcedItemsOf [file]) ts us := by
  rcases items_of_formsFile hfile with ⟨n, items, ending, hroot, hending, hformed⟩
  have hitems : ∀ c ∈ items, pass.CarriesTree R c := by
    intro c hc
    apply h.of_formed c (hformed c hc).1
    intro m hm
    rw [hroot, nodes, nodesOf_eq_flatMap]
    exact List.mem_cons_of_mem _ (List.mem_flatMap.mpr ⟨c, List.mem_append_left _ hc, hm⟩)
  have hcount : forcedItemsOf [file] = forcedItemsOf items := by
    rw [hroot, forcedItemsOf_node, isForcedItem_of_not_item n _ (by decide)]
    simp [forcedItemsOf, nodesOf_eq_flatMap, nodes]
  refine ⟨tokensOf items, tokensOf (pass.rewrittenAll items), ending.token, ?_, ?_, hending, ?_⟩
  · rw [hroot, tokens_node, tokensOf_append]
    rfl
  · rw [hroot, rewritten_of_not_item pass n _ (by decide), tokens_node, rewrittenAll_append,
      tokensOf_append]
    rfl
  · rw [hcount]
    exact h.rewrittenAll hitems

end Carries

end Pass
end ForceTry

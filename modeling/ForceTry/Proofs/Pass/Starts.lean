import ForceTry.Proofs.Pass.Forms
import ForceTry.Proofs.Pass.Measure

/-!
# How statements start behind a pass

Neither a pass nor the loss of a mark changes how a statement starts.
-/

namespace ForceTry

open ForceTry.Tree ForceTry.DoCatch ForceTry.Grammar

namespace Tree

/-- The first tokens have one text with the same trivia in front of it. -/
def SameStart (ts us : List Token) : Prop :=
  ∃ x y xs ys, ts = x :: xs ∧ us = y :: ys ∧ y.leading = x.leading ∧ y.text = x.text

theorem SameStart.append {ts us : List Token} (h : SameStart ts us) (vs ws : List Token) :
    SameStart (ts ++ vs) (us ++ ws) := by
  rcases h with ⟨x, y, xs, ys, rfl, rfl, hsame⟩
  exact ⟨x, y, xs ++ vs, ys ++ ws, rfl, rfl, hsame⟩

theorem sameStart_of_front {us vs : List Token} (h : SameStart us vs) (ts : List Token) :
    SameStart (ts ++ us) (ts ++ vs) := by
  cases ts with
  | nil => exact h
  | cons x xs => exact ⟨x, x, xs ++ us, xs ++ vs, rfl, rfl, rfl, rfl⟩

theorem sameStart_unforceAll {cs ds : List Tree}
    (h : ∀ c ∈ cs, ∀ c', unforce? withoutMark c = some c' → SameStart c.tokens c'.tokens)
    (hunforce : unforceAll? withoutMark cs = some ds) : SameStart (tokensOf cs) (tokensOf ds) := by
  induction cs generalizing ds with
  | nil => cases hunforce
  | cons c cs ih =>
      rcases unforceAll?_cons hunforce with ⟨c', rfl, _, hc'⟩ | ⟨cs', rfl, hcs'⟩
      · rw [tokensOf_cons, tokensOf_cons]
        exact (h c (List.mem_cons_self ..) c' hc').append _ _
      · rw [tokensOf_cons, tokensOf_cons]
        exact sameStart_of_front (ih (fun d hd => h d (List.mem_cons_of_mem c hd)) hcs') _

theorem sameStart_unforce (t : Tree) :
    ∀ t', unforce? withoutMark t = some t' → SameStart t.tokens t'.tokens := by
  induction t using Tree.induction with
  | leaf l =>
      intro t' h
      cases h
  | node m k cs ih =>
      intro t' h
      rw [unforce?] at h
      split at h
      · next hforced =>
          cases h
          rcases shape_of_isForceTry hforced with ⟨m', c, mark, operand, heq⟩
          rw [heq]
          cases c with
          | leaf keyword => exact ⟨keyword.token, _, _, _, rfl, rfl, rfl, rfl⟩
          | node m'' k' ds =>
              have hmark : SameStart (tokensOf [.leaf mark, operand]) (tokensOf [.leaf mark, operand]) :=
                ⟨mark.token, mark.token, _, _, rfl, rfl, rfl, rfl⟩
              rw [withoutMark, tokens_node, tokensOf_cons]
              · exact sameStart_of_front hmark _
              · intro m' keyword mark' operand' heq
                cases heq
      · rcases Option.map_eq_some_iff.mp h with ⟨ds, hds, rfl⟩
        rw [tokens_node, tokens_node]
        exact sameStart_unforceAll ih hds

end Tree

namespace Pass

theorem head?_rewritten (pass : Pass) (t : Tree) (h : Formed t) (hitem : t.isKind .item = false) :
    (pass.rewritten t).tokens.head? = t.tokens.head? := by
  induction t using Tree.induction with
  | leaf l => rfl
  | node m k cs ih =>
      have hk : k ≠ .item := by
        rw [isKind_node] at hitem
        simpa using hitem
      rw [rewritten_of_not_item pass m cs hk, tokens_node, tokens_node]
      by_cases hblock : k = .block
      · subst hblock
        rcases (formsBraces_iff cs).mp (braces_of_formed h) with ⟨left, items, right, rfl, _⟩
        rfl
      · have hcs : ∀ c ∈ cs, (pass.rewritten c).tokens.head? = c.tokens.head? := by
          intro c hc
          have hformed := (formed_cases h).2 c hc
          exact ih c hc hformed.1 (hformed.2 hblock)
        clear ih h hitem
        induction cs with
        | nil => rfl
        | cons c cs ihcs =>
            rw [rewrittenAll, tokensOf_cons, tokensOf_cons, List.head?_append, List.head?_append,
              hcs c (List.mem_cons_self ..), ihcs fun d hd => hcs d (List.mem_cons_of_mem c hd)]

end Pass
end ForceTry

import ForceTry.Proofs.Grammar.Alike
import ForceTry.Proofs.Grammar.WellFormed
import ForceTry.Proofs.Tree.Labels

/-!
# The tree of a source

A source that has a tree gives each of its tokens one leaf, in order, and the tree follows the
grammar.
-/

namespace ForceTry
namespace Tree

open Grammar

/-!
# New labels for nodes
-/

mutual

theorem leaves_renumber (t : Tree) (n : Nat) : ((renumber t).run n).1.leaves = t.leaves := by
  cases t with
  | leaf l => rfl
  | node m k cs => exact leavesOf_renumberAll cs (n + 1)
termination_by structural t

theorem leavesOf_renumberAll (cs : List Tree) (n : Nat) :
    leavesOf ((renumberAll cs).run n).1 = leavesOf cs := by
  cases cs with
  | nil => rfl
  | cons c cs =>
      show ((renumber c).run n).1.leaves ++
        leavesOf ((renumberAll cs).run ((renumber c).run n).2).1 = c.leaves ++ leavesOf cs
      rw [leaves_renumber c n, leavesOf_renumberAll cs]
termination_by structural cs

end

mutual

theorem alike_renumber (t : Tree) (n : Nat) (previous : Option Token) :
    Alike previous previous t ((renumber t).run n).1 := by
  cases t with
  | leaf l => exact ⟨rfl, rfl⟩
  | node m k cs => exact ⟨rfl, alikeAll_renumberAll cs (n + 1) previous⟩
termination_by structural t

theorem alikeAll_renumberAll (cs : List Tree) (n : Nat) (previous : Option Token) :
    AlikeAll previous previous cs ((renumberAll cs).run n).1 := by
  cases cs with
  | nil => trivial
  | cons c cs =>
      have hlast : lastOf previous [((renumber c).run n).1] = lastOf previous [c] := by
        rw [lastOf, lastOf, leavesOf_cons, leavesOf_cons, leaves_renumber]
      refine ⟨alike_renumber c n previous, ?_⟩
      show AlikeAll _ (lastOf previous [((renumber c).run n).1]) cs _
      rw [hlast]
      exact alikeAll_renumberAll cs _ _
termination_by structural cs

end

mutual

theorem count_renumber (t : Tree) (n : Nat) :
    n ≤ ((renumber t).run n).2 ∧ ∀ x, ((renumber t).run n).1.labels.count x =
      (t.leaves.map Leaf.label).count x + handedOut n ((renumber t).run n).2 x := by
  cases t with
  | leaf l =>
      refine ⟨Nat.le_refl n, ?_⟩
      intro x
      show List.count x [l.label] = List.count x [l.label] + handedOut n n x
      rw [handedOut_self]
      rfl
  | node m k cs =>
      have hcs := count_renumberAll cs (n + 1)
      have hle : n ≤ ((renumberAll cs).run (n + 1)).2 := Nat.le_of_succ_le hcs.1
      refine ⟨hle, ?_⟩
      intro x
      have hx := hcs.2 x
      have hadd := handedOut_add (Nat.le_succ n) hcs.1 x
      rw [Nat.succ_eq_add_one, handedOut_succ] at hadd
      show List.count x (n :: labelsOf ((renumberAll cs).run (n + 1)).1) =
        List.count x ((leavesOf cs).map Leaf.label) +
          handedOut n ((renumberAll cs).run (n + 1)).2 x
      rw [List.count_cons]
      omega
termination_by structural t

theorem count_renumberAll (cs : List Tree) (n : Nat) :
    n ≤ ((renumberAll cs).run n).2 ∧ ∀ x, (labelsOf ((renumberAll cs).run n).1).count x =
      ((leavesOf cs).map Leaf.label).count x + handedOut n ((renumberAll cs).run n).2 x := by
  cases cs with
  | nil =>
      refine ⟨Nat.le_refl n, ?_⟩
      intro x
      show 0 = 0 + handedOut n n x
      rw [handedOut_self]
  | cons c cs =>
      have hc := count_renumber c n
      have hcs := count_renumberAll cs ((renumber c).run n).2
      refine ⟨Nat.le_trans hc.1 hcs.1, ?_⟩
      intro x
      have hx := hc.2 x
      have hxs := hcs.2 x
      have hadd := handedOut_add hc.1 hcs.1 x
      show List.count x (((renumber c).run n).1.labels ++
        labelsOf ((renumberAll cs).run ((renumber c).run n).2).1) = _ +
          handedOut n ((renumberAll cs).run ((renumber c).run n).2).2 x
      rw [leavesOf_cons, List.map_append, List.count_append, List.count_append]
      omega
termination_by structural cs

end

/-!
# Leaves and tokens
-/

theorem token_toLeaves (first : Nat) (ts : List Token) :
    (Tokens.toLeaves first ts).map Leaf.token = ts := by
  simp [Tokens.toLeaves, Function.comp_def]

theorem tokens_of_toLeaves {first : Nat} {ts : List Token} {t : Tree}
    (h : t.leaves = Tokens.toLeaves first ts) : t.tokens = ts := by
  rw [tokens, h, token_toLeaves]

theorem label_toLeaves (first : Nat) (ts : List Token) :
    (Tokens.toLeaves first ts).map Leaf.label = List.range' first ts.length := by
  simp [Tokens.toLeaves, Function.comp_def]

theorem nodup_label_toLeaves (first : Nat) (ts : List Token) :
    ((Tokens.toLeaves first ts).map Leaf.label).Nodup := by
  rw [label_toLeaves]
  exact List.nodup_range'

/-- What a source with a tree gives: its tokens, each as a leaf of the tree, the grammar, and labels
that stand apart. -/
theorem ofTextFrom_forms {first next : Nat} {source : Text} {t : Tree}
    (h : ofTextFrom first source = .ok (t, next)) :
    ∃ ts, Tokens.ofText source = .ok ts ∧ t.leaves = Tokens.toLeaves first ts.toList ∧
      FormsFile t ∧ t.Neat next := by
  unfold ofTextFrom at h
  split at h
  · cases h
  next ts hts =>
  have hordinary := Tokens.ordinary_of_lexes ((Tokens.ofText_eq_ok_iff source ts).mp hts)
  refine ⟨ts, hts, ?_⟩
  simp only at h
  split at h
  · cases h
  next parsed hparse =>
  rw [← token_toLeaves first ts.body] at hordinary
  have hforms := Parser.parse_forms rfl hordinary hparse
  have hleaves : parsed.leaves = Tokens.toLeaves first ts.toList := by
    rw [hforms.2]
    simp [Tokens.toLeaves, Tokens.toList, List.zipIdx_append]
  injection h with h
  have ht : t = ((renumber parsed).run (first + ts.body.length + 1)).1 := by rw [h]
  have hnext : next = ((renumber parsed).run (first + ts.body.length + 1)).2 := by rw [h]
  refine ⟨?_, ?_, ?_⟩
  · rw [ht, leaves_renumber, hleaves]
  · rw [ht]
    exact formsFile_of_alike (alike_renumber parsed _ none) hforms.1
  · intro x
    have hcount := count_renumber parsed (first + ts.body.length + 1)
    have hlength : ts.toList.length = ts.body.length + 1 := by simp [Tokens.toList]
    have hadd := handedOut_add (Nat.le_add_right first (ts.body.length + 1)) hcount.1 x
    rw [← Nat.add_assoc] at hadd
    rw [ht, hcount.2 x, hleaves, label_toLeaves, hlength, ← handedOut_eq_count, ← Nat.add_assoc,
      hadd, ← hnext]
    unfold handedOut
    split <;> split <;> omega

theorem code_of_ofTextFrom {first next : Nat} {source : Text} {t : Tree}
    (h : ofTextFrom first source = .ok (t, next)) : t.code = source := by
  rcases ofTextFrom_forms h with ⟨ts, hts, hleaves, -, -⟩
  rw [code, tokens_of_toLeaves hleaves]
  exact Tokens.code_of_ofText hts

theorem ofTextFrom_of_ofText {source : Text} {t : Tree} (h : ofText source = .ok t) :
    ∃ next, ofTextFrom 0 source = .ok (t, next) := by
  unfold ofText at h
  cases hfrom : ofTextFrom 0 source with
  | error e =>
      rw [hfrom] at h
      cases h
  | ok result =>
      rcases result with ⟨t', next⟩
      rw [hfrom] at h
      injection h with h
      subst h
      exact ⟨next, rfl⟩

theorem ofText_forms {source : Text} {t : Tree} (h : ofText source = .ok t) :
    ∃ ts next, Tokens.ofText source = .ok ts ∧ t.leaves = Tokens.toLeaves 0 ts.toList ∧
      FormsFile t ∧ t.Neat next := by
  rcases ofTextFrom_of_ofText h with ⟨next, hfrom⟩
  rcases ofTextFrom_forms hfrom with ⟨ts, hall⟩
  exact ⟨ts, next, hall⟩

/-- The tree of a source holds every token once and in order, and it is well formed. -/
theorem ofText_holds_tokens {source : Text} {t : Tree} (h : ofText source = .ok t) :
    (∃ ts, Tokens.ofText source = .ok ts ∧ t.tokens = ts.toList ∧
      t.leaves.map Leaf.label = List.range ts.toList.length) ∧
      t.code = source ∧ t.WellFormed := by
  unfold ofText at h
  cases hfrom : ofTextFrom 0 source with
  | error e =>
      rw [hfrom] at h
      cases h
  | ok result =>
      rcases result with ⟨t', next⟩
      rw [hfrom] at h
      injection h with h
      subst h
      rcases ofTextFrom_forms hfrom with ⟨ts, hts, hleaves, hforms, _⟩
      have htokens : t'.tokens = ts.toList := by
        rw [tokens, hleaves, token_toLeaves]
      refine ⟨⟨ts, hts, htokens, ?_⟩, ?_, wellFormed_of_formsFile hforms⟩
      · rw [hleaves, label_toLeaves, List.range_eq_range']
      · rw [code, htokens]
        exact Tokens.code_of_ofText hts

theorem ofText_holds_tokens_closure :
    ∃ t, ofText (Text.ofString "let x = try! f { g() }; do { } catch { }\n") = .ok t ∧
      ((∃ ts, Tokens.ofText (Text.ofString "let x = try! f { g() }; do { } catch { }\n") = .ok ts ∧
        t.tokens = ts.toList ∧ t.leaves.map Leaf.label = List.range ts.toList.length) ∧
        t.code = Text.ofString "let x = try! f { g() }; do { } catch { }\n" ∧ t.WellFormed) := by
  have hok : (ofText (Text.ofString "let x = try! f { g() }; do { } catch { }\n")).isOk = true := by
    decide +kernel
  cases h : ofText (Text.ofString "let x = try! f { g() }; do { } catch { }\n") with
  | error e =>
      rw [h] at hok
      cases hok
  | ok t => exact ⟨t, rfl, ofText_holds_tokens h⟩

end Tree
end ForceTry

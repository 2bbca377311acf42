import ForceTry.Proofs.Pass.Carried
import ForceTry.Proofs.Rule.Aligned

/-!
# A pass makes the text longer

From a statement that is wrapped a pass takes one sign.  The old indentation that goes is paid for by the
new one, which is longer, and what is put around the statement is longer than the sign.
-/

namespace ForceTry

open ForceTry.Tree ForceTry.DoCatch ForceTry.Grammar ForceTry.Tokens

theorem Piece.length_code_run (kind : Run) (n : Int) :
    (Piece.code (.run kind n)).length = n.toNat * kind.unit.length := by
  rw [Piece.code, Text.times, List.length_flatten, List.map_replicate, List.sum_replicate, smul_eq_mul]

namespace Trivia

theorem length_code_strip (t base : Trivia) :
    t.code.length ≤ (t.strip base).code.length + base.code.length := by
  fun_induction strip t base with
  | case1 p t base ih =>
      rw [code_cons, code_cons, List.length_append, List.length_append]
      omega
  | case2 t kind n kind' m hshort hne =>
      simp only [Bool.and_eq_true, decide_eq_true_eq] at hshort
      rcases hshort with ⟨⟨-, rfl⟩, -⟩
      have hcount : n.toNat ≤ (n - m).toNat + m.toNat := by omega
      have hrun : (Piece.code (.run kind n)).length ≤
          (Piece.code (.run kind (n - m))).length + (Piece.code (.run kind m)).length := by
        rw [Piece.length_code_run, Piece.length_code_run, Piece.length_code_run, ← Nat.add_mul]
        exact Nat.mul_le_mul_right _ hcount
      rw [code_cons, code_cons, code_cons, code_nil, List.length_append, List.length_append,
        List.append_nil]
      omega
  | case3 => exact Nat.le_add_right _ _
  | case4 => exact Nat.le_add_right _ _
  | case5 => exact Nat.le_add_right _ _

theorem length_code_shift {base indentation : Trivia}
    (h : base.code.length ≤ indentation.code.length) (t : Trivia) :
    t.code.length ≤ (t.shift base indentation).code.length := by
  fun_induction shift t base indentation with
  | case1 => exact Nat.le_refl _
  | case2 p t hp ih =>
      have hstrip := length_code_strip t base
      rw [List.cons_append, code_cons, code_cons, code_append, List.length_append, List.length_append,
        List.length_append]
      omega
  | case3 p t hp ih =>
      rw [code_cons, code_cons, List.length_append, List.length_append]
      omega

end Trivia

theorem IndentUnit.length_code_addedTo (u : IndentUnit) (base : Trivia) :
    base.code.length ≤ (u.addedTo base).code.length := by
  have happend : ∀ t : Trivia, base.code.length ≤ (base ++ t).code.length := by
    intro t
    rw [Trivia.code_append, List.length_append]
    exact Nat.le_add_right _ _
  unfold addedTo
  split
  · next kind count hlast =>
      split
      · have hbase : base = base.dropLast ++ [.run kind count] :=
          (List.dropLast_append_getLast? _ hlast).symm
        have hcount : count.toNat ≤ (count + u.width).toNat := by omega
        have hrun : (Piece.code (.run kind count)).length ≤
            (Piece.code (.run kind (count + u.width))).length := by
          rw [Piece.length_code_run, Piece.length_code_run]
          exact Nat.mul_le_mul_right _ hcount
        have hcode := congrArg (fun t => (Trivia.code t).length) hbase
        simp only [Trivia.code_append, Trivia.code_cons, List.length_append] at hcode ⊢
        omega
      · exact happend _
  · exact happend _

namespace DoCatch

theorem length_code_shift (o : Layout) (t : Token) :
    t.code.length ≤ (t.shift o.base o.deeper).code.length := by
  have hdeeper : o.base.code.length ≤ o.deeper.code.length := o.unit.length_code_addedTo o.base
  have hleading := Trivia.length_code_shift hdeeper t.leading
  have htrailing := Trivia.length_code_shift hdeeper t.trailing
  simp only [Token.code, Token.shift, List.length_append]
  omega

theorem length_codeOf_shift (o : Layout) (ts : List Token) :
    (codeOf ts).length ≤ (codeOf (ts.map (Token.shift o.base o.deeper))).length := by
  induction ts with
  | nil => exact Nat.le_refl _
  | cons t ts ih =>
      have ht := length_code_shift o t
      rw [List.map_cons, codeOf_cons, codeOf_cons, List.length_append, List.length_append]
      omega

theorem length_code_split (o : Layout) (t : Token) :
    t.leading.code.length ≤ (o.split t).1.code.length + (o.split t).2.code.length := by
  have hparts := congrArg (fun t => (Trivia.code t).length)
    (Trivia.throughLastNewline_append_afterLastNewline t.leading)
  rw [Layout.split, splitLeading]
  split
  · have hstrip := Trivia.length_code_strip t.leading.afterLastNewline o.base
    simp only [Trivia.code_append, List.length_append] at hparts ⊢
    omega
  · exact Nat.le_add_right _ _

/-- A statement in the body, with what goes in front of `do` and behind the last brace. -/
theorem length_codeOf_dress (o : Layout) (ts : List Token) :
    (codeOf ts).length ≤
      (o.doLeading ts).code.length + (codeOf (o.dress ts)).length + (blanksBehind ts).code.length := by
  rw [← codeOf_trimLast ts, List.length_append, Layout.doLeading, Layout.dress]
  cases trimLast ts with
  | nil => exact Nat.add_le_add_right (Nat.zero_le _) _
  | cons first rest =>
      have hsplit := length_code_split o first
      have hshift := length_codeOf_shift o ({ first with leading := (o.split first).2 } :: rest)
      show (codeOf (first :: rest)).length + _ ≤ (o.split first).1.code.length +
        (codeOf (o.dressFirst first :: rest.map (Token.shift o.base o.deeper))).length + _
      rw [codeOf_dressed, List.length_append]
      simp only [codeOf_cons, Token.code, List.length_append] at hshift ⊢
      omega

theorem length_codeOf_wrappedTokens (o : Layout) (ts : List Token) :
    (codeOf ts).length + 2 ≤ (codeOf (o.wrappedTokens ts)).length := by
  have hdress := length_codeOf_dress o ts
  have hword : (Text.ofString "do \x7b").length = 4 := rfl
  rw [Layout.wrappedTokens, codeOf_append, codeOf_append, codeOf_opening, codeOf_closing]
  simp only [List.length_append, List.length_cons, hword]
  omega

theorem length_trailingOfTry (keyword mark : Token) (operand : Tree) :
    keyword.trailing.code.length + mark.leading.code.length + mark.trailing.code.length ≤
      (trailingOfTry keyword mark operand).code.length := by
  have happend : (keyword.trailing ++ mark.leading ++ mark.trailing).code.length =
      keyword.trailing.code.length + mark.leading.code.length + mark.trailing.code.length := by
    rw [Trivia.code_append, Trivia.code_append, List.length_append, List.length_append]
  rw [← happend, trailingOfTry]
  split
  · next hempty =>
      rw [Bool.and_eq_true, List.isEmpty_iff] at hempty
      rw [hempty.1]
      exact Nat.zero_le _
  · exact Nat.le_refl _

end DoCatch

namespace Pass

/-- Behind a pass the text of a file is longer by at least one character for each statement that is
wrapped, where a mark is one character. -/
theorem length_rewritten (pass : Pass) {file : Tree} (hfile : FormsFile file)
    (hmarks : ∀ x ∈ file.tokens, x.kind = .exclamationMark → x.text.length = 1) :
    file.code.length + forcedItemsOf [file] ≤ (pass.rewritten file).code.length := by
  have hcarries : pass.Carries file fun extra wrapped ts us =>
      (∀ x ∈ ts, x.kind = .exclamationMark → x.text.length = 1) →
        (codeOf ts).length + wrapped ≤ (codeOf us).length + extra := by
    constructor
    · exact fun _ => Nat.le_refl _
    · exact fun t _ => Nat.le_refl _
    · intro e e' n n' ts ts' us us' hts hts' hall
      rw [List.forall_mem_append] at hall
      have hleft := hts hall.1
      have hright := hts' hall.2
      rw [codeOf_append, codeOf_append, List.length_append, List.length_append]
      omega
    · intro k n keyword mark operand _ _ hmark hoperand hall
      rw [List.forall_mem_cons, List.forall_mem_cons] at hall
      have hsign := hall.2.1 hmark
      have hrest := hoperand hall.2.2
      have htrailing := length_trailingOfTry keyword.token mark.token (pass.rewritten operand)
      simp only [unmarked, codeOf_cons, Token.code, List.length_append]
      omega
    · intro n ts us t hts hall
      have hwrapped := length_codeOf_wrappedTokens (pass.layout t) us
      have hinner := hts hall
      omega
  rcases hcarries.of_formsFile hfile with ⟨ts, us, ending, hold, hnew, -, hcarried⟩
  rw [hold, List.forall_mem_append] at hmarks
  have hlength := hcarried hmarks.1
  have holdCode : file.code = codeOf (ts ++ [ending]) := congrArg codeOf hold
  have hnewCode : (pass.rewritten file).code = codeOf (us ++ [ending]) := congrArg codeOf hnew
  rw [holdCode, hnewCode, codeOf_append, codeOf_append, List.length_append, List.length_append]
  omega

end Pass
end ForceTry

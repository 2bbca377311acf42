import ForceTry.Proofs.Pass.Script
import ForceTry.Proofs.Refactor.Agreement

/-!
# Comments of a refactored source

Refactoring deletes one mark for every application and adds the tokens of `do` and `catch` around the
statement.  All other tokens and all comments stay in their order.
-/

namespace ForceTry

namespace Tree

/-- The comments of a tree in source order. -/
def comments (t : Tree) : List Text := t.tokens.flatMap Token.comments

theorem comments_eq_lexemes (t : Tree) : t.comments = t.lexemes.filterMap Lexeme.comment? := by
  have hmap : ∀ cs : List Text, (cs.map Lexeme.comment).filterMap Lexeme.comment? = cs := by
    intro cs
    induction cs with
    | nil => rfl
    | cons c cs ih => exact congrArg (c :: ·) ih
  have htoken : ∀ token : Token,
      token.lexemes.filterMap Lexeme.comment? = token.comments := by
    intro token
    rw [Token.lexemes, List.filterMap_append, List.filterMap_cons, hmap, hmap]
    rfl
  rw [comments, lexemes, List.filterMap_flatMap]
  congr 1
  funext token
  exact (htoken token).symm

end Tree

namespace Refactor

open ForceTry.DoCatch ForceTry.Tree ForceTry.Grammar

/-- Refactoring the tree of a source leads to its result by a script with one mark less and one
wrapped statement more for every application.  No comment is lost, doubled, edited or moved past a
token that stays. -/
theorem tree_script {codecs : Codecs} {s : Settings} (hs : s.InRange codecs)
    {first next : Nat} {source : Text} {t : Tree}
    (h : ofTextFrom first source = .ok (t, next)) (debug : Bool) :
    ∃ report metadata changes, tree rule s t debug next = .ok (report, metadata) ∧
      Script s.style.placeholder report.applied report.applied t.lexemes report.tree.lexemes
        changes ∧
      report.tree.comments = t.comments := by
  rcases ofTextFrom_forms h with ⟨_, _, _, hforms, _⟩
  rcases tree_rewritten hs h debug with
    ⟨pass, unitName, report, _, hstyle, htree, hplain, happlied, _⟩
  rcases Pass.script_of_formsFile pass hforms with ⟨changes, hscript⟩
  have hcount : forcedItemsOf [t] = report.applied := by
    rw [happlied, forcedItemsOf, nodesOf_cons, nodesOf_nil, List.append_nil]
  have hlexemes : report.tree.lexemes = (pass.rewritten t).lexemes := by
    rw [lexemes, lexemes, ((plain_eq_iff _ _).mp hplain).2]
  rw [hcount, hstyle, ← hlexemes] at hscript
  refine ⟨report, _, changes, htree, hscript, ?_⟩
  rw [comments_eq_lexemes, comments_eq_lexemes, hscript.comments]

theorem tree_script_comments :
    ∃ t next report metadata changes,
      ofTextFrom 0 (Text.ofString "/*a*/ f(try/*b*/! /*c*/g { try! h() } /*d*/) // e\n") =
        .ok (t, next) ∧
      tree rule Settings.standard t false next = .ok (report, metadata) ∧
      Script Settings.standard.style.placeholder report.applied report.applied t.lexemes
        report.tree.lexemes changes ∧
      report.tree.comments = t.comments := by
  have hok : (ofTextFrom 0
      (Text.ofString "/*a*/ f(try/*b*/! /*c*/g { try! h() } /*d*/) // e\n")).isOk = true := by
    decide +kernel
  cases h : ofTextFrom 0
      (Text.ofString "/*a*/ f(try/*b*/! /*c*/g { try! h() } /*d*/) // e\n") with
  | error e =>
      rw [h] at hok
      cases hok
  | ok result =>
      rcases result with ⟨t, next⟩
      rcases tree_script Settings.standard_inRange h false with ⟨report, metadata, changes, hall⟩
      exact ⟨t, next, report, metadata, changes, rfl, hall⟩

end Refactor
end ForceTry

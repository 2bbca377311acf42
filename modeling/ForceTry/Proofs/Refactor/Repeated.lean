import ForceTry.Proofs.Pass.Measure
import ForceTry.Proofs.Refactor.Agreement

/-!
# Refactoring again and again

The rule can be applied to its own result.  Every application leaves a tree that follows the grammar
and whose labels stand apart, so the next one succeeds as well, and each lowers the largest number of
forced `try` nodes of an item by one until there is none left.  From then on the tree stays the same.
-/

namespace ForceTry
namespace Refactor

open ForceTry.DoCatch ForceTry.Tree ForceTry.Grammar

/-- The tree after the rule was applied `count` times, each time to what it made before, and the next
unused label. -/
def repeated (s : Settings) (debug : Bool) : Nat → Tree → Nat → Except Fault (Tree × Nat)
  | 0, t, next => .ok (t, next)
  | count + 1, t, next => do
      let (t', next') ← repeated s debug count t next
      let (report, _) ← tree rule s t' debug next'
      .ok (report.tree, report.next)

/-- One application to a tree that follows the grammar, and what holds of its result. -/
structure Applied (t : Tree) (report : Pass.Report) : Prop where
  forms : FormsFile report.tree
  neat : report.tree.Neat report.next
  tries : report.tree.forcedTries + report.applied = t.forcedTries
  most : report.tree.mostForced = t.mostForced - 1
  pos : 0 < report.applied ↔ 0 < t.mostForced
  same : t.mostForced = 0 → report.tree = t

theorem applied_of_run {pass : Pass} (hrule : pass.rule = rule) {next : Nat}
    (hforms : FormsFile pass.root) (hneat : pass.root.Neat next) :
    ∃ report, pass.run next = .ok report ∧ Applied pass.root report := by
  rcases Pass.run_renewed hrule hforms hneat with
    ⟨report, hrun, hrenewed, hplain, happlied, _⟩
  have hlowered := Pass.lowered_of_file pass hforms
  have hforced := forced_of_plain hplain
  refine ⟨report, hrun, ?_⟩
  constructor
  · exact formsFile_of_plain hplain.symm (Pass.formsFile_rewritten pass hforms)
  · exact hneat.grow hrenewed.le hrenewed.count
  · rw [hforced.1, happlied]
    exact hlowered.tries
  · rw [hforced.2]
    exact hlowered.most
  · rw [happlied]
    exact forcedItemsOf_pos pass.root
  · intro hzero
    have hnone : forcedItemsOf [pass.root] = 0 := by
      have hpos := forcedItemsOf_pos pass.root
      omega
    rcases @Pass.run_same pass hrule next hnone with ⟨k, hsame⟩
    rw [hrun] at hsame
    cases hsame
    rfl

theorem tree_applied {codecs : Codecs} {s : Settings} (hs : s.InRange codecs)
    {t : Tree} {next : Nat} (hforms : FormsFile t)
    (hneat : t.Neat next) (debug : Bool) :
    ∃ report unitName, tree rule s t debug next = .ok (report, report.metadata rule unitName) ∧
      Applied t report := by
  rcases tree_of_inRange hs t debug next with ⟨pass, unitName, hrule, rfl, _, _, htree⟩
  rcases applied_of_run hrule hforms hneat with ⟨report, hrun, happlied⟩
  exact ⟨report, unitName, htree report hrun, happlied⟩

theorem repeated_forms {codecs : Codecs} {s : Settings} (hs : s.InRange codecs) {t : Tree} {next : Nat}
    (hforms : FormsFile t) (hneat : t.Neat next) (debug : Bool) (count : Nat) :
    ∃ t' next', repeated s debug count t next = .ok (t', next') ∧ FormsFile t' ∧ t'.Neat next' ∧
      t'.mostForced = t.mostForced - count := by
  induction count with
  | zero => exact ⟨t, next, rfl, hforms, hneat, rfl⟩
  | succ count ih =>
      rcases ih with ⟨t', next', hrepeated, hforms', hneat', hmost⟩
      rcases tree_applied hs hforms' hneat' debug with ⟨report, unitName, htree, happlied⟩
      refine ⟨report.tree, report.next, ?_, happlied.forms, happlied.neat, ?_⟩
      · rw [repeated, hrepeated]
        show (tree rule s t' debug next' >>= fun result => _) = _
        rw [htree]
        rfl
      · rw [happlied.most, hmost]
        exact Nat.sub_sub _ _ _

/-- Applied again and again to the tree of a source, the rule always succeeds.  Each time the number
of forced `try` nodes falls by the number of applications, and something is applied as often as the
item with the most forced `try` nodes has them.  Exactly then no forced `try` is left, and from then
on the tree that comes out is the tree that went in. -/
theorem repeated_settles {codecs : Codecs} {s : Settings} (hs : s.InRange codecs)
    {first next : Nat} {source : Text} {t : Tree}
    (h : ofTextFrom first source = .ok (t, next)) (debug : Bool) (count : Nat) :
    ∃ t' next' report unitName, repeated s debug count t next = .ok (t', next') ∧
      tree rule s t' debug next' = .ok (report, report.metadata rule unitName) ∧
      report.tree.forcedTries + report.applied = t'.forcedTries ∧
      (0 < report.applied ↔ count < t.mostForced) ∧
      (t'.forcedTries = 0 ↔ t.mostForced ≤ count) ∧
      (t.mostForced ≤ count → report.tree = t' ∧ report.applied = 0) := by
  rcases ofTextFrom_forms h with ⟨_, _, _, hforms, hneat⟩
  rcases repeated_forms hs hforms hneat debug count with
    ⟨t', next', hrepeated, hforms', hneat', hmost⟩
  rcases tree_applied hs hforms' hneat' debug with ⟨report, unitName, htree, happlied⟩
  have hpos := happlied.pos
  refine ⟨t', next', report, unitName, hrepeated, htree, happlied.tries, ?_, ?_, ?_⟩
  · rw [hpos, hmost]
    exact Nat.sub_pos_iff_lt
  · rw [forcedTries_eq_zero_iff hforms', hmost]
    exact Nat.sub_eq_zero_iff_le
  · intro hle
    have hzero : t'.mostForced = 0 := by
      rw [hmost]
      exact Nat.sub_eq_zero_of_le hle
    exact ⟨happlied.same hzero, by omega⟩

theorem repeated_settles_nested :
    ∃ t next t' next' report unitName,
      ofTextFrom 0 (Text.ofString "f(try! a(), try! b { try! c() })\n") = .ok (t, next) ∧
      repeated Settings.standard false 1 t next = .ok (t', next') ∧
      tree rule Settings.standard t' false next' = .ok (report, report.metadata rule unitName) ∧
      report.tree.forcedTries + report.applied = t'.forcedTries ∧
      (0 < report.applied ↔ 1 < t.mostForced) ∧
      (t'.forcedTries = 0 ↔ t.mostForced ≤ 1) ∧
      (t.mostForced ≤ 1 → report.tree = t' ∧ report.applied = 0) := by
  have hok : (ofTextFrom 0 (Text.ofString "f(try! a(), try! b { try! c() })\n")).isOk = true := by
    decide +kernel
  cases h : ofTextFrom 0 (Text.ofString "f(try! a(), try! b { try! c() })\n") with
  | error e =>
      rw [h] at hok
      cases hok
  | ok result =>
      rcases result with ⟨t, next⟩
      rcases repeated_settles Settings.standard_inRange h false 1 with
        ⟨t', next', report, unitName, hall⟩
      exact ⟨t, next, t', next', report, unitName, rfl, hall⟩

end Refactor
end ForceTry

import ForceTry.Refactor
import ForceTry.Proofs.Pass.Reference
import ForceTry.Proofs.Settings.Range
import ForceTry.Proofs.Tree.Parsed

/-!
# Refactoring the tree of a source

With settings in range, the rule goes through the tree of any source without a fault.  What it makes
of the tree is `Pass.rewritten`, which without trivia is `Tree.guardForced`.
-/

namespace ForceTry
namespace Refactor

open ForceTry.DoCatch ForceTry.Tree ForceTry.Grammar

/-- Refactoring with settings that can be written out is a pass, with the unit that the tree shows or
else that of the settings. -/
theorem tree_of_writes {s : Settings} {f : Settings.Fallback} (hf : s.fallback = .ok f) (t : Tree)
    (hwrites : s.writes t.inferUnit? = true) (debug : Bool) (next : Nat) :
    ∃ (pass : Pass) (unitName : Text), pass.rule = rule ∧ pass.root = t ∧
      pass.unit = t.inferUnit?.getD f.unit ∧ pass.style = s.style ∧
      Pass.ofStyle rule t s.style debug = .ok (pass, unitName) ∧
      ∀ report, pass.run next = .ok report →
        tree rule s t debug next = .ok (report, report.metadata rule unitName) := by
  have hunit : ∃ unitName,
      s.style.unitFor (some t) = .ok (t.inferUnit?.getD f.unit, unitName) := by
    have hinfer : (some t).bind inferUnit? = t.inferUnit? := rfl
    rw [Style.unitFor, Settings.style, hf, hinfer]
    cases t.inferUnit? with
    | some u => exact ⟨_, rfl⟩
    | none => exact ⟨_, rfl⟩
  rcases hunit with ⟨unitName, hunit⟩
  have hstyle : Pass.ofStyle rule t s.style debug =
      .ok (⟨rule, t, t.inferUnit?.getD f.unit, s.style, debug⟩, unitName) := by
    rw [Pass.ofStyle, hunit]
    rfl
  refine ⟨⟨rule, t, t.inferUnit?.getD f.unit, s.style, debug⟩, unitName, rfl, rfl, rfl, rfl, hstyle, ?_⟩
  intro report hrun
  have happly : applyRule rule t s.style debug next =
      .ok (report, report.metadata rule unitName) := by
    rw [applyRule, hstyle]
    show (Pass.run ⟨rule, t, _, s.style, debug⟩ next >>= fun r => _) = _
    rw [hrun]
    rfl
  have hwritten : written rule s t.inferUnit? report = .ok report := by
    rw [written, hwrites, Bool.not_true, Bool.and_false]
    rfl
  rw [tree, happly]
  show (written rule s t.inferUnit? report >>= fun r => _) = _
  rw [hwritten]
  rfl

theorem writes_of_fallback {s : Settings} {f : Settings.Fallback} {placeholder : Text}
    (hf : s.fallback = .ok f) (hwritable : f.writable = true)
    (hplaceholder : s.placeholder = .text placeholder) (known : Option IndentUnit) :
    s.writes known = true := by
  rw [Settings.writes, hplaceholder, hf]
  cases known with
  | some u => rfl
  | none => exact hwritable

/-- With such settings the rule goes through the tree of any source, and its result without trivia is the
reference. -/
theorem tree_of_fallback {s : Settings} {f : Settings.Fallback} {placeholder : Text}
    (hf : s.fallback = .ok f) (hwritable : f.writable = true)
    (hplaceholder : s.placeholder = .text placeholder) {first next : Nat} {source : Text} {t : Tree}
    (h : ofTextFrom first source = .ok (t, next)) (debug : Bool) :
    ∃ (pass : Pass) (unitName : Text) (report : Pass.Report), pass.rule = rule ∧ pass.root = t ∧
      pass.unit = t.inferUnit?.getD f.unit ∧ pass.style.placeholder = placeholder ∧
      pass.run next = .ok report ∧
      tree rule s t debug next = .ok (report, report.metadata rule unitName) ∧
      report.tree.tokens = (pass.rewritten t).tokens ∧
      report.tree.bare = guardForced placeholder t.bare ∧
      report.applied = t.nodes.countP isForcedItem := by
  rcases ofTextFrom_forms h with ⟨_, _, _, hforms, hneat⟩
  rcases tree_of_writes hf t (writes_of_fallback hf hwritable hplaceholder _) debug next with
    ⟨pass, unitName, hrule, rfl, hunit, hstyle, _, htree⟩
  rcases Pass.run_result hrule hforms hneat with ⟨report, hrun, hplain, happlied, _⟩
  have hpassPlaceholder : pass.style.placeholder = placeholder := by
    rw [hstyle, Settings.style, hplaceholder]
  refine ⟨pass, unitName, report, hrule, rfl, hunit, hpassPlaceholder, hrun, htree report hrun, ?_, ?_, ?_⟩
  · exact ((plain_eq_iff _ _).mp hplain).2
  · rw [bare_eq_of_plain hplain, Pass.bare_rewritten_file pass hforms, hpassPlaceholder]
  · rw [happlied, forcedItemsOf, nodesOf_cons, nodesOf_nil, List.append_nil]

theorem tree_of_inRange {codecs : Codecs} {s : Settings} (hs : s.InRange codecs)
    (t : Tree) (debug : Bool) (next : Nat) :
    ∃ (pass : Pass) (unitName : Text), pass.rule = rule ∧ pass.root = t ∧ pass.style = s.style ∧
      Pass.ofStyle rule t s.style debug = .ok (pass, unitName) ∧
      ∀ report, pass.run next = .ok report →
        tree rule s t debug next = .ok (report, report.metadata rule unitName) := by
  rcases Settings.fallback_of_inRange hs with ⟨f, hf, _⟩
  rcases tree_of_writes hf t (Settings.writes_of_inRange hs _) debug next with
    ⟨pass, unitName, hrule, hroot, _, hall⟩
  exact ⟨pass, unitName, hrule, hroot, hall⟩

theorem tree_rewritten {codecs : Codecs} {s : Settings} (hs : s.InRange codecs)
    {first next : Nat} {source : Text} {t : Tree}
    (h : ofTextFrom first source = .ok (t, next)) (debug : Bool) :
    ∃ (pass : Pass) (unitName : Text) (report : Pass.Report), pass.root = t ∧ pass.style = s.style ∧
      tree rule s t debug next = .ok (report, report.metadata rule unitName) ∧
      report.tree.plain = (pass.rewritten t).plain ∧
      report.applied = t.nodes.countP isForcedItem ∧
      report.skipped = (t.nodes.map passedOver).sum ∧ report.errors = [] := by
  rcases ofTextFrom_forms h with ⟨_, _, _, hforms, hneat⟩
  rcases tree_of_inRange hs t debug next with ⟨pass, unitName, hrule, hroot, hstyle, _, htree⟩
  rcases Pass.run_result hrule (hroot ▸ hforms) (hroot ▸ hneat) with
    ⟨report, hrun, hplain, happlied, hskipped, herrors⟩
  rw [hroot] at hplain happlied hskipped
  refine ⟨pass, unitName, report, hroot, hstyle, htree report hrun, hplain, ?_, ?_, herrors⟩
  · rw [happlied, forcedItemsOf, nodesOf_cons, nodesOf_nil, List.append_nil]
  · rw [hskipped, passedOverOf, nodesOf_cons, nodesOf_nil, List.append_nil]

/-- Refactoring the tree of a source always succeeds.  Without trivia its result is the reference,
and it reports one application for every item with a forced `try` of its own and one skipped `try`
for every one in front of the first forced one of its item. -/
theorem tree_agrees {codecs : Codecs} {s : Settings} (hs : s.InRange codecs)
    {first next : Nat} {source : Text} {t : Tree}
    (h : ofTextFrom first source = .ok (t, next)) (debug : Bool) :
    ∃ report metadata unitName, tree rule s t debug next = .ok (report, metadata) ∧
      report.tree.bare = guardForced s.style.placeholder t.bare ∧
      metadata =
        [("rule".toList, .text DoCatch.name),
         ("applied".toList, .int (t.nodes.countP isForcedItem : Nat)),
         ("skipped".toList, .int ((t.nodes.map passedOver).sum : Nat)),
         ("errors".toList, .list []),
         ("indentation_unit".toList, .text unitName)] := by
  rcases ofTextFrom_forms h with ⟨_, _, _, hforms, _⟩
  rcases tree_rewritten hs h debug with
    ⟨pass, unitName, report, hroot, hstyle, htree, hplain, happlied, hskipped, herrors⟩
  refine ⟨report, _, unitName, htree, ?_, ?_⟩
  · rw [bare_eq_of_plain hplain, Pass.bare_rewritten_file pass hforms, hstyle]
  · rw [Pass.Report.metadata, happlied, hskipped, herrors]
    rfl

theorem tree_agrees_closure :
    ∃ t next report metadata unitName,
      ofTextFrom 0 (Text.ofString "let x = try? a() ?? try! f { try! g() }; h()\n") = .ok (t, next) ∧
      tree rule Settings.standard t false next = .ok (report, metadata) ∧
      report.tree.bare = guardForced Settings.standard.style.placeholder t.bare ∧
      metadata =
        [("rule".toList, .text DoCatch.name),
         ("applied".toList, .int (t.nodes.countP isForcedItem : Nat)),
         ("skipped".toList, .int ((t.nodes.map passedOver).sum : Nat)),
         ("errors".toList, .list []),
         ("indentation_unit".toList, .text unitName)] := by
  have hok : (ofTextFrom 0
      (Text.ofString "let x = try? a() ?? try! f { try! g() }; h()\n")).isOk = true := by
    decide +kernel
  cases h : ofTextFrom 0 (Text.ofString "let x = try? a() ?? try! f { try! g() }; h()\n") with
  | error e =>
      rw [h] at hok
      cases hok
  | ok result =>
      rcases result with ⟨t, next⟩
      rcases tree_agrees Settings.standard_inRange h false with
        ⟨report, metadata, unitName, hall⟩
      exact ⟨t, next, report, metadata, unitName, rfl, hall⟩

end Refactor
end ForceTry

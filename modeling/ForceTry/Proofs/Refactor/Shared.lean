import ForceTry.Proofs.Pass.Length
import ForceTry.Proofs.Pass.Shared
import ForceTry.Proofs.Refactor.Candidates
import ForceTry.Proofs.Token.Mark

/-!
# Refactoring shares what it leaves alone

Elements are the same when they have the same label.  Refactoring gives back the same tree when nothing is
applied and a longer text when something is, and no item is made anew without need.
-/

namespace ForceTry
namespace Refactor

open ForceTry.DoCatch ForceTry.Tree ForceTry.Grammar

theorem length_of_mark {source : Text} {ts : Tokens} (h : Tokens.ofText source = .ok ts) :
    ∀ x ∈ ts.toList, x.kind = .exclamationMark → x.text.length = 1 := by
  intro x hx hkind
  rcases List.append_of_mem hx with ⟨before, after, hts⟩
  have hsign : x.kind.sign? = some '!' := by
    rw [hkind]
    rfl
  rw [((Tokens.sign_of_ofText h hts '!').mp hsign).2.1]
  rfl

theorem source_eq_iff {s : Settings} {source : Text} {t : Tree} {next : Nat}
    (h : ofTextFrom 0 source = .ok (t, next)) (file : Text) {debug : Bool} {report : Pass.Report}
    {metadata : Details} (htree : tree rule s t debug next = .ok (report, metadata)) :
    (∃ m, Refactor.source .standard s DoCatch.name file source debug = .ok (.success source m)) ↔
      report.tree.code = source := by
  rw [Refactor.source, prepare_standard file h]
  simp only [htree, bind, Except.bind]
  constructor
  · rintro ⟨m, hrun⟩
    split at hrun
    · split at hrun
      · cases hrun
        rfl
      · cases hrun
    · cases hrun
      rfl
  · intro hcode
    refine ⟨metadata.put "source".toList (.text file), ?_⟩
    rw [hcode]
    simp

/-- Refactoring applies the rule once for every item with a forced `try` of its own, and gives back the
same tree exactly when nothing is applied.  Otherwise the text is longer than the source, so a run reports
the unchanged source exactly when nothing is applied.  An item without forced `try` nodes that lies in no
wrapped statement is in the result, the same as before. -/
theorem tree_shared {s : Settings} {f : Settings.Fallback} {placeholder source : Text} {next : Nat}
    {t : Tree} (hf : s.fallback = .ok f) (hwritable : f.writable = true)
    (hplaceholder : s.placeholder = .text placeholder) (h : ofTextFrom 0 source = .ok (t, next))
    (file : Text) (debug : Bool) :
    ∃ report metadata, tree rule s t debug next = .ok (report, metadata) ∧
      report.applied = t.nodes.countP isForcedItem ∧
      (report.tree = t ↔ report.applied = 0) ∧ (report.tree.label = t.label ↔ report.applied = 0) ∧
      (0 < report.applied → source.length < report.tree.code.length) ∧
      ((∃ m, Refactor.source .standard s DoCatch.name file source debug = .ok (.success source m)) ↔
        report.applied = 0) ∧
      ∀ m, t.Untouched m → m ∈ report.tree.nodes := by
  rcases ofTextFrom_forms h with ⟨ts, hts, hleaves, hforms, hneat⟩
  rcases tree_of_fallback hf hwritable hplaceholder h debug with
    ⟨pass, unitName, report, hrule, rfl, -, -, hrun, hreport, hnew, -, happlied⟩
  have hsource := code_of_ofTextFrom h
  have hcount : report.applied = forcedItemsOf [pass.root] := by
    rw [happlied, forcedItemsOf, nodesOf_cons, nodesOf_nil, List.append_nil]
  have hlength : source.length + report.applied ≤ report.tree.code.length := by
    have hmarks : ∀ x ∈ pass.root.tokens, x.kind = .exclamationMark → x.text.length = 1 := by
      rw [tokens_of_toLeaves hleaves]
      exact length_of_mark hts
    have hcode : report.tree.code = (pass.rewritten pass.root).code := by
      rw [Tree.code, hnew, Tree.code]
    rw [← hsource, hcount, hcode]
    exact pass.length_rewritten hforms hmarks
  have hsame : report.applied = 0 → report.tree = pass.root := by
    intro hzero
    rw [hcount] at hzero
    rcases @Pass.run_same pass hrule next hzero with ⟨k, hrun'⟩
    rw [hrun] at hrun'
    cases hrun'
    rfl
  have hcode : report.tree.code = source → report.applied = 0 := by
    intro hcode
    rw [hcode] at hlength
    omega
  have hlabel : report.tree.label = pass.root.label → report.tree = pass.root := by
    intro hlabel
    rcases Pass.run_renewed hrule hforms hneat with ⟨report', hrun', hrenewed, -⟩
    rw [hrun] at hrun'
    cases hrun'
    have hlt := hneat.lt _ (label_mem_labels pass.root)
    exact hrenewed.new.resolve_right (by omega)
  refine ⟨report, _, hreport, happlied, ⟨?_, hsame⟩, ⟨?_, ?_⟩, ?_, ?_, ?_⟩
  · intro htree
    exact hcode (htree ▸ hsource)
  · intro htree
    exact hcode ((hlabel htree).symm ▸ hsource)
  · exact fun hzero => congrArg Tree.label (hsame hzero)
  · omega
  · rw [source_eq_iff h file hreport]
    constructor
    · exact hcode
    · exact fun hzero => (hsame hzero).symm ▸ hsource
  · exact fun m hm => Pass.mem_nodes_of_run hrule hforms hneat hrun hm

/-- A source with a statement that is wrapped, one in it, and one next to it. -/
def sharedSource : Text :=
  Text.ofString "func f() \x7b\n  g()\n  try! h \x7b a() \x7d\n\x7d\n"

theorem tree_shared_neighbour :
    ∃ t next report metadata m, ofTextFrom 0 sharedSource = .ok (t, next) ∧
      tree rule Settings.standard t false next = .ok (report, metadata) ∧
      report.applied = 1 ∧ sharedSource.length < report.tree.code.length ∧
      m.code = Text.ofString "\n  g()" ∧ t.Untouched m ∧ m ∈ report.tree.nodes := by
  have hcheck : ((ofTextFrom 0 sharedSource).toOption.any fun r =>
      ((tree rule Settings.standard r.1 false r.2).toOption.any fun x => x.1.applied == 1) &&
        r.1.nodes.any fun m => m.code == Text.ofString "\n  g()" && m.isKind .item &&
          m.forcedTries == 0 &&
          r.1.nodes.all fun r => !r.isForcedItem || !r.labels.contains m.label) = true := by
    decide +kernel
  rcases (Option.any_eq_true ..).mp hcheck with ⟨⟨t, next⟩, ht, hall⟩
  rw [Bool.and_eq_true] at hall
  rcases (Option.any_eq_true ..).mp hall.1 with ⟨⟨report, metadata⟩, hreport, happlied⟩
  rcases List.any_eq_true.mp hall.2 with ⟨m, hm, hchecks⟩
  simp only [Bool.and_eq_true, beq_iff_eq, List.all_eq_true] at hchecks happlied
  rcases hchecks with ⟨⟨⟨hcode, hitem⟩, hfree⟩, houtside⟩
  have huntouched : t.Untouched m := by
    refine ⟨hm, hitem, hfree, ?_⟩
    intro r hr hforced hmem
    have hcount := labels_of_mem_nodes r m hmem m.label
    have hlabel : m.label ∈ r.labels :=
      List.count_pos_iff.mp ((List.count_pos_iff.mpr (label_mem_labels m)).trans_le hcount)
    simpa [hforced, hlabel] using houtside r hr
  have hf : Settings.standard.fallback = .ok ⟨.spaces 2, Text.ofString "2 spaces", true⟩ := rfl
  have hplaceholder : Settings.standard.placeholder = .text Token.defaultPlaceholder := rfl
  rcases tree_shared hf rfl hplaceholder (eq_ok_of_toOption ht) [] false with
    ⟨report', metadata', hreport', -, -, -, hlonger, -, hshared⟩
  rw [eq_ok_of_toOption hreport] at hreport'
  cases hreport'
  exact ⟨t, next, report, metadata, m, eq_ok_of_toOption ht, eq_ok_of_toOption hreport, happlied,
    hlonger (by omega), hcode, huntouched, hshared m huntouched⟩

end Refactor
end ForceTry

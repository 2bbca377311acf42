import ForceTry.Proofs.Pass.Aligned
import ForceTry.Proofs.Refactor.Agreement

/-!
# Refactoring keeps lines aligned

When the lines of a source are indented by multiples of some number of spaces, so are the lines of what
refactoring makes of it.
-/

namespace ForceTry
namespace Refactor

open ForceTry.DoCatch ForceTry.Tree ForceTry.Grammar ForceTry.Text

/-- With a unit of a multiple of `n` spaces, refactoring an aligned source without tabs and carriage
returns, in which every mark that forces a `try` stands directly behind it, gives an aligned text.  The
unit that an aligned source shows always is such a multiple, so only that of the settings is asked for. -/
theorem tree_aligned {n : Nat} {s : Settings} {f : Settings.Fallback} {placeholder source : Text}
    {first next : Nat} {t : Tree} (h : ofTextFrom first source = .ok (t, next))
    (htabs : '\t' ∉ source) (hreturns : '\r' ∉ source) (hmarks : t.BareMarks)
    (hplaceholder : s.placeholder = .text ('<' :: placeholder)) (hline : '\n' ∉ placeholder)
    (hf : s.fallback = .ok f)
    (hunit : t.inferUnit? = none → f.writable = true ∧ ∃ w, f.unit = .spaces w ∧ n ∣ w)
    (haligned : Aligned n source) (debug : Bool) :
    ∃ report metadata, tree rule s t debug next = .ok (report, metadata) ∧
      Aligned n report.tree.code := by
  rcases ofTextFrom_forms h with ⟨ts, hts, hleaves, hforms, hneat⟩
  have hlines := alignedLines_of_ofTextFrom h htabs hreturns haligned
  have hwrites : s.writes t.inferUnit? = true := by
    rw [Settings.writes, hplaceholder, hf]
    cases hinfer : t.inferUnit? with
    | some u => rfl
    | none => exact (hunit hinfer).1
  rcases tree_of_writes hf t hwrites debug next with
    ⟨pass, unitName, hrule, rfl, hpassUnit, hstyle, _, htree⟩
  rcases Pass.run_result hrule hforms hneat with ⟨report, hrun, hplain, _⟩
  have hpass : pass.Aligned n := by
    refine ⟨hlines, ?_, ⟨placeholder, ?_, hline⟩, hmarks, next, hneat⟩
    · rw [hpassUnit]
      cases hinfer : pass.root.inferUnit? with
      | some u => exact hlines.unit u hinfer
      | none => exact (hunit hinfer).2
    · rw [hstyle, Settings.style, hplaceholder]
  have hsource : pass.root.code = source := by
    rw [Tree.code, tokens, hleaves, token_toLeaves]
    exact Tokens.code_of_ofText hts
  have hcode : report.tree.code = (pass.rewritten pass.root).code := by
    rw [Tree.code, Tree.code, ((plain_eq_iff _ _).mp hplain).2]
  refine ⟨report, _, htree report hrun, ?_⟩
  rw [hcode]
  apply Aligned.of_follows haligned
  rw [← hsource]
  exact Pass.follows_of_formsFile hpass hforms

/-- A source whose lines are indented by multiples of two spaces, with statements in statements and a
comment over several lines. -/
def alignedSource : Text :=
  Text.ofString "func f() \x7b\n    /* a\n      b */ let v = try! load \x7b\n" ++
    Text.ofString "      try!/*c*/ g() // d\n        \x7d\n\n    h(); try! k()\n  \n\x7d\n  "

theorem tree_aligned_nested :
    ∃ t next report metadata, ofTextFrom 0 alignedSource = .ok (t, next) ∧
      tree rule Settings.standard t false next = .ok (report, metadata) ∧
      Aligned 2 alignedSource ∧ Aligned 2 report.tree.code := by
  have hok : ((ofTextFrom 0 alignedSource).toOption.any fun r => r.1.nodes.all markIsBare) = true := by
    decide +kernel
  have haligned : Aligned 2 alignedSource := by
    rw [aligned_iff, ← Option.isSome_iff_exists]
    decide +kernel
  cases h : ofTextFrom 0 alignedSource with
  | error e =>
      rw [h] at hok
      cases hok
  | ok result =>
      rcases result with ⟨t, next⟩
      rw [h] at hok
      have hmarks : t.BareMarks := List.all_eq_true.mp hok
      have hplaceholder : Settings.standard.placeholder = .text ('<' :: "#code#>".toList) := rfl
      have hf : Settings.standard.fallback = .ok ⟨.spaces 2, Text.ofString "2 spaces", true⟩ := rfl
      rcases tree_aligned h (by decide +kernel) (by decide +kernel) hmarks hplaceholder (by decide) hf
        (fun _ => ⟨rfl, 2, rfl, Nat.dvd_refl 2⟩) haligned false with ⟨report, metadata, hreport, hcode⟩
      exact ⟨t, next, report, metadata, rfl, hreport, haligned, hcode⟩

end Refactor
end ForceTry

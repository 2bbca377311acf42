import ForceTry.Proofs.Pass.Tidy
import ForceTry.Proofs.Refactor.Reread

/-!
# Refactoring leaves no blanks at the ends of lines
-/

namespace ForceTry
namespace Refactor

open ForceTry.Text ForceTry.DoCatch ForceTry.Tree ForceTry.Tokens ForceTry.Grammar

/-- Where no line of a source ends in a blank, and every mark that forces a `try` stands directly behind it,
no line of the refactored text ends in a blank, and without trivia its tree is the reference. -/
theorem tree_trimmed {s : Settings} {f : Settings.Fallback} {source : Text} {first next : Nat} {t : Tree}
    (hf : s.fallback = .ok f) (hwritable : f.writable = true)
    (hplaceholder : s.placeholder = .text Token.defaultPlaceholder)
    (h : ofTextFrom first source = .ok (t, next)) (hreturns : '\r' ∉ source) (hmarks : t.BareMarks)
    (htrimmed : Trimmed source) (debug : Bool) :
    ∃ report metadata, tree rule s t debug next = .ok (report, metadata) ∧
      report.tree.bare = guardForced Token.defaultPlaceholder t.bare ∧ Trimmed report.tree.code := by
  rcases ofTextFrom_forms h with ⟨ts, hts, hleaves, hforms, -⟩
  rcases tree_of_fallback hf hwritable hplaceholder h debug with
    ⟨pass, unitName, report, -, rfl, hunit, hpassPlaceholder, -, hreport, hnew, hbare, -⟩
  have hdivide := divide_of_ofText hts
  have htokens : pass.root.tokens = ts.body ++ [⟨.endOfFile, [], ts.ending, []⟩] := by
    rw [tokens_of_toLeaves hleaves, hdivide.ending]
  have hcanonical : ∀ x ∈ pass.root.tokens, x.leading.Canonical := by
    rw [tokens_of_toLeaves hleaves]
    exact fun x hx => (hdivide.canonical x hx).1
  have hlayout : ∀ t, (pass.layout t).Written := by
    apply Pass.layout_written hcanonical hunit (Settings.width_of_fallback hf)
    rw [hpassPlaceholder]
    decide
  have hsolid : Solid pass.style.placeholder := by
    rw [hpassPlaceholder]
    decide
  rw [trimmed_iff] at htrimmed
  rcases tidy_of_lexes ((ofText_eq_ok_iff source ts).mp hts) htrimmed hreturns with
    ⟨htidy, hending, hlast⟩
  rcases Pass.tidied_rewritten hforms hmarks hlayout hsolid with ⟨body, us, ending, hold, hall, htidied⟩
  rw [htokens] at hold
  rcases List.append_inj' hold rfl with ⟨rfl, heq⟩
  have hsame := List.singleton_inj.mp heq
  have hresult := htidied htidy
  refine ⟨report, _, hreport, hbare, ?_⟩
  have hcode : report.tree.code = codeOf us ++ ts.ending.code := by
    show codeOf report.tree.tokens = _
    rw [hnew, hall, codeOf_append, ← hsame]
    simp [codeOf, Token.code]
  rw [hcode, trimmed_iff, List.append_assoc]
  apply flush_codeOf_append hresult.tidy hending
  exact hlast.imp_left hresult.last

/-- A source with a forced `try` in another one, an empty line, comments and a literal over several lines,
and blanks in front of a brace. -/
def trimmedSource : Text :=
  Text.ofString "func f() \x7b try!/*a*/ g() \x7d // b\n\n  let v = try! h(\"\"\"\n    c\n    \"\"\") \x7b" ++
    Text.ofString "\n\n      try! k\n\n    \x7d;\tm()\n  /* d\n\n  e */"

theorem tree_trimmed_nested :
    ∃ t next report metadata, ofTextFrom 0 trimmedSource = .ok (t, next) ∧
      tree rule Settings.standard t false next = .ok (report, metadata) ∧
      report.applied = 3 ∧ Trimmed trimmedSource ∧
      report.tree.bare = guardForced Token.defaultPlaceholder t.bare ∧ Trimmed report.tree.code := by
  have hcheck : ((ofTextFrom 0 trimmedSource).toOption.any fun r =>
      ((tree rule Settings.standard r.1 false r.2).toOption.any fun x => x.1.applied == 3) &&
        r.1.nodes.all markIsBare) = true := by
    decide +kernel
  have htrimmed : Trimmed trimmedSource := by
    decide +kernel
  have hf : Settings.standard.fallback = .ok ⟨.spaces 2, Text.ofString "2 spaces", true⟩ := rfl
  rcases (Option.any_eq_true ..).mp hcheck with ⟨⟨t, next⟩, ht, hall⟩
  rw [Bool.and_eq_true] at hall
  rcases (Option.any_eq_true ..).mp hall.1 with ⟨⟨report, metadata⟩, hreport, happlied⟩
  have hmarks : t.BareMarks := List.all_eq_true.mp hall.2
  rcases tree_trimmed hf rfl rfl (eq_ok_of_toOption ht) (by decide +kernel) hmarks htrimmed false with
    ⟨report', metadata', hreport', hresult⟩
  rw [eq_ok_of_toOption hreport] at hreport'
  cases hreport'
  exact ⟨t, next, report, metadata, eq_ok_of_toOption ht, eq_ok_of_toOption hreport,
    beq_iff_eq.mp happlied, htrimmed, hresult⟩

end Refactor
end ForceTry

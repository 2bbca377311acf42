import ForceTry.Proofs.Refactor.Comments
import ForceTry.Proofs.Token.Mark
import ForceTry.Proofs.Tree.Faults

/-!
# Marks of a source

Which tokens of a source are marks, and that refactoring takes away nothing else.
-/

namespace ForceTry
namespace Refactor

open ForceTry.DoCatch ForceTry.Tree ForceTry.Tokens

/-- The marks of a source are the signs behind a `try` with no trivia in between, and those with a line
break as the first trivia in between.  Refactoring takes away nothing but marks: all other tokens and all
comments are left in their order. -/
theorem tree_marks {source : Text} {ts : Tokens} (h : Tokens.ofText source = .ok ts) :
    (∀ before x after c, ts.toList = before ++ x :: after →
      (x.kind.sign? = some c ↔ (c = '!' ∨ c = '?') ∧ x.text = [c] ∧
        (BehindTry before x [] ∨ BreaksBehindTry before x))) ∧
    ∀ (codecs : Codecs) (s : Settings), s.InRange codecs → ∀ first t next debug,
      ofTextFrom first source = .ok (t, next) →
      ∃ report metadata, tree rule s t debug next = .ok (report, metadata) ∧
        ((lexemesOf ts.toList).filter fun e => !e.isForceMark).Sublist report.tree.lexemes := by
  constructor
  · intro before x after c hts
    exact sign_of_ofText h hts c
  · intro codecs s hs first t next debug ht
    rcases tree_script hs ht debug with ⟨report, metadata, changes, hreport, hscript, -⟩
    rcases ofTextFrom_forms ht with ⟨ts', hts', hleaves, -, -⟩
    have hsame : ts' = ts := by
      rw [h] at hts'
      cases hts'
      rfl
    have hlexemes : t.lexemes = lexemesOf ts.toList := by
      rw [lexemes, tokens_of_toLeaves hleaves, hsame, lexemesOf]
    refine ⟨report, metadata, hreport, ?_⟩
    rw [← hlexemes]
    exact hscript.sublist

/-- Of the two `!` in the source, the first one is a prefix operator and the second one a mark. -/
theorem tree_marks_negation :
    ∃ ts t next report metadata,
      Tokens.ofText (Text.ofString "let x = try !a() && try! b()\n") = .ok ts ∧
      ofTextFrom 0 (Text.ofString "let x = try !a() && try! b()\n") = .ok (t, next) ∧
      tree rule Settings.standard t false next = .ok (report, metadata) ∧
      (∀ before x after c, ts.toList = before ++ x :: after →
        (x.kind.sign? = some c ↔ (c = '!' ∨ c = '?') ∧ x.text = [c] ∧
          (BehindTry before x [] ∨ BreaksBehindTry before x))) ∧
      ((lexemesOf ts.toList).filter fun e => !e.isForceMark).Sublist report.tree.lexemes ∧
      ts.toList.countP (fun x => x.text == ['!']) = 2 ∧
      ts.toList.countP (fun x => x.kind.sign?.isSome) = 1 := by
  have hcheck : ((Tokens.ofText (Text.ofString "let x = try !a() && try! b()\n")).toOption.bind fun ts =>
      (ofTextFrom 0 (Text.ofString "let x = try !a() && try! b()\n")).toOption.map fun _ =>
        (ts.toList.countP (fun x => x.text == ['!']), ts.toList.countP (fun x => x.kind.sign?.isSome))) =
          some (2, 1) := by
    decide +kernel
  rcases Option.bind_eq_some_iff.mp hcheck with ⟨ts, hts, hrest⟩
  rcases Option.map_eq_some_iff.mp hrest with ⟨⟨t, next⟩, ht, hcounts⟩
  have hmarks := tree_marks (eq_ok_of_toOption hts)
  rcases hmarks.2 _ Settings.standard Settings.standard_inRange 0 t next false
    (eq_ok_of_toOption ht) with ⟨report, metadata, hreport, hsublist⟩
  exact ⟨ts, t, next, report, metadata, eq_ok_of_toOption hts, eq_ok_of_toOption ht, hreport,
    hmarks.1, hsublist, (Prod.ext_iff.mp hcounts).1, (Prod.ext_iff.mp hcounts).2⟩

/-- A `!` on the line behind a `try` is read as its mark, although a line break is between the two. -/
theorem not_behindTry_of_mark :
    ∃ ts before x after, Tokens.ofText (Text.ofString "try\n!f()\n") = .ok ts ∧
      ts.toList = before ++ x :: after ∧ x.kind.sign? = some '!' ∧ ¬ BehindTry before x [] := by
  have hcheck : (Tokens.ofText (Text.ofString "try\n!f()\n")).toOption.map
      (fun ts => ts.toList.take 2) = some [⟨.keyword, "try".toList, [], []⟩,
        ⟨.exclamationMark, ['!'], [.run .newlines 1], []⟩] := by
    decide +kernel
  rcases Option.map_eq_some_iff.mp hcheck with ⟨ts, hts, htake⟩
  have hsplit := List.take_append_drop 2 ts.toList
  rw [htake] at hsplit
  refine ⟨ts, [⟨.keyword, "try".toList, [], []⟩], _, ts.toList.drop 2, eq_ok_of_toOption hts,
    hsplit.symm, rfl, ?_⟩
  rintro ⟨keyword, hkeyword, -, hgap⟩
  cases hkeyword
  cases hgap

end Refactor
end ForceTry

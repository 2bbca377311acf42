import ForceTry.Proofs.Pass.Forms
import ForceTry.Proofs.Pass.Reread
import ForceTry.Proofs.Refactor.Candidates

/-!
# A refactored source reads back

The text that refactoring gives is read as the tree that it was made of, up to trivia, unless a `try`
that lost its mark takes the first character of its operand for a new one, or what is put next to a
token of the source can be read as a part of it.
-/

namespace ForceTry

open ForceTry.Text ForceTry.Tokens ForceTry.Tree ForceTry.DoCatch ForceTry.Grammar

namespace Settings

theorem width_of_fallback {s : Settings} {f : Settings.Fallback} (h : s.fallback = .ok f) :
    0 < f.unit.width := by
  have hofWidth : ∀ v : Value, Fallback.ofWidth v = .ok f → 0 < f.unit.width := by
    intro v hv
    unfold Fallback.ofWidth at hv
    simp only at hv
    split at hv
    · next n =>
        rw [IndentUnit.ofWidth?] at hv
        split at hv
        · next u hu =>
            split at hu
            · cases hu
            · next hn =>
                cases hu
                cases hv
                show 0 < n.toNat
                omega
        · cases hv
    · cases hv
      exact Nat.one_pos
    · cases hv
    · split at hv
      · cases hv
      · cases hv
        exact Nat.two_pos
    · cases hv
  unfold fallback at h
  split at h
  · split at h
    · cases h
      exact Nat.one_pos
    · exact hofWidth _ h
  · exact hofWidth _ h

end Settings

namespace Trivia

theorem quiet_of_canonical {t : Trivia} (h : t.Canonical)
    (hhead : ∀ p ∈ t.head?, p.isNewline = true) : Quiet t.code := by
  cases t with
  | nil => exact quiet_nil
  | cons p t =>
      rcases h.opening_starts with ⟨v, hv⟩
      have hp := hhead p rfl
      rw [← hv]
      match p with
      | .run .newlines _ => exact quiet_cons rfl _
      | .run .carriageReturnLineFeeds _ => exact quiet_cons rfl _
      | .run .spaces _ => cases hp
      | .run .tabs _ => cases hp
      | .comment _ _ => cases hp

end Trivia

namespace Pass

variable {pass : Pass}

theorem layout_written (hroot : ∀ t ∈ pass.root.tokens, t.leading.Canonical) {u : IndentUnit}
    (hunit : pass.unit = pass.root.inferUnit?.getD u) (hwidth : 0 < u.width)
    (hplaceholder : Token.placeholderLength? pass.style.placeholder =
      some pass.style.placeholder.length) (t : Tree) : (pass.layout t).Written := by
  refine ⟨newlineStyle_eq _, indents_lineIndentation hroot t, ?_, hplaceholder⟩
  show 0 < pass.unit.width
  rw [hunit]
  cases hinfer : pass.root.inferUnit? with
  | some v => exact width_of_inferUnit? hinfer
  | none => exact hwidth

/-- The tokens behind a pass over a source are read from their text, up to trivia. -/
theorem ofText_rewritten (hlayout : ∀ t, (pass.layout t).Written) {source : Text} {ts : Tokens}
    (hts : Tokens.ofText source = .ok ts) (hsteady : Steady ts.body)
    (htokens : pass.root.tokens = ts.toList) (hfile : FormsFile pass.root)
    (hsigns : ∀ m ∈ pass.root.nodes, m.exposesSign = false) :
    ∃ ts', Tokens.ofText (pass.rewritten pass.root).code = .ok ts' ∧
      AlikeList none none (pass.rewritten pass.root).tokens ts'.toList := by
  rcases formsItems_of_formsFile hfile with ⟨n, items, ending, hroot, -, hforms⟩
  have hlexes := (ofText_eq_ok_iff source ts).mp hts
  have hdivide := divide_of_ofText hts
  rw [hroot, tokens_node, tokensOf_append, tokensOf_singleton, hdivide.ending] at htokens
  rcases List.append_inj' htokens rfl with ⟨hbody, hlast⟩
  have hending : ending.token = ⟨.endOfFile, [], ts.ending, []⟩ := List.singleton_inj.mp hlast
  have hread := holds_of_lexes hlexes hsteady (by
    intro p hp
    cases hp)
  rw [← hbody] at hread
  have hquiet : tokensOf items ≠ [] → Quiet ts.ending.code := by
    intro hne
    apply Trivia.quiet_of_canonical (canonical_of_lexes hlexes).2
    rcases List.exists_cons_of_ne_nil (hbody ▸ hne) with ⟨x, xs, hcons⟩
    refine hdivide.leading ⟨.endOfFile, [], ts.ending, []⟩ ?_
    rw [hdivide.ending, hcons]
    exact List.mem_append_right xs (List.mem_singleton_self _)
  have hnodes : ∀ m ∈ nodesOf items, m.exposesSign = false := by
    intro m hm
    apply hsigns
    rw [hroot, nodes, nodesOf_eq_flatMap, List.flatMap_append, ← nodesOf_eq_flatMap]
    exact List.mem_cons_of_mem _ (List.mem_append_left _ hm)
  have hholds := holds_of_items hlayout hforms hnodes hread.1 hread.2 hquiet
  rcases lexes_of_holds (Trivia.scan_code (canonical_of_lexes hlexes).2) hholds (.start _) trivial
    rfl with ⟨body, ending', hnew, halike, hend⟩
  have hrewritten : (pass.rewritten pass.root).tokens =
      tokensOf (pass.rewrittenAll items) ++ [⟨.endOfFile, [], ts.ending, []⟩] := by
    rw [hroot, rewritten_of_not_item pass n _ (by decide), tokens_node, rewrittenAll_append,
      tokensOf_append, ← hending]
    rfl
  have hcode : (pass.rewritten pass.root).code =
      codeOf (tokensOf (pass.rewrittenAll items)) ++ ts.ending.code := by
    rw [Tree.code, hrewritten, List.flatMap_append, codeOf]
    simp [Token.code, Trivia.code_nil]
  refine ⟨⟨body, ending'⟩, ?_, ?_⟩
  · rw [ofText_eq_ok_iff, hcode]
    exact hnew
  · rw [hrewritten]
    exact halike.append ⟨hend, trivial⟩

/-- If the text behind a pass over a source has a tree, it is the tree behind the pass, up to trivia. -/
theorem bare_of_ofText (hlayout : ∀ t, (pass.layout t).Written) {source : Text} {ts : Tokens}
    (hts : Tokens.ofText source = .ok ts) (hsteady : Steady ts.body)
    (htokens : pass.root.tokens = ts.toList) (hfile : FormsFile pass.root)
    (hsigns : ∀ m ∈ pass.root.nodes, m.exposesSign = false) {t : Tree}
    (h : Tree.ofText (pass.rewritten pass.root).code = .ok t) :
    t.bare = (pass.rewritten pass.root).bare := by
  rcases ofText_rewritten hlayout hts hsteady htokens hfile hsigns with ⟨ts', hts', halike⟩
  rcases ofText_forms h with ⟨ts'', _, hts'', hleaves, hforms, _⟩
  rw [hts'] at hts''
  cases hts''
  have htree := tokens_of_toLeaves hleaves
  rw [← htree] at halike
  exact (bare_of_formsFile (formsFile_rewritten pass hfile) hforms halike).symm

end Pass

namespace Refactor

variable {source : Text} {t : Tree} {next : Nat}

/-- A successful run of the standard rule gives the text of the refactored tree, and with output
checked this text has a tree. -/
theorem success_of_source {s : Settings} (hvalidate : s.validateOutput.isTruthy = true) {file : Text}
    {debug : Bool} {code : Text} {metadata : Details}
    (hrun : Refactor.source .standard s DoCatch.name file source debug =
      .ok (.success code metadata))
    (h : ofTextFrom 0 source = .ok (t, next)) :
    ∃ report metadata', tree rule s t debug next = .ok (report, metadata') ∧
      code = report.tree.code ∧ ∃ t', Tree.ofText code = .ok t' := by
  rw [Refactor.source, prepare_standard file h, bind_eq_ok] at hrun
  rcases hrun with ⟨⟨report, metadata'⟩, htree, hrun⟩
  refine ⟨report, metadata', htree, ?_⟩
  dsimp only at hrun
  split at hrun
  · split at hrun
    · next hchecked =>
        cases hrun
        refine ⟨rfl, ?_⟩
        unfold Comments.checkResult at hchecked
        split at hchecked
        · cases hchecked
        · next t' ht' => exact ⟨t', ht'⟩
    · cases hrun
  · next hsame =>
      cases hrun
      have hcode : report.tree.code = source := by simpa [hvalidate] using hsame
      refine ⟨rfl, t, ?_⟩
      rw [hcode, Tree.ofText, h]
      rfl

/-- With output checked and a placeholder that is read as one token, the text that a run gives is read
as the refactored tree, up to trivia, where every statement to which a forced `try` belongs directly is
the body of a `do` with one `catch` around the placeholder.  The source must be steady, and no forced
`try` may have an operand that starts with a sign behind a line break. -/
theorem source_rereads {codecs : Codecs} {s : Settings} (hs : s.InRange codecs)
    (hvalidate : s.validateOutput.isTruthy = true)
    (hplaceholder : Token.placeholderLength? s.style.placeholder = some s.style.placeholder.length)
    {file : Text} {debug : Bool} {code : Text} {metadata : Details}
    (hrun : Refactor.source .standard s DoCatch.name file source debug =
      .ok (.success code metadata))
    {ts : Tokens} (hts : Tokens.ofText source = .ok ts) (hsteady : Steady ts.body)
    (h : ofTextFrom 0 source = .ok (t, next)) (hsigns : ∀ m ∈ t.nodes, m.exposesSign = false) :
    ∃ report metadata' t', tree rule s t debug next = .ok (report, metadata') ∧
      code = report.tree.code ∧ Tree.ofText code = .ok t' ∧ t'.bare = report.tree.bare ∧
      report.tree.bare = guardForced s.style.placeholder t.bare := by
  rcases success_of_source hvalidate hrun h with ⟨report, metadata', htree, hcode, t', ht'⟩
  rcases tree_agrees hs h debug with ⟨report', _, _, htree', hbare, _⟩
  rw [htree] at htree'
  cases htree'
  refine ⟨report, metadata', t', htree, hcode, ht', ?_, hbare⟩
  rcases ofTextFrom_forms h with ⟨ts', hts', hleaves, hforms, hneat⟩
  rw [hts] at hts'
  cases hts'
  rcases Settings.fallback_of_inRange hs with ⟨f, hf, _⟩
  rcases tree_of_writes hf t (Settings.writes_of_inRange hs _) debug next with
    ⟨pass, unitName, hrule, rfl, hunit, hstyle, _, hall⟩
  rcases Pass.run_result hrule hforms hneat with ⟨report', hrun', hplain, _⟩
  have hreport := hall report' hrun'
  rw [htree] at hreport
  cases hreport
  have htokens : pass.root.tokens = ts.toList := by rw [tokens, hleaves, token_toLeaves]
  have hcanonical : ∀ x ∈ pass.root.tokens, x.leading.Canonical := by
    rw [htokens]
    exact fun x hx => ((divide_of_ofText hts).canonical x hx).1
  have hlayout := Pass.layout_written hcanonical hunit (Settings.width_of_fallback hf)
    (by rw [hstyle]; exact hplaceholder)
  rw [hcode, Tree.code, ((plain_eq_iff _ _).mp hplain).2, ← Tree.code] at ht'
  rw [Pass.bare_of_ofText hlayout hts hsteady htokens hforms hsigns ht', bare_eq_of_plain hplain]

/-- Tokens without comments behind them, none of which is a carriage return, a `<` or a name between
backquotes, are steady. -/
theorem steady_of_plain {ts : List Token}
    (h : ∀ t ∈ ts, t.text ≠ ['\r'] ∧ t.text ≠ ['<'] ∧ t.text.head? ≠ some '\x60' ∧
      ∀ p ∈ t.trailing, p.isComment = false) : Steady ts := by
  constructor
  · exact fun t ht => (h t ht).1
  · apply List.Pairwise.isChain
    apply List.pairwise_of_forall_mem_list
    exact fun t ht _ _ hsign => absurd hsign (h t ht).2.1
  · exact fun t ht hname => absurd hname (h t ht).2.2.1
  · intro t ht p hp
    have hcomment := (h t ht).2.2.2 p hp
    cases p with
    | run kind n => trivial
    | comment form text => cases hcomment

theorem eq_success_of_value? {o : Outcome Text} {code : Text} (h : o.value? = some code) :
    ∃ metadata, o = .success code metadata := by
  cases o with
  | success code' metadata =>
      cases h
      exact ⟨metadata, rfl⟩
  | failure fault metadata => cases h
  | skipped fault metadata => cases h

/-- A source with statements in statements, a comment and a mark on a line of its own. -/
def nestedSource : Text :=
  Text.ofString "// a\nfunc f() \x7b\n  let v = try! load \x7b x in\n" ++
    Text.ofString "    try\n      ! g(x) \x7d\n  h(); try! k()\n\x7d\n"

theorem source_rereads_nested :
    ∃ code metadata t next report metadata' t',
      Refactor.source .standard Settings.standard DoCatch.name unnamed nestedSource false =
        .ok (.success code metadata) ∧
      ofTextFrom 0 nestedSource = .ok (t, next) ∧
      tree rule Settings.standard t false next = .ok (report, metadata') ∧
      code = report.tree.code ∧ Tree.ofText code = .ok t' ∧ t'.bare = report.tree.bare ∧
      report.tree.bare = guardForced Settings.standard.style.placeholder t.bare := by
  have hsigns : ((ofTextFrom 0 nestedSource).toOption.any fun r =>
      r.1.nodes.all fun m => !m.exposesSign) = true := by
    decide +kernel
  have htokens : ((Tokens.ofText nestedSource).toOption.any fun ts =>
      decide (∀ t ∈ ts.body, t.text ≠ ['\r'] ∧ t.text ≠ ['<'] ∧ t.text.head? ≠ some '\x60' ∧
        ∀ p ∈ t.trailing, p.isComment = false)) = true := by
    decide +kernel
  have hsuccess : ((Refactor.source .standard Settings.standard DoCatch.name unnamed nestedSource
      false).toOption.bind Outcome.value?).isSome = true := by
    decide +kernel
  rcases Option.isSome_iff_exists.mp hsuccess with ⟨code, hcode⟩
  rcases Option.bind_eq_some_iff.mp hcode with ⟨outcome, hrun, hvalue⟩
  rcases eq_success_of_value? hvalue with ⟨metadata, rfl⟩
  rcases (Option.any_eq_true ..).mp hsigns with ⟨⟨t, next⟩, ht, hall⟩
  rcases (Option.any_eq_true ..).mp htokens with ⟨ts, hts, hplain⟩
  have hexposed : ∀ m ∈ t.nodes, m.exposesSign = false := by simpa using hall
  have hplaceholder : Token.placeholderLength? Settings.standard.style.placeholder =
      some Settings.standard.style.placeholder.length := by
    decide
  rcases source_rereads Settings.standard_inRange rfl hplaceholder (eq_ok_of_toOption hrun)
    (eq_ok_of_toOption hts) (steady_of_plain (of_decide_eq_true hplain)) (eq_ok_of_toOption ht)
    hexposed with ⟨report, metadata', t', hreread⟩
  exact ⟨code, metadata, t, next, report, metadata', t', eq_ok_of_toOption hrun,
    eq_ok_of_toOption ht, hreread⟩

/-- The operand of a forced `try` starts with a `!` on a new line, which is read as a mark when the mark
in front of it is gone. -/
theorem not_rereads_of_exposed_sign :
    ∃ t next report metadata t',
      ofTextFrom 0 (Text.ofString "try!\n!f()\n") = .ok (t, next) ∧
      tree rule Settings.standard t false next = .ok (report, metadata) ∧
      (∃ metadata', Refactor.source .standard Settings.standard DoCatch.name unnamed
        (Text.ofString "try!\n!f()\n") false = .ok (.success report.tree.code metadata')) ∧
      Tree.ofText report.tree.code = .ok t' ∧ t'.bare ≠ report.tree.bare := by
  have hcheck : ((ofTextFrom 0 (Text.ofString "try!\n!f()\n")).toOption.bind fun r =>
      (tree rule Settings.standard r.1 false r.2).toOption.bind fun p =>
        (Tree.ofText p.1.tree.code).toOption.map fun t' =>
          decide ((Refactor.source .standard Settings.standard DoCatch.name unnamed
            (Text.ofString "try!\n!f()\n") false).toOption.bind Outcome.value? =
              some p.1.tree.code) &&
            (t'.bare.nodes.any isForceTry && !p.1.tree.bare.nodes.any isForceTry)) = some true := by
    decide +kernel
  rcases Option.bind_eq_some_iff.mp hcheck with ⟨⟨t, next⟩, ht, hrest⟩
  rcases Option.bind_eq_some_iff.mp hrest with ⟨⟨report, metadata⟩, hreport, hrest⟩
  rcases Option.map_eq_some_iff.mp hrest with ⟨t', ht', hall⟩
  rw [Bool.and_eq_true, Bool.and_eq_true, decide_eq_true_eq, Bool.not_eq_true'] at hall
  rcases Option.bind_eq_some_iff.mp hall.1 with ⟨outcome, hrun, hvalue⟩
  refine ⟨t, next, report, metadata, t', eq_ok_of_toOption ht, eq_ok_of_toOption hreport, ?_,
    eq_ok_of_toOption ht', fun hsame => ?_⟩
  · rcases eq_success_of_value? hvalue with ⟨metadata', rfl⟩
    exact ⟨metadata', eq_ok_of_toOption hrun⟩
  · rw [hsame, hall.2.2] at hall
    cases hall.2.1

end Refactor
end ForceTry

import ForceTry.Proofs.Indentation.Lookup
import ForceTry.Proofs.Refactor.Repeated
import ForceTry.Proofs.Tree.Starts
import Mathlib.Data.List.Forall2

/-!
# Candidates

The candidates of a source are its `try` nodes, each with the place where its keyword stands.  They are
found by a walk over the whole tree, and the rule is applied by a search in every item; the two agree on
whether there is anything to do.
-/

namespace ForceTry
namespace Refactor

open ForceTry.DoCatch ForceTry.Tree ForceTry.Grammar

/-- What a candidate says of a node of the tree of a source: where it starts, that its text starts
there with `try`, and whether it has the mark that forces it. -/
structure Candidate.Describes (source : Text) (root m : Tree) (c : Candidate) : Prop where
  start : root.start? m = some c.position
  text : ∃ offset rest, c.position.Denotes source offset ∧
    source.drop offset = Text.ofString "try" ++ rest
  applicable : c.isApplicable = m.isForceTry

/-!
# One candidate for each `try`
-/

theorem forall₂_filterMap {α β : Type} {f : α → Option β} {R : α → β → Prop} {as : List α}
    (h : ∀ a ∈ as, ∃ b, f a = some b ∧ R a b) : List.Forall₂ R as (as.filterMap f) := by
  induction as with
  | nil => exact List.Forall₂.nil
  | cons a as ih =>
      rcases h a (List.mem_cons_self ..) with ⟨b, hb, hR⟩
      rw [List.filterMap_cons_some hb]
      exact List.Forall₂.cons hR (ih fun x hx => h x (List.mem_cons_of_mem a hx))

theorem pairwise_of_forall₂ {α β : Type} {R : α → β → Prop} {S : α → α → Prop} {T : β → β → Prop}
    (hT : ∀ a a' b b', R a b → R a' b' → S a a' → T b b') {as : List α} {bs : List β}
    (h : List.Forall₂ R as bs) (hS : as.Pairwise S) : bs.Pairwise T := by
  induction h with
  | nil => exact List.Pairwise.nil
  | @cons a b as bs hR hrest ih =>
      rw [List.pairwise_cons] at hS ⊢
      refine ⟨?_, ih hS.2⟩
      intro b' hb'
      rcases List.mem_iff_getElem.mp hb' with ⟨i, hi, rfl⟩
      have hlength := hrest.length_eq
      have hR' := hrest.get (by omega : i < as.length) hi
      exact hT _ _ _ _ hR hR' (hS.1 _ (List.get_mem ..))

theorem countP_of_forall₂ {α β : Type} {R : α → β → Prop} {p : α → Bool} {q : β → Bool}
    (hR : ∀ a b, R a b → p a = q b) {as : List α} {bs : List β} (h : List.Forall₂ R as bs) :
    as.countP p = bs.countP q := by
  induction h with
  | nil => rfl
  | cons hab _ ih => rw [List.countP_cons, List.countP_cons, ih, hR _ _ hab]

theorem isApplicable_candidate (p : Position) (snippet : Text) (m : Tree) :
    (Candidate.mk p snippet (match check m with
      | .success _ _ => none
      | .failure e _ => some e.message
      | .skipped e _ => some ((e.map Fault.message).getD (Value.display .null)))).isApplicable =
      m.isForceTry := by
  unfold check
  cases m.isForceTry with
  | true => rfl
  | false => rfl

variable {source : Text} {t : Tree} {next : Nat}

theorem keyword_of_findAll (hfile : FormsFile t) {m : Tree}
    (hm : m ∈ t.findAll (.only .tryExpression)) :
    ∃ l, m.firstLeaf? = some l ∧ l.token.text = Text.ofString "try" := by
  rcases List.mem_filter.mp hm with ⟨hnodes, hkind⟩
  rw [matchesFilter_only] at hkind
  rcases keyword_of_file hfile hnodes hkind with ⟨n, keyword, cs, rfl, hkeyword⟩
  rw [Token.isKeyword, Bool.and_eq_true] at hkeyword
  exact ⟨keyword, rfl, eq_of_beq hkeyword.2⟩

theorem candidate_of_try (hcode : t.code = source) (hfile : FormsFile t) (hneat : t.Neat next)
    {m : Tree} (hm : m ∈ t.findAll (.only .tryExpression)) :
    ∃ c, candidate? rule t.leafPositions m = some c ∧ Candidate.Describes source t m c := by
  rcases keyword_of_findAll hfile hm with ⟨l, hfirst, htext⟩
  have hl : l ∈ t.leaves := by
    apply leaves_of_mem_nodes t m (List.mem_of_mem_filter hm)
    exact List.mem_of_mem_head? hfirst
  rcases List.append_of_mem hl with ⟨before, behind, hsplit⟩
  have hstart := start?_of_split hsplit hfirst (label_not_behind hneat hsplit)
  have hsource : source = Leaf.codeOf (before ++ l :: behind) := by
    rw [← hcode, code_eq_codeOf, hsplit]
  have hlookup : m.startIn? t.leafPositions = some (startBehind before l) := hstart
  refine ⟨_, by rw [candidate?, hlookup]; rfl, hstart, ?_, isApplicable_candidate _ _ m⟩
  have hdrop := Leaf.drop_offset hsource
  rw [htext] at hdrop
  exact ⟨l.offset before, _, Leaf.denotes_offset hsource, hdrop⟩

theorem tries_in_order (hfile : FormsFile t) :
    (t.findAll (.only .tryExpression)).Pairwise fun m m' => ∃ l l', m.firstLeaf? = some l ∧
      m'.firstLeaf? = some l' ∧ l.token.text ≠ [] ∧ [l, l'].Sublist t.leaves := by
  have hleaves := keywords_sublist hfile
  rw [List.pairwise_iff_forall_sublist]
  intro m m' hsublist
  rcases keyword_of_findAll hfile (hsublist.subset (List.mem_cons_self ..)) with ⟨l, hl, htext⟩
  rcases keyword_of_findAll hfile
    (hsublist.subset (List.mem_cons_of_mem m (List.mem_singleton_self m'))) with ⟨l', hl', _⟩
  refine ⟨l, l', hl, hl', ?_, ?_⟩
  · rw [htext]
    decide
  · have hpair := hsublist.filterMap firstLeaf?
    rw [List.filterMap_cons_some hl, List.filterMap_cons_some hl', List.filterMap_nil] at hpair
    exact hpair.trans hleaves

/-!
# What a run reports
-/

theorem resolve_standard : Registry.standard.resolve DoCatch.name = .ok rule := rfl

theorem prepare_standard (file : Text) (h : ofTextFrom 0 source = .ok (t, next)) :
    prepare .standard DoCatch.name file source = .ok (rule, t, next) := by
  rw [prepare, resolve_standard, h]
  rfl

theorem pass_of_tree {settings : Settings} {debug : Bool} {report : Pass.Report} {metadata : Details}
    (h : tree rule settings t debug next = .ok (report, metadata)) :
    ∃ (pass : Pass) (unitName : Text), pass.rule = rule ∧ pass.root = t ∧
      pass.run next = .ok report ∧ metadata = report.metadata rule unitName := by
  rw [tree, bind_eq_ok] at h
  rcases h with ⟨⟨report', metadata'⟩, happly, h⟩
  rw [bind_eq_ok] at h
  rcases h with ⟨written', hwritten, h⟩
  cases h
  have hreport : report = report' := by
    rw [written] at hwritten
    split at hwritten
    · cases hwritten
    · cases hwritten
      rfl
  subst hreport
  rw [applyRule, bind_eq_ok] at happly
  rcases happly with ⟨⟨pass, unitName⟩, hstyle, happly⟩
  rw [bind_eq_ok] at happly
  rcases happly with ⟨report', hrun, happly⟩
  cases happly
  rw [Pass.ofStyle, bind_eq_ok] at hstyle
  rcases hstyle with ⟨⟨unit, unitName'⟩, _, hstyle⟩
  cases hstyle
  exact ⟨_, unitName, rfl, rfl, hrun, rfl⟩

/-- A run reports a number of applications, which is no larger than the number of forced `try` nodes
and is zero only when there are none. -/
theorem applied_of_source (hfile : FormsFile t) (hneat : t.Neat next) (file : Text)
    (h : ofTextFrom 0 source = .ok (t, next)) {settings : Settings} {debug : Bool}
    {outcome : Outcome Text}
    (hrun : Refactor.source .standard settings DoCatch.name file source debug = .ok outcome) :
    ∃ applied : Nat, outcome.metadata.get? "applied".toList = some (.int applied) ∧
      (0 < applied ↔ 0 < t.forcedTries) ∧ applied ≤ t.forcedTries := by
  rw [Refactor.source, prepare_standard file h] at hrun
  rw [bind_eq_ok] at hrun
  rcases hrun with ⟨⟨report, metadata⟩, htree, hrun⟩
  rcases pass_of_tree htree with ⟨pass, unitName, hrule, rfl, hpass, rfl⟩
  rcases applied_of_run hrule hfile hneat with ⟨report', hpass', happlied⟩
  rw [hpass] at hpass'
  cases hpass'
  have hmetadata : outcome.metadata =
      (report.metadata rule unitName).put "source".toList (.text file) := by
    dsimp only at hrun
    split at hrun
    · split at hrun <;> cases hrun <;> rfl
    · cases hrun
      rfl
  refine ⟨report.applied, by rw [hmetadata]; rfl, ?_, ?_⟩
  · have hzero := forcedTries_eq_zero_iff hfile
    have hpos := happlied.pos
    omega
  · have htries := happlied.tries
    omega

theorem source_of_inRange {codecs : Codecs} {settings : Settings} (hs : settings.InRange codecs)
    (hfile : FormsFile t)
    (hneat : t.Neat next) (file : Text) (h : ofTextFrom 0 source = .ok (t, next)) (debug : Bool) :
    ∃ outcome, Refactor.source .standard settings DoCatch.name file source debug = .ok outcome := by
  rcases tree_applied hs hfile hneat debug with ⟨report, unitName, htree, _⟩
  rw [Refactor.source, prepare_standard file h]
  show ∃ outcome, (tree rule settings t debug next >>= fun result => _) = .ok outcome
  rw [htree]
  simp only [bind, Except.bind]
  split
  · split <;> exact ⟨_, rfl⟩
  · exact ⟨_, rfl⟩

theorem countP_findAll (t : Tree) :
    (t.findAll (.only .tryExpression)).countP isForceTry = t.forcedTries := by
  rw [findAll, List.countP_filter, forcedTries]
  apply List.countP_congr
  intro m _
  rw [Bool.and_eq_true]
  constructor
  · exact And.left
  · intro hforced
    exact ⟨hforced, isKind_of_isForceTry hforced⟩

/-- The candidates of a source with a tree are its `try` nodes one by one, in the order in which they
stand.  A run applies the rule exactly when one of them is applicable, and not more often than there
are such. -/
theorem candidates_agree (h : ofText source = .ok t) (file : Text) :
    ∃ cs, candidates .standard DoCatch.name file source = .ok cs ∧
      List.Forall₂ (Candidate.Describes source t) (t.findAll (.only .tryExpression)) cs ∧
      (cs.Pairwise fun c d => c.position.Precedes d.position) ∧
      (∀ settings debug outcome,
        Refactor.source .standard settings DoCatch.name file source debug = .ok outcome →
        ∃ applied : Nat, outcome.metadata.get? "applied".toList = some (.int applied) ∧
          ((∃ c ∈ cs, c.isApplicable = true) ↔ 1 ≤ applied) ∧
          applied ≤ cs.countP Candidate.isApplicable) ∧
      ∀ (codecs : Codecs) (settings : Settings), settings.InRange codecs → ∀ debug, ∃ outcome,
        Refactor.source .standard settings DoCatch.name file source debug = .ok outcome := by
  rcases ofTextFrom_of_ofText h with ⟨next, hfrom⟩
  rcases ofTextFrom_forms hfrom with ⟨_, _, _, hfile, hneat⟩
  have hcode := (ofText_holds_tokens h).2.1
  have hcandidates : List.Forall₂ (Candidate.Describes source t) (t.findAll (.only .tryExpression))
      ((t.findAll (.only .tryExpression)).filterMap (candidate? rule t.leafPositions)) :=
    forall₂_filterMap fun m hm => candidate_of_try hcode hfile hneat hm
  have hcount := countP_of_forall₂ (fun m c hc => hc.applicable.symm) hcandidates
  rw [countP_findAll] at hcount
  refine ⟨_, ?_, hcandidates, ?_, ?_, ?_⟩
  · rw [candidates, prepare_standard file hfrom]
    rfl
  · refine pairwise_of_forall₂ ?_ hcandidates (tries_in_order hfile)
    rintro m m' c d hc hd ⟨l, l', hl, hl', htext, hsublist⟩
    exact precedes_of_sublist hneat hsublist htext hl hl' hc.start hd.start
  · intro settings debug outcome hrun
    rcases applied_of_source hfile hneat file hfrom hrun with ⟨applied, hget, hpos, hle⟩
    rw [hcount] at hpos hle
    refine ⟨applied, hget, ?_, hle⟩
    rw [← List.countP_pos_iff]
    exact hpos.symm
  · intro codecs settings hsettings debug
    exact source_of_inRange hsettings hfile hneat file hfrom debug

theorem candidates_agree_nested :
    ∃ t, ofText (Text.ofString "f(try! a(), try? b()) { try c() }\n") = .ok t ∧
      ∃ cs, candidates .standard DoCatch.name unnamed
          (Text.ofString "f(try! a(), try? b()) { try c() }\n") = .ok cs ∧
        List.Forall₂ (Candidate.Describes (Text.ofString "f(try! a(), try? b()) { try c() }\n") t)
          (t.findAll (.only .tryExpression)) cs ∧
        (cs.Pairwise fun c d => c.position.Precedes d.position) ∧
        (∀ settings debug outcome,
          Refactor.source .standard settings DoCatch.name unnamed
            (Text.ofString "f(try! a(), try? b()) { try c() }\n") debug = .ok outcome →
          ∃ applied : Nat, outcome.metadata.get? "applied".toList = some (.int applied) ∧
            ((∃ c ∈ cs, c.isApplicable = true) ↔ 1 ≤ applied) ∧
            applied ≤ cs.countP Candidate.isApplicable) ∧
        ∀ (codecs : Codecs) (settings : Settings), settings.InRange codecs → ∀ debug, ∃ outcome,
          Refactor.source .standard settings DoCatch.name unnamed
            (Text.ofString "f(try! a(), try? b()) { try c() }\n") debug = .ok outcome := by
  have hok : (ofText (Text.ofString "f(try! a(), try? b()) { try c() }\n")).isOk = true := by
    decide +kernel
  cases h : ofText (Text.ofString "f(try! a(), try? b()) { try c() }\n") with
  | error e =>
      rw [h] at hok
      cases hok
  | ok t => exact ⟨t, rfl, candidates_agree h unnamed⟩

end Refactor
end ForceTry

import ForceTry.Proofs.Pass.Turns

/-!
# What the turns make of a tree

The turns of a pass account for all that it reports.  The tree is the one that the pass started with, with
every answer in the place of its item, and it is the same element when there is no answer.  Every call is
counted once.  Refusals and errors are counted and leave no other trace.
-/

namespace ForceTry

open ForceTry.Tree ForceTry.Grammar

namespace Pass

open Progress (Tallies)

variable {pass : Pass}

/-- The items of some turns hold the answers to the items nested in them. -/
def Hold (turns : List Turn) (answers : Nat → Option (List Tree)) : Prop :=
  ∀ turn ∈ turns, turn.updated.plain = (turn.old.splice answers).plain

def Agree (turns : List Turn) (answers : Nat → Option (List Tree)) : Prop :=
  ∀ turn ∈ turns, answers turn.old.label = turn.items?

structure Account (pass : Pass) (t : Tree) (p : Progress) (rep : Replacement) (p' : Progress)
    (turns : List Turn) : Prop where
  runs : Runs pass (fun r => transform r t) p rep p' turns
  asks : ∀ turn ∈ turns, turn.Asks pass
  tallies : Tallies p (turns.flatMap Turn.calls) p'
  holds : ∀ answers, Agree turns answers →
    Hold turns answers ∧ outlineAll id rep.trees = outlineAll id (spliceAll answers [t])
  item : ∀ items, rep = .many items → t.isKind .item = true
  kept : Fruitless turns → rep = .one t
  renewed : ¬ Fruitless turns → ∀ u, rep = .one u → p.next ≤ u.label

structure AccountAll (pass : Pass) (places : List (Option String)) (ts : List Tree) (p : Progress)
    (us : List Tree) (spliced : Bool) (p' : Progress) (turns : List Turn) : Prop where
  runs : Runs pass (fun r => transformAll r places ts) p (us, spliced) p' turns
  asks : ∀ turn ∈ turns, turn.Asks pass
  tallies : Tallies p (turns.flatMap Turn.calls) p'
  holds : ∀ answers, Agree turns answers →
    Hold turns answers ∧ outlineAll id us = outlineAll id (spliceAll answers ts)
  kept : Fruitless turns → us = ts ∧ spliced = false
  renewed : ¬ Fruitless turns → (sameElements ts us && !spliced) = false

theorem accountAll_cons {t : Tree} {ts us : List Tree} {places : List (Option String)}
    {p p' p'' : Progress} {rep : Replacement} {spliced : Bool} {turns turns' : List Turn}
    (h : Account pass t p rep p' turns) (hs : AccountAll pass places.tail ts p' us spliced p'' turns')
    (hplace : t.isKind .item = true → ∀ name, places.head? ≠ some (some name))
    (hlabel : t.label < p.next) :
    AccountAll pass places (t :: ts) p (rep.trees ++ us) (rep.splices || spliced) p''
      (turns ++ turns') := by
  constructor
  · exact h.runs.cons hs.runs fun items hitems => hplace (h.item items hitems)
  · rw [List.forall_mem_append]
    exact ⟨h.asks, hs.asks⟩
  · rw [List.flatMap_append]
    exact h.tallies.append hs.tallies
  · intro answers hagree
    rw [Agree, List.forall_mem_append] at hagree
    rcases h.holds answers hagree.1 with ⟨hhold, htree⟩
    rcases hs.holds answers hagree.2 with ⟨hholds, htrees⟩
    constructor
    · rw [Hold, List.forall_mem_append]
      exact ⟨hhold, hholds⟩
    · rw [spliceAll, spliceAll, List.append_nil] at htree
      rw [spliceAll, outlineAll_append, outlineAll_append, htree, htrees]
  · intro hfruitless
    rw [fruitless_append] at hfruitless
    rcases hs.kept hfruitless.2 with ⟨rfl, rfl⟩
    rw [h.kept hfruitless.1]
    exact ⟨rfl, rfl⟩
  · intro hfruits
    cases rep with
    | many items => rw [Replacement.splices, Bool.true_or, Bool.not_true, Bool.and_false]
    | one u =>
        show (sameElements (t :: ts) (u :: us) && !(false || spliced)) = false
        rw [Bool.false_or, sameElements, List.map_cons, List.map_cons, List.cons_beq_cons]
        by_cases hhead : Fruitless turns
        · have hrest : ¬ Fruitless turns' := fun hrest => hfruits (fruitless_append.mpr ⟨hhead, hrest⟩)
          rw [Bool.and_assoc]
          have hsame := hs.renewed hrest
          rw [sameElements] at hsame
          rw [hsame, Bool.and_false]
        · have hle := h.renewed hhead u rfl
          have hne : t.label ≠ u.label := by omega
          rw [beq_eq_false_iff_ne.mpr hne, Bool.false_and, Bool.false_and]

/-- A node whose children came back is itself, and otherwise it holds what has become of them. -/
theorem withChildren_cases {n : Nat} {k : NodeKind} {cs us : List Tree} {spliced : Bool}
    {turns : List Turn} (p : Progress) (hkept : Fruitless turns → us = cs ∧ spliced = false)
    (hrenewed : ¬ Fruitless turns → (sameElements cs us && !spliced) = false) :
    ∃ m q, withChildren n k cs us spliced p = (.node m k us, q) ∧ Tallies p [] q ∧
      (Fruitless turns → us = cs ∧ m = n) ∧ (¬ Fruitless turns → p.next ≤ m) := by
  rw [withChildren]
  by_cases hfruitless : Fruitless turns
  · rcases hkept hfruitless with ⟨rfl, rfl⟩
    have hsame : (sameElements us us && !false) = true := by
      rw [Bool.not_false, Bool.and_true, sameElements, beq_self_eq_true]
    rw [if_pos hsame]
    exact ⟨n, p, rfl, .nil, fun _ => ⟨rfl, rfl⟩, fun hfruits => absurd hfruitless hfruits⟩
  · rw [hrenewed hfruitless, if_neg Bool.false_ne_true]
    refine ⟨p.next, _, rfl, ?_, fun h => absurd h hfruitless, fun _ => Nat.le_refl p.next⟩
    exact ⟨Nat.le_succ p.next, rfl, rfl, (List.append_nil p.errors).symm⟩

/-- Behind its turn, a node has its answer in its place, or what its children have become. -/
theorem outlineAll_outcomeOf {old updated : Tree} {q : Progress} {answers : Nat → Option (List Tree)}
    (hplain : updated.plain = (old.splice answers).plain)
    (hagree : Agree (pass.turnOf old updated q) answers) :
    outlineAll id (outcomeOf updated (pass.turnOf old updated q)).trees =
      outlineAll id (spliceAll answers [old]) := by
  have hone : outlineAll id [updated] = outlineAll id [old.splice answers] :=
    congrArg (fun t => [t]) hplain
  rw [spliceAll, spliceAll, List.append_nil]
  rw [turnOf] at hagree ⊢
  split
  · next hitem =>
      rw [if_pos hitem] at hagree
      have hanswer := hagree _ (List.mem_singleton_self _)
      dsimp only at hanswer
      rw [hanswer, outcomeOf, List.findSome?_singleton]
      cases Turn.items? ⟨⟨old, updated⟩, pass.callsOn old updated q⟩ with
      | none => exact hone
      | some items => rfl
  · exact hone

theorem account_node (hdebug : pass.debug = false) {n : Nat} {k : NodeKind} {cs us : List Tree}
    {spliced : Bool} {p p' : Progress} {turns : List Turn}
    (h : AccountAll pass (Place.singleNames k cs) cs p us spliced p' turns)
    (hdirect : k = .item → (directNodesOf us).map kind? = (directNodesOf cs).map kind?) :
    ∃ rep p'' turns', Account pass (.node n k cs) p rep p'' turns' := by
  rcases withChildren_cases (n := n) (k := k) p' h.kept h.renewed with
    ⟨m, q, hchildren, htallies, hsame, hnew⟩
  have hsteady : (Tree.node n k cs).isKind .item = true →
      Visit.Steady ⟨.node n k cs, .node m k us⟩ := by
    intro hitem
    rw [isKind_node, beq_iff_eq] at hitem
    exact steady_node (hdirect hitem)
  -- The turn of the node comes behind those of its children, on the tree that these have left.
  have hown := runs_onNode hdebug hsteady q
  generalize hturn : pass.turnOf (.node n k cs) (.node m k us) q = own at hown
  refine ⟨outcomeOf (.node m k us) own, (own.flatMap Turn.calls).foldl Progress.after q, turns ++ own, ?_⟩
  constructor
  · apply h.runs.node
    rw [hchildren]
    exact hown
  · rw [List.forall_mem_append]
    refine ⟨h.asks, ?_⟩
    rw [← hturn]
    exact asks_turnOf _ _ q
  · rw [List.flatMap_append]
    exact h.tallies.append (htallies.append (Progress.tallies_foldl q _))
  · intro answers hagree
    rw [Agree, List.forall_mem_append] at hagree
    rcases h.holds answers hagree.1 with ⟨hhold, htrees⟩
    have hplain : (Tree.node m k us).plain = ((Tree.node n k cs).splice answers).plain := by
      show Tree.node 0 k (outlineAll id us) = Tree.node 0 k (outlineAll id (spliceAll answers cs))
      rw [htrees]
    constructor
    · rw [Hold, List.forall_mem_append]
      refine ⟨hhold, ?_⟩
      intro turn hmem
      rw [← hturn] at hmem
      rcases mem_turnOf hmem with ⟨_, hold, hupdated⟩
      rw [hold, hupdated]
      exact hplain
    · rw [← hturn] at hagree ⊢
      exact outlineAll_outcomeOf hplain hagree.2
  · intro items hmany
    rw [outcomeOf] at hmany
    split at hmany
    · next hsome =>
        rcases List.exists_of_findSome?_eq_some hsome with ⟨turn, hmem, _⟩
        rw [← hturn] at hmem
        exact (mem_turnOf hmem).1
    · cases hmany
  · intro hfruitless
    rw [fruitless_append] at hfruitless
    rcases hsame hfruitless.1 with ⟨rfl, rfl⟩
    exact outcomeOf_of_fruitless hfruitless.2
  · intro hfruits u hone
    rcases fruitless_of_outcomeOf hone with ⟨hown, rfl⟩
    have hturns : ¬ Fruitless turns := fun hturns => hfruits (fruitless_append.mpr ⟨hturns, hown⟩)
    exact Nat.le_trans h.tallies.next (hnew hturns)

theorem account_leaf (l : Leaf) (p : Progress) : Account pass (.leaf l) p (.one (.leaf l)) p [] := by
  constructor
  · exact .pure (fun _ => rfl) (fun _ => rfl)
  · exact List.forall_mem_nil _
  · exact .nil
  · exact fun answers _ => ⟨List.forall_mem_nil _, rfl⟩
  · intro items hmany
    cases hmany
  · exact fun _ => rfl
  · exact fun hfruits => absurd (List.forall_mem_nil _) hfruits

theorem accountAll_nil (places : List (Option String)) (p : Progress) :
    AccountAll pass places [] p [] false p [] := by
  constructor
  · exact .pure (fun _ => rfl) (fun _ => rfl)
  · exact List.forall_mem_nil _
  · exact .nil
  · exact fun answers _ => ⟨List.forall_mem_nil _, rfl⟩
  · exact fun _ => ⟨rfl, rfl⟩
  · exact fun hfruits => absurd (List.forall_mem_nil _) hfruits

/-- What becomes of the children of a node that is no block has nodes of the same kinds. -/
theorem directNodesOf_of_accountAll (hdebug : pass.debug = false) {n : Nat} {k : NodeKind}
    {cs us : List Tree} {spliced : Bool} {p p' : Progress} {turns : List Turn}
    (h : AccountAll pass (Place.singleNames k cs) cs p us spliced p' turns)
    (hformed : Formed (.node n k cs)) (hk : k ≠ .block) :
    (directNodesOf us).map kind? = (directNodesOf cs).map kind? := by
  have hcases := formed_cases hformed
  rcases transformAll_walks hdebug cs (Place.singleNames k cs) p
    (fun c hc => (hcases.2 c hc).1) (admits_of_fits hcases.1) with ⟨vs, _, _, _, hwalks, hsame⟩
  have heq := h.runs.run.symm.trans hwalks.run
  simp only [Except.ok.injEq, Prod.mk.injEq] at heq
  rw [heq.1.1]
  exact hsame fun c hc => (hcases.2 c hc).2 hk

mutual

theorem transform_accounts (hdebug : pass.debug = false) (t : Tree) (p : Progress)
    (hformed : Formed t) (hlabels : ∀ x ∈ t.labels, x < p.next) :
    ∃ rep p' turns, Account pass t p rep p' turns := by
  cases t with
  | leaf l => exact ⟨_, _, _, account_leaf l p⟩
  | node n k cs =>
      have hcases := formed_cases hformed
      rcases transformAll_accounts hdebug cs (Place.singleNames k cs) p
        (fun c hc => (hcases.2 c hc).1) (admits_of_fits hcases.1)
        (fun x hx => hlabels x (List.mem_cons_of_mem n hx)) with ⟨us, spliced, p', turns, hall⟩
      apply account_node hdebug hall
      intro hk
      apply directNodesOf_of_accountAll hdebug hall hformed
      rw [hk]
      decide
termination_by structural t

theorem transformAll_accounts (hdebug : pass.debug = false) (ts : List Tree)
    (places : List (Option String)) (p : Progress) (hformed : ∀ t ∈ ts, Formed t)
    (hadmits : Admits places ts) (hlabels : ∀ x ∈ labelsOf ts, x < p.next) :
    ∃ us spliced p' turns, AccountAll pass places ts p us spliced p' turns := by
  cases ts with
  | nil => exact ⟨_, _, _, _, accountAll_nil places p⟩
  | cons t ts =>
      rw [labelsOf_cons, List.forall_mem_append] at hlabels
      rcases transform_accounts hdebug t p (hformed t (List.mem_cons_self ..)) hlabels.1 with
        ⟨rep, p', turns, ht⟩
      rcases transformAll_accounts hdebug ts places.tail p'
        (fun t' h => hformed t' (List.mem_cons_of_mem t h)) hadmits.2
        (fun x hx => Nat.lt_of_lt_of_le (hlabels.2 x hx) ht.tallies.next) with
        ⟨us, spliced, p'', turns', hts⟩
      exact ⟨_, _, _, _, accountAll_cons ht hts hadmits.1 (hlabels.1 _ (label_mem_labels t))⟩
termination_by structural ts

end

/-- The turns account for the report of a pass. -/
structure Accounts (pass : Pass) (next : Nat) (report : Report) (turns : List Turn) : Prop where
  /-- every item has its turn, behind the items nested in it -/
  items : turns.map (fun turn => turn.old) = pass.root.itemsInsideOut
  asks : ∀ turn ∈ turns, turn.Asks pass
  /-- the items that are asked about hold the answers to the items nested in them -/
  holds : Hold turns (answers turns)
  /-- and so does the tree -/
  tree : report.tree.plain = (pass.root.splice (answers turns)).plain
  applied : report.applied = turns.countP Turn.succeeds
  skipped : report.skipped = (turns.flatMap Turn.calls).countP Call.declines
  errors : report.errors = (turns.flatMap Turn.calls).filterMap Call.complaint?
  total : report.applied + report.skipped + report.errors.length = (turns.flatMap Turn.calls).length
  /-- nothing else is asked: a rule that answers these calls alike makes the same of the tree -/
  determined : ∀ rule : Rule, rule.accepts = pass.rule.accepts →
    (∀ turn ∈ turns, ∀ call ∈ turn.calls, call.AnsweredBy rule) →
      run { pass with rule := rule } next = .ok report
  /-- the tree is the same element when no turn succeeds, and only then -/
  same : report.tree.label = pass.root.label ↔ Fruitless turns
  kept : Fruitless turns → report.tree = pass.root

theorem run_of_transform {pass : Pass} {next : Nat} {t : Tree} {p : Progress}
    (h : transform pass.transformation pass.root (Progress.start next) = .ok (.one t, p)) :
    pass.run next = .ok ⟨t, p.applied, p.skipped, p.errors, p.next⟩ := by
  show (transform pass.transformation pass.root (Progress.start next) >>= fun result => _) = _
  rw [h]
  rfl

theorem runRecorded_of_transform {pass : Pass} {next : Nat} {t : Tree} {p : Progress}
    {visits : List Visit}
    (h : transform pass.recording pass.root (Progress.start next, []) = .ok (.one t, p, visits)) :
    pass.runRecorded next = .ok (⟨t, p.applied, p.skipped, p.errors, p.next⟩, visits) := by
  show (transform pass.recording pass.root (Progress.start next, []) >>= fun result => _) = _
  rw [h]
  rfl

theorem account_root (hdebug : pass.debug = false) {next : Nat} (hforms : FormsFile pass.root)
    (hneat : pass.root.Neat next) :
    ∃ t p turns, Account pass pass.root (Progress.start next) (.one t) p turns := by
  rcases file_of_formsFile hforms with ⟨hfits, n, cs, hroot, hformed⟩
  have hlabels : ∀ x ∈ labelsOf cs, x < next := by
    intro x hx
    apply hneat.lt
    rw [hroot]
    exact List.mem_cons_of_mem n hx
  rw [hroot] at hfits
  rcases transformAll_accounts hdebug cs (Place.singleNames .sourceFile cs) (Progress.start next)
    hformed (admits_of_fits hfits) hlabels with ⟨us, spliced, p, turns, hall⟩
  rcases account_node (n := n) hdebug hall (fun hk => by cases hk) with ⟨rep, p', turns', haccount⟩
  cases rep with
  | many items => cases haccount.item items rfl
  | one t =>
      rw [hroot]
      exact ⟨t, p', turns', haccount⟩

theorem nodup_label_itemsInsideOut {t : Tree} {n : Nat} (hneat : t.Neat n) :
    (t.itemsInsideOut.map label).Nodup := by
  rw [List.nodup_iff_count_le_one]
  exact fun x => Nat.le_trans (count_itemsInsideOut_le t x) (hneat.count_le_one x)

theorem accounts_of_account {next : Nat} {t : Tree} {p : Progress} {turns : List Turn}
    (h : Account pass pass.root (Progress.start next) (.one t) p turns)
    (hneat : pass.root.Neat next) (hroot : pass.root.isKind .item = false)
    (hitems : turns.map (fun turn => turn.old) = pass.root.itemsInsideOut) :
    pass.Accounts next ⟨t, p.applied, p.skipped, p.errors, p.next⟩ turns := by
  have hnodup : (turns.map fun turn => turn.old.label).Nodup := by
    have hlabels := nodup_label_itemsInsideOut hneat
    rw [← hitems, List.map_map] at hlabels
    exact hlabels
  rcases h.holds (answers turns) (answers_of_nodup hnodup) with ⟨hholds, htree⟩
  have hkept : Fruitless turns → t = pass.root := by
    intro hfruitless
    have hone := h.kept hfruitless
    injection hone
  have hrenewed : t.label = pass.root.label → Fruitless turns := by
    intro hlabel
    by_contra hfruits
    have hle := h.renewed hfruits t rfl
    rw [hlabel] at hle
    exact Nat.not_lt_of_le hle (hneat.lt _ (label_mem_labels pass.root))
  constructor
  · exact hitems
  · exact h.asks
  · exact hholds
  · rw [spliceAll, hroot, spliceAll, List.append_nil] at htree
    exact List.head_eq_of_cons_eq htree
  · rw [← countP_succeeds_flatMap h.asks]
    exact h.tallies.applied.trans (Nat.zero_add _)
  · exact h.tallies.skipped.trans (Nat.zero_add _)
  · exact h.tallies.errors.trans (List.nil_append _)
  · exact h.tallies.total
  · intro rule haccepts hcalls
    exact run_of_transform (h.runs.determined rule haccepts hcalls)
  · constructor
    · exact hrenewed
    · intro hfruitless
      rw [hkept hfruitless]
  · exact hkept

/-- Whatever its rule answers, a pass over the tree of a source asks for every item, inner items first,
about the candidates of the item in order and up to the first success, and these calls account for what it
reports. -/
theorem run_calls {first next : Nat} {source : Text} (hdebug : pass.debug = false)
    (h : ofTextFrom first source = .ok (pass.root, next)) :
    ∃ report turns, pass.run next = .ok report ∧
      pass.runRecorded next = .ok (report, turns.map Turn.toVisit) ∧
      pass.Accounts next report turns := by
  rcases ofTextFrom_forms h with ⟨_, _, _, hforms, hneat⟩
  rcases account_root hdebug hforms hneat with ⟨t, p, turns, haccount⟩
  have hrecorded := runRecorded_of_transform (haccount.runs.recorded [])
  have hitems : turns.map (fun turn => turn.old) = pass.root.itemsInsideOut := by
    rcases run_walks hdebug hforms next with ⟨_, visits, _, hvisits, hold, _⟩
    have heq := hrecorded.symm.trans hvisits
    simp only [Except.ok.injEq, Prod.mk.injEq, List.nil_append] at heq
    rw [← hold, ← heq.2, List.map_map]
    rfl
  have hroot : pass.root.isKind .item = false := by
    rcases file_of_formsFile hforms with ⟨_, n, cs, hroot, _⟩
    rw [hroot]
    rfl
  exact ⟨_, turns, run_of_transform haccount.runs.run, hrecorded,
    accounts_of_account haccount hneat hroot hitems⟩

/-- A rule that drops the item of a `try`, raises at items and declines everything else. -/
def wavering : Rule :=
  { DoCatch.rule with
    accepts := .any
    refactor := fun m _ n =>
      match m.kind? with
      | some .tryExpression => .ok (.success [] [], n)
      | some .item => .error (.foreign "KeyError".toList "boom".toList)
      | _ => .ok (.declined "declined".toList none none [], n) }

/-- Two inner items are dropped at their first `try`, and nothing comes of all other calls. -/
theorem run_calls_wavering :
    ∃ t next report turns,
      ofTextFrom 0 (Text.ofString "f { try! g(); h() }; { try a(try b()) }; c()\n") = .ok (t, next) ∧
      run ⟨wavering, t, .standard, .standard, false⟩ next = .ok report ∧
      runRecorded ⟨wavering, t, .standard, .standard, false⟩ next =
        .ok (report, turns.map Turn.toVisit) ∧
      Accounts ⟨wavering, t, .standard, .standard, false⟩ next report turns := by
  have hok : (ofTextFrom 0
      (Text.ofString "f { try! g(); h() }; { try a(try b()) }; c()\n")).isOk = true := by
    decide +kernel
  cases h : ofTextFrom 0 (Text.ofString "f { try! g(); h() }; { try a(try b()) }; c()\n") with
  | error e =>
      rw [h] at hok
      cases hok
  | ok result =>
      rcases result with ⟨t, next⟩
      rcases @run_calls ⟨wavering, t, .standard, .standard, false⟩ 0 next _ rfl h with
        ⟨report, turns, hall⟩
      exact ⟨t, next, report, turns, rfl, hall⟩

end Pass
end ForceTry

import ForceTry.Proofs.Grammar.Neighbours
import ForceTry.Proofs.Indentation.Lookup
import ForceTry.Proofs.Pass.Transform
import ForceTry.Proofs.Tree.Parsed

/-!
# What a pass meets on its way

Whatever its rule answers, a pass visits every item of a file once, behind the items nested in it,
and comes to an end.  What the rule puts into nested blocks leaves everything outside these blocks as
it was, so an item that is visited still has the candidates that it has in the file, and its first
token is found under the root.
-/

namespace ForceTry

open ForceTry.Tree ForceTry.Grammar

namespace Tree

mutual

/-- The items of a tree, each behind the items nested in it. -/
def itemsInsideOut : Tree → List Tree
  | .leaf _ => []
  | .node n k cs => itemsInsideOutOf cs ++ if k = .item then [.node n k cs] else []

/-- The items of several trees, each behind the items nested in it. -/
def itemsInsideOutOf : List Tree → List Tree
  | [] => []
  | c :: cs => itemsInsideOut c ++ itemsInsideOutOf cs

end

theorem mem_itemsInsideOut {t m : Tree} (h : m ∈ t.itemsInsideOut) :
    m ∈ t.nodes ∧ m.isKind .item = true := by
  induction t using Tree.induction with
  | leaf l => cases h
  | node n k cs ih =>
      have hbelow : ∀ ds : List Tree, (∀ d ∈ ds, d ∈ cs) → m ∈ itemsInsideOutOf ds →
          m ∈ nodesOf ds ∧ m.isKind .item = true := by
        intro ds
        induction ds with
        | nil =>
            intro _ hm
            cases hm
        | cons d ds ihds =>
            intro hds hm
            rw [nodesOf_cons]
            rcases List.mem_append.mp hm with hm | hm
            · have hd := ih d (hds d (List.mem_cons_self ..)) hm
              exact ⟨List.mem_append_left _ hd.1, hd.2⟩
            · have hrest := ihds (fun e he => hds e (List.mem_cons_of_mem d he)) hm
              exact ⟨List.mem_append_right _ hrest.1, hrest.2⟩
      rcases List.mem_append.mp h with h | h
      · have hcs := hbelow cs (fun _ hc => hc) h
        exact ⟨List.mem_cons_of_mem _ hcs.1, hcs.2⟩
      · split at h
        · next hk =>
            rw [List.mem_singleton.mp h, isKind_node, hk]
            exact ⟨List.mem_cons_self .., rfl⟩
        · cases h

/-!
# Outside nested blocks
-/

/-- Outside nested blocks `u` has nodes of the same kinds as `t`, one by one. -/
structure SameOutside (t u : Tree) : Prop where
  kind : u.kind? = t.kind?
  direct : t.isKind .block = false → u.directNodes.map kind? = t.directNodes.map kind?

theorem SameOutside.refl (t : Tree) : SameOutside t t := ⟨rfl, fun _ => rfl⟩

theorem map_kind?_directNodesOf_cons {t u : Tree} {ts us : List Tree} (h : SameOutside t u)
    (hs : (directNodesOf us).map kind? = (directNodesOf ts).map kind?) :
    (directNodesOf (u :: us)).map kind? = (directNodesOf (t :: ts)).map kind? := by
  have hblock : u.isKind .block = t.isKind .block := by rw [isKind, isKind, h.kind]
  rw [directNodesOf, directNodesOf, List.map_append, List.map_append, hs, hblock]
  congr 1
  split
  · rfl
  · next hnot => exact h.direct (by simpa using hnot)

theorem matchesFilter_eq (f : KindFilter) (t : Tree) :
    t.matchesFilter f = t.kind?.any f.holds := by
  cases t <;> rfl

theorem map_kind?_directCandidates {t u : Tree}
    (h : u.directNodes.map kind? = t.directNodes.map kind?) (f : KindFilter) :
    (u.directCandidates f).map kind? = (t.directCandidates f).map kind? := by
  have hfilter : ∀ ms : List Tree, (ms.filter (matchesFilter f)).map kind? =
      (ms.map kind?).filter fun k => k.any f.holds := by
    intro ms
    rw [List.filter_map]
    congr 2
    funext m
    exact matchesFilter_eq f m
  rw [directCandidates, directCandidates, hfilter, hfilter, h]

end Tree

namespace Pass

/-!
# Visits
-/

/-- A visit to an item: the item as it stands in the tree, and with the items nested in it done. -/
structure Visit where
  old : Tree
  updated : Tree

/-- The item still has nodes of the kinds that it has in the tree, one by one. -/
def Visit.Steady (v : Visit) : Prop := v.updated.directNodes.map kind? = v.old.directNodes.map kind?

/-- The transformation of a pass, which also writes down the items that it visits. -/
def recording (pass : Pass) : Transformation (Progress × List Visit) Fault where
  supply s := (s.1.supply.1, s.1.supply.2, s.2)
  unspliceable := pass.transformation.unspliceable
  enters := pass.transformation.enters
  onLeaf l := pure (.leaf l)
  onNode old updated s := do
    let (replacement, progress) ← pass.transformation.onNode old updated s.1
    .ok (replacement, progress, if old.isKind .item then s.2 ++ [⟨old, updated⟩] else s.2)

/-- Runs a pass as `Pass.run` does and answers its visits as well. -/
def runRecorded (pass : Pass) (next : Nat) : Except Fault (Report × List Visit) := do
  let (replacement, progress, visits) ←
    (pass.root.transform pass.recording).run (Progress.start next, [])
  match replacement with
  | .one tree =>
      .ok (⟨tree, progress.applied, progress.skipped, progress.errors, progress.next⟩, visits)
  | .many _ => .error .splicedRoot

theorem transform_of_children {σ ε : Type} {r : Transformation σ ε} {n : Nat} {k : NodeKind}
    {cs us : List Tree} {spliced : Bool} {s s' : σ} (henters : r.enters k = true)
    (h : transformAll r (Place.singleNames k cs) cs s = .ok ((us, spliced), s')) :
    transform r (.node n k cs) s =
      if sameElements cs us && !spliced then r.onNode (.node n k cs) (.node n k cs) s'
      else r.onNode (.node n k cs) (.node (r.supply s').1 k us) (r.supply s').2 := by
  rw [transform, if_pos henters]
  refine (bind_of_ok h _).trans ?_
  show (if sameElements cs us && !spliced then r.onNode (.node n k cs) (.node n k cs)
    else do
      let m ← modifyGet r.supply
      r.onNode (.node n k cs) (.node m k us) : StateT σ (Except ε) Replacement) s' = _
  split <;> rfl

variable {pass : Pass}

theorem tryCandidates_cons (hdebug : pass.debug = false) (ctx : Context) (c : Tree)
    (cs : List Tree) (p : Progress) :
    pass.tryCandidates ctx (c :: cs) p =
      match pass.rule.refactor c ctx p.next with
      | .error e => pass.tryCandidates ctx cs (p.addError e.raisedText)
      | .ok (.success items _, next) =>
          .ok (some items, { p with next := max p.next next, applied := p.applied + 1 })
      | .ok (.failure e _, next) =>
          pass.tryCandidates ctx cs
            (if e.isNotApplicable then
              { p with next := max p.next next, skipped := p.skipped + 1 }
            else { p with next := max p.next next }.addError e.message)
      | .ok (.skipped e _, next) =>
          pass.tryCandidates ctx cs ({ p with next := max p.next next }.addError
            ((e.map Fault.message).getD (Value.display .null))) := by
  rw [tryCandidates]
  refine (bind_of_ok rfl _).trans ?_
  cases pass.rule.refactor c ctx p.next with
  | error e =>
      simp only [hdebug]
      rfl
  | ok answer =>
      rcases answer with ⟨outcome, next⟩
      cases outcome with
      | success items metadata => rfl
      | failure e metadata =>
          cases hdeclines : e.isNotApplicable with
          | true =>
              simp only [hdeclines]
              rfl
          | false =>
              simp only [hdeclines]
              rfl
      | skipped e metadata => rfl

theorem tryCandidates_ok (hdebug : pass.debug = false) (ctx : Context) (cs : List Tree)
    (p : Progress) : ∃ found p', pass.tryCandidates ctx cs p = .ok (found, p') := by
  induction cs generalizing p with
  | nil => exact ⟨none, p, rfl⟩
  | cons c cs ih =>
      rw [tryCandidates_cons hdebug]
      split
      · exact ih _
      · exact ⟨_, _, rfl⟩
      · exact ih _
      · exact ih _

theorem onItem_ok (hdebug : pass.debug = false) (old updated : Tree) (p : Progress) :
    ∃ rep p', pass.onItem old updated p = .ok (rep, p') ∧
      (rep = .one updated ∨ ∃ items, rep = .many items) := by
  unfold onItem
  split
  · exact ⟨_, p, rfl, .inl rfl⟩
  dsimp only
  split
  · exact ⟨_, p, rfl, .inl rfl⟩
  rcases tryCandidates_ok hdebug (pass.context old updated)
    (updated.directCandidates pass.rule.accepts) p with ⟨found, p', hrun⟩
  cases found with
  | none => exact ⟨_, p', (bind_of_ok hrun _).trans rfl, .inl rfl⟩
  | some items => exact ⟨_, p', (bind_of_ok hrun _).trans rfl, .inr ⟨items, rfl⟩⟩

theorem onNode_ok (hdebug : pass.debug = false) (old updated : Tree) (p : Progress) :
    ∃ rep p', pass.transformation.onNode old updated p = .ok (rep, p') ∧
      (rep = .one updated ∨ old.isKind .item = true ∧ ∃ items, rep = .many items) := by
  cases hitem : old.isKind .item with
  | false =>
      refine ⟨.one updated, p, ?_, .inl rfl⟩
      show (if old.isKind .item = true then _ else _ : Run Replacement) p = _
      rw [hitem]
      rfl
  | true =>
      rcases onItem_ok hdebug old updated p with ⟨rep, p', hrun, hrep⟩
      refine ⟨rep, p', ?_, hrep.imp_right fun h => ⟨rfl, h⟩⟩
      show (if old.isKind .item = true then _ else _ : Run Replacement) p = _
      rw [hitem]
      exact hrun

/-!
# The walk through a tree
-/

/-- A pass goes through `t` and answers `rep`; `visits` are its visits on the way. -/
structure Walks (pass : Pass) (t : Tree) (p : Progress) (rep : Replacement) (p' : Progress)
    (visits : List Visit) : Prop where
  run : transform pass.transformation t p = .ok (rep, p')
  recorded : ∀ before, transform pass.recording t (p, before) = .ok (rep, p', before ++ visits)
  items : visits.map Visit.old = t.itemsInsideOut
  steady : ∀ v ∈ visits, v.Steady

structure WalksAll (pass : Pass) (places : List (Option String)) (ts : List Tree) (p : Progress)
    (us : List Tree) (spliced : Bool) (p' : Progress) (visits : List Visit) : Prop where
  run : transformAll pass.transformation places ts p = .ok ((us, spliced), p')
  recorded : ∀ before, transformAll pass.recording places ts (p, before) =
    .ok ((us, spliced), p', before ++ visits)
  items : visits.map Visit.old = itemsInsideOutOf ts
  steady : ∀ v ∈ visits, v.Steady

/-- A node whose children are done comes before the rule with its own children, or with new ones and a
new label. -/
theorem WalksAll.transform_node {n : Nat} {k : NodeKind} {cs us : List Tree} {spliced : Bool}
    {p p' : Progress} {visits : List Visit}
    (h : WalksAll pass (Place.singleNames k cs) cs p us spliced p' visits) :
    ∃ m vs q, (vs = cs ∨ vs = us) ∧
      transform pass.transformation (.node n k cs) p =
        pass.transformation.onNode (.node n k cs) (.node m k vs) q ∧
      ∀ before, transform pass.recording (.node n k cs) (p, before) =
        pass.recording.onNode (.node n k cs) (.node m k vs) (q, before ++ visits) := by
  cases hkept : sameElements cs us && !spliced with
  | true =>
      refine ⟨n, cs, p', .inl rfl, ?_, ?_⟩
      · rw [transform_of_children rfl h.run, if_pos hkept]
      · intro before
        rw [transform_of_children rfl (h.recorded before), if_pos hkept]
  | false =>
      have hnew : ¬ (sameElements cs us && !spliced) = true := by
        rw [hkept]
        exact Bool.false_ne_true
      refine ⟨p'.next, us, { p' with next := p'.next + 1 }, .inr rfl, ?_, ?_⟩
      · rw [transform_of_children rfl h.run, if_neg hnew]
        rfl
      · intro before
        rw [transform_of_children rfl (h.recorded before), if_neg hnew]
        rfl

theorem recording_onNode {old updated : Tree} {p p' : Progress} {rep : Replacement}
    (h : pass.transformation.onNode old updated p = .ok (rep, p')) (before : List Visit) :
    pass.recording.onNode old updated (p, before) =
      .ok (rep, p', before ++ if old.isKind .item then [⟨old, updated⟩] else []) := by
  have hstep : pass.recording.onNode old updated (p, before) =
      .ok (rep, p', if old.isKind .item then before ++ [⟨old, updated⟩] else before) := by
    show (pass.transformation.onNode old updated p >>= fun result => _) = _
    rw [h]
    rfl
  rw [hstep]
  split
  · rfl
  · rw [List.append_nil]

theorem steady_node {n m : Nat} {k : NodeKind} {cs vs : List Tree}
    (h : (directNodesOf vs).map kind? = (directNodesOf cs).map kind?) :
    Visit.Steady ⟨.node n k cs, .node m k vs⟩ := by
  show (Tree.node m k vs).directNodes.map kind? = (Tree.node n k cs).directNodes.map kind?
  rw [directNodes, directNodes, List.map_cons, List.map_cons, h]
  rfl

/-- A node whose children are done comes out as a node of its kind, and an item perhaps as other
items. -/
theorem walks_node (hdebug : pass.debug = false) {n : Nat} {k : NodeKind} {cs us : List Tree}
    {spliced : Bool} {p p' : Progress} {visits : List Visit}
    (h : WalksAll pass (Place.singleNames k cs) cs p us spliced p' visits)
    (hsame : k = .item → (directNodesOf us).map kind? = (directNodesOf cs).map kind?) :
    ∃ rep p'' visits', Walks pass (.node n k cs) p rep p'' visits' ∧
      ((∃ m vs, rep = .one (.node m k vs) ∧ (vs = cs ∨ vs = us)) ∨
        k = .item ∧ ∃ items, rep = .many items) := by
  rcases @WalksAll.transform_node _ n _ _ _ _ _ _ _ h with ⟨m, vs, q, hvs, hrun, hrecorded⟩
  rcases onNode_ok hdebug (.node n k cs) (.node m k vs) q with ⟨rep, p'', hnode, hrep⟩
  simp only [isKind_node, beq_iff_eq] at hrep
  refine ⟨rep, p'', visits ++ if k = .item then [⟨.node n k cs, .node m k vs⟩] else [], ?_, ?_⟩
  · constructor
    · rw [hrun, hnode]
    · intro before
      rw [hrecorded, recording_onNode hnode, List.append_assoc]
      simp only [isKind_node, beq_iff_eq]
    · rw [List.map_append, h.items, itemsInsideOut]
      split <;> rfl
    · rw [List.forall_mem_append]
      refine ⟨h.steady, ?_⟩
      intro v hv
      split at hv
      · next hk =>
          rw [List.mem_singleton.mp hv]
          apply steady_node
          rcases hvs with rfl | rfl
          · rfl
          · exact hsame hk
      · cases hv
  · rcases hrep with rfl | hmany
    · exact .inl ⟨m, vs, rfl, hvs⟩
    · exact .inr hmany

mutual

theorem transform_walks (hdebug : pass.debug = false) (t : Tree) (p : Progress)
    (hformed : Formed t) :
    ∃ rep p' visits, Walks pass t p rep p' visits ∧
      ((∃ u, rep = .one u ∧ SameOutside t u) ∨
        t.isKind .item = true ∧ ∃ items, rep = .many items) := by
  cases t with
  | leaf l =>
      refine ⟨.one (.leaf l), p, [], ?_, .inl ⟨.leaf l, rfl, SameOutside.refl _⟩⟩
      refine ⟨rfl, ?_, rfl, fun v hv => by cases hv⟩
      intro before
      rw [List.append_nil]
      rfl
  | node n k cs =>
      have hcases := formed_cases hformed
      rcases transformAll_walks hdebug cs (Place.singleNames k cs) p
        (fun c hc => (hcases.2 c hc).1) (admits_of_fits hcases.1) with
        ⟨us, spliced, p', visits, hall, hsame⟩
      have hdirect : k ≠ .block → (directNodesOf us).map kind? = (directNodesOf cs).map kind? :=
        fun hk => hsame fun c hc => (hcases.2 c hc).2 hk
      rcases walks_node (n := n) hdebug hall (fun hk => hdirect (by rw [hk]; decide)) with
        ⟨rep, p'', visits', hwalks, hrep⟩
      refine ⟨rep, p'', visits', hwalks, ?_⟩
      rw [isKind_node, beq_iff_eq]
      refine hrep.imp_left ?_
      rintro ⟨m, vs, rfl, hvs⟩
      refine ⟨_, rfl, rfl, ?_⟩
      intro hblock
      have hk : k ≠ .block := by
        rw [isKind_node] at hblock
        simpa using hblock
      rw [directNodes, directNodes, List.map_cons, List.map_cons]
      rcases hvs with rfl | rfl
      · rfl
      · rw [hdirect hk]
        rfl
termination_by structural t

theorem transformAll_walks (hdebug : pass.debug = false) (ts : List Tree)
    (places : List (Option String)) (p : Progress) (hformed : ∀ t ∈ ts, Formed t)
    (hadmits : Admits places ts) :
    ∃ us spliced p' visits, WalksAll pass places ts p us spliced p' visits ∧
      ((∀ t ∈ ts, t.isKind .item = false) →
        (directNodesOf us).map kind? = (directNodesOf ts).map kind?) := by
  cases ts with
  | nil =>
      refine ⟨[], false, p, [], ⟨rfl, ?_, rfl, fun v hv => by cases hv⟩, fun _ => rfl⟩
      intro before
      rw [List.append_nil]
      rfl
  | cons t ts =>
      rcases transform_walks hdebug t p (hformed t (List.mem_cons_self ..)) with
        ⟨rep, p₁, visits₁, hwalks, hrep⟩
      rcases transformAll_walks hdebug ts places.tail p₁
        (fun t' h => hformed t' (List.mem_cons_of_mem t h)) hadmits.2 with
        ⟨us, spliced, p₂, visits₂, hall, hsame⟩
      have hcombine : ∀ (vs : List Tree) (spliced' : Bool),
          (∀ {σ : Type} (r : Transformation σ Fault) {s s₁ s₂ : σ},
            transform r t s = .ok (rep, s₁) →
            transformAll r places.tail ts s₁ = .ok ((us, spliced), s₂) →
            transformAll r places (t :: ts) s = .ok ((vs, spliced'), s₂)) →
          WalksAll pass places (t :: ts) p vs spliced' p₂ (visits₁ ++ visits₂) := by
        intro vs spliced' hstep
        constructor
        · exact hstep _ hwalks.run hall.run
        · intro before
          rw [← List.append_assoc]
          exact hstep _ (hwalks.recorded before) (hall.recorded (before ++ visits₁))
        · rw [List.map_append, hwalks.items, hall.items, itemsInsideOutOf]
        · intro v hv
          rcases List.mem_append.mp hv with hv | hv
          · exact hwalks.steady v hv
          · exact hall.steady v hv
      rcases hrep with ⟨u, rfl, hu⟩ | ⟨hitem, items, rfl⟩
      · refine ⟨u :: us, spliced, p₂, visits₁ ++ visits₂, hcombine _ _ ?_, ?_⟩
        · intro σ r s s₁ s₂ ht hts
          rw [transformAll, bind_of_ok ht]
          exact bind_of_ok hts _
        · intro hitems
          apply map_kind?_directNodesOf_cons hu
          exact hsame fun t' h => hitems t' (List.mem_cons_of_mem t h)
      · refine ⟨items ++ us, true, p₂, visits₁ ++ visits₂, hcombine _ _ ?_, ?_⟩
        · intro σ r s s₁ s₂ ht hts
          rw [transformAll, bind_of_ok ht]
          cases places with
          | nil => exact bind_of_ok hts _
          | cons place places =>
              cases place with
              | none => exact bind_of_ok hts _
              | some name => exact absurd rfl (hadmits.1 hitem name)
        · intro hitems
          rw [hitems t (List.mem_cons_self ..)] at hitem
          cases hitem
termination_by structural ts

end

theorem run_walks (hdebug : pass.debug = false) (hfile : FormsFile pass.root) (next : Nat) :
    ∃ report visits, pass.run next = .ok report ∧ pass.runRecorded next = .ok (report, visits) ∧
      visits.map Visit.old = pass.root.itemsInsideOut ∧ ∀ v ∈ visits, v.Steady := by
  rcases file_of_formsFile hfile with ⟨hfits, n, cs, hroot, hformed⟩
  rw [hroot] at hfits
  rcases transformAll_walks hdebug cs (Place.singleNames .sourceFile cs) (Progress.start next)
    hformed (admits_of_fits hfits) with ⟨us, spliced, p', visits, hall, _⟩
  rcases walks_node (n := n) hdebug hall (fun h => by cases h) with
    ⟨rep, p'', visits', hwalks, hrep⟩
  rcases hrep with ⟨m, vs, rfl, _⟩ | ⟨hitem, _⟩
  · refine ⟨⟨.node m .sourceFile vs, p''.applied, p''.skipped, p''.errors, p''.next⟩, visits',
      ?_, ?_, ?_, hwalks.steady⟩
    · rw [run, hroot]
      show (transform pass.transformation (.node n .sourceFile cs) (Progress.start next) >>=
        fun result => _) = _
      rw [hwalks.run]
      rfl
    · rw [runRecorded, hroot]
      show (transform pass.recording (.node n .sourceFile cs) (Progress.start next, []) >>=
        fun result => _) = _
      rw [hwalks.recorded]
      rfl
    · rw [hroot, hwalks.items]
  · cases hitem

/-- Whatever its rule answers, a pass over the tree of a source never fails.  It visits every item
once, behind the items nested in it.  An item that is visited has as many candidates as in the
source, one by one of the same kinds, and its line is found under the root. -/
theorem run_visits {first next : Nat} {source : Text} (hdebug : pass.debug = false)
    (h : ofTextFrom first source = .ok (pass.root, next)) :
    ∃ report visits, pass.run next = .ok report ∧ pass.runRecorded next = .ok (report, visits) ∧
      visits.map Visit.old = pass.root.itemsInsideOut ∧
      ∀ v ∈ visits,
        (v.updated.directCandidates pass.rule.accepts).map kind? =
          (v.old.directCandidates pass.rule.accepts).map kind? ∧
        ∃ starts, FoundUnder pass.root v.old starts ∧
          (pass.context v.old v.updated).atLineStart = some starts := by
  rcases ofTextFrom_forms h with ⟨_, _, _, hforms, hneat⟩
  rcases run_walks hdebug hforms next with ⟨report, visits, hrun, hrecorded, hitems, hsteady⟩
  refine ⟨report, visits, hrun, hrecorded, hitems, ?_⟩
  intro v hv
  refine ⟨map_kind?_directCandidates (hsteady v hv) _, ?_⟩
  have hold : v.old ∈ pass.root.itemsInsideOut := by
    rw [← hitems]
    exact List.mem_map_of_mem hv
  have hmem := mem_itemsInsideOut hold
  have hleaves : v.old.leaves ≠ [] := by
    have hkind : v.old.isKind .sourceFile = false := by
      rw [isKind, beq_iff_eq.mp hmem.2]
      rfl
    rcases formsItem_of_formed (formed_of_file hforms hmem.1 hkind) hmem.2 with ⟨_, _, hitem⟩
    exact leaves_of_formsItem hitem
  rcases foundUnder_of_mem_nodes hneat hmem.1 hleaves with ⟨starts, hfound⟩
  refine ⟨starts, hfound, ?_⟩
  rw [context, startsLine_of_foundUnder hfound]

/-- A rule that looks at nodes of every kind and puts nothing in the place of any item. -/
def dropping : Rule :=
  { DoCatch.rule with accepts := .any, refactor := fun _ _ n => .ok (.success [] [], n) }

theorem run_visits_dropping :
    ∃ t next report visits,
      ofTextFrom 0 (Text.ofString "f { try! g(); do { } catch { h() } }; ;\n") = .ok (t, next) ∧
      run ⟨dropping, t, .standard, .standard, false⟩ next = .ok report ∧
      runRecorded ⟨dropping, t, .standard, .standard, false⟩ next = .ok (report, visits) ∧
      visits.map Visit.old = t.itemsInsideOut ∧
      ∀ v ∈ visits,
        (v.updated.directCandidates .any).map kind? = (v.old.directCandidates .any).map kind? ∧
        ∃ starts, FoundUnder t v.old starts ∧
          (context ⟨dropping, t, .standard, .standard, false⟩ v.old v.updated).atLineStart =
            some starts := by
  have hok : (ofTextFrom 0
      (Text.ofString "f { try! g(); do { } catch { h() } }; ;\n")).isOk = true := by
    decide +kernel
  cases h : ofTextFrom 0 (Text.ofString "f { try! g(); do { } catch { h() } }; ;\n") with
  | error e =>
      rw [h] at hok
      cases hok
  | ok result =>
      rcases result with ⟨t, next⟩
      rcases @run_visits ⟨dropping, t, .standard, .standard, false⟩ 0 next _ rfl h with
        ⟨report, visits, hall⟩
      exact ⟨t, next, report, visits, rfl, hall⟩

end Pass
end ForceTry

import ForceTry.Proofs.Pass.Calls
import Mathlib.Data.List.Nodup

/-!
# The turns of a pass

Every item of a file has its turn, behind the items nested in it.  In its turn the rule is asked about the
candidates of the item, which holds by then what the rule has put in the place of the nested ones.  A pass,
its record and the same pass with a rule that answers alike go through a tree in the same steps, so what is
shown of one step after the other holds for all three.
-/

namespace ForceTry

open ForceTry.Tree ForceTry.Grammar

namespace Tree

/-!
# Answers put in
-/

mutual

def splice (answers : Nat → Option (List Tree)) : Tree → Tree
  | .leaf l => .leaf l
  | .node n k cs => .node n k (spliceAll answers cs)

/-- Several trees with answers in the place of those that are items, and of the items nested in the
others. -/
def spliceAll (answers : Nat → Option (List Tree)) : List Tree → List Tree
  | [] => []
  | c :: cs =>
      ((if c.isKind .item then answers c.label else none).getD [splice answers c]) ++
        spliceAll answers cs

end

mutual

theorem count_itemsInsideOut_le (t : Tree) (x : Nat) :
    (t.itemsInsideOut.map label).count x ≤ t.labels.count x := by
  cases t with
  | leaf l => exact Nat.zero_le _
  | node n k cs =>
      have hcs := count_itemsInsideOutOf_le cs x
      have hself : ((if k = .item then [Tree.node n k cs] else []).map label).count x ≤
          if n == x then 1 else 0 := by
        split
        · rw [List.map_singleton, List.count_singleton]
          exact Nat.le_refl _
        · exact Nat.zero_le _
      rw [itemsInsideOut, List.map_append, List.count_append, labels_node, List.count_cons]
      exact Nat.add_le_add hcs hself
termination_by structural t

theorem count_itemsInsideOutOf_le (ts : List Tree) (x : Nat) :
    ((itemsInsideOutOf ts).map label).count x ≤ (labelsOf ts).count x := by
  cases ts with
  | nil => exact Nat.le_refl _
  | cons t ts =>
      rw [itemsInsideOutOf, List.map_append, List.count_append, labelsOf_cons, List.count_append]
      exact Nat.add_le_add (count_itemsInsideOut_le t x) (count_itemsInsideOutOf_le ts x)
termination_by structural ts

end

end Tree

namespace Replacement

def trees : Replacement → List Tree
  | .one t => [t]
  | .many ts => ts

def splices : Replacement → Bool
  | .one _ => false
  | .many _ => true

end Replacement

namespace Pass

/-- A visit to an item, with the calls that are made there. -/
structure Turn extends Visit where
  calls : List Call

namespace Turn

def items? (turn : Turn) : Option (List Tree) := turn.calls.findSome? Call.items?

def succeeds (turn : Turn) : Bool := turn.items?.isSome

/-- The rule is asked about the candidates of the item in order, up to the first success. -/
structure Asks (pass : Pass) (turn : Turn) : Prop where
  candidates : turn.calls.map Call.candidate <+: turn.updated.directCandidates pass.rule.accepts
  statement : ∀ call ∈ turn.calls, call.context = pass.context turn.old turn.updated ∧
    call.context.statement = some turn.updated
  answers : ∀ call ∈ turn.calls, call.AnsweredBy pass.rule
  stops : ∀ call ∈ turn.calls.dropLast, call.items? = none
  goes : turn.items? = none →
    turn.calls.map Call.candidate = turn.updated.directCandidates pass.rule.accepts

theorem Asks.countP_succeeds {pass : Pass} {turn : Turn} (h : turn.Asks pass) :
    turn.calls.countP Call.succeeds = if turn.succeeds then 1 else 0 := by
  rw [succeeds, items?]
  rcases List.eq_nil_or_concat turn.calls with hnil | ⟨front, call, hcalls⟩
  · rw [hnil]
    rfl
  · rw [List.concat_eq_append] at hcalls
    have hfront : ∀ other ∈ front, other.items? = none := by
      intro other hother
      apply h.stops
      rwa [hcalls, List.dropLast_concat]
    have hcount : front.countP Call.succeeds = 0 := by
      rw [List.countP_eq_zero]
      intro other hother
      rw [Call.succeeds, hfront other hother]
      exact Bool.false_ne_true
    have hfind : front.findSome? Call.items? = none := List.findSome?_eq_none_iff.mpr hfront
    rw [hcalls, List.countP_append, hcount, List.findSome?_append, hfind, List.countP_singleton,
      List.findSome?_singleton, Nat.zero_add, Option.none_or]
    rfl

end Turn

theorem countP_succeeds_flatMap {pass : Pass} {turns : List Turn}
    (h : ∀ turn ∈ turns, turn.Asks pass) :
    (turns.flatMap Turn.calls).countP Call.succeeds = turns.countP Turn.succeeds := by
  induction turns with
  | nil => rfl
  | cons turn turns ih =>
      rw [List.forall_mem_cons] at h
      rw [List.flatMap_cons, List.countP_append, h.1.countP_succeeds, ih h.2, List.countP_cons,
        Nat.add_comm]

def Fruitless (turns : List Turn) : Prop := ∀ turn ∈ turns, turn.items? = none

theorem fruitless_append {turns turns' : List Turn} :
    Fruitless (turns ++ turns') ↔ Fruitless turns ∧ Fruitless turns' := List.forall_mem_append

/-- What the rule has put in the place of the item with the label `n`. -/
def answers (turns : List Turn) (n : Nat) : Option (List Tree) :=
  (turns.find? fun turn => turn.old.label == n).bind Turn.items?

theorem answers_of_nodup {turns : List Turn}
    (h : (turns.map fun turn => turn.old.label).Nodup) :
    ∀ turn ∈ turns, answers turns turn.old.label = turn.items? := by
  intro turn hturn
  have hfind : (turns.find? fun other => other.old.label == turn.old.label) = some turn := by
    induction turns with
    | nil => cases hturn
    | cons other turns ih =>
        rw [List.map_cons, List.nodup_cons] at h
        rcases List.mem_cons.mp hturn with rfl | hturn
        · exact List.find?_cons_of_pos (beq_self_eq_true _)
        · rw [List.find?_cons_of_neg]
          · exact ih h.2 hturn
          · intro heq
            rw [beq_iff_eq] at heq
            exact h.1 (heq ▸ List.mem_map_of_mem hturn)
  rw [answers, hfind]
  rfl

variable {pass : Pass}

/-!
# One turn
-/

def callsOn (pass : Pass) (old updated : Tree) (p : Progress) : List Call :=
  pass.asked (pass.context old updated) p (updated.directCandidates pass.rule.accepts)

/-- The turn that a node has: one when it is an item. -/
def turnOf (pass : Pass) (old updated : Tree) (p : Progress) : List Turn :=
  if old.isKind .item then [⟨⟨old, updated⟩, pass.callsOn old updated p⟩] else []

def outcomeOf (updated : Tree) (turns : List Turn) : Replacement :=
  match turns.findSome? Turn.items? with
  | some items => .many items
  | none => .one updated

theorem outcomeOf_of_fruitless {updated : Tree} {turns : List Turn} (h : Fruitless turns) :
    outcomeOf updated turns = .one updated := by
  rw [outcomeOf, List.findSome?_eq_none_iff.mpr h]

theorem fruitless_of_outcomeOf {updated u : Tree} {turns : List Turn}
    (h : outcomeOf updated turns = .one u) : Fruitless turns ∧ u = updated := by
  rw [outcomeOf] at h
  split at h
  · cases h
  · next hnone =>
      cases h
      exact ⟨List.findSome?_eq_none_iff.mp hnone, rfl⟩

theorem mem_turnOf {old updated : Tree} {p : Progress} {turn : Turn}
    (h : turn ∈ pass.turnOf old updated p) :
    old.isKind .item = true ∧ turn.old = old ∧ turn.updated = updated := by
  rw [turnOf] at h
  split at h
  · next hitem =>
      rw [List.mem_singleton.mp h]
      exact ⟨hitem, rfl, rfl⟩
  · cases h

theorem asks_turnOf (old updated : Tree) (p : Progress) :
    ∀ turn ∈ pass.turnOf old updated p, turn.Asks pass := by
  intro turn hturn
  rw [turnOf] at hturn
  split at hturn
  · rw [List.mem_singleton.mp hturn]
    have hcandidates := @candidates_asked pass (pass.context old updated) p
      (updated.directCandidates pass.rule.accepts)
    constructor
    · exact hcandidates.1
    · exact forall_asked (fun c _ next => ⟨rfl, rfl⟩) p
    · exact forall_asked (fun c _ next => rfl) p
    · exact dropLast_asked _ p _
    · exact hcandidates.2
  · cases hturn

theorem onItem_asked (hdebug : pass.debug = false) {old updated : Tree}
    (hsteady : Visit.Steady ⟨old, updated⟩) (p : Progress) :
    pass.onItem old updated p =
      .ok (outcomeOf updated [⟨⟨old, updated⟩, pass.callsOn old updated p⟩],
        (pass.callsOn old updated p).foldl Progress.after p) := by
  have hlength : (updated.directCandidates pass.rule.accepts).length =
      (old.directCandidates pass.rule.accepts).length := by
    have hmap := congrArg List.length (map_kind?_directCandidates hsteady pass.rule.accepts)
    rwa [List.length_map, List.length_map] at hmap
  have hrun := tryCandidates_asked hdebug (pass.context old updated)
    (updated.directCandidates pass.rule.accepts) p
  unfold onItem outcomeOf
  rw [List.findSome?_singleton, Turn.items?]
  split
  · next hempty =>
      have hnil : updated.directCandidates pass.rule.accepts = [] := by
        rw [List.isEmpty_iff] at hempty
        rw [hempty] at hlength
        exact List.eq_nil_of_length_eq_zero hlength
      rw [callsOn, hnil]
      rfl
  · dsimp only
    rw [if_neg (by simp [hlength]), callsOn]
    refine (bind_of_ok hrun _).trans ?_
    cases (pass.asked (pass.context old updated) p
      (updated.directCandidates pass.rule.accepts)).findSome? Call.items? <;> rfl

/-!
# Runs
-/

section

variable {α : Type} {p p' p'' : Progress}

/-- What is done for every transformation alike, for the pass, with its visits written down, and for a
pass with a rule that answers the calls alike. -/
structure Runs (pass : Pass)
    (f : {σ : Type} → Transformation σ Fault → StateT σ (Except Fault) α)
    (p : Progress) (a : α) (p' : Progress) (turns : List Turn) : Prop where
  run : f pass.transformation p = .ok (a, p')
  recorded : ∀ before, f pass.recording (p, before) = .ok (a, p', before ++ turns.map Turn.toVisit)
  determined : ∀ rule : Rule, rule.accepts = pass.rule.accepts →
    (∀ turn ∈ turns, ∀ call ∈ turn.calls, call.AnsweredBy rule) →
      f (transformation { pass with rule := rule }) p = .ok (a, p')

theorem Runs.pure {f : {σ : Type} → Transformation σ Fault → StateT σ (Except Fault) α} {a : α}
    (h : ∀ pass : Pass, f pass.transformation p = .ok (a, p))
    (hrecorded : ∀ visits, f pass.recording (p, visits) = .ok (a, p, visits)) :
    Runs pass f p a p [] := by
  constructor
  · exact h pass
  · intro before
    rw [List.map_nil, List.append_nil]
    exact hrecorded before
  · intro rule _ _
    exact h { pass with rule := rule }

theorem runs_onNode (hdebug : pass.debug = false) {old updated : Tree}
    (hsteady : old.isKind .item = true → Visit.Steady ⟨old, updated⟩) (p : Progress) :
    Runs pass (fun r => r.onNode old updated) p (outcomeOf updated (pass.turnOf old updated p))
      (((pass.turnOf old updated p).flatMap Turn.calls).foldl Progress.after p)
      (pass.turnOf old updated p) := by
  -- The same holds for every rule, so that the case of another rule is the same once more.
  have hrun : ∀ pass : Pass, pass.debug = false → pass.transformation.onNode old updated p =
      .ok (outcomeOf updated (pass.turnOf old updated p),
        ((pass.turnOf old updated p).flatMap Turn.calls).foldl Progress.after p) := by
    intro pass hdebug
    rw [turnOf]
    show (if old.isKind .item = true then _ else _ : Run Replacement) p = _
    split
    · next hitem =>
        rw [List.flatMap_singleton]
        exact onItem_asked hdebug (hsteady hitem) p
    · rfl
  constructor
  · exact hrun pass hdebug
  · intro before
    show (pass.transformation.onNode old updated p >>= fun result => _) = _
    rw [hrun pass hdebug]
    have hvisits : (pass.turnOf old updated p).map Turn.toVisit =
        if old.isKind .item then [⟨old, updated⟩] else [] := by
      rw [turnOf]
      split <;> rfl
    rw [hvisits]
    show Except.ok (_, _, if old.isKind .item then before ++ [⟨old, updated⟩] else before) = _
    split
    · rfl
    · rw [List.append_nil]
  · intro rule haccepts hcalls
    have hturn : turnOf { pass with rule := rule } old updated p = pass.turnOf old updated p := by
      rw [turnOf, turnOf]
      split
      · next hitem =>
          have hsame : callsOn { pass with rule := rule } old updated p = pass.callsOn old updated p := by
            rw [callsOn, callsOn, haccepts]
            apply asked_of_answeredBy
            apply hcalls ⟨⟨old, updated⟩, pass.callsOn old updated p⟩
            rw [turnOf, if_pos hitem]
            exact List.mem_singleton_self _
          rw [hsame]
      · rfl
    have hother := hrun { pass with rule := rule } hdebug
    rwa [hturn] at hother

/-- A node with its children done: itself when they came back, and a new one otherwise. -/
def withChildren (n : Nat) (k : NodeKind) (cs us : List Tree) (spliced : Bool) (p : Progress) :
    Tree × Progress :=
  if sameElements cs us && !spliced then (.node n k cs, p)
  else (.node p.next k us, { p with next := p.next + 1 })

theorem Runs.node {n : Nat} {k : NodeKind} {cs us : List Tree} {spliced : Bool}
    {turns own : List Turn} {rep : Replacement}
    (h : Runs pass (fun r => transformAll r (Place.singleNames k cs) cs) p (us, spliced) p' turns)
    (hown : Runs pass (fun r => r.onNode (.node n k cs) (withChildren n k cs us spliced p').1)
      (withChildren n k cs us spliced p').2 rep p'' own) :
    Runs pass (fun r => transform r (.node n k cs)) p rep p'' (turns ++ own) := by
  rw [withChildren] at hown
  cases hsame : sameElements cs us && !spliced with
  | true =>
      rw [if_pos hsame] at hown
      constructor
      · rw [transform_of_children rfl h.run, if_pos hsame]
        exact hown.run
      · intro before
        rw [transform_of_children rfl (h.recorded before), if_pos hsame, List.map_append,
          ← List.append_assoc]
        exact hown.recorded _
      · intro rule haccepts hcalls
        rw [List.forall_mem_append] at hcalls
        rw [transform_of_children rfl (h.determined rule haccepts hcalls.1), if_pos hsame]
        exact hown.determined rule haccepts hcalls.2
  | false =>
      have hnot : ¬ (sameElements cs us && !spliced) = true := Bool.eq_false_iff.mp hsame
      rw [if_neg hnot] at hown
      constructor
      · rw [transform_of_children rfl h.run, if_neg hnot]
        exact hown.run
      · intro before
        rw [transform_of_children rfl (h.recorded before), if_neg hnot, List.map_append,
          ← List.append_assoc]
        exact hown.recorded _
      · intro rule haccepts hcalls
        rw [List.forall_mem_append] at hcalls
        rw [transform_of_children rfl (h.determined rule haccepts hcalls.1), if_neg hnot]
        exact hown.determined rule haccepts hcalls.2

theorem transformAll_cons_of_ok {σ : Type} {r : Transformation σ Fault} {s s' s'' : σ} {t : Tree}
    {ts us : List Tree} {places : List (Option String)} {rep : Replacement} {spliced : Bool}
    (hplace : ∀ items, rep = .many items → ∀ name, places.head? ≠ some (some name))
    (ht : transform r t s = .ok (rep, s'))
    (hts : transformAll r places.tail ts s' = .ok ((us, spliced), s'')) :
    transformAll r places (t :: ts) s = .ok ((rep.trees ++ us, rep.splices || spliced), s'') := by
  rw [transformAll, bind_of_ok ht]
  cases rep with
  | one u => exact bind_of_ok hts _
  | many items =>
      cases places with
      | nil => exact bind_of_ok hts _
      | cons place places =>
          cases place with
          | none => exact bind_of_ok hts _
          | some name => exact absurd rfl (hplace items rfl name)

theorem Runs.cons {t : Tree} {ts us : List Tree} {places : List (Option String)} {rep : Replacement}
    {spliced : Bool} {turns turns' : List Turn}
    (h : Runs pass (fun r => transform r t) p rep p' turns)
    (hs : Runs pass (fun r => transformAll r places.tail ts) p' (us, spliced) p'' turns')
    (hplace : ∀ items, rep = .many items → ∀ name, places.head? ≠ some (some name)) :
    Runs pass (fun r => transformAll r places (t :: ts)) p (rep.trees ++ us, rep.splices || spliced) p''
      (turns ++ turns') := by
  constructor
  · exact transformAll_cons_of_ok hplace h.run hs.run
  · intro before
    rw [List.map_append, ← List.append_assoc]
    exact transformAll_cons_of_ok hplace (h.recorded before) (hs.recorded _)
  · intro rule haccepts hcalls
    rw [List.forall_mem_append] at hcalls
    exact transformAll_cons_of_ok hplace (h.determined rule haccepts hcalls.1)
      (hs.determined rule haccepts hcalls.2)

end

end Pass
end ForceTry

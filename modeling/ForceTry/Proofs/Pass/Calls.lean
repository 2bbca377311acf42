import ForceTry.Proofs.Pass.Visits

/-!
# What a pass asks its rule

The rule is asked about one candidate after the other until it succeeds.  Each call is a success, a refusal
that is skipped over, or an error, and the tally counts it as what it is.  The calls are all that a visit to
an item takes from the rule: a rule that answers them alike makes the same of the item.
-/

namespace ForceTry

open ForceTry.Tree

/-- One call of a rule, with labels from `next` on, and the answer. -/
structure Call where
  candidate : Tree
  context : Context
  next : Nat
  answer : Except Fault (Outcome (List Tree) × Nat)

namespace Call

def items? (call : Call) : Option (List Tree) :=
  match call.answer with
  | .ok (.success items _, _) => some items
  | _ => none

def succeeds (call : Call) : Bool := call.items?.isSome

def declines (call : Call) : Bool :=
  match call.answer with
  | .ok (outcome, _) => outcome.isNotApplicable
  | .error _ => false

/-- What is recorded of an answer that is neither a success nor a refusal. -/
def complaint? (call : Call) : Option Text :=
  match call.answer with
  | .error e => some e.raisedText
  | .ok (.success _ _, _) => none
  | .ok (.failure e _, _) => if e.isNotApplicable then none else some e.message
  | .ok (.skipped e _, _) => some ((e.map Fault.message).getD (Value.display .null))

def AnsweredBy (rule : Rule) (call : Call) : Prop :=
  rule.refactor call.candidate call.context call.next = call.answer

theorem counted (call : Call) :
    (if call.succeeds then 1 else 0) + (if call.declines then 1 else 0) +
      call.complaint?.toList.length = 1 := by
  rcases call with ⟨candidate, context, next, answer⟩
  match answer with
  | .error e => rfl
  | .ok (.success items _, _) => rfl
  | .ok (.skipped e _, _) => rfl
  | .ok (.failure e _, _) =>
      cases h : e.isNotApplicable <;>
        simp [succeeds, items?, declines, complaint?, Outcome.isNotApplicable, h]

end Call

namespace Progress

def after (p : Progress) (call : Call) : Progress where
  next := match call.answer with
    | .ok (_, next) => max p.next next
    | .error _ => p.next
  applied := p.applied + if call.succeeds then 1 else 0
  skipped := p.skipped + if call.declines then 1 else 0
  errors := p.errors ++ call.complaint?.toList

structure Tallies (p : Progress) (calls : List Call) (p' : Progress) : Prop where
  next : p.next ≤ p'.next
  applied : p'.applied = p.applied + calls.countP Call.succeeds
  skipped : p'.skipped = p.skipped + calls.countP Call.declines
  errors : p'.errors = p.errors ++ calls.filterMap Call.complaint?

theorem Tallies.nil {p : Progress} : Tallies p [] p where
  next := Nat.le_refl p.next
  applied := rfl
  skipped := rfl
  errors := (List.append_nil p.errors).symm

theorem Tallies.append {p p' p'' : Progress} {calls calls' : List Call} (h : Tallies p calls p')
    (h' : Tallies p' calls' p'') : Tallies p (calls ++ calls') p'' where
  next := Nat.le_trans h.next h'.next
  applied := by rw [h'.applied, h.applied, List.countP_append, Nat.add_assoc]
  skipped := by rw [h'.skipped, h.skipped, List.countP_append, Nat.add_assoc]
  errors := by rw [h'.errors, h.errors, List.filterMap_append, List.append_assoc]

theorem tallies_after (p : Progress) (call : Call) : Tallies p [call] (p.after call) where
  next := by
    unfold after
    split
    · exact Nat.le_max_left _ _
    · exact Nat.le_refl _
  applied := by rw [List.countP_singleton]; rfl
  skipped := by rw [List.countP_singleton]; rfl
  errors := by
    rw [after, List.filterMap_cons]
    cases call.complaint? <;> rfl

theorem tallies_foldl (p : Progress) (calls : List Call) : Tallies p calls (calls.foldl after p) := by
  induction calls generalizing p with
  | nil => exact .nil
  | cons call calls ih => exact (tallies_after p call).append (ih (p.after call))

theorem Tallies.total {n : Nat} {calls : List Call} {p' : Progress} (h : Tallies (start n) calls p') :
    p'.applied + p'.skipped + p'.errors.length = calls.length := by
  have hsum : calls.countP Call.succeeds + calls.countP Call.declines +
      (calls.filterMap Call.complaint?).length = calls.length := by
    clear h
    induction calls with
    | nil => rfl
    | cons call calls ih =>
        have hcall := call.counted
        have herrors : ((call :: calls).filterMap Call.complaint?).length =
            call.complaint?.toList.length + (calls.filterMap Call.complaint?).length := by
          rw [List.filterMap_cons]
          cases call.complaint? with
          | none => exact (Nat.zero_add _).symm
          | some e => exact Nat.add_comm _ 1
        rw [List.countP_cons, List.countP_cons, herrors, List.length_cons]
        omega
  rw [h.applied, h.skipped, h.errors]
  simpa [start] using hsum

end Progress

namespace Pass

open Progress (Tallies)

variable {pass : Pass}

def asked (pass : Pass) (ctx : Context) : Progress → List Tree → List Call
  | _, [] => []
  | p, c :: cs =>
      let call : Call := ⟨c, ctx, p.next, pass.rule.refactor c ctx p.next⟩
      call :: if call.succeeds then [] else asked pass ctx (p.after call) cs

/-- The rule answers, and the pass stops at a success and goes on behind every other answer. -/
theorem tryCandidates_step (hdebug : pass.debug = false) (ctx : Context) (c : Tree) (cs : List Tree)
    (p : Progress) {call : Call} (hcall : call = ⟨c, ctx, p.next, pass.rule.refactor c ctx p.next⟩) :
    pass.tryCandidates ctx (c :: cs) p =
      match call.items? with
      | some items => .ok (some items, p.after call)
      | none => pass.tryCandidates ctx cs (p.after call) := by
  rw [tryCandidates_cons hdebug]
  subst hcall
  match pass.rule.refactor c ctx p.next with
  | .error e => rfl
  | .ok (.success items metadata, next) =>
      show _ = Except.ok (some items, Progress.mk _ _ _ (p.errors ++ []))
      rw [List.append_nil]
      rfl
  | .ok (.skipped e metadata, next) => rfl
  | .ok (.failure e metadata, next) =>
      show pass.tryCandidates ctx cs _ = pass.tryCandidates ctx cs _
      congr 1
      unfold Progress.after Call.succeeds Call.declines Call.complaint?
      cases hdeclines : e.isNotApplicable <;>
        simp [Call.items?, Outcome.isNotApplicable, hdeclines, Progress.addError]

theorem tryCandidates_asked (hdebug : pass.debug = false) (ctx : Context) (cs : List Tree)
    (p : Progress) :
    pass.tryCandidates ctx cs p =
      .ok ((pass.asked ctx p cs).findSome? Call.items?, (pass.asked ctx p cs).foldl Progress.after p) := by
  induction cs generalizing p with
  | nil => rfl
  | cons c cs ih =>
      rw [tryCandidates_step hdebug ctx c cs p rfl, asked]
      generalize (⟨c, ctx, p.next, pass.rule.refactor c ctx p.next⟩ : Call) = call
      rw [List.findSome?_cons, List.foldl_cons, Call.succeeds]
      cases call.items? with
      | some items => rfl
      | none => exact ih (p.after call)

theorem candidates_asked (ctx : Context) (p : Progress) (cs : List Tree) :
    (pass.asked ctx p cs).map Call.candidate <+: cs ∧
      ((pass.asked ctx p cs).findSome? Call.items? = none →
        (pass.asked ctx p cs).map Call.candidate = cs) := by
  induction cs generalizing p with
  | nil => exact ⟨List.prefix_refl [], fun _ => rfl⟩
  | cons c cs ih =>
      rw [asked]
      generalize hcall : (⟨c, ctx, p.next, pass.rule.refactor c ctx p.next⟩ : Call) = call
      have hcandidate : call.candidate = c := by rw [← hcall]
      rw [List.map_cons, List.findSome?_cons, Call.succeeds, hcandidate]
      cases call.items? with
      | some items =>
          constructor
          · exact List.prefix_append [c] cs
          · intro hnone
            cases hnone
      | none =>
          rcases ih (p.after call) with ⟨hfront, hall⟩
          constructor
          · exact List.cons_prefix_cons.mpr ⟨rfl, hfront⟩
          · intro hnone
            exact congrArg (c :: ·) (hall hnone)

theorem forall_asked {P : Call → Prop} {ctx : Context} {cs : List Tree}
    (h : ∀ c ∈ cs, ∀ next, P ⟨c, ctx, next, pass.rule.refactor c ctx next⟩) (p : Progress) :
    ∀ call ∈ pass.asked ctx p cs, P call := by
  induction cs generalizing p with
  | nil =>
      intro call hcall
      cases hcall
  | cons c cs ih =>
      rcases List.forall_mem_cons.mp h with ⟨hc, hcs⟩
      rw [asked]
      rw [List.forall_mem_cons]
      constructor
      · exact hc p.next
      · split
        · intro call hcall
          cases hcall
        · exact ih hcs _

theorem dropLast_asked (ctx : Context) (p : Progress) (cs : List Tree) :
    ∀ call ∈ (pass.asked ctx p cs).dropLast, call.items? = none := by
  induction cs generalizing p with
  | nil =>
      intro call hcall
      cases hcall
  | cons c cs ih =>
      rw [asked]
      generalize hcall : (⟨c, ctx, p.next, pass.rule.refactor c ctx p.next⟩ : Call) = call
      rw [Call.succeeds]
      cases hitems : call.items? with
      | some items =>
          intro other hother
          cases hother
      | none =>
          have hrest := ih (p.after call)
          rw [Option.isSome_none, if_neg Bool.false_ne_true]
          cases h : pass.asked ctx (p.after call) cs with
          | nil =>
              intro other hother
              cases hother
          | cons next rest =>
              rw [h] at hrest
              rw [List.dropLast_cons_of_ne_nil (List.cons_ne_nil next rest), List.forall_mem_cons]
              exact ⟨hitems, hrest⟩

theorem asked_of_answeredBy {rule : Rule} {ctx : Context} {p : Progress} {cs : List Tree}
    (h : ∀ call ∈ pass.asked ctx p cs, call.AnsweredBy rule) :
    asked { pass with rule := rule } ctx p cs = pass.asked ctx p cs := by
  induction cs generalizing p with
  | nil => rfl
  | cons c cs ih =>
      rw [asked] at h ⊢
      rw [asked]
      dsimp only at h ⊢
      rw [List.forall_mem_cons] at h
      rcases h with ⟨hcall, hrest⟩
      have hanswer : rule.refactor c ctx p.next = pass.rule.refactor c ctx p.next := hcall
      rw [hanswer]
      split at hrest
      · next hsucceeds => rw [if_pos hsucceeds, if_pos hsucceeds]
      · next hsucceeds => rw [if_neg hsucceeds, if_neg hsucceeds, ih hrest]

end Pass
end ForceTry

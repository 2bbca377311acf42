import Mathlib.Algebra.GroupWithZero.Nat
import ForceTry.Proofs.Pass.Rewrite

/-!
# The pass and its function

Step by step the pass makes the tree that `Pass.rewritten` says, and it counts: every item to which a
forced `try` belongs directly is wrapped once, and every `try` in front of its first forced one is
passed over.  Labels stay apart all the way, so an element that comes back with its label is the same
element.
-/

namespace ForceTry

open ForceTry.DoCatch ForceTry.Tree ForceTry.Grammar

namespace Tree

/-- The `try` nodes that belong to an element directly, in source order. -/
def directTries (t : Tree) : List Tree := t.directCandidates (.only .tryExpression)

/-- An item to which a forced `try` belongs directly. -/
def isForcedItem (t : Tree) : Bool := t.isKind .item && t.directTries.any isForceTry

/-- The `try` nodes of an item in front of its first forced one. -/
def passedOver (t : Tree) : Nat :=
  if t.isKind .item then (t.directTries.takeWhile fun m => !m.isForceTry).length else 0

/-- The number of items below some trees to which a forced `try` belongs directly. -/
def forcedItemsOf (ts : List Tree) : Nat := (nodesOf ts).countP isForcedItem

/-- The number of `try` nodes below some trees that are passed over. -/
def passedOverOf (ts : List Tree) : Nat := ((nodesOf ts).map passedOver).sum

@[simp] theorem nodesOf_nil : nodesOf [] = [] := rfl

@[simp] theorem nodesOf_cons (c : Tree) (cs : List Tree) :
    nodesOf (c :: cs) = c.nodes ++ nodesOf cs := rfl

theorem forcedItemsOf_cons (c : Tree) (cs : List Tree) :
    forcedItemsOf (c :: cs) = forcedItemsOf [c] + forcedItemsOf cs := by
  simp [forcedItemsOf]

theorem passedOverOf_cons (c : Tree) (cs : List Tree) :
    passedOverOf (c :: cs) = passedOverOf [c] + passedOverOf cs := by
  simp [passedOverOf]

theorem forcedItemsOf_node (n : Nat) (k : NodeKind) (cs : List Tree) :
    forcedItemsOf [.node n k cs] =
      forcedItemsOf cs + if (Tree.node n k cs).isForcedItem then 1 else 0 := by
  simp [forcedItemsOf, nodes, List.countP_cons]

theorem passedOverOf_node (n : Nat) (k : NodeKind) (cs : List Tree) :
    passedOverOf [.node n k cs] = passedOverOf cs + (Tree.node n k cs).passedOver := by
  simp [passedOverOf, nodes, Nat.add_comm]

theorem any_isForceTry_directTries (t : Tree) : t.directTries.any isForceTry = t.traits.any Prod.fst := by
  rw [traits, List.any_map]
  rfl

theorem length_passedOver (t : Tree) :
    (t.directTries.takeWhile fun m => !m.isForceTry).length =
      (t.traits.takeWhile fun x => !x.1).length := by
  rw [traits, List.takeWhile_map, List.length_map]
  rfl

theorem shape_of_isForceTry {t : Tree} (h : t.isForceTry = true) :
    ∃ n c mark operand, t = .node n .tryExpression [c, .leaf mark, operand] := by
  unfold isForceTry tryMark? at h
  split at h
  · next heq =>
      split at heq
      · exact ⟨_, _, _, _, rfl⟩
      · cases heq
  · cases h

theorem isKind_of_isForceTry {t : Tree} (h : t.isForceTry = true) :
    matchesFilter (.only .tryExpression) t = true := by
  rcases shape_of_isForceTry h with ⟨n, c, mark, operand, rfl⟩
  rfl

theorem find?_directTries (t : Tree) : t.directTries.find? isForceTry = t.firstForced? := by
  rw [directTries, directCandidates, List.find?_filter, firstForced?]
  congr 1
  funext m
  cases hm : m.isForceTry with
  | false => simp
  | true => simp [isKind_of_isForceTry hm]

theorem isSome_firstForced? (t : Tree) : t.firstForced?.isSome = t.traits.any Prod.fst := by
  rw [← find?_directTries, List.isSome_find?, any_isForceTry_directTries]

end Tree

/-- A node that is without a mark behind a pass was a forced `try`, or one of its parts lost a mark. -/
theorem Pass.unforce?_cases {pass : Pass} {n : Nat} {k : NodeKind} {cs : List Tree} {stripped : Tree}
    (h : unforce? withoutMark (.node n k (pass.rewrittenAll cs)) = some stripped) :
    (k = .tryExpression ∧ (Tree.node n k cs).isForceTry = true ∧
        stripped = withoutMark (.node n k (pass.rewrittenAll cs))) ∨
      ∃ us, stripped = .node n k us ∧ unforceAll? withoutMark (pass.rewrittenAll cs) = some us := by
  rw [unforce?] at h
  split at h
  · next hforced =>
      cases h
      have hold : (Tree.node n k cs).isForceTry = true := by
        rw [← (@isForceTry_of_leafKind n n k _ _ (map_leafKind_rewrittenAll pass cs)).1]
        exact hforced
      rcases shape_of_isForceTry hold with ⟨_, _, _, _, heq⟩
      injection heq with _ hkind _
      exact .inl ⟨hkind, hold, rfl⟩
  · rw [Option.map_eq_some_iff] at h
    rcases h with ⟨us, hus, rfl⟩
    exact .inr ⟨us, rfl, hus⟩

/-!
# Labels on the way
-/

namespace Tree

/-- The element `t'` came out for `t`, and the labels from `n` up to `n'` were handed out. -/
structure Renewed (n : Nat) (t t' : Tree) (n' : Nat) : Prop where
  le : n ≤ n'
  new : t' = t ∨ n ≤ t'.label
  count : ∀ x, t'.labels.count x ≤ t.labels.count x + handedOut n n' x

structure RenewedAll (n : Nat) (ts ts' : List Tree) (n' : Nat) : Prop where
  le : n ≤ n'
  same : sameElements ts ts' = true → ts' = ts
  count : ∀ x, (labelsOf ts').count x ≤ (labelsOf ts).count x + handedOut n n' x

theorem Renewed.refl (n : Nat) (t : Tree) : Renewed n t t n :=
  ⟨Nat.le_refl n, .inl rfl, fun _ => Nat.le_add_right _ _⟩

theorem Renewed.trans {n n' n'' : Nat} {t t' t'' : Tree} (h : Renewed n t t' n')
    (h' : Renewed n' t' t'' n'') : Renewed n t t'' n'' := by
  constructor
  · exact Nat.le_trans h.le h'.le
  · rcases h'.new with heq | hnew
    · rw [heq]
      exact h.new
    · exact .inr (Nat.le_trans h.le hnew)
  · intro x
    have hadd := handedOut_add h.le h'.le x
    have hcount := h.count x
    have hcount' := h'.count x
    omega

theorem RenewedAll.nil (n : Nat) : RenewedAll n [] [] n :=
  ⟨Nat.le_refl n, fun _ => rfl, fun _ => Nat.le_add_right _ _⟩

theorem RenewedAll.cons {n n' n'' : Nat} {t t' : Tree} {ts ts' : List Tree}
    (hlabel : t.label < n) (h : Renewed n t t' n') (hs : RenewedAll n' ts ts' n'') :
    RenewedAll n (t :: ts) (t' :: ts') n'' := by
  constructor
  · exact Nat.le_trans h.le hs.le
  · intro hsame
    simp only [sameElements, List.map_cons, beq_iff_eq, List.cons.injEq] at hsame
    have ht : t' = t := h.new.resolve_right (by omega)
    rw [hs.same (by simpa [sameElements] using hsame.2), ht]
  · intro x
    have hadd := handedOut_add h.le hs.le x
    have hcount := h.count x
    have hcounts := hs.count x
    rw [labelsOf_cons, labelsOf_cons, List.count_append, List.count_append]
    omega

theorem RenewedAll.fresh {n n' m : Nat} {k : NodeKind} {cs cs' : List Tree}
    (h : RenewedAll n cs cs' n') :
    Renewed n (.node m k cs) (.node n' k cs') (n' + 1) := by
  have hle := h.le
  refine ⟨by omega, .inr hle, ?_⟩
  · intro x
    have hcount := h.count x
    have hadd := handedOut_add hle (Nat.le_succ n') x
    rw [Nat.succ_eq_add_one, handedOut_succ] at hadd
    rw [labels_node, labels_node, List.count_cons, List.count_cons]
    omega

end Tree

/-!
# Forced `try` nodes have a mark
-/

namespace Tree

theorem hasMark_of_formed {t : Tree} (h : Formed t) (hforced : t.isForceTry = true) :
    t.hasMark = true := by
  rcases forced_of_formed h hforced with ⟨n, keyword, mark, m, parts, rfl, _⟩
  rfl

theorem traits_marked {t : Tree} (h : Formed t) : ∀ x ∈ t.traits, x.1 = true → x.2 = true := by
  intro x hx hforced
  rw [traits, List.mem_map] at hx
  rcases hx with ⟨m, hm, rfl⟩
  have hdirect := (List.mem_filter.mp hm).1
  exact hasMark_of_formed (formed_of_mem_nodes t h m (mem_nodes_of_mem_directNodes t m hdirect))
    hforced

theorem isMarked_of_firstForced? {t t' m : Tree} (h : Formed t) (htraits : t'.traits = t.traits)
    (hm : t'.firstForced? = some m) : IsMarked m ∧ m.isForceTry = true := by
  have hforced : m.isForceTry = true := List.find?_some (p := isForceTry) hm
  have hdirect : m ∈ t'.directNodes := List.mem_of_find?_eq_some hm
  have hmem : m.trait ∈ t'.traits :=
    List.mem_map_of_mem (List.mem_filter.mpr ⟨hdirect, isKind_of_isForceTry hforced⟩)
  rw [htraits] at hmem
  exact ⟨isMarked_of_hasMark (traits_marked h _ hmem hforced), hforced⟩

/-!
# Items without labels
-/

theorem kind?_outline (f : Token → Token) (t : Tree) : (t.outline f).kind? = t.kind? := by
  cases t <;> rfl

theorem map_kind?_of_plain {cs cs' : List Tree} (h : outlineAll id cs = outlineAll id cs') :
    cs.map kind? = cs'.map kind? := by
  have hmap := congrArg (List.map kind?) h
  have hkind : kind? ∘ outline id = kind? := funext (kind?_outline id)
  rw [outlineAll_eq_map, outlineAll_eq_map, List.map_map, List.map_map, hkind] at hmap
  exact hmap

end Tree

namespace DoCatch

theorem plain_withoutMark {m : Tree} (h : m.isForceTry = true) :
    withoutMark m.plain = (withoutMark m).plain := by
  rcases shape_of_isForceTry h with ⟨n, c, mark, operand, rfl⟩
  cases c with
  | node n' k cs => rfl
  | leaf keyword =>
      have htrailing : trailingOfTry keyword.token mark.token (operand.outline id) =
          trailingOfTry keyword.token mark.token operand := by
        have htokens := tokens_outline id operand
        rw [List.map_id] at htokens
        rw [trailingOfTry, trailingOfTry, any_firstLeaf?, any_firstLeaf?, htokens]
      show Tree.node 0 .tryExpression [.leaf ⟨0, { keyword.token with
        trailing := trailingOfTry keyword.token mark.token (operand.outline id) }⟩,
        operand.outline id] = _
      rw [htrailing]
      rfl

theorem plain_wrappedItem (o : Layout) {content content' : Tree} {semicolon semicolon' : List Tree}
    (h : content.plain = content'.plain) (hs : outlineAll id semicolon = outlineAll id semicolon') :
    (o.wrappedItem content semicolon).plain = (o.wrappedItem content' semicolon').plain := by
  have hparts := (plain_eq_iff _ _).mp h
  have hlength := length_dress o content.tokens
  have hrefill : (content.refill (o.dress content.tokens)).outline id =
      (content'.refill (o.dress content.tokens)).outline id := by
    apply (plain_eq_iff _ _).mpr
    rw [skeleton_refill, skeleton_refill, tokens_refill _ _ (Nat.le_of_eq hlength.symm),
      tokens_refill _ _ (by rw [hlength, hparts.2]), hparts.2]
    exact ⟨hparts.1, rfl⟩
  rw [Layout.wrappedItem, Layout.wrappedItem, Layout.wrapped, Layout.wrapped, ← hparts.2]
  simp only [Layout.braces, plain, outline_node, outlineAll, hrefill, hs]

end DoCatch

/-!
# The candidates of an item
-/

namespace DoCatch

theorem refactor_of_not_forced {t : Tree} (h : t.isForceTry = false) (ctx : Context) (n : Nat) :
    ∃ e m, refactor t ctx n = .ok (.failure e m, n) ∧ e.isNotApplicable = true := by
  have hcheck : ∃ details, check t =
      .declined notForced (some name) (some t.name.toList) details := by
    rw [check, h]
    exact ⟨_, rfl⟩
  rcases hcheck with ⟨details, hcheck⟩
  refine ⟨Fault.declined notForced (some name) (some t.name.toList) details, [], ?_, rfl⟩
  rw [refactor, hcheck]
  rfl

end DoCatch

namespace Tree

theorem newlineStyle_isEmpty (t : Option Tree) : (newlineStyle t).isEmpty = false := by
  unfold newlineStyle
  split <;> rfl

end Tree

namespace Pass

theorem refactor_of_forced {pass : Pass} {old updated marked t : Tree} {n n' : Nat}
    (hforced : marked.isForceTry = true)
    (hbuild : build marked (pass.layout old).unit (pass.layout old).base (some updated)
      (pass.layout old).atLineStart (pass.layout old).placeholder (pass.layout old).newline n =
        .ok ([t], n')) :
    refactor marked (pass.context old updated) n =
      .ok (.success [t] (ruleDetails ++
        [("indentation_unit".toList, .text pass.unit.describe),
         ("base_indentation".toList, .text (pass.layout old).base.code)]), n') := by
  have hcheck : check marked = .success marked [] := by
    rw [check, hforced]
    rfl
  have hunit : contextUnit (pass.context old updated) = .ok (pass.unit, pass.unit.describe) := rfl
  simp only [refactor, hcheck, hunit, bind, Except.bind]
  change build marked pass.unit ((pass.context old updated).base.getD
    (baseIndentation marked (pass.context old updated))) (pass.context old updated).statement
    (contextAtLineStart (pass.context old updated)) (pass.context old updated).style.placeholder
    (Tree.newlineStyle ((pass.context old updated).root.or (pass.context old updated).statement)) n =
      .ok ([t], n') at hbuild
  rw [hbuild]
  rfl

variable {pass : Pass} (hrule : pass.rule = DoCatch.rule)

include hrule

theorem tryCandidates_none (ctx : Context) {cs : List Tree} (h : cs.find? isForceTry = none)
    (p : Progress) :
    pass.tryCandidates ctx cs p = .ok (none, { p with
      skipped := p.skipped + (cs.takeWhile fun m => !m.isForceTry).length }) := by
  induction cs generalizing p with
  | nil => rfl
  | cons c cs ih =>
      rw [List.find?_cons] at h
      split at h
      · cases h
      · next hc =>
          rcases refactor_of_not_forced hc ctx p.next with ⟨e, m, hrefactor, he⟩
          have hasked : pass.rule.refactor c ctx p.next = .ok (.failure e m, p.next) := by
            rw [hrule]
            exact hrefactor
          have hstep : pass.tryCandidates ctx (c :: cs) p =
              pass.tryCandidates ctx cs { p with skipped := p.skipped + 1 } := by
            rw [tryCandidates]
            refine (bind_of_ok rfl _).trans ?_
            simp only [hasked, he, if_true, Nat.max_self]
            rfl
          rw [hstep, ih h, List.takeWhile_cons, hc]
          simp only [Bool.not_false, if_true, List.length_cons, Nat.add_assoc, Nat.add_comm 1]

theorem tryCandidates_some {old updated marked t : Tree} {cs : List Tree} {n n' : Nat}
    (h : cs.find? isForceTry = some marked) (hle : n ≤ n')
    (hbuild : build marked (pass.layout old).unit (pass.layout old).base (some updated)
      (pass.layout old).atLineStart (pass.layout old).placeholder (pass.layout old).newline n =
        .ok ([t], n')) (p : Progress) (hp : p.next = n) :
    pass.tryCandidates (pass.context old updated) cs p =
      .ok (some [t], { p with
        next := n'
        applied := p.applied + 1
        skipped := p.skipped + (cs.takeWhile fun m => !m.isForceTry).length }) := by
  -- By induction on the candidates: those that are not forced decline.
  induction cs generalizing p with
  | nil => cases h
  | cons c cs ih =>
      rw [List.find?_cons] at h
      have hask : pass.rule.refactor c = DoCatch.refactor c := by rw [hrule]; rfl
      rw [tryCandidates, List.takeWhile_cons]
      refine (bind_of_ok rfl _).trans ?_
      rw [hask]
      split at h
      · next hc =>
          cases h
          rw [hp, refactor_of_forced hc hbuild, hc]
          simp only [Nat.max_eq_right hle]
          rfl
      · next hc =>
          rcases refactor_of_not_forced hc (pass.context old updated) p.next with
            ⟨e, m, hrefactor, he⟩
          rw [hrefactor, hc]
          simp only [he, if_true, Nat.max_self]
          show pass.tryCandidates (pass.context old updated) cs
            { p with skipped := p.skipped + 1 } = _
          rw [ih h { p with skipped := p.skipped + 1 } hp]
          simp only [Bool.not_false, if_true, List.length_cons, Nat.add_assoc, Nat.add_comm 1]

/-- The rule is asked about an item that has candidates, all of which are still there. -/
theorem onItem_of_traits {old updated : Tree} (h : updated.traits = old.traits) (p : Progress) :
    pass.onItem old updated p =
      if old.traits = [] then .ok (.one updated, p)
      else (do
        match ← pass.tryCandidates (pass.context old updated) updated.directTries with
        | some items => return .many items
        | none => return .one updated : Run Replacement) p := by
  have hlength : updated.directTries.length = old.directTries.length := by
    have hmap := congrArg List.length h
    rwa [traits, traits, List.length_map, List.length_map] at hmap
  have hempty : old.directTries.isEmpty = true ↔ old.traits = [] := by
    rw [traits, List.map_eq_nil_iff, List.isEmpty_iff]
    rfl
  rw [onItem, hrule]
  show (if old.directTries.isEmpty = true then _ else
    if (updated.directTries.length != old.directTries.length) = true then _ else _ :
      Run Replacement) p = _
  rw [hlength]
  simp only [bne_self_eq_false, Bool.false_eq_true, if_false]
  split
  · next hnil =>
      rw [if_pos (hempty.mp hnil)]
      rfl
  · next hnil =>
      rw [if_neg fun h => hnil (hempty.mpr h)]
      rfl

omit hrule in
theorem traits_item {n m : Nat} {cs cs' : List Tree} (hformed : Formed (.node n .item cs))
    (hplain : outlineAll id cs' = outlineAll id (pass.rewrittenAll cs)) :
    (Tree.node m .item cs').traits = (Tree.node n .item cs).traits := by
  have hcs := traitsOf_rewrittenAll pass cs fun c hc =>
    ⟨((formed_cases hformed).2 c hc).1, ((formed_cases hformed).2 c hc).2 (by decide)⟩
  have hkeep := @traitsOf_outline id fun _ => rfl
  rw [traits_node, traits_node, ← hkeep cs', hplain, hkeep, hcs]
  rfl

omit hrule in
theorem isForcedItem_eq (pass : Pass) {n : Nat} {content : Tree} {semicolon : List Tree}
    (hformed : Formed (.node n .item (content :: semicolon)))
    (hblock : content.isKind .block = false) (hleaves : ∀ s ∈ semicolon, s.kind? = none) :
    (Tree.node n .item (content :: semicolon)).isForcedItem =
      (unforce? withoutMark (pass.rewritten content)).isSome := by
  have hcontent := (formed_cases hformed).2 content (List.mem_cons_self ..)
  have hnone : traitsOf semicolon = [] := by
    rw [traitsOf, directNodesOf_leaves hleaves]
    rfl
  rw [firstForced?_isSome, isSome_firstForced?,
    traits_rewritten pass content hcontent.1 (hcontent.2 (by decide)) hblock, isForcedItem,
    any_isForceTry_directTries, traits_node, traitsOf_cons, hblock, hnone]
  simp [isKind, kind?]

omit hrule in
theorem rewritten_of_none {n m : Nat} {cs cs' : List Tree}
    (hplain : outlineAll id cs' = outlineAll id (pass.rewrittenAll cs))
    (hfind : (Tree.node m .item cs').firstForced? = none) :
    (Tree.node m .item cs').plain = (pass.rewritten (.node n .item cs)).plain := by
  have hnone : unforceAll? withoutMark (pass.rewrittenAll cs) = none := by
    have houtline := @unforceAll?_outline id withoutMark withoutMark (fun _ => rfl)
      (fun m hm => plain_withoutMark hm)
    have hsome := firstForcedOf?_isSome withoutMark cs'
    rw [firstForced?_node] at hfind
    have hcs' : firstForcedOf? cs' = none := hfind
    rw [hcs', Option.isSome_none, Option.isSome_eq_false_iff, Option.isNone_iff_eq_none] at hsome
    have hboth := (houtline cs').symm.trans ((congrArg _ hplain).trans (houtline _))
    rw [hsome, Option.map_none] at hboth
    exact Option.map_eq_none_iff.mp hboth.symm
  rw [rewritten, reworked, if_pos rfl, hnone]
  show Tree.node 0 .item _ = Tree.node 0 .item _
  rw [hplain]

omit hrule in
theorem rewritten_of_some {n m : Nat} {content marked : Tree} {cs semicolon : List Tree}
    (hplain : outlineAll id (content :: semicolon) = outlineAll id (pass.rewrittenAll cs))
    (hblock : content.isKind .block = false) (hneat : content.Neat m)
    (hfind : content.firstForced? = some marked) :
    (((pass.layout (.node n .item cs)).wrappedItem (subst marked.label (withoutMark marked) content)
      semicolon).plain = (pass.rewritten (.node n .item cs)).plain) := by
  have houtline := @unforceAll?_outline id withoutMark withoutMark (fun _ => rfl)
    (fun m hm => plain_withoutMark hm)
  have hcontent := unforce?_eq_subst withoutMark content hfind (hneat.count_le_one _)
  have hsome : unforceAll? withoutMark (content :: semicolon) =
      some (subst marked.label (withoutMark marked) content :: semicolon) := by
    rw [unforceAll?, hblock, if_neg Bool.false_ne_true, hcontent]
  have hboth := (houtline (content :: semicolon)).symm.trans ((congrArg _ hplain).trans (houtline _))
  rw [hsome] at hboth
  cases hrewritten : unforceAll? withoutMark (pass.rewrittenAll cs) with
  | none =>
      rw [hrewritten] at hboth
      cases hboth
  | some ds =>
      rw [hrewritten, Option.map_some, Option.map_some, Option.some.injEq] at hboth
      rw [rewritten, reworked, if_pos rfl, hrewritten]
      cases ds with
      | nil => cases hboth
      | cons content' semicolon' =>
          rw [outlineAll, outlineAll, List.cons.injEq] at hboth
          exact plain_wrappedItem _ hboth.1 hboth.2

omit hrule in
theorem item_parts {n m : Nat} {cs cs' : List Tree} {marked : Tree}
    (hformed : Formed (.node n .item cs))
    (hplain : outlineAll id cs' = outlineAll id (pass.rewrittenAll cs))
    (hfind : (Tree.node m .item cs').firstForced? = some marked) :
    ∃ content semicolon, cs' = content :: semicolon ∧ content.isKind .block = false ∧
      content.firstForced? = some marked := by
  rcases item_of_formed hformed with ⟨old, rest, rfl, hblock, _, hleaves⟩
  have hkinds := map_kind?_of_plain hplain
  have hsame : (pass.rewrittenAll (old :: rest)).map kind? = (old :: rest).map kind? := by
    rw [rewrittenAll_eq_map, List.map_map]
    exact List.map_congr_left fun t _ => kind?_rewritten pass t
  rw [hsame] at hkinds
  cases cs' with
  | nil => cases hkinds
  | cons content semicolon =>
      rw [List.map_cons, List.map_cons, List.cons.injEq] at hkinds
      have hcontent : content.isKind .block = false := by
        rw [isKind, hkinds.1, ← isKind, hblock]
      have hrest : firstForcedOf? semicolon = none := by
        have hnone : ∀ s ∈ semicolon, s.kind? = none := by
          intro s hs
          have hmem : s.kind? ∈ rest.map kind? := hkinds.2 ▸ List.mem_map_of_mem hs
          rcases List.mem_map.mp hmem with ⟨s', hs', heq⟩
          rw [← heq, hleaves s' hs']
        rw [firstForcedOf?, directNodesOf_leaves hnone]
        rfl
      rw [firstForced?_node, firstForcedOf?_cons, hrest, Option.or_none, hcontent] at hfind
      exact ⟨content, semicolon, rfl, hcontent, hfind⟩

/-- An item whose children are done comes out as it is, or wrapped when there is something to
change. -/
theorem onItem_result {n m : Nat} {cs cs' : List Tree} {p : Progress}
    (hformed : Formed (.node n .item cs)) (hneat : (Tree.node m .item cs').Neat p.next)
    (hplain : outlineAll id cs' = outlineAll id (pass.rewrittenAll cs)) :
    ∃ u rep p', pass.onItem (.node n .item cs) (.node m .item cs') p = .ok (rep, p') ∧
      (rep = .one u ∨ rep = .many [u]) ∧ Renewed p.next (.node m .item cs') u p'.next ∧
      u.plain = (pass.rewritten (.node n .item cs)).plain ∧
      p'.applied = p.applied + (if (Tree.node n .item cs).isForcedItem then 1 else 0) ∧
      p'.skipped = p.skipped + (Tree.node n .item cs).passedOver ∧ p'.errors = p.errors := by
  have htraits := @traits_item pass n m cs cs' hformed hplain
  have hany : (Tree.node n .item cs).isForcedItem =
      ((Tree.node m .item cs').directTries.find? isForceTry).isSome := by
    rw [List.isSome_find?, any_isForceTry_directTries, htraits, ← any_isForceTry_directTries]
    rfl
  have hover : (Tree.node n .item cs).passedOver =
      ((Tree.node m .item cs').directTries.takeWhile fun m => !m.isForceTry).length := by
    rw [length_passedOver, htraits, ← length_passedOver]
    rfl
  have hrefl := Renewed.refl p.next (.node m .item cs')
  rw [onItem_of_traits hrule htraits, hany, hover]
  cases hfind : (Tree.node m .item cs').directTries.find? isForceTry with
  | none =>
      have hrewritten := rewritten_of_none (n := n) hplain ((find?_directTries _).symm.trans hfind)
      split
      · next hnil =>
          have hempty : (Tree.node m .item cs').directTries = [] := by
            rw [← htraits, traits, List.map_eq_nil_iff] at hnil
            exact hnil
          rw [hempty]
          exact ⟨_, _, _, rfl, .inl rfl, hrefl, hrewritten, rfl, rfl, rfl⟩
      · refine ⟨.node m .item cs', .one (.node m .item cs'), { p with
          skipped := p.skipped + ((Tree.node m .item cs').directTries.takeWhile
            fun m => !m.isForceTry).length }, ?_, .inl rfl, hrefl, hrewritten, rfl, rfl, rfl⟩
        rw [bind_of_ok (tryCandidates_none hrule _ hfind p)]
        rfl
  | some marked =>
      have hforced := (find?_directTries _).symm.trans hfind
      have hnotEmpty : (Tree.node n .item cs).traits ≠ [] := by
        intro hnil
        rw [← htraits, traits, List.map_eq_nil_iff] at hnil
        rw [directTries, hnil] at hfind
        cases hfind
      rw [if_neg hnotEmpty]
      have hmarked := isMarked_of_firstForced? hformed htraits hforced
      rcases item_parts hformed hplain hforced with ⟨content, semicolon, rfl, hblock, hcontent⟩
      have hinner := neat_content hneat
      have hmem := mem_nodes_of_firstForced? hcontent
      have hne : (subst marked.label (withoutMark marked) content).tokens ≠ [] := by
        apply tokens_subst_ne_nil hmem (hinner.count_le_one _)
        rcases hmarked.1 with ⟨_, _, _, _, rfl⟩
        rw [withoutMark, tokens_node, tokensOf_cons, tokens_leaf]
        exact List.cons_ne_nil _ _
      rcases build_result (o := pass.layout (.node n .item cs)) hneat hmarked.1 hmem
        (newlineStyle_isEmpty _) hne with ⟨t, n', hbuild, hle, hlabel, hplainWrapped, hcount⟩
      have hrewritten := rewritten_of_some (n := n) hplain hblock hinner hcontent
      refine ⟨t, .many [t], { p with
          next := n'
          applied := p.applied + 1
          skipped := p.skipped + ((Tree.node m .item (content :: semicolon)).directTries.takeWhile
            fun m => !m.isForceTry).length },
        ?_, .inr rfl, ⟨hle, .inr hlabel, hcount⟩, hplainWrapped.trans hrewritten, rfl, rfl, rfl⟩
      rw [bind_of_ok (tryCandidates_some hrule hfind hle hbuild p rfl)]
      rfl

end Pass

/-!
# Places that take any number of elements
-/

namespace Tree

def Admits : List (Option String) → List Tree → Prop
  | _, [] => True
  | places, c :: cs =>
      (c.isKind .item = true → ∀ name, places.head? ≠ some (some name)) ∧ Admits places.tail cs

theorem admits_nil (cs : List Tree) : Admits [] cs := by
  induction cs with
  | nil => exact True.intro
  | cons c cs ih =>
      refine ⟨?_, ih⟩
      intro _ name h
      cases h

theorem admits_append {places places' : List (Option String)} {cs cs' : List Tree}
    (hlength : places.length = cs.length)
    (h : (∀ p ∈ places, p = none) ∨ ∀ c ∈ cs, c.isKind .item = false) (h' : Admits places' cs') :
    Admits (places ++ places') (cs ++ cs') := by
  induction cs generalizing places with
  | nil =>
      rw [List.eq_nil_of_length_eq_zero hlength]
      exact h'
  | cons c cs ih =>
      cases places with
      | nil => cases hlength
      | cons p places =>
          refine ⟨?_, ih (Nat.succ.inj hlength) ?_⟩
          · intro hitem name hname
            rcases h with h | h
            · rw [List.cons_append, List.head?_cons, h p (List.mem_cons_self ..)] at hname
              cases hname
            · rw [h c (List.mem_cons_self ..)] at hitem
              cases hitem
          · rcases h with h | h
            · exact .inl fun q hq => h q (List.mem_cons_of_mem _ hq)
            · exact .inr fun d hd => h d (List.mem_cons_of_mem _ hd)

theorem one_ne_statements {k : NodeKind} {s : String} (h : .one s ∈ k.places) :
    s ≠ "statements" := by
  rintro rfl
  revert h
  cases k <;> decide

def singleName : Place → Option String
  | .one s => some s
  | _ => none

theorem singleNames_eq (k : NodeKind) (cs : List Tree) :
    Place.singleNames k cs =
      (Place.deal k.places cs).flatMap fun entry => entry.2.map fun _ => singleName entry.1 := by
  rw [Place.singleNames]
  congr 1
  funext entry
  rcases entry with ⟨place, part⟩
  cases place <;> rfl

theorem admits_deal (ps : List Place) (cs : List Tree)
    (h : ∀ entry ∈ Place.deal ps cs, entry.1.isOne = true → ∀ c ∈ entry.2, c.isKind .item = false) :
    Admits ((Place.deal ps cs).flatMap fun entry => entry.2.map fun _ => singleName entry.1) cs := by
  induction ps generalizing cs with
  | nil => exact admits_nil cs
  | cons p ps ih =>
      have hsplit : ∃ part rest, Place.deal (p :: ps) cs = (p, part) :: Place.deal ps rest ∧
          cs = part ++ rest := by
        cases p <;> exact ⟨_, _, rfl, (List.take_append_drop _ _).symm⟩
      rcases hsplit with ⟨part, rest, hdeal, rfl⟩
      rw [hdeal] at h ⊢
      rw [List.flatMap_cons]
      apply admits_append (List.length_map _)
      · cases p with
        | one s => exact .inr (h (.one s, part) (List.mem_cons_self ..) rfl)
        | optional s => exact .inl (by simp [singleName])
        | many s => exact .inl (by simp [singleName])
      · exact ih rest fun entry hentry => h entry (List.mem_cons_of_mem _ hentry)

theorem fst_mem_of_mem_deal {ps : List Place} {cs : List Tree} {entry : Place × List Tree}
    (h : entry ∈ Place.deal ps cs) : entry.1 ∈ ps := by
  induction ps generalizing cs with
  | nil => cases h
  | cons p ps ih =>
      have hsplit : entry = (p, entry.2) ∨ ∃ rest, entry ∈ Place.deal ps rest := by
        cases p <;> rcases List.mem_cons.mp h with rfl | h <;>
          first | exact .inl rfl | exact .inr ⟨_, h⟩
      rcases hsplit with heq | ⟨rest, hrest⟩
      · rw [heq]
        exact List.mem_cons_self ..
      · exact List.mem_cons_of_mem _ (ih hrest)

theorem admits_of_fits {n : Nat} {k : NodeKind} {cs : List Tree}
    (h : (Tree.node n k cs).Fits) : Admits (Place.singleNames k cs) cs := by
  rw [singleNames_eq]
  apply admits_deal
  intro entry hentry hone c hc
  rcases entry with ⟨place, part⟩
  cases place with
  | optional s => cases hone
  | many s => cases hone
  | one s =>
      have hplace : .one s ∈ k.places :=
        fst_mem_of_mem_deal hentry
      apply h.elsewhere s (one_ne_statements hplace)
      rw [childrenAt, List.mem_flatMap]
      exact ⟨_, List.mem_filter.mpr ⟨hentry, beq_self_eq_true s⟩, hc⟩

end Tree
/-!
# Step by step through the tree
-/

namespace Pass

structure Counted (p p' : Progress) (ts : List Tree) : Prop where
  applied : p'.applied = p.applied + forcedItemsOf ts
  skipped : p'.skipped = p.skipped + passedOverOf ts
  errors : p'.errors = p.errors

theorem Counted.cons {p p' p'' : Progress} {t : Tree} {ts : List Tree} (h : Counted p p' [t])
    (hs : Counted p' p'' ts) : Counted p p'' (t :: ts) := by
  constructor
  · rw [hs.applied, h.applied, forcedItemsOf_cons t ts, Nat.add_assoc]
  · rw [hs.skipped, h.skipped, passedOverOf_cons t ts, Nat.add_assoc]
  · rw [hs.errors, h.errors]

variable {pass : Pass} (hrule : pass.rule = DoCatch.rule)

include hrule

theorem onNode_result {n m : Nat} {k : NodeKind} {cs cs' : List Tree} {p : Progress}
    (hformed : k = .item → Formed (.node n k cs)) (hneat : (Tree.node m k cs').Neat p.next)
    (hplain : outlineAll id cs' = outlineAll id (pass.rewrittenAll cs)) :
    ∃ u rep p', pass.transformation.onNode (.node n k cs) (.node m k cs') p = .ok (rep, p') ∧
      (rep = .one u ∨ k = .item ∧ rep = .many [u]) ∧ Renewed p.next (.node m k cs') u p'.next ∧
      u.plain = (pass.rewritten (.node n k cs)).plain ∧
      p'.applied = p.applied + (if (Tree.node n k cs).isForcedItem then 1 else 0) ∧
      p'.skipped = p.skipped + (Tree.node n k cs).passedOver ∧ p'.errors = p.errors := by
  by_cases hk : k = .item
  · subst hk
    rcases onItem_result hrule (hformed rfl) hneat hplain with
      ⟨u, rep, p', hrun, hrep, hrenewed, hrewritten, hcounts⟩
    exact ⟨u, rep, p', hrun, hrep.imp_right fun h => ⟨rfl, h⟩, hrenewed, hrewritten, hcounts⟩
  · have hkind : (Tree.node n k cs).isKind .item = false := by
      rw [isKind_node]
      simpa using hk
    have hrun : pass.transformation.onNode (.node n k cs) (.node m k cs') p =
        .ok (.one (.node m k cs'), p) := by
      show (if (Tree.node n k cs).isKind .item = true then _ else _ : Run Replacement) p = _
      rw [hkind]
      rfl
    refine ⟨_, _, p, hrun, .inl rfl, Renewed.refl _ _, ?_, ?_, ?_, rfl⟩
    · rw [rewritten, reworked_of_not_item _ _ _ hk]
      show Tree.node 0 k _ = Tree.node 0 k _
      rw [hplain]
    · rw [isForcedItem, hkind]
      rfl
    · rw [passedOver, hkind]
      rfl

omit hrule in
theorem transform_children {n : Nat} {k : NodeKind} {cs us : List Tree} {spliced : Bool}
    {p p' : Progress}
    (hrun : transformAll pass.transformation (Place.singleNames k cs) cs p = .ok ((us, spliced), p'))
    (hrenewed : RenewedAll p.next cs us p'.next) :
    ∃ m q, transform pass.transformation (.node n k cs) p =
        pass.transformation.onNode (.node n k cs) (.node m k us) q ∧
      Renewed p.next (.node n k cs) (.node m k us) q.next ∧
      q.applied = p'.applied ∧ q.skipped = p'.skipped ∧ q.errors = p'.errors := by
  have hstep : transform pass.transformation (.node n k cs) p =
      (if sameElements cs us && !spliced then
        pass.transformation.onNode (.node n k cs) (.node n k cs)
      else do
        let m ← modifyGet pass.transformation.supply
        pass.transformation.onNode (.node n k cs) (.node m k us) : Run Replacement) p' := by
    rw [transform]
    exact bind_of_ok hrun _
  rw [hstep]
  split
  · next hsame =>
      rw [Bool.and_eq_true] at hsame
      rw [hrenewed.same hsame.1]
      exact ⟨n, p', rfl, ⟨hrenewed.le, .inl rfl, fun _ => Nat.le_add_right _ _⟩, rfl, rfl, rfl⟩
  · exact ⟨p'.next, { p' with next := p'.next + 1 }, rfl, hrenewed.fresh, rfl, rfl, rfl⟩

theorem transform_node {n : Nat} {k : NodeKind} {cs us : List Tree} {spliced : Bool}
    {p p' : Progress} (hformed : k = .item → Formed (.node n k cs))
    (hneat : (Tree.node n k cs).Neat p.next)
    (hrun : transformAll pass.transformation (Place.singleNames k cs) cs p = .ok ((us, spliced), p'))
    (hrenewed : RenewedAll p.next cs us p'.next)
    (hplain : outlineAll id us = outlineAll id (pass.rewrittenAll cs)) (hcounted : Counted p p' cs) :
    ∃ u rep p'', transform pass.transformation (.node n k cs) p = .ok (rep, p'') ∧
      (rep = .one u ∨ k = .item ∧ rep = .many [u]) ∧ Renewed p.next (.node n k cs) u p''.next ∧
      u.plain = (pass.rewritten (.node n k cs)).plain ∧ Counted p p'' [.node n k cs] := by
  rcases @transform_children pass n k cs us spliced p p' hrun hrenewed with
    ⟨m, q, hstep, hnew, happliedq, hskippedq, herrorsq⟩
  rcases onNode_result hrule hformed (hneat.grow hnew.le hnew.count) hplain with
    ⟨u, rep, p'', hlast, hrep, hrenewed', hrewritten, happlied, hskipped, herrors⟩
  refine ⟨u, rep, p'', hstep.trans hlast, hrep, hnew.trans hrenewed', hrewritten, ?_⟩
  constructor
  · rw [happlied, happliedq, hcounted.applied, forcedItemsOf_node, Nat.add_assoc]
  · rw [hskipped, hskippedq, hcounted.skipped, passedOverOf_node, Nat.add_assoc]
  · rw [herrors, herrorsq, hcounted.errors]

omit hrule

/-- The tree `u` is what the pass makes of `t` somewhere on its way. -/
def Becomes (pass : Pass) (t u : Tree) : Prop :=
  ∃ p rep p', t.Neat p.next ∧ transform pass.transformation t p = .ok (rep, p') ∧
    (rep = .one u ∨ rep = .many [u])

mutual

theorem transform_result (hrule : pass.rule = DoCatch.rule) (t : Tree) (p : Progress)
    (hformed : Formed t) (hneat : t.Neat p.next) :
    ∃ u rep p', transform pass.transformation t p = .ok (rep, p') ∧
      (rep = .one u ∨ t.isKind .item = true ∧ rep = .many [u]) ∧ Renewed p.next t u p'.next ∧
      u.plain = (pass.rewritten t).plain ∧ Counted p p' [t] := by
  cases t with
  | leaf l => exact ⟨.leaf l, _, p, rfl, .inl rfl, Renewed.refl _ _, rfl, ⟨rfl, rfl, rfl⟩⟩
  | node n k cs =>
      have hcases := formed_cases hformed
      rcases transformAll_result hrule cs (Place.singleNames k cs) p (fun c hc => (hcases.2 c hc).1)
        (admits_of_fits hcases.1) hneat.children with
        ⟨us, spliced, p', hrun, hrenewed, hplain, hcounted, -⟩
      rcases transform_node hrule (fun _ => hformed) hneat hrun hrenewed hplain hcounted with
        ⟨u, rep, p'', hnode, hrep, hrest⟩
      refine ⟨u, rep, p'', hnode, ?_, hrest⟩
      rw [isKind_node, beq_iff_eq]
      exact hrep
termination_by structural t

theorem transformAll_result (hrule : pass.rule = DoCatch.rule) (ts : List Tree)
    (places : List (Option String)) (p : Progress)
    (hformed : ∀ t ∈ ts, Formed t) (hadmits : Admits places ts)
    (hneat : ∀ x, (labelsOf ts).count x ≤ if x < p.next then 1 else 0) :
    ∃ us spliced p', transformAll pass.transformation places ts p = .ok ((us, spliced), p') ∧
      RenewedAll p.next ts us p'.next ∧ outlineAll id us = outlineAll id (pass.rewrittenAll ts) ∧
      Counted p p' ts ∧ ∀ t ∈ ts, ∃ u ∈ us, pass.Becomes t u := by
  cases ts with
  | nil =>
      exact ⟨[], false, p, rfl, RenewedAll.nil _, rfl, ⟨rfl, rfl, rfl⟩,
        fun _ ht => absurd ht List.not_mem_nil⟩
  | cons t ts =>
      have ht : t.Neat p.next := by
        intro x
        have hx := hneat x
        rw [labelsOf_cons, List.count_append] at hx
        omega
      rcases transform_result hrule t p (hformed t (List.mem_cons_self ..)) ht with
        ⟨u, rep, p₁, hrun, hrep, hrenewed, hplain, hcounted⟩
      have hts : ∀ x, (labelsOf ts).count x ≤ if x < p₁.next then 1 else 0 := by
        intro x
        have hx := hneat x
        have hle := hrenewed.le
        rw [labelsOf_cons, List.count_append] at hx
        split at hx <;> split <;> omega
      rcases transformAll_result hrule ts places.tail p₁
        (fun t' h => hformed t' (List.mem_cons_of_mem t h)) hadmits.2 hts with
        ⟨us, spliced, p₂, hruns, hreneweds, hplains, hcounteds, hbecome⟩
      have hlabel : t.label < p.next := ht.lt t.label (label_mem_labels t)
      rw [Tree.plain, Tree.plain] at hplain
      have hall : outlineAll id (u :: us) = outlineAll id (pass.rewrittenAll (t :: ts)) := by
        rw [rewrittenAll, outlineAll, outlineAll, hplain, hplains]
      have heach : ∀ t' ∈ t :: ts, ∃ v ∈ u :: us, pass.Becomes t' v := by
        rw [List.forall_mem_cons]
        constructor
        · exact ⟨u, List.mem_cons_self .., p, rep, p₁, ht, hrun, hrep.imp_right And.right⟩
        · intro t' ht'
          rcases hbecome t' ht' with ⟨v, hv, hbecomes⟩
          exact ⟨v, List.mem_cons_of_mem u hv, hbecomes⟩
      rcases hrep with rfl | ⟨hitem, rfl⟩
      · refine ⟨u :: us, spliced, p₂, ?_, RenewedAll.cons hlabel hrenewed hreneweds, hall,
          hcounted.cons hcounteds, heach⟩
        rw [transformAll, bind_of_ok hrun]
        exact bind_of_ok hruns _
      · refine ⟨u :: us, true, p₂, ?_, RenewedAll.cons hlabel hrenewed hreneweds, hall,
          hcounted.cons hcounteds, heach⟩
        rw [transformAll, bind_of_ok hrun]
        cases places with
        | nil => exact bind_of_ok hruns _
        | cons place places =>
            cases place with
            | none => exact bind_of_ok hruns _
            | some name => exact absurd rfl (hadmits.1 hitem name)
termination_by structural ts

end

include hrule

/-- A pass of the rule over the tree of a file succeeds.  Its result is the function of the tree, with
labels that stand apart. -/
theorem run_renewed {next : Nat} (hfile : FormsFile pass.root) (hneat : pass.root.Neat next) :
    ∃ report, pass.run next = .ok report ∧ Renewed next pass.root report.tree report.next ∧
      report.tree.plain = (pass.rewritten pass.root).plain ∧
      report.applied = forcedItemsOf [pass.root] ∧ report.skipped = passedOverOf [pass.root] ∧
      report.errors = [] := by
  rcases file_of_formsFile hfile with ⟨hfits, n, cs, hroot, hformed⟩
  rw [hroot] at hfits hneat
  rcases transformAll_result hrule cs (Place.singleNames .sourceFile cs) (Progress.start next)
    hformed (admits_of_fits hfits) hneat.children with
    ⟨us, spliced, p', hrun, hrenewed, hplain, hcounted, -⟩
  rcases transform_node hrule (fun h => by cases h) hneat hrun hrenewed hplain hcounted with
    ⟨u, rep, p'', hnode, hrep, hnew, hrewritten, hcounts⟩
  have hone : rep = .one u := hrep.resolve_right fun h => by cases h.1
  refine ⟨⟨u, p''.applied, p''.skipped, p''.errors, p''.next⟩, ?_, ?_, ?_, ?_, ?_, ?_⟩
  · rw [run, hroot]
    show (transform pass.transformation (.node n .sourceFile cs) (Progress.start next) >>=
      fun result => _) = _
    rw [hnode, hone]
    rfl
  · rw [hroot]
    exact hnew
  · rw [hroot]
    exact hrewritten
  · rw [hroot]
    exact hcounts.applied.trans (Nat.zero_add _)
  · rw [hroot]
    exact hcounts.skipped.trans (Nat.zero_add _)
  · exact hcounts.errors

theorem run_result {next : Nat} (hfile : FormsFile pass.root) (hneat : pass.root.Neat next) :
    ∃ report, pass.run next = .ok report ∧ report.tree.plain = (pass.rewritten pass.root).plain ∧
      report.applied = forcedItemsOf [pass.root] ∧ report.skipped = passedOverOf [pass.root] ∧
      report.errors = [] := by
  rcases run_renewed hrule hfile hneat with ⟨report, hrun, _, hresult⟩
  exact ⟨report, hrun, hresult⟩

/-!
# Nothing to do

Without items that have a forced `try` of their own, every element comes back with its label.
-/

theorem onItem_same {old updated : Tree} (htraits : updated.traits = old.traits)
    (h : old.isForcedItem = false) (hitem : old.isKind .item = true) (p : Progress) :
    ∃ k, pass.onItem old updated p = .ok (.one updated, { p with skipped := k }) := by
  rw [onItem_of_traits hrule htraits]
  split
  · exact ⟨p.skipped, rfl⟩
  · have hnone : updated.directTries.find? isForceTry = none := by
      rw [isForcedItem, hitem, Bool.true_and, any_isForceTry_directTries, ← htraits,
        ← any_isForceTry_directTries] at h
      rw [← Option.not_isSome_iff_eq_none, List.isSome_find?, h]
      exact Bool.false_ne_true
    refine ⟨p.skipped + (updated.directTries.takeWhile fun m => !m.isForceTry).length, ?_⟩
    rw [bind_of_ok (tryCandidates_none hrule _ hnone p)]
    rfl

theorem onNode_same {old updated : Tree}
    (htraits : old.isKind .item = true → updated.traits = old.traits)
    (h : old.isForcedItem = false) (p : Progress) :
    ∃ k, pass.transformation.onNode old updated p = .ok (.one updated, { p with skipped := k }) := by
  cases hitem : old.isKind .item with
  | true =>
      rcases onItem_same hrule (htraits hitem) h hitem p with ⟨k, hrun⟩
      refine ⟨k, ?_⟩
      show (if old.isKind .item = true then _ else _ : Run Replacement) p = _
      rw [hitem]
      exact hrun
  | false =>
      refine ⟨p.skipped, ?_⟩
      show (if old.isKind .item = true then _ else _ : Run Replacement) p = _
      rw [hitem]
      rfl

omit hrule

mutual

theorem transform_same (hrule : pass.rule = DoCatch.rule) (t : Tree) (p : Progress)
    (h : forcedItemsOf [t] = 0) :
    ∃ k, transform pass.transformation t p = .ok (.one t, { p with skipped := k }) := by
  cases t with
  | leaf l => exact ⟨p.skipped, rfl⟩
  | node n k cs =>
      rw [forcedItemsOf_node] at h
      have hforced : (Tree.node n k cs).isForcedItem = false := by
        cases hcase : (Tree.node n k cs).isForcedItem with
        | false => rfl
        | true =>
            rw [hcase, if_pos rfl] at h
            cases h
      rcases transformAll_same hrule cs (Place.singleNames k cs) p (Nat.eq_zero_of_add_eq_zero_right h) with
        ⟨skipped, hrun⟩
      rcases onNode_same hrule (fun _ => rfl) hforced { p with skipped } with ⟨skipped', hnode⟩
      refine ⟨skipped', ?_⟩
      rw [transform]
      refine (bind_of_ok hrun _).trans ?_
      have hsame : sameElements cs cs = true := beq_self_eq_true _
      simp only [hsame, Bool.not_false, Bool.and_self, if_true]
      exact hnode
termination_by structural t

theorem transformAll_same (hrule : pass.rule = DoCatch.rule) (ts : List Tree)
    (places : List (Option String)) (p : Progress) (h : forcedItemsOf ts = 0) :
    ∃ k, transformAll pass.transformation places ts p =
      .ok ((ts, false), { p with skipped := k }) := by
  cases ts with
  | nil => exact ⟨p.skipped, rfl⟩
  | cons t ts =>
      rw [forcedItemsOf_cons] at h
      rcases transform_same hrule t p (Nat.eq_zero_of_add_eq_zero_right h) with ⟨k, hrun⟩
      rcases transformAll_same hrule ts places.tail { p with skipped := k }
        (Nat.eq_zero_of_add_eq_zero_left h) with ⟨k', hruns⟩
      refine ⟨k', ?_⟩
      rw [transformAll, bind_of_ok hrun]
      exact bind_of_ok hruns _
termination_by structural ts

end

include hrule

theorem run_same {next : Nat} (h : forcedItemsOf [pass.root] = 0) :
    ∃ k, pass.run next = .ok ⟨pass.root, 0, k, [], next⟩ := by
  rcases transform_same hrule pass.root (Progress.start next) h with ⟨k, hrun⟩
  refine ⟨k, ?_⟩
  rw [run]
  show (transform pass.transformation pass.root (Progress.start next) >>= fun result => _) = _
  rw [hrun]
  rfl

end Pass
end ForceTry

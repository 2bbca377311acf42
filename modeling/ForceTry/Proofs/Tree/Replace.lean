import ForceTry.Proofs.Tree.TokenEdit
import Mathlib.Data.List.Nodup

/-!
# One element in the place of another

An element is found by the indices of the children that lead down to it.  Replacing it makes the nodes on
this way new and changes nothing beside it: every other element is found where it was, and it is the same
one.
-/

namespace ForceTry
namespace Tree

/-- The element to which indices of children lead. -/
def at? : Tree → List Nat → Option Tree
  | t, [] => some t
  | t, i :: place => t.children[i]?.bind fun c => c.at? place

theorem at?_cons (n : Nat) (k : NodeKind) (cs : List Tree) (i : Nat) (place : List Nat) :
    (Tree.node n k cs).at? (i :: place) = cs[i]?.bind fun c => c.at? place := rfl

/-- No other element of `t` has the label of `m`. -/
def Knows (t m : Tree) : Prop := ∀ place u, t.at? place = some u → u.label = m.label → u = m

/-- In the tree `u` the element `new` has taken the place of the element `old` of `t`. -/
structure Swapped (place : List Nat) (old new t u : Tree) : Prop where
  put : u.at? place = some new
  tokens : ∃ before behind, t.tokens = before ++ old.tokens ++ behind ∧
    u.tokens = before ++ new.tokens ++ behind
  beside : ∀ p m, t.at? p = some m → ¬ p <+: place → ¬ place <+: p → u.at? p = some m
  above : ∀ p m, t.at? p = some m → p <+: place → p ≠ place →
    ∃ v, u.at? p = some v ∧ v.kind? = m.kind? ∧ v.children.length = m.children.length

/-!
# Looking up elements
-/

theorem split_of_getElem? {α : Type} {xs : List α} {i : Nat} {x : α} (h : xs[i]? = some x) :
    ∃ front back, xs = front ++ x :: back ∧ front.length = i := by
  rcases List.getElem?_eq_some_iff.mp h with ⟨hi, rfl⟩
  refine ⟨xs.take i, xs.drop (i + 1), ?_, ?_⟩
  · rw [← List.drop_eq_getElem_cons hi, List.take_append_drop]
  · rw [List.length_take, Nat.min_eq_left (Nat.le_of_lt hi)]

theorem child_of_at? {t m : Tree} {i : Nat} {place : List Nat} (h : t.at? (i :: place) = some m) :
    ∃ n k front c back, t = .node n k (front ++ c :: back) ∧ front.length = i ∧
      c.at? place = some m := by
  cases t with
  | leaf l => cases h
  | node n k cs =>
      rcases Option.bind_eq_some_iff.mp h with ⟨c, hc, hm⟩
      rcases split_of_getElem? hc with ⟨front, back, rfl, hlength⟩
      exact ⟨n, k, front, c, back, rfl, hlength, hm⟩

theorem at?_child (n : Nat) (k : NodeKind) (front : List Tree) (c : Tree) (back : List Tree)
    (place : List Nat) :
    (Tree.node n k (front ++ c :: back)).at? (front.length :: place) = c.at? place := by
  rw [at?_cons, List.getElem?_append_right (Nat.le_refl _), Nat.sub_self]
  rfl

theorem label_mem_of_at? {t m : Tree} {place : List Nat} (h : t.at? place = some m) :
    m.label ∈ t.labels := by
  induction place generalizing t with
  | nil =>
      cases h
      exact label_mem_labels _
  | cons i place ih =>
      rcases child_of_at? h with ⟨n, k, front, c, back, rfl, -, hm⟩
      rw [labels_node, labelsOf_append, labelsOf_cons]
      exact List.mem_cons_of_mem n (List.mem_append_right _ (List.mem_append_left _ (ih hm)))

theorem exists_at?_of_mem_labels (t : Tree) {x : Nat} (h : x ∈ t.labels) :
    ∃ place m, t.at? place = some m ∧ m.label = x := by
  induction t using Tree.induction with
  | leaf l => exact ⟨[], .leaf l, rfl, (List.mem_singleton.mp h).symm⟩
  | node n k cs ih =>
      rcases List.mem_cons.mp h with rfl | h
      · exact ⟨[], _, rfl, rfl⟩
      have hchild : ∃ c ∈ cs, x ∈ c.labels := by
        clear ih
        induction cs with
        | nil => cases h
        | cons c cs ihcs =>
            rcases List.mem_append.mp h with h | h
            · exact ⟨c, List.mem_cons_self .., h⟩
            · rcases ihcs (List.mem_cons_of_mem n h) h with ⟨d, hd, hx⟩
              exact ⟨d, List.mem_cons_of_mem c hd, hx⟩
      rcases hchild with ⟨c, hc, hx⟩
      rcases ih c hc hx with ⟨place, m, hm, hlabel⟩
      rcases List.append_of_mem hc with ⟨front, back, rfl⟩
      exact ⟨front.length :: place, m, (at?_child n k front c back place).trans hm, hlabel⟩

theorem Neat.child {m n : Nat} {k : NodeKind} {front back : List Tree} {c : Tree}
    (h : (Tree.node m k (front ++ c :: back)).Neat n) : c.Neat n := by
  intro x
  have hx := h.children x
  rw [labelsOf_append, labelsOf_cons, List.count_append, List.count_append] at hx
  omega

theorem label_apart {m n : Nat} {k : NodeKind} {front back : List Tree} {c u : Tree} {place : List Nat}
    (hneat : (Tree.node m k (front ++ c :: back)).Neat n) (h : c.at? place = some u) :
    m ≠ u.label ∧ u.label ∉ labelsOf front ∧ u.label ∉ labelsOf back := by
  have hcount := hneat.count_le_one u.label
  rw [labels_node, labelsOf_append, labelsOf_cons, List.count_cons, List.count_append,
    List.count_append] at hcount
  have hpos := List.count_pos_iff.mpr (label_mem_of_at? h)
  refine ⟨?_, ?_, ?_⟩
  · intro heq
    rw [if_pos (beq_iff_eq.mpr heq)] at hcount
    omega
  · exact List.count_eq_zero.mp (by omega)
  · exact List.count_eq_zero.mp (by omega)

/-!
# Parts without the element
-/

theorem rebuild_self (m : Nat) (k : NodeKind) (cs : List Tree) :
    rebuild m k cs cs = pure (.node m k cs) := by
  rw [rebuild, sameElements, if_pos (beq_self_eq_true _)]

mutual

theorem replace_of_not_mem {old : Nat} (new t : Tree) (n : Nat) (h : old ∉ t.labels) :
    (t.replace old new).run n = (t, n) := by
  cases t with
  | leaf l =>
      have hl : l.label ≠ old := fun heq => h (List.mem_singleton.mpr heq.symm)
      rw [replace, if_neg hl]
      rfl
  | node m k cs =>
      have hm : m ≠ old := fun heq => h (heq ▸ List.mem_cons_self ..)
      have hcs := replaceAll_of_not_mem new cs n fun hmem => h (List.mem_cons_of_mem m hmem)
      rw [replace, StateT.run_bind, hcs]
      show (if m = old then pure new else rebuild m k cs cs : Fresh Tree).run n = _
      rw [if_neg hm, rebuild_self]
      rfl
termination_by structural t

theorem replaceAll_of_not_mem {old : Nat} (new : Tree) (ts : List Tree) (n : Nat)
    (h : old ∉ labelsOf ts) : (replaceAll ts old new).run n = (ts, n) := by
  cases ts with
  | nil => rfl
  | cons t ts =>
      have ht := replace_of_not_mem new t n fun hmem => h (List.mem_append_left _ hmem)
      have hts := replaceAll_of_not_mem new ts n fun hmem => h (List.mem_append_right _ hmem)
      rw [replaceAll, StateT.run_bind, ht]
      show ((replaceAll ts old new >>= fun cs' => pure (t :: cs') : Fresh (List Tree)).run n) = _
      rw [StateT.run_bind, hts]
      rfl
termination_by structural ts

end

theorem replaceAll_split {old : Nat} (new : Tree) {front : List Tree} (c : Tree) {back : List Tree}
    (n : Nat) (hfront : old ∉ labelsOf front) (hback : old ∉ labelsOf back) :
    (replaceAll (front ++ c :: back) old new).run n =
      (front ++ ((c.replace old new).run n).1 :: back, ((c.replace old new).run n).2) := by
  induction front with
  | nil =>
      rw [List.nil_append, replaceAll, StateT.run_bind]
      show ((replaceAll back old new >>= fun cs' => pure (_ :: cs') : Fresh (List Tree)).run
        ((c.replace old new).run n).2) = _
      rw [StateT.run_bind, replaceAll_of_not_mem new back _ hback]
      rfl
  | cons d front ih =>
      have hd := replace_of_not_mem new d n fun hmem => hfront (List.mem_append_left _ hmem)
      have hrest := ih fun hmem => hfront (List.mem_append_right _ hmem)
      rw [List.cons_append, replaceAll, StateT.run_bind, hd]
      show ((replaceAll (front ++ c :: back) old new >>= fun cs' => pure (d :: cs') :
        Fresh (List Tree)).run n) = _
      rw [StateT.run_bind, hrest]
      rfl

/-!
# The way down to the element
-/

theorem replace_root {t : Tree} (new : Tree) {n : Nat} (hneat : t.Neat n) :
    (t.replace t.label new).run n = (new, n) := by
  cases t with
  | leaf l =>
      rw [replace, label, if_pos rfl]
      rfl
  | node m k cs =>
      have hcs : m ∉ labelsOf cs := by
        intro hmem
        have hcount := hneat.count_le_one m
        rw [labels_node, List.count_cons_self] at hcount
        have hpos := List.count_pos_iff.mpr hmem
        omega
      rw [replace, label, StateT.run_bind, replaceAll_of_not_mem new cs n hcs]
      show (if m = m then pure new else rebuild m k cs cs : Fresh Tree).run n = _
      rw [if_pos rfl]
      rfl

theorem Swapped.node {place : List Nat} {old new c c' : Tree} (h : Swapped place old new c c')
    (m x : Nat) (k : NodeKind) (front back : List Tree) :
    Swapped (front.length :: place) old new (.node m k (front ++ c :: back))
      (.node x k (front ++ c' :: back)) := by
  constructor
  · exact (at?_child x k front c' back place).trans h.put
  · rcases h.tokens with ⟨before, behind, hc, hc'⟩
    refine ⟨tokensOf front ++ before, behind ++ tokensOf back, ?_, ?_⟩
    · rw [tokens_node, tokensOf_append, tokensOf_cons, hc]
      simp only [List.append_assoc]
    · rw [tokens_node, tokensOf_append, tokensOf_cons, hc']
      simp only [List.append_assoc]
  · intro p v hv hnot hnot'
    cases p with
    | nil => exact absurd List.nil_prefix hnot
    | cons j p =>
        by_cases hj : j = front.length
        · rw [hj, at?_child] at hv ⊢
          rw [hj, List.cons_prefix_cons] at hnot hnot'
          exact h.beside p v hv (fun hp => hnot ⟨rfl, hp⟩) (fun hp => hnot' ⟨rfl, hp⟩)
        · have hsame : (front ++ c' :: back)[j]? = (front ++ c :: back)[j]? := by
            simp only [List.getElem?_append, List.getElem?_cons]
            split
            · rfl
            · rw [if_neg (by omega), if_neg (by omega)]
          rw [at?_cons] at hv ⊢
          rw [hsame, hv]
  · intro p v hv hp hne
    cases p with
    | nil =>
        cases hv
        refine ⟨_, rfl, rfl, ?_⟩
        simp only [children, List.length_append, List.length_cons]
    | cons j p =>
        rw [List.cons_prefix_cons] at hp
        rcases hp with ⟨rfl, hp⟩
        rw [at?_child] at hv ⊢
        exact h.above p v hv hp fun heq => hne (by rw [heq])

/-- Putting `new` in the place of `old`: either nothing is new at all, or all nodes down to the place are. -/
theorem replace_at {old new : Tree} (hnew : new.label = old.label → new = old) {place : List Nat}
    {t : Tree} {n : Nat} (hneat : t.Neat n) (h : t.at? place = some old) :
    n ≤ ((t.replace old.label new).run n).2 ∧
      Swapped place old new t ((t.replace old.label new).run n).1 ∧
      (((t.replace old.label new).run n).1.label = t.label →
        ((t.replace old.label new).run n).1 = t) ∧
      (new = old → ((t.replace old.label new).run n).1 = t) := by
  -- By induction on the way to the element. Its label stands nowhere else, so only the child on the
  -- way changes.
  induction place generalizing t with
  | nil =>
      cases h
      have hput : Swapped [] old new old new := by
        constructor
        · rfl
        · exact ⟨[], [], by simp, by simp⟩
        · intro p m _ _ hnot
          exact absurd List.nil_prefix hnot
        · intro p m _ hp hne
          exact absurd (List.prefix_nil.mp hp) hne
      rw [replace_root new hneat]
      exact ⟨Nat.le_refl n, hput, hnew, id⟩
  | cons i place ih =>
      rcases child_of_at? h with ⟨m, k, front, c, back, rfl, rfl, hold⟩
      rcases label_apart hneat hold with ⟨hm, hfront, hback⟩
      rcases ih hneat.child hold with ⟨hle, hswapped, hsame, hself⟩
      have hlt : m < n := hneat.lt m (List.mem_cons_self ..)
      have hrun : ((Tree.node m k (front ++ c :: back)).replace old.label new).run n =
          (rebuild m k (front ++ c :: back)
            (front ++ ((c.replace old.label new).run n).1 :: back)).run
              ((c.replace old.label new).run n).2 := by
        rw [replace, StateT.run_bind, replaceAll_split new c n hfront hback]
        show (if m = old.label then pure new else _ : Fresh Tree).run _ = _
        rw [if_neg hm]
      rw [hrun]
      rcases hresult : (c.replace old.label new).run n with ⟨c', n'⟩
      rw [hresult] at hle hswapped hsame hself
      rw [rebuild]
      split
      · next hlabels =>
          have hc : c' = c := by
            apply hsame
            rw [sameElements, beq_iff_eq, List.map_append, List.map_append] at hlabels
            have htail := List.append_cancel_left hlabels
            rw [List.map_cons, List.map_cons, List.cons.injEq] at htail
            exact htail.1.symm
          rw [hc] at hswapped
          exact ⟨hle, hswapped.node m m k front back, fun _ => rfl, fun _ => rfl⟩
      · next hlabels =>
          refine ⟨Nat.le_succ_of_le hle, hswapped.node m n' k front back, ?_, ?_⟩
          · intro hlabel
            have heq : n' = m := hlabel
            have hle' : n ≤ n' := hle
            omega
          · intro heq
            rw [hself heq] at hlabels
            exact absurd (beq_self_eq_true _) hlabels

theorem knows_of_at? {t m : Tree} {n : Nat} {place : List Nat} (hneat : t.Neat n)
    (h : t.at? place = some m) : t.Knows m := by
  intro p u hu hlabel
  induction place generalizing t p with
  | nil =>
      cases h
      cases p with
      | nil =>
          cases hu
          rfl
      | cons j p =>
          rcases child_of_at? hu with ⟨a, k, front, c, back, rfl, -, hc⟩
          exact absurd hlabel.symm (label_apart hneat hc).1
  | cons i place ih =>
      rcases child_of_at? h with ⟨a, k, front, c, back, rfl, rfl, hc⟩
      rcases label_apart hneat hc with ⟨ha, hfront, hback⟩
      cases p with
      | nil =>
          cases hu
          exact absurd hlabel ha
      | cons j p =>
          by_cases hj : j = front.length
          · rw [hj, at?_child] at hu
            exact ih hneat.child hc p hu
          · rw [at?_cons] at hu
            rcases Option.bind_eq_some_iff.mp hu with ⟨d, hd, hv⟩
            have hmem := label_mem_of_at? hv
            rw [List.getElem?_append, List.getElem?_cons] at hd
            split at hd
            · exact absurd (label_mem_labelsOf (List.mem_of_getElem? hd) (hlabel ▸ hmem)) hfront
            · rw [if_neg (by omega)] at hd
              exact absurd (label_mem_labelsOf (List.mem_of_getElem? hd) (hlabel ▸ hmem)) hback

/-!
# What a replacement changes
-/

theorem code_of_tokens_cons {t : Tree} {first : Token} {rest : List Token}
    (h : t.tokens = first :: rest) :
    t.code = first.leading.code ++ (first.text ++ first.trailing.code ++ rest.flatMap Token.code) := by
  rw [code, h, List.flatMap_cons, Token.code]
  simp only [List.append_assoc]

theorem code_of_tokens_concat {t : Tree} {last : Token} {front : List Token}
    (h : t.tokens = front ++ [last]) :
    t.code = front.flatMap Token.code ++ last.leading.code ++ last.text ++ last.trailing.code := by
  rw [code, h, List.flatMap_append, List.flatMap_singleton, Token.code]
  simp only [List.append_assoc]

/-- Replacing `old` by `new` gives back the tree itself when `old` is not in it or is `new`.  Otherwise
`new` stands in the place of `old`, and whatever is neither inside `old` nor above it is the same element in
the same place.  So setting the trivia at one end of a tree changes nothing but this trivia. -/
theorem replace_swaps {t old new : Tree} {n : Nat} (hneat : t.Neat n) (hold : t.Knows old)
    (hnew : new.label = old.label → new = old) :
    ((∀ place, t.at? place ≠ some old) ∨ new = old → ((t.replace old.label new).run n).1 = t) ∧
      (∀ place, t.at? place = some old →
        Swapped place old new t ((t.replace old.label new).run n).1) ∧
      ∀ trivia : Trivia,
        (t.tokens = [] →
          ((t.withLeading trivia).run n).1 = t ∧ ((t.withTrailing trivia).run n).1 = t) ∧
        (∀ first rest, t.tokens = first :: rest →
          ((t.withLeading trivia).run n).1.tokens = { first with leading := trivia } :: rest ∧
          ∃ tail, t.code = first.leading.code ++ tail ∧
            ((t.withLeading trivia).run n).1.code = trivia.code ++ tail) ∧
        ∀ front last, t.tokens = front ++ [last] →
          ((t.withTrailing trivia).run n).1.tokens = front ++ [{ last with trailing := trivia }] ∧
          ∃ start, t.code = start ++ last.trailing.code ∧
            ((t.withTrailing trivia).run n).1.code = start ++ trivia.code := by
  refine ⟨?_, fun place h => (replace_at hnew hneat h).2.1, fun trivia => ⟨?_, ?_, ?_⟩⟩
  · intro h
    by_cases hmem : old.label ∈ t.labels
    · rcases exists_at?_of_mem_labels t hmem with ⟨place, m, hm, hlabel⟩
      rw [hold place m hm hlabel] at hm
      rcases h with habsent | heq
      · exact absurd hm (habsent place)
      · exact (replace_at hnew hneat hm).2.2.2 heq
    · rw [replace_of_not_mem new t n hmem]
  · intro h
    have hleaves : t.leaves = [] := List.map_eq_nil_iff.mp h
    constructor
    · rw [withLeading, firstLeaf?, hleaves]
      rfl
    · rw [withTrailing, lastLeaf?, hleaves]
      rfl
  · intro first rest h
    have htokens := (withLeading_edit hneat h trivia).tokens
    exact ⟨htokens, _, code_of_tokens_cons h, code_of_tokens_cons htokens⟩
  · intro front last h
    have htokens := (withTrailing_edit hneat h trivia).tokens
    exact ⟨htokens, _, code_of_tokens_concat h, code_of_tokens_concat htokens⟩

def twins : Tree :=
  .node 4 .sourceFile
    [.node 5 .item
      [.node 6 .statement [.leaf ⟨0, ⟨.identifier, ['a'], [], []⟩⟩],
       .leaf ⟨1, ⟨.semicolon, [';'], [], []⟩⟩],
     .node 7 .item [.node 8 .statement [.leaf ⟨2, ⟨.identifier, ['a'], [], []⟩⟩]],
     .leaf ⟨3, ⟨.endOfFile, [], [], []⟩⟩]

theorem neat_of_nodup {t : Tree} {n : Nat} (hnodup : t.labels.Nodup) (hlt : ∀ x ∈ t.labels, x < n) :
    t.Neat n := by
  intro x
  by_cases hx : x ∈ t.labels
  · rw [if_pos (hlt x hx)]
    exact List.nodup_iff_count_le_one.mp hnodup x
  · rw [List.count_eq_zero_of_not_mem hx]
    exact Nat.zero_le _

theorem replace_swaps_twins :
    twins.Neat 10 ∧
      twins.at? [0, 0] = some (.node 6 .statement [.leaf ⟨0, ⟨.identifier, ['a'], [], []⟩⟩]) ∧
      Swapped [0, 0] (.node 6 .statement [.leaf ⟨0, ⟨.identifier, ['a'], [], []⟩⟩])
        (.node 9 .expression []) twins ((twins.replace 6 (.node 9 .expression [])).run 10).1 ∧
      ((twins.replace 6 (.node 9 .expression [])).run 10).1.code = [';', 'a'] ∧
      ((twins.withLeading [.spaces 2]).run 10).1.code = [' ', ' ', 'a', ';', 'a'] := by
  have hneat : twins.Neat 10 := neat_of_nodup (by decide) (by decide)
  have hplace : twins.at? [0, 0] =
      some (.node 6 .statement [.leaf ⟨0, ⟨.identifier, ['a'], [], []⟩⟩]) := rfl
  have hall := @replace_swaps _ _ (.node 9 .expression []) 10 hneat (knows_of_at? hneat hplace)
    (fun h => by cases h)
  refine ⟨hneat, hplace, hall.2.1 [0, 0] hplace, rfl, ?_⟩
  rcases ((hall.2.2 [.spaces 2]).2.1 _ _ rfl).2 with ⟨tail, htail, hcode⟩
  rw [hcode]
  exact congrArg ([' ', ' '] ++ ·) htail.symm

end Tree
end ForceTry

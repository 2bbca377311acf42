import ForceTry.Indentation.Shift
import ForceTry.Proofs.Tree.Labels

/-!
# Edits of tokens

An edit of tokens keeps the skeleton of a tree and makes a new list of its tokens.  In a tree in which
no label occurs twice, setting the trivia at one end changes the token at that end only.
-/

namespace ForceTry
namespace Tree

structure TokenEdit (n : Nat) (t : Tree) (ts : List Token) (result : Tree × Nat) : Prop where
  le : n ≤ result.2
  skeleton : result.1.skeleton = t.skeleton
  tokens : result.1.tokens = ts
  count : ∀ x, result.1.labels.count x ≤ t.labels.count x + handedOut n result.2 x

theorem Neat.grow {n n' : Nat} {t t' : Tree} (h : t.Neat n) (hle : n ≤ n')
    (hcount : ∀ x, t'.labels.count x ≤ t.labels.count x + handedOut n n' x) : t'.Neat n' := by
  intro x
  have hx := h x
  have hx' := hcount x
  unfold handedOut at hx'
  split at hx <;> split at hx' <;> split <;> omega

theorem TokenEdit.neat {n : Nat} {t : Tree} {ts : List Token} {result : Tree × Nat}
    (h : TokenEdit n t ts result) (hneat : t.Neat n) : result.1.Neat result.2 :=
  hneat.grow h.le h.count

theorem TokenEdit.refl (n : Nat) (t : Tree) : TokenEdit n t t.tokens (t, n) :=
  ⟨Nat.le_refl n, rfl, rfl, fun _ => Nat.le_add_right _ _⟩

theorem TokenEdit.trans {n : Nat} {t : Tree} {ts us : List Token} {result result' : Tree × Nat}
    (h : TokenEdit n t ts result) (h' : TokenEdit result.2 result.1 us result') :
    TokenEdit n t us result' := by
  constructor
  · exact Nat.le_trans h.le h'.le
  · exact h'.skeleton.trans h.skeleton
  · exact h'.tokens
  · intro x
    have hadd := handedOut_add h.le h'.le x
    have hcount := h.count x
    have hcount' := h'.count x
    omega

/-!
# One leaf
-/

theorem replaceToken_edit {n : Nat} {t : Tree} {l : Leaf} {before behind : List Leaf}
    (hneat : t.Neat n) (hleaves : t.leaves = before ++ l :: behind) (token : Token) :
    TokenEdit n t (before.map Leaf.token ++ token :: behind.map Leaf.token)
      ((t.replaceToken l token).run n) := by
  have hmem : l ∈ t.leaves := by simp [hleaves]
  have hfresh : n ∉ t.labels := fun h => Nat.lt_irrefl n (hneat.lt n h)
  have hedit := replace_edit l.label (.leaf ⟨n, token⟩) t (n + 1)
    (fun x hx => Nat.lt_succ_of_lt (hneat.lt x hx)) hfresh
  have hsubst := subst_leaf l ⟨n, token⟩ t hmem (hneat.count_le_one l.label)
  have hplain := (plain_eq_iff _ _).mp hedit.plain
  have hcount := count_leaves_le t l.label
  rw [hleaves, List.map_append, List.map_cons, List.count_append, List.count_cons_self] at hcount
  have hone := hneat.count_le_one l.label
  have hbefore : l.label ∉ before.map Leaf.label := List.count_eq_zero.mp (by omega)
  have hbehind : l.label ∉ behind.map Leaf.label := List.count_eq_zero.mp (by omega)
  constructor
  · exact Nat.le_of_succ_le hedit.le
  · exact hplain.1.trans hsubst.skeleton
  · rw [show ((t.replaceToken l token).run n).1.tokens = _ from hplain.2, Tree.tokens,
      hsubst.leaves, hleaves, List.map_append, List.map_cons, if_pos rfl,
      map_leaves_of_not_mem hbefore, map_leaves_of_not_mem hbehind, List.map_append,
      List.map_cons]
  · intro x
    have hx := hedit.count x
    have hx' : _ ≤ List.count x t.labels + if n == x then 1 else 0 := hsubst.count x
    have hadd := handedOut_add (Nat.le_succ n) hedit.le x
    rw [Nat.succ_eq_add_one, handedOut_succ] at hadd
    show List.count x ((t.replace l.label (.leaf ⟨n, token⟩)).run (n + 1)).1.labels ≤ _ +
      handedOut n ((t.replace l.label (.leaf ⟨n, token⟩)).run (n + 1)).2 x
    omega

theorem withLeading_edit {n : Nat} {t : Tree} {first : Token} {rest : List Token}
    (hneat : t.Neat n) (htokens : t.tokens = first :: rest) (trivia : Trivia) :
    TokenEdit n t ({ first with leading := trivia } :: rest) ((t.withLeading trivia).run n) := by
  cases hleaves : t.leaves with
  | nil =>
      rw [tokens, hleaves] at htokens
      cases htokens
  | cons l ls =>
      rw [tokens, hleaves, List.map_cons] at htokens
      injection htokens with hfirst hrest
      have hedit := @replaceToken_edit n t l [] ls hneat hleaves
        { l.token with leading := trivia }
      rw [hfirst, hrest] at hedit
      rw [withLeading, firstLeaf?, hleaves]
      show TokenEdit _ _ _ ((t.replaceToken l { l.token with leading := trivia }).run n)
      rw [hfirst]
      exact hedit

theorem withTrailing_edit {n : Nat} {t : Tree} {last : Token} {front : List Token}
    (hneat : t.Neat n) (htokens : t.tokens = front ++ [last]) (trivia : Trivia) :
    TokenEdit n t (front ++ [{ last with trailing := trivia }])
      ((t.withTrailing trivia).run n) := by
  rcases List.eq_nil_or_concat t.leaves with hleaves | ⟨ls, l, hleaves⟩
  · rw [tokens, hleaves] at htokens
    simp at htokens
  · rw [List.concat_eq_append] at hleaves
    rw [tokens, hleaves, List.map_append, List.map_cons, List.map_nil] at htokens
    have hparts := List.append_inj' htokens rfl
    have hfront := hparts.1
    have hlast : l.token = last := by simpa using hparts.2
    have hedit := replaceToken_edit hneat hleaves { l.token with trailing := trivia }
    rw [hlast, hfront] at hedit
    rw [withTrailing, lastLeaf?, hleaves, List.getLast?_concat]
    show TokenEdit _ _ _ ((t.replaceToken l { l.token with trailing := trivia }).run n)
    rw [hlast]
    exact hedit

/-!
# All leaves
-/

mutual

def mapLeaves (f : Token → Token) : Tree → Tree
  | .leaf l => .leaf ⟨l.label, f l.token⟩
  | .node n k cs => .node n k (mapLeavesAll f cs)

def mapLeavesAll (f : Token → Token) : List Tree → List Tree
  | [] => []
  | c :: cs => mapLeaves f c :: mapLeavesAll f cs

end

mutual

theorem mapTokens_result (f : Token → Token) (t : Tree) (n : Nat) (hlt : ∀ x ∈ t.labels, x < n) :
    Edit n t (mapLeaves f t) ((mapTokens f t).run n) := by
  cases t with
  | leaf l =>
      rw [mapTokens, mapLeaves]
      split
      · next h =>
          rw [h]
          exact Edit.refl n (.leaf l)
      · constructor
        · exact Nat.le_succ n
        · intro hlabel
          have heq : n = l.label := hlabel
          exact absurd (hlt l.label (List.mem_singleton.mpr rfl)) (by omega)
        · rfl
        · intro x
          show List.count x [n] ≤ _ + handedOut n (n + 1) x
          rw [handedOut_succ, List.count_singleton]
          exact Nat.le_add_left _ _
  | node m k cs =>
      have hcs := mapTokensAll_result f cs n fun x hx => hlt x (List.mem_cons_of_mem m hx)
      rw [mapTokens, mapLeaves]
      exact Edit.rebuild (hlt m (List.mem_cons_self ..)) hcs
termination_by structural t

theorem mapTokensAll_result (f : Token → Token) (ts : List Tree) (n : Nat)
    (hlt : ∀ x ∈ labelsOf ts, x < n) :
    EditAll n ts (mapLeavesAll f ts) ((mapTokensAll f ts).run n) := by
  cases ts with
  | nil => exact EditAll.nil n
  | cons t ts =>
      have ht := mapTokens_result f t n fun x hx => hlt x (List.mem_append_left _ hx)
      have hts := mapTokensAll_result f ts ((mapTokens f t).run n).2
        fun x hx => Nat.lt_of_lt_of_le (hlt x (List.mem_append_right _ hx)) ht.le
      exact EditAll.cons ht hts
termination_by structural ts

end

theorem skeleton_mapLeaves (f : Token → Token) (t : Tree) :
    (mapLeaves f t).skeleton = t.skeleton ∧ (mapLeaves f t).tokens = t.tokens.map f ∧
      (mapLeaves f t).labels = t.labels := by
  induction t using Tree.induction with
  | leaf l => exact ⟨rfl, rfl, rfl⟩
  | node n k cs ih =>
      have hcs : outlineAll (fun _ => Grammar.nothing) (mapLeavesAll f cs) =
            outlineAll (fun _ => Grammar.nothing) cs ∧
          tokensOf (mapLeavesAll f cs) = (tokensOf cs).map f ∧
          labelsOf (mapLeavesAll f cs) = labelsOf cs := by
        clear n k
        induction cs with
        | nil => exact ⟨rfl, rfl, rfl⟩
        | cons c cs ihcs =>
            have hc := ih c (by simp)
            have hrest := ihcs fun d hd => ih d (List.mem_cons_of_mem c hd)
            rw [skeleton, skeleton] at hc
            refine ⟨?_, ?_, ?_⟩
            · rw [mapLeavesAll, outlineAll, outlineAll, hc.1, hrest.1]
            · rw [mapLeavesAll, tokensOf_cons, tokensOf_cons, List.map_append, hc.2.1, hrest.2.1]
            · rw [mapLeavesAll, labelsOf_cons, labelsOf_cons, hc.2.2, hrest.2.2]
      refine ⟨?_, hcs.2.1, ?_⟩
      · show Tree.node 0 k (outlineAll _ _) = Tree.node 0 k (outlineAll _ _)
        rw [hcs.1]
      · rw [mapLeaves, labels_node, labels_node, hcs.2.2]

theorem mapTokens_edit {n : Nat} {t : Tree} (hneat : t.Neat n) (f : Token → Token) :
    TokenEdit n t (t.tokens.map f) ((mapTokens f t).run n) := by
  have hedit := mapTokens_result f t n hneat.lt
  have hpure := skeleton_mapLeaves f t
  have hplain := (plain_eq_iff _ _).mp hedit.plain
  constructor
  · exact hedit.le
  · exact hplain.1.trans hpure.1
  · exact hplain.2.trans hpure.2.1
  · intro x
    have hx := hedit.count x
    rw [hpure.2.2] at hx
    exact hx

theorem reindent_edit {n : Nat} {t : Tree} {first : Token} {rest : List Token}
    (hneat : t.Neat n) (htokens : t.tokens = first :: rest) (base : Trivia) {indentation : Trivia}
    (hindentation : indentation ≠ []) :
    TokenEdit n t
      ({ first.shift base indentation with
          leading := indentation ++ (first.shift base indentation).leading } ::
        rest.map (Token.shift base indentation))
      ((t.reindent base indentation true).run n) := by
  have hmap := mapTokens_edit hneat (Token.shift base indentation)
  rw [htokens, List.map_cons] at hmap
  have hlead := withLeading_edit (hmap.neat hneat) hmap.tokens
    (indentation ++ (first.shift base indentation).leading)
  have hboth := hmap.trans hlead
  rcases hresult : (t.mapTokens (Token.shift base indentation)).run n with ⟨moved, n'⟩
  rw [hresult] at hboth hmap
  have hfirst : moved.firstLeaf?.map Leaf.token = some (first.shift base indentation) := by
    rw [firstLeaf?, ← List.head?_map, ← tokens, hmap.tokens]
    rfl
  have hnotEmpty : indentation.isEmpty = false := by
    cases indentation with
    | nil => exact absurd rfl hindentation
    | cons p ps => rfl
  cases hleaf : moved.firstLeaf? with
  | none =>
      rw [hleaf] at hfirst
      cases hfirst
  | some l =>
      rw [hleaf, Option.map_some, Option.some.injEq] at hfirst
      have hrun : (t.reindent base indentation true).run n =
          (moved.withLeading (indentation ++ l.token.leading)).run n' := by
        rw [reindent, StateT.run_bind, hresult, hnotEmpty]
        simp only [Bool.not_false, Bool.and_self, if_true, bind, hleaf]
      rw [hrun, hfirst]
      exact hboth

end Tree
end ForceTry

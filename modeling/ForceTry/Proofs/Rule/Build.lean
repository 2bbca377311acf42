import ForceTry.Proofs.Computation
import ForceTry.Proofs.Rule.Unforce

/-!
# What the rule builds

The rule takes the statement apart and puts it together in several steps, each of which hands out new
labels.  Without labels the result is one tree: the item whose statement is `do` and `catch`, with the
tokens of the old statement dressed anew.
-/

namespace ForceTry
namespace DoCatch

open ForceTry.Tree

/-!
# Dressing tokens
-/

structure Layout where
  unit : IndentUnit
  base : Trivia
  atLineStart : Bool
  placeholder : Text
  newline : Trivia

def trimLast : List Token → List Token
  | [] => []
  | [t] => [{ t with trailing := t.trailing.withoutTrailingBlanks }]
  | t :: ts => t :: trimLast ts

def blanksBehind (ts : List Token) : Trivia :=
  (ts.getLast?.map fun t => t.trailing.trailingBlanks).getD []

namespace Layout

def deeper (o : Layout) : Trivia := o.unit.addedTo o.base

/-- The trivia in front of `do` and the trivia that stays with the statement. -/
def split (o : Layout) (t : Token) : Trivia × Trivia :=
  splitLeading t.leading o.base o.atLineStart

def dressFirst (o : Layout) (t : Token) : Token :=
  let moved := Token.shift o.base o.deeper { t with leading := (o.split t).2 }
  { moved with leading := o.newline ++ (o.deeper ++ moved.leading) }

def dress (o : Layout) (ts : List Token) : List Token :=
  match trimLast ts with
  | [] => []
  | first :: rest => o.dressFirst first :: rest.map (Token.shift o.base o.deeper)

def doLeading (o : Layout) (ts : List Token) : Trivia :=
  ((trimLast ts).head?.map fun t => (o.split t).1).getD []

def braces (content : Tree) (right : Token) : Tree :=
  .node 0 .block [.leaf ⟨0, Token.leftBrace [] []⟩, .node 0 .item [content], .leaf ⟨0, right⟩]

def wrapped (o : Layout) (content : Tree) : Tree :=
  .node 0 .doStatement
    [.leaf ⟨0, ⟨.keyword, "do".toList, o.doLeading content.tokens, [.spaces 1]⟩⟩,
     braces (content.refill (o.dress content.tokens))
       (Token.rightBrace (o.newline ++ o.base) [.spaces 1]),
     .node 0 .catchClause
       [.leaf ⟨0, ⟨.keyword, "catch".toList, [], [.spaces 1]⟩⟩,
        braces (.node 0 .statement
            [.leaf ⟨0, Token.placeholder o.placeholder (o.newline ++ o.deeper) []⟩])
          (Token.rightBrace (o.newline ++ o.base) (blanksBehind content.tokens))]]

theorem deeper_ne_nil (o : Layout) : o.deeper ≠ [] := by
  unfold deeper IndentUnit.addedTo
  split
  · split <;> simp
  · simp

end Layout

theorem length_trimLast (ts : List Token) : (trimLast ts).length = ts.length := by
  fun_induction trimLast ts with
  | case1 => rfl
  | case2 t => rfl
  | case3 t ts _ ih => rw [List.length_cons, List.length_cons, ih]

theorem length_dress (o : Layout) (ts : List Token) : (o.dress ts).length = ts.length := by
  have hlength := length_trimLast ts
  unfold Layout.dress
  split
  · next h => rw [← hlength, h]
  · next first rest h => rw [← hlength, h, List.length_cons, List.length_cons, List.length_map]

theorem trimLast_append (front : List Token) (last : Token) :
    trimLast (front ++ [last]) =
      front ++ [{ last with trailing := last.trailing.withoutTrailingBlanks }] := by
  induction front with
  | nil => rfl
  | cons t front ih =>
      rw [List.cons_append, trimLast, ih]
      · rfl
      · intro h
        simp at h

theorem blanksBehind_append (front : List Token) (last : Token) :
    blanksBehind (front ++ [last]) = last.trailing.trailingBlanks := by
  rw [blanksBehind, List.getLast?_concat]
  rfl

/-!
# The steps
-/

theorem any_firstLeaf? (t : Tree) :
    t.firstLeaf?.any (·.token.leading.isEmpty) = t.tokens.head?.any (·.leading.isEmpty) := by
  rw [firstLeaf?, tokens, List.head?_map, Option.any_map]

def withoutMark : Tree → Tree
  | .node n .tryExpression [.leaf keyword, .leaf mark, operand] =>
      .node n .tryExpression
        [.leaf ⟨keyword.label,
          { keyword.token with trailing := trailingOfTry keyword.token mark.token operand }⟩,
         operand]
  | t => t

def IsMarked (t : Tree) : Prop :=
  ∃ n keyword mark operand, t = .node n .tryExpression [.leaf keyword, .leaf mark, operand]

theorem stripMark_result {marked : Tree} (h : IsMarked marked) (n : Nat) :
    ∃ stripped, (stripMark marked).run n = (stripped, n + 2) ∧ stripped.label = n + 1 ∧
      stripped.plain = (withoutMark marked).plain ∧
      ∀ x, stripped.labels.count x ≤ marked.labels.count x + handedOut n (n + 2) x := by
  rcases h with ⟨label, keyword, mark, operand, rfl⟩
  refine ⟨.node (n + 1) .tryExpression [.leaf ⟨n, { keyword.token with
    trailing := trailingOfTry keyword.token mark.token operand }⟩, operand], rfl, rfl, rfl, ?_⟩
  intro x
  have hadd : handedOut n (n + 1) x + handedOut (n + 1) (n + 2) x = handedOut n (n + 2) x :=
    handedOut_add (Nat.le_succ n) (Nat.le_succ (n + 1)) x
  have hsecond : handedOut (n + 1) (n + 2) x = if n + 1 == x then 1 else 0 :=
    handedOut_succ (n + 1) x
  rw [handedOut_succ, hsecond] at hadd
  simp only [labels_node, labels_leaf, labelsOf_cons, labelsOf_nil, List.append_nil,
    List.singleton_append, List.count_cons]
  omega

theorem detachBlanks_result {n : Nat} {t : Tree} {front : List Token} {last : Token}
    (hneat : t.Neat n) (htokens : t.tokens = front ++ [last]) :
    ((detachBlanks t).run n).1.2 = blanksBehind t.tokens ∧
      TokenEdit n t (trimLast t.tokens)
        (((detachBlanks t).run n).1.1, ((detachBlanks t).run n).2) := by
  have hlast : t.lastLeaf?.map Leaf.token = some last := by
    rw [lastLeaf?, ← List.getLast?_map, ← tokens, htokens, List.getLast?_concat]
  have hblanks : blanksBehind t.tokens = last.trailing.trailingBlanks := by
    rw [blanksBehind, htokens, List.getLast?_concat]
    rfl
  rw [hblanks, htokens, trimLast_append]
  cases hleaf : t.lastLeaf? with
  | none =>
      rw [hleaf] at hlast
      cases hlast
  | some l =>
      rw [hleaf, Option.map_some, Option.some.injEq] at hlast
      subst hlast
      unfold detachBlanks
      cases htrailing : l.token.trailing.trailingBlanks with
      | nil =>
          have hwhole := Trivia.withoutTrailingBlanks_append_trailingBlanks l.token.trailing
          rw [htrailing, List.append_nil] at hwhole
          simp only [hleaf, htrailing]
          rw [hwhole, ← htokens]
          exact ⟨rfl, TokenEdit.refl n t⟩
      | cons p ps =>
          simp only [hleaf, htrailing]
          exact ⟨rfl, withTrailing_edit hneat htokens l.token.trailing.withoutTrailingBlanks⟩

theorem firstLeaf_result {t : Tree} {first : Token} {rest : List Token}
    (htokens : t.tokens = first :: rest) : ∃ l, firstLeaf t = .ok l ∧ l.token = first := by
  cases hleaves : t.leaves with
  | nil =>
      rw [tokens, hleaves] at htokens
      cases htokens
  | cons l ls =>
      rw [tokens, hleaves, List.map_cons] at htokens
      injection htokens with hfirst _
      refine ⟨l, ?_, hfirst⟩
      rw [firstLeaf, firstLeaf?, hleaves]
      rfl

theorem content_result {n k : Nat} {inner marked stripped : Tree} {semicolon : List Tree}
    (hneat : (Tree.node k .item (inner :: semicolon)).Neat n)
    (hmem : marked ∈ inner.nodes) (hstripped : n ≤ stripped.label) :
    ∀ n', n ≤ n' →
      content marked stripped (some (.node k .item (inner :: semicolon))) n' =
          .ok ((((inner.replace marked.label stripped).run n').1, semicolon),
            ((inner.replace marked.label stripped).run n').2) ∧
        Edit n' inner (subst marked.label stripped inner)
          ((inner.replace marked.label stripped).run n') := by
  intro n' hle
  have hlt : ∀ x ∈ inner.labels, x < n := by
    intro x hx
    apply hneat.lt
    simp [hx]
  constructor
  · have hmember : (some (Tree.node k .item (inner :: semicolon))).any
        (Tree.hasNode marked.label) = true := by
      rw [Option.any_some, hasNode, List.any_eq_true]
      refine ⟨marked, ?_, by simp⟩
      rw [nodes, nodesOf]
      exact List.mem_cons_of_mem _ (List.mem_append_left _ hmem)
    unfold content
    simp only [Option.bind_some, itemParts, hmember, ↓reduceIte]
    rfl
  · apply replace_edit
    · intro x hx
      exact Nat.lt_of_lt_of_le (hlt x hx) hle
    · intro hold
      exact absurd (hlt _ hold) (Nat.not_lt.mpr hstripped)

theorem dress_result {n : Nat} {t : Tree} (o : Layout) (hneat : t.Neat n) (hne : t.tokens ≠ []) :
    ∃ detached first leading moved last,
      (detachBlanks t).run n = detached ∧ detached.1.2 = blanksBehind t.tokens ∧
      firstLeaf detached.1.1 = .ok first ∧ (o.split first.token).1 = o.doLeading t.tokens ∧
      (detached.1.1.withLeading (o.split first.token).2).run detached.2 = leading ∧
      (leading.1.reindent o.base o.deeper true).run leading.2 = moved ∧
      firstLeaf moved.1 = .ok last ∧
      TokenEdit n t (o.dress t.tokens)
        ((moved.1.withLeading (o.newline ++ last.token.leading)).run moved.2) := by
  rcases List.eq_nil_or_concat t.tokens with hnil | ⟨front, final, htokens⟩
  · exact absurd hnil hne
  rw [List.concat_eq_append] at htokens
  have hdetach := detachBlanks_result hneat htokens
  rcases hresult : (detachBlanks t).run n with ⟨⟨detached, closing⟩, n₁⟩
  rw [hresult] at hdetach
  rcases hdetach with ⟨hclosing, hdetached⟩
  have hneat₁ := hdetached.neat hneat
  cases htrim : trimLast t.tokens with
  | nil =>
      have hlength := length_trimLast t.tokens
      rw [htrim] at hlength
      exact absurd (List.eq_nil_of_length_eq_zero hlength.symm) hne
  | cons first rest =>
      have htokens₁ := hdetached.tokens
      rw [htrim] at htokens₁
      rcases firstLeaf_result htokens₁ with ⟨l, hl, rfl⟩
      have hlead := withLeading_edit hneat₁ htokens₁ (o.split l.token).2
      have hneat₂ := hlead.neat hneat₁
      have hmove := reindent_edit hneat₂ hlead.tokens o.base o.deeper_ne_nil
      have hneat₃ := hmove.neat hneat₂
      rcases firstLeaf_result hmove.tokens with ⟨m, hm, hmtoken⟩
      have hlast := withLeading_edit hneat₃ hmove.tokens (o.newline ++ m.token.leading)
      refine ⟨_, l, _, _, m, rfl, hclosing, hl, ?_, rfl, rfl, hm, ?_⟩
      · rw [Layout.doLeading, htrim]
        rfl
      · have hall := ((hdetached.trans hlead).trans hmove).trans hlast
        have hdress : o.dress t.tokens =
            { Token.shift o.base o.deeper { l.token with leading := (o.split l.token).2 } with
              leading := o.newline ++ m.token.leading } ::
              rest.map (Token.shift o.base o.deeper) := by
          rw [Layout.dress, htrim, hmtoken]
          rfl
        rw [hdress]
        exact hall

def bracesFrom (m : Nat) (content : Tree) (right : Token) : Tree :=
  .node (m + 3) .block
    [.leaf ⟨m + 1, Token.leftBrace [] []⟩, .node m .item [content], .leaf ⟨m + 2, right⟩]

/-- The item around a `do` statement whose body is `final`, with labels from `m` on. -/
def Layout.numbered (o : Layout) (m : Nat) (doLeading closing : Trivia) (final : Tree)
    (semicolon : List Tree) : Tree :=
  .node (m + 14) .item
    (.node (m + 13) .doStatement
      [.leaf ⟨m + 12, ⟨.keyword, "do".toList, doLeading, [.spaces 1]⟩⟩,
       bracesFrom m final (Token.rightBrace (o.newline ++ o.base) [.spaces 1]),
       .node (m + 11) .catchClause
         [.leaf ⟨m + 10, ⟨.keyword, "catch".toList, [], [.spaces 1]⟩⟩,
          bracesFrom (m + 6) (.node (m + 5) .statement
              [.leaf ⟨m + 4, Token.placeholder o.placeholder (o.newline ++ o.deeper) []⟩])
            (Token.rightBrace (o.newline ++ o.base) closing)]] :: semicolon)

theorem count_numbered (o : Layout) (m : Nat) (doLeading closing : Trivia) (final : Tree)
    (semicolon : List Tree) (x : Nat) :
    (o.numbered m doLeading closing final semicolon).labels.count x =
      final.labels.count x + (labelsOf semicolon).count x + handedOut m (m + 15) x := by
  rw [handedOut_eq_count]
  simp only [Layout.numbered, bracesFrom, labels_node, labels_leaf, labelsOf_cons, labelsOf_nil,
    List.range', List.count_cons, List.count_append, List.append_nil, List.count_nil,
    Nat.add_assoc, Nat.reduceAdd, Nat.zero_add]
  ac_rfl

def Layout.wrappedItem (o : Layout) (content : Tree) (semicolon : List Tree) : Tree :=
  .node 0 .item (o.wrapped content :: semicolon)

theorem neat_content {n k : Nat} {inner : Tree} {semicolon : List Tree}
    (h : (Tree.node k .item (inner :: semicolon)).Neat n) : inner.Neat n := by
  intro x
  have hx := h x
  rw [labels_node, List.count_cons, labelsOf_cons, List.count_append] at hx
  omega

/-- In the first two steps the mark goes, and the new `try` takes the place of the old one. -/
theorem replaced_result {n k : Nat} {inner marked : Tree} {semicolon : List Tree}
    (hneat : (Tree.node k .item (inner :: semicolon)).Neat n) (hmarked : IsMarked marked)
    (hmem : marked ∈ inner.nodes) :
    ∃ stripped replaced n', (stripMark marked).run n = (stripped, n + 2) ∧
      content marked stripped (some (.node k .item (inner :: semicolon))) (n + 2) =
        .ok ((replaced, semicolon), n') ∧ n ≤ n' ∧
      replaced.plain = (subst marked.label (withoutMark marked) inner).plain ∧
      ∀ x, replaced.labels.count x ≤ inner.labels.count x + handedOut n n' x := by
  rcases stripMark_result hmarked n with ⟨stripped, hstrip, hlabel, hplain, hcount⟩
  have hstripped : n ≤ stripped.label := by omega
  rcases content_result hneat hmem hstripped (n + 2) (by omega) with ⟨hcontent, hedit⟩
  rcases hreplaced : (inner.replace marked.label stripped).run (n + 2) with ⟨replaced, n'⟩
  rw [hreplaced] at hcontent hedit
  have hle : n + 2 ≤ n' := hedit.le
  refine ⟨stripped, replaced, n', hstrip, hcontent, by omega,
    hedit.plain.trans (plain_subst _ hplain inner), ?_⟩
  intro x
  have hsubst := count_subst hmem ((neat_content hneat).count_le_one _) stripped x
  have hx : replaced.labels.count x ≤ _ + handedOut (n + 2) n' x := hedit.count x
  have hmark := hcount x
  have hadd : handedOut n (n + 2) x + handedOut (n + 2) n' x = handedOut n n' x :=
    handedOut_add (by omega) hedit.le x
  omega

theorem build_result {o : Layout} {n k : Nat} {inner marked : Tree} {semicolon : List Tree}
    (hneat : (Tree.node k .item (inner :: semicolon)).Neat n) (hmarked : IsMarked marked)
    (hmem : marked ∈ inner.nodes) (hnewline : o.newline.isEmpty = false)
    (hne : (subst marked.label (withoutMark marked) inner).tokens ≠ []) :
    ∃ t n', build marked o.unit o.base (some (.node k .item (inner :: semicolon))) o.atLineStart
        o.placeholder o.newline n = .ok ([t], n') ∧ n ≤ n' ∧ n ≤ t.label ∧
      t.plain = (o.wrappedItem (subst marked.label (withoutMark marked) inner) semicolon).plain ∧
      ∀ x, t.labels.count x ≤ (Tree.node k .item (inner :: semicolon)).labels.count x +
        handedOut n n' x := by
  rcases replaced_result hneat hmarked hmem with
    ⟨stripped, inner₀, n₀, hstrip, hcontent, hle₀, hplain₀, hcount₀⟩
  have hneat₀ := (neat_content hneat).grow hle₀ hcount₀
  have hsame := (plain_eq_iff _ _).mp hplain₀
  rcases dress_result o hneat₀ (by rw [hsame.2]; exact hne) with
    ⟨⟨⟨detached, closing⟩, n₁⟩, first, ⟨leading, n₂⟩, ⟨moved, n₃⟩, last, hdetach, hclosing, hfirstLeaf,
      hdoLeading, hleading, hmoved, hlastLeaf, hdress⟩
  rcases hfinal : (moved.withLeading (o.newline ++ last.token.leading)).run n₃ with ⟨final, m⟩
  rw [hfinal] at hdress
  simp only at hclosing hfirstLeaf hleading hmoved hlastLeaf
  refine ⟨o.numbered m (o.split first.token).1 closing final semicolon, m + 15, ?_, ?_, ?_, ?_, ?_⟩
  · unfold build
    rw [hnewline, build_bind_fresh, hstrip, bind_of_ok hcontent]
    simp only
    rw [build_bind_fresh, hdetach, build_bind_except hfirstLeaf]
    change ((liftM (detached.withLeading (o.split first.token).2) : Build Tree) >>= _) n₁ = _
    rw [build_bind_fresh, hleading]
    change ((liftM (leading.reindent o.base o.deeper true) : Build Tree) >>= _) n₂ = _
    rw [build_bind_fresh, hmoved, build_bind_except hlastLeaf]
    change ((liftM (moved.withLeading (o.newline ++ last.token.leading)) : Build Tree) >>= _) n₃ = _
    rw [build_bind_fresh, hfinal]
    rfl
  · have hle : n₀ ≤ m := hdress.le
    omega
  · have hle : n₀ ≤ m := hdress.le
    show n ≤ m + 14
    omega
  · have hrefill : final.plain =
        ((subst marked.label (withoutMark marked) inner).refill (o.dress
          (subst marked.label (withoutMark marked) inner).tokens)).plain := by
      rw [plain_eq_iff, skeleton_refill, tokens_refill _ _ (Nat.le_of_eq (length_dress o _).symm),
        ← length_dress o,
        List.take_length, ← hsame.1, ← hsame.2]
      exact ⟨hdress.skeleton, hdress.tokens⟩
    rw [Layout.wrappedItem, Layout.wrapped, ← hsame.2, ← hclosing, ← hdoLeading, hsame.2]
    rw [Tree.plain, Tree.plain] at hrefill
    simp only [Layout.numbered, bracesFrom, Layout.braces, Tree.plain, outline_node, outline_leaf,
      outlineAll, hrefill, id_eq]
  · intro x
    have hx : final.labels.count x ≤ inner₀.labels.count x + handedOut n₀ m x := hdress.count x
    have hx₀ := hcount₀ x
    have hadd := handedOut_add hle₀ hdress.le x
    have hle : n₀ ≤ m := hdress.le
    have hall : handedOut n m x + handedOut m (m + 15) x = handedOut n (m + 15) x :=
      handedOut_add (Nat.le_trans hle₀ hle) (Nat.le_add_right m 15) x
    have hadd' : handedOut n n₀ x + handedOut n₀ m x = handedOut n m x := hadd
    rw [count_numbered, labels_node, labelsOf_cons, List.count_cons, List.count_append]
    omega

end DoCatch
end ForceTry

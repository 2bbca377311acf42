import ForceTry.Proofs.Grammar.Children
import ForceTry.Proofs.Rule.Wrapped

/-!
# Wrapped statements of a source

For every item of a source and every forced `try` that belongs to it directly the rule builds one item.
Its text is that of the old item, without the mark and with its lines moved, in the body of `do`.
-/

namespace ForceTry
namespace DoCatch

open ForceTry.Tree ForceTry.Tokens ForceTry.Grammar

/-- A `try` without its mark and what stands behind it.  The trivia around the mark stays, and where
there is none in front of the operand, one space keeps it apart. -/
def unmarked (keyword mark : Token) (behind : List Token) : List Token :=
  let gap := keyword.trailing ++ mark.leading ++ mark.trailing
  let trailing :=
    if gap.isEmpty && behind.head?.any (·.leading.isEmpty) then [Piece.spaces 1] else gap
  { keyword with trailing } :: behind

/-- An item taken apart around a `try` with a mark. -/
structure Parts (s marked : Tree) where
  label : Nat
  content : Tree
  semicolon : List Tree
  first : Leaf
  before : List Leaf
  keyword : Leaf
  mark : Leaf
  behind : List Leaf
  item : s = .node label .item (content :: semicolon)
  starts : s.firstLeaf? = some first
  leaves : content.leaves = before ++ keyword :: mark :: behind
  behind_ne_nil : behind ≠ []
  begins : marked.firstLeaf? = some keyword
  marks : marked.tryMark? = some mark

namespace Parts

variable {s marked : Tree}

/-- The tokens of the statement without the mark. -/
def unmarked (p : Parts s marked) : List Token :=
  p.before.map Leaf.token ++
    DoCatch.unmarked p.keyword.token p.mark.token (p.behind.map Leaf.token)

theorem exists_cons_unmarked (p : Parts s marked) : ∃ first rest, p.unmarked = first :: rest ∧
    first.text = p.first.token.text ∧ first.leading = p.first.token.leading := by
  have hstarts := p.starts.symm.trans (congrArg Tree.firstLeaf? p.item)
  rw [firstLeaf?, leaves_node, leavesOf_cons, p.leaves] at hstarts
  rw [unmarked]
  cases hbefore : p.before with
  | nil =>
      rw [hbefore, List.nil_append, List.cons_append, List.head?_cons, Option.some.injEq] at hstarts
      rw [hstarts]
      exact ⟨_, _, rfl, rfl, rfl⟩
  | cons l ls =>
      rw [hbefore, List.cons_append, List.cons_append, List.head?_cons, Option.some.injEq] at hstarts
      rw [hstarts]
      exact ⟨_, _, rfl, rfl, rfl⟩

theorem one_lt_length (p : Parts s marked) : 1 < s.leaves.length := by
  have hleaves := congrArg Tree.leaves p.item
  rw [leaves_node, leavesOf_cons, p.leaves] at hleaves
  rw [hleaves]
  simp only [List.length_append, List.length_cons]
  omega

theorem blanksBehind_unmarked (p : Parts s marked) :
    blanksBehind p.unmarked = blanksBehind p.content.tokens := by
  rcases List.eq_nil_or_concat p.behind with hnil | ⟨ls, last, hlast⟩
  · exact absurd hnil p.behind_ne_nil
  rw [List.concat_eq_append] at hlast
  have hold : p.content.tokens = (p.before.map Leaf.token ++ p.keyword.token :: p.mark.token ::
      ls.map Leaf.token) ++ [last.token] := by
    rw [tokens, p.leaves, hlast]
    simp
  have hnew : ∃ front, p.unmarked = front ++ [last.token] := by
    rw [unmarked, DoCatch.unmarked, hlast, List.map_append, ← List.cons_append, ← List.append_assoc]
    exact ⟨_, rfl⟩
  rcases hnew with ⟨front, hnew⟩
  rw [hold, hnew, blanksBehind_append, blanksBehind_append]

end Parts

theorem tokens_withoutMark {n m : Nat} {keyword mark : Leaf} {parts : List Tree}
    (h : leavesOf parts ≠ []) (back : List Leaf) :
    (withoutMark (.node n .tryExpression
        [.leaf keyword, .leaf mark, .node m .expression parts])).tokens ++ back.map Leaf.token =
      unmarked keyword.token mark.token ((leavesOf parts ++ back).map Leaf.token) := by
  rcases List.exists_cons_of_ne_nil h with ⟨l, ls, hparts⟩
  have hhead : (Tree.node m .expression parts).tokens.head?.any (·.leading.isEmpty) =
      ((leavesOf parts ++ back).map Leaf.token).head?.any (·.leading.isEmpty) := by
    rw [tokens_node, tokensOf, hparts]
    rfl
  rw [withoutMark, trailingOfTry, any_firstLeaf?, hhead, unmarked]
  simp [tokensOf]

theorem mem_nodes_content {k : Nat} {content marked : Tree} {semicolon : List Tree}
    (hblock : content.isKind .block = false) (hleaves : ∀ c ∈ semicolon, c.kind? = none)
    (hmarked : marked ∈ (Tree.node k .item (content :: semicolon)).directNodes)
    (hforced : marked.isForceTry = true) : marked ∈ content.nodes := by
  rw [directNodes, directNodesOf, hblock, directNodesOf_leaves hleaves, List.append_nil] at hmarked
  rcases List.mem_cons.mp hmarked with rfl | hmarked
  · cases hforced
  · exact mem_nodes_of_mem_directNodes content marked hmarked

theorem exists_parts {s marked : Tree} {n : Nat} (hformed : Formed s) (hkind : s.isKind .item = true)
    (hneat : s.Neat n) (hmarked : marked ∈ s.directNodes) (hforced : marked.isForceTry = true) :
    ∃ p : Parts s marked, IsMarked marked ∧ marked ∈ p.content.nodes ∧
      (subst marked.label (withoutMark marked) p.content).tokens = p.unmarked := by
  have htry := forced_of_formed
    (formed_of_mem_nodes s hformed marked (mem_nodes_of_mem_directNodes s marked hmarked)) hforced
  cases s with
  | leaf l => cases hkind
  | node k kind cs =>
      rw [isKind_node, beq_iff_eq] at hkind
      subst hkind
      rcases item_of_formed hformed with ⟨content, semicolon, rfl, hblock, _, hleaves⟩
      have hmem := mem_nodes_content hblock hleaves hmarked hforced
      have hcount := (neat_content hneat).count_le_one marked.label
      rcases htry with ⟨n', keyword, mark, m, parts, rfl, hparts⟩
      rcases (split_subst content hmem hcount (withoutMark _)).1 with ⟨front, back, hold, hnew⟩
      have hfirst : ∃ l, (Tree.node k .item (content :: semicolon)).firstLeaf? = some l := by
        rw [firstLeaf?, leaves_node, leavesOf_cons, hold]
        cases front with
        | nil => exact ⟨_, rfl⟩
        | cons l ls => exact ⟨l, rfl⟩
      rcases hfirst with ⟨first, hfirst⟩
      have hbehind : leavesOf parts ++ back ≠ [] := List.append_ne_nil_of_left_ne_nil hparts back
      refine ⟨⟨k, content, semicolon, first, front, keyword, mark, leavesOf parts ++ back, rfl,
        hfirst, ?_, hbehind, rfl, rfl⟩, ⟨n', keyword, mark, _, rfl⟩, hmem, ?_⟩
      · rw [hold]
        simp
      · rw [tokens, hnew, List.map_append, List.map_append, Parts.unmarked,
          ← tokens_withoutMark hparts]
        rfl

theorem first_mem_body {n : Nat} {ts : Tokens} {root s : Tree} {l : Leaf}
    (hleaves : root.leaves = Tokens.toLeaves n ts.toList) (hs : s ∈ root.nodes)
    (hfirst : s.firstLeaf? = some l) (hlength : 1 < s.leaves.length) : l.token ∈ ts.body := by
  rcases leaves_split root s hs with ⟨front, back, hsplit⟩
  have htokens := tokens_of_toLeaves hleaves
  rcases List.head?_eq_some_iff.mp hfirst with ⟨ls, hall⟩
  rw [hall, List.length_cons, Nat.add_one_lt_add_one_iff] at hlength
  rcases List.exists_cons_of_length_pos hlength with ⟨m, ms, rfl⟩
  rw [tokens, hsplit, hall, Tokens.toList] at htokens
  have hbody := congrArg List.dropLast htokens
  rw [List.dropLast_concat] at hbody
  rw [← hbody]
  simp

theorem code_wrappedItem {s marked t : Tree} {p : Parts s marked}
    (ht : t.tokens = p.unmarked) {o : Layout} (hbase : o.base.Indents)
    (hline : o.atLineStart = true → o.base = p.first.token.leading.leadingIndentation) :
    (o.wrappedItem t p.semicolon).code =
      o.text (o.inFront p.first.token.leading) (o.body p.unmarked)
        (blanksBehind p.content.tokens).code ++ codeOf (tokensOf p.semicolon) := by
  rcases p.exists_cons_unmarked with ⟨first, rest, hcons, _, hleading⟩
  rw [← hleading] at hline
  have hblanks := p.blanksBehind_unmarked
  rw [hcons] at hblanks
  have htokens : (o.wrappedItem t p.semicolon).tokens =
      o.wrappedTokens (first :: rest) ++ tokensOf p.semicolon := by
    rw [Layout.wrappedItem, tokens_node, tokensOf_cons, tokens_wrapped, ht, hcons]
  rw [Tree.code, htokens, hcons, ← hblanks, ← hleading, ← Layout.codeOf_wrappedTokens hbase hline]
  exact codeOf_append _ _

/-- For every item of a source and every forced `try` that belongs to it directly, the rule builds one
item.  Its text is the layout around the parts of the old item, and the body does not start with a
blank. -/
theorem code_of_build {first next supply : Nat} {source : Text} {root s marked : Tree}
    (hread : ofTextFrom first source = .ok (root, next)) (hsupply : next ≤ supply)
    (hs : s ∈ root.nodes) (hitem : s.isKind .item = true) (hmarked : marked ∈ s.directNodes)
    (hforced : marked.isForceTry = true) {o : Layout} (hbase : o.base = root.lineIndentation s)
    (hstart : o.atLineStart = startsLine (some root) s) (hnewline : o.newline ≠ []) :
    ∃ (p : Parts s marked) (item : Tree) (supply' : Nat),
      build marked o.unit o.base (some s) o.atLineStart o.placeholder o.newline supply =
        .ok ([item], supply') ∧
      item.code =
        o.text (o.inFront p.first.token.leading) (o.body p.unmarked)
          (blanksBehind p.content.tokens).code ++ codeOf (tokensOf p.semicolon) ∧
      ∃ c rest, o.body p.unmarked = c :: rest ∧ c ≠ ' ' ∧ c ≠ '\t' := by
  rcases ofTextFrom_forms hread with ⟨ts, hts, hleaves, hfile, hneat⟩
  have hdivide := divide_of_ofText hts
  have hindents : o.base.Indents := by
    rw [hbase]
    apply indents_lineIndentation
    rw [tokens_of_toLeaves hleaves]
    exact fun t ht => (hdivide.canonical t ht).1
  have hformed : Formed s := by
    apply formed_of_file hfile hs
    rw [isKind, beq_iff_eq] at hitem
    rw [isKind, hitem]
    rfl
  have hsupplied := hneat.of_mem_nodes hs hsupply
  rcases exists_parts hformed hitem hsupplied hmarked hforced with ⟨p, hmark, hmem, hunmarked⟩
  have hbody : p.first.token ∈ ts.body := first_mem_body hleaves hs p.starts p.one_lt_length
  have hline : o.atLineStart = true → o.base = p.first.token.leading.leadingIndentation := by
    intro h
    rw [hstart] at h
    rw [hbase, lineIndentation_of_startsLine hneat hs p.starts h]
  rcases p.exists_cons_unmarked with ⟨t, rest, hcons, htext, hleading⟩
  have hhead : ∃ c u, o.body p.unmarked = c :: u ∧ c ≠ ' ' ∧ c ≠ '\t' := by
    rcases starts_of_lexes ((ofText_eq_ok_iff source ts).mp hts) _ hbody with
      ⟨c, u, hstarts, hspace, htab, _⟩
    rw [hcons]
    apply Layout.head_body
    · rw [hleading]
      exact (hdivide.canonical _ (List.mem_append_left _ hbody)).1
    · rw [htext]
      exact ⟨c, u, hstarts, hspace, htab⟩
  have hne : (subst marked.label (withoutMark marked) p.content).tokens ≠ [] := by
    rw [hunmarked, hcons]
    exact List.cons_ne_nil t rest
  have hbreak : o.newline.isEmpty = false := List.isEmpty_eq_false_iff.mpr hnewline
  rcases build_result (o := o) (p.item ▸ hsupplied) hmark hmem hbreak hne with
    ⟨item, supply', hbuild, _, _, hplain, _⟩
  rw [← p.item] at hbuild
  refine ⟨p, item, supply', hbuild, ?_, hhead⟩
  rw [Tree.code, ((plain_eq_iff _ _).mp hplain).2]
  exact code_wrappedItem hunmarked hindents hline

example :
    ((ofTextFrom 0 (Text.ofString "let a = try!f(\n\t1)  ; g()\n")).toOption.bind fun result =>
      (result.1.children.head?.bind fun s => s.directNodes.find? isForceTry).bind fun marked =>
        (build marked .tab [] result.1.children.head? true Token.defaultPlaceholder Trivia.newline
          result.2).toOption.map fun built => built.1.map Tree.code) =
      some [Text.ofString "do \x7b\n\tlet a = try f(\n\t\t1)\n\x7d catch \x7b\n\t<#code#>\n\x7d  ; "] := by
  decide +kernel

/-- A statement with a comment in front of it, a second line, and a semicolon behind it. -/
theorem code_of_build_semicolon :
    ∃ root next s marked,
      ofTextFrom 0 (Text.ofString "if a \x7b\n\t/* b */ let c = try!f(\n\t\t1)  ; g()\n\x7d\n") =
        .ok (root, next) ∧
      s ∈ root.nodes ∧ s.isKind .item = true ∧ marked ∈ s.directNodes ∧ marked.isForceTry = true ∧
      ∃ (o : Layout) (p : Parts s marked) (item : Tree) (supply' : Nat),
        o = ⟨.tab, root.lineIndentation s, startsLine (some root) s, Token.defaultPlaceholder,
          Trivia.newline⟩ ∧
        build marked o.unit o.base (some s) o.atLineStart o.placeholder o.newline next =
          .ok ([item], supply') ∧
        item.code =
          o.text (o.inFront p.first.token.leading) (o.body p.unmarked)
            (blanksBehind p.content.tokens).code ++ codeOf (tokensOf p.semicolon) ∧
        ∃ c rest, o.body p.unmarked = c :: rest ∧ c ≠ ' ' ∧ c ≠ '\t' := by
  have hcheck : ((ofTextFrom 0
      (Text.ofString "if a \x7b\n\t/* b */ let c = try!f(\n\t\t1)  ; g()\n\x7d\n")).toOption.bind
      fun result => (result.1.nodes.find? fun (t : Tree) => t.isKind .item &&
        t.directNodes.any isForceTry).bind fun s => s.directNodes.find? isForceTry).isSome = true := by
    decide +kernel
  rcases Option.isSome_iff_exists.mp hcheck with ⟨marked, hfound⟩
  rcases Option.bind_eq_some_iff.mp hfound with ⟨⟨root, next⟩, hread, hfound⟩
  rcases Option.bind_eq_some_iff.mp hfound with ⟨s, hs, hmarked⟩
  have hok := eq_ok_of_toOption hread
  have hmem := List.mem_of_find?_eq_some hs
  have hitem := @List.find?_some _ (fun (t : Tree) => t.isKind .item &&
    t.directNodes.any isForceTry) _ _ hs
  rw [Bool.and_eq_true] at hitem
  have hdirect := List.mem_of_find?_eq_some hmarked
  have hforced := @List.find?_some _ isForceTry _ _ hmarked
  rcases @code_of_build 0 next next _ root s marked hok (Nat.le_refl next) hmem hitem.1 hdirect hforced
    ⟨.tab, root.lineIndentation s, startsLine (some root) s, Token.defaultPlaceholder, Trivia.newline⟩
    rfl rfl (List.cons_ne_nil _ _) with ⟨p, item, supply', hbuild⟩
  exact ⟨root, next, s, marked, hok, hmem, hitem.1, hdirect, hforced, _, p, item, supply', rfl, hbuild⟩

end DoCatch
end ForceTry

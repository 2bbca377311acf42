import ForceTry.Proofs.Grammar.Segments
import ForceTry.Proofs.Pass.Script
import ForceTry.Proofs.Pass.Starts
import ForceTry.Proofs.Rule.Aligned

/-!
# A pass keeps the margins

The walk through a file and the walk through what a pass makes of it are led side by side over the
tree.  Wherever the old walk is, the new one is in the same column or inside a line, where nothing can
go wrong.
-/

namespace ForceTry

open ForceTry.Text ForceTry.Tokens ForceTry.Tree ForceTry.DoCatch ForceTry.Grammar

variable {n : Nat} {a b : Column n}

namespace Tree

/-- No trivia stands in front of the mark that forces a `try`. -/
def markIsBare : Tree → Bool
  | .node _ .tryExpression [.leaf keyword, .leaf mark, _] =>
      mark.token.kind != .exclamationMark ||
        (keyword.token.trailing.isEmpty && mark.token.leading.isEmpty)
  | _ => true

/-- Every mark that forces a `try` of the tree stands directly behind it. -/
def BareMarks (t : Tree) : Prop := ∀ m ∈ t.nodes, m.markIsBare = true

theorem bare_of_bareMarks {t : Tree} (h : t.BareMarks) {k : Nat} {keyword mark : Leaf}
    {operand : Tree}
    (hmem : Tree.node k .tryExpression [.leaf keyword, .leaf mark, operand] ∈ t.nodes)
    (hmark : mark.token.kind = .exclamationMark) :
    keyword.token.trailing = [] ∧ mark.token.leading = [] := by
  have hbare := h _ hmem
  simpa [markIsBare, hmark] using hbare

end Tree

namespace Pass

/-!
# Where lines start
-/

/-- If the leaf starts a line of the file, a line break leads it. -/
def Breaks (pass : Pass) (l : Leaf) : Prop :=
  (l, true) ∈ pass.root.lineStarts → l.token.leading.containsNewline = true

/-- A line break leads every leaf that starts a line, but not necessarily the first leaf at the start of
a margin. -/
def Begins (pass : Pass) (a : Column n) : List Leaf → Prop
  | [] => True
  | l :: ls => (a = .margin 0 ∨ pass.Breaks l) ∧ ∀ m ∈ ls, pass.Breaks m

/-- A pass over a file with aligned lines, whose own lines will be aligned. -/
structure Aligned (n : Nat) (pass : Pass) : Prop where
  lines : pass.root.AlignedLines n
  unit : pass.unit.IsStep n
  placeholder : ∃ s, pass.style.placeholder = '<' :: s ∧ '\n' ∉ s
  marks : pass.root.BareMarks
  neat : ∃ next, pass.root.Neat next

structure Within (pass : Pass) (t : Tree) : Prop where
  nodes : ∀ m ∈ t.nodes, m ∈ pass.root.nodes
  leaves : ∀ l ∈ t.leaves, l ∈ pass.root.leaves.dropLast

variable {pass : Pass}

theorem begins_left {ls ms : List Leaf} (h : pass.Begins a (ls ++ ms)) : pass.Begins a ls := by
  cases ls with
  | nil => trivial
  | cons l ls => exact ⟨h.1, fun m hm => h.2 m (List.mem_append_left _ hm)⟩

theorem begins_right {ls ms : List Leaf} (h : pass.Begins a (ls ++ ms)) (hb : ls = [] → b = a) :
    pass.Begins b ms := by
  cases ls with
  | nil =>
      rw [hb rfl]
      exact h
  | cons l ls =>
      cases ms with
      | nil => trivial
      | cons m ms =>
          constructor
          · exact .inr (h.2 m (List.mem_append_right _ (List.mem_cons_self ..)))
          · exact fun m' hm => h.2 m' (List.mem_append_right _ (List.mem_cons_of_mem m hm))

theorem begins_behind {t : Tree} {ms : List Leaf} (h : pass.Begins a (t.leaves ++ ms))
    (hb : a.walk? t.code = some b) : pass.Begins b ms := by
  apply begins_right h
  intro hnil
  rw [Tree.code, tokens, hnil] at hb
  cases hb
  rfl

theorem within_child {m : Nat} {k : NodeKind} {cs : List Tree} (h : pass.Within (.node m k cs)) :
    ∀ c ∈ cs, pass.Within c := by
  intro c hc
  constructor
  · intro m' hm
    apply h.nodes
    rw [Tree.nodes, nodesOf_eq_flatMap]
    exact List.mem_cons_of_mem _ (List.mem_flatMap.mpr ⟨c, hc, hm⟩)
  · intro l hl
    apply h.leaves
    rw [leaves_node, leavesOf_eq_flatMap]
    exact List.mem_flatMap.mpr ⟨c, hc, hl⟩

theorem layout_aligned (hpass : pass.Aligned n) {t : Tree} (h : pass.Within t) :
    (pass.layout t).Aligned n := by
  refine ⟨hpass.unit, hpass.lines.indentation t ?_, hpass.lines.newline, hpass.placeholder⟩
  intro l hl
  exact h.leaves l (List.mem_of_mem_head? hl)

/-- A statement at the start of its line stands behind a line break, or it is the first of the file. -/
theorem line_of_atLineStart (hpass : pass.Aligned n) {t : Tree} (ht : t ∈ pass.root.nodes)
    (hbegins : pass.Begins a t.leaves) {x : Token} {xs : List Token} (htokens : t.tokens = x :: xs)
    (hstart : (pass.layout t).atLineStart = true) :
    x.leading.containsNewline = true ∨ a = .margin 0 := by
  rcases hpass.neat with ⟨next, hneat⟩
  cases hleaves : t.leaves with
  | nil =>
      rw [tokens, hleaves] at htokens
      cases htokens
  | cons l ls =>
      rw [tokens, hleaves, List.map_cons] at htokens
      injection htokens with hx _
      rw [hleaves] at hbegins
      rcases foundUnder_of_mem_nodes hneat ht (by rw [hleaves]; exact List.cons_ne_nil l ls) with
        ⟨starts, hfound⟩
      have hstarts : starts = true := (startsLine_of_foundUnder hfound).symm.trans hstart
      rcases hfound with ⟨l', hfirst, hentries⟩
      have heq : l' = l := by
        rw [firstLeaf?, hleaves] at hfirst
        exact (Option.some.inj hfirst).symm
      subst heq hstarts hx
      have hentry : (l', true) ∈ pass.root.lineStarts := by
        have hmem : (l', true) ∈ [(l', true)] := List.mem_singleton_self _
        rw [← hentries] at hmem
        exact (List.mem_filter.mp hmem).1
      exact hbegins.1.symm.imp (fun hbreaks => hbreaks hentry) id

/-!
# Every rule of the grammar
-/

/-- The walk through the tree behind the pass goes side by side with the walk through the tree, also
when the first mark of a statement is gone. -/
def KeepsMargins (n : Nat) (pass : Pass) (t : Tree) : Prop :=
  ∀ a : Column n, pass.Begins a t.leaves →
    a.Follows t.code (pass.rewritten t).code ∧
      (t.isKind .item = false → t.isKind .block = false → ∀ stripped,
        unforce? withoutMark (pass.rewritten t) = some stripped → a.Follows t.code stripped.code)

theorem code_node (m : Nat) (k : NodeKind) (cs : List Tree) :
    (Tree.node m k cs).code = codeOf (tokensOf cs) := by
  rw [Tree.code, tokens_node, codeOf]

theorem codeOf_tokensOf_cons (t : Tree) (ts : List Tree) :
    codeOf (tokensOf (t :: ts)) = t.code ++ codeOf (tokensOf ts) := by
  rw [tokensOf_cons, codeOf_append]
  rfl

theorem follows_rewrittenAll {ts : List Tree} (h : ∀ t ∈ ts, pass.KeepsMargins n t)
    (hbegins : pass.Begins a (leavesOf ts)) :
    a.Follows (codeOf (tokensOf ts)) (codeOf (tokensOf (pass.rewrittenAll ts))) := by
  induction ts generalizing a with
  | nil => exact Column.follows_refl a _
  | cons t ts ih =>
      rw [leavesOf_cons] at hbegins
      rw [rewrittenAll, codeOf_tokensOf_cons, codeOf_tokensOf_cons]
      refine (h t (List.mem_cons_self ..) a (begins_left hbegins)).1.append fun b hb => ?_
      exact ih (fun t' ht' => h t' (List.mem_cons_of_mem t ht')) (begins_behind hbegins hb)

theorem follows_unforceAll {ts : List Tree} (h : ∀ t ∈ ts, pass.KeepsMargins n t)
    (hitem : ∀ t ∈ ts, t.isKind .item = false) (hbegins : pass.Begins a (leavesOf ts))
    {stripped : List Tree}
    (hstripped : unforceAll? withoutMark (pass.rewrittenAll ts) = some stripped) :
    a.Follows (codeOf (tokensOf ts)) (codeOf (tokensOf stripped)) := by
  induction ts generalizing a stripped with
  | nil => cases hstripped
  | cons t ts ih =>
      have htail := fun t' (ht' : t' ∈ ts) => h t' (List.mem_cons_of_mem t ht')
      have ht := h t (List.mem_cons_self ..) a
      rw [leavesOf_cons] at hbegins
      rw [rewrittenAll] at hstripped
      rcases unforceAll?_cons hstripped with ⟨u, rfl, hblock, hu⟩ | ⟨us, rfl, hus⟩
      · rw [isKind_rewritten] at hblock
        rw [codeOf_tokensOf_cons, codeOf_tokensOf_cons]
        refine ((ht (begins_left hbegins)).2 (hitem t (List.mem_cons_self ..)) hblock u hu).append ?_
        exact fun b hb => follows_rewrittenAll htail (begins_behind hbegins hb)
      · rw [codeOf_tokensOf_cons, codeOf_tokensOf_cons]
        refine (ht (begins_left hbegins)).1.append fun b hb => ?_
        exact ih htail (fun t' ht' => hitem t' (List.mem_cons_of_mem t ht'))
          (begins_behind hbegins hb) hus

theorem follows_try (hmarks : pass.root.BareMarks) {m : Nat} {cs : List Tree}
    (hmem : Tree.node m .tryExpression cs ∈ pass.root.nodes)
    (hformed : Formed (.node m .tryExpression cs))
    (hforced : (Tree.node m .tryExpression cs).isForceTry = true)
    (h : ∀ c ∈ cs, pass.KeepsMargins n c) (hbegins : pass.Begins a (leavesOf cs)) :
    a.Follows (Tree.node m .tryExpression cs).code
      (withoutMark (.node m .tryExpression (pass.rewrittenAll cs))).code := by
  rcases forcedTry_of_formed hformed hforced with ⟨keyword, mark, operand, rfl, hkeyword, hmark⟩
  rcases bare_of_bareMarks hmarks hmem hmark with ⟨hkeywordBare, hmarkBare⟩
  rw [Token.isKeyword, Bool.and_eq_true, beq_iff_eq, beq_iff_eq] at hkeyword
  have hold : (Tree.node m .tryExpression [.leaf keyword, .leaf mark, operand]).code =
      (keyword.token.code ++ mark.token.code) ++ operand.code := by
    rw [code_node, codeOf_tokensOf_cons, codeOf_tokensOf_cons, codeOf_tokensOf_cons, tokensOf_nil,
      codeOf_nil, List.append_nil, List.append_assoc]
    simp [Tree.code, tokens, leaves]
  have hnew : ∀ trailing,
      trailing = trailingOfTry keyword.token mark.token (pass.rewritten operand) →
        (withoutMark (.node m .tryExpression
          (pass.rewrittenAll [.leaf keyword, .leaf mark, operand]))).code =
            ({ keyword.token with trailing } : Token).code ++ (pass.rewritten operand).code := by
    rintro trailing rfl
    simp [rewrittenAll, rewritten, withoutMark, Tree.code]
  rw [hold, hnew _ rfl]
  refine (follows_unmark _ hkeyword.2 hkeywordBare hmarkBare a).append fun b _ => ?_
  have hoperand : pass.Begins b (leavesOf [operand]) :=
    @begins_right n a b pass [keyword, mark] _ hbegins fun hnil =>
      absurd hnil (List.cons_ne_nil _ _)
  rw [leavesOf_cons, leavesOf_nil, List.append_nil] at hoperand
  exact (h operand (by simp) b hoperand).1

theorem follows_wrap (hpass : pass.Aligned n) {m : Nat} {content stripped : Tree}
    {semicolon : List Tree} (hwithin : pass.Within (.node m .item (content :: semicolon)))
    (hformed : Formed (.node m .item (content :: semicolon)))
    (hitem : content.isKind .item = false)
    (hbegins : pass.Begins a (content.leaves ++ leavesOf semicolon))
    (hunforce : unforce? withoutMark (pass.rewritten content) = some stripped)
    (h : a.Follows content.code stripped.code) :
    a.Follows (Tree.node m .item (content :: semicolon)).code
      ((pass.layout (.node m .item (content :: semicolon))).wrappedItem stripped semicolon).code := by
  rw [Layout.wrappedItem, code_node, code_node, codeOf_tokensOf_cons, codeOf_tokensOf_cons]
  refine Column.Follows.append (fun b hb => ?_) fun b _ => Column.follows_refl b _
  have hcontent := (formed_cases hformed).2 content (List.mem_cons_self ..)
  have hhead := head?_rewritten pass content hcontent.1 hitem
  rcases sameStart_unforce _ _ hunforce with ⟨x, y, xs, ys, hx, hy, hleading, htext⟩
  rw [hx, List.head?_cons] at hhead
  rcases List.head?_eq_some_iff.mp hhead.symm with ⟨xs', htokens⟩
  have hregular : x.Regular := by
    cases hleaves : content.leaves with
    | nil =>
        rw [tokens, hleaves] at htokens
        cases htokens
    | cons l ls =>
        rw [tokens, hleaves, List.map_cons] at htokens
        injection htokens with hl _
        rw [← hl]
        apply hpass.lines.regular
        apply (within_child hwithin content (List.mem_cons_self ..)).leaves
        rw [hleaves]
        exact List.mem_cons_self ..
  have hline : (pass.layout (.node m .item (content :: semicolon))).atLineStart = true →
      y.leading.containsNewline = true ∨ a = .margin 0 := by
    rw [hleading]
    apply line_of_atLineStart hpass (hwithin.nodes _ (List.mem_cons_self ..))
    · exact hbegins
    · rw [tokens_node, tokensOf_cons, htokens]
      rfl
  rcases h b hb with ⟨b', hb', _⟩
  have hcode : stripped.code = codeOf (y :: ys) := congrArg codeOf hy
  rw [hcode] at hb'
  have hwalk := walk?_wrapped (layout_aligned hpass hwithin)
    (by rw [hleading]; exact hregular.leading) (by rw [htext]; exact hregular.text) hline hb'
  refine ⟨.inside, ?_, .inside b⟩
  rw [Tree.code, tokens_wrapped, hy]
  exact hwalk

theorem keepsMargins_leaf (pass : Pass) (l : Leaf) : pass.KeepsMargins n (.leaf l) := by
  intro a _
  refine ⟨Column.follows_refl a _, ?_⟩
  intro _ _ stripped hstripped
  cases hstripped

theorem follows_item (hpass : pass.Aligned n) {m : Nat} {cs : List Tree}
    (hwithin : pass.Within (.node m .item cs)) (hformed : Formed (.node m .item cs))
    (h : ∀ c ∈ cs, pass.KeepsMargins n c) (hbegins : pass.Begins a (leavesOf cs)) :
    a.Follows (Tree.node m .item cs).code (pass.rewritten (.node m .item cs)).code := by
  rcases item_of_formed hformed with ⟨content, semicolon, rfl, hblock, hitem, hleaves⟩
  have hall := follows_rewrittenAll h hbegins
  rw [leavesOf_cons] at hbegins
  rw [rewrittenAll, rewrittenAll_leaves pass hleaves] at hall
  rw [rewritten, rewrittenAll, rewrittenAll_leaves pass hleaves,
    reworked_item _ m (by rw [isKind_rewritten, hblock]) hleaves]
  have hcontent := h content (List.mem_cons_self ..) a (begins_left hbegins)
  cases hstripped : unforce? withoutMark (pass.rewritten content) with
  | none =>
      rw [code_node, code_node]
      exact hall
  | some stripped =>
      exact follows_wrap hpass hwithin hformed hitem hbegins hstripped
        (hcontent.2 hitem hblock stripped hstripped)

theorem follows_unforce (hmarks : pass.root.BareMarks) {m : Nat} {k : NodeKind} {cs : List Tree}
    (hmem : Tree.node m k cs ∈ pass.root.nodes) (hformed : Formed (.node m k cs))
    (hkind : k ≠ .block) (h : ∀ c ∈ cs, pass.KeepsMargins n c)
    (hbegins : pass.Begins a (leavesOf cs)) {stripped : Tree}
    (hstripped : unforce? withoutMark (.node m k (pass.rewrittenAll cs)) = some stripped) :
    a.Follows (Tree.node m k cs).code stripped.code := by
  rcases unforce?_cases hstripped with ⟨rfl, hforced, rfl⟩ | ⟨us, rfl, hus⟩
  · exact follows_try hmarks hmem hformed hforced h hbegins
  · rw [code_node, code_node]
    exact follows_unforceAll h (fun c hc => ((formed_cases hformed).2 c hc).2 hkind) hbegins hus

theorem keepsMargins_of_formed (hpass : pass.Aligned n) (t : Tree) (h : Formed t)
    (hwithin : pass.Within t) : pass.KeepsMargins n t := by
  -- By induction on a tree of the grammar: the parts keep the margins, so the whole does.
  induction t using Tree.induction with
  | leaf l => exact keepsMargins_leaf pass l
  | node m k cs ih =>
      have hcs : ∀ c ∈ cs, pass.KeepsMargins n c := fun c hc =>
        ih c hc ((formed_cases h).2 c hc).1 (within_child hwithin c hc)
      intro a hbegins
      rw [leaves_node] at hbegins
      by_cases hk : k = .item
      · subst hk
        exact ⟨follows_item hpass hwithin h hcs hbegins, fun hitem => by cases hitem⟩
      · rw [rewritten_of_not_item pass m cs hk]
        constructor
        · rw [code_node, code_node]
          exact follows_rewrittenAll hcs hbegins
        · intro _ hblock stripped hstripped
          rw [isKind_node] at hblock
          exact follows_unforce hpass.marks (hwithin.nodes _ (List.mem_cons_self ..)) h
            (by simpa using hblock) hcs hbegins hstripped

/-- The walk through a file behind the pass goes side by side with the walk through the file. -/
theorem follows_of_formsFile (hpass : pass.Aligned n) (hfile : FormsFile pass.root) :
    (Column.margin 0 : Column n).Follows pass.root.code (pass.rewritten pass.root).code := by
  have hbegins : pass.Begins (Column.margin 0 : Column n) pass.root.leaves := by
    have hstarts := hpass.lines.starts
    cases hleaves : pass.root.leaves with
    | nil => trivial
    | cons l ls =>
        rw [hleaves] at hstarts
        exact ⟨.inl rfl, fun m hm => hstarts m hm⟩
  rcases items_of_formsFile hfile with ⟨m, items, ending, hroot, _, hformed⟩
  have hkeeps : ∀ c ∈ items ++ [.leaf ending], pass.KeepsMargins n c := by
    intro c hc
    rcases List.mem_append.mp hc with hc | hc
    · apply keepsMargins_of_formed hpass c (hformed c hc).1
      constructor
      · intro m' hm
        rw [hroot, Tree.nodes, nodesOf_eq_flatMap]
        exact List.mem_cons_of_mem _ (List.mem_flatMap.mpr ⟨c, List.mem_append_left _ hc, hm⟩)
      · intro l hl
        rw [hroot, leaves_node, leavesOf_append, leavesOf_cons, leavesOf_nil, List.append_nil,
          leaves_leaf, List.dropLast_concat, leavesOf_eq_flatMap]
        exact List.mem_flatMap.mpr ⟨c, hc, hl⟩
    · rw [List.mem_singleton.mp hc]
      exact keepsMargins_leaf pass ending
  have hcode : (pass.rewritten pass.root).code =
      codeOf (tokensOf (pass.rewrittenAll (items ++ [.leaf ending]))) := by
    rw [hroot, rewritten_of_not_item pass m _ (by decide), code_node]
  rw [hcode, hroot, code_node]
  rw [hroot] at hbegins
  exact follows_rewrittenAll hkeeps hbegins

end Pass
end ForceTry

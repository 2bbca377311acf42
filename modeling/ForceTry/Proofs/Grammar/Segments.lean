import ForceTry.Proofs.Grammar.Children
import ForceTry.Proofs.Grammar.Surface
import ForceTry.Proofs.Pass.Transform
import ForceTry.Proofs.Tree.Parsed
import Mathlib.Data.List.Basic

/-!
# Where statements end

A statement ends in front of a token that starts a new line outside brackets, and nowhere else but in
front of `;`, `}` and the end of the file.  So what the rule moves into the body of `do` is decided by
line breaks: the body of a condition stays with it when its brace stands on the same line, and what
stands in front of a statement on the same line moves with it.
-/

namespace ForceTry
namespace Grammar

open ForceTry.Parser ForceTry.Tree

/-!
# Items and the token behind them
-/

/-- A leaf stands behind the tree `m` in a list of leaves, and the grammar knows it as the token
behind `m`. -/
structure Followed (ls : List Leaf) (m : Tree) (l : Leaf) : Prop where
  stands : ∃ before after, ls = before ++ m.leaves ++ l :: after
  forms : ∃ previous, FormsItem previous l.token m

theorem Followed.grow {ls : List Leaf} {m : Tree} {l : Leaf} (h : Followed ls m l)
    (front back : List Leaf) : Followed (front ++ ls ++ back) m l := by
  rcases h with ⟨⟨before, after, rfl⟩, hforms⟩
  refine ⟨⟨front ++ before, after ++ back, ?_⟩, hforms⟩
  simp only [List.append_assoc, List.cons_append]

theorem followed_of_items {previous : Option Token} {closing : Leaf} {items : List Tree}
    (h : FormsItems previous closing.token items) {m : Tree} (hm : m ∈ items) :
    ∃ l, Followed (leavesOf (items ++ [.leaf closing])) m l := by
  rcases List.append_of_mem hm with ⟨xs, ys, rfl⟩
  rw [formsItems_append, FormsItems] at h
  have hnext : ∃ l after, leavesOf (ys ++ [.leaf closing]) = l :: after ∧
      l.token = firstOf ys closing.token := by
    rw [leavesOf_append, firstOf]
    cases leavesOf ys with
    | nil => exact ⟨closing, [], rfl, rfl⟩
    | cons l ls => exact ⟨l, ls ++ [closing], rfl, rfl⟩
  rcases hnext with ⟨l, after, hleaves, htoken⟩
  refine ⟨l, ⟨leavesOf xs, after, ?_⟩, ⟨_, htoken ▸ h.2.1⟩⟩
  rw [List.append_assoc, List.cons_append, leavesOf_append, leavesOf_cons, hleaves,
    List.append_assoc]

theorem leavesOf_of_mem {c : Tree} {cs : List Tree} (h : c ∈ cs) :
    ∃ front back, leavesOf cs = front ++ c.leaves ++ back := by
  rcases List.append_of_mem h with ⟨xs, ys, rfl⟩
  refine ⟨leavesOf xs, leavesOf ys, ?_⟩
  rw [leavesOf_append, leavesOf_cons, List.append_assoc]

theorem followed_of_body {closing : TokenKind} {previous : Option Token} {cs : List Tree}
    (h : FormsBody closing previous cs) {m : Tree} (hm : m ∈ cs) (hitem : m.isKind .item = true) :
    ∃ l, Followed (leavesOf cs) m l := by
  rcases (formsBody_iff _ _ _).mp h with ⟨items, l, rfl, _, hitems⟩
  rcases List.mem_append.mp hm with hm | hm
  · exact followed_of_items hitems hm
  · rw [List.mem_singleton.mp hm] at hitem
    cases hitem

theorem followed_of_formed (t : Tree) (h : Formed t) {m : Tree} (hm : m ∈ t.nodes)
    (hitem : m.isKind .item = true) : m = t ∨ ∃ l, Followed t.leaves m l := by
  induction t using Tree.induction with
  | leaf l => cases hm
  | node n k cs ih =>
      rw [nodes, nodesOf_eq_flatMap] at hm
      rcases List.mem_cons.mp hm with rfl | hm
      · exact .inl rfl
      rcases List.mem_flatMap.mp hm with ⟨c, hc, hm⟩
      have hchild := (formed_cases h).2 c hc
      refine .inr ?_
      rcases ih c hc hchild.1 hm with rfl | ⟨l, hl⟩
      · have hk : k = .block := by
          refine Decidable.byContradiction fun hk => ?_
          rw [hchild.2 hk] at hitem
          cases hitem
        subst hk
        rcases (formsBraces_iff cs).mp (braces_of_formed h) with
          ⟨left, items, right, rfl, _, _, hitems⟩
        have hmem : m ∈ items := by
          rcases List.mem_cons.mp hc with rfl | hc
          · cases hitem
          rcases List.mem_append.mp hc with hc | hc
          · exact hc
          · rw [List.mem_singleton.mp hc] at hitem
            cases hitem
        rcases followed_of_items hitems hmem with ⟨l, hl⟩
        have hgrow := hl.grow [left] []
        rw [List.append_nil] at hgrow
        exact ⟨l, hgrow⟩
      · rcases leavesOf_of_mem hc with ⟨front, back, hleaves⟩
        refine ⟨l, ?_⟩
        rw [leaves_node, hleaves]
        exact hl.grow front back

theorem followed_of_file {t : Tree} (h : FormsFile t) {m : Tree} (hm : m ∈ t.nodes)
    (hitem : m.isKind .item = true) : ∃ l, Followed t.leaves m l := by
  rcases file_of_formsFile h with ⟨_, n, cs, rfl, hformed⟩
  rw [FormsFile] at h
  rw [nodes, nodesOf_eq_flatMap] at hm
  rcases List.mem_cons.mp hm with rfl | hm
  · cases hitem
  rcases List.mem_flatMap.mp hm with ⟨c, hc, hm⟩
  rcases followed_of_formed c (hformed c hc) hm hitem with rfl | ⟨l, hl⟩
  · exact followed_of_body h hc hitem
  · rcases leavesOf_of_mem hc with ⟨front, back, hleaves⟩
    refine ⟨l, ?_⟩
    rw [leaves_node, hleaves]
    exact hl.grow front back

/-!
# Lines of a phrase
-/

/-- The number of round and square brackets that are open behind some parts. -/
def openIn (parts : List Tree) : Nat := ((Frame.statement false).afterAll parts).depth

/-- The operand of a `try` that is a part of a phrase outside brackets. -/
inductive OuterPhrase (parts : List Tree) : List Tree → Prop where
  | whole : OuterPhrase parts parts
  | operand {front back lead operand : List Tree} {n m : Nat}
      (h : OuterPhrase parts
        (front ++ .node n .tryExpression (lead ++ [.node m .expression operand]) :: back))
      (hdepth : openIn front = 0) : OuterPhrase parts operand

theorem depth_afterAll_of_depth {f g : Frame} (h : f.depth = g.depth) (ps : List Tree) :
    (f.afterAll ps).depth = (g.afterAll ps).depth := by
  induction ps generalizing f g with
  | nil => exact h
  | cons p ps ih =>
      rw [Frame.afterAll_cons, Frame.afterAll_cons]
      apply ih
      cases p with
      | leaf l => exact congrArg (Frame.depthAfter · l.token) h
      | node n k cs => exact h

/-- Behind its first part, a phrase has no token outside brackets that starts a new line. -/
theorem not_startsAnew_of_formsParts {f : Frame} (hline : f.lineSensitive = true)
    (hdepth : f.depth = 0) {previous : Option Token} {next : Token} {front back : List Tree} {c : Tree}
    (h : FormsParts f previous next (front ++ c :: back)) (hfront : front ≠ [])
    (hopen : openIn front = 0) :
    startsAnew (lastOf previous front) (firstOf (c :: back) next) = false := by
  rw [formsParts_append, FormsParts] at h
  have hends := not_ends_of_formsPart h.2.1
  have hparts : (f.afterAll front).hasParts = true := by
    cases front with
    | nil => exact absurd rfl hfront
    | cons d ds => rw [Frame.hasParts_afterAll, List.isEmpty_cons, Bool.not_false, Bool.or_true]
  have hzero : (f.afterAll front).depth = 0 := by
    rw [depth_afterAll_of_depth (g := Frame.statement false) hdepth]
    exact hopen
  rw [← firstOf_cons, Frame.ends, hzero, hparts, Frame.lineSensitive_afterAll, hline] at hends
  simp only [beq_self_eq_true, Bool.true_and, Bool.or_eq_false_iff] at hends
  exact hends.1.2

theorem formsParts_of_outerPhrase {parts phrase : List Tree} (h : OuterPhrase parts phrase) {f : Frame}
    (hline : f.lineSensitive = true) (hdepth : f.depth = 0) {previous : Option Token} {next : Token}
    (hforms : FormsParts f previous next parts) :
    ∃ g previous' next', g.lineSensitive = true ∧ g.depth = 0 ∧ FormsParts g previous' next' phrase := by
  induction h with
  | whole => exact ⟨f, previous, next, hline, hdepth, hforms⟩
  | @operand front back lead operand n m h hopen ih =>
      rcases ih with ⟨g, previous', next', hgline, hgdepth, hg⟩
      rw [formsParts_append, FormsParts] at hg
      have hpart := hg.2.1
      have hzero : (g.afterAll front).depth = 0 := by
        rw [depth_afterAll_of_depth (g := Frame.statement false) hgdepth]
        exact hopen
      have hsensitive := Frame.operand_lineSensitive
        ((Frame.lineSensitive_afterAll g front).trans hgline) hzero
      generalize hcs : lead ++ [Tree.node m .expression operand] = cs at hpart
      have hlast : cs.getLast? = some (.node m .expression operand) := by
        rw [← hcs, List.getLast?_append]
        rfl
      cases shape_of_formsPart hpart with
      | bare _ _ keyword parts hstays htry hne hparts =>
          cases hlast
          exact ⟨_, _, _, hsensitive, rfl, hparts⟩
      | marked _ _ keyword mark parts hstays htry hmark hne hparts =>
          cases hlast
          exact ⟨_, _, _, hsensitive, rfl, hparts⟩

/-- Behind its first token, a statement has no token outside brackets and blocks that starts a new
line.  `next` is the token behind the statement. -/
def Unbroken (parts : List Tree) (next : Token) : Prop :=
  ∀ phrase, OuterPhrase parts phrase → ∀ front c back, phrase = front ++ c :: back → front ≠ [] →
    openIn front = 0 → startsAnew (lastOf none front) (firstOf (c :: back) next) = false

theorem unbroken_of_formsContent {mayBeEmpty : Bool} {previous : Option Token} {next : Token} {n : Nat}
    {parts : List Tree} (h : FormsContent mayBeEmpty previous next (.node n .statement parts))
    (next' : Token) : Unbroken parts next' := by
  rw [FormsContent] at h
  rintro phrase hphrase front c back rfl hfront hopen
  rcases formsParts_of_outerPhrase hphrase rfl rfl h.2.2.1 with
    ⟨g, previous', behind, hline, hdepth, hg⟩
  have hnot := not_startsAnew_of_formsParts hline hdepth hg hfront hopen
  rw [formsParts_append, FormsParts] at hg
  have hleaves := leavesOf_ne_nil_of_formsParts hfront hg.1
  have hrest : leavesOf (c :: back) ≠ [] := by
    rw [leavesOf_cons]
    exact fun hnil => leaves_ne_nil_of_formsPart hg.2.1 (List.append_eq_nil_iff.mp hnil).1
  rw [lastOf_of_ne_nil hleaves none previous', firstOf_of_ne_nil hrest next' behind]
  exact hnot

/-- A statement without a semicolon ends in front of `}`, of the end of the file or of a token that
starts a new line. -/
theorem separates_of_formsItem {previous : Option Token} {next : Token} {n m : Nat}
    {parts : List Tree} (h : FormsItem previous next (.node n .item [.node m .statement parts])) :
    next.kind = .rightBrace ∨ next.kind = .endOfFile ∨
      startsAnew (lastOf none parts) next = true := by
  rw [FormsItem] at h
  have hseparates := separates_of_formsContent h.2
  rw [FormsContent] at h
  have hleaves := leavesOf_ne_nil_of_formsParts (fun hnil => Bool.noConfusion (h.2.1 hnil)) h.2.2.2.1
  rw [lastOf_of_ne_nil hleaves previous none] at hseparates
  rcases hseparates with hsemicolon | hbrace | hend | hanew
  · exact absurd hsemicolon h.1
  · exact .inl hbrace
  · exact .inr (.inl hend)
  · exact .inr (.inr hanew)

end Grammar

namespace Tree

open Grammar

/-- How the statements of a source are cut.  A statement without a semicolon ends where a line does, so
a brace that follows it stands on a new line.  Outside brackets and blocks no token of a statement but
the first one starts a new line, so a signature or a label in front of a `try` stands on its line. -/
theorem ofText_segments {source : Text} {t : Tree} (h : ofText source = .ok t) {m : Tree}
    (hm : m ∈ t.nodes) (hitem : m.isKind .item = true) :
    ∃ before l after, t.leaves = before ++ m.leaves ++ l :: after ∧
      (∀ n k parts, m = .node n .item [.node k .statement parts] →
        l.token.kind = .rightBrace ∨ l.token.kind = .endOfFile ∨
          startsAnew (lastOf none parts) l.token = true) ∧
      ∀ n k parts semicolon, m = .node n .item (.node k .statement parts :: semicolon) →
        Unbroken parts l.token := by
  rcases ofText_forms h with ⟨_, _, _, _, hforms, _⟩
  rcases followed_of_file hforms hm hitem with ⟨l, ⟨before, after, hleaves⟩, previous, hitems⟩
  refine ⟨before, l, after, hleaves, ?_, ?_⟩
  · rintro n k parts rfl
    exact separates_of_formsItem hitems
  · rintro n k parts semicolon rfl
    cases shape_of_formsItem hitems with
    | bare _ _ hnext hcontent => exact unbroken_of_formsContent hcontent l.token
    | closed _ _ end' hsemicolon hcontent => exact unbroken_of_formsContent hcontent l.token

theorem ofText_segments_signature :
    ∃ t m, ofText (Text.ofString "f \x7b x in\n  try! g(x)\n\x7d\n") = .ok t ∧ m ∈ t.nodes ∧
      m.isKind .item = true ∧
      ∃ before l after, t.leaves = before ++ m.leaves ++ l :: after ∧
        (∀ n k parts, m = .node n .item [.node k .statement parts] →
          l.token.kind = .rightBrace ∨ l.token.kind = .endOfFile ∨
            startsAnew (lastOf none parts) l.token = true) ∧
        ∀ n k parts semicolon, m = .node n .item (.node k .statement parts :: semicolon) →
          Unbroken parts l.token := by
  have hcheck : ((ofText (Text.ofString "f \x7b x in\n  try! g(x)\n\x7d\n")).toOption.bind fun t =>
      (t.nodes.find? isForcedItem).map fun m => m.isKind .item) = some true := by
    decide +kernel
  rcases Option.bind_eq_some_iff.mp hcheck with ⟨t, ht, hfound⟩
  rcases Option.map_eq_some_iff.mp hfound with ⟨m, hm, hitem⟩
  have hok := eq_ok_of_toOption ht
  have hmem := List.mem_of_find?_eq_some hm
  exact ⟨t, m, hok, hmem, hitem, ofText_segments hok hmem hitem⟩

/-!
# Items that the rule moves
-/

theorem behind_unique {ls before before' after after' : List Leaf} {l l' : Leaf} {m : Tree}
    (hnodup : ls.Nodup) (hne : m.leaves ≠ []) (h : ls = before ++ m.leaves ++ l :: after)
    (h' : ls = before' ++ m.leaves ++ l' :: after') : l = l' := by
  rcases List.exists_cons_of_ne_nil hne with ⟨x, xs, hm⟩
  rw [hm, List.append_assoc, List.cons_append] at h h'
  have hnot : x ∉ before ∧ x ∉ xs ++ l :: after := by
    rw [h, List.nodup_append, List.nodup_cons] at hnodup
    exact ⟨fun hx => hnodup.2.2 x hx x (List.mem_cons_self ..) rfl, hnodup.2.1.1⟩
  have hsplit := h.symm.trans h'
  rw [List.append_cons_inj_of_notMem hnot.1 hnot.2, List.append_cancel_left_eq, List.cons.injEq] at hsplit
  exact hsplit.2.2.1

variable {source : Text} {t m : Tree} {n k : Nat} {parts : List Tree}

/-- The rule moves the header of a condition without its body only when a line break stands before the
brace of the body. -/
theorem breaksBefore_of_torn (h : ofText source = .ok t) (hm : m ∈ t.nodes)
    (hforced : m.isForcedItem = true) (hstatement : m = .node n .item [.node k .statement parts])
    {before after : List Leaf} {l : Leaf} (hleaves : t.leaves = before ++ m.leaves ++ l :: after)
    (hbrace : l.token.kind = .leftBrace) : breaksBefore (lastOf none parts) l.token = true := by
  rcases ofText_forms h with ⟨_, _, _, htokens, hforms, _⟩
  rw [isForcedItem, Bool.and_eq_true] at hforced
  rcases followed_of_file hforms hm hforced.1 with ⟨l', ⟨before', after', hleaves'⟩, previous, hitems⟩
  have hne : m.leaves ≠ [] := by
    subst hstatement
    rw [leaves_node, leavesOf_cons, leavesOf_nil, List.append_nil, leaves_node]
    rw [FormsItem, FormsContent] at hitems
    exact leavesOf_ne_nil_of_formsParts (fun hnil => Bool.noConfusion (hitems.2.1 hnil)) hitems.2.2.2.1
  cases behind_unique (nodup_of_toLeaves htokens) hne hleaves hleaves'
  subst hstatement
  rcases separates_of_formsItem hitems with hkind | hkind | hanew
  · rw [hbrace] at hkind
    cases hkind
  · rw [hbrace] at hkind
    cases hkind
  · rw [startsAnew, Bool.and_assoc, Bool.and_assoc, Bool.and_assoc, Bool.and_eq_true] at hanew
    exact hanew.1

/-- Outside brackets what stands behind a keyword of a statement that the rule moves starts no new line.  So
the signature of a closure and a label move only with what stands on their line. -/
theorem not_startsAnew_behind (h : ofText source = .ok t) (hm : m ∈ t.nodes)
    (hforced : m.isForcedItem = true) {semicolon : List Tree}
    (hstatement : m = .node n .item (.node k .statement parts :: semicolon)) {front back : List Tree}
    {keyword : Leaf} {c : Tree} {word : String} (hword : keyword.token.isKeyword word = true)
    (hparts : parts = front ++ .leaf keyword :: c :: back) (hopen : openIn front = 0) :
    startsAnew (some keyword.token) (firstOf (c :: back) nothing) = false := by
  rcases ofText_forms h with ⟨_, _, _, _, hforms, _⟩
  rw [isForcedItem, Bool.and_eq_true] at hforced
  rcases followed_of_file hforms hm hforced.1 with ⟨l, _, previous, hitems⟩
  have hunbroken : Unbroken parts nothing := by
    subst hstatement
    cases shape_of_formsItem hitems with
    | bare _ _ hnext hcontent => exact unbroken_of_formsContent hcontent nothing
    | closed _ _ end' hsemicolon hcontent => exact unbroken_of_formsContent hcontent nothing
  have hbehind : openIn (front ++ [.leaf keyword]) = 0 := by
    have hbracket := not_bracket_of_keyword hword
    rw [openIn, Frame.afterAll_append]
    show Frame.depthAfter (openIn front) keyword.token = 0
    rw [Frame.depthAfter, hbracket.1, hbracket.2, hopen]
    rfl
  have hnot := hunbroken parts .whole (front ++ [.leaf keyword]) c back (by simp [hparts])
    (by simp) hbehind
  rw [lastOf_append] at hnot
  exact hnot

/-- A condition whose brace stands on a new line is cut off from its body, and wrapped without it. -/
theorem ofText_torn_condition :
    ∃ t m l after, ofText (Text.ofString "if try! ready()\n\x7b\n  run()\n\x7d\n") = .ok t ∧
      m ∈ t.nodes ∧ m.isForcedItem = true ∧ (firstOf [m] l.token).isKeyword "if" = true ∧
      t.leaves = m.leaves ++ l :: after ∧ l.token.kind = .leftBrace := by
  have hcheck : ((ofText (Text.ofString "if try! ready()\n\x7b\n  run()\n\x7d\n")).toOption.bind
      fun t => (t.nodes.find? isForcedItem).bind fun m =>
        (t.leaves.drop m.leaves.length).head?.map fun l =>
          decide (t.leaves.take m.leaves.length = m.leaves) && (firstOf [m] l.token).isKeyword "if" &&
            l.token.kind == .leftBrace) = some true := by
    decide +kernel
  rcases Option.bind_eq_some_iff.mp hcheck with ⟨t, ht, hfound⟩
  rcases Option.bind_eq_some_iff.mp hfound with ⟨m, hm, hnext⟩
  rcases Option.map_eq_some_iff.mp hnext with ⟨l, hl, hall⟩
  rw [Bool.and_eq_true, Bool.and_eq_true, decide_eq_true_eq, beq_iff_eq] at hall
  rcases List.head?_eq_some_iff.mp hl with ⟨after, hafter⟩
  refine ⟨t, m, l, after, eq_ok_of_toOption ht, List.mem_of_find?_eq_some hm, @List.find?_some _ isForcedItem _ _ hm,
    hall.1.2, ?_, hall.2⟩
  rw [← hall.1.1, ← hafter, List.take_append_drop]

theorem exists_forcedItem {source : Text} {words : List String}
    (h : ((ofText source).toOption.bind fun t => (t.nodes.find? isForcedItem).map fun m =>
      m.tokens.map Token.text) = some (words.map Text.ofString)) :
    ∃ t m, ofText source = .ok t ∧ m ∈ t.nodes ∧ m.isForcedItem = true ∧
      m.tokens.map Token.text = words.map Text.ofString := by
  rcases Option.bind_eq_some_iff.mp h with ⟨t, ht, hfound⟩
  rcases Option.map_eq_some_iff.mp hfound with ⟨m, hm, hwords⟩
  exact ⟨t, m, eq_ok_of_toOption ht, List.mem_of_find?_eq_some hm,
    @List.find?_some _ isForcedItem _ _ hm, hwords⟩

theorem ofText_moved_signature :
    ∃ t m, ofText (Text.ofString "items.forEach \x7b item in try! save(item) \x7d\n") = .ok t ∧
      m ∈ t.nodes ∧ m.isForcedItem = true ∧ m.tokens.map Token.text =
        ["item", "in", "try", "!", "save", "(", "item", ")"].map Text.ofString :=
  exists_forcedItem (by decide +kernel)

theorem ofText_moved_label :
    ∃ t m, ofText (Text.ofString "switch x \x7b case 1: try! f() \x7d\n") = .ok t ∧
      m ∈ t.nodes ∧ m.isForcedItem = true ∧ m.tokens.map Token.text =
        ["case", "1", ":", "try", "!", "f", "(", ")"].map Text.ofString :=
  exists_forcedItem (by decide +kernel)

end Tree
end ForceTry

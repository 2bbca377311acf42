import ForceTry.Proofs.Grammar.Ends
import ForceTry.Proofs.Grammar.Operands

/-!
# Where items start

An item starts at the start of its list of items, behind a semicolon, behind a `do` statement, or where a
new line does.  Outside brackets this is all there is to it: whatever operands are open, a token that
starts a new line starts an item.
-/

namespace ForceTry
namespace Grammar

open ForceTry.Parser ForceTry.Tree

/-!
# New lines
-/

/-- The token `b` starts a new line behind the token `a`: a line break stands before `b`, and neither `a`
nor `b` goes on with the line. -/
structure StartsLine (a b : Token) : Prop where
  breaks : b.leading.containsNewline = true
  period : b.kind ≠ .period
  operator : b.kind ≠ .operatorSign
  word : b.isKeyword "else" = false ∧ b.isKeyword "catch" = false ∧ b.isKeyword "where" = false
  comma : a.kind ≠ .comma
  binds : a.kind = .operatorSign → a.text = ['!'] ∨ a.text = ['?']
  keyword : a.isKeyword "try" = false
  mark : a.kind.marksTry = false

theorem not_bindsOn_iff (a : Token) :
    bindsOn a = false ↔ a.kind ≠ .comma ∧ (a.kind = .operatorSign → a.text = ['!'] ∨ a.text = ['?']) := by
  simp only [bindsOn, Bool.or_eq_false_iff, beq_eq_false_iff_ne, Bool.and_eq_false_iff,
    bne_eq_false_iff_eq]
  constructor
  · rintro ⟨hcomma, (hkind | hforce) | hoptional⟩
    · exact ⟨hcomma, fun h => absurd h hkind⟩
    · exact ⟨hcomma, fun _ => .inl hforce⟩
    · exact ⟨hcomma, fun _ => .inr hoptional⟩
  · rintro ⟨hcomma, hbinds⟩
    refine ⟨hcomma, ?_⟩
    by_cases hkind : a.kind = .operatorSign
    · rcases hbinds hkind with hforce | hoptional
      · exact .inl (.inr hforce)
      · exact .inr hoptional
    · exact .inl (.inl hkind)

theorem startsLine_iff {a b : Token} (hline : a.trailing.containsNewline = false) :
    StartsLine a b ↔
      startsAnew (some a) b = true ∧ a.isKeyword "try" = false ∧ a.kind.marksTry = false := by
  rw [@startsAnew_eq (some a) hline]
  simp only [startsStatement, Option.any_some, Bool.and_eq_true, Bool.not_eq_true', bne_iff_ne,
    not_bindsOn_iff, continues, Bool.or_eq_false_iff]
  constructor
  · intro h
    exact ⟨⟨⟨⟨⟨h.breaks, h.period⟩, h.operator⟩, ⟨h.word.1, h.word.2.1⟩, h.word.2.2⟩, h.comma, h.binds⟩,
      h.keyword, h.mark⟩
  · rintro ⟨⟨⟨⟨⟨hbreaks, hperiod⟩, hoperator⟩, ⟨helse, hcatch⟩, hwhere⟩, hcomma, hbinds⟩, hkeyword, hmark⟩
    exact ⟨hbreaks, hperiod, hoperator, ⟨helse, hcatch, hwhere⟩, hcomma, hbinds, hkeyword, hmark⟩

/-!
# Within a statement
-/

variable {previous last : Option Token} {next : Token} {parts front back : List Tree} {b : Leaf}

/-- Outside brackets the phrase that is reached has none open, and a new line ends it. -/
theorem Reaches.level {condition : Bool} {g : Frame}
    (h : Reaches (Frame.statement condition) previous front g last)
    (hlevel : closed front = opened front) : g.depth = 0 ∧ g.lineSensitive = true := by
  rcases h.depth with ⟨outer, hcount, hline⟩
  have hdepth : (Frame.statement condition).depth = 0 := rfl
  have houter : outer = 0 := by omega
  refine ⟨by omega, ?_⟩
  rw [hline, houter]
  rfl

theorem kind_of_stays {f : Frame} (hdepth : f.depth = 0) {t : Token} (h : f.ends last t = false) :
    t.kind ≠ .semicolon ∧ t.kind ≠ .rightBrace ∧ t.kind ≠ .endOfFile := by
  simp only [Frame.ends, hdepth, beq_self_eq_true, Bool.true_and, Bool.or_eq_false_iff,
    beq_eq_false_iff_ne] at h
  exact ⟨h.1.1.1.1, h.1.1.1.2, h.1.1.2⟩

theorem kind_of_piece {f : Frame} (hdepth : f.depth = 0) (h : Piece f last (.leaf b)) :
    b.token.kind ≠ .semicolon ∧ b.token.kind ≠ .rightBrace ∧ b.token.kind ≠ .endOfFile := by
  cases h with
  | token _ hstays htakes => exact kind_of_stays hdepth hstays
  | keyword _ hstays hkeyword => exact kind_of_stays hdepth hstays
  | mark _ hmark hkeyword =>
      cases hkind : b.token.kind <;> rw [hkind] at hmark <;>
        first | exact ⟨by decide, by decide, by decide⟩ | cases hmark

/-- Behind its first token, a statement has no token outside brackets that starts a new line. -/
theorem not_startsLine_within {condition : Bool}
    (h : FormsParts (Frame.statement condition) previous next parts)
    (hpieces : surfaceOf parts = front ++ .leaf b :: back) (hlevel : closed front = opened front)
    {a : Leaf} (ha : (leavesOf front).getLast? = some a)
    (hline : a.token.trailing.containsNewline = false) : ¬ StartsLine a.token b.token := by
  intro hstarts
  rcases (startsLine_iff hline).mp hstarts with ⟨hanew, hkeyword, hmark⟩
  rcases piece_of_formsParts h hpieces with ⟨g, last, hreaches, hpiece⟩
  rcases hreaches.level hlevel with ⟨hdepth, hsensitive⟩
  have hlast : last = some a.token := by
    rw [hreaches.last_eq, lastOf, ha]
    rfl
  have hparts : g.hasParts = true := by
    rw [← Bool.not_eq_false]
    intro hempty
    rcases hreaches.start hempty with ⟨rfl, _⟩ | ⟨t, ht, htry⟩
    · cases ha
    · rw [hlast] at ht
      cases ht
      rcases htry with htry | htry
      · rw [hkeyword] at htry
        cases htry
      · rw [hmark] at htry
        cases htry
  rw [hlast] at hpiece
  have hends := ends_of_separates hdepth hparts hsensitive (.inr (.inr (.inr hanew)))
  cases hpiece with
  | token _ hstays htakes =>
      rw [hends] at hstays
      cases hstays
  | keyword _ hstays htry =>
      rw [hends] at hstays
      cases hstays
  | mark _ hb htry =>
      rcases htry with ⟨t, ht, htry⟩
      cases ht
      rw [hkeyword] at htry
      cases htry

/-!
# Between two items
-/

/-- The leaf is the semicolon that ends the item, or it ends a `do` statement that is the item. -/
def ClosesItem (m : Tree) (a : Leaf) : Prop :=
  (∃ n content, m = .node n .item [content, .leaf a]) ∨
    ∃ n k cs, m = .node n .item [.node k .doStatement cs] ∧ (leavesOf cs).getLast? = some a

theorem lastLeaf?_of_closesItem {m : Tree} {a : Leaf} (h : ClosesItem m a) : m.lastLeaf? = some a := by
  rcases h with ⟨n, content, rfl⟩ | ⟨n, k, cs, rfl, hlast⟩
  · rw [lastLeaf?, leaves_node, leavesOf_cons, leavesOf_cons, leavesOf_nil, List.getLast?_append]
    rfl
  · rw [lastLeaf?, leaves_node, leavesOf_cons, leaves_node, leavesOf_nil, List.append_nil]
    exact hlast

theorem closesItem_or_startsLine {m : Tree} {a : Leaf} {t : Token} (h : FormsItem previous t m)
    (ha : m.lastLeaf? = some a) (hline : a.token.trailing.containsNewline = false)
    (hkind : t.kind ≠ .rightBrace ∧ t.kind ≠ .endOfFile) :
    ClosesItem m a ∨ StartsLine a.token t := by
  have hlast : lastOf previous [m] = some a.token := by
    rw [lastOf, leavesOf_cons, leavesOf_nil, List.append_nil]
    exact congrArg (fun o => (Option.map Leaf.token o).or previous) ha
  cases shape_of_formsItem h with
  | bare n content hnext hcontent =>
      rw [lastOf_node] at hlast
      cases shape_of_formsContent hcontent with
      | statement k parts hempty hdo hparts =>
          have hopen := last_of_formsParts (fun hnil => Bool.noConfusion (hempty hnil)) hparts
          have hseparates := separates_of_formsContent hcontent
          rw [lastOf_node] at hlast
          rw [hlast] at hopen hseparates
          rcases hseparates with hsemicolon | hbrace | hend | hanew
          · exact absurd hsemicolon hnext
          · exact absurd hbrace hkind.1
          · exact absurd hend hkind.2
          · exact .inr ((startsLine_iff hline).mpr ⟨hanew, hopen a.token rfl⟩)
      | doStatement k keyword body clauses =>
          refine .inl (.inr ⟨n, k, _, rfl, ?_⟩)
          rw [lastLeaf?, leaves_node, leavesOf_cons, leaves_node, leavesOf_nil, List.append_nil] at ha
          exact ha
  | closed n content semicolon =>
      have hsemicolon : semicolon = a := by
        rw [lastLeaf?, leaves_node, leavesOf_cons, leavesOf_cons, leavesOf_nil, List.getLast?_append]
          at ha
        exact Option.some.inj ha
      rw [hsemicolon]
      exact .inl (.inl ⟨n, content, rfl⟩)

/-!
# In a list of items
-/

theorem head?_eq_iff {α : Type} {us vs : List α} {b : α} (h : (us ++ b :: vs).Nodup) :
    (us ++ b :: vs).head? = some b ↔ us = [] := by
  cases us with
  | nil => simp
  | cons u us =>
      rw [List.cons_append, List.nodup_cons] at h
      constructor
      · intro hhead
        injection hhead with hu
        rw [hu] at h
        exact absurd (List.mem_append_right us (List.mem_cons_self ..)) h.1
      · intro hnil
        cases hnil

theorem getLast?_ne_of_nodup {α : Type} {us vs : List α} {a b : α}
    (h : (us ++ b :: vs).Nodup) (ha : a ∈ us) : (us ++ b :: vs).getLast? ≠ some a := by
  intro hlast
  rw [List.getLast?_append_of_ne_nil us (List.cons_ne_nil b vs)] at hlast
  exact (List.nodup_append.mp h).2.2 a ha a (List.mem_of_mem_getLast? hlast) rfl

theorem content_of_formsItem {n k : Nat} {semicolon : List Tree}
    (h : FormsItem previous next (.node n .item (.node k .statement parts :: semicolon))) :
    ∃ mayBeEmpty next', FormsContent mayBeEmpty previous next' (.node k .statement parts) := by
  cases shape_of_formsItem h with
  | bare _ _ hnext hcontent => exact ⟨false, next, hcontent⟩
  | closed _ _ semicolon hsemicolon hcontent => exact ⟨true, _, hcontent⟩

theorem leaves_of_piece {n k : Nat} {semicolon : List Tree}
    (hpieces : surfaceOf parts = front ++ .leaf b :: back) :
    (Tree.node n .item (.node k .statement parts :: semicolon)).leaves =
      leavesOf front ++ b :: (leavesOf back ++ leavesOf semicolon) := by
  rw [leaves_node, leavesOf_cons, leaves_node, ← leavesOf_surfaceOf parts, hpieces, leavesOf_append,
    leavesOf_cons, leaves_leaf]
  simp

/-- In front of an item that is not the first one, the last leaf closes its item, or the item starts a
new line. -/
theorem exists_in_front {xs ys : List Tree} {m : Tree}
    (hitems : FormsItems previous next (xs ++ m :: ys)) (hfirst : m.firstLeaf? = some b)
    (hkind : b.token.kind ≠ .rightBrace ∧ b.token.kind ≠ .endOfFile)
    (hline : ∀ x ∈ leavesOf xs, x.token.trailing.containsNewline = false) (hne : xs ≠ []) :
    ∃ a, (leavesOf xs).getLast? = some a ∧
      ((∃ m' ∈ xs, ClosesItem m' a) ∨ StartsLine a.token b.token) := by
  rcases List.eq_nil_or_concat xs with rfl | ⟨zs, m', rfl⟩
  · exact absurd rfl hne
  rw [List.concat_eq_append] at hitems hline ⊢
  rw [formsItems_append] at hitems
  have hforms := ((formsItems_append ..).mp hitems.1).2.1
  have htoken : firstOf (m :: ys) next = b.token := by
    rcases List.head?_eq_some_iff.mp hfirst with ⟨ls, hleaves⟩
    rw [firstOf, leavesOf_cons, hleaves]
    rfl
  rw [firstOf_nil, htoken] at hforms
  have ha := List.getLast?_eq_some_getLast (leaves_of_formsItem hforms)
  generalize m'.leaves.getLast _ = a at ha
  have hlast : (leavesOf (zs ++ [m'])).getLast? = some a := by
    rw [leavesOf_append, leavesOf_cons, leavesOf_nil, List.append_nil, List.getLast?_append, ha]
    rfl
  have hcases := closesItem_or_startsLine hforms ha (hline a (List.mem_of_mem_getLast? hlast)) hkind
  exact ⟨a, hlast, hcases.imp_left fun hcloses => ⟨m', by simp, hcloses⟩⟩

theorem not_closesItem_within {items : List Tree} (hnodup : (leavesOf items).Nodup) {m m' : Tree}
    (hm : m ∈ items) (hm' : m' ∈ items) {us vs : List Leaf} (hleaves : m.leaves = us ++ b :: vs)
    {a : Leaf} (ha : a ∈ us) : ¬ ClosesItem m' a := by
  intro hcloses
  have hlast := lastLeaf?_of_closesItem hcloses
  have ham : a ∈ m.leaves := by
    rw [hleaves]
    exact List.mem_append_left _ ha
  rw [leavesOf_eq_flatMap] at hnodup
  have heq := eq_of_mem_flatMap hnodup hm' hm (List.mem_of_mem_getLast? hlast) ham
  have hown := (List.nodup_flatMap.mp hnodup).1 m hm
  rw [heq, lastLeaf?, hleaves] at hlast
  rw [hleaves] at hown
  exact getLast?_ne_of_nodup hown ha hlast

/-- In a list of items, a token of a statement outside brackets is the first one of its item exactly when
it is the first one of the list, or the token in front of it closes an item, or it starts a new line. -/
theorem startsItem_iff {xs ys semicolon : List Tree} {m : Tree} {n k : Nat}
    (hitems : FormsItems previous next (xs ++ m :: ys))
    (hm : m = .node n .item (.node k .statement parts :: semicolon))
    (hpieces : surfaceOf parts = front ++ .leaf b :: back) (hlevel : closed front = opened front)
    (hnodup : (leavesOf (xs ++ m :: ys)).Nodup)
    (hline : ∀ x ∈ leavesOf (xs ++ m :: ys), x.token.trailing.containsNewline = false) :
    m.firstLeaf? = some b ↔ leavesOf xs ++ leavesOf front = [] ∨
      ∃ a, (leavesOf xs ++ leavesOf front).getLast? = some a ∧
        ((∃ m' ∈ xs ++ m :: ys, ClosesItem m' a) ∨ StartsLine a.token b.token) := by
  have hleaves : m.leaves = leavesOf front ++ b :: (leavesOf back ++ leavesOf semicolon) := by
    rw [hm]
    exact leaves_of_piece hpieces
  have hmem : m ∈ xs ++ m :: ys := List.mem_append_right _ (List.mem_cons_self ..)
  have hown : m.leaves.Nodup := by
    rw [leavesOf_eq_flatMap, List.nodup_flatMap] at hnodup
    exact hnodup.1 m hmem
  have hfirst : m.firstLeaf? = some b ↔ leavesOf front = [] := by
    rw [firstLeaf?, hleaves]
    rw [hleaves] at hown
    exact head?_eq_iff hown
  have hitem := ((formsItems_append ..).mp hitems).2.1
  rw [hm] at hitem
  rcases content_of_formsItem hitem with ⟨_, _, hcontent⟩
  rw [FormsContent] at hcontent
  rw [leavesOf_append, leavesOf_cons, List.forall_mem_append, List.forall_mem_append, hleaves,
    List.forall_mem_append] at hline
  constructor
  · intro hstarts
    have hnil := hfirst.mp hstarts
    rw [hnil, List.append_nil]
    by_cases hne : xs = []
    · exact .inl (by rw [hne]; rfl)
    rcases piece_of_formsParts hcontent.2.2.1 hpieces with ⟨g, last, hreaches, hpiece⟩
    have hkind := kind_of_piece (hreaches.level hlevel).1 hpiece
    rcases exists_in_front hitems hstarts hkind.2 hline.1 hne with ⟨a, ha, hcases⟩
    refine .inr ⟨a, ha, hcases.imp_left ?_⟩
    rintro ⟨m', hm', hcloses⟩
    exact ⟨m', List.mem_append_left _ hm', hcloses⟩
  · intro h
    apply hfirst.mpr
    -- A token behind the first one has its statement in front of it, where no item is closed and no
    -- line is started.
    by_contra hne
    rw [List.getLast?_append_of_ne_nil _ hne] at h
    rcases h with hnil | ⟨a, ha, ⟨m', hm', hcloses⟩ | hstarts⟩
    · exact hne (List.append_eq_nil_iff.mp hnil).2
    · exact not_closesItem_within hnodup hmem hm' hleaves (List.mem_of_mem_getLast? ha) hcloses
    · exact not_startsLine_within hcontent.2.2.1 hpieces hlevel ha
        (hline.2.1.1 a (List.mem_of_mem_getLast? ha)) hstarts

/-!
# Lists of items of a file
-/

theorem not_formed_sourceFile {n : Nat} {cs : List Tree} : ¬ Formed (.node n .sourceFile cs) := by
  intro h
  cases shape_of_formed h

theorem filter_items {previous : Option Token} {next : Token} {items : List Tree}
    (h : FormsItems previous next items) : items.filter (isKind .item) = items :=
  List.filter_eq_self.mpr fun c hc => (formed_of_formsItems h c hc).2

/-- A node that has items holds them in a row: a block between its braces, a file up to its end. -/
theorem items_of_file {t : Tree} (h : FormsFile t) {body : Tree} (hbody : body ∈ t.nodes) {m : Tree}
    (hm : m ∈ body.children) (hitem : m.isKind .item = true) :
    ∃ lead items closing previous, body.leaves = lead ++ leavesOf items ++ [closing] ∧
      body.children.filter (isKind .item) = items ∧ FormsItems previous closing.token items := by
  cases body with
  | leaf l => cases hm
  | node n k cs =>
      have hsuits := suits_of_file h hbody m hm
      cases m with
      | leaf l => cases hitem
      | node n' k' ds =>
          rw [isKind_node, beq_iff_eq] at hitem
          subst hitem
          rcases eq_or_formed_of_file h hbody with rfl | hformed
          · rcases formsItems_of_formsFile h with ⟨_, items, ending, heq, _, hitems⟩
            cases heq
            refine ⟨[], items, ending, none, ?_, ?_, hitems⟩
            · rw [leaves_node, leavesOf_append]
              rfl
            · rw [children, List.filter_append, filter_items hitems]
              exact List.append_nil items
          · cases k with
            | block =>
                rcases (formsBraces_iff cs).mp (braces_of_formed hformed) with
                  ⟨left, items, right, rfl, _, _, hitems⟩
                refine ⟨[left], items, right, _, ?_, ?_, hitems⟩
                · rw [leaves_node, leavesOf_cons, leavesOf_append]
                  simp
                · show (items ++ [Tree.leaf right]).filter (isKind .item) = items
                  rw [List.filter_append, filter_items hitems]
                  exact List.append_nil items
            | sourceFile => exact absurd hformed not_formed_sourceFile
            | _ => cases hsuits

end Grammar

namespace Tree

open ForceTry.Grammar ForceTry.Parser

/-- The items of a file or of a block. -/
def items (t : Tree) : List Tree := t.children.filter (isKind .item)

/-- Where the items of a source start.  A token of a statement, outside brackets and nested blocks, is the
first one of its item exactly when it is the first one in the items of its file or block, or the token in
front of it closes an item there, or it starts a new line. -/
theorem ofText_items_start {source : Text} {t : Tree} (h : ofText source = .ok t) {body : Tree}
    (hbody : body ∈ t.nodes) {n k : Nat} {parts semicolon front back : List Tree} {b : Leaf}
    (hitem : .node n .item (.node k .statement parts :: semicolon) ∈ body.children)
    (hpieces : surfaceOf parts = front ++ .leaf b :: back) (hlevel : closed front = opened front) :
    ∃ before after, t.leaves = before ++ b :: after ∧
      ((Tree.node n .item (.node k .statement parts :: semicolon)).firstLeaf? = some b ↔
        (leavesOf body.items).head? = some b ∨
          ∃ a, before.getLast? = some a ∧
            ((∃ m ∈ body.items, ClosesItem m a) ∨ StartsLine a.token b.token)) := by
  rcases ofText_forms h with ⟨ts, _, hts, hleaves, hfile, _⟩
  rcases items_of_file hfile hbody hitem rfl with ⟨lead, is, closing, previous, hbodyLeaves, his, hitems⟩
  rcases leaves_split t body hbody with ⟨front', back', hsplit⟩
  have hmem : .node n .item (.node k .statement parts :: semicolon) ∈ is := by
    rw [← his]
    exact List.mem_filter.mpr ⟨hitem, rfl⟩
  rcases List.append_of_mem hmem with ⟨xs, ys, rfl⟩
  have hstands : t.leaves = (front' ++ lead ++ (leavesOf xs ++ leavesOf front)) ++
      b :: (leavesOf back ++ leavesOf semicolon ++ leavesOf ys ++ closing :: back') := by
    rw [hsplit, hbodyLeaves, leavesOf_append, leavesOf_cons, leaves_of_piece hpieces]
    simp only [List.append_assoc, List.cons_append, List.nil_append]
  have hitemsLeaves : leavesOf (xs ++ .node n .item (.node k .statement parts :: semicolon) :: ys) =
      (leavesOf xs ++ leavesOf front) ++
        b :: (leavesOf back ++ leavesOf semicolon ++ leavesOf ys) := by
    rw [leavesOf_append, leavesOf_cons, leaves_of_piece hpieces]
    simp only [List.append_assoc, List.cons_append]
  have hsublist : (leavesOf (xs ++ .node n .item (.node k .statement parts :: semicolon) :: ys)).Sublist
      t.leaves := by
    rw [hsplit, hbodyLeaves]
    simp only [List.append_assoc]
    exact (List.sublist_append_left ..).trans
      ((List.sublist_append_right ..).trans (List.sublist_append_right ..))
  have hnodup := (nodup_of_toLeaves hleaves).sublist hsublist
  have hline : ∀ x ∈ leavesOf (xs ++ .node n .item (.node k .statement parts :: semicolon) :: ys),
      x.token.trailing.containsNewline = false := by
    intro x hx
    apply (Tokens.divide_of_ofText hts).trailing
    rw [← tokens_of_toLeaves hleaves]
    exact List.mem_map_of_mem (hsublist.subset hx)
  have hiff := startsItem_iff hitems rfl hpieces hlevel hnodup hline
  have hhead : (leavesOf body.items).head? = some b ↔ leavesOf xs ++ leavesOf front = [] := by
    rw [items, his, hitemsLeaves]
    rw [hitemsLeaves] at hnodup
    exact head?_eq_iff hnodup
  refine ⟨_, _, hstands, ?_⟩
  rw [hhead]
  by_cases hnil : leavesOf xs ++ leavesOf front = []
  · exact iff_of_true (hiff.mpr (.inl hnil)) (.inl hnil)
  · rw [List.getLast?_append_of_ne_nil _ hnil, items, his]
    exact hiff

/-- The labels and the token of an item that is one token. -/
def loneToken? : Tree → Option (Nat × Nat × Leaf)
  | .node n .item [.node k .statement [.leaf b]] => some (n, k, b)
  | _ => none

/-- Behind a `do` statement an item starts on the same line. -/
theorem ofText_items_start_do :
    ∃ t n k b, ofText (Text.ofString "f(x,\n  y)\ndo \x7b \x7d g\n") = .ok t ∧
      .node n .item [.node k .statement [.leaf b]] ∈ t.children ∧
      ∃ before after, t.leaves = before ++ b :: after ∧
        ((Tree.node n .item [.node k .statement [.leaf b]]).firstLeaf? = some b ↔
          (leavesOf t.items).head? = some b ∨
            ∃ a, before.getLast? = some a ∧
              ((∃ m ∈ t.items, ClosesItem m a) ∨ StartsLine a.token b.token)) := by
  have hcheck : ((ofText (Text.ofString "f(x,\n  y)\ndo \x7b \x7d g\n")).toOption.bind fun t =>
      t.children.findSome? loneToken?).isSome = true := by
    decide +kernel
  rcases Option.isSome_iff_exists.mp hcheck with ⟨found, hfound⟩
  rcases Option.bind_eq_some_iff.mp hfound with ⟨t, ht, hitem⟩
  rcases List.exists_of_findSome?_eq_some hitem with ⟨c, hc, hshape⟩
  have hok := eq_ok_of_toOption ht
  have hself : t ∈ t.nodes := by
    cases t with
    | leaf l => cases hc
    | node n k cs => exact List.mem_cons_self ..
  unfold loneToken? at hshape
  split at hshape
  · next n k b =>
      exact ⟨t, n, k, b, hok, hc,
        @ofText_items_start _ t hok t hself n k [.leaf b] [] [] [] b hc rfl rfl⟩
  · cases hshape

end Tree
end ForceTry

import ForceTry.Proofs.Pass.Rewrite
import ForceTry.Proofs.Rule.Forms

/-!
# The pass keeps to the grammar

A tree that follows the grammar follows it after a pass.  Parts of a phrase start and end with the
same tokens as before, because only the items in their blocks change.  An item may come to start with
`do`, but it then starts a line exactly when it did before, so the statement in front of it ends all
the same.
-/

namespace ForceTry
namespace Pass

open ForceTry.Parser ForceTry.DoCatch ForceTry.Tree ForceTry.Grammar

/-!
# Trees that start and end alike
-/

theorem layout_proper (pass : Pass) (old : Tree) : (pass.layout old).Proper :=
  ⟨containsNewline_newlineStyle _, containsNewline_lineIndentation _ _⟩

theorem after_rewritten (pass : Pass) (f : Frame) (t : Tree) :
    f.after (pass.rewritten t) = f.after t := by
  cases t with
  | leaf l => rfl
  | node n k cs =>
      rw [rewritten, reworked]
      split <;> rfl

theorem afterAll_rewrittenAll (pass : Pass) (f : Frame) (cs : List Tree) :
    f.afterAll (pass.rewrittenAll cs) = f.afterAll cs := by
  induction cs generalizing f with
  | nil => rfl
  | cons c cs ih =>
      rw [rewrittenAll, Frame.afterAll_cons, Frame.afterAll_cons, after_rewritten, ih]

theorem rewrittenAll_append (pass : Pass) (cs ds : List Tree) :
    pass.rewrittenAll (cs ++ ds) = pass.rewrittenAll cs ++ pass.rewrittenAll ds := by
  rw [rewrittenAll_eq_map, rewrittenAll_eq_map, rewrittenAll_eq_map, List.map_append]

theorem rewritten_of_not_item (pass : Pass) (n : Nat) {k : NodeKind} (cs : List Tree)
    (h : k ≠ .item) : pass.rewritten (.node n k cs) = .node n k (pass.rewrittenAll cs) := by
  rw [rewritten, reworked_of_not_item _ _ _ h]

structure KeepsEnds (cs cs' : List Tree) : Prop where
  first : ∀ next, firstOf cs' next = firstOf cs next
  last : ∀ previous, lastOf previous cs' = lastOf previous cs

theorem keepsEnds_refl (cs : List Tree) : KeepsEnds cs cs := ⟨fun _ => rfl, fun _ => rfl⟩

theorem KeepsEnds.append {cs cs' ds ds' : List Tree} (h : KeepsEnds cs cs') (hs : KeepsEnds ds ds') :
    KeepsEnds (cs ++ ds) (cs' ++ ds') := by
  constructor
  · intro next
    rw [firstOf_append, firstOf_append, hs.first, h.first]
  · intro previous
    rw [lastOf_append, lastOf_append, h.last, hs.last]

theorem KeepsEnds.node {cs cs' : List Tree} (h : KeepsEnds cs cs') (n n' : Nat) (k k' : NodeKind) :
    KeepsEnds [.node n k cs] [.node n' k' cs'] := by
  constructor
  · intro next
    rw [firstOf_node, firstOf_node, h.first]
  · intro previous
    rw [lastOf_node, lastOf_node, h.last]

theorem keepsEnds_braces (pass : Pass) (left right : Leaf) (items : List Tree) :
    KeepsEnds (.leaf left :: (items ++ [.leaf right]))
      (pass.rewrittenAll (.leaf left :: (items ++ [.leaf right]))) := by
  have hall : pass.rewrittenAll (.leaf left :: (items ++ [.leaf right])) =
      .leaf left :: (pass.rewrittenAll items ++ [.leaf right]) := by
    rw [rewrittenAll, rewrittenAll_append]
    rfl
  rw [hall]
  constructor
  · intro next
    rfl
  · intro previous
    rw [lastOf_cons, lastOf_append, lastOf_leaf, lastOf_cons previous, lastOf_append, lastOf_leaf]


/-- The `do` statement around a statement whose blocks are done and in which one `try` has lost its
mark. -/
theorem formsContent_wrapped_unforce {o : Layout} (ho : o.Proper) {mayBeEmpty : Bool}
    {previous : Option Token} {next : Token} {old content stripped : Tree}
    (h : FormsContent mayBeEmpty previous next content) (hends : KeepsEnds [old] [content])
    (hunforce : unforce? withoutMark content = some stripped) (mayBeEmpty' : Bool)
    (previous' : Option Token) {next' : Token}
    (hnext : ∀ last, Separates last next → next'.isKeyword "catch" = false) :
    FormsContent mayBeEmpty' previous' next' (o.wrapped stripped) ∧
      ∀ x x', Heads (firstOf [old] x) (firstOf [o.wrapped stripped] x') := by
  rcases formsContent_unforce h hunforce with ⟨n, parts, parts', rfl, rfl, hkeeps, hstripped⟩
  refine ⟨formsContent_wrapped ho hstripped hkeeps.nonempty
    (hnext _ (separates_of_formsContent h)), ?_⟩
  intro x x'
  rw [FormsContent] at h
  have hparts := h.2.2.1
  cases parts with
  | nil => cases hunforce
  | cons c cs =>
      have hleaves := leavesOf_ne_nil_of_formsParts (List.cons_ne_nil c cs) hparts
      have hfirst : firstOf [old] x = firstOf (c :: cs) next := by
        rw [← hends.first, firstOf_node]
        exact firstOf_of_ne_nil hleaves x next
      rw [FormsParts] at hparts
      have hkind := kind_of_formsPart rfl hparts.1
      rw [← firstOf_cons] at hkind
      rw [hfirst]
      exact heads_wrapped ho hkeeps.nonempty hkeeps.forms hkeeps.first hkind x'

/-!
# Every rule of the grammar
-/

mutual

theorem formsPart_rewritten (pass : Pass) {f : Frame} {previous : Option Token} {next : Token}
    {t : Tree} (h : FormsPart f previous next t) :
    FormsPart f previous next (pass.rewritten t) ∧ KeepsEnds [t] [pass.rewritten t] := by
  cases shape_of_formsPart h with
  | leaf l hstays htakes =>
      rw [rewritten, FormsPart]
      exact ⟨⟨hstays, htakes⟩, keepsEnds_refl _⟩
  | block n cs hstays hcs =>
      have hbraces := formsBraces_rewritten pass hcs
      rw [rewritten_of_not_item pass n cs (by decide), FormsPart, hbraces.2.first]
      exact ⟨⟨hstays, hbraces.1⟩, hbraces.2.node n n .block .block⟩
  | bare n m keyword parts hstays htry hne hparts hends =>
      have hkeeps := formsParts_rewritten pass hparts
      have hrewritten : pass.rewritten
          (.node n .tryExpression [.leaf keyword, .node m .expression parts]) =
            .node n .tryExpression
              [.leaf keyword, .node m .expression (pass.rewrittenAll parts)] := by
        rw [rewritten_of_not_item pass n _ (by decide), rewrittenAll, rewrittenAll,
          rewritten_of_not_item pass m _ (by decide)]
        rfl
      rw [hrewritten, FormsPart, afterAll_rewrittenAll, hkeeps.2.last]
      refine ⟨⟨hstays, htry, ?_, hkeeps.1, hends⟩, ?_⟩
      · rw [rewrittenAll_eq_map]
        exact fun hnil => hne (List.map_eq_nil_iff.mp hnil)
      · exact ((keepsEnds_refl [.leaf keyword]).append
          (hkeeps.2.node m m .expression .expression)).node n n .tryExpression .tryExpression
  | marked n m keyword mark parts hstays htry hmark hne hparts hends =>
      have hkeeps := formsParts_rewritten pass hparts
      have hrewritten : pass.rewritten
          (.node n .tryExpression [.leaf keyword, .leaf mark, .node m .expression parts]) =
            .node n .tryExpression
              [.leaf keyword, .leaf mark, .node m .expression (pass.rewrittenAll parts)] := by
        rw [rewritten_of_not_item pass n _ (by decide), rewrittenAll, rewrittenAll, rewrittenAll,
          rewritten_of_not_item pass m _ (by decide)]
        rfl
      rw [hrewritten, FormsPart, afterAll_rewrittenAll, hkeeps.2.last]
      refine ⟨⟨hstays, htry, hmark, ?_, hkeeps.1, hends⟩, ?_⟩
      · rw [rewrittenAll_eq_map]
        exact fun hnil => hne (List.map_eq_nil_iff.mp hnil)
      · exact ((keepsEnds_refl [.leaf keyword, .leaf mark]).append
          (hkeeps.2.node m m .expression .expression)).node n n .tryExpression .tryExpression
termination_by sizeOf t

theorem formsParts_rewritten (pass : Pass) {f : Frame} {previous : Option Token} {next : Token}
    {parts : List Tree} (h : FormsParts f previous next parts) :
    FormsParts f previous next (pass.rewrittenAll parts) ∧
      KeepsEnds parts (pass.rewrittenAll parts) := by
  cases parts with
  | nil => exact ⟨trivial, keepsEnds_refl []⟩
  | cons c cs =>
      rw [FormsParts] at h
      have hc := formsPart_rewritten pass h.1
      have hcs := formsParts_rewritten pass h.2
      rw [rewrittenAll, FormsParts, hcs.2.first, hc.2.last, after_rewritten]
      exact ⟨⟨hc.1, hcs.1⟩, hc.2.append hcs.2⟩
termination_by sizeOf parts

theorem formsBraces_rewritten (pass : Pass) {cs : List Tree} (h : FormsBraces cs) :
    FormsBraces (pass.rewrittenAll cs) ∧ KeepsEnds cs (pass.rewrittenAll cs) := by
  refine ⟨?_, ?_⟩
  · unfold FormsBraces at h
    split at h
    · next left cs =>
        rw [rewrittenAll, rewritten, FormsBraces]
        exact ⟨h.1, (formsBody_rewritten pass (some left.token) h.2).1⟩
    · cases h
  · rcases (formsBraces_iff cs).mp h with ⟨left, items, right, rfl, _⟩
    exact keepsEnds_braces pass left right items
termination_by sizeOf cs

theorem formsBlock_rewritten (pass : Pass) {t : Tree} (h : FormsBlock t) :
    FormsBlock (pass.rewritten t) ∧ KeepsEnds [t] [pass.rewritten t] := by
  unfold FormsBlock at h
  split at h
  · next n cs =>
      have hbraces := formsBraces_rewritten pass h
      rw [rewritten_of_not_item pass n cs (by decide), FormsBlock]
      exact ⟨hbraces.1, hbraces.2.node n n .block .block⟩
  · cases h
termination_by sizeOf t

theorem formsBody_rewritten (pass : Pass) {closing : TokenKind} {previous : Option Token}
    (previous' : Option Token) {cs : List Tree} (h : FormsBody closing previous cs) :
    FormsBody closing previous' (pass.rewrittenAll cs) ∧
      Heads (firstOf cs nothing) (firstOf (pass.rewrittenAll cs) nothing) := by
  cases shape_of_formsBody h with
  | last l hkind =>
      rw [rewrittenAll, rewritten]
      exact ⟨formsBody_last previous' hkind, heads_refl _⟩
  | item c cs hc hcs =>
      have hrest := formsBody_rewritten pass (lastOf previous' [pass.rewritten c]) hcs
      have hitem := formsItem_rewritten pass previous' hc hrest.2
      rw [rewrittenAll, firstOf_cons, firstOf_cons (pass.rewritten c)]
      exact ⟨formsBody_cons hitem.1 hrest.1, hitem.2⟩
termination_by sizeOf cs

theorem formsItem_rewritten (pass : Pass) {previous : Option Token} (previous' : Option Token)
    {next next' : Token} {t : Tree} (h : FormsItem previous next t) (hnext : Heads next next') :
    FormsItem previous' next' (pass.rewritten t) ∧
      Heads (firstOf [t] next) (firstOf [pass.rewritten t] next') := by
  cases shape_of_formsItem h with
  | bare n content hsemicolon hforms =>
      have hcontent := formsContent_rewritten pass hforms
      have hblock : (pass.rewritten content).isKind .block = false := by
        rw [isKind_rewritten, not_block_of_formsContent hforms]
      have hleaves := leaves_of_formsContent hforms
      rw [rewritten, rewrittenAll, rewrittenAll, reworked_item _ n hblock (by simp)]
      split
      · next stripped hunforce =>
          have hwrapped := formsContent_wrapped_unforce
            (layout_proper pass (.node n .item [content])) hcontent.1 hcontent.2 hunforce false
            previous' fun last hlast => not_catch_of_separates (separates_of_heads hnext hlast)
          rw [Layout.wrappedItem, FormsItem, firstOf_node, firstOf_node]
          exact ⟨⟨kind_of_heads (by decide) hnext hsemicolon, hwrapped.1⟩, hwrapped.2 next next'⟩
      · rw [FormsItem, firstOf_node, firstOf_node, hcontent.2.first]
        refine ⟨⟨kind_of_heads (by decide) hnext hsemicolon, formsContent_of_previous previous'
          (formsContent_of_heads hcontent.1 hnext)⟩, ?_⟩
        exact heads_of_eq (firstOf_of_ne_nil hleaves next next')
  | closed n content semicolon hsemicolon hforms =>
      have hcontent := formsContent_rewritten pass hforms
      have hblock : (pass.rewritten content).isKind .block = false := by
        rw [isKind_rewritten, not_block_of_formsContent hforms]
      rw [rewritten, rewrittenAll, rewrittenAll, rewrittenAll, rewritten,
        reworked_item _ n hblock (by simp [kind?])]
      split
      · next stripped hunforce =>
          have hwrapped := formsContent_wrapped_unforce
            (layout_proper pass (.node n .item [content, .leaf semicolon])) hcontent.1 hcontent.2
            hunforce true previous' fun last hlast => not_catch_of_separates hlast
          rw [Layout.wrappedItem, FormsItem, firstOf_node, firstOf_node, firstOf_cons content,
            firstOf_cons (Layout.wrapped _ _)]
          exact ⟨⟨hsemicolon, hwrapped.1⟩, hwrapped.2 _ _⟩
      · rw [FormsItem, firstOf_node, firstOf_node, firstOf_cons content,
          firstOf_cons (pass.rewritten content), hcontent.2.first]
        exact ⟨⟨hsemicolon, formsContent_of_previous previous' hcontent.1⟩, heads_refl _⟩
termination_by sizeOf t

theorem formsContent_rewritten (pass : Pass) {mayBeEmpty : Bool} {previous : Option Token}
    {next : Token} {t : Tree} (h : FormsContent mayBeEmpty previous next t) :
    FormsContent mayBeEmpty previous next (pass.rewritten t) ∧ KeepsEnds [t] [pass.rewritten t] := by
  cases shape_of_formsContent h with
  | statement n parts hempty hdo hparts hends =>
      have hkeeps := formsParts_rewritten pass hparts
      rw [rewritten_of_not_item pass n parts (by decide), FormsContent, hkeeps.2.first,
        hkeeps.2.last, afterAll_rewrittenAll]
      refine ⟨⟨?_, ?_, hkeeps.1, hends⟩, hkeeps.2.node n n .statement .statement⟩
      · rw [rewrittenAll_eq_map]
        exact fun hnil => hempty (List.map_eq_nil_iff.mp hnil)
      · cases parts with
        | nil => exact hdo
        | cons c cs =>
            rw [FormsParts] at hparts
            cases c with
            | leaf l =>
                have hrest := (formsParts_rewritten pass hparts.2).2
                rw [rewrittenAll, rewritten, secondOf_leaf, hrest.first]
                exact hdo
            | node m k ds =>
                rw [firstOf_cons, firstOf_node_not_do hparts.1]
                exact fun hfalse => Bool.noConfusion hfalse
  | doStatement n keyword body clauses hkeyword hbody hclauses hnext =>
      have hblock := formsBlock_rewritten pass hbody
      have hrest := formsClauses_rewritten pass hclauses
      rw [rewritten_of_not_item pass n _ (by decide), rewrittenAll, rewrittenAll, rewritten,
        FormsContent]
      exact ⟨⟨hkeyword, hblock.1, hrest.1, hnext⟩, ((keepsEnds_refl [.leaf keyword]).append
        (hblock.2.append hrest.2)).node n n .doStatement .doStatement⟩
termination_by sizeOf t

theorem formsClauses_rewritten (pass : Pass) {cs : List Tree} (h : FormsClauses cs) :
    FormsClauses (pass.rewrittenAll cs) ∧ KeepsEnds cs (pass.rewrittenAll cs) := by
  cases shape_of_formsClauses h with
  | nil => exact ⟨trivial, keepsEnds_refl []⟩
  | clause n keyword cs clauses hcatch hcs hclauses =>
      have hpattern := formsPattern_rewritten pass hcs
      have hrest := formsClauses_rewritten pass hclauses
      rw [rewrittenAll, rewritten_of_not_item pass n _ (by decide), rewrittenAll, rewritten,
        FormsClauses]
      exact ⟨⟨hcatch, hpattern.1, hrest.1⟩, (((keepsEnds_refl [.leaf keyword]).append
        hpattern.2).node n n .catchClause .catchClause).append hrest.2⟩
termination_by sizeOf cs

theorem formsPattern_rewritten (pass : Pass) {cs : List Tree} (h : FormsPattern cs) :
    FormsPattern (pass.rewrittenAll cs) ∧ KeepsEnds cs (pass.rewrittenAll cs) := by
  cases shape_of_formsPattern h with
  | leaf l cs hleft hright hend hcs =>
      have hrest := formsPattern_rewritten pass hcs
      rw [rewrittenAll, rewritten, FormsPattern]
      exact ⟨⟨hleft, hright, hend, hrest.1⟩, (keepsEnds_refl [.leaf l]).append hrest.2⟩
  | block n cs hcs =>
      have hbraces := formsBraces_rewritten pass hcs
      rw [rewrittenAll, rewrittenAll, rewritten_of_not_item pass n cs (by decide)]
      exact ⟨formsPattern_block hbraces.1, hbraces.2.node n n .block .block⟩
termination_by sizeOf cs

end

theorem formsFile_rewritten (pass : Pass) {t : Tree} (h : FormsFile t) :
    FormsFile (pass.rewritten t) := by
  unfold FormsFile at h
  split at h
  · next n cs =>
      rw [rewritten_of_not_item pass n cs (by decide), FormsFile]
      exact (formsBody_rewritten pass none h).1
  · cases h

end Pass
end ForceTry

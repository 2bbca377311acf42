import ForceTry.Proofs.Grammar.Neighbours
import ForceTry.Proofs.Indentation.Breaks
import ForceTry.Proofs.Rule.Build
import Mathlib.Data.List.Forall2

/-!
# The rule keeps to the grammar

Two things happen to a statement that is wrapped: one `try` in it loses its mark, and its tokens are
dressed anew behind a brace.  Neither changes what the grammar looks at, so the `do` statement that
the rule builds follows the grammar wherever the statement did.
-/

namespace ForceTry

open ForceTry.Parser ForceTry.DoCatch ForceTry.Tree

namespace Grammar

/-!
# A `try` that loses its mark
-/

structure KeepsParts (f : Frame) (previous : Option Token) (next : Token) (parts parts' : List Tree) :
    Prop where
  forms : FormsParts f previous next parts'
  nonempty : parts' ≠ []
  first : StartsAlike (firstOf parts next) (firstOf parts' next)
  last : lastOf previous parts' = lastOf previous parts
  after : ∀ g : Frame, g.afterAll parts' = g.afterAll parts

theorem unforceAll?_leaf_cons (strip : Tree → Tree) (l : Leaf) (cs : List Tree) :
    unforceAll? strip (.leaf l :: cs) = (unforceAll? strip cs).map (.leaf l :: ·) := rfl

theorem unforceAll?_expression (strip : Tree → Tree) (m : Nat) (parts : List Tree) :
    unforceAll? strip [.node m .expression parts] =
      (unforceAll? strip parts).map fun parts' => [.node m .expression parts'] := by
  have hforced : (Tree.node m .expression parts).isForceTry = false := rfl
  rw [unforceAll?, isKind_node, unforce?, hforced]
  cases unforceAll? strip parts <;> rfl

theorem keepsParts_singleton {f : Frame} {previous : Option Token} {next : Token} {n : Nat}
    {k : NodeKind} {cs cs' : List Tree} (hforms : FormsPart f previous next (.node n k cs'))
    (hfirst : StartsAlike (firstOf cs next) (firstOf cs' next))
    (hlast : lastOf previous [.node n k cs'] = lastOf previous [.node n k cs]) :
    KeepsParts f previous next [.node n k cs] [.node n k cs'] := by
  constructor
  · rw [FormsParts, FormsParts]
    exact ⟨hforms, trivial⟩
  · exact List.cons_ne_nil _ _
  · rw [firstOf_node, firstOf_node]
    exact hfirst
  · exact hlast
  · intro g
    rfl

theorem formsPart_withoutMark {f : Frame} {previous : Option Token} {next : Token} {n m : Nat}
    {keyword mark : Leaf} {parts : List Tree}
    (h : FormsPart f previous next
      (.node n .tryExpression [.leaf keyword, .leaf mark, .node m .expression parts])) :
    KeepsParts f previous next
      [.node n .tryExpression [.leaf keyword, .leaf mark, .node m .expression parts]]
      [withoutMark (.node n .tryExpression [.leaf keyword, .leaf mark, .node m .expression parts])] := by
  rw [FormsPart] at h
  rcases h with ⟨hstays, htry, _, hne, hparts, hends⟩
  have hleaves := leavesOf_ne_nil_of_formsParts hne hparts
  rw [withoutMark]
  have hkeyword : StartsAlike keyword.token { keyword.token with
      trailing := trailingOfTry keyword.token mark.token (.node m .expression parts) } := ⟨rfl, rfl⟩
  apply keepsParts_singleton
  · rw [FormsPart, ← ends_of_startsAlike f previous hkeyword]
    refine ⟨hstays, htry, hne, formsParts_of_start rfl _ hparts, ?_⟩
    rw [lastOf_of_ne_nil hleaves _ (some mark.token)]
    exact hends
  · exact hkeyword
  · rw [lastOf_try, lastOf_markedTry, lastOf_of_ne_nil hleaves]

mutual

theorem formsPart_unforce {f : Frame} {previous : Option Token} {next : Token} {t t' : Tree}
    (h : FormsPart f previous next t) (hblock : t.isKind .block = false)
    (hunforce : unforce? withoutMark t = some t') : KeepsParts f previous next [t] [t'] := by
  have hforms := h
  cases shape_of_formsPart h with
  | leaf => cases hunforce
  | block => cases hblock
  | bare n m keyword parts hstays htry hne hparts hends =>
      rw [unforce?, unforceAll?_leaf_cons, unforceAll?_expression, Option.map_map,
        Option.map_map] at hunforce
      rcases Option.map_eq_some_iff.mp hunforce with ⟨parts', hparts', rfl⟩
      have hkeeps := formsParts_unforce hparts hparts'
      apply keepsParts_singleton
      · rw [FormsPart, hkeeps.after, hkeeps.last]
        exact ⟨hstays, htry, hkeeps.nonempty, hkeeps.forms, hends⟩
      · exact startsAlike_refl keyword.token
      · exact (lastOf_try ..).trans (hkeeps.last.trans (lastOf_try ..).symm)
  | marked n m keyword mark parts hstays htry hmark hne hparts hends =>
      rw [unforce?] at hunforce
      split at hunforce
      · cases hunforce
        exact formsPart_withoutMark hforms
      · rw [unforceAll?_leaf_cons, unforceAll?_leaf_cons, unforceAll?_expression, Option.map_map,
          Option.map_map, Option.map_map] at hunforce
        rcases Option.map_eq_some_iff.mp hunforce with ⟨parts', hparts', rfl⟩
        have hkeeps := formsParts_unforce hparts hparts'
        apply keepsParts_singleton
        · rw [FormsPart, hkeeps.after, hkeeps.last]
          exact ⟨hstays, htry, hmark, hkeeps.nonempty, hkeeps.forms, hends⟩
        · exact startsAlike_refl keyword.token
        · exact (lastOf_markedTry ..).trans (hkeeps.last.trans (lastOf_markedTry ..).symm)
termination_by sizeOf t

/-- The parts of a phrase stay parts of it when one `try` among them loses its mark. -/
theorem formsParts_unforce {f : Frame} {previous : Option Token} {next : Token}
    {parts parts' : List Tree} (h : FormsParts f previous next parts)
    (hunforce : unforceAll? withoutMark parts = some parts') :
    KeepsParts f previous next parts parts' := by
  cases parts with
  | nil => cases hunforce
  | cons c cs =>
      rw [FormsParts] at h
      rw [unforceAll?] at hunforce
      split at hunforce
      · next c' hc' =>
          cases hunforce
          split at hc'
          · cases hc'
          next hblock =>
          have hkeeps := formsPart_unforce h.1 (by simpa using hblock) hc'
          have hforms := hkeeps.forms
          rw [FormsParts, FormsParts] at hforms
          have hafter : f.after c' = f.after c := hkeeps.after f
          constructor
          · rw [FormsParts, hafter, hkeeps.last]
            exact ⟨hforms.1, h.2⟩
          · exact List.cons_ne_nil _ _
          · rw [firstOf_cons c, firstOf_cons c']
            exact hkeeps.first
          · rw [lastOf_cons previous c', lastOf_cons previous c, hkeeps.last]
          · intro g
            have hg : g.after c' = g.after c := hkeeps.after g
            rw [Frame.afterAll_cons, Frame.afterAll_cons, hg]
      · -- It goes in a later part: behind the first one stands another token, which starts alike.
        rcases Option.map_eq_some_iff.mp hunforce with ⟨cs', hcs', rfl⟩
        have hkeeps := formsParts_unforce h.2 hcs'
        have hpart := formsPart_of_next h.1 hkeeps.first
        constructor
        · rw [FormsParts]
          exact ⟨hpart, hkeeps.forms⟩
        · exact List.cons_ne_nil _ _
        · rw [firstOf_cons c cs, firstOf_cons c cs']
          have hleaves : leavesOf [c] ≠ [] := by
            rw [leavesOf_cons, leavesOf_nil, List.append_nil]
            exact leaves_ne_nil_of_formsPart h.1
          rw [firstOf_of_ne_nil hleaves (firstOf cs next) (firstOf cs' next)]
          exact startsAlike_refl _
        · rw [lastOf_cons previous c cs', lastOf_cons previous c cs, hkeeps.last]
        · intro g
          rw [Frame.afterAll_cons, Frame.afterAll_cons, hkeeps.after]
termination_by sizeOf parts

end

/-!
# Statements without a `try` of their own
-/

theorem unforceAll?_of_formsPattern (strip : Tree → Tree) {cs : List Tree} (h : FormsPattern cs) :
    unforceAll? strip cs = none := by
  induction cs with
  | nil => rfl
  | cons c cs ih =>
      cases shape_of_formsPattern h with
      | leaf l cs hleft hright hend hcs =>
          rw [unforceAll?_leaf_cons, ih hcs]
          rfl
      | block => rfl

theorem unforceAll?_of_formsClauses (strip : Tree → Tree) {cs : List Tree} (h : FormsClauses cs) :
    unforceAll? strip cs = none := by
  induction cs with
  | nil => rfl
  | cons c cs ih =>
      cases shape_of_formsClauses h with
      | clause n keyword ds clauses hcatch hpattern hclauses =>
          have hclause : unforce? strip (.node n .catchClause (.leaf keyword :: ds)) = none := by
            rw [unforce?, unforceAll?_leaf_cons, unforceAll?_of_formsPattern strip hpattern]
            rfl
          rw [unforceAll?, isKind_node, hclause, ih hclauses]
          rfl

theorem unforce?_doStatement (strip : Tree → Tree) {mayBeEmpty : Bool} {previous : Option Token}
    {next : Token} {n : Nat} {cs : List Tree}
    (h : FormsContent mayBeEmpty previous next (.node n .doStatement cs)) :
    unforce? strip (.node n .doStatement cs) = none := by
  cases shape_of_formsContent h with
  | doStatement _ keyword body clauses hdo hbody hclauses =>
      rcases (formsBlock_iff _).mp hbody with ⟨m, ds, rfl, _⟩
      rw [unforce?, unforceAll?_leaf_cons, unforceAll?, isKind_node,
        unforceAll?_of_formsClauses strip hclauses]
      rfl

/-- The content of an item with a forced `try` is a statement, which stays one without the mark. -/
theorem formsContent_unforce {mayBeEmpty : Bool} {previous : Option Token} {next : Token}
    {content stripped : Tree} (h : FormsContent mayBeEmpty previous next content)
    (hunforce : unforce? withoutMark content = some stripped) :
    ∃ n parts parts', content = .node n .statement parts ∧ stripped = .node n .statement parts' ∧
      KeepsParts (Frame.statement (startsCondition (firstOf parts next))) previous next parts parts' ∧
      FormsContent mayBeEmpty previous next stripped := by
  cases content with
  | leaf l => cases hunforce
  | node n k cs =>
      rcases (content_of_formsContent h).1 with hk | hk
      · rw [isKind_node, beq_iff_eq] at hk
        subst hk
        rcases Option.map_eq_some_iff.mp hunforce with ⟨parts', hparts', rfl⟩
        have hforms := h
        rw [FormsContent] at hforms
        rcases hforms with ⟨_, hdo, hparts, hends⟩
        have hkeeps := formsParts_unforce hparts hparts'
        refine ⟨n, cs, parts', rfl, rfl, hkeeps, ?_⟩
        rw [FormsContent, ← startsCondition_of_bare hkeeps.first.1, hkeeps.last, hkeeps.after]
        refine ⟨fun hnil => absurd hnil hkeeps.nonempty, ?_, hkeeps.forms, hends⟩
        rw [← Token.isKeyword_of_bare hkeeps.first.1]
        cases cs with
        | nil => cases hparts'
        | cons c cs =>
            rw [FormsParts] at hparts
            cases c with
            | leaf l =>
                rw [unforceAll?_leaf_cons] at hparts'
                rcases Option.map_eq_some_iff.mp hparts' with ⟨cs', hcs', rfl⟩
                have hrest := (formsParts_unforce hparts.2 hcs').first
                rw [secondOf_leaf, ← (Token.bare_eq_bare.mp hrest.1).1]
                exact hdo
            | node m k ds =>
                rw [firstOf_cons, firstOf_node_not_do hparts.1]
                exact fun hfalse => Bool.noConfusion hfalse
      · rw [isKind_node, beq_iff_eq] at hk
        subst hk
        rw [unforce?_doStatement withoutMark h] at hunforce
        cases hunforce

end Grammar

namespace DoCatch

open ForceTry.Grammar

/-!
# A statement that is dressed anew
-/

structure Layout.Proper (o : Layout) : Prop where
  newline : o.newline.containsNewline = true
  base : o.base.containsNewline = false

/-- The tokens have the same kind and text, and line breaks stand on the same sides of them. -/
def KeepsBreaks (t t' : Token) : Prop :=
  t.bare = t'.bare ∧ t.leading.containsNewline = t'.leading.containsNewline ∧
    t.trailing.containsNewline = t'.trailing.containsNewline

theorem keepsBreaks_refl (t : Token) : KeepsBreaks t t := ⟨rfl, rfl, rfl⟩

theorem keepsBreaks_shift (base indentation : Trivia) {t t' : Token} (h : KeepsBreaks t t') :
    KeepsBreaks t (t'.shift base indentation) := by
  refine ⟨h.1, ?_, ?_⟩
  · rw [h.2.1]
    exact (Trivia.containsNewline_shift base indentation t'.leading).symm
  · rw [h.2.2]
    exact (Trivia.containsNewline_shift base indentation t'.trailing).symm

theorem keepsBreaks_trimLast (ts : List Token) : List.Forall₂ KeepsBreaks ts (trimLast ts) := by
  fun_induction trimLast ts with
  | case1 => exact .nil
  | case2 t =>
      refine .cons ⟨rfl, rfl, ?_⟩ .nil
      exact (Trivia.containsNewline_withoutTrailingBlanks t.trailing).symm
  | case3 t ts _ ih => exact .cons (keepsBreaks_refl t) ih

theorem alikeList_of_keepsBreaks {previous previous' : Option Token} {ts ts' : List Token}
    (h : List.Forall₂ KeepsBreaks ts ts')
    (hprevious : previous.any (·.trailing.containsNewline) =
      previous'.any (·.trailing.containsNewline)) : AlikeList previous previous' ts ts' := by
  induction h generalizing previous previous' with
  | nil => trivial
  | @cons t t' ts ts' ht _ ih =>
      refine ⟨⟨ht.1, ?_⟩, ih ht.2.2⟩
      rw [breaksBefore, breaksBefore, ht.2.1, hprevious]

theorem alikeList_dress {o : Layout} (ho : o.Proper) {previous : Option Token}
    (previous' : Option Token) (hprevious : previous.any (·.trailing.containsNewline) = true)
    (ts : List Token) : AlikeList previous previous' ts (o.dress ts) := by
  have htrim := keepsBreaks_trimLast ts
  unfold Layout.dress
  cases htrim' : trimLast ts with
  | nil =>
      rw [htrim'] at htrim
      cases htrim
      trivial
  | cons first rest =>
      rw [htrim'] at htrim
      cases htrim with
      | @cons t _ ts' _ hfirst hrest =>
          have hbreak : (o.dressFirst first).leading.containsNewline = true := by
            show (o.newline ++ (o.deeper ++ _)).containsNewline = true
            rw [Trivia.containsNewline_append, ho.newline, Bool.true_or]
          refine ⟨⟨hfirst.1, ?_⟩, ?_⟩
          · rw [breaksBefore, breaksBefore, hprevious, hbreak, Bool.or_true, Bool.true_or]
          · apply alikeList_of_keepsBreaks
            · rw [List.forall₂_map_right_iff]
              exact hrest.imp fun t t' => keepsBreaks_shift o.base o.deeper
            · show t.trailing.containsNewline = (first.trailing.shift o.base o.deeper).containsNewline
              rw [Trivia.containsNewline_shift, hfirst.2.2]

theorem containsNewline_doLeading {o : Layout} (ho : o.Proper) {t : Token} {ts : List Token} :
    (o.doLeading (t :: ts)).containsNewline = t.leading.containsNewline := by
  have htrim := keepsBreaks_trimLast (t :: ts)
  unfold Layout.doLeading
  cases htrim' : trimLast (t :: ts) with
  | nil =>
      rw [htrim'] at htrim
      cases htrim
  | cons first rest =>
      rw [htrim'] at htrim
      cases htrim with
      | cons hfirst hrest =>
          rw [hfirst.2.1]
          exact containsNewline_splitLeading ho.base first.leading o.atLineStart

theorem formsContent_dress {o : Layout} (ho : o.Proper) {previous : Option Token} {next : Token}
    {content : Tree} (h : FormsContent false previous next content)
    (hnext : next.leading.containsNewline = true) :
    FormsContent false (some (Token.leftBrace [] [])) next
      (content.refill (o.dress content.tokens)) := by
  have hforms := formsContent_of_previous (some (Token.leftBrace [] Trivia.newline)) h
  have hbrace : (some (Token.leftBrace [] Trivia.newline)).map Token.bare =
      (some (Token.leftBrace [] [])).map Token.bare := rfl
  refine formsContent_of_alike ?_ hbrace ⟨rfl, ?_⟩ hforms
  · apply alike_of_skeleton (skeleton_refill _ content).symm
    have hlength := length_dress o content.tokens
    rw [tokens_refill _ _ (Nat.le_of_eq hlength.symm), ← hlength, List.take_length]
    exact alikeList_dress ho _ rfl content.tokens
  · rw [breaksBefore, breaksBefore, hnext, Bool.true_or, Bool.true_or]

theorem formsBlock_braces {content : Tree} {right : Token} (hright : right.kind = .rightBrace)
    (h : FormsContent false (some (Token.leftBrace [] [])) right content) :
    FormsBlock (Layout.braces content right) := by
  rw [Layout.braces, FormsBlock, formsBraces_iff]
  refine ⟨⟨0, Token.leftBrace [] []⟩, [.node 0 .item [content]], ⟨0, right⟩, rfl, rfl, hright, ?_⟩
  rw [FormsItems, FormsItems, FormsItem]
  refine ⟨⟨?_, h⟩, trivial⟩
  rw [firstOf_nil, hright]
  decide

theorem formsContent_placeholder (placeholder : Text) (leading : Trivia) {previous : Option Token}
    {next : Token} (hnext : next.kind = .rightBrace) :
    FormsContent false previous next
      (.node 0 .statement [.leaf ⟨0, Token.placeholder placeholder leading []⟩]) := by
  rw [FormsContent]
  refine ⟨fun hnil => absurd hnil (List.cons_ne_nil _ _), ?_, ?_, ?_⟩
  · intro hdo
    cases hdo
  · rw [FormsParts, FormsParts, FormsPart]
    refine ⟨⟨ends_of_start rfl _ none _ |>.trans rfl, ?_⟩, trivial⟩
    exact ⟨TokenKind.noConfusion, TokenKind.noConfusion, rfl, rfl, fun h => Bool.noConfusion h⟩
  · apply ends_of_separates rfl rfl rfl
    exact .inr (.inl hnext)

theorem formsContent_wrapped {o : Layout} (ho : o.Proper) {mayBeEmpty mayBeEmpty' : Bool}
    {previous previous' : Option Token} {next next' : Token} {n : Nat} {parts : List Tree}
    (h : FormsContent mayBeEmpty previous next (.node n .statement parts)) (hne : parts ≠ [])
    (hcatch : next'.isKeyword "catch" = false) :
    FormsContent mayBeEmpty' previous' next' (o.wrapped (.node n .statement parts)) := by
  have hnewline : (o.newline ++ o.base).containsNewline = true := by
    rw [Trivia.containsNewline_append, ho.newline, Bool.true_or]
  have hbody : FormsContent false previous (Token.rightBrace (o.newline ++ o.base) [.spaces 1])
      (.node n .statement parts) :=
    formsContent_of_separates h hne (.inr (.inl rfl)) TokenKind.noConfusion
  rw [Layout.wrapped, FormsContent]
  refine ⟨rfl, formsBlock_braces rfl (formsContent_dress ho hbody hnewline), ?_, hcatch⟩
  rw [FormsClauses, FormsClauses]
  refine ⟨rfl, ?_, trivial⟩
  have hhandler : FormsBlock (Layout.braces
      (.node 0 .statement [.leaf ⟨0, Token.placeholder o.placeholder (o.newline ++ o.deeper) []⟩])
      (Token.rightBrace (o.newline ++ o.base)
        (blanksBehind (Tree.node n .statement parts).tokens))) :=
    formsBlock_braces rfl (formsContent_placeholder o.placeholder (o.newline ++ o.deeper) rfl)
  rw [Layout.braces] at hhandler ⊢
  rw [FormsPattern]
  · exact ⟨hhandler, rfl⟩
  · intro l hl
    cases hl

theorem heads_wrapped {o : Layout} (ho : o.Proper) {f : Frame}
    {previous : Option Token} {next : Token} {n : Nat} {parts : List Tree} (hne : parts ≠ [])
    (h : FormsParts f previous next parts) {t : Token} (ht : StartsAlike t (firstOf parts next))
    (htkind : t.kind ≠ .semicolon ∧ t.kind ≠ .rightBrace ∧ t.kind ≠ .endOfFile) (next' : Token) :
    Heads t (firstOf [o.wrapped (.node n .statement parts)] next') := by
  have hleaves := leavesOf_ne_nil_of_formsParts hne h
  have htokens : ∃ ts, (Tree.node n .statement parts).tokens = firstOf parts next :: ts := by
    rw [tokens_node, tokensOf, firstOf]
    cases hparts : leavesOf parts with
    | nil => exact absurd hparts hleaves
    | cons l ls => exact ⟨ls.map Leaf.token, rfl⟩
  rcases htokens with ⟨ts, htokens⟩
  refine .inr ⟨rfl, rfl, ?_, htkind⟩
  show (o.doLeading (Tree.node n .statement parts).tokens).containsNewline = _
  rw [htokens, containsNewline_doLeading ho, ht.2]

end DoCatch
end ForceTry

import ForceTry.Proofs.Tree.Outline

/-!
# What the grammar looks at

The rules of the grammar see the kind and the text of a token, and whether a line break stands before
it.  Two trees that agree on these follow the same rules, whatever labels, blanks and comments they
have.
-/

namespace ForceTry

namespace Token

theorem isKeyword_of_bare {t t' : Token} (h : t.bare = t'.bare) (word : String) :
    t.isKeyword word = t'.isKeyword word := by
  rw [bare_eq_bare] at h
  rw [isKeyword, isKeyword, h.1, h.2]

end Token

namespace Grammar

open ForceTry.Parser ForceTry.Tree

/-!
# Tokens that look alike
-/

/-- Two tokens have the same kind and text, and a line break before both or before none. -/
def AlikeTokens (previous previous' : Option Token) (t t' : Token) : Prop :=
  t.bare = t'.bare ∧ breaksBefore previous t = breaksBefore previous' t'

theorem startsCondition_of_bare {t t' : Token} (h : t.bare = t'.bare) :
    startsCondition t = startsCondition t' := by
  simp only [startsCondition, Token.isKeyword_of_bare h]

theorem continues_of_bare {t t' : Token} (h : t.bare = t'.bare) : continues t = continues t' := by
  simp only [continues, Token.isKeyword_of_bare h]

theorem endsOperand_of_bare {t t' : Token} (h : t.bare = t'.bare) (condition : Bool) :
    endsOperand t condition = endsOperand t' condition := by
  rw [endsOperand, endsOperand, Token.isKeyword_of_bare h, (Token.bare_eq_bare.mp h).1]

theorem any_bindsOn_of_bare {previous previous' : Option Token}
    (h : previous.map Token.bare = previous'.map Token.bare) :
    previous.any bindsOn = previous'.any bindsOn := by
  cases previous with
  | none =>
      cases previous' with
      | none => rfl
      | some t' => cases h
  | some t =>
      cases previous' with
      | none => cases h
      | some t' =>
          have hbare : t.bare = t'.bare := by simpa using h
          rw [Token.bare_eq_bare] at hbare
          simp only [Option.any_some, bindsOn, hbare.1, hbare.2]

variable {previous previous' : Option Token}

theorem ends_of_alike (f : Frame) {t t' : Token}
    (hprevious : previous.map Token.bare = previous'.map Token.bare)
    (h : AlikeTokens previous previous' t t') : f.ends previous t = f.ends previous' t' := by
  have hkind := (Token.bare_eq_bare.mp h.1).1
  have hanew : startsAnew previous t = startsAnew previous' t' := by
    rw [startsAnew, startsAnew, h.2, hkind, continues_of_bare h.1, any_bindsOn_of_bare hprevious]
  rw [Frame.ends, Frame.ends, hanew, hkind, endsOperand_of_bare h.1]

theorem takes_of_bare {f : Frame} {t t' : Token} (h : t.bare = t'.bare) :
    f.Takes t ↔ f.Takes t' := by
  rw [Frame.Takes, Frame.Takes, Token.isKeyword_of_bare h, (Token.bare_eq_bare.mp h).1]

/-!
# Trees that look alike
-/

mutual

/-- Two trees have the same shape, and their tokens look alike one after the other. -/
def Alike (previous previous' : Option Token) : Tree → Tree → Prop
  | .leaf l, .leaf l' => AlikeTokens previous previous' l.token l'.token
  | .node _ k cs, .node _ k' cs' => k = k' ∧ AlikeAll previous previous' cs cs'
  | _, _ => False

def AlikeAll (previous previous' : Option Token) : List Tree → List Tree → Prop
  | [], [] => True
  | c :: cs, c' :: cs' =>
      Alike previous previous' c c' ∧
        AlikeAll (lastOf previous [c]) (lastOf previous' [c']) cs cs'
  | _, _ => False

end

theorem alike_leaf {l : Leaf} {t : Tree} :
    Alike previous previous' (.leaf l) t ↔
      ∃ l', t = .leaf l' ∧ AlikeTokens previous previous' l.token l'.token := by
  cases t <;> simp [Alike]

theorem alike_node {n : Nat} {k : NodeKind} {cs : List Tree} {t : Tree} :
    Alike previous previous' (.node n k cs) t ↔
      ∃ n' cs', t = .node n' k cs' ∧ AlikeAll previous previous' cs cs' := by
  cases t with
  | leaf l => simp [Alike]
  | node n' k' cs' =>
      rw [Alike]
      constructor
      · rintro ⟨rfl, h⟩
        exact ⟨n', cs', rfl, h⟩
      · rintro ⟨n'', cs'', heq, h⟩
        cases heq
        exact ⟨rfl, h⟩

theorem alikeAll_nil {ds : List Tree} : AlikeAll previous previous' [] ds ↔ ds = [] := by
  cases ds <;> simp [AlikeAll]

theorem alikeAll_cons {c : Tree} {cs ds : List Tree} :
    AlikeAll previous previous' (c :: cs) ds ↔
      ∃ d ds', ds = d :: ds' ∧ Alike previous previous' c d ∧
        AlikeAll (lastOf previous [c]) (lastOf previous' [d]) cs ds' := by
  cases ds with
  | nil => simp [AlikeAll]
  | cons d ds =>
      rw [AlikeAll]
      constructor
      · intro h
        exact ⟨d, ds, rfl, h.1, h.2⟩
      · rintro ⟨d', ds', heq, h⟩
        cases heq
        exact h

theorem lastOf_leaf (previous : Option Token) (l : Leaf) :
    lastOf previous [.leaf l] = some l.token := by
  simp [lastOf]

theorem lastOf_node (previous : Option Token) (n : Nat) (k : NodeKind) (cs : List Tree) :
    lastOf previous [.node n k cs] = lastOf previous cs := by
  simp [lastOf]

theorem firstOf_node (n : Nat) (k : NodeKind) (cs : List Tree) (next : Token) :
    firstOf [.node n k cs] next = firstOf cs next := by
  simp [firstOf]

theorem lastOf_try (previous : Option Token) (n m : Nat) (k k' : NodeKind) (keyword : Leaf)
    (parts : List Tree) :
    lastOf previous [.node n k [.leaf keyword, .node m k' parts]] =
      lastOf (some keyword.token) parts := by
  rw [lastOf_node, lastOf_cons previous (.leaf keyword), lastOf_leaf, lastOf_node]

theorem lastOf_markedTry (previous : Option Token) (n m : Nat) (k k' : NodeKind)
    (keyword mark : Leaf) (parts : List Tree) :
    lastOf previous [.node n k [.leaf keyword, .leaf mark, .node m k' parts]] =
      lastOf (some mark.token) parts := by
  rw [lastOf_node, lastOf_cons previous (.leaf keyword), lastOf_cons _ (.leaf mark), lastOf_leaf,
    lastOf_node]

mutual

theorem signs_of_alike {previous previous' : Option Token} {t t' : Tree}
    (h : Alike previous previous' t t') :
    t.leaves.map (fun l => l.token.bare) = t'.leaves.map (fun l => l.token.bare) := by
  cases t with
  | leaf l =>
      rcases alike_leaf.mp h with ⟨l', rfl, hl⟩
      simp only [leaves_leaf, List.map_cons, List.map_nil, hl.1]
  | node n k cs =>
      rcases alike_node.mp h with ⟨n', cs', rfl, hcs⟩
      rw [leaves_node, leaves_node]
      exact signs_of_alikeAll hcs
termination_by structural t

theorem signs_of_alikeAll {previous previous' : Option Token} {cs cs' : List Tree}
    (h : AlikeAll previous previous' cs cs') :
    (leavesOf cs).map (fun l => l.token.bare) = (leavesOf cs').map (fun l => l.token.bare) := by
  cases cs with
  | nil =>
      rw [alikeAll_nil] at h
      rw [h]
  | cons c cs =>
      rcases alikeAll_cons.mp h with ⟨d, ds, rfl, hc, hcs⟩
      rw [leavesOf_cons, leavesOf_cons, List.map_append, List.map_append, signs_of_alike hc,
        signs_of_alikeAll hcs]
termination_by structural cs

end

theorem map_bare_lastOf (previous : Option Token) (cs : List Tree) :
    (lastOf previous cs).map Token.bare =
      ((leavesOf cs).map (fun l => l.token.bare)).getLast?.or (previous.map Token.bare) := by
  unfold lastOf
  rw [List.getLast?_map]
  cases (leavesOf cs).getLast? <;> rfl

theorem bare_secondOf (cs : List Tree) (next : Token) :
    (secondOf cs next).bare =
      (((leavesOf cs).map (fun l => l.token.bare)).tail.head?).getD next.bare := by
  unfold secondOf
  rw [← List.map_tail, List.head?_map]
  cases (leavesOf cs).tail.head? <;> rfl

theorem last_of_alikeAll {cs cs' : List Tree} (h : AlikeAll previous previous' cs cs')
    (hprevious : previous.map Token.bare = previous'.map Token.bare) :
    (lastOf previous cs).map Token.bare = (lastOf previous' cs').map Token.bare := by
  rw [map_bare_lastOf, map_bare_lastOf, signs_of_alikeAll h, hprevious]

theorem last_of_alike {t t' : Tree} (h : Alike previous previous' t t')
    (hprevious : previous.map Token.bare = previous'.map Token.bare) :
    (lastOf previous [t]).map Token.bare = (lastOf previous' [t']).map Token.bare := by
  rw [map_bare_lastOf, map_bare_lastOf, leavesOf_cons, leavesOf_cons, leavesOf_nil,
    List.append_nil, List.append_nil, signs_of_alike h, hprevious]

theorem second_of_alikeAll {next next' : Token} {cs cs' : List Tree}
    (h : AlikeAll previous previous' cs cs') (hnext : next.bare = next'.bare) :
    (secondOf cs next).bare = (secondOf cs' next').bare := by
  rw [bare_secondOf, bare_secondOf, signs_of_alikeAll h, hnext]

mutual

theorem first_of_alike {previous previous' : Option Token} {next next' : Token} {t t' : Tree}
    (h : Alike previous previous' t t')
    (hnext : AlikeTokens (lastOf previous [t]) (lastOf previous' [t']) next next') :
    AlikeTokens previous previous' (firstOf [t] next) (firstOf [t'] next') := by
  cases t with
  | leaf l =>
      rcases alike_leaf.mp h with ⟨l', rfl, hl⟩
      exact hl
  | node n k cs =>
      rcases alike_node.mp h with ⟨n', cs', rfl, hcs⟩
      rw [lastOf_node, lastOf_node] at hnext
      rw [firstOf_node, firstOf_node]
      exact first_of_alikeAll hcs hnext
termination_by structural t

theorem first_of_alikeAll {previous previous' : Option Token} {next next' : Token}
    {cs cs' : List Tree}
    (h : AlikeAll previous previous' cs cs')
    (hnext : AlikeTokens (lastOf previous cs) (lastOf previous' cs') next next') :
    AlikeTokens previous previous' (firstOf cs next) (firstOf cs' next') := by
  cases cs with
  | nil =>
      rw [alikeAll_nil] at h
      rw [h] at hnext ⊢
      rw [lastOf_nil, lastOf_nil] at hnext
      exact hnext
  | cons c cs =>
      rcases alikeAll_cons.mp h with ⟨d, ds, rfl, hc, hcs⟩
      rw [lastOf_cons previous c cs, lastOf_cons previous' d ds] at hnext
      rw [firstOf_cons c cs, firstOf_cons d ds]
      exact first_of_alike hc (first_of_alikeAll hcs hnext)
termination_by structural cs

end

theorem firstOf_of_ne_nil {cs : List Tree} (h : leavesOf cs ≠ []) (next next' : Token) :
    firstOf cs next = firstOf cs next' := by
  unfold firstOf
  cases hcs : leavesOf cs with
  | nil => exact absurd hcs h
  | cons l ls => rfl

theorem first_of_alikeAll_of_ne_nil {cs cs' : List Tree}
    (h : AlikeAll previous previous' cs cs') (hne : leavesOf cs ≠ []) (next next' : Token) :
    AlikeTokens previous previous' (firstOf cs next) (firstOf cs' next') := by
  have hne' : leavesOf cs' ≠ [] := by
    intro hnil
    have hsigns := signs_of_alikeAll h
    rw [hnil] at hsigns
    simp at hsigns
    exact hne hsigns
  have hbreak : AlikeTokens (lastOf previous cs) (lastOf previous' cs')
      ⟨.endOfFile, [], Trivia.newline, []⟩ ⟨.endOfFile, [], Trivia.newline, []⟩ :=
    ⟨rfl, rfl⟩
  have hfirst := first_of_alikeAll h hbreak
  rw [firstOf_of_ne_nil hne _ next, firstOf_of_ne_nil hne' _ next'] at hfirst
  exact hfirst

/-!
# The grammar of trees that look alike
-/

namespace Frame

theorem after_of_alike {t t' : Tree} (h : Alike previous previous' t t') (f : Frame) :
    f.after t = f.after t' := by
  cases t with
  | leaf l =>
      rcases alike_leaf.mp h with ⟨l', rfl, hl⟩
      have hkind := (Token.bare_eq_bare.mp hl.1).1
      rw [after, after, depthAfter, depthAfter, hkind]
  | node n k cs =>
      rcases alike_node.mp h with ⟨n', cs', rfl, _⟩
      rfl

theorem afterAll_of_alike {cs : List Tree} : ∀ {previous previous' : Option Token}
    {cs' : List Tree}, AlikeAll previous previous' cs cs' →
      ∀ f : Frame, f.afterAll cs = f.afterAll cs' := by
  induction cs with
  | nil =>
      intro previous previous' cs' h f
      rw [alikeAll_nil.mp h]
  | cons c cs ih =>
      intro previous previous' cs' h f
      rcases alikeAll_cons.mp h with ⟨d, ds, rfl, hc, hcs⟩
      rw [afterAll_cons, afterAll_cons, after_of_alike hc, ih hcs]

end Frame

theorem ne_nil_of_alikeAll {cs cs' : List Tree} (h : AlikeAll previous previous' cs cs')
    (hne : cs ≠ []) : cs' ≠ [] := by
  intro hnil
  cases cs with
  | nil => exact hne rfl
  | cons c cs =>
      rw [hnil] at h
      simp [AlikeAll] at h

theorem some_of_alike {t t' : Token} (h : t.bare = t'.bare) :
    (some t).map Token.bare = (some t').map Token.bare :=
  congrArg some h

mutual

theorem formsPart_of_alike {f : Frame} {previous previous' : Option Token} {next next' : Token}
    {t t' : Tree} (h : Alike previous previous' t t')
    (hprevious : previous.map Token.bare = previous'.map Token.bare)
    (hnext : AlikeTokens (lastOf previous [t]) (lastOf previous' [t']) next next')
    (hforms : FormsPart f previous next t) : FormsPart f previous' next' t' := by
  -- The trees have one shape, so both follow the same rule.
  cases shape_of_formsPart hforms with
  | leaf l hstays htakes =>
      rcases alike_leaf.mp h with ⟨l', rfl, hl⟩
      rw [FormsPart, ← ends_of_alike f hprevious hl, ← takes_of_bare hl.1]
      exact ⟨hstays, htakes⟩
  | block n cs hstays hbraces =>
      rcases alike_node.mp h with ⟨n', cs', rfl, hcs⟩
      rw [lastOf_node, lastOf_node] at hnext
      rw [FormsPart, ← ends_of_alike f hprevious (first_of_alikeAll hcs hnext)]
      exact ⟨hstays, formsBraces_of_alike hcs hbraces⟩
  | bare n m keyword parts hstays htry hne hparts hends =>
      rcases alike_node.mp h with ⟨n', cs', rfl, hcs⟩
      rcases alikeAll_cons.mp hcs with ⟨_, _, rfl, hkeyword, hcs⟩
      rcases alike_leaf.mp hkeyword with ⟨keyword', rfl, hkeyword⟩
      rcases alikeAll_cons.mp hcs with ⟨_, _, rfl, hexpression, hcs⟩
      rcases alike_node.mp hexpression with ⟨m', parts', rfl, halike⟩
      rw [alikeAll_nil.mp hcs] at hnext ⊢
      rw [lastOf_leaf, lastOf_leaf] at halike
      rw [lastOf_try, lastOf_try] at hnext
      have hlast := some_of_alike hkeyword.1
      rw [FormsPart, ← ends_of_alike f hprevious hkeyword,
        ← Token.isKeyword_of_bare hkeyword.1, ← Frame.afterAll_of_alike halike,
        ← ends_of_alike _ (last_of_alikeAll halike hlast) hnext]
      exact ⟨hstays, htry, ne_nil_of_alikeAll halike hne,
        formsParts_of_alike halike hlast hnext hparts, hends⟩
  | marked n m keyword mark parts hstays htry hmarks hne hparts hends =>
      rcases alike_node.mp h with ⟨n', cs', rfl, hcs⟩
      rcases alikeAll_cons.mp hcs with ⟨_, _, rfl, hkeyword, hcs⟩
      rcases alike_leaf.mp hkeyword with ⟨keyword', rfl, hkeyword⟩
      rcases alikeAll_cons.mp hcs with ⟨_, _, rfl, hmark, hcs⟩
      rcases alike_leaf.mp hmark with ⟨mark', rfl, hmark⟩
      rcases alikeAll_cons.mp hcs with ⟨_, _, rfl, hexpression, hcs⟩
      rcases alike_node.mp hexpression with ⟨m', parts', rfl, halike⟩
      rw [alikeAll_nil.mp hcs] at hnext ⊢
      rw [lastOf_leaf, lastOf_leaf] at halike
      rw [lastOf_markedTry, lastOf_markedTry] at hnext
      have hlast := some_of_alike hmark.1
      rw [FormsPart, ← ends_of_alike f hprevious hkeyword,
        ← Token.isKeyword_of_bare hkeyword.1, ← (Token.bare_eq_bare.mp hmark.1).1,
        ← Frame.afterAll_of_alike halike,
        ← ends_of_alike _ (last_of_alikeAll halike hlast) hnext]
      exact ⟨hstays, htry, hmarks, ne_nil_of_alikeAll halike hne,
        formsParts_of_alike halike hlast hnext hparts, hends⟩
termination_by sizeOf t

theorem formsParts_of_alike {f : Frame} {previous previous' : Option Token} {next next' : Token}
    {cs cs' : List Tree} (h : AlikeAll previous previous' cs cs')
    (hprevious : previous.map Token.bare = previous'.map Token.bare)
    (hnext : AlikeTokens (lastOf previous cs) (lastOf previous' cs') next next')
    (hforms : FormsParts f previous next cs) : FormsParts f previous' next' cs' := by
  cases cs with
  | nil =>
      rw [alikeAll_nil.mp h]
      trivial
  | cons c cs =>
      rcases alikeAll_cons.mp h with ⟨d, ds, rfl, hc, hcs⟩
      rw [lastOf_cons previous c cs, lastOf_cons previous' d ds] at hnext
      rw [FormsParts] at hforms
      rw [FormsParts, ← Frame.after_of_alike hc]
      exact ⟨formsPart_of_alike hc hprevious (first_of_alikeAll hcs hnext) hforms.1,
        formsParts_of_alike hcs (last_of_alike hc hprevious) hnext hforms.2⟩
termination_by sizeOf cs

theorem formsBraces_of_alike {previous previous' : Option Token} {cs cs' : List Tree}
    (h : AlikeAll previous previous' cs cs') (hforms : FormsBraces cs) : FormsBraces cs' := by
  unfold FormsBraces at hforms
  split at hforms
  · next left cs =>
      rcases alikeAll_cons.mp h with ⟨_, ds, rfl, hleft, hcs⟩
      rcases alike_leaf.mp hleft with ⟨left', rfl, hleft⟩
      rw [lastOf_leaf, lastOf_leaf] at hcs
      rw [FormsBraces, ← (Token.bare_eq_bare.mp hleft.1).1]
      exact ⟨hforms.1, formsBody_of_alike hcs (some_of_alike hleft.1) hforms.2⟩
  · cases hforms
termination_by sizeOf cs

theorem formsBlock_of_alike {previous previous' : Option Token} {t t' : Tree}
    (h : Alike previous previous' t t') (hforms : FormsBlock t) : FormsBlock t' := by
  unfold FormsBlock at hforms
  split at hforms
  · next n cs =>
      rcases alike_node.mp h with ⟨n', cs', rfl, hcs⟩
      rw [FormsBlock]
      exact formsBraces_of_alike hcs hforms
  · cases hforms
termination_by sizeOf t

theorem formsBody_of_alike {closing : TokenKind} {previous previous' : Option Token}
    {cs cs' : List Tree} (h : AlikeAll previous previous' cs cs')
    (hprevious : previous.map Token.bare = previous'.map Token.bare)
    (hforms : FormsBody closing previous cs) : FormsBody closing previous' cs' := by
  cases shape_of_formsBody hforms with
  | last l hkind =>
      rcases alikeAll_cons.mp h with ⟨_, _, rfl, hc, hcs⟩
      rcases alike_leaf.mp hc with ⟨l', rfl, hl⟩
      rw [alikeAll_nil.mp hcs]
      exact formsBody_last previous' ((Token.bare_eq_bare.mp hl.1).1.symm.trans hkind)
  | item c cs hitem hbody =>
      rcases alikeAll_cons.mp h with ⟨d, ds, rfl, hc, hcs⟩
      have hnext : AlikeTokens (lastOf previous [c]) (lastOf previous' [d]) (firstOf cs nothing)
          (firstOf ds nothing) := by
        apply first_of_alikeAll_of_ne_nil hcs
        rcases (formsBody_iff _ _ _).mp hbody with ⟨items, l, rfl, _⟩
        simp [leavesOf_append]
      exact formsBody_cons (formsItem_of_alike hc hprevious hnext hitem)
        (formsBody_of_alike hcs (last_of_alike hc hprevious) hbody)
termination_by sizeOf cs

theorem formsItem_of_alike {previous previous' : Option Token} {next next' : Token}
    {t t' : Tree} (h : Alike previous previous' t t')
    (hprevious : previous.map Token.bare = previous'.map Token.bare)
    (hnext : AlikeTokens (lastOf previous [t]) (lastOf previous' [t']) next next')
    (hforms : FormsItem previous next t) : FormsItem previous' next' t' := by
  cases shape_of_formsItem hforms with
  | bare n content hsemicolon hrule =>
      rcases alike_node.mp h with ⟨n', _, rfl, hcs⟩
      rcases alikeAll_cons.mp hcs with ⟨content', _, rfl, hcontent, hcs⟩
      rw [alikeAll_nil.mp hcs] at hnext ⊢
      rw [lastOf_node, lastOf_node] at hnext
      rw [FormsItem, ← (Token.bare_eq_bare.mp hnext.1).1]
      exact ⟨hsemicolon, formsContent_of_alike hcontent hprevious hnext hrule⟩
  | closed n content semicolon hkind hrule =>
      rcases alike_node.mp h with ⟨n', _, rfl, hcs⟩
      rcases alikeAll_cons.mp hcs with ⟨content', _, rfl, hcontent, hcs⟩
      rcases alikeAll_cons.mp hcs with ⟨_, _, rfl, hsemicolon, hcs⟩
      rcases alike_leaf.mp hsemicolon with ⟨semicolon', rfl, hsemicolon⟩
      rw [alikeAll_nil.mp hcs]
      rw [FormsItem, ← (Token.bare_eq_bare.mp hsemicolon.1).1]
      exact ⟨hkind, formsContent_of_alike hcontent hprevious hsemicolon hrule⟩
termination_by sizeOf t

theorem formsContent_of_alike {mayBeEmpty : Bool} {previous previous' : Option Token}
    {next next' : Token} {t t' : Tree} (h : Alike previous previous' t t')
    (hprevious : previous.map Token.bare = previous'.map Token.bare)
    (hnext : AlikeTokens (lastOf previous [t]) (lastOf previous' [t']) next next')
    (hforms : FormsContent mayBeEmpty previous next t) :
    FormsContent mayBeEmpty previous' next' t' := by
  cases shape_of_formsContent hforms with
  | statement n parts hempty hdo hrule hends =>
      rcases alike_node.mp h with ⟨n', parts', rfl, hparts⟩
      rw [lastOf_node, lastOf_node] at hnext
      have hfirst := (first_of_alikeAll hparts hnext).1
      have hsecond := second_of_alikeAll hparts hnext.1
      rw [FormsContent, ← startsCondition_of_bare hfirst, ← Token.isKeyword_of_bare hfirst,
        ← (Token.bare_eq_bare.mp hsecond).1, ← Frame.afterAll_of_alike hparts,
        ← ends_of_alike _ (last_of_alikeAll hparts hprevious) hnext]
      refine ⟨?_, hdo, formsParts_of_alike hparts hprevious hnext hrule, hends⟩
      intro hnil
      apply hempty
      cases parts with
      | nil => rfl
      | cons part parts => exact absurd hnil (ne_nil_of_alikeAll hparts (by simp))
  | doStatement n keyword body clauses hdo hblock hrest hcatch =>
      rcases alike_node.mp h with ⟨n', _, rfl, hcs⟩
      rcases alikeAll_cons.mp hcs with ⟨_, _, rfl, hkeyword, hcs⟩
      rcases alike_leaf.mp hkeyword with ⟨keyword', rfl, hkeyword⟩
      rcases alikeAll_cons.mp hcs with ⟨body', clauses', rfl, hbody, hclauses⟩
      rw [FormsContent, ← Token.isKeyword_of_bare hkeyword.1, ← Token.isKeyword_of_bare hnext.1]
      exact ⟨hdo, formsBlock_of_alike hbody hblock, formsClauses_of_alike hclauses hrest, hcatch⟩
termination_by sizeOf t

theorem formsClauses_of_alike {previous previous' : Option Token} {cs cs' : List Tree}
    (h : AlikeAll previous previous' cs cs') (hforms : FormsClauses cs) : FormsClauses cs' := by
  cases shape_of_formsClauses hforms with
  | nil =>
      rw [alikeAll_nil.mp h]
      trivial
  | clause n keyword cs clauses hcatch hpattern hrest =>
      rcases alikeAll_cons.mp h with ⟨_, clauses', rfl, hclause, hclauses⟩
      rcases alike_node.mp hclause with ⟨n', _, rfl, hcs⟩
      rcases alikeAll_cons.mp hcs with ⟨_, cs', rfl, hkeyword, hcs⟩
      rcases alike_leaf.mp hkeyword with ⟨keyword', rfl, hkeyword⟩
      rw [FormsClauses, ← Token.isKeyword_of_bare hkeyword.1]
      exact ⟨hcatch, formsPattern_of_alike hcs hpattern, formsClauses_of_alike hclauses hrest⟩
termination_by sizeOf cs

theorem formsPattern_of_alike {previous previous' : Option Token} {cs cs' : List Tree}
    (h : AlikeAll previous previous' cs cs') (hforms : FormsPattern cs) : FormsPattern cs' := by
  cases shape_of_formsPattern hforms with
  | leaf l cs hleft hright hend hpattern =>
      rcases alikeAll_cons.mp h with ⟨_, ds, rfl, hc, hcs⟩
      rcases alike_leaf.mp hc with ⟨l', rfl, hl⟩
      rw [FormsPattern, ← (Token.bare_eq_bare.mp hl.1).1]
      exact ⟨hleft, hright, hend, formsPattern_of_alike hcs hpattern⟩
  | block n cs hbraces =>
      rcases alikeAll_cons.mp h with ⟨_, _, rfl, hc, hnil⟩
      rcases alike_node.mp hc with ⟨n', cs', rfl, hcs⟩
      rw [alikeAll_nil.mp hnil]
      exact formsPattern_block (formsBraces_of_alike hcs hbraces)
termination_by sizeOf cs

end

theorem formsFile_of_alike {t t' : Tree} (h : Alike none none t t') (hforms : FormsFile t) :
    FormsFile t' := by
  unfold FormsFile at hforms
  split at hforms
  · next n cs =>
      rcases alike_node.mp h with ⟨n', cs', rfl, hcs⟩
      rw [FormsFile]
      exact formsBody_of_alike hcs rfl hforms
  · cases hforms

end Grammar
end ForceTry

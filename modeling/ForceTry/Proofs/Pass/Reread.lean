import ForceTry.Proofs.Grammar.Ends
import ForceTry.Proofs.Grammar.Unambiguous
import ForceTry.Proofs.Pass.Script
import ForceTry.Proofs.Pass.Starts
import ForceTry.Proofs.Rule.Reread

/-!
# What a pass writes reads back

Going up the tree of a file, the tokens behind a pass may take the place of the tokens in front of it.
Only an item that is wrapped gets new tokens, and the grammar tells what stands around it: a brace, a
semicolon or the start of a line in front, and the start of a line, a semicolon or a brace behind.
-/

namespace ForceTry

open ForceTry.Text ForceTry.Tokens ForceTry.Tree ForceTry.DoCatch ForceTry.Grammar

variable {previous : Option Token} {r : Text}

namespace Tree

/-- A forced `try` that would take the first character of its operand for a mark, if its own one were
gone. -/
def exposesSign : Tree → Bool
  | .node _ .tryExpression [.leaf keyword, .leaf mark, operand] =>
      mark.token.kind == .exclamationMark &&
        operand.firstLeaf?.any fun l => exposes keyword.token mark.token l.token
  | _ => false

theorem not_exposes_of_exposesSign {n : Nat} {keyword mark : Leaf} {operand : Tree}
    (h : (Tree.node n .tryExpression [.leaf keyword, .leaf mark, operand]).exposesSign = false)
    (hmark : mark.token.kind = .exclamationMark) {first : Token}
    (hfirst : operand.tokens.head? = some first) :
    exposes keyword.token mark.token first = false := by
  rw [tokens, List.head?_map, Option.map_eq_some_iff] at hfirst
  rcases hfirst with ⟨l, hl, rfl⟩
  rw [exposesSign, hmark, firstLeaf?, hl] at h
  exact h

theorem tokensOf_singleton (t : Tree) : tokensOf [t] = t.tokens := by simp

theorem tokens_of_formsItem {p : Option Token} {next : Token} {t : Tree}
    (h : FormsItem p next t) : t.tokens ≠ [] :=
  fun hnil => leaves_of_formsItem h (List.map_eq_nil_iff.mp hnil)

theorem firstOf_of_head? {cs : List Tree} {x : Token} (h : (tokensOf cs).head? = some x)
    (next : Token) : firstOf cs next = x := by
  rw [tokensOf, List.head?_map] at h
  rw [firstOf, h]
  rfl

end Tree

namespace Tokens

/-!
# Around an item
-/

theorem holdsBefore_of_mem {ts : List Token} (h : Holds previous r ts) :
    ∀ t ∈ ts, ∃ marks u, t.HoldsBefore marks u := by
  induction ts generalizing previous with
  | nil =>
      intro t ht
      cases ht
  | cons t ts ih =>
      intro u hu
      rcases List.mem_cons.mp hu with rfl | hu
      · exact ⟨_, _, h.2.1⟩
      · exact ih h.2.2.2 u hu

theorem containsNewline_of_lined {ts : List Token} (h : Lined previous ts) :
    ∀ t ∈ ts, t.trailing.containsNewline = false := by
  induction ts generalizing previous with
  | nil =>
      intro t ht
      cases ht
  | cons t ts ih =>
      intro u hu
      rcases List.mem_cons.mp hu with rfl | hu
      · exact h.1.1
      · exact ih h.2 u hu

theorem lastToken_of_ne_nil {ts : List Token} (h : ts ≠ []) :
    ∃ last ∈ ts, ∀ previous, lastToken previous ts = some last := by
  refine ⟨ts.getLast h, List.getLast_mem h, fun previous => ?_⟩
  rw [lastToken, List.getLast?_eq_some_getLast h]
  rfl

theorem leading_of_startsAnew {last t : Token} (hlast : last.trailing.containsNewline = false)
    (h : startsAnew (some last) t = true) : t.leading ≠ [] := by
  intro hleading
  have hbreaks : breaksBefore (some last) t = false := by
    rw [breaksBefore, hleading]
    exact hlast
  rw [startsAnew, hbreaks] at h
  cases h

theorem free_of_mem {ts : List Token} (h : Holds previous r ts) {t : Token} (ht : t ∈ ts)
    (hkind : t.kind.standsAlone = true) : t.Free := by
  rcases holdsBefore_of_mem h t ht with ⟨marks, u, hholds⟩
  exact hholds.free_of_kind hkind

/-- A token that starts a line hides what stands behind it, and so does one that stands alone. -/
theorem quiet_of_leading {last t : Token} {ts : List Token} (h : Holds (some last) r (t :: ts))
    (hlined : Lined (some last) (t :: ts)) (ht : t.kind.standsAlone = true ∨ t.leading ≠ []) :
    Quiet (codeOf (t :: ts) ++ r) := by
  rw [codeOf_cons_append]
  cases hleading : t.leading with
  | nil =>
      rcases ht with halone | hne
      · rcases free_of_mem h (List.mem_cons_self ..) halone with ⟨c, htext, hstops, _⟩
        rw [htext]
        exact quiet_cons hstops _
      · exact absurd hleading hne
  | cons p gap =>
      have hp := hlined.1.2 rfl p (by rw [hleading]; rfl)
      have hgap := h.1
      rw [hleading] at hgap
      exact (Trivia.line_of_newline hgap rfl hp).1

theorem quiet_of_separates {last t : Token} {ts : List Token} (h : Holds (some last) r (t :: ts))
    (hlined : Lined (some last) (t :: ts)) (hlast : last.trailing.containsNewline = false)
    (hseparates : Separates (some last) t) : Quiet (codeOf (t :: ts) ++ r) := by
  apply quiet_of_leading h hlined
  rcases hseparates with hkind | hkind | hkind | hanew
  · exact .inl (by rw [hkind]; rfl)
  · exact .inl (by rw [hkind]; rfl)
  · rcases h.2.1 with ⟨c, s, _, hfound⟩
    exact absurd hkind (Token.kind_of_measure hfound.read).1
  · exact .inr (leading_of_startsAnew hlast hanew)

end Tokens

namespace Pass

/-- Where an item stands: nothing in front of it sees it unless a line break does, and a statement
without a semicolon ends in front of something that it does not see. -/
structure Surrounded (previous : Option Token) (r : Text) (t : Tree) : Prop where
  front : ∀ p ∈ previous, p.isKeyword "try" = false
  start : ∀ p ∈ previous, p.Free ∨ ∀ x ∈ t.tokens.head?, x.leading ≠ []
  quiet : ∀ n m parts, t = .node n .item [.node m .statement parts] → Quiet r

/-- The tokens behind the pass may take the place of those of the tree, also when the first mark of a
statement is gone. -/
def Rereads (pass : Pass) (t : Tree) : Prop :=
  ∀ previous r, Holds previous r t.tokens → Lined previous t.tokens →
    (t.isKind .item = true → Surrounded previous r t) →
    Replaces previous r t.tokens (pass.rewritten t).tokens ∧
      (t.isKind .item = false → t.isKind .block = false → ∀ stripped,
        unforce? withoutMark (pass.rewritten t) = some stripped →
          Replaces previous r t.tokens stripped.tokens)

variable {pass : Pass}

theorem replaces_of_rereads {t : Tree} (h : pass.Rereads t) (hitem : t.isKind .item = false)
    (hholds : Holds previous r t.tokens) (hlined : Lined previous t.tokens) :
    Replaces previous r t.tokens (pass.rewritten t).tokens :=
  (h previous r hholds hlined fun hkind => Bool.noConfusion (hitem.symm.trans hkind)).1

/-!
# Trees without items
-/

theorem replaces_rewrittenAll {ts : List Tree} (h : ∀ t ∈ ts, pass.Rereads t)
    (hitem : ∀ t ∈ ts, t.isKind .item = false) (hholds : Holds previous r (tokensOf ts))
    (hlined : Lined previous (tokensOf ts)) :
    Replaces previous r (tokensOf ts) (tokensOf (pass.rewrittenAll ts)) := by
  induction ts generalizing previous with
  | nil => exact replaces_refl hholds
  | cons t ts ih =>
      rw [tokensOf_cons, holds_append] at hholds
      rw [tokensOf_cons, lined_append] at hlined
      rw [rewrittenAll, tokensOf_cons, tokensOf_cons]
      apply Replaces.append
      · exact replaces_of_rereads (h t (List.mem_cons_self ..)) (hitem t (List.mem_cons_self ..))
          hholds.1 hlined.1
      · exact ih (fun u hu => h u (List.mem_cons_of_mem t hu))
          (fun u hu => hitem u (List.mem_cons_of_mem t hu)) hholds.2 hlined.2

theorem replaces_unforceAll {ts : List Tree} (h : ∀ t ∈ ts, pass.Rereads t)
    (hitem : ∀ t ∈ ts, t.isKind .item = false) (hholds : Holds previous r (tokensOf ts))
    (hlined : Lined previous (tokensOf ts)) {stripped : List Tree}
    (hstripped : unforceAll? withoutMark (pass.rewrittenAll ts) = some stripped) :
    Replaces previous r (tokensOf ts) (tokensOf stripped) := by
  induction ts generalizing previous stripped with
  | nil => cases hstripped
  | cons t ts ih =>
      have htail := fun u (hu : u ∈ ts) => h u (List.mem_cons_of_mem t hu)
      have htailItem := fun u (hu : u ∈ ts) => hitem u (List.mem_cons_of_mem t hu)
      have hfalse := hitem t (List.mem_cons_self ..)
      rw [tokensOf_cons, holds_append] at hholds
      rw [tokensOf_cons, lined_append] at hlined
      rw [rewrittenAll] at hstripped
      rcases unforceAll?_cons hstripped with ⟨u, rfl, hblock, hu⟩ | ⟨us, rfl, hus⟩
      · rw [isKind_rewritten] at hblock
        rw [tokensOf_cons, tokensOf_cons]
        refine Replaces.append ?_ (replaces_rewrittenAll htail htailItem hholds.2 hlined.2)
        exact (h t (List.mem_cons_self ..) previous _ hholds.1 hlined.1
          fun hkind => Bool.noConfusion (hfalse.symm.trans hkind)).2 hfalse hblock u hu
      · rw [tokensOf_cons, tokensOf_cons]
        refine Replaces.append ?_ (ih htail htailItem hholds.2 hlined.2 hus)
        exact replaces_of_rereads (h t (List.mem_cons_self ..)) hfalse hholds.1 hlined.1

theorem replaces_try {n : Nat} {cs : List Tree} (hformed : Formed (.node n .tryExpression cs))
    (hsign : (Tree.node n .tryExpression cs).exposesSign = false)
    (hforced : (Tree.node n .tryExpression cs).isForceTry = true) (h : ∀ c ∈ cs, pass.Rereads c)
    (hholds : Holds previous r (tokensOf cs)) (hlined : Lined previous (tokensOf cs)) :
    Replaces previous r (tokensOf cs)
      (withoutMark (.node n .tryExpression (pass.rewrittenAll cs))).tokens := by
  rcases forcedTry_of_formed hformed hforced with ⟨keyword, mark, operand, rfl, hkeyword, hmark⟩
  have hoperand := (formed_cases hformed).2 operand (by simp)
  have hitem := hoperand.2 (by decide)
  have htokens : tokensOf [.leaf keyword, .leaf mark, operand] =
      keyword.token :: mark.token :: operand.tokens := by simp
  have hhead := head?_rewritten pass operand hoperand.1 hitem
  rw [htokens] at hholds hlined ⊢
  have hos := replaces_of_rereads (h operand (by simp)) hitem hholds.2.2.2.2.2.2 hlined.2.2
  rcases (formed_cases hformed).1.operand rfl with ⟨operand', hoperand', hleaves⟩
  have hsame : operand = operand' := by
    have hat : (Tree.node n .tryExpression [.leaf keyword, .leaf mark, operand]).childrenAt
        "expression" = [operand] := rfl
    rw [hat] at hoperand'
    exact List.head_eq_of_cons_eq hoperand'
  cases hfirst : operand.tokens with
  | nil =>
      rw [tokens, List.map_eq_nil_iff, hsame] at hfirst
      exact absurd hfirst hleaves
  | cons first rest =>
      rw [hfirst] at hholds hos hhead
      have hexposes := not_exposes_of_exposesSign hsign hmark (by rw [hfirst]; rfl)
      have hnew : (withoutMark (.node n .tryExpression
          (pass.rewrittenAll [.leaf keyword, .leaf mark, operand]))).tokens =
            { keyword.token with
              trailing := trailingOfTry keyword.token mark.token (pass.rewritten operand) } ::
                (pass.rewritten operand).tokens := by
        simp [rewrittenAll, rewritten, withoutMark]
      rw [hnew]
      exact replaces_unmark hkeyword (by rw [hmark]; rfl) hholds hos hhead hexposes

/-!
# Items
-/

theorem content_of_formed {n : Nat} {content : Tree} {semicolon : List Tree}
    (h : Formed (.node n .item (content :: semicolon))) :
    (∃ mayBeEmpty previous next, FormsContent mayBeEmpty previous next content) ∧
      (semicolon = [] ∨ ∃ s, semicolon = [.leaf s] ∧ s.token.kind = .semicolon) := by
  cases shape_of_formed h with
  | item _ hnext hcontent => exact ⟨⟨_, _, _, hcontent⟩, .inl rfl⟩
  | closedItem _ hsemicolon hcontent => exact ⟨⟨_, _, _, hcontent⟩, .inr ⟨_, rfl, hsemicolon⟩⟩

theorem statement_of_unforce {mayBeEmpty : Bool} {p : Option Token} {next : Token}
    {content stripped : Tree} (h : FormsContent mayBeEmpty p next content)
    (hunforce : unforce? withoutMark (pass.rewritten content) = some stripped) :
    ∃ m parts, content = .node m .statement parts := by
  rcases formsContent_unforce (formsContent_rewritten pass h).1 hunforce with ⟨m, parts, _, heq, _⟩
  have hkind := isKind_rewritten pass .statement content
  rw [heq, isKind_node] at hkind
  cases content with
  | leaf l => cases hkind
  | node n k cs =>
      rw [isKind_node] at hkind
      have hk : k = .statement := by simpa using hkind.symm
      exact ⟨n, cs, by rw [hk]⟩

theorem not_try_of_statement {mayBeEmpty : Bool} {p : Option Token} {next : Token} {m : Nat}
    {parts : List Tree} (h : FormsContent mayBeEmpty p next (.node m .statement parts))
    (hparts : tokensOf parts ≠ []) :
    ∀ t ∈ lastToken previous (tokensOf parts), t.isKeyword "try" = false := by
  have hne : parts ≠ [] := by
    rintro rfl
    exact hparts rfl
  have hleaves : leavesOf parts ≠ [] := fun hnil => hparts (by rw [tokensOf, hnil]; rfl)
  rw [FormsContent] at h
  rw [lastToken, ← lastOf_eq_tokensOf, lastOf_of_ne_nil hleaves previous p]
  exact not_try_of_formsParts hne h.2.2.1

theorem apart_of_surrounded {n m : Nat} {parts semicolon : List Tree}
    (hformed : Formed (.node n .item (.node m .statement parts :: semicolon)))
    (hparts : tokensOf parts ≠ [])
    (hholds : Holds previous r (tokensOf parts ++ tokensOf semicolon))
    (hlined : Lined previous (tokensOf parts ++ tokensOf semicolon))
    (h : Surrounded previous r (.node n .item (.node m .statement parts :: semicolon))) :
    Apart previous (codeOf (tokensOf semicolon) ++ r) (tokensOf parts) := by
  rcases content_of_formed hformed with ⟨⟨_, _, _, hcontent⟩, hsemicolon⟩
  rcases List.exists_cons_of_ne_nil hparts with ⟨x, xs, hcons⟩
  refine ⟨h.front, ?_, not_try_of_statement hcontent hparts, ?_⟩
  · have hstart := h.start
    rw [tokens_node, tokensOf_cons, tokens_node, hcons] at hstart
    rw [hcons]
    exact hstart
  · rcases hsemicolon with rfl | ⟨s, rfl, hkind⟩
    · exact h.quiet n m parts rfl
    · rcases lastToken_of_ne_nil hparts with ⟨last, _, hlast⟩
      rw [holds_append, hlast] at hholds
      rw [lined_append, hlast] at hlined
      exact quiet_of_leading hholds.2 hlined.2 (.inl (by rw [hkind]; rfl))

theorem replaces_item (hlayout : ∀ t, (pass.layout t).Written) {n : Nat} {cs : List Tree}
    (hformed : Formed (.node n .item cs)) (h : ∀ c ∈ cs, pass.Rereads c)
    (hholds : Holds previous r (tokensOf cs)) (hlined : Lined previous (tokensOf cs))
    (hsurrounded : Surrounded previous r (.node n .item cs)) :
    Replaces previous r (tokensOf cs) (pass.rewritten (.node n .item cs)).tokens := by
  rcases item_of_formed hformed with ⟨content, semicolon, rfl, hblock, hitem, hleaves⟩
  rcases (content_of_formed hformed).1 with ⟨_, _, _, hcontent⟩
  rw [tokensOf_cons] at hholds hlined ⊢
  have hsplit := holds_append.mp hholds
  have hsplitLines := lined_append.mp hlined
  have hreplaces := h content (List.mem_cons_self ..) previous _ hsplit.1 hsplitLines.1
    fun hkind => Bool.noConfusion (hitem.symm.trans hkind)
  have hbehind := replaces_refl hsplit.2
  rw [rewritten, rewrittenAll, rewrittenAll_leaves pass hleaves,
    reworked_item _ n (by rw [isKind_rewritten, hblock]) hleaves]
  cases hstripped : unforce? withoutMark (pass.rewritten content) with
  | none =>
      rw [tokens_node, tokensOf_cons]
      exact hreplaces.1.append hbehind
  | some stripped =>
      have hnew : ∀ o : Layout, (o.wrappedItem stripped semicolon).tokens =
          o.wrappedTokens stripped.tokens ++ tokensOf semicolon := by
        intro o
        rw [Layout.wrappedItem, tokens_node, tokensOf_cons, tokens_wrapped]
      show Replaces _ _ _ (Layout.wrappedItem _ stripped semicolon).tokens
      rw [hnew]
      refine Replaces.append ?_ hbehind
      rcases sameStart_unforce _ _ hstripped with ⟨x, y, xs, ys, hx, hy, hleading, _⟩
      have hhead := head?_rewritten pass content ((formed_cases hformed).2 content (by simp)).1 hitem
      rw [hx, List.head?_cons] at hhead
      rcases List.head?_eq_some_iff.mp hhead.symm with ⟨rest, htokens⟩
      have hstatement := hreplaces.2 hitem hblock stripped hstripped
      rcases statement_of_unforce hcontent hstripped with ⟨m, parts, rfl⟩
      rw [tokens_node] at hholds hlined hsplit hsplitLines hstatement htokens ⊢
      have hapart := apart_of_surrounded hformed (by rw [htokens]; exact List.cons_ne_nil x rest)
        hholds hlined hsurrounded
      rw [htokens] at hsplit hsplitLines hstatement hapart ⊢
      rw [hy] at hstatement ⊢
      exact replaces_wrapped (hlayout _) hsplit.1 hsplitLines.1 hapart hleading hstatement

/-!
# Items in a row
-/

structure Opens (previous : Option Token) (ts : List Token) : Prop where
  front : ∀ p ∈ previous, p.isKeyword "try" = false
  start : ∀ p ∈ previous, p.Free ∨ ∀ x ∈ ts.head?, x.leading ≠ []

theorem opens_behind {c : Tree} {cs : List Tree} {p : Option Token} {next : Token}
    (hforms : FormsItems p next (c :: cs)) (hholds : Holds previous r c.tokens)
    (hlined : Lined previous c.tokens) : Opens (lastToken previous c.tokens) (tokensOf cs) := by
  rcases itemEnds_of_formsItem hforms.1 with ⟨last, hlastOf, hends⟩
  rcases lastToken_of_ne_nil (tokens_of_formsItem hforms.1) with ⟨last', hmem, hlast⟩
  have hsame : last' = last := by
    rw [lastOf_eq_tokensOf, tokensOf_singleton] at hlastOf
    exact Option.some.inj ((hlast p).symm.trans hlastOf)
  subst hsame
  rw [hlast]
  constructor
  · rintro x ⟨⟩
    exact hends.not_try
  · rintro x ⟨⟩
    have hitems : ∀ x ∈ (tokensOf cs).head?, x = firstOf cs next ∧ x.kind ≠ .rightBrace ∧
        x.kind ≠ .endOfFile := by
      intro x hx
      cases cs with
      | nil => cases hx
      | cons d ds =>
          have hfirst := firstOf_of_head? hx next
          have hkind := kind_of_formsItem hforms.2.1 (firstOf ds next)
          rw [← firstOf_cons, hfirst] at hkind
          exact ⟨hfirst.symm, hkind⟩
    rcases hends.ends with hkind | hkind | hkind | hkind | hanew
    · exact .inl (free_of_mem hholds hmem (by rw [hkind]; rfl))
    · exact .inl (free_of_mem hholds hmem (by rw [hkind]; rfl))
    · refine .inr fun x hx => ?_
      rw [← (hitems x hx).1] at hkind
      exact absurd hkind (hitems x hx).2.1
    · refine .inr fun x hx => ?_
      rw [← (hitems x hx).1] at hkind
      exact absurd hkind (hitems x hx).2.2
    · refine .inr fun x hx => ?_
      rw [← (hitems x hx).1] at hanew
      exact leading_of_startsAnew (containsNewline_of_lined hlined _ hmem) hanew

theorem surrounded_of_opens {c : Tree} {cs : List Tree} {p : Option Token} {next : Token}
    (hforms : FormsItems p next (c :: cs)) (hopens : Opens previous (tokensOf (c :: cs)))
    (hholds : Holds previous r (tokensOf (c :: cs))) (hlined : Lined previous (tokensOf (c :: cs)))
    (hquiet : Quiet r) : Surrounded previous (codeOf (tokensOf cs) ++ r) c := by
  have hne := tokens_of_formsItem hforms.1
  rw [tokensOf_cons] at hopens hholds hlined
  refine ⟨hopens.front, ?_, ?_⟩
  · have hstart := hopens.start
    rw [List.head?_append_of_ne_nil _ hne] at hstart
    exact hstart
  · rintro n m parts rfl
    cases hcs : tokensOf cs with
    | nil => exact hquiet
    | cons x xs =>
        rcases lastToken_of_ne_nil hne with ⟨last, hmem, hlast⟩
        rw [holds_append, hlast, hcs] at hholds
        rw [lined_append, hlast, hcs] at hlined
        apply quiet_of_separates hholds.2 hlined.2 (containsNewline_of_lined hlined.1 last hmem)
        have hitem := hforms.1
        rw [FormsItem] at hitem
        have hseparates := separates_of_formsContent hitem.2
        rw [firstOf_of_head? (by rw [hcs]; rfl), lastOf_eq_tokensOf] at hseparates
        rw [tokens_node, tokensOf_singleton, tokens_node] at hlast
        rw [← hlast p]
        exact hseparates

theorem replaces_items {items : List Tree} {p : Option Token} {next : Token}
    (h : ∀ c ∈ items, pass.Rereads c) (hforms : FormsItems p next items)
    (hopens : Opens previous (tokensOf items)) (hholds : Holds previous r (tokensOf items))
    (hlined : Lined previous (tokensOf items)) (hquiet : Quiet r) :
    Replaces previous r (tokensOf items) (tokensOf (pass.rewrittenAll items)) := by
  induction items generalizing previous p with
  | nil => exact replaces_refl hholds
  | cons c cs ih =>
      have hsurrounded := surrounded_of_opens hforms hopens hholds hlined hquiet
      rw [tokensOf_cons, holds_append] at hholds
      rw [tokensOf_cons, lined_append] at hlined
      rw [rewrittenAll, tokensOf_cons, tokensOf_cons]
      apply Replaces.append
      · exact (h c (List.mem_cons_self ..) previous _ hholds.1 hlined.1 fun _ => hsurrounded).1
      · exact ih (fun d hd => h d (List.mem_cons_of_mem c hd)) hforms.2
          (opens_behind hforms hholds.1 hlined.1) hholds.2 hlined.2

theorem replaces_block {cs : List Tree} (hbraces : FormsBraces cs)
    (h : ∀ c ∈ cs, pass.Rereads c) (hholds : Holds previous r (tokensOf cs))
    (hlined : Lined previous (tokensOf cs)) :
    Replaces previous r (tokensOf cs) (tokensOf (pass.rewrittenAll cs)) := by
  rcases (formsBraces_iff cs).mp hbraces with ⟨left, items, right, rfl, hleft, hright, hforms⟩
  have htokens : tokensOf (.leaf left :: (items ++ [.leaf right])) =
      [left.token] ++ (tokensOf items ++ [right.token]) := by
    rw [tokensOf_cons, tokensOf_append]
    rfl
  have hnew : tokensOf (pass.rewrittenAll (.leaf left :: (items ++ [.leaf right]))) =
      [left.token] ++ (tokensOf (pass.rewrittenAll items) ++ [right.token]) := by
    rw [rewrittenAll, rewrittenAll_append, tokensOf_cons, tokensOf_append]
    rfl
  rw [htokens] at hholds hlined ⊢
  rw [hnew]
  have hfree := free_of_mem hholds (List.mem_cons_self ..) (by rw [hleft]; rfl)
  have hsplit := holds_append.mp hholds
  have hsplitLines := lined_append.mp hlined
  rw [holds_append] at hsplit
  rw [lined_append] at hsplitLines
  rcases hsplit with ⟨hbrace, hitems, hend⟩
  rcases hsplitLines with ⟨-, hitemsLined, hendLined⟩
  refine (replaces_refl hbrace).append (Replaces.append ?_ (replaces_refl hend))
  have hopens : Opens (some left.token) (tokensOf items) := by
    constructor
    · rintro x ⟨⟩
      exact not_try_of_kind (by rw [hleft]; decide)
    · rintro x ⟨⟩
      exact .inl hfree
  refine replaces_items (fun c hc => h c ?_) hforms hopens hitems hitemsLined ?_
  · exact List.mem_cons_of_mem _ (List.mem_append_left _ hc)
  · rcases lastToken_of_ne_nil (List.cons_ne_nil left.token (tokensOf items)) with ⟨last, _, hlast⟩
    have hbehind : lastToken (lastToken previous [left.token]) (tokensOf items) = some last := by
      rw [← lastToken_append]
      exact hlast previous
    rw [hbehind] at hend hendLined
    exact quiet_of_leading hend hendLined (.inl (by rw [hright]; rfl))

/-!
# Every rule of the grammar
-/

/-- The tokens of a tree of the grammar behind the pass may take the place of its own. -/
theorem rereads_of_formed (hlayout : ∀ t, (pass.layout t).Written) (t : Tree) (h : Formed t)
    (hsigns : ∀ m ∈ t.nodes, m.exposesSign = false) : pass.Rereads t := by
  -- By induction on the tree; only items see what surrounds them, and only blocks hold items.
  induction t using Tree.induction with
  | leaf l =>
      intro previous r hholds _ _
      refine ⟨replaces_refl hholds, ?_⟩
      intro _ _ stripped hstripped
      cases hstripped
  | node n k cs ih =>
      have hcases := formed_cases h
      have hcs : ∀ c ∈ cs, pass.Rereads c := by
        intro c hc
        apply ih c hc (hcases.2 c hc).1
        intro m hm
        apply hsigns
        rw [nodes, nodesOf_eq_flatMap]
        exact List.mem_cons_of_mem _ (List.mem_flatMap.mpr ⟨c, hc, hm⟩)
      intro previous r hholds hlined hsurrounded
      rw [tokens_node] at hholds hlined ⊢
      by_cases hk : k = .item
      · subst hk
        exact ⟨replaces_item hlayout h hcs hholds hlined (hsurrounded rfl),
          fun hitem => by cases hitem⟩
      rw [rewritten_of_not_item pass n cs hk, tokens_node]
      by_cases hblock : k = .block
      · subst hblock
        exact ⟨replaces_block (braces_of_formed h) hcs hholds hlined, fun _ hfalse => by cases hfalse⟩
      have hitem : ∀ c ∈ cs, c.isKind .item = false := fun c hc => (hcases.2 c hc).2 hblock
      refine ⟨replaces_rewrittenAll hcs hitem hholds hlined, ?_⟩
      intro _ _ stripped hstripped
      rcases unforce?_cases hstripped with ⟨rfl, hforced, rfl⟩ | ⟨us, rfl, hus⟩
      · exact replaces_try h (hsigns _ (List.mem_cons_self ..)) hforced hcs hholds hlined
      · rw [tokens_node]
        exact replaces_unforceAll hcs hitem hholds hlined hus

theorem holds_of_items (hlayout : ∀ t, (pass.layout t).Written) {items : List Tree} {next : Token}
    (hforms : FormsItems none next items) (hsigns : ∀ m ∈ nodesOf items, m.exposesSign = false)
    (hholds : Holds none r (tokensOf items)) (hlined : Lined none (tokensOf items))
    (hquiet : tokensOf items ≠ [] → Quiet r) : Holds none r (tokensOf (pass.rewrittenAll items)) := by
  by_cases hnil : tokensOf items = []
  · cases items with
    | nil => exact hholds
    | cons c cs =>
        rw [tokensOf_cons, List.append_eq_nil_iff] at hnil
        exact absurd hnil.1 (tokens_of_formsItem hforms.1)
  have hitems : ∀ c ∈ items, pass.Rereads c := by
    intro c hc
    apply rereads_of_formed hlayout c (formed_of_formsItems hforms c hc).1
    intro m hm
    apply hsigns
    rw [nodesOf_eq_flatMap]
    exact List.mem_flatMap.mpr ⟨c, hc, hm⟩
  have hopens : Opens none (tokensOf items) := by
    constructor
    · intro p hp
      cases hp
    · intro p hp
      cases hp
  exact (replaces_items hitems hforms hopens hholds hlined (hquiet hnil)).holds none r (fun _ => rfl)
    (follows_of_outlook (.refl r) _)

end Pass
end ForceTry

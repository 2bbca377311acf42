import ForceTry.Proofs.Grammar.Neighbours

/-!
# The grammar is unambiguous

Tokens that follow the grammar follow it in one way only.  Blocks and files end with a token that
shows where they end, and a phrase ends in front of a token that cannot be a part of it.  So when the
tokens of one tree, with the token that ends it, are the start of what another tree is made of, the
two trees are the same up to labels.
-/

namespace ForceTry

namespace Tree

theorem tokens_of_plain {t t' : Tree} (h : t.plain = t'.plain) : t.tokens = t'.tokens :=
  ((plain_eq_iff t t').mp h).2

theorem tokensOf_of_outlineAll {cs cs' : List Tree} (h : outlineAll id cs = outlineAll id cs') :
    tokensOf cs = tokensOf cs' := by
  have hnode : (Tree.node 0 .statement cs).plain = (Tree.node 0 .statement cs').plain := by
    show Tree.node 0 .statement (outlineAll id cs) = Tree.node 0 .statement (outlineAll id cs')
    rw [h]
  exact tokens_of_plain hnode

theorem head?_tokensOf (cs : List Tree) {ts : List Token} {next : Token}
    (h : ts.head? = some next) : (tokensOf cs ++ ts).head? = some (firstOf cs next) := by
  unfold firstOf tokensOf
  cases leavesOf cs with
  | nil => exact h
  | cons l ls => rfl

theorem head?_tokensOf_next (cs : List Tree) (next : Token) :
    (tokensOf cs ++ [next]).head? = some (firstOf cs next) :=
  head?_tokensOf cs rfl

theorem lastOf_of_tokens {c c' : Tree} (h : c.tokens = c'.tokens) (previous : Option Token) :
    lastOf previous [c] = lastOf previous [c'] := by
  have htokens : tokensOf [c] = tokensOf [c'] := by rw [tokensOf_cons, tokensOf_cons, h]
  unfold lastOf
  rw [← List.getLast?_map, ← List.getLast?_map]
  exact congrArg (fun ts => ts.getLast?.or previous) htokens

theorem head_of_starts {ts us : List Token} {t u : Token} (h : ts <+: us)
    (ht : ts.head? = some t) (hu : us.head? = some u) : t = u := by
  rcases h with ⟨vs, rfl⟩
  cases ts with
  | nil => cases ht
  | cons x xs => exact (Option.some.inj ht).symm.trans (Option.some.inj hu)

theorem prefix_of_head {ts us vs : List Token} {t : Token} (h : ts ++ us <+: vs)
    (ht : us.head? = some t) : ts ++ [t] <+: vs := by
  cases us with
  | nil => cases ht
  | cons u us =>
      cases ht
      rw [List.append_cons] at h
      exact (List.prefix_append _ us).trans h

end Tree

namespace Grammar

open ForceTry.Parser ForceTry.Tree

theorem after_of_plain {t t' : Tree} (h : t.plain = t'.plain) (f : Frame) : f.after t = f.after t' :=
  Frame.after_of_alike (alike_of_plain none h) f

/-!
# The first token of a part
-/

theorem kind_of_braces {n : Nat} {k : NodeKind} {cs : List Tree} (h : FormsBraces cs) (next : Token) :
    (firstOf [.node n k cs] next).kind = .leftBrace := by
  rcases (formsBraces_iff cs).mp h with ⟨left, items, right, rfl, hleft, _⟩
  rw [firstOf_node, firstOf_leaf, hleft]

theorem not_try_of_takes {f : Frame} {t : Token} (h : f.Takes t) : ¬ t.isKeyword "try" = true := by
  rw [h.2.2.1]
  exact Bool.false_ne_true

theorem not_try_of_brace {t : Token} (h : t.kind = .leftBrace) : ¬ t.isKeyword "try" = true := by
  intro htry
  rw [kind_of_isKeyword htry] at h
  cases h

theorem not_marksTry_of_formsPart {f : Frame} {previous : Option Token} {next : Token} {c : Tree}
    (h : FormsPart f previous next c) : (firstOf [c] next).kind.marksTry = false := by
  cases shape_of_formsPart h with
  | leaf l hstays htakes => exact htakes.2.2.2.1
  | block n cs hstays hbraces =>
      rw [kind_of_braces hbraces]
      rfl
  | bare n m keyword parts hstays htry =>
      rw [firstOf_node, firstOf_leaf, kind_of_isKeyword htry]
      rfl
  | marked n m keyword mark parts hstays htry =>
      rw [firstOf_node, firstOf_leaf, kind_of_isKeyword htry]
      rfl

theorem not_marksTry_of_formsParts {f : Frame} {previous : Option Token} {next : Token}
    {parts : List Tree} (h : FormsParts f previous next parts) (hne : parts ≠ []) :
    (firstOf parts next).kind.marksTry = false := by
  cases parts with
  | nil => exact absurd rfl hne
  | cons c cs =>
      rw [FormsParts] at h
      rw [firstOf_cons]
      exact not_marksTry_of_formsPart h.1

theorem kind_of_formsContent {mayBeEmpty : Bool} {previous : Option Token} {next : Token}
    {content : Tree} (h : FormsContent mayBeEmpty previous next content)
    (hleaves : leavesOf [content] ≠ []) (next' : Token) :
    (firstOf [content] next').kind ≠ .rightBrace ∧ (firstOf [content] next').kind ≠ .endOfFile := by
  rw [firstOf_of_ne_nil hleaves next' next]
  cases shape_of_formsContent h with
  | statement n parts hempty hdo hparts =>
      cases parts with
      | nil => exact absurd rfl hleaves
      | cons p ps =>
          rw [FormsParts] at hparts
          rw [firstOf_node, firstOf_cons]
          exact (kind_of_formsPart rfl hparts.1).2
  | doStatement n keyword body clauses hdo =>
      rw [firstOf_node, firstOf_leaf, kind_of_isKeyword hdo]
      decide

theorem kind_of_formsItem {previous : Option Token} {next : Token} {c : Tree}
    (h : FormsItem previous next c) (next' : Token) :
    (firstOf [c] next').kind ≠ .rightBrace ∧ (firstOf [c] next').kind ≠ .endOfFile := by
  cases shape_of_formsItem h with
  | bare n content hnext hforms =>
      rw [firstOf_node]
      exact kind_of_formsContent hforms (leaves_of_formsContent hforms) next'
  | closed n content semicolon hsemicolon hforms =>
      rw [firstOf_node, firstOf_cons]
      by_cases hleaves : leavesOf [content] = []
      · have hfirst : firstOf [content] (firstOf [.leaf semicolon] next') = semicolon.token := by
          rw [firstOf, hleaves]
          rfl
        rw [hfirst, hsemicolon]
        decide
      · exact kind_of_formsContent hforms hleaves _

theorem secondOf_eq {cs : List Tree} {ts : List Token} {next : Token} (h : ts.head? = some next)
    (hne : tokensOf cs ≠ []) : (tokensOf cs ++ ts).tail.head? = some (secondOf cs next) := by
  unfold tokensOf at hne ⊢
  unfold secondOf
  cases hcs : leavesOf cs with
  | nil =>
      rw [hcs] at hne
      exact absurd rfl hne
  | cons l ls =>
      cases ls with
      | nil => exact h
      | cons m ms => rfl

theorem head?_of_formsBody {closing : TokenKind} {previous : Option Token} {cs : List Tree}
    (h : FormsBody closing previous cs) (ts : List Token) :
    (tokensOf cs ++ ts).head? = some (firstOf cs nothing) := by
  rcases (formsBody_iff _ _ _).mp h with ⟨items, l, rfl, _⟩
  rw [firstOf_append, firstOf_leaf, tokensOf_append, List.append_assoc]
  exact head?_tokensOf items rfl

/-!
# Trees over the same tokens
-/

theorem first_of_formsBlock {t : Tree} (h : FormsBlock t) :
    ∃ left rest, t.tokens = left :: rest ∧ left.kind = .leftBrace := by
  rcases (formsBlock_iff _).mp h with ⟨n, cs, rfl, hbraces⟩
  rcases (formsBraces_iff cs).mp hbraces with ⟨left, items, right, rfl, hleft, _⟩
  exact ⟨left.token, _, rfl, hleft⟩

theorem doStatement_start (keyword : Leaf) {body : Tree} (clauses : List Tree)
    (hbody : FormsBlock body) (ts : List Token) :
    ∃ left rest, tokensOf (.leaf keyword :: body :: clauses) ++ ts =
      keyword.token :: left :: rest ∧ left.kind = .leftBrace := by
  rcases first_of_formsBlock hbody with ⟨left, rest, htokens, hleft⟩
  refine ⟨left, rest ++ (tokensOf clauses ++ ts), ?_, hleft⟩
  simp [htokens]

/-- A statement without structure does not start like a `do` statement: a brace behind a first `do`
would be its second token or the token behind it. -/
theorem starts_of_statement {mayBeEmpty : Bool} {previous : Option Token} {next keyword : Token}
    {n : Nat} {parts : List Tree} {ts : List Token}
    (h : FormsContent mayBeEmpty previous next (.node n .statement parts))
    (hts : ts.head? = some next) (hkeyword : keyword.isKeyword "do" = true)
    (hfirst : (tokensOf parts ++ ts).head? = some keyword) :
    ∃ second, (tokensOf parts ++ ts).tail.head? = some second ∧ second.kind ≠ .leftBrace := by
  rw [FormsContent] at h
  rcases h with ⟨_, hdo, hparts, hends⟩
  rw [head?_tokensOf parts hts, Option.some.injEq] at hfirst
  cases parts with
  | nil =>
      rw [firstOf_nil] at hfirst
      subst hfirst
      have hkind := kind_of_isKeyword hkeyword
      simp [Frame.ends, Frame.afterAll, Frame.statement, hkind] at hends
  | cons p ps =>
      have hleaves := leavesOf_ne_nil_of_formsParts (List.cons_ne_nil p ps) hparts
      have hne : tokensOf (p :: ps) ≠ [] := by simpa [tokensOf] using hleaves
      refine ⟨_, secondOf_eq hts hne, hdo ?_⟩
      rw [hfirst]
      exact hkeyword

theorem not_do_of_start {mayBeEmpty : Bool} {previous : Option Token} {next keyword left : Token}
    {n : Nat} {parts : List Tree} {rest : List Token}
    (h : FormsContent mayBeEmpty previous next (.node n .statement parts))
    (hkeyword : keyword.isKeyword "do" = true) (hleft : left.kind = .leftBrace) :
    ¬ tokensOf parts ++ [next] <+: keyword :: left :: rest := by
  intro hstart
  have hhead := head?_tokensOf_next parts next
  rw [head_of_starts hstart hhead rfl] at hhead
  rcases starts_of_statement h rfl hkeyword hhead with ⟨second, hsecond, hkind⟩
  cases hlist : tokensOf parts ++ [next] with
  | nil =>
      rw [hlist] at hhead
      cases hhead
  | cons x xs =>
      rw [hlist] at hstart hsecond
      exact hkind (head_of_starts (List.cons_prefix_cons.mp hstart).2 hsecond rfl ▸ hleft)

theorem not_prefix_do {mayBeEmpty : Bool} {previous : Option Token} {next keyword left : Token}
    {n : Nat} {parts : List Tree} {rest ts : List Token}
    (h : FormsContent mayBeEmpty previous next (.node n .statement parts))
    (hts : ts.head? = some next) (hkeyword : keyword.isKeyword "do" = true)
    (hleft : left.kind = .leftBrace) : ¬ keyword :: left :: rest <+: tokensOf parts ++ ts := by
  intro hstart
  have hhead := head?_tokensOf parts hts
  rw [← head_of_starts hstart rfl hhead] at hhead
  rcases starts_of_statement h hts hkeyword hhead with ⟨second, hsecond, hkind⟩
  cases hlist : tokensOf parts ++ ts with
  | nil =>
      rw [hlist] at hhead
      cases hhead
  | cons x xs =>
      rw [hlist] at hstart hsecond
      exact hkind (head_of_starts (List.cons_prefix_cons.mp hstart).2 rfl hsecond ▸ hleft)

mutual

theorem formsPart_unique {f : Frame} {previous : Option Token} {next next' : Token} {t t' : Tree}
    {behind : List Token} (h : FormsPart f previous next t) (h' : FormsPart f previous next' t')
    (hbehind : behind.head? = some next') (hstart : t.tokens ++ [next] <+: t'.tokens ++ behind) :
    t.plain = t'.plain := by
  have hfirst : firstOf [t] next = firstOf [t'] next' := by
    have hhead := head?_tokensOf_next [t] next
    have hhead' := head?_tokensOf [t'] hbehind
    rw [tokensOf_cons, tokensOf_nil, List.append_nil] at hhead hhead'
    exact head_of_starts hstart hhead hhead'
  -- The first token tells the parts apart, and the second one the two kinds of `try`: no part
  -- starts with a mark.
  cases shape_of_formsPart h with
  | leaf l hstays htakes =>
      rw [firstOf_leaf] at hfirst
      rw [hfirst] at htakes
      cases shape_of_formsPart h' with
      | leaf l' hstays' htakes' =>
          show Tree.leaf ⟨0, l.token⟩ = Tree.leaf ⟨0, l'.token⟩
          rw [hfirst]
          rfl
      | block n' cs' hstays' hbraces' => exact absurd (kind_of_braces hbraces' next') htakes.1
      | bare n' m' keyword' parts' hstays' htry' => exact absurd htry' (not_try_of_takes htakes)
      | marked n' m' keyword' mark' parts' hstays' htry' => exact absurd htry' (not_try_of_takes htakes)
  | block n cs hstays hbraces =>
      have hbrace := kind_of_braces (n := n) (k := .block) hbraces next
      rw [hfirst] at hbrace
      cases shape_of_formsPart h' with
      | leaf l' hstays' htakes' => exact absurd hbrace htakes'.1
      | block n' cs' hstays' hbraces' =>
          show Tree.node 0 .block (outlineAll id cs) = Tree.node 0 .block (outlineAll id cs')
          rw [formsBraces_unique hbraces hbraces' ((List.prefix_append _ _).trans hstart)]
      | bare n' m' keyword' parts' hstays' htry' => exact absurd htry' (not_try_of_brace hbrace)
      | marked n' m' keyword' mark' parts' hstays' htry' => exact absurd htry' (not_try_of_brace hbrace)
  | bare n m keyword parts hstays htry hne hparts hends =>
      have hkeyword : (firstOf [t'] next').isKeyword "try" = true := hfirst ▸ htry
      cases shape_of_formsPart h' with
      | leaf l' hstays' htakes' => exact absurd hkeyword (not_try_of_takes htakes')
      | block n' cs' hstays' hbraces' =>
          exact absurd hkeyword (not_try_of_brace (kind_of_braces hbraces' next'))
      | bare n' m' keyword' parts' hstays' htry' hne' hparts' hends' =>
          simp only [tokens_node, tokensOf_cons, tokens_leaf, tokensOf_nil, List.append_nil,
            List.cons_append, List.nil_append, List.cons_prefix_cons] at hstart
          rw [← hstart.1] at hparts' hends'
          show Tree.node 0 .tryExpression
              [.leaf ⟨0, keyword.token⟩, .node 0 .expression (outlineAll id parts)] =
            Tree.node 0 .tryExpression
              [.leaf ⟨0, keyword'.token⟩, .node 0 .expression (outlineAll id parts')]
          rw [hstart.1, formsParts_unique hparts hends hparts' hends' hbehind hstart.2]
      | marked n' m' keyword' mark' parts' hstays' htry' hmarks' =>
          simp only [tokens_node, tokensOf_cons, tokens_leaf, tokensOf_nil, List.append_nil,
            List.cons_append, List.nil_append, List.cons_prefix_cons] at hstart
          have hsecond := head_of_starts hstart.2 (head?_tokensOf_next parts next) rfl
          have hfree := not_marksTry_of_formsParts hparts hne
          rw [hsecond, hmarks'] at hfree
          cases hfree
  | marked n m keyword mark parts hstays htry hmarks hne hparts hends =>
      have hkeyword : (firstOf [t'] next').isKeyword "try" = true := hfirst ▸ htry
      cases shape_of_formsPart h' with
      | leaf l' hstays' htakes' => exact absurd hkeyword (not_try_of_takes htakes')
      | block n' cs' hstays' hbraces' =>
          exact absurd hkeyword (not_try_of_brace (kind_of_braces hbraces' next'))
      | bare n' m' keyword' parts' hstays' htry' hne' hparts' hends' =>
          simp only [tokens_node, tokensOf_cons, tokens_leaf, tokensOf_nil, List.append_nil,
            List.cons_append, List.nil_append, List.cons_prefix_cons] at hstart
          have hsecond := head_of_starts hstart.2 rfl (head?_tokensOf parts' hbehind)
          have hfree := not_marksTry_of_formsParts hparts' hne'
          rw [← hsecond, hmarks] at hfree
          cases hfree
      | marked n' m' keyword' mark' parts' hstays' htry' hmarks' hne' hparts' hends' =>
          simp only [tokens_node, tokensOf_cons, tokens_leaf, tokensOf_nil, List.append_nil,
            List.cons_append, List.nil_append, List.cons_prefix_cons] at hstart
          rw [← hstart.2.1] at hparts' hends'
          show Tree.node 0 .tryExpression [.leaf ⟨0, keyword.token⟩, .leaf ⟨0, mark.token⟩,
              .node 0 .expression (outlineAll id parts)] =
            Tree.node 0 .tryExpression [.leaf ⟨0, keyword'.token⟩, .leaf ⟨0, mark'.token⟩,
              .node 0 .expression (outlineAll id parts')]
          rw [hstart.1, hstart.2.1,
            formsParts_unique hparts hends hparts' hends' hbehind hstart.2.2]
termination_by sizeOf t

/-- Two phrases in the same place.  The first one ends in front of `next`, and its tokens with this
one are the start of the second phrase with what stands behind it. -/
theorem formsParts_unique {f : Frame} {previous : Option Token} {next next' : Token}
    {parts parts' : List Tree} {behind : List Token} (h : FormsParts f previous next parts)
    (hends : (f.afterAll parts).ends (lastOf previous parts) next = true)
    (h' : FormsParts f previous next' parts')
    (hends' : (f.afterAll parts').ends (lastOf previous parts') next' = true)
    (hbehind : behind.head? = some next')
    (hstart : tokensOf parts ++ [next] <+: tokensOf parts' ++ behind) :
    outlineAll id parts = outlineAll id parts' := by
  have hfirst := head_of_starts hstart (head?_tokensOf_next parts next)
    (head?_tokensOf parts' hbehind)
  -- A phrase goes on as long as its frame does not end, so both phrases end together.
  cases parts with
  | nil =>
      cases parts' with
      | nil => rfl
      | cons c' cs' =>
          rw [FormsParts] at h'
          have hstays := not_ends_of_formsPart h'.1
          rw [← firstOf_cons, ← hfirst] at hstays
          rw [lastOf_nil] at hends
          exact Bool.noConfusion (hends.symm.trans hstays)
  | cons c cs =>
      rw [FormsParts] at h
      cases parts' with
      | nil =>
          have hstays := not_ends_of_formsPart h.1
          rw [← firstOf_cons, hfirst] at hstays
          rw [lastOf_nil] at hends'
          exact Bool.noConfusion (hends'.symm.trans hstays)
      | cons c' cs' =>
          rw [FormsParts] at h'
          rw [tokensOf_cons, tokensOf_cons, List.append_assoc, List.append_assoc] at hstart
          have hc : c.plain = c'.plain := by
            apply formsPart_unique h.1 h'.1 (head?_tokensOf cs' hbehind)
            exact prefix_of_head hstart (head?_tokensOf_next cs next)
          have htokens := tokens_of_plain hc
          have hlast := lastOf_of_tokens htokens previous
          rw [Frame.afterAll_cons, lastOf_cons] at hends hends'
          rw [← after_of_plain hc, ← hlast] at h' hends'
          rw [htokens, List.prefix_append_right_inj] at hstart
          show c.plain :: outlineAll id cs = c'.plain :: outlineAll id cs'
          rw [hc, formsParts_unique h.2 hends h'.2 hends' hbehind hstart]
termination_by sizeOf parts

theorem formsBraces_unique {cs cs' : List Tree} {behind : List Token} (h : FormsBraces cs)
    (h' : FormsBraces cs') (hstart : tokensOf cs <+: tokensOf cs' ++ behind) :
    outlineAll id cs = outlineAll id cs' := by
  unfold FormsBraces at h h'
  split at h
  · next left ds =>
      split at h'
      · next left' ds' =>
          simp only [tokensOf_cons, tokens_leaf, List.cons_append, List.nil_append,
            List.cons_prefix_cons] at hstart
          show Tree.leaf ⟨0, left.token⟩ :: outlineAll id ds =
            Tree.leaf ⟨0, left'.token⟩ :: outlineAll id ds'
          rw [← hstart.1] at h' ⊢
          rw [formsBody_unique h.2 h'.2 (.inl rfl) hstart.2]
      · cases h'
  · cases h
termination_by sizeOf cs

theorem formsBlock_unique {t t' : Tree} {behind : List Token} (h : FormsBlock t)
    (h' : FormsBlock t') (hstart : t.tokens <+: t'.tokens ++ behind) : t.plain = t'.plain := by
  unfold FormsBlock at h h'
  split at h
  · next n cs =>
      split at h'
      · next n' cs' =>
          show Tree.node 0 .block (outlineAll id cs) = Tree.node 0 .block (outlineAll id cs')
          rw [formsBraces_unique h h' hstart]
      · cases h'
  · cases h
termination_by sizeOf t

theorem formsBody_unique {closing : TokenKind} {previous : Option Token} {cs cs' : List Tree}
    {behind : List Token} (h : FormsBody closing previous cs) (h' : FormsBody closing previous cs')
    (hclosing : closing = .rightBrace ∨ closing = .endOfFile)
    (hstart : tokensOf cs <+: tokensOf cs' ++ behind) :
    outlineAll id cs = outlineAll id cs' := by
  have hitem : ∀ {p : Option Token} {n : Token} {c : Tree}, FormsItem p n c →
      ∀ next, (firstOf [c] next).kind ≠ closing := by
    intro p n c hc next
    rcases hclosing with rfl | rfl
    · exact (kind_of_formsItem hc next).1
    · exact (kind_of_formsItem hc next).2
  cases shape_of_formsBody h with
  | last l hl =>
      cases shape_of_formsBody h' with
      | last l' hl' =>
          have hfirst := head_of_starts hstart rfl rfl
          show [Tree.leaf ⟨0, l.token⟩] = [Tree.leaf ⟨0, l'.token⟩]
          rw [hfirst]
      | item c' cs' hc' hcs' =>
          have hhead := head?_tokensOf [c'] (head?_of_formsBody hcs' behind)
          rw [← List.append_assoc, ← tokensOf_append] at hhead
          have hfirst := head_of_starts hstart rfl hhead
          exact absurd (hfirst ▸ hl) (hitem hc' _)
  | item c cs hc hcs =>
      have hnext := head?_of_formsBody hcs []
      have hhead := head?_tokensOf [c] hnext
      rw [List.append_nil] at hnext
      rw [List.append_nil, tokensOf_cons, tokensOf_nil, List.append_nil] at hhead
      rw [tokensOf_cons] at hstart
      cases shape_of_formsBody h' with
      | last l' hl' =>
          have hfirst := head_of_starts hstart hhead rfl
          exact absurd (hfirst ▸ hl') (hitem hc _)
      | item c' cs' hc' hcs' =>
          rw [tokensOf_cons, List.append_assoc] at hstart
          have hplain := formsItem_unique hc hc' (head?_of_formsBody hcs' behind)
            (prefix_of_head hstart hnext)
          have htokens := tokens_of_plain hplain
          have hlast := lastOf_of_tokens htokens previous
          rw [← hlast] at hcs'
          rw [htokens, List.prefix_append_right_inj] at hstart
          show c.plain :: outlineAll id cs = c'.plain :: outlineAll id cs'
          rw [hplain, formsBody_unique hcs hcs' hclosing hstart]
termination_by sizeOf cs

theorem formsItem_unique {previous : Option Token} {next next' : Token} {t t' : Tree}
    {behind : List Token} (h : FormsItem previous next t) (h' : FormsItem previous next' t')
    (hbehind : behind.head? = some next') (hstart : t.tokens ++ [next] <+: t'.tokens ++ behind) :
    t.plain = t'.plain := by
  -- If only one item is closed, the token behind the other one would be its semicolon.
  cases shape_of_formsItem h with
  | bare n content hnext hcontent =>
      rw [tokens_node, tokensOf_cons, tokensOf_nil, List.append_nil] at hstart
      cases shape_of_formsItem h' with
      | bare n' content' hnext' hcontent' =>
          rw [tokens_node, tokensOf_cons, tokensOf_nil, List.append_nil] at hstart
          show Tree.node 0 .item [content.plain] = Tree.node 0 .item [content'.plain]
          rw [formsContent_unique hcontent hcontent' hbehind hstart]
      | closed n' content' semicolon' hsemicolon' hcontent' =>
          rw [tokens_node, tokensOf_cons, tokensOf_cons, tokens_leaf, tokensOf_nil,
            List.append_nil, List.append_assoc] at hstart
          have hplain := formsContent_unique hcontent hcontent' rfl hstart
          rw [tokens_of_plain hplain, List.prefix_append_right_inj] at hstart
          exact absurd (head_of_starts hstart rfl rfl ▸ hsemicolon') hnext
  | closed n content semicolon hsemicolon hcontent =>
      rw [tokens_node, tokensOf_cons, tokensOf_cons, tokens_leaf, tokensOf_nil, List.append_nil,
        List.append_assoc] at hstart
      cases shape_of_formsItem h' with
      | bare n' content' hnext' hcontent' =>
          rw [tokens_node, tokensOf_cons, tokensOf_nil, List.append_nil] at hstart
          have hplain := formsContent_unique hcontent hcontent' hbehind (prefix_of_head hstart rfl)
          rw [tokens_of_plain hplain, List.prefix_append_right_inj] at hstart
          exact absurd (head_of_starts hstart rfl hbehind ▸ hsemicolon) hnext'
      | closed n' content' semicolon' hsemicolon' hcontent' =>
          rw [tokens_node, tokensOf_cons, tokensOf_cons, tokens_leaf, tokensOf_nil,
            List.append_nil, List.append_assoc] at hstart
          have hplain := formsContent_unique hcontent hcontent' rfl (prefix_of_head hstart rfl)
          rw [tokens_of_plain hplain, List.prefix_append_right_inj] at hstart
          show Tree.node 0 .item [content.plain, .leaf ⟨0, semicolon.token⟩] =
            Tree.node 0 .item [content'.plain, .leaf ⟨0, semicolon'.token⟩]
          rw [hplain, head_of_starts hstart rfl rfl]
termination_by sizeOf t

theorem formsContent_unique {mayBeEmpty mayBeEmpty' : Bool} {previous : Option Token}
    {next next' : Token} {t t' : Tree} {behind : List Token}
    (h : FormsContent mayBeEmpty previous next t) (h' : FormsContent mayBeEmpty' previous next' t')
    (hbehind : behind.head? = some next') (hstart : t.tokens ++ [next] <+: t'.tokens ++ behind) :
    t.plain = t'.plain := by
  cases shape_of_formsContent h with
  | statement n parts hempty hdo hparts hends =>
      rw [tokens_node] at hstart
      cases shape_of_formsContent h' with
      | statement n' parts' hempty' hdo' hparts' hends' =>
          rw [tokens_node] at hstart
          have hfirst := head_of_starts hstart (head?_tokensOf_next parts next)
            (head?_tokensOf parts' hbehind)
          rw [← hfirst] at hparts' hends'
          show Tree.node 0 .statement (outlineAll id parts) =
            Tree.node 0 .statement (outlineAll id parts')
          rw [formsParts_unique hparts hends hparts' hends' hbehind hstart]
      | doStatement n' keyword' body' clauses' hdo' hbody' =>
          rcases doStatement_start keyword' clauses' hbody' behind with
            ⟨left, rest, htokens, hleft⟩
          rw [tokens_node, htokens] at hstart
          exact absurd hstart (not_do_of_start h hdo' hleft)
  | doStatement n keyword body clauses hdo hbody hclauses hnext =>
      cases shape_of_formsContent h' with
      | statement n' parts' =>
          rcases doStatement_start keyword clauses hbody [next] with
            ⟨left, rest, htokens, hleft⟩
          rw [tokens_node, htokens] at hstart
          exact absurd hstart (not_prefix_do h' hbehind hdo hleft)
      | doStatement n' keyword' body' clauses' hdo' hbody' hclauses' hnext' =>
          simp only [tokens_node, tokensOf_cons, tokens_leaf, List.cons_append, List.nil_append,
            List.cons_prefix_cons, List.append_assoc] at hstart
          have hplain := formsBlock_unique hbody hbody' ((List.prefix_append _ _).trans hstart.2)
          rw [tokens_of_plain hplain, List.prefix_append_right_inj] at hstart
          show Tree.node 0 .doStatement (.leaf ⟨0, keyword.token⟩ :: body.plain ::
              outlineAll id clauses) =
            Tree.node 0 .doStatement (.leaf ⟨0, keyword'.token⟩ :: body'.plain ::
              outlineAll id clauses')
          rw [hstart.1, hplain, formsClauses_unique hclauses hclauses' hnext hnext' hbehind hstart.2]
termination_by sizeOf t

theorem formsClauses_unique {next next' : Token} {cs cs' : List Tree} {behind : List Token}
    (h : FormsClauses cs) (h' : FormsClauses cs') (hnext : next.isKeyword "catch" = false)
    (hnext' : next'.isKeyword "catch" = false) (hbehind : behind.head? = some next')
    (hstart : tokensOf cs ++ [next] <+: tokensOf cs' ++ behind) :
    outlineAll id cs = outlineAll id cs' := by
  cases shape_of_formsClauses h with
  | nil =>
      cases shape_of_formsClauses h' with
      | nil => rfl
      | clause n' keyword' ds' clauses' hcatch' =>
          have hfirst : next = keyword'.token := head_of_starts hstart rfl rfl
          rw [hfirst, hcatch'] at hnext
          cases hnext
  | clause n keyword ds clauses hcatch hpattern hclauses =>
      cases shape_of_formsClauses h' with
      | nil =>
          have hfirst : keyword.token = next' := head_of_starts hstart rfl hbehind
          rw [← hfirst, hcatch] at hnext'
          cases hnext'
      | clause n' keyword' ds' clauses' hcatch' hpattern' hclauses' =>
          simp only [tokens_node, tokensOf_cons, tokens_leaf, List.cons_append, List.nil_append,
            List.cons_prefix_cons, List.append_assoc] at hstart
          have hplain := formsPattern_unique hpattern hpattern'
            ((List.prefix_append _ _).trans hstart.2)
          rw [tokensOf_of_outlineAll hplain, List.prefix_append_right_inj] at hstart
          show Tree.node 0 .catchClause (.leaf ⟨0, keyword.token⟩ :: outlineAll id ds) ::
              outlineAll id clauses =
            Tree.node 0 .catchClause (.leaf ⟨0, keyword'.token⟩ :: outlineAll id ds') ::
              outlineAll id clauses'
          rw [hstart.1, hplain, formsClauses_unique hclauses hclauses' hnext hnext' hbehind hstart.2]
termination_by sizeOf cs

theorem formsPattern_unique {cs cs' : List Tree} {behind : List Token} (h : FormsPattern cs)
    (h' : FormsPattern cs') (hstart : tokensOf cs <+: tokensOf cs' ++ behind) :
    outlineAll id cs = outlineAll id cs' := by
  cases shape_of_formsPattern h with
  | leaf l ds hleft hright hend hds =>
      cases shape_of_formsPattern h' with
      | leaf l' ds' hleft' hright' hend' hds' =>
          simp only [tokensOf_cons, tokens_leaf, List.cons_append, List.nil_append,
            List.cons_prefix_cons] at hstart
          show Tree.leaf ⟨0, l.token⟩ :: outlineAll id ds =
            Tree.leaf ⟨0, l'.token⟩ :: outlineAll id ds'
          rw [hstart.1, formsPattern_unique hds hds' hstart.2]
      | block n' es' hbraces' =>
          rcases starts_of_formsBraces hbraces' with ⟨left, rest, rfl, hleft'⟩
          exact absurd (head_of_starts hstart rfl rfl ▸ hleft') hleft
  | block n es hbraces =>
      cases shape_of_formsPattern h' with
      | leaf l' ds' hleft' hright' hend' hds' =>
          rcases starts_of_formsBraces hbraces with ⟨left, rest, rfl, hleft⟩
          exact absurd (head_of_starts hstart rfl rfl ▸ hleft) hleft'
      | block n' es' hbraces' =>
          rw [tokensOf_cons, tokensOf_cons, tokensOf_nil, List.append_nil, List.append_nil,
            tokens_node, tokens_node] at hstart
          show [Tree.node 0 .block (outlineAll id es)] = [Tree.node 0 .block (outlineAll id es')]
          rw [formsBraces_unique hbraces hbraces' hstart]
termination_by sizeOf cs

end

theorem plain_of_formsFile {t t' : Tree} (h : FormsFile t) (h' : FormsFile t')
    (htokens : t.tokens = t'.tokens) : t.plain = t'.plain := by
  unfold FormsFile at h h'
  split at h
  · next n cs =>
      split at h'
      · next n' cs' =>
          show Tree.node 0 .sourceFile (outlineAll id cs) = Tree.node 0 .sourceFile (outlineAll id cs')
          rw [tokens_node, tokens_node] at htokens
          rw [formsBody_unique h h' (.inr rfl) (⟨[], by rw [htokens]⟩ : _ <+: _ ++ [])]
      · cases h'
  · cases h

theorem map_bare_of_alikeList {previous previous' : Option Token} {ts ts' : List Token}
    (h : AlikeList previous previous' ts ts') : ts.map Token.bare = ts'.map Token.bare := by
  induction ts generalizing previous previous' ts' with
  | nil =>
      cases ts' with
      | nil => rfl
      | cons t' ts' => cases h
  | cons t ts ih =>
      cases ts' with
      | nil => cases h
      | cons t' ts' => rw [List.map_cons, List.map_cons, h.1.1, ih h.2]

/-- A file is known by the kinds and texts of its tokens and the line breaks between them. -/
theorem bare_of_formsFile {t t' : Tree} (h : FormsFile t) (h' : FormsFile t')
    (halike : AlikeList none none t.tokens t'.tokens) : t.bare = t'.bare := by
  have htokens := map_bare_of_alikeList halike
  have hlength : t.tokens.length = t'.tokens.length := by
    simpa using congrArg List.length htokens
  have hskeleton := skeleton_refill t'.tokens t
  have hrefill : (t.refill t'.tokens).tokens = t'.tokens := by
    rw [tokens_refill _ _ (Nat.le_of_eq hlength), hlength, List.take_length]
  have hforms : FormsFile (t.refill t'.tokens) := by
    refine formsFile_of_alike (alike_of_skeleton hskeleton.symm ?_) h
    rw [hrefill]
    exact halike
  calc
    t.bare = (t.refill t'.tokens).bare :=
      outline_eq_of_skeleton Token.bare hskeleton.symm (by rw [hrefill, htokens])
    _ = t'.bare := bare_eq_of_plain (plain_of_formsFile hforms h' hrefill)

end Grammar
end ForceTry

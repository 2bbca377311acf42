import ForceTry.Proofs.Grammar.Machine

/-!
# What one token does

Each step of the parser keeps the invariant and adds the token that it reads.  Closing a phrase only
regroups what has been read; a part, a block or an item that is added brings its own place in the
grammar with it.
-/

namespace ForceTry
namespace Parser

open ForceTry.Grammar ForceTry.Tree

/-!
# Frames of phrases
-/

theorem Phrase.inCondition_eq (p : Phrase) : p.inCondition = p.frame.condition := by
  cases p <;> rfl

theorem Phrase.endsWithLine_eq (p : Phrase) : p.endsWithLine = p.frame.lineSensitive := by
  cases p <;> rfl

theorem Phrase.depth_eq (p : Phrase) : p.depth = p.frame.depth := by
  cases p <;> rfl

theorem frame_eq_of_statement (outer : Body) {condition : Bool} {parts : List Tree} {depth : Nat}
    (h : ((Frame.statement condition).afterAll parts.reverse).depth = depth) :
    (Phrase.statement outer condition parts depth).frame =
      (Frame.statement condition).afterAll parts.reverse := by
  rw [Frame.afterAll_eq, h]
  simp [Phrase.frame, Frame.statement]

theorem frame_eq_of_operand {outer : Phrase} (keyword : Leaf) (mark : Option Leaf)
    {parts : List Tree} {depth : Nat}
    (h : (outer.frame.operand.afterAll parts.reverse).depth = depth) :
    (Phrase.operand outer keyword mark parts depth).frame =
      outer.frame.operand.afterAll parts.reverse := by
  rw [Frame.afterAll_eq, h]
  simp [Phrase.frame, Frame.operand, outer.inCondition_eq, outer.endsWithLine_eq, outer.depth_eq]

theorem lastToken_operand (outer : Phrase) (keyword : Leaf) (mark : Option Leaf)
    (parts : List Tree) (depth : Nat) :
    lastToken (Phrase.operand outer keyword mark parts depth).leaves =
      lastOf (some ((mark.map Leaf.token).getD keyword.token)) parts.reverse := by
  rw [Phrase.leaves, lastToken_append_leavesOf]
  cases mark <;> simp [lastToken]

theorem lastToken_statement (outer : Body) (condition : Bool) (parts : List Tree) (depth : Nat) :
    lastToken (Phrase.statement outer condition parts depth).leaves =
      lastOf (lastToken outer.leaves) parts.reverse := by
  rw [Phrase.leaves, lastToken_append_leavesOf]

/-!
# One more part
-/

theorem follows_pushAt {p : Phrase} {next : Token} {x : Tree} (hp : p.Follows (firstOf [x] next))
    (hx : FormsPart p.frame (lastToken p.leaves) next x)
    (hdo : ¬ p.Begun → (firstOf [x] next).isKeyword "do" = true →
      (secondOf [x] next).kind ≠ .leftBrace) :
    (p.pushAt (p.frame.after x).depth x).Follows next := by
  have hne := leaves_ne_nil_of_formsPart hx
  cases p with
  | statement outer condition parts depth =>
      rw [Phrase.Follows] at hp
      rcases hp with ⟨houter, hcondition, hdoParts, hforms, hdepth⟩
      have hframe := frame_eq_of_statement outer hdepth
      rw [hframe, lastToken_statement] at hx
      rw [hframe, Phrase.pushAt, Phrase.Follows, firstOf_snoc]
      refine ⟨houter, hcondition, ?_, ?_, ?_⟩
      · intro hkeyword
        cases parts with
        | nil => exact hdo (fun h => h rfl) hkeyword
        | cons part parts =>
            rw [List.reverse_cons, secondOf_append x next _ hne]
            · exact hdoParts hkeyword
            · exact leavesOf_ne_nil_of_formsParts (by simp) hforms
      · rw [List.reverse_cons]
        exact formsParts_snoc hforms hx
      · rw [List.reverse_cons, Frame.depth_afterAll_snoc]
  | operand outer keyword mark parts depth =>
      rw [Phrase.Follows] at hp
      rcases hp with ⟨houter, hstays, htry, hmark, hforms, hdepth⟩
      have hframe := frame_eq_of_operand keyword mark hdepth
      rw [hframe, lastToken_operand] at hx
      rw [hframe, Phrase.pushAt, Phrase.Follows]
      refine ⟨houter, hstays, htry, hmark, ?_, ?_⟩
      · rw [List.reverse_cons]
        exact formsParts_snoc hforms hx
      · rw [List.reverse_cons, Frame.depth_afterAll_snoc]

theorem follows_push_node {p : Phrase} {next : Token} {n : Nat} {k : NodeKind} {cs : List Tree}
    (hp : p.Follows (firstOf [.node n k cs] next))
    (hx : FormsPart p.frame (lastToken p.leaves) next (.node n k cs)) :
    (p.push (.node n k cs)).Follows next := by
  have hpush := follows_pushAt hp hx (by
    intro _ hkeyword
    rw [firstOf_node_not_do hx] at hkeyword
    cases hkeyword)
  cases p <;> exact hpush

theorem leaves_pushAt (p : Phrase) (depth : Nat) (x : Tree) :
    (p.pushAt depth x).leaves = p.leaves ++ x.leaves := by
  cases p <;> simp [Phrase.pushAt, Phrase.leaves, leavesOf_append]

theorem leaves_push (p : Phrase) (x : Tree) : (p.push x).leaves = p.leaves ++ x.leaves := by
  cases p <;> simp [Phrase.push, Phrase.leaves, leavesOf_append]

theorem begun_pushAt (p : Phrase) (depth : Nat) (x : Tree) : (p.pushAt depth x).Begun := by
  cases p <;> simp [Phrase.pushAt, Phrase.Begun]

theorem begun_push (p : Phrase) (x : Tree) : (p.push x).Begun := by
  cases p <;> simp [Phrase.push, Phrase.Begun]

/-!
# Closing what ends

An operand that ends becomes a `try` in the phrase around it, and the same token is looked at again
there.  So the claim is about a phrase with a part that is still to be added.
-/

theorem leaves_mkTry (keyword : Leaf) (mark : Option Leaf) (parts : List Tree) :
    (mkTry keyword mark parts).leaves = keyword :: mark.toList ++ leavesOf parts.reverse := by
  cases mark <;> simp [mkTry, mkNode]

theorem leaves_pushAll_mkTry (outer : Phrase) (keyword : Leaf) (mark : Option Leaf)
    (pending parts : List Tree) (depth : Nat) :
    (outer.pushAll [mkTry keyword mark (pending ++ parts)]).leaves =
      ((Phrase.operand outer keyword mark parts depth).pushAll pending).leaves := by
  rw [Phrase.pushAll_singleton, leaves_push, leaves_mkTry, Phrase.pushAll, Phrase.leaves,
    List.append_assoc]

theorem firstOf_mkTry (keyword : Leaf) (mark : Option Leaf) (parts : List Tree) (next : Token) :
    firstOf [mkTry keyword mark parts] next = keyword.token := by
  simp [firstOf, leaves_mkTry]

theorem formsPart_mkTry {outer : Phrase} {keyword : Leaf} {mark : Option Leaf} {parts : List Tree}
    {depth : Nat} {next : Token}
    (h : (Phrase.operand outer keyword mark parts depth).Follows next) (hparts : parts ≠ [])
    (hends : (Phrase.operand outer keyword mark parts depth).frame.ends
      (lastToken (Phrase.operand outer keyword mark parts depth).leaves) next = true) :
    FormsPart outer.frame (lastToken outer.leaves) next (mkTry keyword mark parts) := by
  rw [Phrase.Follows] at h
  rcases h with ⟨_, hstays, htry, hmark, hforms, hdepth⟩
  rw [frame_eq_of_operand keyword mark hdepth, lastToken_operand] at hends
  have hne : parts.reverse ≠ [] := by simpa using hparts
  cases mark with
  | none =>
      show FormsPart _ _ _ (.node 0 .tryExpression [.leaf keyword, .node 0 .expression _])
      rw [FormsPart]
      exact ⟨hstays, htry, hne, hforms, hends⟩
  | some m =>
      show FormsPart _ _ _
        (.node 0 .tryExpression [.leaf keyword, .leaf m, .node 0 .expression _])
      rw [FormsPart]
      exact ⟨hstays, htry, hmark m rfl, hne, hforms, hends⟩

theorem follows_push_mkTry {outer : Phrase} {keyword : Leaf} {mark : Option Leaf}
    {parts : List Tree} {depth : Nat} {next : Token}
    (h : (Phrase.operand outer keyword mark parts depth).Follows next) (hparts : parts ≠ [])
    (hends : (Phrase.operand outer keyword mark parts depth).frame.ends
      (lastToken (Phrase.operand outer keyword mark parts depth).leaves) next = true) :
    (outer.push (mkTry keyword mark parts)).Follows next := by
  have hpart := formsPart_mkTry h hparts hends
  rw [Phrase.Follows] at h
  have houter : outer.Follows (firstOf [mkTry keyword mark parts] next) := by
    rw [firstOf_mkTry]
    exact h.1
  exact follows_push_node houter hpart

theorem formsContent_statement {outer : Body} {condition : Bool} {parts : List Tree} {depth : Nat}
    {next : Token} (h : (Phrase.statement outer condition parts depth).Follows next)
    (hparts : parts ≠ [])
    (hends : (Phrase.statement outer condition parts depth).frame.ends
      (lastToken (Phrase.statement outer condition parts depth).leaves) next = true) :
    outer.Follows (firstOf [mkNode .statement parts.reverse] next) ∧
      FormsContent false (lastToken outer.leaves) next (mkNode .statement parts.reverse) := by
  rw [Phrase.Follows] at h
  rcases h with ⟨houter, hcondition, hdo, hforms, hdepth⟩
  rw [frame_eq_of_statement outer hdepth, lastToken_statement] at hends
  have hne : parts.reverse ≠ [] := by simpa using hparts
  have hfirst : firstOf [mkNode .statement parts.reverse] next = firstOf parts.reverse next := by
    simp [firstOf, mkNode]
  rw [hfirst]
  refine ⟨houter, ?_⟩
  rw [mkNode, FormsContent, ← hcondition]
  exact ⟨fun hnil => absurd hnil hne, hdo, hforms, hends⟩

theorem settlePhrase_follows {previous : Option Token} {l : Leaf}
    (hline : previous.any (·.trailing.containsNewline) = false)
    (hkind : l.token.kind ≠ .endOfFile) (p : Phrase) :
    ∀ (pending : List Tree) (s : State), previous = lastToken (p.pushAll pending).leaves →
      (p.pushAll pending).Follows l.token → (p.pushAll pending).Begun →
      settlePhrase previous l pending p = .ok s →
      s.Follows l.token ∧ s.Settled l.token ∧ s.leaves = (p.pushAll pending).leaves := by
  cases p with
  | statement outer condition parts depth =>
      intro pending s hprevious hfollows hbegun hs
      cases hends : ((Phrase.statement outer condition parts depth).pushAll pending).frame.ends
          previous l.token with
      | false =>
          rw [settlePhrase_of_stays hline hkind hends] at hs
          cases hs
          rw [hprevious] at hends
          exact ⟨⟨hfollows, hbegun⟩, hends, rfl⟩
      | true =>
          rw [settlePhrase_statement_of_ends hline hkind hends] at hs
          cases hs
          rw [hprevious] at hends
          refine ⟨formsContent_statement hfollows hbegun hends, trivial, ?_⟩
          simp [State.leaves, Phrase.pushAll, Phrase.leaves, mkNode]
  | operand outer keyword mark parts depth =>
      intro pending s hprevious hfollows hbegun hs
      cases hends : ((Phrase.operand outer keyword mark parts depth).pushAll pending).frame.ends
          previous l.token with
      | false =>
          rw [settlePhrase_of_stays hline hkind hends] at hs
          cases hs
          rw [hprevious] at hends
          exact ⟨⟨hfollows, hbegun⟩, hends, rfl⟩
      | true =>
          rw [settlePhrase_operand_of_ends hline hkind hends] at hs
          split at hs
          · cases hs
          · next hparts =>
              have hne : pending ++ parts ≠ [] := by simpa using hparts
              rw [hprevious] at hends
              have houter := follows_push_mkTry hfollows hne hends
              have hleaves := leaves_pushAll_mkTry outer keyword mark pending parts depth
              rw [← hleaves]
              apply settlePhrase_follows hline hkind outer [mkTry keyword mark (pending ++ parts)] s
              · rw [hleaves]
                exact hprevious
              · rw [Phrase.pushAll_singleton]
                exact houter
              · rw [Phrase.pushAll_singleton]
                exact begun_push outer _
              · exact hs
termination_by structural p

/-!
# Items and blocks
-/

theorem lastToken_body_push (b : Body) (item : Tree) :
    (b.push item).leaves = b.leaves ++ item.leaves := by
  cases b <;> simp [Body.push, Body.leaves, leavesOf_append]

theorem follows_body_push {b : Body} {next : Token} {item : Tree}
    (h : b.Follows (firstOf [item] next))
    (hitem : FormsItem (lastToken b.leaves) next item) : (b.push item).Follows next := by
  cases b with
  | file items =>
      rw [Body.Follows] at h
      rw [Body.push, Body.Follows, List.reverse_cons]
      apply formsItems_snoc h
      have hlast : lastToken (Body.file items).leaves = lastOf none items.reverse := by
        rw [Body.leaves, ← List.nil_append (leavesOf items.reverse), lastToken_append_leavesOf]
        rfl
      rw [← hlast]
      exact hitem
  | block host brace items =>
      rw [Body.Follows] at h
      rcases h with ⟨hhost, hbrace, hitems⟩
      rw [Body.push, Body.Follows, List.reverse_cons]
      refine ⟨hhost, hbrace, formsItems_snoc hitems ?_⟩
      have hlast : lastToken (Body.block host brace items).leaves =
          lastOf (some brace.token) items.reverse := by
        rw [Body.leaves, List.append_cons host.leaves brace, lastToken_append_leavesOf,
          lastToken_snoc]
      rw [← hlast]
      exact hitem

theorem leaves_mkItem (content : Tree) (semicolon : Option Leaf) :
    (mkItem content semicolon).leaves = content.leaves ++ semicolon.toList := by
  cases semicolon <;> simp [mkItem, mkNode]

theorem firstOf_mkItem (content : Tree) (next : Token) :
    firstOf [mkItem content none] next = firstOf [content] next := by
  simp [firstOf, leaves_mkItem]

theorem firstOf_mkItem_semicolon (content : Tree) (semicolon : Leaf) (next : Token) :
    firstOf [mkItem content (some semicolon)] next = firstOf [content] semicolon.token := by
  simp only [firstOf, leavesOf_cons, leavesOf_nil, List.append_nil, leaves_mkItem]
  cases content.leaves <;> rfl

theorem follows_push_mkItem {b : Body} {content : Tree} {next : Token}
    (h : (State.ended b content).Follows next) (hnext : next.kind ≠ .semicolon) :
    (b.push (mkItem content none)).Follows next := by
  apply follows_body_push
  · rw [firstOf_mkItem]
    exact h.1
  · show FormsItem _ _ (.node 0 .item [content])
    rw [FormsItem]
    exact ⟨hnext, h.2⟩

theorem follows_push_mkItem_semicolon {b : Body} {content : Tree} {semicolon : Leaf} {next : Token}
    (h : b.Follows (firstOf [content] semicolon.token))
    (hcontent : FormsContent true (lastToken b.leaves) semicolon.token content)
    (hkind : semicolon.token.kind = .semicolon) :
    (b.push (mkItem content (some semicolon))).Follows next := by
  apply follows_body_push
  · rw [firstOf_mkItem_semicolon]
    exact h
  · show FormsItem _ _ (.node 0 .item [content, .leaf semicolon])
    rw [FormsItem]
    exact ⟨hkind, hcontent⟩

theorem formsContent_empty {previous : Option Token} {semicolon : Leaf}
    (hkind : semicolon.token.kind = .semicolon) :
    FormsContent true previous semicolon.token (mkNode .statement []) := by
  rw [mkNode, FormsContent, FormsParts]
  refine ⟨fun _ => rfl, ?_, trivial, ?_⟩
  · intro hkeyword
    simp [firstOf, Token.isKeyword, hkind] at hkeyword
  · simp [Frame.afterAll, Frame.statement, Frame.ends, hkind]

theorem formsPattern_of_leaves {body : Tree} (hbody : FormsBlock body) (pattern : List Leaf)
    (hpattern : ∀ l ∈ pattern, IsPatternLeaf l) :
    FormsPattern (pattern.map Tree.leaf ++ [body]) := by
  induction pattern with
  | nil =>
      cases body with
      | leaf l => simp [FormsBlock] at hbody
      | node n k cs =>
          show FormsPattern [.node n k cs]
          rw [FormsPattern]
          · exact ⟨hbody, rfl⟩
          · intro l hl
            cases hl
  | cons l pattern ih =>
      have hl := hpattern l (by simp)
      show FormsPattern (.leaf l :: (pattern.map Tree.leaf ++ [body]))
      rw [FormsPattern]
      refine ⟨hl.1, hl.2.1, hl.2.2, ih ?_⟩
      intro m hm
      exact hpattern m (List.mem_cons_of_mem l hm)

theorem formsBlock_mkBlock {brace l : Leaf} {items : List Tree}
    (hbrace : brace.token.kind = .leftBrace)
    (hitems : FormsItems (some brace.token) l.token items.reverse)
    (hkind : l.token.kind = .rightBrace) : FormsBlock (mkBlock brace items l) := by
  show FormsBlock (.node 0 .block (.leaf brace :: (items.reverse ++ [.leaf l])))
  rw [FormsBlock, FormsBraces, formsBody_iff]
  exact ⟨hbrace, items.reverse, l, rfl, hkind, hitems⟩

theorem leaves_mkBlock (brace l : Leaf) (items : List Tree) :
    (mkBlock brace items l).leaves = brace :: leavesOf items.reverse ++ [l] := by
  simp [mkBlock, mkNode, leavesOf_append]

theorem leavesOf_map_leaf (ls : List Leaf) : leavesOf (ls.map Tree.leaf) = ls := by
  induction ls with
  | nil => rfl
  | cons l ls ih => simp [ih]

theorem leaves_mkClause (keyword : Leaf) (taken : List Leaf) (body : Tree) :
    (mkClause keyword taken body).leaves = keyword :: taken.reverse ++ body.leaves := by
  show leavesOf (.leaf keyword :: (taken.reverse.map Tree.leaf ++ [body])) = _
  rw [leavesOf_cons, leavesOf_append, leavesOf_map_leaf]
  simp

theorem leaves_mkDo (keyword : Leaf) (body : Tree) (clauses : List Tree) :
    (mkDo keyword body clauses).leaves =
      keyword :: body.leaves ++ leavesOf clauses.reverse := by
  simp [mkDo, mkNode]

theorem closeBlock_follows {host : Host} {brace l : Leaf} {items : List Tree} (next : Token)
    (h : (Body.block host brace items).Follows l.token)
    (hkind : l.token.kind = .rightBrace) :
    (closeBlock (mkBlock brace items l) host).Follows next ∧
      (closeBlock (mkBlock brace items l) host).leaves =
        (Body.block host brace items).leaves ++ [l] := by
  rw [Body.Follows] at h
  rcases h with ⟨hhost, hbrace, hitems⟩
  have hblock := formsBlock_mkBlock hbrace hitems hkind
  cases host with
  | phrase p =>
      rw [Host.Follows] at hhost
      have hfirst : firstOf [mkBlock brace items l] next = brace.token := by
        simp [firstOf, leaves_mkBlock]
      have hpart : FormsPart p.frame (lastToken p.leaves) next (mkBlock brace items l) := by
        show FormsPart _ _ _ (.node 0 .block (.leaf brace :: (items.reverse ++ [.leaf l])))
        rw [FormsPart]
        exact ⟨hhost.2, hblock⟩
      rw [closeBlock]
      refine ⟨⟨?_, begun_push p _⟩, ?_⟩
      · apply follows_push_node _ hpart
        have hfollows := hhost.1
        rw [← hfirst] at hfollows
        exact hfollows
      · simp [State.leaves, leaves_push, leaves_mkBlock, Body.leaves, Host.leaves]
  | doBody outer keyword =>
      rw [Host.Follows] at hhost
      rw [closeBlock]
      refine ⟨⟨hhost.1, hhost.2, hblock, ?_⟩, ?_⟩
      · rw [List.reverse_nil, FormsClauses]
        trivial
      · simp [State.leaves, leaves_mkBlock, Body.leaves, Host.leaves]
  | clauseBody outer keyword body clauses catchKeyword taken =>
      rw [Host.Follows] at hhost
      rcases hhost with ⟨houter, hdo, hcatch, htaken⟩
      rw [closeBlock]
      refine ⟨⟨houter, hdo.1, hdo.2.1, ?_⟩, ?_⟩
      · rw [List.reverse_cons, formsClauses_append]
        refine ⟨hdo.2.2, ?_⟩
        show FormsClauses [.node 0 .catchClause (.leaf catchKeyword ::
          (taken.reverse.map Tree.leaf ++ [mkBlock brace items l]))]
        rw [FormsClauses, FormsClauses]
        refine ⟨hcatch, ?_, trivial⟩
        apply formsPattern_of_leaves hblock
        intro m hm
        exact htaken m (List.mem_reverse.mp hm)
      · simp [State.leaves, leaves_mkBlock, leaves_mkClause, leavesOf_append, Body.leaves,
          Host.leaves]

/-!
# Reading a token

A token that is no mark is a part on its own.  A mark stands behind a bare `try` only, where the
state waits for it.
-/

theorem pushAt_depth (p : Phrase) (x : Tree) : p.pushAt p.depth x = p.push x := by
  cases p <;> rfl

theorem kind_of_opens {k : TokenKind} (h : k.opens = true) :
    k.closes = false ∧ k.marksTry = false := by
  cases k <;> simp [TokenKind.opens] at h <;> exact ⟨rfl, rfl⟩

theorem kind_of_closes {k : TokenKind} (h : k.closes = true) : k.marksTry = false := by
  cases k <;> simp [TokenKind.closes] at h <;> rfl

/-- A leaf opens a block, opens an operand, is a mark, or is a part on its own. -/
theorem readInPhrase_cases {p : Phrase} {l : Leaf} {s : State} (hs : readInPhrase p l = .ok s) :
    (l.token.kind = .leftBrace ∧ s = .between (.block (.phrase p) l [])) ∨
    (l.token.isKeyword "try" = true ∧ s = .phrase (.operand p l none [] 0)) ∨
    (∃ outer keyword depth, p = .operand outer keyword none [] depth ∧
      l.token.kind.marksTry = true ∧ s = .phrase (.operand outer keyword (some l) [] depth)) ∨
    (l.token.kind ≠ .leftBrace ∧ l.token.isKeyword "try" = false ∧
      (l.token.kind.closes = true → 0 < p.depth) ∧
      (l.token.kind.marksTry = true → ¬ (State.phrase p).AwaitsMark) ∧
      s = .phrase (p.pushAt (Frame.depthAfter p.depth l.token) (.leaf l))) := by
  unfold readInPhrase at hs
  split at hs
  · next hbrace =>
      cases hs
      exact .inl ⟨by simpa using hbrace, rfl⟩
  next hbrace =>
  split at hs
  · next htry =>
      cases hs
      exact .inr (.inl ⟨htry, rfl⟩)
  next htry =>
  have hbrace' : l.token.kind ≠ .leftBrace := by simpa using hbrace
  have htry' : l.token.isKeyword "try" = false := by simpa using htry
  split at hs
  · next hopens =>
      cases hs
      refine .inr (.inr (.inr ⟨hbrace', htry', ?_, ?_, ?_⟩))
      · intro h
        rw [(kind_of_opens hopens).1] at h
        cases h
      · intro h
        rw [(kind_of_opens hopens).2] at h
        cases h
      · rw [Frame.depthAfter, if_pos hopens]
  next hopens =>
  split at hs
  · next hcloses =>
      split at hs
      · cases hs
      · next depth hdepth =>
          cases hs
          refine .inr (.inr (.inr ⟨hbrace', htry', ?_, ?_, ?_⟩))
          · intro _
            rw [hdepth]
            exact Nat.succ_pos depth
          · intro h
            rw [kind_of_closes hcloses] at h
            cases h
          · rw [Frame.depthAfter, if_neg hopens, if_pos hcloses, hdepth]
            rfl
  next hcloses =>
  have hdepth : Frame.depthAfter p.depth l.token = p.depth := by
    rw [Frame.depthAfter, if_neg hopens, if_neg hcloses]
  split at hs
  · next outer keyword depth =>
      split at hs
      · next hmark =>
          cases hs
          exact .inr (.inr (.inl ⟨outer, keyword, depth, rfl, hmark, rfl⟩))
      · next hmark =>
          cases hs
          refine .inr (.inr (.inr ⟨hbrace', htry', fun h => absurd h hcloses,
            fun h => absurd h hmark, ?_⟩))
          rw [hdepth, pushAt_depth]
  · next hnot =>
      cases hs
      refine .inr (.inr (.inr ⟨hbrace', htry', fun h => absurd h hcloses, ?_, ?_⟩))
      · intro _ hawaits
        unfold State.AwaitsMark at hawaits
        split at hawaits
        · next heq =>
            cases heq
            exact hnot _ _ _ rfl
        · next heq => cases heq
        · exact hawaits
      · rw [hdepth, pushAt_depth]

theorem readInPhrase_follows {p : Phrase} {l : Leaf} {s : State} (next : Token)
    (hp : p.Follows l.token) (hstays : p.frame.ends (lastToken p.leaves) l.token = false)
    (hend : l.token.kind ≠ .endOfFile)
    (hmark : l.token.kind.marksTry = true → (State.phrase p).AwaitsMark)
    (hdo : ¬ p.Begun → l.token.isKeyword "do" = true → next.kind ≠ .leftBrace)
    (hs : readInPhrase p l = .ok s) :
    s.Follows next ∧ s.leaves = p.leaves ++ [l] ∧
      (l.token.isKeyword "try" = true → s.AwaitsMark) := by
  -- One case for each thing that a leaf can be in a phrase.
  rcases readInPhrase_cases hs with ⟨hbrace, rfl⟩ | ⟨htry, rfl⟩ |
    ⟨outer, keyword, depth, rfl, hmarks, rfl⟩ | ⟨hbrace, htry, hcloses, hmarks, rfl⟩
  · refine ⟨⟨⟨hp, hstays⟩, hbrace, trivial⟩, ?_, ?_⟩
    · simp [State.leaves, Body.leaves, Host.leaves]
    · intro htry
      simp [Token.isKeyword, hbrace] at htry
  · refine ⟨⟨⟨hp, hstays, htry, ?_, trivial, rfl⟩, trivial⟩, ?_, fun _ => trivial⟩
    · intro m hm
      cases hm
    · simp [State.leaves, Phrase.leaves]
  · rw [Phrase.Follows] at hp
    rcases hp with ⟨houter, houterStays, hkeyword, _, _, hdepth⟩
    refine ⟨⟨⟨houter, houterStays, hkeyword, ?_, trivial, hdepth⟩, trivial⟩, ?_, ?_⟩
    · intro m hm
      cases hm
      exact hmarks
    · simp [State.leaves, Phrase.leaves]
    · intro htry
      simp only [Token.isKeyword, Bool.and_eq_true, beq_iff_eq] at htry
      rw [htry.1] at hmarks
      cases hmarks
  · have hplain : l.token.kind.marksTry = false := by
      cases hcase : l.token.kind.marksTry with
      | false => rfl
      | true => exact absurd (hmark hcase) (hmarks hcase)
    have hx : FormsPart p.frame (lastToken p.leaves) next (.leaf l) := by
      rw [FormsPart]
      rw [p.depth_eq] at hcloses
      exact ⟨hstays, hbrace, hend, htry, hplain, hcloses⟩
    have hafter : Frame.depthAfter p.depth l.token = (p.frame.after (.leaf l)).depth := by
      rw [p.depth_eq]
      rfl
    rw [hafter]
    refine ⟨⟨follows_pushAt hp hx hdo, begun_pushAt p _ _⟩, leaves_pushAt p _ _, ?_⟩
    intro h
    rw [htry] at h
    cases h

theorem leaves_statement_nil (b : Body) (condition : Bool) (depth : Nat) :
    (Phrase.statement b condition [] depth).leaves = b.leaves := by
  simp [Phrase.leaves]

/-- A statement may start where an item may start, except at a brace, a semicolon or the end. -/
theorem statement_follows {b : Body} {l : Leaf} (hb : b.Follows l.token)
    (hend : l.token.kind ≠ .endOfFile) (hbrace : l.token.kind ≠ .rightBrace)
    (hsemicolon : l.token.kind ≠ .semicolon) :
    (Phrase.statement b (startsCondition l.token) [] 0).Follows l.token ∧
      (Phrase.statement b (startsCondition l.token) [] 0).frame.ends
        (lastToken (Phrase.statement b (startsCondition l.token) [] 0).leaves) l.token = false := by
  constructor
  · refine ⟨hb, rfl, ?_, trivial, rfl⟩
    intro hkeyword hopens
    simp [secondOf, Token.isKeyword] at hkeyword hopens
    rw [hkeyword.1] at hopens
    cases hopens
  · simp [Phrase.frame, Frame.ends, hbrace, hsemicolon, hend]

theorem readBetween_follows {nextToken : Option Token} {l : Leaf} {b : Body} {next : Token}
    {s : State} (hnext : nextToken.any (·.kind == .leftBrace) = (next.kind == .leftBrace))
    (hb : b.Follows l.token) (hend : l.token.kind ≠ .endOfFile)
    (hmark : l.token.kind.marksTry = false) (hs : readBetween nextToken l b = .ok s) :
    s.Follows next ∧ s.leaves = b.leaves ++ [l] ∧
      (l.token.isKeyword "try" = true → s.AwaitsMark) := by
  have hnotTry : ∀ k, l.token.kind = k → k ≠ .keyword → l.token.isKeyword "try" = true →
      s.AwaitsMark := by
    intro k hk hne htry
    simp only [Token.isKeyword, Bool.and_eq_true, beq_iff_eq] at htry
    exact absurd (hk.symm.trans htry.1) hne
  unfold readBetween at hs
  split at hs
  · next hbrace =>
      have hkind : l.token.kind = .rightBrace := by simpa using hbrace
      cases b with
      | file items => cases hs
      | block host brace items =>
          cases hs
          have hclose := closeBlock_follows next hb hkind
          exact ⟨hclose.1, hclose.2, hnotTry _ hkind (by decide)⟩
  next hbrace =>
  split at hs
  · next hsemicolon =>
      cases hs
      have hkind : l.token.kind = .semicolon := by simpa using hsemicolon
      refine ⟨?_, ?_, hnotTry _ hkind (by decide)⟩
      · exact follows_push_mkItem_semicolon hb (formsContent_empty hkind) hkind
      · rw [State.leaves, lastToken_body_push, leaves_mkItem]
        rfl
  next hsemicolon =>
  split at hs
  · next hdo =>
      cases hs
      rw [Bool.and_eq_true, hnext, beq_iff_eq] at hdo
      refine ⟨⟨⟨hb, hdo.1⟩, hdo.2⟩, rfl, ?_⟩
      intro htry
      simp only [Token.isKeyword, Bool.and_eq_true, beq_iff_eq] at htry hdo
      exact absurd (hdo.1.2.symm.trans htry.2) (by decide)
  next hdo =>
  have hstart := statement_follows hb hend (by simpa using hbrace) (by simpa using hsemicolon)
  have hstep := readInPhrase_follows next hstart.1 hstart.2 hend
    (fun h => by rw [hmark] at h; cases h)
    (fun _ hkeyword => by simpa [hkeyword, hnext] using hdo) hs
  rw [leaves_statement_nil] at hstep
  exact hstep

end Parser
end ForceTry

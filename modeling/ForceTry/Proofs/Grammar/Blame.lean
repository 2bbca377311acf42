import ForceTry.Proofs.Grammar.Run

/-!
# What the parser blames

When a file has no tree, one token is to blame.  This module says in terms of the grammar which token
that is: what stands in front of it follows the grammar, and it cannot go on there.  The invariant of a
run gives this wherever a step fails.
-/

namespace ForceTry
namespace Parser

open ForceTry.Grammar ForceTry.Tree

/-!
# Places in a file that has been read up to a token
-/

/-- In front of the token `next` the leaves are complete items, of the file or of the innermost block
that is open. -/
inductive ItemsRead (next : Token) : List Leaf → Prop where
  | file {items : List Tree} (hitems : FormsItems none next items) :
      ItemsRead next (leavesOf items)
  | block {before : List Leaf} {brace : Leaf} {items : List Tree}
      (hbrace : brace.token.kind = .leftBrace)
      (hitems : FormsItems (some brace.token) next items) :
      ItemsRead next (before ++ brace :: leavesOf items)

/-- In front of the token `next` the leaves end within a phrase, which `f` describes. -/
inductive PhraseRead : Frame → List Leaf → Token → Prop where
  | statement {before : List Leaf} {parts : List Tree} {next : Token}
      (hbefore : ItemsRead (firstOf parts next) before)
      (hparts : FormsParts (Frame.statement (startsCondition (firstOf parts next)))
        (lastToken before) next parts) :
      PhraseRead ((Frame.statement (startsCondition (firstOf parts next))).afterAll parts)
        (before ++ leavesOf parts) next
  | operand {f : Frame} {before : List Leaf} {keyword : Leaf} {mark : Option Leaf}
      {parts : List Tree} {next : Token} (hbefore : PhraseRead f before keyword.token)
      (hstays : f.ends (lastToken before) keyword.token = false)
      (hkeyword : keyword.token.isKeyword "try" = true)
      (hmark : ∀ m ∈ mark, m.token.kind.marksTry = true)
      (hparts : FormsParts f.operand (some ((mark.map Leaf.token).getD keyword.token)) next parts) :
      PhraseRead (f.operand.afterAll parts) (before ++ keyword :: mark.toList ++ leavesOf parts) next

/-- The leaf is to blame for the reason, with `before` in front of it and `behind` behind it. -/
inductive Blames : SyntaxReason → List Leaf → Leaf → List Leaf → Prop where
  /-- the brace of a block: only complete items stand between it and the end of the file -/
  | unclosedBlock {before : List Leaf} {brace ending : Leaf} {items : List Tree}
      (hbrace : brace.token.kind = .leftBrace)
      (hitems : FormsItems (some brace.token) ending.token items)
      (hending : ending.token.kind = .endOfFile) :
      Blames .unclosedBlock before brace (leavesOf items ++ [ending])
  /-- a closing brace where no block is open -/
  | strayBrace {items : List Tree} {l : Leaf} {behind : List Leaf}
      (hl : l.token.kind = .rightBrace) (hitems : FormsItems none l.token items) :
      Blames .strayBrace (leavesOf items) l behind
  /-- a closing bracket in a phrase that goes on and has no open bracket -/
  | strayBracket {f : Frame} {before : List Leaf} {l : Leaf} {behind : List Leaf}
      (hl : l.token.kind.closes = true) (hphrase : PhraseRead f before l.token)
      (hdepth : f.depth = 0) (hstays : f.ends (lastToken before) l.token = false) :
      Blames (.strayBracket l.token.text) before l behind
  /-- the token behind a `try` and its mark, where the operand ends before it has begun -/
  | missingOperand {f : Frame} {before : List Leaf} {keyword : Leaf} {mark : Option Leaf} {l : Leaf}
      {behind : List Leaf} (hbefore : PhraseRead f before keyword.token)
      (hkeyword : keyword.token.isKeyword "try" = true)
      (hmark : ∀ m ∈ mark, m.token.kind.marksTry = true)
      (hends : f.operand.ends (some ((mark.map Leaf.token).getD keyword.token)) l.token = true) :
      Blames .missingOperand (before ++ keyword :: mark.toList) l behind
  /-- a closing brace or the end of the file behind `catch` and its pattern -/
  | missingClauseBody {before : List Leaf} {keyword : Leaf} {body : Tree} {clauses : List Tree}
      {catchKeyword : Leaf} {pattern : List Leaf} {l : Leaf} {behind : List Leaf}
      (hbefore : ItemsRead keyword.token before) (hkeyword : keyword.token.isKeyword "do" = true)
      (hbody : FormsBlock body) (hclauses : FormsClauses clauses)
      (hcatch : catchKeyword.token.isKeyword "catch" = true)
      (hpattern : ∀ m ∈ pattern, IsPatternLeaf m)
      (hl : l.token.kind = .rightBrace ∨ l.token.kind = .endOfFile) :
      Blames .missingClauseBody
        (before ++ keyword :: body.leaves ++ leavesOf clauses ++ catchKeyword :: pattern) l behind
  /-- the end of the file within brackets -/
  | unbalancedBrackets {f : Frame} {before : List Leaf} {ending : Leaf}
      (hphrase : PhraseRead f before ending.token) (hdepth : 0 < f.depth)
      (hending : ending.token.kind = .endOfFile) :
      Blames .unbalancedBrackets before ending []

/-- The complaint names a leaf of the file that is to blame for its reason. -/
def Blamed (ls : List Leaf) (c : Complaint) : Prop :=
  ∃ before l behind, ls = before ++ l :: behind ∧ c.2 = l.label ∧ Blames c.1 before l behind

/-!
# What the invariant says of these places
-/

theorem itemsRead_of_follows {b : Body} {next : Token} (h : b.Follows next) :
    ItemsRead next b.leaves := by
  cases b with
  | file items => exact ItemsRead.file h
  | block host brace items =>
      rw [Body.Follows] at h
      exact ItemsRead.block h.2.1 h.2.2

theorem phraseRead_of_follows (p : Phrase) :
    ∀ next : Token, p.Follows next → PhraseRead p.frame p.leaves next := by
  cases p with
  | statement outer condition parts depth =>
      intro next h
      rw [Phrase.Follows] at h
      rcases h with ⟨houter, hcondition, _, hforms, hdepth⟩
      rw [frame_eq_of_statement outer hdepth, Phrase.leaves, hcondition]
      rw [hcondition] at hforms
      exact PhraseRead.statement (itemsRead_of_follows houter) hforms
  | operand outer keyword mark parts depth =>
      intro next h
      rw [Phrase.Follows] at h
      rcases h with ⟨houter, hstays, htry, hmark, hforms, hdepth⟩
      have houter' := phraseRead_of_follows outer keyword.token houter
      rw [frame_eq_of_operand keyword mark hdepth, Phrase.leaves]
      exact PhraseRead.operand houter' hstays htry hmark hforms
termination_by structural p

variable {previous : Option Token} {l ending : Leaf} {pending behind : List Leaf} {c : Complaint}

theorem blamed_of_blames {ls before : List Leaf} {reason : SyntaxReason} (hls : ls = before ++ l :: behind)
    (h : Blames reason before l behind) : Blamed ls (reason, l.label) :=
  ⟨before, l, behind, hls, rfl, h⟩

theorem blames_empty_operand {outer : Phrase} {keyword : Leaf} {mark : Option Leaf} {depth : Nat}
    (behind : List Leaf) (h : (Phrase.operand outer keyword mark [] depth).Follows l.token)
    (hends : (Phrase.operand outer keyword mark [] depth).frame.ends
      (lastToken (Phrase.operand outer keyword mark [] depth).leaves) l.token = true) :
    Blames .missingOperand (Phrase.operand outer keyword mark [] depth).leaves l behind := by
  rw [Phrase.Follows] at h
  rcases h with ⟨houter, _, htry, hmark, _, hdepth⟩
  rw [frame_eq_of_operand keyword mark hdepth, lastToken_operand] at hends
  have hleaves : (Phrase.operand outer keyword mark [] depth).leaves =
      outer.leaves ++ keyword :: mark.toList := by
    simp [Phrase.leaves]
  rw [hleaves]
  exact Blames.missingOperand (phraseRead_of_follows outer _ houter) htry hmark hends

theorem blames_pattern {outer : Body} {keyword : Leaf} {body : Tree} {clauses : List Tree}
    {catchKeyword : Leaf} {taken : List Leaf} (behind : List Leaf)
    (houter : outer.Follows keyword.token) (hdo : DoFollows keyword body clauses)
    (hcatch : catchKeyword.token.isKeyword "catch" = true) (htaken : ∀ m ∈ taken, IsPatternLeaf m)
    (hl : l.token.kind = .rightBrace ∨ l.token.kind = .endOfFile) :
    Blames .missingClauseBody
      (State.pattern outer keyword body clauses catchKeyword taken).leaves l behind := by
  rcases hdo with ⟨hkeyword, hbody, hclauses⟩
  exact Blames.missingClauseBody (itemsRead_of_follows houter) hkeyword hbody hclauses hcatch
    (fun m hm => htaken m (List.mem_reverse.mp hm)) hl

/-!
# Steps that fail
-/

theorem settlePhrase_error (hline : previous.any (·.trailing.containsNewline) = false)
    (hkind : l.token.kind ≠ .endOfFile) (p : Phrase) :
    ∀ pending : List Tree, settlePhrase previous l pending p = .error c →
      pending = [] ∧ c = (.missingOperand, l.label) ∧
      ∃ outer keyword mark depth, p = .operand outer keyword mark [] depth ∧
        p.frame.ends previous l.token = true := by
  cases p with
  | statement outer condition parts depth =>
      intro pending h
      rw [settlePhrase] at h
      split at h <;> cases h
  | operand outer keyword mark parts depth =>
      intro pending h
      cases hends : (Phrase.operand outer keyword mark (pending ++ parts) depth).frame.ends previous
          l.token with
      | false =>
          rw [settlePhrase_of_stays hline hkind (by rw [Phrase.pushAll, hends])] at h
          cases h
      | true =>
          rw [settlePhrase_operand_of_ends hline hkind hends] at h
          split at h
          · next hempty =>
              cases h
              rw [List.isEmpty_iff, List.append_eq_nil_iff] at hempty
              rcases hempty with ⟨rfl, rfl⟩
              exact ⟨rfl, rfl, outer, keyword, mark, depth, rfl, hends⟩
          · have hrec := settlePhrase_error hline hkind outer _ h
            exact absurd hrec.1 (List.cons_ne_nil _ _)
termination_by structural p

theorem settle_blames {s : State} {ls : List Leaf} (h : Stands ending previous s (l :: ls))
    (hs : settle previous l s = .error c) (behind : List Leaf) :
    Blamed (s.leaves ++ l :: behind) c := by
  have hkind := h.ordinary.1.1
  cases s with
  | phrase p =>
      rcases settlePhrase_error h.unbroken hkind p [] hs with
        ⟨_, rfl, outer, keyword, mark, depth, rfl, hends⟩
      have hlast : previous = lastToken (Phrase.operand outer keyword mark [] depth).leaves := h.last
      rw [hlast] at hends
      exact blamed_of_blames rfl (blames_empty_operand behind h.follows.1 hends)
  | afterBlock outer keyword body clauses =>
      rw [settle] at hs
      split at hs <;> cases hs
  | between b => cases hs
  | opening host => cases hs
  | pattern outer keyword body clauses catchKeyword taken => cases hs
  | ended outer content => cases hs

theorem readInPhrase_blames {p : Phrase} (hp : p.Follows l.token)
    (hstays : p.frame.ends (lastToken p.leaves) l.token = false) (h : readInPhrase p l = .error c)
    (behind : List Leaf) : Blamed (p.leaves ++ l :: behind) c := by
  unfold readInPhrase at h
  split at h
  · cases h
  split at h
  · cases h
  split at h
  · cases h
  split at h
  · next hcloses =>
      split at h
      · next hdepth =>
          cases h
          rw [p.depth_eq] at hdepth
          exact blamed_of_blames rfl
            (Blames.strayBracket hcloses (phraseRead_of_follows p _ hp) hdepth hstays)
      · cases h
  split at h
  · split at h <;> cases h
  · cases h

theorem readBetween_blames {next : Option Token} {b : Body} (hb : b.Follows l.token)
    (hend : l.token.kind ≠ .endOfFile) (h : readBetween next l b = .error c) (behind : List Leaf) :
    Blamed (b.leaves ++ l :: behind) c := by
  unfold readBetween at h
  split at h
  · next hbrace =>
      cases b with
      | file items =>
          cases h
          exact blamed_of_blames rfl (Blames.strayBrace (eq_of_beq hbrace) hb)
      | block host brace items => cases h
  next hbrace =>
  split at h
  · cases h
  next hsemicolon =>
  split at h
  · cases h
  have hstart := statement_follows hb hend (by simpa using hbrace) (by simpa using hsemicolon)
  have hblamed := readInPhrase_blames hstart.1 hstart.2 h behind
  rwa [leaves_statement_nil] at hblamed

theorem read_blames {next : Option Token} {s : State} (hend : l.token.kind ≠ .endOfFile)
    (h : s.Follows l.token) (hsettled : s.Settled l.token) (hs : read next l s = .error c)
    (behind : List Leaf) : Blamed (s.leaves ++ l :: behind) c := by
  cases s with
  | between b => exact readBetween_blames h hend hs behind
  | phrase p => exact readInPhrase_blames h.1 hsettled hs behind
  | opening host => cases hs
  | afterBlock outer keyword body clauses => cases hs
  | pattern outer keyword body clauses catchKeyword taken =>
      rcases h with ⟨houter, hdo, hcatch, htaken⟩
      rw [read] at hs
      split at hs
      · cases hs
      split at hs
      · next hright =>
          cases hs
          exact blamed_of_blames rfl (blames_pattern behind houter hdo hcatch htaken
            (Or.inl (eq_of_beq hright)))
      · cases hs
  | ended outer content =>
      rw [read] at hs
      split at hs
      · cases hs
      · next hsemicolon =>
          have hb := follows_push_mkItem h (by simpa using hsemicolon)
          have hblamed := readBetween_blames hb hend hs behind
          rw [lastToken_body_push, leaves_mkItem, Option.toList_none, List.append_nil] at hblamed
          exact hblamed

theorem run_blames (hend : ending.token.kind = .endOfFile) (ls : List Leaf) :
    ∀ (previous : Option Token) (s : State), Stands ending previous s ls →
      run previous s ls = .error c → Blamed (s.leaves ++ ls ++ [ending]) c := by
  induction ls with
  | nil =>
      intro previous s _ hs
      cases hs
  | cons l ls ih =>
      intro previous s h hs
      rw [List.append_assoc, List.cons_append]
      rw [run, bind_eq_error] at hs
      rcases hs with hsettle | ⟨settled, hsettle, hs⟩
      · exact settle_blames h hsettle _
      rw [bind_eq_error] at hs
      rcases hs with hread | ⟨s₁, hread, hs⟩
      · rcases h.settle hsettle with ⟨hfollows, hsettled, hleaves, _⟩
        rw [← hleaves]
        exact read_blames h.ordinary.1.1 hfollows hsettled hread _
      · rcases h.step hend hsettle hread with ⟨h₁, hleaves⟩
        have hblamed := ih (some l.token) s₁ h₁ hs
        rw [hleaves, List.append_assoc, List.append_assoc] at hblamed
        exact hblamed

/-!
# The end of the file
-/

theorem closePhrase_blames (hend : ending.token.kind = .endOfFile) (p : Phrase) :
    ∀ pending : List Tree, (p.pushAll pending).Follows ending.token →
      closePhrase ending pending p = .error c →
      Blamed ((p.pushAll pending).leaves ++ [ending]) c := by
  cases p with
  | statement outer condition parts depth =>
      intro pending h hs
      rw [closePhrase] at hs
      split at hs
      · cases hs
      · next hdepth =>
          cases hs
          exact blamed_of_blames rfl (Blames.unbalancedBrackets (phraseRead_of_follows _ _ h)
            (Nat.pos_of_ne_zero (by simpa [Phrase.pushAll, Phrase.frame] using hdepth)) hend)
  | operand outer keyword mark parts depth =>
      intro pending h hs
      rw [closePhrase] at hs
      split at hs
      · next hdepth =>
          have hends : ((Phrase.operand outer keyword mark parts depth).pushAll
              pending).frame.ends (lastToken ((Phrase.operand outer keyword mark parts
                depth).pushAll pending).leaves) ending.token = true :=
            ends_of_endOfFile _ hend (by simpa [Phrase.pushAll, Phrase.frame] using hdepth)
          split at hs
          · next hempty =>
              cases hs
              rw [List.isEmpty_iff] at hempty
              rw [Phrase.pushAll, hempty] at h hends ⊢
              exact blamed_of_blames rfl (blames_empty_operand [] h hends)
          · next hparts =>
              have hne : pending ++ parts ≠ [] := by simpa using hparts
              have houter := follows_push_mkTry h hne hends
              have hleaves := leaves_pushAll_mkTry outer keyword mark pending parts depth
              rw [← hleaves]
              apply closePhrase_blames hend outer
              · rw [Phrase.pushAll_singleton]
                exact houter
              · exact hs
      · next hdepth =>
          cases hs
          exact blamed_of_blames rfl (Blames.unbalancedBrackets (phraseRead_of_follows _ _ h)
            (Nat.pos_of_ne_zero (by simpa [Phrase.pushAll, Phrase.frame] using hdepth)) hend)
termination_by structural p

theorem closeAll_blames {s : State} (hend : ending.token.kind = .endOfFile)
    (h : s.Follows ending.token) (hs : closeAll ending s = .error c) :
    Blamed (s.leaves ++ [ending]) c := by
  cases s with
  | between b => cases hs
  | phrase p =>
      rw [closeAll, bind_eq_error] at hs
      rcases hs with hclose | ⟨closed, _, hs⟩
      · have hfollows := h.1
        rw [← Phrase.pushAll_nil p] at hfollows
        have hblamed := closePhrase_blames hend p [] hfollows hclose
        rwa [Phrase.pushAll_nil] at hblamed
      · cases hs
  | opening host =>
      have hbrace := h.2
      rw [hend] at hbrace
      cases hbrace
  | afterBlock outer keyword body clauses => cases hs
  | pattern outer keyword body clauses catchKeyword taken =>
      rcases h with ⟨houter, hdo, hcatch, htaken⟩
      cases hs
      exact blamed_of_blames rfl (blames_pattern [] houter hdo hcatch htaken (Or.inr hend))
  | ended outer content => cases hs

theorem parse_blames {body : List Leaf} (hend : ending.token.kind = .endOfFile)
    (hordinary : Tokens.Ordinary none (body.map Leaf.token)) (h : parse body ending = .error c) :
    Blamed (body ++ [ending]) c := by
  have hstart := stands_start ending hordinary
  rw [parse, bind_eq_error] at h
  rcases h with hrun | ⟨s, hrun, h⟩
  · exact run_blames hend body none _ hstart hrun
  rcases run_follows hend body none _ s hstart hrun with ⟨hfollows, hleaves⟩
  have hbody : s.leaves = body := hleaves
  rw [finish, bind_eq_error] at h
  rcases h with hclose | ⟨b, hclose, h⟩
  · have hblamed := closeAll_blames hend hfollows hclose
    rwa [hbody] at hblamed
  · have hall := closeAll_follows hend hfollows hclose
    cases b with
    | file items => cases h
    | block host brace items =>
        cases h
        rw [Body.Follows] at hall
        rcases hall with ⟨⟨_, hbrace, hitems⟩, hleaves⟩
        rw [← hbody, ← hleaves, Body.leaves, List.append_assoc, List.cons_append]
        exact blamed_of_blames rfl (Blames.unclosedBlock hbrace hitems hend)

end Parser
end ForceTry

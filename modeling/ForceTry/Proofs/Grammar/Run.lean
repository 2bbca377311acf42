import ForceTry.Proofs.Computation
import ForceTry.Proofs.Grammar.Steps
import ForceTry.Proofs.Token.Reading

/-!
# What a whole run does

A step closes what ends before a token and reads the token.  Both keep the invariant, so it holds
behind every token of a file, and the end of the file turns what is open into the tree.
-/

namespace ForceTry
namespace Parser

open ForceTry.Grammar ForceTry.Tree

/-!
# Steps
-/

theorem follows_mkDo {outer : Body} {keyword : Leaf} {body : Tree} {clauses : List Tree}
    {next : Token} (h : (State.afterBlock outer keyword body clauses).Follows next)
    (hcatch : next.isKeyword "catch" = false) :
    (State.ended outer (mkDo keyword body clauses)).Follows next ∧
      (State.ended outer (mkDo keyword body clauses)).leaves =
        (State.afterBlock outer keyword body clauses).leaves := by
  rcases h with ⟨houter, hdo⟩
  have hfirst : firstOf [mkDo keyword body clauses] next = keyword.token := by
    simp [firstOf, leaves_mkDo]
  refine ⟨⟨?_, ?_⟩, ?_⟩
  · rw [hfirst]
    exact houter
  · rw [mkDo, mkNode, FormsContent]
    exact ⟨hdo.1, hdo.2.1, hdo.2.2, hcatch⟩
  · simp [State.leaves, leaves_mkDo]

theorem settle_follows {previous : Option Token} {l : Leaf} {s s' : State}
    (hline : previous.any (·.trailing.containsNewline) = false)
    (hkind : l.token.kind ≠ .endOfFile) (hprevious : previous = lastToken s.leaves)
    (h : s.Follows l.token) (hs : settle previous l s = .ok s') :
    s'.Follows l.token ∧ s'.Settled l.token ∧ s'.leaves = s.leaves := by
  cases s with
  | phrase p =>
      have hstep := settlePhrase_follows hline hkind p [] s'
      rw [Phrase.pushAll_nil] at hstep
      exact hstep hprevious h.1 h.2 hs
  | afterBlock outer keyword body clauses =>
      rw [settle] at hs
      split at hs
      · next hcatch =>
          cases hs
          exact ⟨h, hcatch, rfl⟩
      · next hcatch =>
          cases hs
          have hended := follows_mkDo h (Bool.eq_false_iff.mpr hcatch)
          exact ⟨hended.1, trivial, hended.2⟩
  | between b =>
      cases hs
      exact ⟨h, trivial, rfl⟩
  | opening host =>
      cases hs
      exact ⟨h, trivial, rfl⟩
  | pattern outer keyword body clauses catchKeyword taken =>
      cases hs
      exact ⟨h, trivial, rfl⟩
  | ended outer content =>
      cases hs
      exact ⟨h, trivial, rfl⟩

theorem settle_of_awaitsMark {previous : Option Token} {l : Leaf} {s s' : State}
    (hfollows : s.Follows l.token) (hawaits : s.AwaitsMark)
    (hmark : l.token.kind.marksTry = true) (hs : settle previous l s = .ok s') : s' = s := by
  cases s with
  | phrase p =>
      cases p with
      | statement outer condition parts depth => exact absurd hawaits id
      | operand outer keyword mark parts depth =>
          cases mark with
          | some m => exact absurd hawaits id
          | none =>
              cases parts with
              | cons part parts => exact absurd hawaits id
              | nil =>
                  have hplain : (endsPhrase previous l.token (!([] : List Tree).isEmpty)
                      (outer.endsWithLine && outer.depth == 0) ||
                      endsOperand l.token outer.inCondition) = false := by
                    cases hkind : l.token.kind <;> rw [hkind] at hmark <;> cases hmark <;>
                      simp [endsPhrase, endsOperand, Token.isKeyword, TokenKind.closes, hkind]
                  rw [settle, settlePhrase] at hs
                  simp only [List.nil_append] at hs
                  rw [hplain, Bool.and_false, if_neg Bool.false_ne_true] at hs
                  cases hs
                  rfl
  | pattern outer keyword body clauses catchKeyword taken =>
      cases hs
      rfl
  | between b => exact absurd hawaits id
  | opening host => exact absurd hawaits id
  | afterBlock outer keyword body clauses => exact absurd hawaits id
  | ended outer content => exact absurd hawaits id

theorem read_follows {nextToken : Option Token} {l : Leaf} {next : Token} {s s' : State}
    (hnext : nextToken.any (·.kind == .leftBrace) = (next.kind == .leftBrace))
    (hend : l.token.kind ≠ .endOfFile) (h : s.Follows l.token) (hsettled : s.Settled l.token)
    (hmark : l.token.kind.marksTry = true → s.AwaitsMark) (hs : read nextToken l s = .ok s') :
    s'.Follows next ∧ s'.leaves = s.leaves ++ [l] ∧
      (l.token.isKeyword "try" = true → s'.AwaitsMark) := by
  have hunmarked : ¬ s.AwaitsMark → l.token.kind.marksTry = false := by
    intro hnot
    cases hcase : l.token.kind.marksTry with
    | false => rfl
    | true => exact absurd (hmark hcase) hnot
  cases s with
  | between b => exact readBetween_follows hnext h hend (hunmarked id) hs
  | phrase p =>
      exact readInPhrase_follows next h.1 hsettled hend hmark (fun hnot => absurd h.2 hnot) hs
  | opening host =>
      cases hs
      refine ⟨⟨?_, h.2, trivial⟩, ?_, ?_⟩
      · exact h.1
      · simp [State.leaves, Body.leaves]
      · intro htry
        simp [Token.isKeyword, h.2] at htry
  | afterBlock outer keyword body clauses =>
      cases hs
      refine ⟨⟨h.1, h.2, hsettled, ?_⟩, ?_, fun _ => trivial⟩
      · intro m hm
        cases hm
      · simp [State.leaves]
  | pattern outer keyword body clauses catchKeyword taken =>
      rcases h with ⟨houter, hdo, hcatch, htaken⟩
      rw [read] at hs
      split at hs
      · next hbrace =>
          cases hs
          have hkind : l.token.kind = .leftBrace := by simpa using hbrace
          refine ⟨⟨⟨houter, hdo, hcatch, htaken⟩, hkind, trivial⟩, ?_, ?_⟩
          · simp [State.leaves, Body.leaves, Host.leaves]
          · intro htry
            simp [Token.isKeyword, hkind] at htry
      next hbrace =>
      split at hs
      · cases hs
      next hright =>
      cases hs
      refine ⟨⟨houter, hdo, hcatch, ?_⟩, ?_, fun _ => trivial⟩
      · intro m hm
        rcases List.mem_cons.mp hm with rfl | hm
        · exact ⟨by simpa using hbrace, by simpa using hright, hend⟩
        · exact htaken m hm
      · simp [State.leaves]
  | ended outer content =>
      rw [read] at hs
      split at hs
      · next hsemicolon =>
          cases hs
          have hkind : l.token.kind = .semicolon := by simpa using hsemicolon
          refine ⟨?_, ?_, ?_⟩
          · exact follows_push_mkItem_semicolon h.1 (formsContent_mayBeEmpty h.2) hkind
          · simp [State.leaves, lastToken_body_push, leaves_mkItem]
          · intro htry
            simp [Token.isKeyword, hkind] at htry
      · next hsemicolon =>
          have hb := follows_push_mkItem h (by simpa using hsemicolon)
          have hstep := readBetween_follows hnext hb hend (hunmarked id) hs
          rw [lastToken_body_push, leaves_mkItem, Option.toList_none, List.append_nil] at hstep
          exact hstep

/-!
# Runs

Behind every token the state follows the grammar in front of the token that really comes next, which
behind the last leaf is the end of the file.
-/

def nextOf (ls : List Leaf) (ending : Leaf) : Token := ((ls ++ [ending]).head (by simp)).token

theorem nextOf_brace (ls : List Leaf) {ending : Leaf} (hend : ending.token.kind = .endOfFile) :
    (ls.head?.map Leaf.token).any (·.kind == .leftBrace) =
      ((nextOf ls ending).kind == .leftBrace) := by
  cases ls with
  | nil => simp [nextOf, hend]
  | cons l ls => rfl

/-- A run stands in state `s` behind the token `previous`, with the leaves `ls` and the end of the file
still to be read. -/
structure Stands (ending : Leaf) (previous : Option Token) (s : State) (ls : List Leaf) : Prop where
  ordinary : Tokens.Ordinary previous (ls.map Leaf.token)
  unbroken : previous.any (·.trailing.containsNewline) = false
  last : previous = lastToken s.leaves
  awaits : Token.afterTry previous = true → s.AwaitsMark
  follows : s.Follows (nextOf ls ending)

variable {ending l : Leaf} {previous : Option Token} {s settled s' : State} {ls : List Leaf}

theorem Stands.settle (h : Stands ending previous s (l :: ls))
    (hs : settle previous l s = .ok settled) :
    settled.Follows l.token ∧ settled.Settled l.token ∧ settled.leaves = s.leaves ∧
      (l.token.kind.marksTry = true → settled.AwaitsMark) := by
  rcases h.ordinary with ⟨⟨hkind, _, hmark⟩, _⟩
  have hfollows : s.Follows l.token := h.follows
  have hsettled := settle_follows h.unbroken hkind h.last hfollows hs
  refine ⟨hsettled.1, hsettled.2.1, hsettled.2.2, ?_⟩
  intro hmarks
  rw [settle_of_awaitsMark hfollows (h.awaits (hmark hmarks)) hmarks hs]
  exact h.awaits (hmark hmarks)

theorem Stands.step (hend : ending.token.kind = .endOfFile)
    (h : Stands ending previous s (l :: ls)) (hsettle : Parser.settle previous l s = .ok settled)
    (hread : read (ls.head?.map Leaf.token) l settled = .ok s') :
    Stands ending (some l.token) s' ls ∧ s'.leaves = s.leaves ++ [l] := by
  rcases h.ordinary with ⟨⟨hkind, htrailing, _⟩, hrest⟩
  rcases h.settle hsettle with ⟨hfollows, hsettled, hleaves, hmarks⟩
  have hstep := read_follows (nextOf_brace ls hend) hkind hfollows hsettled hmarks hread
  rw [hleaves] at hstep
  refine ⟨⟨hrest, htrailing, ?_, ?_, hstep.1⟩, hstep.2.1⟩
  · rw [hstep.2.1, lastToken_snoc]
  · intro hafter
    apply hstep.2.2
    simp only [Token.afterTry, Option.any_some, Token.isBareTry, Bool.and_eq_true] at hafter
    exact hafter.1

theorem stands_start {body : List Leaf} (ending : Leaf)
    (hordinary : Tokens.Ordinary none (body.map Leaf.token)) :
    Stands ending none (.between (.file [])) body where
  ordinary := hordinary
  unbroken := rfl
  last := rfl
  awaits := by
    intro hafter
    cases hafter
  follows := trivial

theorem run_follows (hend : ending.token.kind = .endOfFile) (ls : List Leaf) :
    ∀ (previous : Option Token) (s s' : State), Stands ending previous s ls →
      run previous s ls = .ok s' →
      s'.Follows ending.token ∧ s'.leaves = s.leaves ++ ls := by
  induction ls with
  | nil =>
      intro previous s s' h hs
      cases hs
      exact ⟨h.follows, (List.append_nil _).symm⟩
  | cons l ls ih =>
      intro previous s s' h hs
      rw [run, bind_eq_ok] at hs
      rcases hs with ⟨settled, hsettle, hs⟩
      rw [bind_eq_ok] at hs
      rcases hs with ⟨s₁, hread, hs⟩
      rcases h.step hend hsettle hread with ⟨h₁, hleaves⟩
      have hrun := ih (some l.token) s₁ s' h₁ hs
      refine ⟨hrun.1, ?_⟩
      rw [hrun.2, hleaves, List.append_assoc, List.singleton_append]

/-!
# The end of the file
-/

theorem ends_of_endOfFile {f : Frame} (previous : Option Token) {t : Token}
    (ht : t.kind = .endOfFile) (hdepth : f.depth = 0) : f.ends previous t = true := by
  simp [Frame.ends, ht, hdepth]

theorem closePhrase_follows {ending : Leaf} (hend : ending.token.kind = .endOfFile) (p : Phrase) :
    ∀ (pending : List Tree) (outer : Body) (content : Tree),
      (p.pushAll pending).Follows ending.token → (p.pushAll pending).Begun →
      closePhrase ending pending p = .ok (outer, content) →
      (State.ended outer content).Follows ending.token ∧
        (State.ended outer content).leaves = (p.pushAll pending).leaves := by
  cases p with
  | statement outer condition parts depth =>
      intro pending outer' content hfollows hbegun hs
      rw [closePhrase] at hs
      split at hs
      · next hdepth =>
          cases hs
          refine ⟨formsContent_statement hfollows hbegun ?_, ?_⟩
          · exact ends_of_endOfFile _ hend (by simpa [Phrase.frame] using hdepth)
          · simp [State.leaves, Phrase.pushAll, Phrase.leaves, mkNode]
      · cases hs
  | operand outer keyword mark parts depth =>
      intro pending outer' content hfollows hbegun hs
      rw [closePhrase] at hs
      split at hs
      · next hdepth =>
          split at hs
          · cases hs
          · next hparts =>
              have hne : pending ++ parts ≠ [] := by simpa using hparts
              have hends : ((Phrase.operand outer keyword mark parts depth).pushAll
                  pending).frame.ends (lastToken ((Phrase.operand outer keyword mark parts
                    depth).pushAll pending).leaves) ending.token = true :=
                ends_of_endOfFile _ hend (by simpa [Phrase.pushAll, Phrase.frame] using hdepth)
              have houter := follows_push_mkTry hfollows hne hends
              have hleaves := leaves_pushAll_mkTry outer keyword mark pending parts depth
              rw [← hleaves]
              apply closePhrase_follows hend outer [mkTry keyword mark (pending ++ parts)]
              · rw [Phrase.pushAll_singleton]
                exact houter
              · rw [Phrase.pushAll_singleton]
                exact begun_push outer _
              · exact hs
      · cases hs
termination_by structural p

theorem closeAll_follows {ending : Leaf} (hend : ending.token.kind = .endOfFile) {s : State}
    {b : Body} (h : s.Follows ending.token) (hs : closeAll ending s = .ok b) :
    b.Follows ending.token ∧ b.leaves = s.leaves := by
  have hnext : ending.token.kind ≠ .semicolon := by simp [hend]
  have hended : ∀ outer content, (State.ended outer content).Follows ending.token →
      (outer.push (mkItem content none)).Follows ending.token ∧
        (outer.push (mkItem content none)).leaves = (State.ended outer content).leaves := by
    intro outer content hfollows
    refine ⟨follows_push_mkItem hfollows hnext, ?_⟩
    simp [lastToken_body_push, leaves_mkItem, State.leaves]
  cases s with
  | between b =>
      cases hs
      exact ⟨h, rfl⟩
  | phrase p =>
      rw [closeAll, bind_eq_ok] at hs
      rcases hs with ⟨⟨outer, content⟩, hclose, hs⟩
      cases hs
      have hphrase := closePhrase_follows hend p [] outer content
      rw [Phrase.pushAll_nil] at hphrase
      have hdone := hphrase h.1 h.2 hclose
      have hitem := hended outer content hdone.1
      exact ⟨hitem.1, hitem.2.trans hdone.2⟩
  | opening host => cases hs
  | afterBlock outer keyword body clauses =>
      cases hs
      have hdo := follows_mkDo h (by simp [Token.isKeyword, hend])
      have hitem := hended outer _ hdo.1
      exact ⟨hitem.1, hitem.2.trans hdo.2⟩
  | pattern outer keyword body clauses catchKeyword taken => cases hs
  | ended outer content =>
      cases hs
      exact hended outer content h

/-- The tree of a file follows the grammar and holds every leaf once and in order. -/
theorem parse_forms {body : List Leaf} {ending : Leaf} {t : Tree}
    (hend : ending.token.kind = .endOfFile)
    (hordinary : Tokens.Ordinary none (body.map Leaf.token)) (h : parse body ending = .ok t) :
    FormsFile t ∧ t.leaves = body ++ [ending] := by
  rw [parse, bind_eq_ok] at h
  rcases h with ⟨s, hrun, h⟩
  rw [finish, bind_eq_ok] at h
  rcases h with ⟨b, hclose, h⟩
  have hfollows := run_follows hend body none _ s (stands_start ending hordinary) hrun
  have hbody := closeAll_follows hend hfollows.1 hclose
  cases b with
  | block host brace items => cases h
  | file items =>
      cases h
      rw [Body.Follows] at hbody
      constructor
      · show FormsFile (.node 0 .sourceFile (items.reverse ++ [.leaf ending]))
        rw [FormsFile, formsBody_iff]
        exact ⟨items.reverse, ending, rfl, hend, hbody.1⟩
      · have hleaves : leavesOf items.reverse = body := by
          rw [← Body.leaves, hbody.2, hfollows.2]
          rfl
        rw [mkNode, leaves_node, leavesOf_append, hleaves]
        rfl

end Parser
end ForceTry

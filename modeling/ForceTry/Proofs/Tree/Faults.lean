import ForceTry.Fault
import ForceTry.Proofs.Grammar.Blame
import ForceTry.Proofs.Token.Unclosed
import ForceTry.Proofs.Tree.Parsed
import ForceTry.Proofs.Tree.Position

/-!
# Sources without a tree

Every source has a tree or a culprit: a string literal that is never closed, or a token at which what
has been read cannot go on.  The position of the fault denotes the first character of the culprit.
-/

namespace ForceTry

open ForceTry.Parser

namespace Tree

/-- What stands at the offset of a source is to blame for the reason. -/
inductive Culprit (source : Text) : SyntaxReason → Nat → Prop where
  | literal {offset : Nat} (hunclosed : Tokens.UnclosedAt source offset) :
      Culprit source .unterminatedString offset
  | token {ts : Tokens} {reason : SyntaxReason} {before : List Leaf} {l : Leaf} {behind : List Leaf}
      (hts : Tokens.ofText source = .ok ts)
      (hsplit : Tokens.toLeaves 0 ts.toList = before ++ l :: behind)
      (hblames : Blames reason before l behind)
      (htext : ∃ rest, source.drop (l.offset before) = l.token.text ++ rest)
      (hend : l.token.kind = .endOfFile → l.offset before = source.length) :
      Culprit source reason (l.offset before)

/-!
# From labels to places

A complaint names a leaf by its label.  Labels count the tokens, so they lead back to the place.
-/

theorem codeOf_toLeaves (first : Nat) (ts : List Token) :
    Leaf.codeOf (Tokens.toLeaves first ts) = ts.flatMap Token.code := by
  rw [Leaf.codeOf, ← List.flatMap_map Leaf.token, token_toLeaves]

theorem label_of_split {first : Nat} {ts : List Token} {before behind : List Leaf} {l : Leaf}
    (h : Tokens.toLeaves first ts = before ++ l :: behind) : l.label = first + before.length := by
  have hget : (Tokens.toLeaves first ts)[before.length]? = some l := by
    rw [h, List.getElem?_append_right (Nat.le_refl _), Nat.sub_self]
    rfl
  have hlabel := congrArg (Option.map Leaf.label) hget
  rw [← List.getElem?_map, label_toLeaves, Option.map_some] at hlabel
  rcases List.getElem?_eq_some_iff.mp hlabel with ⟨_, hvalue⟩
  rw [List.getElem_range', Nat.one_mul] at hvalue
  exact hvalue.symm

theorem positionOf_split {first : Nat} {ts : Tokens} {before behind : List Leaf} {l : Leaf}
    (h : Tokens.toLeaves first ts.toList = before ++ l :: behind) :
    ts.positionOf before.length =
      Position.start.advance (Leaf.codeOf before ++ l.token.leading.code) := by
  have htokens : ts.toList = before.map Leaf.token ++ l.token :: behind.map Leaf.token := by
    rw [← token_toLeaves first ts.toList, h, List.map_append, List.map_cons]
  have hlength : before.length = (before.map Leaf.token).length := (List.length_map _).symm
  rw [Tokens.positionOf, htokens, hlength, List.take_left, List.drop_left, List.flatMap_map]
  rfl

theorem toLeaves_toList (first : Nat) (ts : Tokens) :
    Tokens.toLeaves first ts.toList =
      Tokens.toLeaves first ts.body ++ [⟨first + ts.body.length, ts.endOfFile⟩] := by
  simp [Tokens.toLeaves, Tokens.toList, List.zipIdx_append]

theorem behind_endOfFile {first : Nat} {ts : Tokens} {before behind : List Leaf} {l : Leaf}
    (hbody : ∀ t ∈ ts.body, t.kind ≠ .endOfFile)
    (h : Tokens.toLeaves first ts.toList = before ++ l :: behind) (hl : l.token.kind = .endOfFile) :
    behind = [] ∧ l.token = ts.endOfFile := by
  rw [toLeaves_toList] at h
  rcases List.eq_nil_or_concat behind with rfl | ⟨front, m, rfl⟩
  · have hlast := List.append_inj_right' h rfl
    injection hlast with hlast
    rw [← hlast]
    exact ⟨rfl, rfl⟩
  · rw [List.concat_eq_append, ← List.cons_append, ← List.append_assoc] at h
    have hfront := List.append_inj_left' h rfl
    have hmem : l.token ∈ (Tokens.toLeaves first ts.body).map Leaf.token := by
      rw [hfront]
      simp
    rw [token_toLeaves] at hmem
    exact absurd hl (hbody l.token hmem)

/-!
# The culprit
-/

theorem culprit_of_blamed {source : Text} {ts : Tokens} {c : Complaint}
    (hts : Tokens.ofText source = .ok ts) (h : Blamed (Tokens.toLeaves 0 ts.toList) c) :
    ∃ offset, Culprit source c.1 offset ∧ (ts.positionOf (c.2 - 0)).Denotes source offset := by
  rcases h with ⟨before, l, behind, hsplit, hlabel, hblames⟩
  have hcode : source = Leaf.codeOf (before ++ l :: behind) := by
    rw [← hsplit, codeOf_toLeaves]
    exact (Tokens.code_of_ofText hts).symm
  have hlexes := (Tokens.ofText_eq_ok_iff source ts).mp hts
  have hbody : ∀ t ∈ ts.body, t.kind ≠ .endOfFile :=
    fun t ht => (Tokens.text_of_lexes hlexes t ht).1
  refine ⟨l.offset before, Culprit.token hts hsplit hblames ⟨_, Leaf.drop_offset hcode⟩ ?_, ?_⟩
  · intro hl
    rcases behind_endOfFile hbody hsplit hl with ⟨rfl, htoken⟩
    have hdrop := Leaf.drop_offset hcode
    rw [htoken] at hdrop
    have hle := (Leaf.denotes_offset hcode).within
    have hge : source.length ≤ l.offset before := List.drop_eq_nil_iff.mp hdrop
    exact Nat.le_antisymm hle hge
  · rw [hlabel, label_of_split hsplit, Nat.zero_add, Nat.sub_zero, positionOf_split hsplit]
    exact Leaf.denotes_offset hcode

theorem culprit_of_ofText_error {source : Text} {fault : SyntaxFault}
    (h : ofText source = .error fault) :
    ∃ offset, Culprit source fault.reason offset ∧ fault.position.Denotes source offset := by
  unfold ofText ofTextFrom at h
  split at h
  · next offset hts =>
      cases h
      have hunclosed := Tokens.unclosedAt_of_ofText_error hts
      exact ⟨offset, Culprit.literal hunclosed.2, Position.denotes_advance hunclosed.1⟩
  next ts hts =>
  have hordinary := Tokens.ordinary_of_lexes ((Tokens.ofText_eq_ok_iff source ts).mp hts)
  simp only at h
  split at h
  · next reason label hparse =>
      cases h
      rw [← token_toLeaves 0 ts.body] at hordinary
      have hblamed := parse_blames rfl hordinary hparse
      rw [← toLeaves_toList] at hblamed
      exact culprit_of_blamed hts hblamed
  · cases h

/-- Every source has a tree, or its fault denotes the first character of a culprit and nothing else. -/
theorem ofText_or_culprit (source : Text) :
    (∃ t, ofText source = .ok t) ∨
      ∃ fault offset, ofText source = .error fault ∧
        (∀ file, Fault.ofSyntax file fault =
          .parse fault.reason.message file (some fault.position.line) (some fault.position.column)) ∧
        Culprit source fault.reason offset ∧ fault.position.Denotes source offset ∧
        ∀ other, fault.position.Denotes source other → other = offset := by
  cases h : ofText source with
  | ok t => exact Or.inl ⟨t, rfl⟩
  | error fault =>
      rcases culprit_of_ofText_error h with ⟨offset, hculprit, hdenotes⟩
      exact Or.inr ⟨fault, offset, rfl, fun _ => rfl, hculprit, hdenotes,
        fun other hother => hother.unique hdenotes⟩

end Tree
end ForceTry

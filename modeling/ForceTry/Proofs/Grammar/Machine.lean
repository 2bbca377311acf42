import ForceTry.Proofs.Grammar.Basic

/-!
# What the parser makes

The parser reads one token after the other and keeps what is open.  An invariant says of everything
that is open that it follows the grammar as far as it has been read, where the token that comes next
counts as the one behind it.  Each step keeps the invariant and adds the token that it reads, so at
the end of a file the tree follows the grammar and holds every token once and in order.
-/

namespace ForceTry
namespace Parser

open ForceTry.Grammar ForceTry.Tree

/-!
# Tokens read so far
-/

mutual

/-- The leaves that a list of items has taken. -/
def Body.leaves : Body → List Leaf
  | .file items => leavesOf items.reverse
  | .block host brace items => host.leaves ++ brace :: leavesOf items.reverse

def Host.leaves : Host → List Leaf
  | .phrase p => p.leaves
  | .doBody outer keyword => outer.leaves ++ [keyword]
  | .clauseBody outer keyword body clauses catchKeyword taken =>
      outer.leaves ++ keyword :: body.leaves ++ leavesOf clauses.reverse ++
        catchKeyword :: taken.reverse

def Phrase.leaves : Phrase → List Leaf
  | .statement outer _ parts _ => outer.leaves ++ leavesOf parts.reverse
  | .operand outer keyword mark parts _ =>
      outer.leaves ++ keyword :: mark.toList ++ leavesOf parts.reverse

end

def State.leaves : State → List Leaf
  | .between b => b.leaves
  | .phrase p => p.leaves
  | .opening host => host.leaves
  | .afterBlock outer keyword body clauses =>
      outer.leaves ++ keyword :: body.leaves ++ leavesOf clauses.reverse
  | .pattern outer keyword body clauses catchKeyword taken =>
      outer.leaves ++ keyword :: body.leaves ++ leavesOf clauses.reverse ++
        catchKeyword :: taken.reverse
  | .ended outer content => outer.leaves ++ content.leaves

def lastToken (ls : List Leaf) : Option Token := ls.getLast?.map Leaf.token

theorem lastToken_append_leavesOf (ls : List Leaf) (cs : List Tree) :
    lastToken (ls ++ leavesOf cs) = lastOf (lastToken ls) cs := by
  unfold lastToken lastOf
  rw [List.getLast?_append]
  cases (leavesOf cs).getLast? with
  | none => rfl
  | some l => rfl

theorem lastToken_snoc (ls : List Leaf) (l : Leaf) : lastToken (ls ++ [l]) = some l.token := by
  simp [lastToken]

/-!
# The invariant
-/

/-- The frame of a phrase as far as it has been read. -/
def Phrase.frame : Phrase → Frame
  | .statement _ condition parts depth => ⟨false, condition, true, depth, !parts.isEmpty⟩
  | .operand outer _ _ parts depth =>
      ⟨true, outer.inCondition, outer.endsWithLine && outer.depth == 0, depth, !parts.isEmpty⟩

def IsPatternLeaf (l : Leaf) : Prop :=
  l.token.kind ≠ .leftBrace ∧ l.token.kind ≠ .rightBrace ∧ l.token.kind ≠ .endOfFile

/-- The part of a `do` statement that has been read follows the grammar. -/
def DoFollows (keyword : Leaf) (body : Tree) (clauses : List Tree) : Prop :=
  keyword.token.isKeyword "do" = true ∧ FormsBlock body ∧ FormsClauses clauses.reverse

mutual

/-- A list of items follows the grammar in front of the token `next`. -/
def Body.Follows (next : Token) : Body → Prop
  | .file items => FormsItems none next items.reverse
  | .block host brace items =>
      host.Follows brace.token ∧ brace.token.kind = .leftBrace ∧
        FormsItems (some brace.token) next items.reverse

def Host.Follows (brace : Token) : Host → Prop
  | .phrase p => p.Follows brace ∧ p.frame.ends (lastToken p.leaves) brace = false
  | .doBody outer keyword =>
      outer.Follows keyword.token ∧ keyword.token.isKeyword "do" = true
  | .clauseBody outer keyword body clauses catchKeyword taken =>
      outer.Follows keyword.token ∧ DoFollows keyword body clauses ∧
        catchKeyword.token.isKeyword "catch" = true ∧ ∀ l ∈ taken, IsPatternLeaf l

def Phrase.Follows (next : Token) : Phrase → Prop
  | .statement outer condition parts depth =>
      outer.Follows (firstOf parts.reverse next) ∧
      condition = startsCondition (firstOf parts.reverse next) ∧
      ((firstOf parts.reverse next).isKeyword "do" = true →
        (secondOf parts.reverse next).kind ≠ .leftBrace) ∧
      FormsParts (Frame.statement condition) (lastToken outer.leaves) next parts.reverse ∧
      ((Frame.statement condition).afterAll parts.reverse).depth = depth
  | .operand outer keyword mark parts depth =>
      outer.Follows keyword.token ∧
      outer.frame.ends (lastToken outer.leaves) keyword.token = false ∧
      keyword.token.isKeyword "try" = true ∧
      (∀ m ∈ mark, m.token.kind.marksTry = true) ∧
      FormsParts outer.frame.operand (some ((mark.map Leaf.token).getD keyword.token)) next
        parts.reverse ∧
      (outer.frame.operand.afterAll parts.reverse).depth = depth

end

def Phrase.Begun : Phrase → Prop
  | .statement _ _ parts _ => parts ≠ []
  | .operand _ _ _ _ _ => True

def State.Follows (next : Token) : State → Prop
  | .between b => b.Follows next
  | .phrase p => p.Follows next ∧ p.Begun
  | .opening host => host.Follows next ∧ next.kind = .leftBrace
  | .afterBlock outer keyword body clauses =>
      outer.Follows keyword.token ∧ DoFollows keyword body clauses
  | .pattern outer keyword body clauses catchKeyword taken =>
      outer.Follows keyword.token ∧ DoFollows keyword body clauses ∧
        catchKeyword.token.isKeyword "catch" = true ∧ ∀ l ∈ taken, IsPatternLeaf l
  | .ended outer content =>
      outer.Follows (firstOf [content] next) ∧
        FormsContent false (lastToken outer.leaves) next content

def State.Settled (next : Token) : State → Prop
  | .phrase p => p.frame.ends (lastToken p.leaves) next = false
  | .afterBlock _ _ _ _ => next.isKeyword "catch" = true
  | _ => True

/-- A `!` or `?` behind the last token would be the mark of a `try`, or a part of a pattern. -/
def State.AwaitsMark : State → Prop
  | .phrase (.operand _ _ none [] _) => True
  | .pattern _ _ _ _ _ _ => True
  | _ => False

/-!
# Closing phrases

A phrase is closed before a token exactly when its frame ends there.
-/

theorem startsAnew_eq {previous : Option Token}
    (hline : previous.any (·.trailing.containsNewline) = false) (t : Token) :
    startsAnew previous t = startsStatement previous t := by
  unfold startsAnew startsStatement breaksBefore
  rw [hline, Bool.or_false]

def Phrase.pushAll (pending : List Tree) : Phrase → Phrase
  | .statement outer condition parts depth => .statement outer condition (pending ++ parts) depth
  | .operand outer keyword mark parts depth => .operand outer keyword mark (pending ++ parts) depth

theorem Phrase.pushAll_nil (p : Phrase) : p.pushAll [] = p := by cases p <;> rfl

theorem Phrase.pushAll_singleton (x : Tree) (p : Phrase) : p.pushAll [x] = p.push x := by
  cases p <;> rfl

variable {previous : Option Token} {l : Leaf} {pending parts : List Tree} {depth : Nat}

theorem ends_statement_frame {outer : Body} {condition : Bool}
    (hline : previous.any (·.trailing.containsNewline) = false)
    (hkind : l.token.kind ≠ .endOfFile) :
    (Phrase.statement outer condition parts depth).frame.ends previous l.token =
      (depth == 0 && endsPhrase previous l.token (!parts.isEmpty) true) := by
  have heof : (l.token.kind == TokenKind.endOfFile) = false := by simpa using hkind
  simp only [Phrase.frame, Frame.ends, endsPhrase, startsAnew_eq hline, heof, Bool.or_false,
    Bool.false_and]

theorem ends_operand_frame {outer : Phrase} {keyword : Leaf} {mark : Option Leaf}
    (hline : previous.any (·.trailing.containsNewline) = false)
    (hkind : l.token.kind ≠ .endOfFile) :
    (Phrase.operand outer keyword mark parts depth).frame.ends previous l.token =
      (depth == 0 &&
        (endsPhrase previous l.token (!parts.isEmpty) (outer.endsWithLine && outer.depth == 0) ||
          endsOperand l.token outer.inCondition)) := by
  have heof : (l.token.kind == TokenKind.endOfFile) = false := by simpa using hkind
  simp only [Phrase.frame, Frame.ends, endsPhrase, startsAnew_eq hline, heof, Bool.or_false,
    Bool.true_and]

theorem settlePhrase_of_stays {p : Phrase}
    (hline : previous.any (·.trailing.containsNewline) = false)
    (hkind : l.token.kind ≠ .endOfFile)
    (hends : (p.pushAll pending).frame.ends previous l.token = false) :
    settlePhrase previous l pending p = .ok (.phrase (p.pushAll pending)) := by
  cases p with
  | statement outer condition parts depth =>
      rw [Phrase.pushAll, ends_statement_frame hline hkind] at hends
      rw [settlePhrase, if_neg (by rw [hends]; exact Bool.false_ne_true)]
      rfl
  | operand outer keyword mark parts depth =>
      rw [Phrase.pushAll, ends_operand_frame hline hkind] at hends
      rw [settlePhrase, if_neg (by rw [hends]; exact Bool.false_ne_true)]
      rfl

theorem settlePhrase_statement_of_ends {outer : Body} {condition : Bool}
    (hline : previous.any (·.trailing.containsNewline) = false)
    (hkind : l.token.kind ≠ .endOfFile)
    (hends : (Phrase.statement outer condition (pending ++ parts) depth).frame.ends previous
      l.token = true) :
    settlePhrase previous l pending (.statement outer condition parts depth) =
      .ok (.ended outer (mkNode .statement (pending ++ parts).reverse)) := by
  rw [ends_statement_frame hline hkind] at hends
  rw [settlePhrase, if_pos hends]

theorem settlePhrase_operand_of_ends {outer : Phrase} {keyword : Leaf} {mark : Option Leaf}
    (hline : previous.any (·.trailing.containsNewline) = false)
    (hkind : l.token.kind ≠ .endOfFile)
    (hends : (Phrase.operand outer keyword mark (pending ++ parts) depth).frame.ends previous
      l.token = true) :
    settlePhrase previous l pending (.operand outer keyword mark parts depth) =
      if (pending ++ parts).isEmpty then .error (.missingOperand, l.label)
      else settlePhrase previous l [mkTry keyword mark (pending ++ parts)] outer := by
  rw [ends_operand_frame hline hkind] at hends
  rw [settlePhrase, if_pos hends]

end Parser
end ForceTry

import ForceTry.Token.Lexer
import ForceTry.Tree.Edit
import ForceTry.Tree.Position

/-!
# From tokens to a tree

The parser knows statements, blocks, `do` with its catch clauses and `try` expressions.  All other
tokens stay as they are in the statement or expression that holds them.

It reads one token after the other and keeps what is still open: a list of items (of the file or of
a block), a statement, or the operand of a `try` within a statement or another operand.  Before a
token is read, everything that ends in front of it is closed.  A statement ends at `;`, at `}`, at
the end of the file and before a token that starts a new statement on a new line; the operand of a
`try` also ends at `,`, at a closing bracket, at `else` and, in a condition, at `{`.  Within round
or square brackets nothing ends.
-/

namespace ForceTry

/-- Why a source has no tree. -/
inductive SyntaxReason where
  | unterminatedString
  | unclosedBlock
  | strayBrace
  | strayBracket (text : Text)
  | missingOperand
  | missingClauseBody
  | unbalancedBrackets
  deriving DecidableEq, Repr

namespace SyntaxReason

def message : SyntaxReason → Text
  | unterminatedString => Text.ofString "Unterminated string literal"
  | unclosedBlock => Text.ofString "Expected '\x7d' to close '\x7b'"
  | strayBrace => Text.ofString "Unexpected '\x7d' without matching '\x7b'"
  | strayBracket text => Text.ofString "Unexpected '" ++ text ++ ['\x27']
  | missingOperand => Text.ofString "Expected expression after 'try'"
  | missingClauseBody => Text.ofString "Expected '\x7b' after 'catch'"
  | unbalancedBrackets => Text.ofString "Unbalanced brackets at end of file"

end SyntaxReason

/-- A source without a tree: the reason and the place of the culprit. -/
structure SyntaxFault where
  reason : SyntaxReason
  position : Position
  deriving DecidableEq, Repr

namespace Parser

abbrev Complaint := SyntaxReason × Nat

/-! ## What is still open

Parts are held last first.  Nodes get their labels when the tree is complete; until then the label
is zero. -/

mutual

inductive Body where
  | file (items : List Tree)
  | block (host : Host) (brace : Leaf) (items : List Tree)

/-- What the block that is being read belongs to. -/
inductive Host where
  | phrase (p : Phrase)
  | doBody (outer : Body) (keyword : Leaf)
  | clauseBody (outer : Body) (keyword : Leaf) (body : Tree) (clauses : List Tree)
      (catchKeyword : Leaf) (pattern : List Leaf)

/-- A statement or operand that is being read, with the number of brackets open in it. -/
inductive Phrase where
  | statement (outer : Body) (condition : Bool) (parts : List Tree) (depth : Nat)
  | operand (outer : Phrase) (keyword : Leaf) (mark : Option Leaf) (parts : List Tree) (depth : Nat)

end

inductive State where
  | between (b : Body)
  | phrase (p : Phrase)
  | opening (host : Host)
  | afterBlock (outer : Body) (keyword : Leaf) (body : Tree) (clauses : List Tree)
  | pattern (outer : Body) (keyword : Leaf) (body : Tree) (clauses : List Tree)
      (catchKeyword : Leaf) (pattern : List Leaf)
  | ended (outer : Body) (content : Tree)

/-! ## Building nodes -/

def mkNode (k : NodeKind) (parts : List Tree) : Tree := .node 0 k parts

def mkItem (content : Tree) (semicolon : Option Leaf) : Tree :=
  mkNode .item (content :: (semicolon.map Tree.leaf).toList)

def mkTry (keyword : Leaf) (mark : Option Leaf) (parts : List Tree) : Tree :=
  mkNode .tryExpression
    (.leaf keyword :: (mark.map Tree.leaf).toList ++ [mkNode .expression parts.reverse])

def mkBlock (left : Leaf) (items : List Tree) (right : Leaf) : Tree :=
  mkNode .block (.leaf left :: items.reverse ++ [.leaf right])

def mkClause (keyword : Leaf) (pattern : List Leaf) (body : Tree) : Tree :=
  mkNode .catchClause (.leaf keyword :: pattern.reverse.map Tree.leaf ++ [body])

def mkDo (keyword : Leaf) (body : Tree) (clauses : List Tree) : Tree :=
  mkNode .doStatement (.leaf keyword :: body :: clauses.reverse)

/-! ## Reading phrases -/

def continues (t : Token) : Bool := t.isKeyword "else" || t.isKeyword "catch" || t.isKeyword "where"

/-- Keywords that start a statement in which the brace behind the operand of a `try` opens the body
of the statement and not a closure. -/
def startsCondition (t : Token) : Bool :=
  t.isKeyword "if" || t.isKeyword "guard" || t.isKeyword "while" || t.isKeyword "for" ||
    t.isKeyword "switch"

/-- The token before binds to the next line: a comma, or an operator other than `!` and `?`. -/
def bindsOn (t : Token) : Bool :=
  t.kind == .comma || (t.kind == .operatorSign && t.text != ['!'] && t.text != ['?'])

def startsStatement (previous : Option Token) (t : Token) : Bool :=
  t.leading.containsNewline && t.kind != .period && t.kind != .operatorSign && !continues t &&
    !(previous.any bindsOn)

namespace Phrase

def depth : Phrase → Nat
  | .statement _ _ _ d => d
  | .operand _ _ _ _ d => d

def inCondition : Phrase → Bool
  | .statement _ c _ _ => c
  | .operand outer _ _ _ _ => outer.inCondition

/-- A new statement on a new line ends the phrase: no bracket around it is open. -/
def endsWithLine : Phrase → Bool
  | .statement _ _ _ _ => true
  | .operand outer _ _ _ _ => outer.endsWithLine && outer.depth == 0

def push (part : Tree) : Phrase → Phrase
  | .statement outer c parts d => .statement outer c (part :: parts) d
  | .operand outer kw mark parts d => .operand outer kw mark (part :: parts) d

def pushAt (depth : Nat) (part : Tree) : Phrase → Phrase
  | .statement outer c parts _ => .statement outer c (part :: parts) depth
  | .operand outer kw mark parts _ => .operand outer kw mark (part :: parts) depth

end Phrase

/-- `t` ends any phrase outside brackets: it is `;` or `}`, or it starts a new statement and the
phrase has parts that a new line ends. -/
def endsPhrase (previous : Option Token) (t : Token) (hasParts endsWithLine : Bool) : Bool :=
  t.kind == .semicolon || t.kind == .rightBrace ||
    (hasParts && endsWithLine && startsStatement previous t)

def endsOperand (t : Token) (inCondition : Bool) : Bool :=
  t.kind == .comma || t.kind.closes || t.isKeyword "else" || (inCondition && t.kind == .leftBrace)

/-- Closes every phrase that ends before the leaf `l`; `pending` are parts still to be added. -/
def settlePhrase (previous : Option Token) (l : Leaf) (pending : List Tree) :
    Phrase → Except Complaint State
  | .statement outer condition parts depth =>
      let parts := pending ++ parts
      if depth == 0 && endsPhrase previous l.token (!parts.isEmpty) true then
        .ok (.ended outer (mkNode .statement parts.reverse))
      else .ok (.phrase (.statement outer condition parts depth))
  | .operand outer keyword mark parts depth =>
      let parts := pending ++ parts
      if depth == 0 && (endsPhrase previous l.token (!parts.isEmpty)
            (outer.endsWithLine && outer.depth == 0) ||
          endsOperand l.token outer.inCondition) then
        if parts.isEmpty then .error (.missingOperand, l.label)
        else settlePhrase previous l [mkTry keyword mark parts] outer
      else .ok (.phrase (.operand outer keyword mark parts depth))

def closePhrase (ending : Leaf) (pending : List Tree) : Phrase → Except Complaint (Body × Tree)
  | .statement outer _ parts depth =>
      if depth == 0 then .ok (outer, mkNode .statement (pending ++ parts).reverse)
      else .error (.unbalancedBrackets, ending.label)
  | .operand outer keyword mark parts depth =>
      let parts := pending ++ parts
      if depth == 0 then
        if parts.isEmpty then .error (.missingOperand, ending.label)
        else closePhrase ending [mkTry keyword mark parts] outer
      else .error (.unbalancedBrackets, ending.label)

def readInPhrase (p : Phrase) (l : Leaf) : Except Complaint State :=
  if l.token.kind == .leftBrace then .ok (.between (.block (.phrase p) l []))
  else if l.token.isKeyword "try" then .ok (.phrase (.operand p l none [] 0))
  else if l.token.kind.opens then .ok (.phrase (p.pushAt (p.depth + 1) (.leaf l)))
  else if l.token.kind.closes then
    match p.depth with
    | 0 => .error (.strayBracket l.token.text, l.label)
    | depth + 1 => .ok (.phrase (p.pushAt depth (.leaf l)))
  else
    match p with
    | .operand outer keyword none [] depth =>
        if l.token.kind.marksTry then .ok (.phrase (.operand outer keyword (some l) [] depth))
        else .ok (.phrase (p.push (.leaf l)))
    | _ => .ok (.phrase (p.push (.leaf l)))

/-! ## Reading items -/

namespace Body

def push (item : Tree) : Body → Body
  | .file items => .file (item :: items)
  | .block host brace items => .block host brace (item :: items)

end Body

def closeBlock (block : Tree) : Host → State
  | .phrase p => .phrase (p.push block)
  | .doBody outer keyword => .afterBlock outer keyword block []
  | .clauseBody outer keyword body clauses catchKeyword pattern =>
      .afterBlock outer keyword body (mkClause catchKeyword pattern block :: clauses)

def readBetween (next : Option Token) (l : Leaf) (b : Body) : Except Complaint State :=
  if l.token.kind == .rightBrace then
    match b with
    | .file _ => .error (.strayBrace, l.label)
    | .block host brace items => .ok (closeBlock (mkBlock brace items l) host)
  else if l.token.kind == .semicolon then
    .ok (.between (b.push (mkItem (mkNode .statement []) (some l))))
  else if l.token.isKeyword "do" && next.any (·.kind == .leftBrace) then
    .ok (.opening (.doBody b l))
  else readInPhrase (.statement b (startsCondition l.token) [] 0) l

def settle (previous : Option Token) (l : Leaf) : State → Except Complaint State
  | .phrase p => settlePhrase previous l [] p
  | .afterBlock outer keyword body clauses =>
      if l.token.isKeyword "catch" then .ok (.afterBlock outer keyword body clauses)
      else .ok (.ended outer (mkDo keyword body clauses))
  | s => .ok s

def read (next : Option Token) (l : Leaf) : State → Except Complaint State
  | .between b => readBetween next l b
  | .phrase p => readInPhrase p l
  | .opening host => .ok (.between (.block host l []))
  | .afterBlock outer keyword body clauses => .ok (.pattern outer keyword body clauses l [])
  | .pattern outer keyword body clauses catchKeyword pattern =>
      if l.token.kind == .leftBrace then
        .ok (.between (.block (.clauseBody outer keyword body clauses catchKeyword pattern) l []))
      else if l.token.kind == .rightBrace then .error (.missingClauseBody, l.label)
      else .ok (.pattern outer keyword body clauses catchKeyword (l :: pattern))
  | .ended outer content =>
      if l.token.kind == .semicolon then .ok (.between (outer.push (mkItem content (some l))))
      else readBetween next l (outer.push (mkItem content none))

def run (previous : Option Token) (s : State) : List Leaf → Except Complaint State
  | [] => .ok s
  | l :: ls => do
      let settled ← settle previous l s
      let s ← read (ls.head?.map Leaf.token) l settled
      run (some l.token) s ls

/-- The list of items that is open at the end of the file.  A state in which a brace must follow is
never left open, because a `do` statement starts only in front of a brace. -/
def closeAll (ending : Leaf) : State → Except Complaint Body
  | .between b => .ok b
  | .phrase p => do
      let (outer, content) ← closePhrase ending [] p
      .ok (outer.push (mkItem content none))
  | .opening _ => .error (.unclosedBlock, ending.label)
  | .afterBlock outer keyword body clauses =>
      .ok (outer.push (mkItem (mkDo keyword body clauses) none))
  | .pattern _ _ _ _ _ _ => .error (.missingClauseBody, ending.label)
  | .ended outer content => .ok (outer.push (mkItem content none))

def finish (ending : Leaf) (s : State) : Except Complaint Tree := do
  match ← closeAll ending s with
  | .file items => .ok (mkNode .sourceFile (items.reverse ++ [.leaf ending]))
  | .block _ brace _ => .error (.unclosedBlock, brace.label)

/-- The tree of the leaves of a file; its nodes have no labels yet. -/
def parse (body : List Leaf) (ending : Leaf) : Except Complaint Tree := do
  finish ending (← run none (.between (.file [])) body)

end Parser

namespace Tokens

def toLeaves (first : Nat) (ts : List Token) : List Leaf :=
  (ts.zipIdx first).map fun (t, n) => ⟨n, t⟩

def positionOf (ts : Tokens) (i : Nat) : Position :=
  Position.start.advance
    ((ts.toList.take i).flatMap Token.code ++
      ((ts.toList.drop i).head?.map (·.leading.code)).getD [])

end Tokens

namespace Tree

/-- The tree of a source.  Its labels start at `first`; the answer holds the next unused one. -/
def ofTextFrom (first : Nat) (source : Text) : Except SyntaxFault (Tree × Nat) :=
  match Tokens.ofText source with
  | .error offset => .error ⟨.unterminatedString, Position.start.advance (source.take offset)⟩
  | .ok ts =>
      let body := Tokens.toLeaves first ts.body
      let ending : Leaf := ⟨first + ts.body.length, ts.endOfFile⟩
      match Parser.parse body ending with
      | .error (reason, label) => .error ⟨reason, ts.positionOf (label - first)⟩
      | .ok t => .ok ((renumber t).run (first + ts.body.length + 1))

def ofText (source : Text) : Except SyntaxFault Tree := (ofTextFrom 0 source).map Prod.fst

end Tree
end ForceTry

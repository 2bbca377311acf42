import ForceTry.Rule.Basic

/-!
# Forced `try` into `do` and `catch`

The statement `let value = try! load()` becomes

    do {
      let value = try load()
    } catch {
      <#code#>
    }

The statement moves into the body of `do`, one unit deeper than the line it came from.  What stood
in front of its line stays in front of `do`, the blanks behind it go behind the last brace, and
trivia around the mark moves onto `try`.
-/

namespace ForceTry
namespace DoCatch

def name : Text := Text.ofString "convert-to-do-catch"

def notForced : Text := Text.ofString "not a force-try expression"

def ruleDetails : Details := [("rule".toList, .text name)]

/-- The rule applies to a `try` with the mark that forces it.  For any other `try` the answer names
the mark that was seen. -/
def check (t : Tree) : Outcome Tree :=
  if t.isForceTry then .success t []
  else
    let details : Details :=
      if t.isKind .tryExpression then
        [("marker".toList, (t.tryMark?.map fun m => Value.text m.token.text).getD .null)]
      else []
    .declined notForced (some name) (some t.name.toList) details

/-- The trivia behind `try` when its mark is gone: all that stood around the mark, or one space if
nothing else would keep the operand apart. -/
def trailingOfTry (keyword mark : Token) (operand : Tree) : Trivia :=
  let trailing := keyword.trailing ++ mark.leading ++ mark.trailing
  if trailing.isEmpty && operand.firstLeaf?.any (·.token.leading.isEmpty) then [.spaces 1]
  else trailing

def stripMark : Tree → Fresh Tree
  | .node _ .tryExpression [.leaf keyword, .leaf mark, operand] => do
      let trailing := trailingOfTry keyword.token mark.token operand
      let keyword ← Fresh.token { keyword.token with trailing }
      Fresh.node .tryExpression [keyword, operand]
  | t => pure t

def detachBlanks (t : Tree) : Fresh (Tree × Trivia) :=
  match t.lastLeaf? with
  | none => pure (t, [])
  | some l =>
      match l.token.trailing.trailingBlanks with
      | [] => pure (t, [])
      | blanks => do
          let t ← t.withTrailing l.token.trailing.withoutTrailingBlanks
          pure (t, blanks)

def firstLeaf (t : Tree) : Except Fault Leaf :=
  match t.firstLeaf? with
  | some l => .ok l
  | none =>
      .error (.refactoring (Text.ofString "Cannot wrap a statement without tokens") ruleDetails)

def itemParts : Tree → Option (Tree × List Tree)
  | .node _ .item (content :: semicolon) => some (content, semicolon)
  | _ => none

/-- What goes into the body of `do`, with the semicolon that stays outside: the content of the
statement with the stripped `try`, or this `try` alone when there is no statement around it. -/
def content (marked stripped : Tree) (statement : Option Tree) : Build (Tree × List Tree) :=
  match statement.bind itemParts with
  | none => do
      let inner ← Fresh.node .statement [stripped]
      pure (inner, [])
  | some (inner, semicolon) => do
      unless statement.any (Tree.hasNode marked.label) do
        throw (.refactoring
          (Text.ofString "Force-try expression is not part of the given statement") ruleDetails)
      let inner ← inner.replace marked.label stripped
      pure (inner, semicolon)

/-- Divides the trivia in front of a statement: the part that stays in front of `do`, and the part
that stays with the statement.  At the start of a line the statement's own indentation goes, and
`do` gets `base`; in the middle of a line everything stays in front of `do`. -/
def splitLeading (leading base : Trivia) (atLineStart : Bool) : Trivia × Trivia :=
  if atLineStart then
    (leading.throughLastNewline ++ base, leading.afterLastNewline.strip base)
  else (leading, [])

def blockOf (content : Tree) (right : Token) : Fresh Tree := do
  let item ← Fresh.node .item [content]
  let left ← Fresh.token (Token.leftBrace [] [])
  Fresh.node .block [left, item, ← Fresh.token right]

def build (marked : Tree) (unit : IndentUnit) (base : Trivia) (statement : Option Tree)
    (atLineStart : Bool) (placeholder : Text) (newline : Trivia) : Build (List Tree) := do
  let newline := if newline.isEmpty then Trivia.newline else newline
  let stripped ← stripMark marked
  let (inner, semicolon) ← content marked stripped statement
  let (inner, closing) ← detachBlanks inner
  let first ← firstLeaf inner
  let (doLeading, innerLeading) := splitLeading first.token.leading base atLineStart
  let inner ← inner.withLeading innerLeading
  let deeper := unit.addedTo base
  let inner ← inner.reindent base deeper true
  let first ← firstLeaf inner
  let inner ← inner.withLeading (newline ++ first.token.leading)
  let body ← blockOf inner (Token.rightBrace (newline ++ base) [.spaces 1])
  let handler ← Fresh.token (Token.placeholder placeholder (newline ++ deeper) [])
  let handler ← Fresh.node .statement [handler]
  let handlerBlock ← blockOf handler (Token.rightBrace (newline ++ base) closing)
  let catchKeyword ← Fresh.token ⟨.keyword, "catch".toList, [], [.spaces 1]⟩
  let clause ← Fresh.node .catchClause [catchKeyword, handlerBlock]
  let doKeyword ← Fresh.token ⟨.keyword, "do".toList, doLeading, [.spaces 1]⟩
  let statement ← Fresh.node .doStatement [doKeyword, body, clause]
  let item ← Fresh.node .item (statement :: semicolon)
  pure [item]

/-- The indentation of the line on which the statement stands, or the `try` when there is none.
Without a root it is read off the first token alone. -/
def baseIndentation (t : Tree) (ctx : Context) : Trivia :=
  let anchor := ctx.statement.getD t
  match ctx.root with
  | some root => root.lineIndentation anchor
  | none => (anchor.firstLeaf?.map (·.token.leading.leadingIndentation)).getD []

def contextUnit (ctx : Context) : Except Fault (IndentUnit × Text) :=
  match ctx.unit with
  | some u => .ok (u, u.describe)
  | none => ctx.style.unitFor ctx.root

/-- The statement around the node starts its line.  A node without a statement does. -/
def contextAtLineStart (ctx : Context) : Bool :=
  ctx.atLineStart.getD (match ctx.statement with
    | none => true
    | some s => Tree.startsLine ctx.root s)

def refactor (t : Tree) (ctx : Context) : Build (Outcome (List Tree)) := fun next =>
  match check t with
  | .failure e m => .ok (.failure e m, next)
  | .skipped e m => .ok (.skipped e m, next)
  | .success _ _ => do
      let (unit, unitName) ← contextUnit ctx
      let base := ctx.base.getD (baseIndentation t ctx)
      let newline := Tree.newlineStyle (ctx.root.or ctx.statement)
      match build t unit base ctx.statement (contextAtLineStart ctx) ctx.style.placeholder newline
          next with
      | .ok (items, next) =>
          .ok (.success items (ruleDetails ++
            [("indentation_unit".toList, .text unitName),
             ("base_indentation".toList, .text base.code)]), next)
      | .error e => .ok (.failure e ruleDetails, next)

def rule : Rule where
  name := name
  description :=
    Text.ofString "Wrap a force-try statement in do/catch with a placeholder handler"
  implementation := Text.ofString "ConvertToDoCatch"
  accepts := .only .tryExpression
  usesStyle := true
  check := check
  refactor := refactor

end DoCatch
end ForceTry

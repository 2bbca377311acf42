import ForceTry.Encoding.Utf8
import ForceTry.Yaml.Scalar

/-!
# Tokens of YAML

A document is read as a list of tokens.  In a document without braces and brackets the indentation
says where collections begin and end, and tokens without characters stand there.

That a key begins is known only at the colon behind it.  Until then the place of a possible key is
kept (`Pending`), and at the colon the tokens for a key and perhaps for a mapping are put in there.
A possible key ends with its line and after 1024 characters.

Main operation: `Token.ofText`.
-/

namespace ForceTry
namespace Yaml

/-- A line that says how a document is to be read. -/
inductive Directive where
  | version (major minor : Nat)
  | tag (handle replacement : Text)
  | other
  deriving DecidableEq, Repr

inductive Token where
  | directive (d : Directive)
  | documentStart
  | documentEnd
  | sequenceStart
  | mappingStart
  | blockEnd
  | bracketOpen
  | bracketClose
  | braceOpen
  | braceClose
  | comma
  | entry
  | key
  | value
  | reference (name : Text)
  | anchor (name : Text)
  | tag (handle : Option Text) (suffix : Text)
  | scalar (text : Text) (plain : Bool)
  deriving DecidableEq, Repr

/-! ## Readers of parts

Each reader answers what it has read and the number of characters. -/

abbrev Reader (α : Type) := Text → Except Flaw (α × Nat)

namespace Reader

def word (flaw : Flaw) : Reader Text := fun t =>
  let name := t.takeWhile isWord
  if name = [] then .error flaw else .ok (name, name.length)

def number : Reader Nat := fun t =>
  let digits := t.takeWhile Char.isDigit
  if digits = [] then .error .badDirective
  else .ok (digits.foldl (fun n c => n * 10 + (c.toNat - 48)) 0, digits.length)

def spaces (t : Text) : Nat := Text.runLength (· == ' ') t

def isTagChar (c : Char) : Bool := isWord c || ";/?:@&=+$,.!~*\x27()[]".toList.contains c

/-- The bytes of a tag, in which others may be given by their number, and the number of
characters. -/
def tagBytes : Text → Except Flaw (Bytes × Nat)
  | '%' :: a :: b :: t => do
      match hexNumber? [a, b] with
      | some n =>
          let (bytes, length) ← tagBytes t
          .ok (UInt8.ofNat n :: bytes, length + 3)
      | none => .error .badTag
  | c :: t => do
      if c == '%' then .error .badTag
      else if isTagChar c then
        let (bytes, length) ← tagBytes t
        .ok (Utf8.encodeChar c ++ bytes, length + 1)
      else .ok ([], 0)
  | [] => .ok ([], 0)

def tagText : Reader Text := fun t => do
  let (bytes, length) ← tagBytes t
  if length = 0 then .error .badTag
  else
    match Utf8.decode bytes with
    | .ok text => .ok (text, length)
    | .error _ => .error .badTag

/-- The handle of a tag: an exclamation mark, or a name between two of them. -/
def handle : Reader Text := fun t =>
  match t with
  | '!' :: rest =>
      if Text.startsWith [' '] rest then .ok (['!'], 1)
      else
        let name := rest.takeWhile isWord
        if Text.startsWith ['!'] (rest.drop name.length) then
          .ok ('!' :: name ++ ['!'], name.length + 2)
        else .error .badTag
  | _ => .error .badTag

def directiveOf (name : Text) : Reader Directive := fun t => do
  let skipped := spaces t
  let t := t.drop skipped
  if name = "YAML".toList then
    let (major, n) ← number t
    match t.drop n with
    | '.' :: rest =>
        let (minor, m) ← number rest
        if spaceAhead (rest.drop m) then .ok (.version major minor, skipped + n + 1 + m)
        else .error .badDirective
    | _ => .error .badDirective
  else if name = "TAG".toList then
    let (mark, n) ← handle t
    let rest := t.drop n
    let between := spaces rest
    let (replacement, m) ← tagText (rest.drop between)
    if 0 < between && spaceAhead (rest.drop (between + m)) then
      .ok (.tag mark replacement, skipped + n + between + m)
    else .error .badDirective
  else .ok (.other, skipped + Text.runLength (!isBreak ·) t)

/-- The number of characters to the end of a line that holds nothing but blanks and a comment. -/
def blankLine (flaw : Flaw) (t : Text) : Except Flaw Nat :=
  let n := spaces t
  let rest := t.drop n
  if breakAhead rest then .ok n
  else if Text.startsWith ['#'] rest then .ok (Text.runLength (!isBreak ·) t)
  else .error flaw

def directive : Reader Directive := fun t => do
  let (name, n) ← word .badDirective t
  if spaceAhead (t.drop n) then
    let (d, m) ← directiveOf name (t.drop n)
    let rest ← blankLine .badDirective (t.drop (n + m))
    .ok (d, n + m + rest)
  else .error .badDirective

def anchorName : Reader Text := fun t => do
  let (name, n) ← word .badAnchor t
  let rest := t.drop n
  if blankAhead rest || rest.head?.any ("?:,]\x7d%@\x60".toList.contains ·) then .ok (name, n)
  else .error .badAnchor

def tag : Reader Token := fun t => do
  let (token, n) ← (match t.drop 1 with
    | '<' :: rest => do
        let (name, n) ← tagText rest
        if Text.startsWith ['>'] (rest.drop n) then .ok (Token.tag none name, n + 3)
        else .error .badTag
    | rest =>
        if blankAhead rest then .ok (.tag none ['!'], 1)
        else do
          let written := rest.takeWhile fun c => !(c == ' ' || isBreak c)
          let (mark, n) ← if '!' ∈ written then handle t else .ok (['!'], 1)
          let (suffix, m) ← tagText (t.drop n)
          .ok (Token.tag (some mark) suffix, n + m) : Except Flaw (Token × Nat))
  if spaceAhead (t.drop n) then .ok (token, n) else .error .badTag

def block (folds : Bool) (least : Nat) : Reader Token := fun t => do
  let (style, n) := BlockStyle.ofIndicators folds (t.drop 1)
  let rest := t.drop (n + 1)
  if spaceAhead rest then
    let line ← blankLine .badBlockHeader rest
    let body := rest.drop (line + 1)
    let (text, m) := Yaml.block style least body
    .ok (.scalar text false, n + 1 + line + min 1 (rest.length - line) + m)
  else .error .badBlockHeader

end Reader

/-! ## The lexer -/

structure Cursor where
  rest : Text
  index : Nat
  line : Nat
  column : Nat

namespace Cursor

def next (s : Cursor) : Cursor :=
  match s.rest with
  | [] => s
  | c :: t =>
      if isBreak c then ⟨t, s.index + 1, s.line + 1, 0⟩
      else ⟨t, s.index + 1, s.line, if c == '\ufeff' then s.column else s.column + 1⟩

def advance (s : Cursor) : Nat → Cursor
  | 0 => s
  | n + 1 => advance s.next n

end Cursor

structure Pending where
  position : Nat
  required : Bool
  index : Nat
  line : Nat
  column : Nat
  deriving DecidableEq, Repr

namespace Pending

def longest : Nat := 1024

def isOver (p : Pending) (here : Cursor) : Bool :=
  p.line != here.line || longest < here.index - p.index

def refresh (here : Cursor) : Option Pending → Except Flaw (Option Pending)
  | none => .ok none
  | some p =>
      if !p.isOver here then .ok (some p)
      else if p.required then .error .missingColon
      else .ok none

end Pending

structure Lexer where
  cursor : Cursor
  tokens : Array Token
  /-- the columns of the collections that are open by indentation, innermost first -/
  blocks : List Nat
  /-- a key may begin at the next token -/
  keyAllowed : Bool
  /-- where a key may have begun within the innermost brackets or braces -/
  pending : Option Pending
  /-- the same for what is around them, innermost first -/
  outer : List (Option Pending)

namespace Lexer

def inFlow (s : Lexer) : Bool := !s.outer.isEmpty

def push (s : Lexer) (t : Token) : Lexer := { s with tokens := s.tokens.push t }

def advance (s : Lexer) (n : Nat) : Lexer := { s with cursor := s.cursor.advance n }

def take (s : Lexer) (t : Token) (n : Nat) : Lexer := (s.push t).advance n

def allowKey (s : Lexer) (allowed : Bool) : Lexer := { s with keyAllowed := allowed }

def refresh (s : Lexer) : Except Flaw Lexer := do
  let pending ← Pending.refresh s.cursor s.pending
  let outer ← s.outer.mapM (Pending.refresh s.cursor)
  .ok { s with pending, outer }

def dropPending (s : Lexer) : Except Flaw Lexer :=
  if s.pending.any (·.required) then .error .missingColon else .ok { s with pending := none }

def indent? (s : Lexer) : Option Nat := s.blocks.head?

def markKey (s : Lexer) : Except Flaw Lexer := do
  if s.keyAllowed then
    let s ← s.dropPending
    let required := !s.inFlow && s.indent? == some s.cursor.column
    .ok { s with
      pending := some ⟨s.tokens.size, required, s.cursor.index, s.cursor.line, s.cursor.column⟩ }
  else .ok s

def closeBlocks (s : Lexer) (p : Nat → Bool) : Lexer :=
  if s.inFlow then s
  else
    { s with
      blocks := s.blocks.dropWhile p
      tokens := s.tokens ++ (s.blocks.takeWhile p).map fun _ => Token.blockEnd }

/-- Begins a collection in a column, if it is further in than the open ones, with its token at a
position of the list. -/
def openBlock (s : Lexer) (start : Token) (column position : Nat) : Lexer :=
  if s.indent?.all (· < column) then
    { s with
      blocks := column :: s.blocks
      tokens := s.tokens.insertIdxIfInBounds position start }
  else s

def openHere (s : Lexer) (start : Token) : Except Flaw Lexer :=
  if s.inFlow then .ok s
  else if s.keyAllowed then .ok (s.openBlock start s.cursor.column s.tokens.size)
  else .error .misplaced

/-- The number of blanks, comments and line breaks at the start of a text, and whether a line ends
among them. -/
def skipped (inComment : Bool) : Text → Nat × Bool
  | [] => (0, false)
  | c :: t =>
      if isBreak c then ((skipped false t).1 + 1, true)
      else if inComment || c == ' ' then
        let (n, broken) := skipped inComment t
        (n + 1, broken)
      else if c == '#' then
        let (n, broken) := skipped true t
        (n + 1, broken)
      else (0, false)

def skip (s : Lexer) : Lexer :=
  let (n, broken) := skipped false s.cursor.rest
  (s.advance n).allowKey (s.keyAllowed || (broken && !s.inFlow))

/-! ### One token -/

def separator (s : Lexer) (t : Token) (n : Nat) : Except Flaw Lexer := do
  let s ← (s.closeBlocks fun _ => true).dropPending
  .ok ((s.take t n).allowKey false)

def openFlow (s : Lexer) (t : Token) : Except Flaw Lexer := do
  let s ← s.markKey
  .ok (({ s with pending := none, outer := s.pending :: s.outer }.take t 1).allowKey true)

def closeFlow (s : Lexer) (t : Token) : Except Flaw Lexer := do
  let s ← s.dropPending
  match s.outer with
  | [] => .error .unmatchedBracket
  | pending :: outer => .ok (({ s with pending, outer }.take t 1).allowKey false)

def comma (s : Lexer) : Except Flaw Lexer := do
  let s ← s.dropPending
  .ok ((s.take .comma 1).allowKey true)

def entry (s : Lexer) : Except Flaw Lexer := do
  let s ← (← s.openHere .sequenceStart).dropPending
  .ok ((s.take .entry 1).allowKey true)

def key (s : Lexer) : Except Flaw Lexer := do
  let s ← (← s.openHere .mappingStart).dropPending
  .ok ((s.take .key 1).allowKey (!s.inFlow))

/-- The colon before a value.  If a key may have begun before it, that key has ended here. -/
def value (s : Lexer) : Except Flaw Lexer := do
  match s.pending with
  | some p =>
      let s := { s with pending := none, tokens := s.tokens.insertIdxIfInBounds p.position .key }
      let s := if s.inFlow then s else s.openBlock .mappingStart p.column p.position
      .ok ((s.take .value 1).allowKey false)
  | none =>
      let s ← (← s.openHere .mappingStart).dropPending
      .ok ((s.take .value 1).allowKey (!s.inFlow))

def content (s : Lexer) (read : Except Flaw (Token × Nat)) : Except Flaw Lexer := do
  let s ← s.markKey
  let (t, n) ← read
  .ok ((s.take t n).allowKey false)

def least (s : Lexer) : Nat := s.indent?.elim 0 (· + 1)

def blockScalar (s : Lexer) (folds : Bool) : Except Flaw Lexer := do
  let s ← s.dropPending
  let (t, n) ← Reader.block folds (max 1 s.least) s.cursor.rest
  .ok ((s.take t n).allowKey true)

def plainScalar (s : Lexer) : Token × Nat :=
  let (text, n) := plain s.inFlow s.least s.cursor.rest
  (.scalar text true, n)

def token (s : Lexer) (c : Char) (t : Text) : Except Flaw Lexer :=
  let lineStart := s.cursor.column == 0
  if lineStart && c == '%' then do
    let (d, n) ← Reader.directive t
    s.separator (.directive d) (n + 1)
  else if lineStart && markAhead '-' (c :: t) then s.separator .documentStart 3
  else if lineStart && markAhead '.' (c :: t) then s.separator .documentEnd 3
  else
    match c with
    | '[' => s.openFlow .bracketOpen
    | '\x7b' => s.openFlow .braceOpen
    | ']' => s.closeFlow .bracketClose
    | '\x7d' => s.closeFlow .braceClose
    | ',' => s.comma
    | '*' => s.content ((Reader.anchorName t).map fun (name, n) => (.reference name, n + 1))
    | '&' => s.content ((Reader.anchorName t).map fun (name, n) => (.anchor name, n + 1))
    | '!' => s.content (Reader.tag (c :: t))
    | '\x27' =>
        s.content ((singleQuotedFrom .nothing t).map fun (text, n) => (.scalar text false, n + 1))
    | '"' =>
        s.content ((doubleQuotedFrom .nothing t).map fun (text, n) => (.scalar text false, n + 1))
    | _ =>
        if c == '-' && blankAhead t then s.entry
        else if c == '?' && (s.inFlow || blankAhead t) then s.key
        else if c == ':' && (s.inFlow || blankAhead t) then s.value
        else if c == '|' && !s.inFlow then s.blockScalar false
        else if c == '>' && !s.inFlow then s.blockScalar true
        else if plainAhead s.inFlow (c :: t) then s.content (.ok s.plainScalar)
        else .error (.strayCharacter c)

def finish (s : Lexer) : Except Flaw (Array Token) := do
  let s ← (s.closeBlocks fun _ => true).dropPending
  .ok s.tokens

/-- The tokens of the whole text.  Each step but the last takes a character, so that one step more
than there are characters is enough. -/
def run : (steps : Nat) → Lexer → Except Flaw (Array Token)
  | 0, _ => .error .badStructure
  | steps + 1, s => do
      let s ← s.skip.refresh
      match s.cursor.rest with
      | [] => s.finish
      | c :: t => run steps (← (s.closeBlocks (s.cursor.column < ·)).token c t)

def start (t : Text) : Lexer :=
  let cursor : Cursor := ⟨t, 0, 0, 0⟩
  ⟨if Text.startsWith ['\ufeff'] t then cursor.next else cursor, #[], [], true, none, []⟩

end Lexer

def Token.ofText (t : Text) : Except Flaw (List Token) :=
  (Lexer.run (t.length + 1) (Lexer.start t)).map Array.toList

end Yaml
end ForceTry

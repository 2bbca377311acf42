import ForceTry.Yaml.Basic

/-!
# Scalars of YAML

The four ways of writing a text: plain, in single or double quotes, and as a block of lines.  Each
reader walks over the characters once and answers the text together with the number of characters
that it takes.

Between two visible parts of a scalar there may be a `Gap`, of which only the shape counts: blanks
within a line are kept, one line break becomes a space, and further line breaks are kept.
-/

namespace ForceTry
namespace Yaml

inductive Gap where
  | blanks (t : Text)
  | breaks (first : Option Char) (more : Text)
  deriving DecidableEq, Repr

namespace Gap

def nothing : Gap := .blanks []

def addBlank (c : Char) : Gap → Gap
  | blanks t => blanks (t ++ [c])
  | g => g

def addBreak (c : Char) : Gap → Gap
  | blanks _ => breaks (some c) []
  | breaks first more => breaks first (more ++ [c])

def folded : Gap → Text
  | blanks t => t
  | breaks none more => more
  | breaks (some '\n') [] => [' ']
  | breaks (some '\n') more => more
  | breaks (some c) more => c :: more

end Gap

/-! ## Plain scalars -/

def endsPlain (inFlow : Bool) (c : Char) (t : Text) : Bool :=
  (c == ':' && (blankAhead t || (inFlow && t.head?.any (",[]\x7b\x7d".toList.contains ·)))) ||
    (inFlow && ",?[]\x7b\x7d".toList.contains c)

/-- What follows of a plain scalar.  `gap` is the gap before the text, of `passed` characters, and
`column` is the column of a line that the gap begins; such a line must be indented by `indent`. -/
def plainFrom (inFlow : Bool) (indent : Nat) : Gap → (column passed : Nat) → Text → Text × Nat
  | _, _, _, [] => ([], 0)
  | gap, column, passed, c :: t =>
      if c == ' ' then plainFrom inFlow indent (gap.addBlank c) (column + 1) (passed + 1) t
      else if isBreak c then
        if documentMarkAhead t then ([], 0)
        else plainFrom inFlow indent (gap.addBreak c) 0 (passed + 1) t
      else
        let outdented := match gap with
          | .blanks _ => false
          | .breaks _ _ => !inFlow && column < indent
        if c == '\t' || (c == '#' && 0 < passed) || outdented || endsPlain inFlow c t then ([], 0)
        else
          let (text, n) := plainFrom inFlow indent .nothing 0 0 t
          (gap.folded ++ c :: text, passed + 1 + n)

/-- The plain scalar at the start of a text, where lines that belong to it are indented by
`indent`. -/
def plain (inFlow : Bool) (indent : Nat) (t : Text) : Text × Nat :=
  plainFrom inFlow indent .nothing 0 0 t

def plainAhead (inFlow : Bool) : Text → Bool
  | [] => false
  | c :: t =>
      !(isGap c || isBreak c || "-?:,[]\x7b\x7d#&*!|>\x27\"%@\x60".toList.contains c) ||
        (!blankAhead t && (c == '-' || (!inFlow && (c == '?' || c == ':'))))

/-! ## Quoted scalars -/

def escaped? : Char → Option Char
  | '0' => some '\x00'
  | 'a' => some '\x07'
  | 'b' => some '\x08'
  | 't' => some '\t'
  | '\t' => some '\t'
  | 'n' => some '\n'
  | 'v' => some '\x0b'
  | 'f' => some '\x0c'
  | 'r' => some '\r'
  | 'e' => some '\x1b'
  | ' ' => some ' '
  | '"' => some '"'
  | '\\' => some '\\'
  | '/' => some '/'
  | 'N' => some '\u0085'
  | '_' => some '\u00a0'
  | 'L' => some '\u2028'
  | 'P' => some '\u2029'
  | _ => none

def hexDigit? (c : Char) : Option Nat :=
  if c.isDigit then some (c.toNat - 48)
  else if 'a' ≤ c ∧ c ≤ 'f' then some (c.toNat - 87)
  else if 'A' ≤ c ∧ c ≤ 'F' then some (c.toNat - 55)
  else none

def hexNumber? (digits : Text) : Option Nat :=
  digits.foldlM (fun n c => (hexDigit? c).map (n * 16 + ·)) 0

def hexChar (digits : Text) : Except Flaw Char :=
  match hexNumber? digits with
  | some n => if n.isValidChar then .ok (Char.ofNat n) else .error .badEscape
  | none => .error .badEscape

def precede (part : Text) (taken : Nat) (rest : Except Flaw (Text × Nat)) :
    Except Flaw (Text × Nat) :=
  rest.map fun (text, n) => (part ++ text, taken + n)

def precedeHex (gap : Gap) (digits : Text) (rest : Except Flaw (Text × Nat)) :
    Except Flaw (Text × Nat) := do
  let c ← hexChar digits
  precede (gap.folded ++ [c]) (digits.length + 2) rest

def singleQuotedFrom : Gap → Text → Except Flaw (Text × Nat)
  | _, [] => .error .unclosedQuote
  | gap, '\x27' :: '\x27' :: t => precede (gap.folded ++ ['\x27']) 2 (singleQuotedFrom .nothing t)
  | gap, c :: t =>
      if c == '\x27' then .ok (gap.folded, 1)
      else if isGap c then precede [] 1 (singleQuotedFrom (gap.addBlank c) t)
      else if isBreak c then
        if documentMarkAhead t then .error .markInQuote
        else precede [] 1 (singleQuotedFrom (gap.addBreak c) t)
      else precede (gap.folded ++ [c]) 1 (singleQuotedFrom .nothing t)

/-- The rest of a scalar in double quotes, the closing quote included.  An escaped line break does
not count, and neither do the blanks behind it. -/
def doubleQuotedFrom : Gap → Text → Except Flaw (Text × Nat)
  | _, [] => .error .unclosedQuote
  | gap, '\\' :: 'x' :: a :: b :: t => precedeHex gap [a, b] (doubleQuotedFrom .nothing t)
  | gap, '\\' :: 'u' :: a :: b :: c :: d :: t =>
      precedeHex gap [a, b, c, d] (doubleQuotedFrom .nothing t)
  | gap, '\\' :: 'U' :: a :: b :: c :: d :: e :: f :: g :: h :: t =>
      precedeHex gap [a, b, c, d, e, f, g, h] (doubleQuotedFrom .nothing t)
  | gap, '\\' :: c :: t =>
      if isBreak c then
        if documentMarkAhead t then .error .markInQuote
        else precede gap.folded 2 (doubleQuotedFrom (.breaks none []) t)
      else
        match escaped? c with
        | some e => precede (gap.folded ++ [e]) 2 (doubleQuotedFrom .nothing t)
        | none => .error .badEscape
  | gap, c :: t =>
      if c == '"' then .ok (gap.folded, 1)
      else if c == '\\' then .error .badEscape
      else if isGap c then precede [] 1 (doubleQuotedFrom (gap.addBlank c) t)
      else if isBreak c then
        if documentMarkAhead t then .error .markInQuote
        else precede [] 1 (doubleQuotedFrom (gap.addBreak c) t)
      else precede (gap.folded ++ [c]) 1 (doubleQuotedFrom .nothing t)

/-! ## Block scalars -/

/-- What becomes of the line breaks at the end of a block. -/
inductive Chomping where
  | strip
  | clip
  | keep
  deriving DecidableEq, Repr

structure BlockStyle where
  folds : Bool
  chomping : Chomping
  increment : Option Nat
  deriving DecidableEq, Repr

namespace BlockStyle

def chomping? : Char → Option Chomping
  | '+' => some .keep
  | '-' => some .strip
  | _ => none

def increment? (c : Char) : Option Nat :=
  if c.isDigit && c != '0' then some (c.toNat - 48) else none

def ofIndicators (folds : Bool) : Text → BlockStyle × Nat
  | [] => (⟨folds, .clip, none⟩, 0)
  | a :: t =>
      let next {α : Type} (f : Char → Option α) := t.head?.bind f
      match chomping? a, increment? a with
      | some k, _ =>
          match next increment? with
          | some n => (⟨folds, k, some n⟩, 2)
          | none => (⟨folds, k, none⟩, 1)
      | none, some n =>
          match next chomping? with
          | some k => (⟨folds, k, some n⟩, 2)
          | none => (⟨folds, .clip, some n⟩, 1)
      | none, none => (⟨folds, .clip, none⟩, 0)

/-- What stands between two lines of the block, of which the first begins with a visible character
if `flush` says so and the second starts with `c`. -/
def join (s : BlockStyle) (flush : Bool) (first : Option Char) (more : Text) (c : Char) : Text :=
  if s.folds && first == some '\n' && flush && !isGap c then
    if more = [] then [' '] else more
  else first.toList ++ more

def close (s : BlockStyle) (first : Option Char) (more : Text) : Text :=
  match s.chomping with
  | .strip => []
  | .clip => first.toList
  | .keep => first.toList ++ more

end BlockStyle

inductive BlockPlace where
  /-- within a line, which begins with a visible character if `flush` says so -/
  | line (flush : Bool)
  /-- behind such a line and its line break, the line breaks of empty lines, and the given number of
  blanks at the start of the next line -/
  | between (flush : Bool) (first : Option Char) (more : Text) (column : Nat)
  deriving DecidableEq, Repr

/-- The rest of a block whose lines are indented by `indent`.  `passed` characters before the text
have been read that belong to the block only if a line follows. -/
def blockFrom (s : BlockStyle) (indent : Nat) : BlockPlace → (passed : Nat) → Text → Text × Nat
  | .line _, _, [] => ([], 0)
  | .line flush, _, c :: t =>
      if isBreak c then blockFrom s indent (.between flush (some c) [] 0) 1 t
      else
        let (text, n) := blockFrom s indent (.line flush) 0 t
        (c :: text, n + 1)
  | .between _ first more _, passed, [] => (s.close first more, passed)
  | .between flush first more column, passed, c :: t =>
      if c == ' ' && column < indent then
        blockFrom s indent (.between flush first more (column + 1)) (passed + 1) t
      else if isBreak c then
        blockFrom s indent (.between flush first (more ++ [c]) 0) (passed + 1) t
      else if column == indent then
        let (text, n) := blockFrom s indent (.line (!isGap c)) 0 t
        (s.join flush first more c ++ c :: text, passed + 1 + n)
      else (s.close first more, passed)

/-- The most blanks at the start of a line among the empty lines at the start of a text and the line
behind them; `column` is the number of blanks so far. -/
def leadingIndent (column : Nat) : Text → Nat
  | ' ' :: t => max (column + 1) (leadingIndent (column + 1) t)
  | c :: t => if isBreak c then leadingIndent 0 t else 0
  | [] => 0

/-- The block in a text that begins behind the line of the indicators, with the number of characters
that it takes.  Its lines are indented at least by `least`. -/
def block (s : BlockStyle) (least : Nat) (t : Text) : Text × Nat :=
  let indent := match s.increment with
    | some n => least + n - 1
    | none => max least (leadingIndent 0 t)
  blockFrom s indent (.between false none [] 0) 0 t

end Yaml
end ForceTry

import ForceTry.Text.Letter
import ForceTry.Token.Basic
import ForceTry.Token.Literal
import ForceTry.Token.Number
import ForceTry.Trivia.Scan

/-!
# From text to tokens

Every character of the source ends up in exactly one token.  The trivia behind a token up to the
next line break is its trailing trivia; all other trivia leads the following token, and what is
left at the end of the source leads the end-of-file token.

A `!` or `?` marks a `try` when it is the next token and the keyword has no trailing trivia.  Only
a string literal that is never closed stops the reading.
-/

namespace ForceTry
namespace Token

def operatorChars : Text :=
  ['/', '=', '-', '+', '*', '%', '<', '>', '!', '&', '|', '^', '~', '?', '.']

def isOperatorChar (c : Char) : Bool := operatorChars.contains c

def punctuation? : Char → Option TokenKind
  | '\x7b' => some .leftBrace
  | '\x7d' => some .rightBrace
  | '(' => some .leftParen
  | ')' => some .rightParen
  | '[' => some .leftSquare
  | ']' => some .rightSquare
  | ',' => some .comma
  | ':' => some .colon
  | ';' => some .semicolon
  | _ => none

def isIdentifierChar (c : Char) : Bool := c == '_' || Text.isWordChar c

def startsIdentifier (c : Char) : Bool := c == '$' || c == '_' || Text.isLetter c

def operatorTail : Text → Nat
  | [] => 0
  | c :: t =>
      let comment := match c, t with
        | '/', '/' :: _ => true
        | '/', '*' :: _ => true
        | _, _ => false
      if isOperatorChar c && !comment then operatorTail t + 1 else 0

def placeholderLength? (t : Text) : Option Nat :=
  match t with
  | '<' :: '#' :: r => (Text.find? ['#', '>'] r).map (· + 4)
  | _ => none

def backquotedLength (r : Text) : Nat :=
  match Text.find? ['\x60'] r with
  | some i => i + 2
  | none => r.length + 1

/-- Kind and length of the token at the start of `c :: r`, where no trivia stands.  `afterTry`
says that the token before it is a `try` without trailing trivia.  The error is the offset of a
string literal that is never closed. -/
def measure (afterTry : Bool) (c : Char) (r : Text) : Except Nat (TokenKind × Nat) :=
  if afterTry && c == '!' then .ok (.exclamationMark, 1)
  else if afterTry && c == '?' then .ok (.postfixQuestionMark, 1)
  else
    match placeholderLength? (c :: r) with
    | some n => .ok (.editorPlaceholder, n)
    | none =>
        match punctuation? c with
        | some kind => .ok (kind, 1)
        | none =>
            if c == '"' || (c == '#' && Literal.opensAt r) then
              (Literal.length (c :: r)).map fun n => (.stringLiteral, n)
            else if c == '#' then .ok (.poundKeyword, Text.runLength isIdentifierChar r + 1)
            else if c == '@' then .ok (.atSign, Text.runLength isIdentifierChar r + 1)
            else if c == '\x60' then .ok (.identifier, backquotedLength r)
            else if startsIdentifier c then
              let n := Text.runLength isIdentifierChar r + 1
              .ok (if isReserved ((c :: r).take n) then .keyword else .identifier, n)
            else
              match Numeral.length (c :: r) with
              | n + 1 =>
                  .ok (if Numeral.isFloat ((c :: r).take (n + 1)) then .floatLiteral
                    else .integerLiteral, n + 1)
              | 0 =>
                  if c == '.' && !Text.startsWith ['.'] r then .ok (.period, 1)
                  else if isOperatorChar c then .ok (.operatorSign, operatorTail r + 1)
                  else .ok (.unknown, 1)

def isBareTry (t : Token) : Bool := t.isKeyword "try" && t.trailing.isEmpty

theorem measure_pos {afterTry : Bool} {c : Char} {r : Text} {k : TokenKind} {n : Nat}
    (h : measure afterTry c r = .ok (k, n)) : 0 < n := by
  unfold measure at h
  split at h
  · cases h; decide
  split at h
  · cases h; decide
  split at h
  · next m hm =>
      cases h
      unfold placeholderLength? at hm
      split at hm
      · obtain ⟨i, -, rfl⟩ := Option.map_eq_some_iff.mp hm
        omega
      · cases hm
  split at h
  · cases h; decide
  split at h
  · cases hl : Literal.length (c :: r) with
    | error e => simp [hl, Except.map] at h
    | ok m =>
        simp only [hl, Except.map, Except.ok.injEq, Prod.mk.injEq] at h
        exact h.2 ▸ Literal.length_pos hl
  split at h
  · cases h; omega
  split at h
  · cases h; omega
  split at h
  · cases h
    unfold backquotedLength
    split <;> omega
  split at h
  · cases h; omega
  split at h
  · cases h; omega
  split at h
  · cases h; decide
  split at h <;> cases h <;> omega

end Token

/-- The tokens of a source: those with a text, and the trivia left for the end of file. -/
structure Tokens where
  body : List Token
  ending : Trivia
  deriving DecidableEq, Repr

namespace Tokens

def endOfFile (ts : Tokens) : Token := ⟨.endOfFile, [], ts.ending, []⟩

def toList (ts : Tokens) : List Token := ts.body ++ [ts.endOfFile]

def code (ts : Tokens) : Text := ts.toList.flatMap Token.code

/-- Reads the tokens of `t`.  `read` holds the tokens before it, last first.  The error is the
number of characters from the start of a literal that is never closed to the end of the source. -/
def readFrom (read : List Token) (t : Text) : Except Nat Tokens :=
  match _hl : Trivia.scan false t with
  | (leading, []) => .ok ⟨read.reverse, leading⟩
  | (leading, c :: r) =>
      match _hm : Token.measure ((read.head?.map Token.isBareTry).getD false) c r with
      | .error offset => .error ((c :: r).length - offset)
      | .ok (kind, n) =>
          match _ht : Trivia.scan true ((c :: r).drop n) with
          | (trailing, rest) =>
              readFrom (⟨kind, (c :: r).take n, leading, trailing⟩ :: read) rest
termination_by t.length
decreasing_by
  have h1 := Trivia.scan_length_le false t
  have h2 := Trivia.scan_length_le true ((c :: r).drop n)
  have h3 := Token.measure_pos _hm
  simp only [_hl, _ht, List.length_cons, List.length_drop] at h1 h2
  omega

/-- The tokens of a source, or the offset of a string literal that is never closed. -/
def ofText (source : Text) : Except Nat Tokens :=
  match readFrom [] source with
  | .ok ts => .ok ts
  | .error left => .error (source.length - left)

end Tokens
end ForceTry

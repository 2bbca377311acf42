import ForceTry.Text.Basic

/-!
# YAML texts

The characters on which the format rests, and what can be wrong with a document.

A document is read with its line breaks in one spelling (`unifyBreaks`): a carriage return, with or
without a line feed, and the next line character count as a line feed.  The line and the paragraph
separator stay as they are.
-/

namespace ForceTry
namespace Yaml

/-- Why a text is not a document with one value. -/
inductive Flaw where
  | unprintable
  | strayCharacter (c : Char)
  | unclosedQuote
  | markInQuote
  | badEscape
  | badBlockHeader
  | missingColon
  | misplaced
  | unmatchedBracket
  | badDirective
  | badAnchor
  | badTag
  | repeatedAnchor (name : Text)
  | unknownAnchor (name : Text)
  | badStructure
  | severalDocuments
  | unknownTag
  | badValue
  | badKey
  deriving DecidableEq, Repr

namespace Flaw

def message : Flaw → Text
  | unprintable => Text.ofString "special characters are not allowed"
  | strayCharacter c =>
      Text.ofString "found character " ++ ['\x27', c, '\x27'] ++
        Text.ofString " that cannot start any token"
  | unclosedQuote => Text.ofString "found unexpected end of stream"
  | markInQuote => Text.ofString "found unexpected document separator"
  | badEscape => Text.ofString "found unknown escape character"
  | badBlockHeader => Text.ofString "expected chomping or indentation indicators"
  | missingColon => Text.ofString "could not find expected \x27:\x27"
  | misplaced => Text.ofString "entries, keys and values are not allowed here"
  | unmatchedBracket => Text.ofString "expected the node content, but found a closing bracket"
  | badDirective => Text.ofString "found a directive that cannot be read"
  | badAnchor => Text.ofString "expected alphabetic or numeric character"
  | badTag => Text.ofString "found a tag that cannot be read"
  | repeatedAnchor name => Text.ofString "found duplicate anchor " ++ name
  | unknownAnchor name => Text.ofString "found undefined alias " ++ name
  | badStructure => Text.ofString "did not find the expected element"
  | severalDocuments => Text.ofString "expected a single document in the stream"
  | unknownTag => Text.ofString "could not determine a constructor for the tag"
  | badValue => Text.ofString "found a value that its tag does not allow"
  | badKey => Text.ofString "found unhashable key"

end Flaw

/-! ## Characters -/

def isPrintable (c : Char) : Bool :=
  let n := c.toNat
  n == 9 || n == 10 || n == 13 || (0x20 ≤ n && n ≤ 0x7e) || n == 0x85 ||
    (0xa0 ≤ n && n ≤ 0xd7ff) || (0xe000 ≤ n && n ≤ 0xfffd) || 0x10000 ≤ n

def isBreak (c : Char) : Bool := c == '\n' || c == '\u2028' || c == '\u2029'

def isGap (c : Char) : Bool := c == ' ' || c == '\t'

/-- A space, a tab, a line break or the end stands at the start of the text. -/
def blankAhead : Text → Bool
  | [] => true
  | c :: _ => isGap c || isBreak c

/-- A space, a line break or the end stands at the start of the text. -/
def spaceAhead : Text → Bool
  | [] => true
  | c :: _ => c == ' ' || isBreak c

def breakAhead : Text → Bool
  | [] => true
  | c :: _ => isBreak c

def isWord (c : Char) : Bool := c.isAlphanum || c == '-' || c == '_'

/-- The text starts with the given mark three times, as the marks between documents do. -/
def markAhead (c : Char) (t : Text) : Bool :=
  match t with
  | a :: b :: d :: rest => a == c && b == c && d == c && blankAhead rest
  | _ => false

def documentMarkAhead (t : Text) : Bool := markAhead '-' t || markAhead '.' t

def unifyBreaks : Text → Text
  | [] => []
  | '\r' :: '\n' :: t => '\n' :: unifyBreaks t
  | c :: t => (if c == '\r' || c == '\u0085' then '\n' else c) :: unifyBreaks t

end Yaml
end ForceTry

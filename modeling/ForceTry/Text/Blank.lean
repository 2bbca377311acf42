import ForceTry.Text.Basic

/-!
# Blank characters and words

The Unicode whitespace characters, and the words of a text: its longest parts without them.
-/

namespace ForceTry
namespace Text

/-- Unicode whitespace: the ASCII blanks with the separators U+001C to U+001F, next line, the
no-break spaces, the typographic spaces and the two line separators.  The zero-width space is not
among them. -/
def isBlank (c : Char) : Bool :=
  let n := c.toNat
  (9 ≤ n && n ≤ 13) || (0x1c ≤ n && n ≤ 0x20) || n == 0x85 || n == 0xa0 || n == 0x1680 ||
    (0x2000 ≤ n && n ≤ 0x200a) || n == 0x2028 || n == 0x2029 || n == 0x202f || n == 0x205f ||
    n == 0x3000

/-- The words of `t`; `word` holds the characters read so far of the word being read, last
character first. -/
def wordsFrom (word : Text) : Text → List Text
  | [] => if word = [] then [] else [word.reverse]
  | c :: t =>
      if isBlank c then
        if word = [] then wordsFrom [] t else word.reverse :: wordsFrom [] t
      else wordsFrom (c :: word) t

def words (t : Text) : List Text := wordsFrom [] t

def squeezed (t : Text) : Text := join [' '] (words t)

theorem isBlank_of_isWhitespace {c : Char} (h : c.isWhitespace = true) : isBlank c = true := by
  simp only [Char.isWhitespace, Bool.or_eq_true, decide_eq_true_eq] at h
  rcases h with ((h | h) | h) | h <;> subst h <;> decide

end Text
end ForceTry

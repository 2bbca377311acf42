import ForceTry.Text.Basic

/-!
# Lines of a text

A line ends behind its line break, which stays part of it; the last line may have none.  Line breaks
are the line feed, the carriage return with or without a line feed behind it, the vertical tab, the
form feed, the three separators U+001C to U+001E, next line, and the line and paragraph separators.
-/

namespace ForceTry
namespace Text

def breaksLine (c : Char) : Bool :=
  let n := c.toNat
  (10 ≤ n && n ≤ 13) || (0x1c ≤ n && n ≤ 0x1e) || n == 0x85 || n == 0x2028 || n == 0x2029

/-- The lines of `t`; `line` holds the characters of the line being read, last character first. -/
def linesFrom (line : Text) : Text → List Text
  | [] => if line = [] then [] else [line.reverse]
  | '\r' :: '\n' :: t => ('\n' :: '\r' :: line).reverse :: linesFrom [] t
  | c :: t =>
      if breaksLine c then (c :: line).reverse :: linesFrom [] t else linesFrom (c :: line) t

def lines (t : Text) : List Text := linesFrom [] t

theorem flatten_linesFrom (line t : Text) : (linesFrom line t).flatten = line.reverse ++ t := by
  fun_induction linesFrom line t <;> simp_all

@[simp] theorem flatten_lines (t : Text) : t.lines.flatten = t := by
  simp [lines, flatten_linesFrom]

/-- The text with a line feed for each carriage return, with or without a line feed behind it. -/
def unifyReturns : Text → Text
  | [] => []
  | '\r' :: '\n' :: t => '\n' :: unifyReturns t
  | c :: t => (if c == '\r' then '\n' else c) :: unifyReturns t

end Text
end ForceTry

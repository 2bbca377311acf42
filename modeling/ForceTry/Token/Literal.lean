import ForceTry.Text.Basic

/-!
# String literals

A string literal opens with any number of `#` and one or three quotes, and ends at the same quotes
and as many `#`.  A backslash with as many `#` escapes the next character, and escapes an opening
parenthesis into an interpolation, in which parentheses are counted and further string literals may
stand.  A literal between single quotes ends before a line feed.

Reading keeps the literals and interpolations that are open, innermost first, so that one pass over
the text settles how long the outermost literal is or which literal is never closed.
-/

namespace ForceTry
namespace Literal

inductive Layer where
  /-- a literal whose opening stands `start` characters behind the start of the outermost one -/
  | quoted (hashes : Nat) (multiline : Bool) (start : Nat)
  /-- an interpolation with `depth + 1` open parentheses -/
  | interpolation (depth : Nat)
  deriving DecidableEq, Repr

def quotes (multiline : Bool) : Text := if multiline then ['"', '"', '"'] else ['"']

def closing (hashes : Nat) (multiline : Bool) : Text :=
  quotes multiline ++ List.replicate hashes '#'

def escape (hashes : Nat) : Text := '\\' :: List.replicate hashes '#'

def opensMultiline (t : Text) : Bool := Text.startsWith (quotes true) t

/-- What the next character does: which layers are open behind it, and how many characters after
it belong to the same sign.  The answer `none` says that the innermost literal is broken off. -/
def step (layers : List Layer) (n : Nat) (t : Text) : Option (List Layer × Nat) :=
  match layers with
  | [] => none
  | .quoted hashes multiline start :: outer =>
      if Text.startsWith (closing hashes multiline) t then
        some (outer, (closing hashes multiline).length - 1)
      else if !multiline && Text.startsWith ['\n'] t then none
      else if Text.startsWith (escape hashes ++ ['(']) t then
        some (.interpolation 0 :: layers, hashes + 1)
      else if Text.startsWith (escape hashes) t then some (layers, hashes + 1)
      else some (.quoted hashes multiline start :: outer, 0)
  | .interpolation depth :: outer =>
      match t with
      | '"' :: _ =>
          let multiline := opensMultiline t
          some (.quoted 0 multiline n :: layers, (quotes multiline).length - 1)
      | '(' :: _ => some (.interpolation (depth + 1) :: outer, 0)
      | ')' :: _ =>
          match depth with
          | 0 => some (outer, 0)
          | depth + 1 => some (.interpolation depth :: outer, 0)
      | _ => some (layers, 0)

def innermost : List Layer → Nat
  | [] => 0
  | .quoted _ _ start :: _ => start
  | .interpolation _ :: outer => innermost outer

/-- Reads on until no layer is open.  `skip` characters still belong to the last sign, and `n`
characters have been read.  Answers the length of the outermost literal, or where the literal
starts that is never closed. -/
def lengthFrom (layers : List Layer) (skip n : Nat) : Text → Except Nat Nat
  | [] => if layers.isEmpty && skip == 0 then .ok n else .error (innermost layers)
  | c :: t =>
      match skip with
      | skip + 1 => lengthFrom layers skip (n + 1) t
      | 0 =>
          if layers.isEmpty then .ok n
          else
            match step layers n (c :: t) with
            | none => .error (innermost layers)
            | some (layers, skip) => lengthFrom layers skip (n + 1) t

def opensAt (t : Text) : Bool :=
  match t.dropWhile (· == '#') with
  | '"' :: _ => true
  | _ => false

/-- The length of the literal that opens at the start of `t`, or the offset of the literal in it
that is never closed. -/
def length (t : Text) : Except Nat Nat :=
  let hashes := Text.runLength (· == '#') t
  let multiline := opensMultiline (t.drop hashes)
  lengthFrom [.quoted hashes multiline 0] (hashes + (quotes multiline).length) 0 t

theorem lengthFrom_ge {layers : List Layer} {skip n m : Nat} {t : Text}
    (h : lengthFrom layers skip n t = .ok m) : n + skip ≤ m := by
  fun_induction lengthFrom layers skip n t with
  | case1 layers skip n hc =>
      simp only [Bool.and_eq_true, beq_iff_eq] at hc
      cases h
      omega
  | case2 => cases h
  | case3 layers n c t skip ih => have := ih h; omega
  | case4 layers n c t hc => cases h; omega
  | case5 => cases h
  | case6 layers n c t hc layers' skip' hs ih => have := ih h; omega

theorem length_pos {t : Text} {n : Nat} (h : length t = .ok n) : 0 < n := by
  have := lengthFrom_ge h
  have hq : 0 < (quotes (opensMultiline (t.drop (Text.runLength (· == '#') t)))).length := by
    unfold quotes
    split <;> simp
  omega

end Literal
end ForceTry

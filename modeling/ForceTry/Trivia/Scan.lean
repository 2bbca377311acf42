import ForceTry.Trivia.Basic

/-!
# Reading trivia

Where a piece of trivia ends.  A run takes as many equal blanks or line breaks as follow each
other; a carriage return counts only in front of a line feed.  A line comment ends before the next
carriage return or line feed.  Block comments nest, and one that is never closed takes the rest of
the text.  Each reader answers a length, so the piece and what follows are two parts of one text.
-/

namespace ForceTry

namespace Piece

def crlfPairs : Text → Nat
  | '\r' :: '\n' :: t => crlfPairs t + 1
  | _ => 0

/-- The end of a block comment.  `depth` counts the comments that are open inside the outermost
one, and `n` the characters read before `t`. -/
def blockEnd (depth n : Nat) : Text → Nat
  | '/' :: '*' :: t => blockEnd (depth + 1) (n + 2) t
  | '*' :: '/' :: t =>
      match depth with
      | 0 => n + 2
      | depth + 1 => blockEnd depth (n + 2) t
  | _ :: t => blockEnd depth (n + 1) t
  | [] => n

def staysInLine (c : Char) : Bool := c != '\r' && c != '\n'

def next? (t : Text) : Option (Piece × Nat) :=
  match t with
  | ' ' :: _ => let n := Text.runLength (· == ' ') t; some (spaces n, n)
  | '\t' :: _ => let n := Text.runLength (· == '\t') t; some (tabs n, n)
  | '\n' :: _ => let n := Text.runLength (· == '\n') t; some (newlines n, n)
  | '\r' :: '\n' :: _ => let n := crlfPairs t; some (carriageReturnLineFeeds n, 2 * n)
  | '/' :: '/' :: _ => let n := Text.runLength staysInLine t; some (.comment .line (t.take n), n)
  | '/' :: '*' :: r => let n := blockEnd 0 2 r; some (.comment .block (t.take n), n)
  | _ => none

theorem le_blockEnd (depth n : Nat) (t : Text) : n ≤ blockEnd depth n t := by
  fun_induction blockEnd depth n t <;> omega

theorem next?_length_pos {t : Text} {p : Piece} {n : Nat} (h : next? t = some (p, n)) :
    0 < n ∧ t ≠ [] := by
  unfold next? at h
  split at h <;> simp only [Option.some.injEq, Prod.mk.injEq, reduceCtorEq] at h
  · obtain ⟨-, rfl⟩ := h; simp [Text.runLength]
  · obtain ⟨-, rfl⟩ := h; simp [Text.runLength]
  · obtain ⟨-, rfl⟩ := h; simp [Text.runLength]
  · obtain ⟨-, rfl⟩ := h; simp [crlfPairs]
  · obtain ⟨-, rfl⟩ := h; simp [Text.runLength, staysInLine]
  · next r =>
      obtain ⟨-, rfl⟩ := h
      have := le_blockEnd 0 2 r
      exact ⟨by omega, by simp⟩

theorem length_drop_of_next? {t : Text} {p : Piece} {n : Nat} (h : next? t = some (p, n)) :
    (t.drop n).length < t.length := by
  obtain ⟨hn, ht⟩ := next?_length_pos h
  have := List.length_pos_iff.mpr ht
  simp only [List.length_drop]
  omega

end Piece

namespace Trivia

/-- Reads pieces as long as there are any and answers them with the rest of the text.  With
`inLine`, reading stops before a line break.  `read` holds the pieces read before, last first. -/
def scanFrom (inLine : Bool) (read : List Piece) (t : Text) : Trivia × Text :=
  match _h : Piece.next? t with
  | none => (read.reverse, t)
  | some (p, n) =>
      if inLine && p.isNewline then (read.reverse, t)
      else scanFrom inLine (p :: read) (t.drop n)
termination_by t.length
decreasing_by exact Piece.length_drop_of_next? _h

def scan (inLine : Bool) (t : Text) : Trivia × Text := scanFrom inLine [] t

/-- A text that is no trivia: `offset` is where reading stopped, and `found` is what stands
there. -/
structure Foreign where
  offset : Nat
  found : Text
  deriving DecidableEq, Repr

def Foreign.message (e : Foreign) : Text :=
  Text.ofString s!"Not trivia at offset {e.offset}: " ++ Text.quoted (e.found.take 10)

def ofText? (t : Text) : Except Foreign Trivia :=
  match scan false t with
  | (pieces, []) => .ok pieces
  | (_, rest) => .error ⟨t.length - rest.length, rest⟩

theorem scanFrom_length_le (inLine : Bool) (read : List Piece) (t : Text) :
    (scanFrom inLine read t).2.length ≤ t.length := by
  fun_induction scanFrom inLine read t with
  | case1 => exact Nat.le_refl _
  | case2 => exact Nat.le_refl _
  | case3 read t p n h _ ih => exact Nat.le_trans ih (Nat.le_of_lt (Piece.length_drop_of_next? h))

theorem scan_length_le (inLine : Bool) (t : Text) : (scan inLine t).2.length ≤ t.length :=
  scanFrom_length_le inLine [] t

end Trivia
end ForceTry

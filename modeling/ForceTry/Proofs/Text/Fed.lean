import ForceTry.Text.Lines

/-!
# Lines that end in a line feed

A text can be cut behind its line feeds only, where `lines` knows more line breaks.  Pieces of text that
are written one after the other are found again by this cut exactly where each of them ends in a line
feed; a piece that does not is joined with the next one.
-/

namespace ForceTry
namespace Text

def putFirst (s : Text) : List Text → List Text
  | [] => [s]
  | line :: lines => (s ++ line) :: lines

/-- The lines of a text that is cut behind its line feeds and nowhere else. -/
def feedLines : Text → List Text
  | [] => []
  | c :: t => if c = '\n' then [c] :: feedLines t else putFirst [c] (feedLines t)

def Fed (line : Text) : Prop := line.getLast? = some '\n'

instance (line : Text) : Decidable (Fed line) := inferInstanceAs (Decidable (_ = _))

/-- The line has characters, and a line feed at most at its end. -/
def IsLine (line : Text) : Prop := line ≠ [] ∧ '\n' ∉ line.dropLast

/-- The pieces, each joined with the next one if it does not end in a line feed. -/
def joinUnfed : List Text → List Text
  | [] => []
  | piece :: pieces =>
      if Fed piece then piece :: joinUnfed pieces else putFirst piece (joinUnfed pieces)

theorem putFirst_append (s t : Text) (lines : List Text) :
    putFirst (s ++ t) lines = putFirst s (putFirst t lines) := by
  cases lines with
  | nil => rfl
  | cons line lines => rw [putFirst, putFirst, putFirst, List.append_assoc]

theorem tail_putFirst (s : Text) (lines : List Text) : (putFirst s lines).tail = lines.tail := by
  cases lines <;> rfl

theorem flatten_putFirst (s : Text) (lines : List Text) :
    (putFirst s lines).flatten = s ++ lines.flatten := by
  cases lines with
  | nil => rfl
  | cons line lines => rw [putFirst, List.flatten_cons, List.flatten_cons, List.append_assoc]

theorem flatten_feedLines (t : Text) : (feedLines t).flatten = t := by
  induction t with
  | nil => rfl
  | cons c t ih =>
      rw [feedLines]
      split
      · rw [List.flatten_cons, ih]
        rfl
      · rw [flatten_putFirst, ih]
        rfl

/-- A line in front of a text is the first line of both together, or the start of it. -/
theorem IsLine.append {line t : Text} (h : IsLine line) :
    feedLines (line ++ t) =
      if Fed line then line :: feedLines t else putFirst line (feedLines t) := by
  rcases h with ⟨hne, hmem⟩
  induction line with
  | nil => exact absurd rfl hne
  | cons c line ih =>
      cases line with
      | nil =>
          have hfed : Fed [c] ↔ c = '\n' := by simp [Fed]
          rw [List.singleton_append, feedLines]
          simp only [hfed]
      | cons d line =>
          rw [List.dropLast_cons_of_ne_nil (List.cons_ne_nil _ _), List.mem_cons, not_or] at hmem
          have hfed : Fed (c :: d :: line) ↔ Fed (d :: line) := by
            rw [Fed, Fed, List.getLast?_cons_cons]
          rw [List.cons_append, feedLines, if_neg (Ne.symm hmem.1),
            ih (List.cons_ne_nil _ _) hmem.2]
          by_cases hd : Fed (d :: line)
          · rw [if_pos hd, if_pos (hfed.mpr hd)]
            rfl
          · rw [if_neg hd, if_neg fun hc => hd (hfed.mp hc), ← putFirst_append]
            rfl

theorem feedLines_flatten {pieces : List Text} (h : ∀ piece ∈ pieces, IsLine piece) :
    feedLines pieces.flatten = joinUnfed pieces := by
  induction pieces with
  | nil => rfl
  | cons piece pieces ih =>
      rw [List.flatten_cons, (h piece (List.mem_cons_self ..)).append,
        ih fun q hq => h q (List.mem_cons_of_mem _ hq)]
      rfl

theorem joinUnfed_of_fed {pieces : List Text} (h : ∀ piece ∈ pieces.dropLast, Fed piece) :
    joinUnfed pieces = pieces := by
  induction pieces with
  | nil => rfl
  | cons piece pieces ih =>
      cases pieces with
      | nil =>
          rw [joinUnfed]
          split <;> rfl
      | cons next pieces =>
          rw [List.dropLast_cons_of_ne_nil (List.cons_ne_nil _ _)] at h
          rw [joinUnfed, if_pos (h piece (List.mem_cons_self ..)),
            ih fun q hq => h q (List.mem_cons_of_mem _ hq)]

theorem joinUnfed_append {pieces : List Text} (h : ∀ piece ∈ pieces, Fed piece)
    (rest : List Text) : joinUnfed (pieces ++ rest) = pieces ++ joinUnfed rest := by
  induction pieces with
  | nil => rfl
  | cons piece pieces ih =>
      rw [List.cons_append, joinUnfed, if_pos (h piece (List.mem_cons_self ..)),
        ih fun q hq => h q (List.mem_cons_of_mem _ hq), List.cons_append]

theorem exists_unfed_behind {front behind : List Text} (hfront : ∀ piece ∈ front, Fed piece)
    (h : ∃ piece ∈ (front ++ behind).dropLast, ¬ Fed piece) :
    ∃ piece ∈ behind.dropLast, ¬ Fed piece := by
  rcases h with ⟨piece, hmem, hunfed⟩
  have hnotMem : piece ∉ front := fun hpiece => hunfed (hfront piece hpiece)
  cases behind with
  | nil =>
      rw [List.append_nil] at hmem
      exact absurd (List.dropLast_subset front hmem) hnotMem
  | cons next behind =>
      rw [List.dropLast_append_of_ne_nil (List.cons_ne_nil _ _)] at hmem
      exact ⟨piece, (List.mem_append.mp hmem).resolve_left hnotMem, hunfed⟩

theorem prefix_of_mem_joinUnfed {pieces : List Text} {joined : Text} (h : joined ∈ joinUnfed pieces) :
    ∃ piece ∈ pieces, piece <+: joined := by
  induction pieces with
  | nil => cases h
  | cons piece pieces ih =>
      have hrest : joined ∈ joinUnfed pieces → ∃ p ∈ piece :: pieces, p <+: joined := by
        intro hmem
        rcases ih hmem with ⟨p, hp, hprefix⟩
        exact ⟨p, List.mem_cons_of_mem _ hp, hprefix⟩
      rw [joinUnfed] at h
      split at h
      · rcases List.mem_cons.mp h with rfl | h
        · exact ⟨joined, List.mem_cons_self .., List.prefix_rfl⟩
        · exact hrest h
      · cases hjoined : joinUnfed pieces with
        | nil =>
            rw [hjoined] at h
            rw [List.mem_singleton.mp h]
            exact ⟨piece, List.mem_cons_self .., List.prefix_rfl⟩
        | cons next rest =>
            rw [hjoined] at h hrest
            rcases List.mem_cons.mp h with rfl | h
            · exact ⟨piece, List.mem_cons_self .., List.prefix_append _ _⟩
            · exact hrest (List.mem_cons_of_mem _ h)

/-!
# The lines of a text
-/

theorem isLine_of_notMem {line : Text} (hne : line ≠ []) (h : '\n' ∉ line) : IsLine line :=
  ⟨hne, fun hmem => h ((List.dropLast_sublist line).subset hmem)⟩

theorem isLine_concat {line : Text} (h : '\n' ∉ line) (c : Char) : IsLine (line ++ [c]) :=
  ⟨by simp, by rwa [List.dropLast_concat]⟩

theorem isLine_linesFrom {line t : Text} (h : '\n' ∉ line) : ∀ l ∈ linesFrom line t, IsLine l := by
  fun_induction linesFrom line t with
  | case1 =>
      intro l hl
      cases hl
  | case2 line hne =>
      intro l hl
      rw [List.mem_singleton.mp hl]
      exact isLine_of_notMem (by simpa using hne) (by simpa using h)
  | case3 line t ih =>
      rw [List.forall_mem_cons]
      refine ⟨?_, ih List.not_mem_nil⟩
      rw [List.reverse_cons]
      exact isLine_concat (by simpa using h) _
  | case4 line c t hpair hbreak ih =>
      rw [List.forall_mem_cons]
      refine ⟨?_, ih List.not_mem_nil⟩
      rw [List.reverse_cons]
      exact isLine_concat (by simpa using h) c
  | case5 line c t hpair hbreak ih =>
      apply ih
      rw [List.mem_cons, not_or]
      refine ⟨?_, h⟩
      rintro rfl
      exact hbreak rfl

theorem IsLine.cons {line : Text} (h : IsLine line) {c : Char} (hc : c ≠ '\n') :
    IsLine (c :: line) := by
  refine ⟨List.cons_ne_nil _ _, ?_⟩
  rw [List.dropLast_cons_of_ne_nil h.1, List.mem_cons, not_or]
  exact ⟨hc.symm, h.2⟩

theorem fed_concat (line : Text) : Fed (line ++ ['\n']) := List.getLast?_concat ..

theorem Fed.cons {line : Text} (h : Fed line) (c : Char) : Fed (c :: line) := by
  rw [Fed, List.getLast?_cons, h]
  rfl

theorem isLine_lines (t : Text) : ∀ l ∈ t.lines, IsLine l := isLine_linesFrom List.not_mem_nil

theorem feedLines_flatten_append {front : List Text} (hline : ∀ l ∈ front, IsLine l)
    (hfed : ∀ l ∈ front, Fed l) (t : Text) :
    feedLines (front.flatten ++ t) = front ++ feedLines t := by
  induction front with
  | nil => rfl
  | cons first front ih =>
      rw [List.flatten_cons, List.append_assoc, (hline first (List.mem_cons_self ..)).append,
        if_pos (hfed first (List.mem_cons_self ..)),
        ih (fun l hl => hline l (List.mem_cons_of_mem _ hl))
          (fun l hl => hfed l (List.mem_cons_of_mem _ hl)), List.cons_append]

/-- The lines at the start of a text, where all of them but the last line of the text end in a line
feed. -/
theorem feedLines_append {front behind : List Text} (hline : ∀ l ∈ front, IsLine l)
    (h : ∀ l ∈ (front ++ behind).dropLast.take front.length, Fed l) :
    feedLines (front ++ behind).flatten = front ++ feedLines behind.flatten := by
  cases behind with
  | nil =>
      rw [List.append_nil] at h ⊢
      rw [List.take_of_length_le (List.dropLast_sublist front).length_le] at h
      rw [feedLines_flatten hline, joinUnfed_of_fed h]
      exact (List.append_nil front).symm
  | cons l behind =>
      rw [List.dropLast_append_of_ne_nil (List.cons_ne_nil _ _), List.take_left] at h
      rw [List.flatten_append, feedLines_flatten_append hline h]

end Text
end ForceTry

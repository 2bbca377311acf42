import Mathlib.Algebra.GroupWithZero.Nat
import ForceTry.Proofs.Patch.Hunks
import ForceTry.Proofs.Text.Fed
import ForceTry.Proofs.Trivia.Canonical

/-!
# Reading patches

The reader of the unified format cuts a patch behind its line feeds.  The first two rows name the text on
both sides.  A hunk starts with a row of ranges, and rows marked by their first character follow until
the ranges are full.  A row that starts with a backslash takes the line feed away from the row in front
of it.

Written hunks are read again, each row as a segment of its own.  Every row fills at most one place in
each range, so rows that have run together leave places open.
-/

namespace ForceTry
namespace Patch

open Text

def number? (t : Text) : Option (Nat × Text) :=
  let n := runLength Char.isDigit t
  if n = 0 then none else some (Nat.ofDigitChars 10 (t.take n) 0, t.drop n)

/-- The length that ends a range, which is one where none is written, and the text behind it. -/
def length? : Text → Option (Nat × Text)
  | ',' :: t => number? t
  | t => some (1, t)

/-- The range that starts a text, as the number of lines in front of it and its length, and the text
behind it. -/
def range? (t : Text) : Option ((Nat × Nat) × Text) :=
  (number? t).bind fun (first, t) =>
  (length? t).map fun (length, t) => ((if length = 0 then first else first - 1, length), t)

/-- A row of ranges: the hunk that it starts, and the lengths of its two ranges. -/
def header? (row : Text) : Option (Hunk × Nat × Nat) :=
  (after? (ofString "@@ -") row).bind fun t =>
  (range? t).bind fun ((old, oldLength), t) =>
  (after? (ofString " +") t).bind fun t =>
  (range? t).bind fun ((new, newLength), t) =>
  (after? (ofString " @@") t).map fun _ => (⟨old, new, []⟩, oldLength, newLength)

def row? : Text → Option Segment
  | ' ' :: line => some (.keep [line])
  | '-' :: line => some (.change [line] [])
  | '+' :: line => some (.change [] [line])
  | _ => none

/-- The hunks that rows write down, where `current` is the hunk that is being read, and `old` and `new`
are the numbers of lines that its ranges still ask for. -/
def readFrom (current : Hunk) (old new : Nat) : List Text → Option (List Hunk)
  | [] => if old = 0 ∧ new = 0 then some [current] else none
  | row :: rows =>
      if old = 0 ∧ new = 0 then
        (header? row).bind fun (next, old, new) => (readFrom next old new rows).map (current :: ·)
      else
        (row? row).bind fun s =>
          if s.before.length ≤ old ∧ s.after.length ≤ new then
            readFrom (current.push s) (old - s.before.length) (new - s.after.length) rows
          else none

/-- The rows of a patch, where a row that starts with a backslash has taken away the line feed in front
of it. -/
def endings : List Text → List Text
  | row :: next :: rows =>
      if next.head? = some '\\' then row.dropLast :: endings rows else row :: endings (next :: rows)
  | rows => rows

def read? (patch : Text) : Option (List Hunk) :=
  match endings (feedLines patch) with
  | old :: new :: rows =>
      if startsWith (ofString "--- ") old ∧ startsWith (ofString "+++ ") new then
        (readFrom ⟨0, 0, []⟩ 0 0 rows).map List.tail
      else none
  | _ => none

/-- The text that a written patch makes of a text. -/
def patched? (patch old : Text) : Option Text :=
  (read? patch).bind fun hs => (applyFrom 0 0 (feedLines old) hs).map List.flatten

example :
    patched?
        (ofString "--- a/a.swift\n+++ b/a.swift\n@@ -1,2 +1,2 @@\n x\n-a\n" ++
          ofString "\\ No newline at end of file\n+b\n\\ No newline at end of file\n")
        (ofString "x\na") = some (ofString "x\nb") := by
  decide +kernel

/-!
# Ranges
-/

def EndsNumber (t : Text) : Prop := ∀ c ∈ t.head?, c.isDigit = false

theorem number?_repr (n : Nat) {t : Text} (h : EndsNumber t) :
    number? (ofString (Nat.repr n) ++ t) = some (n, t) := by
  have hdigits : ofString (Nat.repr n) = Nat.toDigits 10 n := by rw [ofString, Nat.toList_repr]
  have hlength : (Nat.toDigits 10 n).length ≠ 0 := by
    rw [Ne, List.length_eq_zero_iff]
    exact Nat.toDigits_ne_nil
  rw [hdigits, number?,
    runLength_append (fun c hc => Nat.isDigit_of_mem_toDigits (by decide) (by decide) hc) h,
    if_neg hlength, List.take_left, List.drop_left, Nat.ofDigitChars_ten_toDigits]

theorem range_eq (before length : Nat) :
    range before length = ofString (Nat.repr (if length = 0 then before else before + 1)) ++
      if length = 1 then [] else ',' :: ofString (Nat.repr length) := by
  unfold range
  split
  · exact (List.append_nil _).symm
  · have hshape : s!"{before},0" = Nat.repr before ++ ",0" := rfl
    rw [hshape, ofString, String.toList_append]
    rfl
  · next hone hzero =>
      have hshape : s!"{before + 1},{length}" =
          Nat.repr (before + 1) ++ "," ++ Nat.repr length := rfl
      rw [hshape, ofString, String.toList_append, String.toList_append, List.append_assoc,
        if_neg hzero, if_neg hone]
      rfl

theorem range?_range (before length : Nat) {t : Text} (h : EndsNumber t)
    (hcomma : t.head? ≠ some ',') : range? (range before length ++ t) = some ((before, length), t) := by
  have hlength : length? ((if length = 1 then [] else ',' :: ofString (Nat.repr length)) ++ t) =
      some (length, t) := by
    split
    · next hone =>
        rw [List.nil_append, hone]
        cases t with
        | nil => rfl
        | cons c t =>
            rw [length?]
            rintro u ⟨⟩
            exact hcomma rfl
    · exact number?_repr length h
  have hends : EndsNumber ((if length = 1 then [] else ',' :: ofString (Nat.repr length)) ++ t) := by
    split
    · exact h
    · rintro c ⟨⟩
      rfl
  rw [range_eq, List.append_assoc, range?, number?_repr _ hends, Option.bind_some]
  dsimp only
  rw [hlength, Option.map_some]
  dsimp only
  split <;> rfl

theorem notMem_repr (n : Nat) : '\n' ∉ ofString (Nat.repr n) := by
  rw [ofString, Nat.toList_repr]
  intro h
  cases Nat.isDigit_of_mem_toDigits (by decide) (by decide) h

theorem notMem_range (before length : Nat) : '\n' ∉ range before length := by
  rw [range_eq, List.mem_append, not_or]
  refine ⟨notMem_repr _, ?_⟩
  split
  · exact List.not_mem_nil
  · rw [List.mem_cons, not_or]
    exact ⟨by decide, notMem_repr _⟩

def Hunk.header (h : Hunk) : Text :=
  ofString "@@ -" ++ range h.old h.oldLength ++ ofString " +" ++ range h.new h.newLength ++
    ofString " @@\n"

theorem Hunk.written_eq (h : Hunk) :
    h.written = h.header :: h.segments.flatMap Segment.written := rfl

theorem header?_header (h : Hunk) :
    header? h.header = some (⟨h.old, h.new, []⟩, h.oldLength, h.newLength) := by
  have hplus : EndsNumber (ofString " +" ++ (range h.new h.newLength ++ ofString " @@\n")) := by
    rintro c ⟨⟩
    rfl
  have hat : EndsNumber (ofString " @@\n") := by
    rintro c ⟨⟩
    rfl
  rw [header?, Hunk.header, List.append_assoc, List.append_assoc, List.append_assoc, after?_append,
    Option.bind_some, range?_range _ _ hplus (by rintro ⟨⟩), Option.bind_some]
  dsimp only
  rw [after?_append, Option.bind_some, range?_range _ _ hat (by rintro ⟨⟩), Option.bind_some]
  rfl

theorem Hunk.header_eq_concat (h : Hunk) : ∃ line, h.header = line ++ ['\n'] ∧ '\n' ∉ line := by
  refine ⟨ofString "@@ -" ++ range h.old h.oldLength ++ ofString " +" ++ range h.new h.newLength ++
    ofString " @@", ?_, ?_⟩
  · rw [header, List.append_assoc _ (ofString " @@")]
    rfl
  · have hfirst : '\n' ∉ ofString "@@ -" := by decide
    have hplus : '\n' ∉ ofString " +" := by decide
    have hlast : '\n' ∉ ofString " @@" := by decide
    simp only [List.mem_append, notMem_range, hfirst, hplus, hlast, or_self, not_false_eq_true]

/-!
# Rows of a hunk
-/

namespace Segment

def singles : Segment → List Segment
  | keep lines => lines.map fun line => keep [line]
  | change removed added =>
      (removed.map fun line => change [line] []) ++ added.map fun line => change [] [line]

/-- The segment is written as one row, and the row is read as the segment. -/
def Single (s : Segment) : Prop := ∃ row, s.written = [row] ∧ row? row = some s

theorem before_singles (s : Segment) : s.singles.flatMap before = s.before := by
  cases s <;> simp [singles, before, List.flatMap_map]

theorem after_singles (s : Segment) : s.singles.flatMap after = s.after := by
  cases s <;> simp [singles, after, List.flatMap_map]

theorem written_singles (s : Segment) : s.singles.flatMap written = s.written := by
  cases s <;> simp [singles, written, List.flatMap_assoc, List.map_eq_flatMap]

theorem single_of_mem_singles {s t : Segment} (h : t ∈ s.singles) : t.Single := by
  cases s with
  | keep lines =>
      rcases List.mem_map.mp h with ⟨line, -, rfl⟩
      exact ⟨' ' :: line, rfl, rfl⟩
  | change removed added =>
      rcases List.mem_append.mp h with h | h
      · rcases List.mem_map.mp h with ⟨line, -, rfl⟩
        exact ⟨'-' :: line, rfl, rfl⟩
      · rcases List.mem_map.mp h with ⟨line, -, rfl⟩
        exact ⟨'+' :: line, rfl, rfl⟩

end Segment

namespace Hunk

def singles (h : Hunk) : Hunk := { h with segments := h.segments.flatMap Segment.singles }

theorem before_singles (h : Hunk) : h.singles.before = h.before := by
  simp [singles, before, List.flatMap_assoc, Segment.before_singles]

theorem after_singles (h : Hunk) : h.singles.after = h.after := by
  simp [singles, after, List.flatMap_assoc, Segment.after_singles]

end Hunk

theorem applyFrom_singles (old new : Nat) (rest : List Text) (hs : List Hunk) :
    applyFrom old new rest (hs.map Hunk.singles) = applyFrom old new rest hs := by
  induction hs generalizing old new rest with
  | nil => rfl
  | cons h hs ih =>
      rw [List.map_cons, applyFrom, applyFrom]
      simp only [Hunk.before_singles, Hunk.after_singles, ih]
      rfl

def load (row : Text) : Nat :=
  ((row? row).map fun s => s.before.length + s.after.length).getD 0

theorem load_pos {row : Text} {s : Segment} (h : row? row = some s) :
    0 < s.before.length + s.after.length := by
  unfold row? at h
  split at h
  · cases h
    exact Nat.succ_pos _
  · cases h
    exact Nat.succ_pos _
  · cases h
    exact Nat.succ_pos _
  · cases h

theorem load_append {row : Text} (hne : row ≠ []) (t : Text) : load (row ++ t) = load row := by
  cases row with
  | nil => exact absurd rfl hne
  | cons c row =>
      unfold load row?
      grind [Segment.before, Segment.after]

theorem load_of_readFrom {current : Hunk} {old new : Nat} {rows : List Text} {hs : List Hunk}
    (h : readFrom current old new rows = some hs) : old + new ≤ (rows.map load).sum := by
  induction rows generalizing current old new hs with
  | nil =>
      rw [readFrom] at h
      split at h
      · next hzero => omega
      · cases h
  | cons row rows ih =>
      rw [readFrom] at h
      split at h
      · next hzero => omega
      · rcases Option.bind_eq_some_iff.mp h with ⟨s, hs, hrest⟩
        split at hrest
        · next hle =>
            have hrows := ih hrest
            rw [List.map_cons, List.sum_cons, load, hs, Option.map_some, Option.getD_some]
            omega
        · cases hrest

theorem ne_nil_of_load {row : Text} (h : 0 < load row) : row ≠ [] := by
  rintro rfl
  exact absurd h (by decide)

/-- A row that is put in front of others gives its lines in place of the first of them. -/
theorem load_putFirst {row : Text} (hne : row ≠ []) (rows : List Text) :
    ((putFirst row rows).map load).sum = load row + (rows.tail.map load).sum := by
  cases rows with
  | nil => rfl
  | cons next rows =>
      rw [putFirst, List.map_cons, List.sum_cons, load_append hne]
      rfl

theorem load_tail (rows : List Text) : (rows.tail.map load).sum ≤ (rows.map load).sum := by
  cases rows with
  | nil => exact Nat.le_refl _
  | cons row rows => exact Nat.le_add_left ..

theorem load_joinUnfed_le {rows : List Text} (hpos : ∀ row ∈ rows, 0 < load row) :
    ((joinUnfed rows).map load).sum ≤ (rows.map load).sum := by
  induction rows with
  | nil => exact Nat.le_refl _
  | cons row rows ih =>
      have hrows := ih fun r hr => hpos r (List.mem_cons_of_mem _ hr)
      have htail := load_tail (joinUnfed rows)
      rw [joinUnfed, List.map_cons, List.sum_cons]
      split
      · rw [List.map_cons, List.sum_cons]
        omega
      · rw [load_putFirst (ne_nil_of_load (hpos row (List.mem_cons_self ..)))]
        omega

theorem load_tail_joinUnfed {rows : List Text} (hne : rows ≠ []) (hpos : ∀ row ∈ rows, 0 < load row) :
    ((joinUnfed rows).tail.map load).sum < (rows.map load).sum := by
  cases rows with
  | nil => exact absurd rfl hne
  | cons row rows =>
      have hrow := hpos row (List.mem_cons_self ..)
      have hrows := load_joinUnfed_le fun r hr => hpos r (List.mem_cons_of_mem _ hr)
      have htail := load_tail (joinUnfed rows)
      rw [joinUnfed, List.map_cons, List.sum_cons]
      split
      · rw [List.tail_cons]
        omega
      · rw [tail_putFirst]
        omega

theorem load_joinUnfed_lt {rows : List Text} (hpos : ∀ row ∈ rows, 0 < load row)
    (hunfed : ∃ row ∈ rows.dropLast, ¬ Fed row) :
    ((joinUnfed rows).map load).sum < (rows.map load).sum := by
  induction rows with
  | nil => exact absurd hunfed (by simp)
  | cons row rows ih =>
      have hposRest : ∀ r ∈ rows, 0 < load r := fun r hr => hpos r (List.mem_cons_of_mem _ hr)
      have hne : rows ≠ [] := by
        rintro rfl
        exact absurd hunfed (by simp)
      rw [List.dropLast_cons_of_ne_nil hne] at hunfed
      rw [joinUnfed, List.map_cons, List.sum_cons]
      split
      · next hfed =>
          rcases hunfed with ⟨r, hr, hrow⟩
          have hrest := ih hposRest
            ⟨r, (List.mem_cons.mp hr).resolve_left fun h => hrow (h ▸ hfed), hrow⟩
          rw [List.map_cons, List.sum_cons]
          omega
      · have htail := load_tail_joinUnfed hne hposRest
        rw [load_putFirst (ne_nil_of_load (hpos row (List.mem_cons_self ..)))]
        omega

theorem readFrom_written {segments : List Segment} (hsingle : ∀ s ∈ segments, s.Single)
    (current : Hunk) (rows : List Text) :
    readFrom current (segments.flatMap Segment.before).length
        (segments.flatMap Segment.after).length (segments.flatMap Segment.written ++ rows) =
      readFrom { current with segments := current.segments ++ segments } 0 0 rows := by
  induction segments generalizing current with
  | nil =>
      rw [List.append_nil]
      rfl
  | cons s segments ih =>
      rcases hsingle s (List.mem_cons_self ..) with ⟨row, hrow, hread⟩
      have hpos := load_pos hread
      rw [List.flatMap_cons, List.flatMap_cons, List.flatMap_cons, hrow, List.length_append,
        List.length_append, List.append_assoc, List.singleton_append, readFrom, if_neg (by omega),
        hread, Option.bind_some, if_pos (by omega), Nat.add_sub_cancel_left,
        Nat.add_sub_cancel_left, ih fun t ht => hsingle t (List.mem_cons_of_mem _ ht)]
      simp [Hunk.push]

theorem readFrom_hunk (current h : Hunk) (rows : List Text) :
    readFrom current 0 0 (h.written ++ rows) =
      (readFrom h.singles 0 0 rows).map (current :: ·) := by
  have hsingle : ∀ s ∈ h.segments.flatMap Segment.singles, s.Single := by
    intro s hs
    rcases List.mem_flatMap.mp hs with ⟨t, -, ht⟩
    exact Segment.single_of_mem_singles ht
  have hrows := readFrom_written hsingle ⟨h.old, h.new, []⟩ rows
  simp only [List.flatMap_assoc, Segment.before_singles, Segment.after_singles,
    Segment.written_singles] at hrows
  rw [Hunk.written_eq, List.cons_append, readFrom, if_pos ⟨rfl, rfl⟩, header?_header,
    Option.bind_some]
  dsimp only
  rw [Hunk.oldLength, Hunk.newLength, hrows]
  rfl

theorem readFrom_hunks (current : Hunk) (hs : List Hunk) :
    readFrom current 0 0 (hs.flatMap Hunk.written) = some (current :: hs.map Hunk.singles) := by
  induction hs generalizing current with
  | nil => rfl
  | cons h hs ih =>
      rw [List.flatMap_cons, readFrom_hunk, ih]
      rfl

theorem readFrom_hunks_append {rows : List Text} (h : ∀ current, readFrom current 0 0 rows = none)
    (hs : List Hunk) (current : Hunk) :
    readFrom current 0 0 (hs.flatMap Hunk.written ++ rows) = none := by
  induction hs generalizing current with
  | nil => exact h current
  | cons g hs ih => rw [List.flatMap_cons, List.append_assoc, readFrom_hunk, ih, Option.map_none]

theorem load_of_mem_written {row : Text} {s : Segment} (h : row ∈ s.written) : 0 < load row := by
  rw [← Segment.written_singles, List.mem_flatMap] at h
  rcases h with ⟨t, ht, hrow⟩
  rcases Segment.single_of_mem_singles ht with ⟨r, hwritten, hread⟩
  rw [hwritten, List.mem_singleton] at hrow
  rw [hrow, load, hread]
  exact load_pos hread

theorem sum_load_written (s : Segment) :
    (s.written.map load).sum = s.before.length + s.after.length := by
  have hone : ∀ (mark : Char) (n : Nat), (∀ line, load (mark :: line) = n) →
      ∀ lines : List Text, ((lines.map (mark :: ·)).map load).sum = n * lines.length := by
    intro mark n hmark lines
    induction lines with
    | nil => rfl
    | cons line lines ih =>
        rw [List.map_cons, List.map_cons, List.sum_cons, ih, hmark, List.length_cons, Nat.mul_succ]
        exact Nat.add_comm _ _
  cases s with
  | keep lines =>
      rw [Segment.written, hone ' ' 2 fun _ => rfl]
      exact Nat.two_mul _
  | change removed added =>
      rw [Segment.written, List.map_append, List.sum_append, hone '-' 1 fun _ => rfl,
        hone '+' 1 fun _ => rfl, Nat.one_mul, Nat.one_mul]
      rfl

theorem readFrom_joinUnfed {h : Hunk}
    (hunfed : ∃ r ∈ (h.segments.flatMap Segment.written).dropLast, ¬ Fed r) (current : Hunk) :
    readFrom current 0 0 (h.header :: joinUnfed (h.segments.flatMap Segment.written)) = none := by
  have hpos : ∀ r ∈ h.segments.flatMap Segment.written, 0 < load r := by
    intro r hr
    rcases List.mem_flatMap.mp hr with ⟨s, -, hs⟩
    exact load_of_mem_written hs
  have hsum : ((h.segments.flatMap Segment.written).map load).sum = h.oldLength + h.newLength := by
    rw [Hunk.oldLength, Hunk.newLength]
    induction h.segments with
    | nil => rfl
    | cons s segments ih =>
        simp only [List.flatMap_cons, List.map_append, List.sum_append, List.length_append,
          sum_load_written, ih]
        omega
  have hlt := load_joinUnfed_lt hpos hunfed
  have hnone : readFrom ⟨h.old, h.new, []⟩ h.oldLength h.newLength
      (joinUnfed (h.segments.flatMap Segment.written)) = none := by
    rw [Option.eq_none_iff_forall_ne_some]
    intro hs hread
    have hle := load_of_readFrom hread
    omega
  rw [readFrom, if_pos ⟨rfl, rfl⟩, header?_header, Option.bind_some]
  dsimp only
  rw [hnone]
  rfl

/-!
# Whole patches
-/

theorem endings_eq_self {rows : List Text} (h : ∀ row ∈ rows, row.head? ≠ some '\\') :
    endings rows = rows := by
  fun_induction endings rows with
  | case1 row next rows hhead ih =>
      exact absurd hhead (h next (List.mem_cons_of_mem _ (List.mem_cons_self ..)))
  | case2 row next rows hhead ih => rw [ih fun r hr => h r (List.mem_cons_of_mem _ hr)]
  | case3 => rfl

end Patch
end ForceTry

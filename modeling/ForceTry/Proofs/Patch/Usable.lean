import ForceTry.Proofs.Patch.Reading

/-!
# Usable patches

The patch between two texts is empty exactly for equal texts.  Any other patch is usable if all its rows
but the last one end in a line feed: reading it and applying it to the old text gives the new one.  A line
that ends in another line break, or in none, stands in a row as it is, with nothing behind it.  So a row
can run into the next one, and then the patch of two texts with line feeds between their lines is not
usable.
-/

namespace ForceTry
namespace Patch

open Text

variable {path old new : Text}

/-!
# Rows of a patch
-/

def hunksBetween (old new : Text) : List Hunk := hunks (script old.lines new.lines)

theorem unifiedLines_eq (path : Text) (h : hunksBetween old new ≠ []) :
    unifiedLines path old new =
      (ofString "--- a/" ++ path ++ ['\n']) :: (ofString "+++ b/" ++ path ++ ['\n']) ::
        (hunksBetween old new).flatMap Hunk.written := by
  unfold unifiedLines
  split
  · next hnil => exact absurd hnil h
  · rfl

theorem marked_of_mem {row : Text} {h : Hunk} (hrow : row ∈ h.segments.flatMap Segment.written) :
    ∃ mark ∈ [' ', '-', '+'], ∃ line, row = mark :: line ∧ (line ∈ h.before ∨ line ∈ h.after) := by
  rcases List.mem_flatMap.mp hrow with ⟨s, hs, hmem⟩
  have hbefore : ∀ line ∈ s.before, line ∈ h.before := fun line hl => List.mem_flatMap.mpr ⟨s, hs, hl⟩
  have hafter : ∀ line ∈ s.after, line ∈ h.after := fun line hl => List.mem_flatMap.mpr ⟨s, hs, hl⟩
  cases s with
  | keep lines =>
      rcases List.mem_map.mp hmem with ⟨line, hline, rfl⟩
      exact ⟨' ', by decide, line, rfl, Or.inl (hbefore line hline)⟩
  | change removed added =>
      rcases List.mem_append.mp hmem with hmem | hmem
      · rcases List.mem_map.mp hmem with ⟨line, hline, rfl⟩
        exact ⟨'-', by decide, line, rfl, Or.inl (hbefore line hline)⟩
      · rcases List.mem_map.mp hmem with ⟨line, hline, rfl⟩
        exact ⟨'+', by decide, line, rfl, Or.inr (hafter line hline)⟩

theorem inside_before (old new : Text) : Inside Segment.before old.lines (hunksBetween old new) := by
  have h := @inside_hunks Segment.before (fun _ => rfl) (script old.lines new.lines)
  rwa [before_script] at h

theorem inside_after (old new : Text) : Inside Segment.after new.lines (hunksBetween old new) := by
  have h := @inside_hunks Segment.after (fun _ => rfl) (script old.lines new.lines)
  rwa [after_script] at h

theorem rows_of_mem {row : Text} (hrow : row ∈ unifiedLines path old new) :
    row = ofString "--- a/" ++ path ++ ['\n'] ∨ row = ofString "+++ b/" ++ path ++ ['\n'] ∨
      (∃ h : Hunk, row = h.header) ∨
      ∃ mark ∈ [' ', '-', '+'], ∃ line, row = mark :: line ∧ (line ∈ old.lines ∨ line ∈ new.lines) := by
  by_cases hne : hunksBetween old new = []
  · have hnil : unifiedLines path old new = [] := by
      unfold unifiedLines
      rw [hunksBetween] at hne
      rw [hne]
    rw [hnil] at hrow
    cases hrow
  rw [unifiedLines_eq path hne, List.mem_cons, List.mem_cons] at hrow
  rcases hrow with hrow | hrow | hrow
  · exact Or.inl hrow
  · exact Or.inr (Or.inl hrow)
  rcases List.mem_flatMap.mp hrow with ⟨h, hh, hrow⟩
  rw [Hunk.written_eq, List.mem_cons] at hrow
  rcases hrow with hrow | hrow
  · exact Or.inr (Or.inr (Or.inl ⟨h, hrow⟩))
  rcases marked_of_mem hrow with ⟨mark, hmark, line, hline, hside⟩
  exact Or.inr (Or.inr (Or.inr ⟨mark, hmark, line, hline,
    hside.imp (fun hl => ((inside_before old new).all h hh).subset hl)
      (fun hl => ((inside_after old new).all h hh).subset hl)⟩))

theorem isLine_rows (hpath : '\n' ∉ path) : ∀ row ∈ unifiedLines path old new, IsLine row := by
  have hfile : ∀ side : Text, '\n' ∉ side → IsLine (side ++ path ++ ['\n']) := by
    intro side hside
    apply isLine_concat
    rw [List.mem_append, not_or]
    exact ⟨hside, hpath⟩
  intro row hrow
  rcases rows_of_mem hrow with rfl | rfl | ⟨h, rfl⟩ | ⟨mark, hmark, line, rfl, hline⟩
  · exact hfile _ (by decide)
  · exact hfile _ (by decide)
  · rcases h.header_eq_concat with ⟨line, hheader, hline⟩
    rw [hheader]
    exact isLine_concat hline _
  · apply IsLine.cons
    · exact hline.elim (isLine_lines old line) (isLine_lines new line)
    · rintro rfl
      exact absurd hmark (by decide)

theorem head_rows {row : Text} (hrow : row ∈ unifiedLines path old new) :
    ∃ c t, row = c :: t ∧ c ≠ '\\' := by
  rcases rows_of_mem hrow with rfl | rfl | ⟨h, rfl⟩ | ⟨mark, hmark, line, rfl, -⟩
  · exact ⟨'-', _, rfl, by decide⟩
  · exact ⟨'+', _, rfl, by decide⟩
  · exact ⟨'@', _, rfl, by decide⟩
  · refine ⟨mark, line, rfl, ?_⟩
    rintro rfl
    exact absurd hmark (by decide)

theorem Hunk.fed_header (h : Hunk) : Fed h.header := by
  rcases h.header_eq_concat with ⟨line, hheader, -⟩
  rw [hheader]
  exact fed_concat line

theorem fed_rows (hold : ∀ l ∈ old.lines, Fed l) (hnew : ∀ l ∈ new.lines, Fed l) :
    ∀ row ∈ unifiedLines path old new, Fed row := by
  intro row hrow
  rcases rows_of_mem hrow with rfl | rfl | ⟨h, rfl⟩ | ⟨mark, -, line, rfl, hline⟩
  · exact fed_concat _
  · exact fed_concat _
  · exact h.fed_header
  · exact (hline.elim (hold line) (hnew line)).cons mark

theorem fed_front (hold : ∀ l ∈ old.lines.dropLast, Fed l) (hnew : ∀ l ∈ new.lines.dropLast, Fed l) :
    ∀ row ∈ (hunksBetween old new).dropLast.flatMap Hunk.written, Fed row := by
  intro row hrow
  rcases List.mem_flatMap.mp hrow with ⟨h, hh, hrow⟩
  rw [Hunk.written_eq, List.mem_cons] at hrow
  rcases hrow with rfl | hrow
  · exact h.fed_header
  rcases marked_of_mem hrow with ⟨mark, -, line, rfl, hline⟩
  refine Fed.cons (hline.elim (fun hl => hold line ?_) fun hl => hnew line ?_) mark
  · exact ((inside_before old new).before h hh).subset hl
  · exact ((inside_after old new).before h hh).subset hl

/-!
# Reading
-/

theorem read?_unified (hpath : '\n' ∉ path) (hne : hunksBetween old new ≠ []) :
    read? (unified path old new) =
      (readFrom ⟨0, 0, []⟩ 0 0 (joinUnfed ((hunksBetween old new).flatMap Hunk.written))).map
        List.tail := by
  have hheads : ∀ row ∈ joinUnfed (unifiedLines path old new), row.head? ≠ some '\\' := by
    intro row hrow
    rcases prefix_of_mem_joinUnfed hrow with ⟨first, hfirst, rest, rfl⟩
    rcases head_rows hfirst with ⟨c, t, rfl, hc⟩
    intro hhead
    exact hc (Option.some.inj hhead)
  rw [read?, unified, feedLines_flatten (isLine_rows hpath), endings_eq_self hheads,
    unifiedLines_eq path hne, joinUnfed, if_pos (fed_concat _), joinUnfed, if_pos (fed_concat _)]
  exact if_pos ⟨rfl, rfl⟩

theorem read?_of_fed (hpath : '\n' ∉ path) (hne : hunksBetween old new ≠ [])
    (hfed : ∀ row ∈ (unifiedLines path old new).dropLast, Fed row) :
    read? (unified path old new) = some ((hunksBetween old new).map Hunk.singles) := by
  have hrows : ∀ row ∈ ((hunksBetween old new).flatMap Hunk.written).dropLast, Fed row := by
    intro row hrow
    apply hfed
    have hrest : (hunksBetween old new).flatMap Hunk.written ≠ [] := by
      intro hnil
      rw [hnil] at hrow
      cases hrow
    rw [unifiedLines_eq path hne, List.dropLast_cons_of_ne_nil (List.cons_ne_nil _ _),
      List.dropLast_cons_of_ne_nil hrest]
    exact List.mem_cons_of_mem _ (List.mem_cons_of_mem _ hrow)
  rw [read?_unified hpath hne, joinUnfed_of_fed hrows, readFrom_hunks]
  rfl

/-- A patch is not read where a row of its last hunk runs into the next one. -/
theorem read?_of_unfed (hpath : '\n' ∉ path) (hold : ∀ l ∈ old.lines.dropLast, Fed l)
    (hnew : ∀ l ∈ new.lines.dropLast, Fed l) (hne : hunksBetween old new ≠ [])
    (hunfed : ∃ row ∈ (unifiedLines path old new).dropLast, ¬ Fed row) :
    read? (unified path old new) = none := by
  have hfront := fed_front hold hnew
  have hlast := List.dropLast_concat_getLast hne
  generalize (hunksBetween old new).getLast hne = h at hlast
  have hrows : (hunksBetween old new).flatMap Hunk.written =
      (hunksBetween old new).dropLast.flatMap Hunk.written ++
        h.header :: h.segments.flatMap Segment.written := by
    rw [← Hunk.written_eq]
    calc
      (hunksBetween old new).flatMap Hunk.written =
          ((hunksBetween old new).dropLast ++ [h]).flatMap Hunk.written := by rw [hlast]
      _ = _ := by rw [List.flatMap_append, List.flatMap_singleton]
  generalize (hunksBetween old new).dropLast = front at hrows hfront
  have hunfedLast : ∃ row ∈ (h.segments.flatMap Segment.written).dropLast, ¬ Fed row := by
    rw [unifiedLines_eq path hne, hrows] at hunfed
    apply @exists_unfed_behind ((ofString "--- a/" ++ path ++ ['\n']) ::
      (ofString "+++ b/" ++ path ++ ['\n']) :: (front.flatMap Hunk.written ++ [h.header]))
    · simp only [List.forall_mem_cons, List.forall_mem_append]
      exact ⟨fed_concat _, fed_concat _, hfront, h.fed_header, List.forall_mem_nil _⟩
    · simpa using hunfed
  rw [read?_unified hpath hne, hrows, joinUnfed_append hfront, joinUnfed, if_pos h.fed_header,
    readFrom_hunks_append (readFrom_joinUnfed hunfedLast), Option.map_none]

/-!
# Applying
-/

theorem hunksBetween_eq_nil_iff (old new : Text) : hunksBetween old new = [] ↔ old = new := by
  constructor
  · intro h
    have hedits := edits_hunks (script old.lines new.lines)
    rw [before_script, after_script] at hedits
    rcases hedits with ⟨used, made, kept, hold, hnew, -, hall⟩
    have hnone := hall []
    rw [← hunksBetween, h, applyFrom, Option.some_inj, List.append_nil, List.append_nil] at hnone
    rw [← flatten_lines old, ← flatten_lines new, hold, hnew, hnone]
  · rintro rfl
    rw [hunksBetween, script, if_pos rfl]
    split <;> rfl

theorem unified_eq_nil_iff (path old new : Text) : unified path old new = [] ↔ old = new := by
  rw [← hunksBetween_eq_nil_iff old new]
  constructor
  · intro h
    by_contra hne
    rw [unified, unifiedLines_eq path hne] at h
    cases h
  · intro h
    rw [hunksBetween] at h
    rw [unified, unifiedLines, h]
    rfl

/-- The hunks between two texts apply to the rows of the old text, where each of its lines that they look
at ends in a line feed or is the last one. -/
theorem applyFrom_hunksBetween
    (hold : ∀ l ∈ old.lines.dropLast.take (reach (hunksBetween old new)), Fed l) :
    (applyFrom 0 0 (feedLines old) (hunksBetween old new)).map List.flatten = some new := by
  have hedits := edits_hunks (script old.lines new.lines)
  rw [before_script, after_script] at hedits
  rcases hedits with ⟨used, made, kept, hlines, hnew, hreach, hall⟩
  have hline : ∀ l ∈ used, IsLine l :=
    fun l hl => isLine_lines old l (by rw [hlines]; exact List.mem_append_left _ hl)
  rw [hunksBetween, hreach, Nat.zero_add, hlines] at hold
  have hrows : feedLines old = used ++ feedLines kept.flatten := by
    rw [← feedLines_append hline hold, ← hlines, flatten_lines]
  rw [hrows, hunksBetween, hall, Option.map_some, List.flatten_append, flatten_feedLines,
    ← List.flatten_append, ← hnew, flatten_lines]

theorem patched?_of_fed (hpath : '\n' ∉ path) (hne : old ≠ new)
    (hfed : ∀ row ∈ (unifiedLines path old new).dropLast, Fed row)
    (hold : ∀ l ∈ old.lines.dropLast.take (reach (hunksBetween old new)), Fed l) :
    patched? (unified path old new) old = some new := by
  have hhunks : hunksBetween old new ≠ [] := mt (hunksBetween_eq_nil_iff old new).mp hne
  rw [patched?, read?_of_fed hpath hhunks hfed, Option.bind_some, applyFrom_singles,
    applyFrom_hunksBetween hold]

/-- The patch between two texts is empty exactly if they are equal.  Otherwise applying it to the old text
gives the new text if no row but the last ends without a line feed, and no line of the old text in front
of the end of the last hunk does, but for the last line.  Of two texts where line feeds end all lines
but the last, the rows alone decide. -/
theorem unified_usable (hpath : '\n' ∉ path) (old new : Text) :
    (unified path old new = [] ↔ old = new) ∧
      (old ≠ new → (∀ row ∈ (unifiedLines path old new).dropLast, Fed row) →
        (∀ l ∈ old.lines.dropLast.take (reach (hunksBetween old new)), Fed l) →
        patched? (unified path old new) old = some new) ∧
      (old ≠ new → (∀ l ∈ old.lines.dropLast, Fed l) → (∀ l ∈ new.lines.dropLast, Fed l) →
        (patched? (unified path old new) old = some new ↔
          ∀ row ∈ (unifiedLines path old new).dropLast, Fed row)) := by
  refine ⟨unified_eq_nil_iff path old new, patched?_of_fed hpath, fun hne hold hnew => ⟨?_, ?_⟩⟩
  · intro h
    by_contra hunfed
    have hhunks : hunksBetween old new ≠ [] := mt (hunksBetween_eq_nil_iff old new).mp hne
    rw [patched?, read?_of_unfed hpath hold hnew hhunks (by simpa using hunfed)] at h
    cases h
  · intro hfed
    exact patched?_of_fed hpath hne hfed fun l hl => hold l (List.mem_of_mem_take hl)

theorem unified_usable_terminated :
    let path := ofString "Sources/a.swift"
    let old := ofString "let a = try! f()\n\nprint(a)\n"
    let new := ofString "let a = try? f()\n\nprint(a)\n// done\n"
    '\n' ∉ path ∧ old ≠ new ∧ unified path old new ≠ [] ∧
      patched? (unified path old new) old = some new ∧ unified path new new = [] := by
  intro path old new
  have hpath : '\n' ∉ path := by decide
  have hne : old ≠ new := by decide
  have hold : ∀ l ∈ old.lines, Fed l := by decide +kernel
  have hnew : ∀ l ∈ new.lines, Fed l := by decide +kernel
  have hrows := @fed_rows path old new hold hnew
  rcases unified_usable hpath old new with ⟨hempty, -, husable⟩
  refine ⟨hpath, hne, fun hnil => hne (hempty.mp hnil), ?_, (unified_usable hpath new new).1.mpr rfl⟩
  exact (husable hne (fun l hl => hold l (List.dropLast_subset _ hl))
    fun l hl => hnew l (List.dropLast_subset _ hl)).mpr
      fun row hrow => hrows row (List.dropLast_subset _ hrow)

theorem script_singleton {x y : Text} (h : x ≠ y) : script [x] [y] = [.change [x] [y]] := by
  have hlength : ∀ i j, commonLength ([x].drop i) ([y].drop j) = 0 := by
    intro i j
    cases i with
    | zero =>
        cases j with
        | zero => exact if_neg h
        | succ j => simp [commonLength]
    | succ i => simp [commonLength]
  have hne : [x] ≠ [y] := fun heq => h (List.cons.inj heq).1
  have hrun : (runBetween (anchors [x] [y]) ⟨[x], 0⟩ ⟨[y], 0⟩).length = 0 := by
    rw [length_runBetween]
    exact hlength _ _
  rw [script, if_neg hne, scriptFrom, dif_pos hrun]
  rfl

/-- The lines of this patch run together: it is no patch that a reader accepts. -/
theorem not_patched_of_open_lines :
    let old := ofString "a"
    let new := ofString "b"
    unified (ofString "a.swift") old new =
        ofString "--- a/a.swift\n+++ b/a.swift\n@@ -1 +1 @@\n-a+b" ∧
      patched? (unified (ofString "a.swift") old new) old = none := by
  have hscript : script (ofString "a").lines (ofString "b").lines =
      [.change [ofString "a"] [ofString "b"]] := script_singleton (by decide)
  have hunified : unified (ofString "a.swift") (ofString "a") (ofString "b") =
      ofString "--- a/a.swift\n+++ b/a.swift\n@@ -1 +1 @@\n-a+b" := by
    rw [unified, unifiedLines, hscript]
    decide +kernel
  refine ⟨hunified, ?_⟩
  rw [hunified]
  decide +kernel

end Patch
end ForceTry

import ForceTry.Patch.Unified

/-!
# Applying hunks

A hunk can be applied to lines where its own old lines stand at the place that it names.  The hunks of
an edit script apply one after the other to the old lines and give the new ones.  They look at no line
behind the last of them.
-/

namespace ForceTry
namespace Patch

namespace Hunk

/-- The lines of a hunk before the edit. -/
def before (h : Hunk) : List Text := h.segments.flatMap Segment.before

/-- The lines of a hunk after the edit. -/
def after (h : Hunk) : List Text := h.segments.flatMap Segment.after

theorem before_push (h : Hunk) (s : Segment) : (h.push s).before = h.before ++ s.before := by
  simp [before, push]

theorem after_push (h : Hunk) (s : Segment) : (h.push s).after = h.after ++ s.after := by
  simp [after, push]

end Hunk

/-- The lines that hunks make of `rest`, where `old` lines stand in front of `rest` and `new` lines have
been made of these.  Every hunk must find its lines where it names them. -/
def applyFrom (old new : Nat) (rest : List Text) : List Hunk → Option (List Text)
  | [] => some rest
  | h :: hs =>
      let gap := rest.take (h.old - old)
      let here := rest.drop (h.old - old)
      if h.old = old + gap.length ∧ h.new = new + gap.length ∧ h.before.isPrefixOf here then
        (applyFrom (h.old + h.before.length) (h.new + h.after.length)
          (here.drop h.before.length) hs).map (gap ++ h.after ++ ·)
      else none

variable {old new : Nat} {h : Hunk} {hs : List Hunk}

theorem applyFrom_cons {gap : List Text} (hold : h.old = old + gap.length)
    (hnew : h.new = new + gap.length) (rest : List Text) :
    applyFrom old new (gap ++ h.before ++ rest) (h :: hs) =
      (applyFrom (h.old + h.before.length) (h.new + h.after.length) rest hs).map
        (gap ++ h.after ++ ·) := by
  have hgap : h.old - old = gap.length := by omega
  rw [applyFrom, hgap, List.append_assoc, List.take_left, List.drop_left, if_pos, List.drop_left]
  exact ⟨hold, hnew, by simp⟩

/-- The number of old lines up to the end of the last hunk. -/
def reach (hs : List Hunk) : Nat := (hs.getLast?.map fun h => h.old + h.before.length).getD 0

/-- The hunks turn the lines `old` into the lines `new`, where the numbers of lines stand in front of
these.  They look at no line behind the last of them. -/
def Edits (oldFront newFront : Nat) (old new : List Text) (hs : List Hunk) : Prop :=
  ∃ used made kept, old = used ++ kept ∧ new = made ++ kept ∧ reach hs = oldFront + used.length ∧
    ∀ tail, applyFrom oldFront newFront (used ++ tail) hs = some (made ++ tail)

theorem reach_cons (h : Hunk) {hs : List Hunk} (hne : hs ≠ []) : reach (h :: hs) = reach hs := by
  cases hs with
  | nil => exact absurd rfl hne
  | cons g hs => rw [reach, reach, List.getLast?_cons_cons]

theorem hunksFrom_ne_nil (current : Hunk) (segments : List Segment) :
    hunksFrom current segments ≠ [] := by
  fun_induction hunksFrom current segments with
  | case1 => exact List.cons_ne_nil _ _
  | case2 current removed added rest ih => exact ih
  | case3 => exact List.cons_ne_nil _ _
  | case4 => exact List.cons_ne_nil _ _
  | case5 current lines rest hrest hshort ih => exact ih

theorem edits_singleton {gap : List Text} (hold : h.old = old + gap.length)
    (hnew : h.new = new + gap.length) (kept : List Text) :
    Edits old new (gap ++ h.before ++ kept) (gap ++ h.after ++ kept) [h] := by
  refine ⟨gap ++ h.before, gap ++ h.after, kept, rfl, rfl, ?_, ?_⟩
  · simp [reach, hold]
    omega
  · intro tail
    rw [applyFrom_cons hold hnew]
    rfl

theorem edits_cons {gap rest rest' : List Text} (hold : h.old = old + gap.length)
    (hnew : h.new = new + gap.length) (hne : hs ≠ [])
    (hrest : Edits (h.old + h.before.length) (h.new + h.after.length) rest rest' hs) :
    Edits old new (gap ++ h.before ++ rest) (gap ++ h.after ++ rest') (h :: hs) := by
  rcases hrest with ⟨used, made, kept, rfl, rfl, hreach, hall⟩
  refine ⟨gap ++ h.before ++ used, gap ++ h.after ++ made, kept, ?_, ?_, ?_, ?_⟩
  · simp
  · simp
  · rw [reach_cons h hne, hreach]
    simp
    omega
  · intro tail
    rw [List.append_assoc (gap ++ h.before), applyFrom_cons hold hnew, hall]
    simp

/-- A long run of kept lines: its first lines end a hunk, its last lines start the next one, and there are
lines between them. -/
theorem split_long {lines : List Text} (h : 2 * contextLines < lines.length) :
    ∃ middle, lines = lines.take contextLines ++ (middle ++ lastOf contextLines lines) ∧
      middle.length + 2 * contextLines = lines.length := by
  refine ⟨(lines.drop contextLines).take (lines.length - 2 * contextLines), ?_, ?_⟩
  · have hlast : lastOf contextLines lines =
        (lines.drop contextLines).drop (lines.length - 2 * contextLines) := by
      rw [lastOf, List.drop_drop]
      congr 1
      omega
    rw [hlast, List.take_append_drop, List.take_append_drop]
  · rw [List.length_take, List.length_drop]
    omega

/-- A hunk that ends in a long run of kept lines, in front of the hunks behind this run. -/
theorem edits_long {current : Hunk} {lines : List Text} {rest : List Segment} {gap : List Text}
    (hlong : 2 * contextLines < lines.length)
    (hold : current.old = old + gap.length) (hnew : current.new = new + gap.length)
    (ih : ∀ {current : Hunk} {old new : Nat} {gap : List Text}, current.old = old + gap.length →
      current.new = new + gap.length →
      Edits old new (gap ++ current.before ++ rest.flatMap Segment.before)
        (gap ++ current.after ++ rest.flatMap Segment.after) (hunksFrom current rest)) :
    Edits old new (gap ++ current.before ++ (lines ++ rest.flatMap Segment.before))
      (gap ++ current.after ++ (lines ++ rest.flatMap Segment.after))
      (current.push (.keep (lines.take contextLines)) ::
        hunksFrom ⟨current.old + current.oldLength + (lines.length - contextLines),
          current.new + current.newLength + (lines.length - contextLines),
          [.keep (lastOf contextLines lines)]⟩ rest) := by
  rcases split_long hlong with ⟨middle, hlines, hlength⟩
  have hfirst : (lines.take contextLines).length = contextLines := by
    rw [List.length_take]
    omega
  have hbefore := Hunk.before_push current (.keep (lines.take contextLines))
  have hafter := Hunk.after_push current (.keep (lines.take contextLines))
  have hrest := @ih ⟨current.old + current.oldLength + (lines.length - contextLines),
    current.new + current.newLength + (lines.length - contextLines),
    [.keep (lastOf contextLines lines)]⟩
    (current.old + (current.push (.keep (lines.take contextLines))).before.length)
    (current.new + (current.push (.keep (lines.take contextLines))).after.length) middle
    (by
      rw [hbefore, List.length_append, Segment.before, hfirst]
      show current.old + current.before.length + _ = _
      omega)
    (by
      rw [hafter, List.length_append, Segment.after, hfirst]
      show current.new + current.after.length + _ = _
      omega)
  have hall := edits_cons (h := current.push (.keep (lines.take contextLines))) hold hnew
    (hunksFrom_ne_nil _ _) hrest
  have hside : ∀ front behind : List Text, front ++ (lines ++ behind) =
      front ++ lines.take contextLines ++ (middle ++ lastOf contextLines lines ++ behind) := by
    intro front behind
    calc
      front ++ (lines ++ behind) =
          front ++ ((lines.take contextLines ++ (middle ++ lastOf contextLines lines)) ++ behind) := by
        rw [← hlines]
      _ = _ := by simp only [List.append_assoc]
  rw [hbefore, hafter] at hall
  rw [hside, hside]
  simpa [Hunk.before, Hunk.after, Segment.before, Segment.after] using hall

theorem edits_hunksFrom (segments : List Segment) {current : Hunk} {gap : List Text}
    (hold : current.old = old + gap.length) (hnew : current.new = new + gap.length) :
    Edits old new (gap ++ current.before ++ segments.flatMap Segment.before)
      (gap ++ current.after ++ segments.flatMap Segment.after) (hunksFrom current segments) := by
  -- By induction on the segments. Each one goes into the hunk that is being made, until a long run
  -- of kept lines ends this hunk.
  induction segments generalizing current old new gap with
  | nil => exact edits_singleton hold hnew []
  | cons segment rest ih =>
      cases segment with
      | change removed added =>
          have hrest := @ih old new (current.push (.change removed added)) gap hold hnew
          rw [Hunk.before_push, Hunk.after_push] at hrest
          rw [hunksFrom]
          simpa using hrest
      | keep lines =>
          rw [hunksFrom]
          split
          · next hrest =>
              rw [List.isEmpty_iff.mp hrest]
              have hlast := @edits_singleton old new
                (current.push (.keep (lines.take contextLines))) gap hold hnew
                (lines.drop contextLines)
              rw [Hunk.before_push, Hunk.after_push] at hlast
              simpa [Segment.before, Segment.after] using hlast
          split
          · next hlong => exact edits_long hlong hold hnew ih
          · have hrest := @ih old new (current.push (.keep lines)) gap hold hnew
            rw [Hunk.before_push, Hunk.after_push] at hrest
            simpa using hrest

theorem edits_hunks (segments : List Segment) :
    Edits 0 0 (segments.flatMap Segment.before) (segments.flatMap Segment.after)
      (hunks segments) := by
  unfold hunks
  split
  · exact ⟨[], [], [], rfl, rfl, rfl, fun _ => rfl⟩
  · next lines =>
      refine ⟨[], [], lines, ?_, ?_, rfl, fun _ => rfl⟩
      · simp [Segment.before]
      · simp [Segment.after]
  · next lines rest _ =>
      have hlength : (lines.take (lines.length - contextLines)).length =
          lines.length - contextLines := by
        rw [List.length_take]
        omega
      have hall := @edits_hunksFrom 0 0 rest
        ⟨lines.length - contextLines, lines.length - contextLines,
          [.keep (lastOf contextLines lines)]⟩
        (lines.take (lines.length - contextLines)) (by rw [hlength, Nat.zero_add])
        (by rw [hlength, Nat.zero_add])
      simpa [Hunk.before, Hunk.after, Segment.before, Segment.after, lastOf] using hall
  · exact @edits_hunksFrom 0 0 segments ⟨0, 0, []⟩ [] rfl rfl

/-!
# Lines of hunks
-/

theorem dropLast_sublist_dropLast {xs ys : List Text} (h : xs.Sublist ys) :
    xs.dropLast.Sublist ys.dropLast := by
  simpa using h.reverse.tail.reverse

section Side

variable (side : Segment → List Text)

/-- The lines of the hunks on one side stand among the given lines, and a line of a hunk that is not the
last one is not the last of them. -/
structure Inside (lines : List Text) (hs : List Hunk) : Prop where
  all : ∀ h ∈ hs, (h.segments.flatMap side).Sublist lines
  before : ∀ h ∈ hs.dropLast, (h.segments.flatMap side).Sublist lines.dropLast

variable {side} {lines lines' : List Text}

theorem Inside.mono (h : Inside side lines hs) (hsub : lines.Sublist lines') :
    Inside side lines' hs :=
  ⟨fun g hg => (h.all g hg).trans hsub,
    fun g hg => (h.before g hg).trans (dropLast_sublist_dropLast hsub)⟩

theorem Inside.nil (lines : List Text) : Inside side lines [] :=
  ⟨List.forall_mem_nil _, List.forall_mem_nil _⟩

theorem Inside.singleton (hsub : (h.segments.flatMap side).Sublist lines) :
    Inside side lines [h] := by
  refine ⟨fun g hg => ?_, fun g hg => nomatch hg⟩
  rw [List.mem_singleton.mp hg]
  exact hsub

theorem Inside.cons {behind : List Text} (hall : Inside side lines hs) (hne : hs ≠ [])
    (hbehind : behind ≠ []) (hsub : (h.segments.flatMap side ++ behind).Sublist lines) :
    Inside side lines (h :: hs) := by
  constructor
  · rw [List.forall_mem_cons]
    exact ⟨(List.sublist_append_left _ _).trans hsub, hall.all⟩
  · rw [List.dropLast_cons_of_ne_nil hne, List.forall_mem_cons]
    have hlast := dropLast_sublist_dropLast hsub
    rw [List.dropLast_append_of_ne_nil hbehind] at hlast
    exact ⟨(List.sublist_append_left _ _).trans hlast, hall.before⟩

variable (hside : ∀ lines, side (.keep lines) = lines)
include hside

theorem inside_hunksFrom (segments : List Segment) (current : Hunk) :
    Inside side ((current.segments ++ segments).flatMap side) (hunksFrom current segments) := by
  -- By induction on the segments; only a long run of kept lines is divided between two hunks.
  induction segments generalizing current with
  | nil =>
      apply Inside.singleton
      simp
  | cons segment rest ih =>
      cases segment with
      | change removed added =>
          rw [hunksFrom]
          simpa [Hunk.push] using ih (current.push (.change removed added))
      | keep lines =>
          rw [hunksFrom]
          split
          · apply Inside.singleton
            simp only [Hunk.push, List.flatMap_append, List.flatMap_cons, hside, List.flatMap_nil,
              List.append_nil]
            exact (List.Sublist.refl _).append
              ((List.take_sublist _ _).trans (List.sublist_append_left _ _))
          split
          · next hlong =>
              have hbehind : lines.drop contextLines ≠ [] := by
                rw [Ne, List.drop_eq_nil_iff]
                omega
              have hsplit := List.take_append_drop contextLines lines
              apply Inside.cons _ (hunksFrom_ne_nil _ _) hbehind
              · simp only [Hunk.push, List.flatMap_append, List.flatMap_cons, hside,
                  List.flatMap_nil, List.append_nil, List.append_assoc]
                rw [hsplit]
                exact (List.Sublist.refl _).append (List.sublist_append_left _ _)
              · apply (ih _).mono
                simp only [List.flatMap_append, List.flatMap_cons, hside, List.flatMap_nil,
                  List.append_nil]
                exact ((List.drop_sublist _ _).append (List.Sublist.refl _)).trans
                  (List.sublist_append_right _ _)
          · simpa [Hunk.push] using ih (current.push (.keep lines))

theorem inside_hunks (segments : List Segment) :
    Inside side (segments.flatMap side) (hunks segments) := by
  unfold hunks
  split
  · exact Inside.nil _
  · exact Inside.nil _
  · next lines rest _ =>
      apply (inside_hunksFrom hside rest _).mono
      simp only [List.flatMap_append, List.flatMap_cons, hside, List.flatMap_nil, List.append_nil]
      exact (List.drop_sublist _ _).append (List.Sublist.refl _)
  · exact inside_hunksFrom hside segments ⟨0, 0, []⟩

end Side

end Patch
end ForceTry

import ForceTry.Text.Lines
import Std.Data.HashMap

/-!
# Edit scripts

An edit script turns one list of lines into another.  It is a list of segments: lines that stay, and
lines that are removed with the lines that are added in their place.

The script is found by taking the longest run of lines that stay, and going on in the same way in
front of it and behind it.  Runs are looked for at anchors only.  In a long text the lines that
occur very often are no anchors; they may stay all the same, next to an anchor or at the start of a
part.  The search decides only where a run starts.  Its length is then counted on the lines
themselves, so a script is right wherever the search leads.
-/

namespace ForceTry
namespace Patch

inductive Segment where
  | keep (lines : List Text)
  | change (removed added : List Text)
  deriving DecidableEq, Repr

namespace Segment

def before : Segment → List Text
  | keep lines => lines
  | change removed _ => removed

def after : Segment → List Text
  | keep lines => lines
  | change _ added => added

end Segment

def commonLength : (old new : List Text) → Nat
  | x :: old, y :: new => if x = y then commonLength old new + 1 else 0
  | _, _ => 0

theorem take_commonLength (old new : List Text) :
    old.take (commonLength old new) = new.take (commonLength old new) := by
  fun_induction commonLength old new <;> simp_all

theorem commonLength_le (old new : List Text) : commonLength old new ≤ old.length := by
  fun_induction commonLength old new <;> simp_all

theorem commonLength_le_right (old new : List Text) : commonLength old new ≤ new.length := by
  fun_induction commonLength old new <;> simp_all

/-! ## Anchors -/

def anchorsAllBelow : Nat := 200

instance : Hashable Text := @instHashableList Char instHashableChar

abbrev Places := Std.HashMap Text (List Nat)

def placesOf (lines : List Text) : Places :=
  lines.zipIdx.foldr (fun (line, i) m => m.insert line (i :: (m[line]?).getD [])) ∅

/-- A line that stands at so many places is an anchor in a text of `n` lines. -/
def isAnchor (n places : Nat) : Bool := n < anchorsAllBelow || places ≤ n / 100 + 1

def anchors (old new : List Text) : List (List Nat) :=
  let places := placesOf new
  let count := new.length
  old.map fun line =>
    let here := (places[line]?).getD []
    if isAnchor count here.length then here else []

/-- The runs that end at one old line: pairs of a place and the length of the run that ends there.
`previous` holds the runs that end at the old line before.  Both lists are in order of places. -/
def extendRuns (previous : List (Nat × Nat)) (places : List Nat) : List (Nat × Nat) :=
  match previous, places with
  | _, [] => []
  | [], j :: js => (j, 1) :: extendRuns [] js
  | (i, k) :: previous, j :: js =>
      if i + 1 < j then extendRuns previous (j :: js)
      else if i + 1 = j then (j, k + 1) :: extendRuns previous js
      else (j, 1) :: extendRuns ((i, k) :: previous) js
termination_by previous.length + places.length

/-- A run of common lines: where it starts on both sides, and its length. -/
structure Run where
  old : Nat
  new : Nat
  length : Nat
  deriving DecidableEq, Repr

/-- The first of the longest runs, where `i` is the number of the old line at which `runs` end. -/
def longer (best : Run) (i : Nat) (runs : List (Nat × Nat)) : Run :=
  runs.foldl (fun best (j, k) =>
    if best.length < k then ⟨i + 1 - k, j + 1 - k, k⟩ else best) best

def longestRun (low high i : Nat) (best : Run) (runs : List (Nat × Nat)) :
    List (List Nat) → Run
  | [] => best
  | places :: rest =>
      let runs := extendRuns runs (places.filter fun j => low ≤ j && j < high)
      longestRun low high (i + 1) (longer best i runs) runs rest

/-- The lines of one side, numbered from `start` on, with their anchors. -/
structure Side where
  lines : List Text
  start : Nat
  deriving DecidableEq, Repr

namespace Side

def take (n : Nat) (s : Side) : Side := ⟨s.lines.take n, s.start⟩

def drop (n : Nat) (s : Side) : Side := ⟨s.lines.drop n, s.start + n⟩

end Side

/-- The run of common lines that starts at given places and is as long as possible. -/
def runAt (old new : List Text) (i j : Nat) : Run :=
  ⟨i, j, commonLength (old.drop i) (new.drop j)⟩

/-- The longest run of common lines, counted from the starts of both sides: it is looked for at
anchors, and from there it goes on in both directions as far as the lines agree. -/
def runBetween (places : List (List Nat)) (old new : Side) : Run :=
  let run := longestRun new.start (new.start + new.lines.length) 0 ⟨0, new.start, 0⟩ [] places
  let i := run.old
  let j := run.new - new.start
  let back := commonLength (old.lines.take i).reverse (new.lines.take j).reverse
  runAt old.lines new.lines (i - back) (j - back)

def Run.lines (run : Run) (old : Side) : List Text := (old.lines.drop run.old).take run.length

theorem length_runBetween (places : List (List Nat)) (old new : Side) :
    (runBetween places old new).length =
      commonLength (old.lines.drop (runBetween places old new).old)
        (new.lines.drop (runBetween places old new).new) := rfl

theorem lines_runBetween (places : List (List Nat)) (old new : Side) :
    (runBetween places old new).lines old =
      (new.lines.drop (runBetween places old new).new).take (runBetween places old new).length := by
  rw [Run.lines, length_runBetween, take_commonLength]

theorem runBetween_lt {places : List (List Nat)} {old new : Side}
    (h : (runBetween places old new).length ≠ 0) :
    (runBetween places old new).old < old.lines.length := by
  have hle := commonLength_le (old.lines.drop (runBetween places old new).old)
    (new.lines.drop (runBetween places old new).new)
  rw [← length_runBetween, List.length_drop] at hle
  omega

def replaced (old new : List Text) : List Segment :=
  if old.isEmpty && new.isEmpty then [] else [.change old new]

def scriptFrom (places : List (List Nat)) (old new : Side) : List Segment :=
  let run := runBetween places old new
  if _h : run.length = 0 then replaced old.lines new.lines
  else
    let i := run.old + run.length
    let j := run.new + run.length
    scriptFrom (places.take run.old) (old.take run.old) (new.take run.new) ++
      .keep (run.lines old) :: scriptFrom (places.drop i) (old.drop i) (new.drop j)
termination_by old.lines.length
decreasing_by
  all_goals
    have hr : (runBetween places old new).length ≠ 0 := _h
    have := runBetween_lt hr
    simp only [Side.take, Side.drop, List.length_take, List.length_drop]
    omega

def script (old new : List Text) : List Segment :=
  if old = new then (if old.isEmpty then [] else [.keep old])
  else scriptFrom (anchors old new) ⟨old, 0⟩ ⟨new, 0⟩

theorem before_replaced (old new : List Text) :
    (replaced old new).flatMap Segment.before = old := by
  unfold replaced
  split <;> simp_all [Segment.before]

theorem after_replaced (old new : List Text) :
    (replaced old new).flatMap Segment.after = new := by
  unfold replaced
  split <;> simp_all [Segment.after]

theorem before_scriptFrom (places : List (List Nat)) (old new : Side) :
    (scriptFrom places old new).flatMap Segment.before = old.lines := by
  induction hn : old.lines.length using Nat.strongRecOn generalizing places old new with
  | ind n ih =>
      rw [scriptFrom]
      dsimp only
      split
      · exact before_replaced _ _
      · next h =>
          have hlt := runBetween_lt h
          rw [List.flatMap_append, List.flatMap_cons,
            ih _ (by simp [Side.take]; omega) _ _ _ rfl,
            ih _ (by simp [Side.drop]; omega) _ _ _ rfl]
          simp only [Segment.before, Run.lines, Side.take, Side.drop]
          rw [← List.drop_drop, List.take_append_drop, List.take_append_drop]

theorem after_scriptFrom (places : List (List Nat)) (old new : Side) :
    (scriptFrom places old new).flatMap Segment.after = new.lines := by
  induction hn : old.lines.length using Nat.strongRecOn generalizing places old new with
  | ind n ih =>
      rw [scriptFrom]
      dsimp only
      split
      · exact after_replaced _ _
      · next h =>
          have hlt := runBetween_lt h
          rw [List.flatMap_append, List.flatMap_cons,
            ih _ (by simp [Side.take]; omega) _ _ _ rfl,
            ih _ (by simp [Side.drop]; omega) _ _ _ rfl, Segment.after, lines_runBetween]
          simp only [Side.take, Side.drop]
          rw [← List.drop_drop, List.take_append_drop, List.take_append_drop]

theorem before_script (old new : List Text) :
    (script old new).flatMap Segment.before = old := by
  unfold script
  split
  · split <;> simp_all [Segment.before]
  · exact before_scriptFrom _ _ _

theorem after_script (old new : List Text) :
    (script old new).flatMap Segment.after = new := by
  unfold script
  split
  · split <;> simp_all [Segment.after]
  · exact after_scriptFrom _ _ _

end Patch
end ForceTry

import ForceTry.Patch.Script

/-!
# Patches in the unified format

A patch is a list of hunks.  A hunk holds changes with the lines around them: up to three kept lines
in front, behind and between.  Where more than six lines are kept between two changes, a new hunk
starts.

In the written form a hunk starts with its ranges of lines on both sides, and each of its lines is
marked by its first character.  Two texts that are equal have an empty patch.
-/

namespace ForceTry
namespace Patch

def contextLines : Nat := 3

/-- Some segments of a script, with the number of lines in front of them on both sides. -/
structure Hunk where
  old : Nat
  new : Nat
  segments : List Segment
  deriving DecidableEq, Repr

namespace Hunk

def push (s : Segment) (h : Hunk) : Hunk := { h with segments := h.segments ++ [s] }

def oldLength (h : Hunk) : Nat := (h.segments.flatMap Segment.before).length

def newLength (h : Hunk) : Nat := (h.segments.flatMap Segment.after).length

end Hunk

def lastOf {α : Type} (n : Nat) (xs : List α) : List α := xs.drop (xs.length - n)

/-- The hunks of a script, where `current` is the hunk that is being made. -/
def hunksFrom (current : Hunk) : List Segment → List Hunk
  | [] => [current]
  | .change removed added :: rest => hunksFrom (current.push (.change removed added)) rest
  | .keep lines :: rest =>
      if rest.isEmpty then [current.push (.keep (lines.take contextLines))]
      else if 2 * contextLines < lines.length then
        let skipped := lines.length - contextLines
        current.push (.keep (lines.take contextLines)) ::
          hunksFrom ⟨current.old + current.oldLength + skipped,
            current.new + current.newLength + skipped, [.keep (lastOf contextLines lines)]⟩ rest
      else hunksFrom (current.push (.keep lines)) rest

def hunks : List Segment → List Hunk
  | [] => []
  | [.keep _] => []
  | .keep lines :: rest =>
      let skipped := lines.length - contextLines
      hunksFrom ⟨skipped, skipped, [.keep (lastOf contextLines lines)]⟩ rest
  | segments => hunksFrom ⟨0, 0, []⟩ segments

/-- A range of lines: its first line and its length.  A length of one is left out, and an empty
range names the line in front of it. -/
def range (before length : Nat) : Text :=
  match length with
  | 1 => Text.ofString s!"{before + 1}"
  | 0 => Text.ofString s!"{before},0"
  | n => Text.ofString s!"{before + 1},{n}"

namespace Segment

def written : Segment → List Text
  | keep lines => lines.map (' ' :: ·)
  | change removed added => removed.map ('-' :: ·) ++ added.map ('+' :: ·)

end Segment

def Hunk.written (h : Hunk) : List Text :=
  (Text.ofString "@@ -" ++ range h.old h.oldLength ++ Text.ofString " +" ++
    range h.new h.newLength ++ Text.ofString " @@\n") :: h.segments.flatMap Segment.written

def unifiedLines (path old new : Text) : List Text :=
  match hunks (script old.lines new.lines) with
  | [] => []
  | hs =>
      (Text.ofString "--- a/" ++ path ++ ['\n']) :: (Text.ofString "+++ b/" ++ path ++ ['\n']) ::
        hs.flatMap Hunk.written

def unified (path old new : Text) : Text := (unifiedLines path old new).flatten

end Patch
end ForceTry

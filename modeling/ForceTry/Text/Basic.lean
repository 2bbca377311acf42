/-!
# Text

A text is a list of code points.  All offsets, columns and lengths of the library count list
elements, and every scanner answers a length, so that the scanned part and the rest are `take`
and `drop` of the same text and nothing can get lost between them.
-/

namespace ForceTry

abbrev Text := List Char

namespace Text

def ofString (s : String) : Text := s.toList

def toString (t : Text) : String := String.ofList t

def after? : (p t : Text) → Option Text
  | [], t => some t
  | _ :: _, [] => none
  | c :: p, d :: t => if c = d then after? p t else none

def startsWith (p t : Text) : Bool := (after? p t).isSome

/-- The number of characters before the first place where `p` stands, if there is one. -/
def find? (p : Text) : Text → Option Nat
  | [] => if p = [] then some 0 else none
  | c :: t => if startsWith p (c :: t) then some 0 else (find? p t).map (· + 1)

def occurs (p t : Text) : Bool := (find? p t).isSome

def runLength (p : Char → Bool) (t : Text) : Nat := (t.takeWhile p).length

def times (n : Nat) (t : Text) : Text := (List.replicate n t).flatten

def join (sep : Text) : List Text → Text
  | [] => []
  | [t] => t
  | t :: ts => t ++ sep ++ join sep ts

/-- The parts of a text between the separators, of which there is one more than separators. -/
def split (separator : Char) : Text → List Text
  | [] => [[]]
  | c :: t =>
      match split separator t with
      | p :: ps => if c == separator then [] :: p :: ps else (c :: p) :: ps
      | [] => [[c]]

def endsWith (p t : Text) : Bool := startsWith p.reverse t.reverse

theorem eq_append_of_after? {p t r : Text} (h : after? p t = some r) : t = p ++ r := by
  induction p generalizing t with
  | nil => simpa [after?] using h
  | cons c p ih =>
      cases t with
      | nil => simp [after?] at h
      | cons d t =>
          by_cases hcd : c = d
          · simp only [after?, hcd, if_true] at h
            simp [hcd, ih h]
          · simp [after?, hcd] at h

@[simp] theorem after?_append (p r : Text) : after? p (p ++ r) = some r := by
  induction p with
  | nil => rfl
  | cons c p ih => simp [after?, ih]

theorem runLength_le (p : Char → Bool) (t : Text) : runLength p t ≤ t.length :=
  (List.takeWhile_prefix p).length_le

theorem take_runLength (p : Char → Bool) (t : Text) : t.take (runLength p t) = t.takeWhile p :=
  (List.prefix_iff_eq_take.mp (List.takeWhile_prefix p)).symm

@[simp] theorem times_zero (t : Text) : times 0 t = [] := rfl

theorem times_succ (n : Nat) (t : Text) : times (n + 1) t = t ++ times n t := by
  simp [times, List.replicate_succ]

end Text
end ForceTry

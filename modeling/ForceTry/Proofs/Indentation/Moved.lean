import ForceTry.Proofs.Indentation.Lookup
import ForceTry.Proofs.Indentation.Reread

/-!
# Moved lines as text

What moving lines does to a text, and the indentation of a line that starts with an element.
-/

namespace ForceTry

namespace Trivia

/-- The text of trivia whose lines are moved: behind every line break `indentation` stands in the place
of what `strip` takes off for `base`. -/
def movedText (t base : Trivia) (indentation : Text) : Text :=
  match t with
  | [] => []
  | p :: t =>
      if p.isNewline then p.code ++ (indentation ++ movedText (strip t base) base indentation)
      else p.code ++ movedText t base indentation
termination_by t.length
decreasing_by
  · exact Nat.lt_succ_of_le (length_strip_le t base)
  · exact Nat.lt_succ_self _

theorem code_shift (t base indentation : Trivia) :
    (t.shift base indentation).code = t.movedText base indentation.code := by
  fun_induction shift t base indentation with
  | case1 => rw [movedText, code_nil]
  | case2 p t hp ih => rw [movedText, if_pos hp, List.cons_append, code_cons, code_append, ih]
  | case3 p t hp ih => rw [movedText, if_neg hp, code_cons, ih]

theorem movedText_cons (p : Piece) (t base : Trivia) (indentation : Text) :
    ∃ u, movedText (p :: t) base indentation = p.code ++ u := by
  rw [movedText]
  split
  · exact ⟨_, rfl⟩
  · exact ⟨_, rfl⟩

theorem strip_takeWhile (f : Piece → Bool) (t : Trivia) : t.strip (t.takeWhile f) = t.dropWhile f := by
  induction t with
  | nil => rfl
  | cons p t ih =>
      rw [List.takeWhile_cons, List.dropWhile_cons]
      split
      · rw [strip_cons_self, ih]
      · rfl

end Trivia

namespace IndentUnit

theorem code_piece (u : IndentUnit) : u.piece.code = u.code := by
  cases u with
  | tab => rfl
  | spaces n =>
      cases n with
      | zero => rfl
      | succ n => exact (List.append_nil _).symm

theorem code_addedTo (u : IndentUnit) {base : Trivia} (h : base.Indents) :
    (u.addedTo base).code = base.code ++ u.code := by
  have hadded : Trivia.code (base ++ [u.piece]) = base.code ++ u.code := by
    rw [Trivia.code_append, Trivia.code_cons, Trivia.code_nil, List.append_nil, code_piece]
  unfold addedTo
  split
  · next kind count hlast =>
      split
      · next hkind =>
          rcases List.getLast?_eq_some_iff.mp hlast with ⟨front, rfl⟩
          rcases h (.run kind count) (by simp) with ⟨_, _, heq, _, hcount⟩
          cases heq
          have htimes : (count + u.width).toNat = count.toNat + u.width := by omega
          have hrun : Piece.code (.run kind (count + u.width)) =
              Piece.code (.run kind count) ++ u.piece.code := by
            rw [piece, ← hkind, Piece.code, Piece.code, Piece.code, htimes, Text.times, Text.times,
              Text.times, List.replicate_add, List.flatten_append]
            rfl
          rw [List.dropLast_concat, Trivia.code_append, Trivia.code_append, Trivia.code_cons,
            Trivia.code_cons, Trivia.code_nil, List.append_nil, List.append_nil, hrun, code_piece,
            List.append_assoc]
      · exact hadded
  · exact hadded

end IndentUnit

namespace Tree

theorem indentationFrom_of_filter {n : Nat} {l : Leaf} {ls : List (Leaf × Bool)} (current : Trivia)
    (h : ls.filter (fun entry => entry.1.label == n) = [(l, true)]) :
    indentationFrom n current ls = l.token.leading.leadingIndentation := by
  induction ls generalizing current with
  | nil => cases h
  | cons entry ls ih =>
      rcases entry with ⟨m, starts⟩
      rw [List.filter_cons] at h
      rw [indentationFrom]
      split at h
      · next hlabel =>
          rw [List.cons.injEq, Prod.mk.injEq] at h
          rcases h with ⟨⟨rfl, rfl⟩, -⟩
          rw [if_pos hlabel, if_pos rfl]
      · next hlabel =>
          rw [if_neg hlabel]
          exact ih _ h

/-- The line of an element that starts it is indented by what stands in front of the element. -/
theorem lineIndentation_of_startsLine {root t : Tree} {n : Nat} {l : Leaf} (hneat : root.Neat n)
    (ht : t ∈ root.nodes) (hfirst : t.firstLeaf? = some l) (hstarts : startsLine (some root) t = true) :
    root.lineIndentation t = l.token.leading.leadingIndentation := by
  have hne : t.leaves ≠ [] := by
    intro hnil
    rw [firstLeaf?, hnil] at hfirst
    cases hfirst
  rcases foundUnder_of_mem_nodes hneat ht hne with ⟨starts, hfound⟩
  have hstart := (startsLine_of_foundUnder hfound).symm.trans hstarts
  rcases hfound with ⟨l', hfirst', hentries⟩
  rw [hfirst, Option.some.injEq] at hfirst'
  rw [← hfirst', hstart] at hentries
  rw [lineIndentation, hfirst]
  exact indentationFrom_of_filter [] hentries

end Tree
end ForceTry

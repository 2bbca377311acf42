import ForceTry.Comments
import ForceTry.Indentation.Shift

/-!
# Comments and indentation

Moving lines changes blanks only.  No step of it touches a comment, because the indentation of a line
is made of blanks.
-/

namespace ForceTry

namespace Trivia

theorem comments_cons_run (kind : Run) (n : Int) (t : Trivia) :
    comments (.run kind n :: t) = comments t := rfl

theorem comments_eq_nil {t : Trivia} (h : ∀ p ∈ t, p.isBlank = true) : t.comments = [] := by
  rw [comments, List.filterMap_eq_nil_iff]
  intro p hp
  have hblank := h p hp
  cases p with
  | run kind n => rfl
  | comment form text => cases hblank

theorem comments_head {p : Piece} {t : Trivia} (h : comments (p :: t) = []) :
    p.comment? = none ∧ comments t = [] := by
  rw [comments, List.filterMap_cons] at h
  split at h
  · next hnone => exact ⟨hnone, h⟩
  · cases h

theorem comments_cons_of_none {p : Piece} (h : p.comment? = none) (t : Trivia) :
    comments (p :: t) = comments t := by
  rw [comments, List.filterMap_cons, h]
  rfl

theorem comments_strip {base : Trivia} (hbase : base.comments = []) (t : Trivia) :
    (t.strip base).comments = t.comments := by
  fun_induction strip t base with
  | case1 p t base ih =>
      have hhead := comments_head hbase
      rw [ih hhead.2, comments_cons_of_none hhead.1]
  | case2 => rfl
  | case3 => rfl
  | case4 => rfl
  | case5 => rfl

theorem comments_shift {base indentation : Trivia} (hbase : base.comments = [])
    (hindentation : indentation.comments = []) (t : Trivia) :
    (t.shift base indentation).comments = t.comments := by
  fun_induction shift t base indentation with
  | case1 => rfl
  | case2 p t hnewline ih =>
      cases p with
      | comment form text => cases hnewline
      | run kind n =>
          rw [List.cons_append, comments_cons_run, comments_append, hindentation, ih,
            comments_strip hbase]
          rfl
  | case3 p t hnewline ih =>
      have hcons : ∀ s : Trivia, comments (p :: s) = p.comment?.toList ++ comments s := by
        intro s
        cases p <;> rfl
      rw [hcons, hcons, ih]

theorem comments_withoutTrailingBlanks (t : Trivia) :
    t.withoutTrailingBlanks.comments = t.comments := by
  have hblanks : t.trailingBlanks.comments = [] := by
    apply comments_eq_nil
    intro p hp
    rw [trailingBlanks, List.mem_reverse] at hp
    exact List.all_eq_true.mp List.all_takeWhile p hp
  have hwhole := congrArg comments (withoutTrailingBlanks_append_trailingBlanks t)
  rw [comments_append, hblanks, List.append_nil] at hwhole
  exact hwhole

theorem comments_leadingIndentation (t : Trivia) : t.leadingIndentation.comments = [] := by
  apply comments_eq_nil
  intro p hp
  exact List.all_eq_true.mp List.all_takeWhile p hp

end Trivia

namespace IndentUnit

theorem comments_addedTo (u : IndentUnit) {base : Trivia} (h : base.comments = []) :
    (u.addedTo base).comments = [] := by
  unfold addedTo
  split
  · next kind count hlast =>
      rcases List.getLast?_eq_some_iff.mp hlast with ⟨front, rfl⟩
      rw [Trivia.comments_append, List.append_eq_nil_iff] at h
      rw [List.dropLast_concat]
      split
      · rw [Trivia.comments_append, h.1]
        rfl
      · rw [Trivia.comments_append, Trivia.comments_append, h.1]
        rfl
  · rw [Trivia.comments_append, h]
    rfl

end IndentUnit

namespace Tree

theorem comments_newlineStyle (t : Option Tree) : (newlineStyle t).comments = [] := by
  unfold newlineStyle
  split <;> rfl

theorem comments_indentationFrom (n : Nat) {current : Trivia} (h : current.comments = [])
    (ls : List (Leaf × Bool)) : (indentationFrom n current ls).comments = [] := by
  induction ls generalizing current with
  | nil => rfl
  | cons entry ls ih =>
      rcases entry with ⟨l, starts⟩
      have hline : (if starts = true then l.token.leading.leadingIndentation
          else current).comments = [] := by
        split
        · exact Trivia.comments_leadingIndentation _
        · exact h
      rw [indentationFrom]
      split
      · exact hline
      · exact ih hline

theorem comments_lineIndentation (root t : Tree) : (root.lineIndentation t).comments = [] := by
  unfold lineIndentation
  split
  · rfl
  · exact comments_indentationFrom _ rfl _

end Tree
end ForceTry

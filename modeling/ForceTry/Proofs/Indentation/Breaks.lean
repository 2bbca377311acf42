import ForceTry.Proofs.Token.Reading
import ForceTry.Rule.DoCatch

/-!
# Line breaks and indentation

Moving lines changes blanks only.  Trivia that breaks the line does so afterwards, and no line break
is added, because the indentation of a line is made of blanks.
-/

namespace ForceTry

namespace Trivia

theorem containsNewline_eq_false {t : Trivia} (h : ∀ p ∈ t, p.isBlank = true) :
    t.containsNewline = false := by
  rw [containsNewline, List.any_eq_false]
  intro p hp
  have hblank := h p hp
  cases p with
  | run kind n => simpa [Piece.isBlank, Piece.isNewline] using hblank
  | comment form text => cases hblank

theorem containsNewline_shift (base indentation t : Trivia) :
    (t.shift base indentation).containsNewline = t.containsNewline := by
  fun_induction shift t base indentation with
  | case1 => rfl
  | case2 p t hnewline ih =>
      rw [List.cons_append, containsNewline_cons, containsNewline_cons, hnewline, Bool.true_or,
        Bool.true_or]
  | case3 p t hnewline ih => rw [containsNewline_cons, containsNewline_cons, ih]

theorem containsNewline_trailingBlanks (t : Trivia) : t.trailingBlanks.containsNewline = false := by
  apply containsNewline_eq_false
  intro p hp
  rw [trailingBlanks, List.mem_reverse] at hp
  exact List.all_eq_true.mp List.all_takeWhile p hp

theorem containsNewline_withoutTrailingBlanks (t : Trivia) :
    t.withoutTrailingBlanks.containsNewline = t.containsNewline := by
  have hwhole := congrArg containsNewline (withoutTrailingBlanks_append_trailingBlanks t)
  rw [containsNewline_append, containsNewline_trailingBlanks, Bool.or_false] at hwhole
  exact hwhole

theorem containsNewline_of_lastNewlineIndex? {t : Trivia} {i : Nat}
    (h : t.lastNewlineIndex? = some i) : containsNewline (t.take (i + 1)) = true := by
  induction t generalizing i with
  | nil => cases h
  | cons p t ih =>
      rw [List.take_succ_cons, containsNewline_cons]
      rw [lastNewlineIndex?] at h
      split at h
      · next j hj =>
          cases h
          rw [ih hj, Bool.or_true]
      · split at h
        · next hp => rw [hp, Bool.true_or]
        · cases h

theorem containsNewline_of_lastNewlineIndex?_eq_none {t : Trivia}
    (h : t.lastNewlineIndex? = none) : t.containsNewline = false := by
  induction t with
  | nil => rfl
  | cons p t ih =>
      rw [lastNewlineIndex?] at h
      split at h
      · cases h
      · next hnone =>
          split at h
          · cases h
          · next hp => rw [containsNewline_cons, ih hnone, Bool.or_false, Bool.eq_false_iff.mpr hp]

theorem containsNewline_throughLastNewline (t : Trivia) :
    t.throughLastNewline.containsNewline = t.containsNewline := by
  unfold throughLastNewline
  split
  · next hnone => rw [containsNewline_of_lastNewlineIndex?_eq_none hnone]; rfl
  · next i hi =>
      have htake := containsNewline_of_lastNewlineIndex? hi
      have hwhole := congrArg containsNewline (List.take_append_drop (i + 1) t)
      rw [containsNewline_append, htake, Bool.true_or] at hwhole
      rw [htake, hwhole]

theorem containsNewline_leadingIndentation (t : Trivia) :
    t.leadingIndentation.containsNewline = false := by
  apply containsNewline_eq_false
  intro p hp
  exact List.all_eq_true.mp List.all_takeWhile p hp

end Trivia

namespace Tree

theorem containsNewline_newlineStyle (t : Option Tree) :
    (newlineStyle t).containsNewline = true := by
  unfold newlineStyle
  split
  · next kind n hfind =>
      rcases Option.bind_eq_some_iff.mp hfind with ⟨pieces, _, hpiece⟩
      have hbreaks : kind.breaksLine = true := List.find?_some (p := Piece.isNewline) hpiece
      rw [Trivia.containsNewline_cons, Piece.isNewline, hbreaks]
      rfl
  · rfl

theorem containsNewline_indentationFrom (n : Nat) {current : Trivia}
    (h : current.containsNewline = false) (ls : List (Leaf × Bool)) :
    (indentationFrom n current ls).containsNewline = false := by
  induction ls generalizing current with
  | nil => rfl
  | cons entry ls ih =>
      rcases entry with ⟨l, starts⟩
      have hline : (if starts = true then l.token.leading.leadingIndentation
          else current).containsNewline = false := by
        split
        · exact Trivia.containsNewline_leadingIndentation _
        · exact h
      rw [indentationFrom]
      split
      · exact hline
      · exact ih hline

theorem containsNewline_lineIndentation (root t : Tree) :
    (root.lineIndentation t).containsNewline = false := by
  unfold lineIndentation
  split
  · rfl
  · exact containsNewline_indentationFrom _ rfl _

end Tree

namespace DoCatch

theorem containsNewline_splitLeading {base : Trivia} (h : base.containsNewline = false)
    (leading : Trivia) (atLineStart : Bool) :
    (splitLeading leading base atLineStart).1.containsNewline = leading.containsNewline := by
  cases atLineStart with
  | true =>
      show (leading.throughLastNewline ++ base).containsNewline = _
      rw [Trivia.containsNewline_append, h, Bool.or_false,
        Trivia.containsNewline_throughLastNewline]
  | false => rfl

end DoCatch
end ForceTry

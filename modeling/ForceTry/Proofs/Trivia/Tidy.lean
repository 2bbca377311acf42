import ForceTry.Proofs.Indentation.Reread
import ForceTry.Proofs.Text.Trimmed

/-!
# Trivia without blanks at the ends of lines

In tidy trivia a line break stands first or directly behind a comment.  Moving lines from one indentation to
another keeps it tidy, since new indentation never comes to stand in front of a line break.
-/

namespace ForceTry

open ForceTry.Text

namespace Piece

/-- A run that has a text, or a comment without blanks at the ends of its lines. -/
def Tidy : Piece → Prop
  | .run _ count => 0 < count
  | .comment _ text => Solid text

theorem mem_unit_of_mem_code {kind : Run} {n : Int} {c : Char} (h : c ∈ code (.run kind n)) :
    c ∈ kind.unit := by
  rcases List.mem_flatten.mp h with ⟨u, hu, hc⟩
  rwa [List.eq_of_mem_replicate hu] at hc

theorem flush_code {p : Piece} (h : p.Tidy) : Flush p.code := by
  cases p with
  | comment form text => exact (flush_append.mp h.flush).1
  | run kind n =>
      have hunit : ∀ c ∈ kind.unit, ∀ d ∈ kind.unit, d = '\n' → ¬ Pads c := by
        cases kind <;> simp [Run.unit, Pads]
      apply List.Pairwise.isChain
      apply List.pairwise_of_forall_mem_list
      exact fun c hc d hd => hunit c (mem_unit_of_mem_code hc) d (mem_unit_of_mem_code hd)

theorem last_code {p : Piece} (h : p.Tidy) (hp : p.isBlank = false) :
    ∀ c ∈ p.code.getLast?, ¬ Pads c := by
  cases p with
  | comment form text => exact h.last
  | run kind n =>
      have hunit : ∀ c ∈ kind.unit, ¬ Pads c := by
        cases kind with
        | spaces => cases hp
        | tabs => cases hp
        | newlines => simp [Run.unit, Pads]
        | carriageReturnLineFeeds => simp [Run.unit, Pads]
      exact fun c hc => hunit c (mem_unit_of_mem_code (List.mem_of_getLast? hc))

theorem head?_code_append {p : Piece} (h : p.Tidy) (hp : p.isNewline = false) (u : Text) :
    (p.code ++ u).head? ≠ some '\n' := by
  cases p with
  | comment form text => exact h.head?_append u
  | run kind n =>
      rcases @unit_starts kind n h with ⟨v, hv⟩
      rw [← hv]
      cases kind with
      | spaces => exact fun h => by cases h
      | tabs => exact fun h => by cases h
      | newlines => cases hp
      | carriageReturnLineFeeds => cases hp

theorem isComment_of_isBlank {p : Piece} (h : p.isBlank = true) : p.isComment = false := by
  cases p with
  | run kind n => rfl
  | comment form text => cases h

end Piece

namespace Trivia

/-- A line break stands first or directly behind a comment, and all pieces are tidy. -/
structure Tidy (t : Trivia) : Prop where
  pieces : ∀ p ∈ t, p.Tidy
  breaks : t.IsChain fun p q => q.isNewline = true → p.isComment = true

theorem tidy_nil : Tidy [] := ⟨fun _ hp => absurd hp List.not_mem_nil, List.isChain_nil⟩

theorem tidy_cons {p : Piece} {t : Trivia} :
    Tidy (p :: t) ↔
      p.Tidy ∧ (∀ q ∈ t.head?, q.isNewline = true → p.isComment = true) ∧ Tidy t := by
  constructor
  · rintro ⟨hpieces, hbreaks⟩
    rw [List.forall_mem_cons] at hpieces
    rw [List.isChain_cons] at hbreaks
    exact ⟨hpieces.1, hbreaks.1, hpieces.2, hbreaks.2⟩
  · rintro ⟨hp, hhead, ht⟩
    exact ⟨List.forall_mem_cons.mpr ⟨hp, ht.pieces⟩, List.isChain_cons.mpr ⟨hhead, ht.breaks⟩⟩

theorem tidy_singleton {p : Piece} (h : p.Tidy) : Tidy [p] := by
  refine tidy_cons.mpr ⟨h, ?_, tidy_nil⟩
  intro q hq
  cases hq

theorem tidy_append {s t : Trivia} :
    Tidy (s ++ t) ↔ Tidy s ∧ Tidy t ∧
      ∀ p ∈ s.getLast?, ∀ q ∈ t.head?, q.isNewline = true → p.isComment = true := by
  constructor
  · rintro ⟨hpieces, hbreaks⟩
    rw [List.forall_mem_append] at hpieces
    rw [List.isChain_append] at hbreaks
    exact ⟨⟨hpieces.1, hbreaks.1⟩, ⟨hpieces.2, hbreaks.2.1⟩, hbreaks.2.2⟩
  · rintro ⟨hs, ht, hjoin⟩
    exact ⟨List.forall_mem_append.mpr ⟨hs.pieces, ht.pieces⟩,
      List.isChain_append.mpr ⟨hs.breaks, ht.breaks, hjoin⟩⟩

def Stays (t : Trivia) : Prop := ∀ p ∈ t.head?, p.isNewline = false

theorem Tidy.stays_behind {p : Piece} {t : Trivia} (h : Tidy (p :: t)) (hp : p.isComment = false) :
    t.Stays := by
  intro q hq
  by_contra hbreak
  rw [Bool.not_eq_false] at hbreak
  have hcomment := (tidy_cons.mp h).2.1 q hq hbreak
  rw [hp] at hcomment
  cases hcomment

theorem Tidy.append {s t : Trivia} (hs : Tidy s) (ht : Tidy t) (hstays : t.Stays) : Tidy (s ++ t) := by
  refine tidy_append.mpr ⟨hs, ht, ?_⟩
  intro p _ q hq hbreak
  rw [hstays q hq] at hbreak
  cases hbreak

theorem stays_of_containsNewline {t : Trivia} (h : t.containsNewline = false) : t.Stays := by
  cases t with
  | nil =>
      intro p hp
      cases hp
  | cons p t =>
      rw [containsNewline_cons, Bool.or_eq_false_iff] at h
      intro q hq
      cases hq
      exact h.1

theorem stays_of_indents {t : Trivia} (h : t.Indents) : t.Stays := by
  intro p hp
  rcases h p (List.mem_of_mem_head? hp) with ⟨kind, n, rfl, hkind, _⟩
  exact hkind

theorem tidy_of_indents {t : Trivia} (h : t.Indents) : Tidy t := by
  induction t with
  | nil => exact tidy_nil
  | cons p t ih =>
      have ht : Indents t := fun q hq => h q (List.mem_cons_of_mem p hq)
      rcases h p (List.mem_cons_self ..) with ⟨kind, n, rfl, _, hn⟩
      refine tidy_cons.mpr ⟨hn, ?_, ih ht⟩
      intro q hq hbreak
      rw [stays_of_indents ht q hq] at hbreak
      cases hbreak

/-!
# The text of tidy trivia
-/

theorem head?_code_append {t : Trivia} (h : t.Tidy) (hstays : t.Stays) {u : Text}
    (hu : u.head? ≠ some '\n') : (t.code ++ u).head? ≠ some '\n' := by
  cases t with
  | nil => exact hu
  | cons p t =>
      rw [code_cons, List.append_assoc]
      exact Piece.head?_code_append (tidy_cons.mp h).1 (hstays p rfl) _

/-- Tidy trivia in front of a text that does not begin with a line break, if the trivia ends in blanks. -/
theorem flush_code_append {t : Trivia} (h : t.Tidy) {u : Text} (hu : Flush u)
    (hlast : ∀ p ∈ t.getLast?, p.isBlank = true → u.head? ≠ some '\n') : Flush (t.code ++ u) := by
  induction t with
  | nil => exact hu
  | cons p t ih =>
      rcases tidy_cons.mp h with ⟨hp, -, ht⟩
      have hrest : Flush (code t ++ u) := by
        apply ih ht
        intro q hq
        apply hlast
        rw [List.getLast?_cons, hq]
        rfl
      rw [code_cons, List.append_assoc]
      refine flush_append.mpr ⟨Piece.flush_code hp, hrest, ?_⟩
      intro hbreak
      apply Piece.last_code hp
      by_contra hblank
      rw [Bool.not_eq_false] at hblank
      cases t with
      | nil => exact hlast p rfl hblank hbreak
      | cons q t =>
          have hq := h.stays_behind (Piece.isComment_of_isBlank hblank) q rfl
          rw [code_cons, List.append_assoc] at hbreak
          exact Piece.head?_code_append (tidy_cons.mp ht).1 hq _ hbreak

/-!
# Moving lines
-/

/-- Where a line has lost its old indentation, a line break still stands first only if it did so before. -/
theorem Tidy.strip {p : Piece} {t base : Trivia} (h : Tidy (p :: t)) (hp : p.isComment = false)
    (hbase : base.Indents) : Tidy (t.strip base) ∧ (t.strip base).Stays := by
  fun_induction Trivia.strip t base generalizing p with
  | case1 t q base ih =>
      apply ih (tidy_cons.mp h).2.2
      · rcases hbase q (List.mem_cons_self ..) with ⟨kind, n, rfl, _⟩
        rfl
      · exact fun r hr => hbase r (List.mem_cons_of_mem q hr)
  | case2 t kind n kind' m hshort hne =>
      simp only [Bool.and_eq_true, decide_eq_true_eq, Bool.not_eq_true'] at hshort
      rcases hshort with ⟨⟨hkind, -⟩, hlt⟩
      rcases tidy_cons.mp (tidy_cons.mp h).2.2 with ⟨-, hhead, ht⟩
      constructor
      · exact tidy_cons.mpr ⟨Int.sub_pos_of_lt hlt, hhead, ht⟩
      · intro q hq
        cases hq
        exact hkind
  | case3 => exact ⟨(tidy_cons.mp h).2.2, h.stays_behind hp⟩
  | case4 => exact ⟨(tidy_cons.mp h).2.2, h.stays_behind hp⟩
  | case5 => exact ⟨(tidy_cons.mp h).2.2, h.stays_behind hp⟩

theorem Tidy.shift {t base indentation : Trivia} (h : t.Tidy) (hbase : base.Indents)
    (hindentation : indentation.Indents) : (t.shift base indentation).Tidy := by
  fun_induction Trivia.shift t base indentation with
  | case1 => exact h
  | case2 p t hp ih =>
      rcases h.strip (Piece.isComment_of_isNewline hp) hbase with ⟨hstrip, hstays⟩
      have hmoved : Stays (Trivia.shift (Trivia.strip t base) base indentation) := by
        intro q hq
        rw [head?_shift] at hq
        exact hstays q hq
      have hline := (tidy_of_indents hindentation).append (ih hstrip) hmoved
      have hpiece := tidy_singleton (tidy_cons.mp h).1
      have hfirst : Stays (indentation ++ Trivia.shift (Trivia.strip t base) base indentation) := by
        intro q hq
        rw [List.head?_append] at hq
        cases hhead : indentation.head? with
        | none =>
            rw [hhead] at hq
            exact hmoved q hq
        | some r =>
            rw [hhead] at hq
            cases hq
            exact stays_of_indents hindentation q hhead
      exact hpiece.append hline hfirst
  | case3 p t hp ih =>
      rcases tidy_cons.mp h with ⟨hpiece, hhead, ht⟩
      refine tidy_cons.mpr ⟨hpiece, ?_, ih ht⟩
      intro q hq
      rw [head?_shift] at hq
      exact hhead q hq

theorem shift_of_containsNewline {t : Trivia} (h : t.containsNewline = false)
    (base indentation : Trivia) : t.shift base indentation = t := by
  induction t with
  | nil => rw [shift]
  | cons p t ih =>
      rw [containsNewline_cons, Bool.or_eq_false_iff] at h
      rw [shift, h.1, if_neg Bool.false_ne_true, ih h.2]

end Trivia
end ForceTry

import ForceTry.Proofs.Indentation.Reread
import ForceTry.Proofs.Text.Aligned

/-!
# Aligned lines

The lines of an aligned source are indented by steps: runs of a multiple of `n` spaces.  A step leads
the walk through a text back to the column it starts from, so lines can be moved by steps without any
other part of the text noticing.
-/

namespace ForceTry

open ForceTry.Text

variable {n : Nat} {a b : Column n}

namespace Piece

theorem code_spaces (m : Nat) : code (.spaces m) = List.replicate m ' ' := by
  rw [spaces, code_run, ← times_singleton]
  rfl

theorem code_of_isNewline {kind : Run} {m : Int} (hkind : kind.breaksLine = true) (hm : 0 < m) :
    ∃ s, code (.run kind m) = s ++ ['\n'] := by
  have hunit : ∃ s, kind.unit = s ++ ['\n'] := by
    cases kind with
    | spaces => cases hkind
    | tabs => cases hkind
    | newlines => exact ⟨[], rfl⟩
    | carriageReturnLineFeeds => exact ⟨['\r'], rfl⟩
  rcases hunit with ⟨s, hunit⟩
  rcases code_run_of_pos hm with ⟨k, hk⟩
  refine ⟨times k kind.unit ++ s, ?_⟩
  rw [hk, times_add, times_succ, times_zero, List.append_nil, List.append_assoc, ← hunit]

end Piece

namespace Trivia

theorem canonical_of_append {s t : Trivia} (h : Canonical (s ++ t)) : t.Canonical := by
  induction s with
  | nil => exact h
  | cons p s ih => exact ih h.2

def Steps (n : Nat) (t : Trivia) : Prop := ∀ p ∈ t, ∃ m : Nat, p = .spaces m ∧ n ∣ m

theorem steps_nil : Steps n [] := by
  intro p hp
  cases hp

theorem steps_cons {p : Piece} {t : Trivia} (h : Steps n (p :: t)) :
    (∃ m : Nat, p = .spaces m ∧ n ∣ m) ∧ t.Steps n :=
  List.forall_mem_cons.mp h

theorem Steps.append {s t : Trivia} (hs : s.Steps n) (ht : t.Steps n) : Steps n (s ++ t) := by
  intro p hp
  rcases List.mem_append.mp hp with hp | hp
  · exact hs p hp
  · exact ht p hp

theorem code_of_steps {t : Trivia} (h : t.Steps n) : ∃ m, t.code = List.replicate m ' ' ∧ n ∣ m := by
  induction t with
  | nil => exact ⟨0, rfl, Nat.dvd_zero n⟩
  | cons p t ih =>
      rcases steps_cons h with ⟨⟨m, rfl, hm⟩, hrest⟩
      rcases ih hrest with ⟨k, hcode, hk⟩
      refine ⟨m + k, ?_, Nat.dvd_add hm hk⟩
      rw [code_cons, Piece.code_spaces, hcode, List.replicate_add]

theorem walk?_steps {t : Trivia} (h : t.Steps n) (a : Column n) : a.walk? t.code = some a := by
  rcases code_of_steps h with ⟨m, hcode, hm⟩
  rw [hcode]
  exact Column.walk?_step hm a

theorem walk?_steps_append {t : Trivia} (h : t.Steps n) (a : Column n) (u : Text) :
    a.walk? (t.code ++ u) = a.walk? u :=
  Column.walk?_append_of_some (walk?_steps h a) u

/-!
# Moving lines
-/

theorem walk?_strip {base : Trivia} (hbase : base.Steps n) (t : Trivia) (a : Column n) :
    a.walk? (t.strip base).code = a.walk? t.code := by
  fun_induction strip t base with
  | case1 t p base ih =>
      have hp : Steps n [p] := by
        intro q hq
        rw [List.mem_singleton.mp hq]
        exact (steps_cons hbase).1
      have hcode : code (p :: t) = code [p] ++ code t := by
        rw [code_cons, code_cons, code_nil, List.append_nil]
      rw [ih (steps_cons hbase).2, hcode, walk?_steps_append hp]
  | case2 t kind m kind' m' hcondition hne =>
      rcases (steps_cons hbase).1 with ⟨k, hstep, hk⟩
      injection hstep with hkind' hm'
      simp only [Bool.and_eq_true, decide_eq_true_eq] at hcondition
      rcases hcondition with ⟨⟨-, hkind⟩, hlt⟩
      subst hkind' hm' hkind
      have hsum : m.toNat = k + (m - k).toNat := by omega
      have hcode : Piece.code (.run .spaces m) =
          List.replicate k ' ' ++ Piece.code (.run .spaces (m - k)) := by
        rw [Piece.code, Piece.code, hsum, times_add]
        exact congrArg (· ++ _) (times_singleton k ' ')
      rw [code_cons, code_cons, hcode, List.append_assoc,
        Column.walk?_append_of_some (Column.walk?_step hk a)]
  | case3 => rfl
  | case4 => rfl
  | case5 => rfl

theorem walk?_shift {base indentation : Trivia} (hbase : base.Steps n)
    (hindentation : indentation.Steps n) (t : Trivia) (a : Column n) :
    a.walk? (t.shift base indentation).code = a.walk? t.code := by
  fun_induction shift t base indentation generalizing a with
  | case1 => rfl
  | case2 p t hnewline ih =>
      rw [List.cons_append, code_cons, code_append, code_cons]
      refine Column.walk?_append_congr rfl fun b => ?_
      rw [walk?_steps_append hindentation, ih, walk?_strip hbase]
  | case3 p t hnewline ih =>
      rw [code_cons, code_cons]
      exact Column.walk?_append_congr rfl ih

/-!
# The start of a line
-/

theorem take_lastNewlineIndex? {t : Trivia} {i : Nat} (h : t.lastNewlineIndex? = some i) :
    ∃ front kind m, t.take (i + 1) = front ++ [.run kind m] ∧ kind.breaksLine = true ∧
      Piece.run kind m ∈ t := by
  induction t generalizing i with
  | nil => cases h
  | cons p t ih =>
      rw [lastNewlineIndex?] at h
      split at h
      · next j hj =>
          cases h
          rcases ih hj with ⟨front, kind, m, htake, hkind, hmem⟩
          exact ⟨p :: front, kind, m, congrArg (p :: ·) htake, hkind, List.mem_cons_of_mem p hmem⟩
      · split at h
        · next hp =>
            cases h
            cases p with
            | comment form text => cases hp
            | run kind m => exact ⟨[], kind, m, rfl, hp, List.mem_cons_self ..⟩
        · cases h

theorem throughLastNewline_of_containsNewline {t : Trivia} (h : t.containsNewline = true) :
    ∃ front kind m, t.throughLastNewline = front ++ [.run kind m] ∧ kind.breaksLine = true ∧
      .run kind m ∈ t := by
  unfold throughLastNewline
  split
  · next hnone =>
      rw [containsNewline_of_lastNewlineIndex?_eq_none hnone] at h
      cases h
  · next i hi => exact take_lastNewlineIndex? hi

theorem throughLastNewline_of_not_containsNewline {t : Trivia} (h : t.containsNewline = false) :
    t.throughLastNewline = [] := by
  unfold throughLastNewline
  split
  · rfl
  · next i hi =>
      rcases take_lastNewlineIndex? hi with ⟨_, kind, m, _, hkind, hmem⟩
      have hbreak : t.containsNewline = true := List.any_eq_true.mpr ⟨_, hmem, hkind⟩
      exact Bool.noConfusion (h.symm.trans hbreak)

/-- At the start of a line, the walk through trivia begins anew behind the last line break. -/
theorem walk?_throughLastNewline {t : Trivia} (hcanonical : t.Canonical)
    (h : a.walk? t.code = some b) (hline : t.containsNewline = true ∨ a = .margin 0) :
    a.walk? t.throughLastNewline.code = some (.margin 0) ∧
      (Column.margin 0 : Column n).walk? t.afterLastNewline.code = some b := by
  rw [← throughLastNewline_append_afterLastNewline t, code_append] at h
  rcases Column.walk?_append_some h with ⟨d, hd, hb⟩
  suffices hmargin : d = .margin 0 by
    rw [hmargin] at hd hb
    exact ⟨hd, hb⟩
  cases hbreak : t.containsNewline with
  | true =>
      rcases throughLastNewline_of_containsNewline hbreak with ⟨front, kind, m, heq, hkind, hmem⟩
      rcases Piece.code_of_isNewline hkind (count_of_canonical hcanonical hmem) with ⟨s, hs⟩
      rw [heq, code_append, code_cons, code_nil, List.append_nil, hs, ← List.append_assoc] at hd
      exact Column.walk?_newline hd
  | false =>
      rcases hline with hline | rfl
      · rw [hbreak] at hline
        cases hline
      · rw [throughLastNewline_of_not_containsNewline hbreak] at hd
        cases hd
        rfl

theorem spaces_of_isBlank {p : Piece} {rest : Trivia} (hcanonical : Canonical (p :: rest))
    (htabs : '\t' ∉ code (p :: rest)) (hp : p.isBlank = true) : ∃ m : Nat, p = .spaces m := by
  cases p with
  | comment form text => cases hp
  | run kind m =>
      have hm : 0 < m := hcanonical.1.1
      cases kind with
      | newlines => cases hp
      | carriageReturnLineFeeds => cases hp
      | spaces => exact ⟨m.toNat, by rw [Int.toNat_of_nonneg (Int.le_of_lt hm)]; rfl⟩
      | tabs =>
          rw [code_cons] at htabs
          have htab : '\t' ∈ Piece.code (.run .tabs m) :=
            (Piece.unit_starts hm).subset (List.mem_singleton_self '\t')
          exact absurd (List.mem_append_left _ htab) htabs

theorem takeWhile_isBlank {t : Trivia} (hcanonical : t.Canonical) (htabs : '\t' ∉ t.code) :
    t.takeWhile Piece.isBlank = [] ∨
      ∃ (m : Nat) (rest : Trivia), t = .spaces m :: rest ∧ t.takeWhile Piece.isBlank = [.spaces m] ∧
        ∀ p ∈ rest.head?, p.isBlank = false := by
  cases t with
  | nil => exact .inl rfl
  | cons p rest =>
      cases hp : p.isBlank with
      | false =>
          left
          rw [List.takeWhile_cons, hp]
          rfl
      | true =>
          rcases spaces_of_isBlank hcanonical htabs hp with ⟨m, rfl⟩
          have hrest : ∀ q ∈ rest.head?, q.isBlank = false := by
            intro q hq
            rcases List.head?_eq_some_iff.mp hq with ⟨rest', rfl⟩
            cases hblank : q.isBlank with
            | false => rfl
            | true =>
                rw [code_cons, List.mem_append, not_or] at htabs
                rcases spaces_of_isBlank hcanonical.2 htabs.2 hblank with ⟨k, rfl⟩
                exact absurd rfl (hcanonical.1.2 k)
          refine .inr ⟨m, rest, rfl, ?_, hrest⟩
          rw [List.takeWhile_cons, hp, if_pos rfl]
          cases rest with
          | nil => rfl
          | cons q rest => rw [List.takeWhile_cons, hrest q rfl, if_neg Bool.false_ne_true]

theorem steps_leadingIndentation {t : Trivia} (hcanonical : t.Canonical) (htabs : '\t' ∉ t.code)
    (h : (Column.margin 0 : Column n).walk? t.afterLastNewline.code = some b) (hb : b.Open) :
    t.leadingIndentation.Steps n := by
  have hparts := throughLastNewline_append_afterLastNewline t
  have hline := containsNewline_afterLastNewline t
  have hcanonical' : t.afterLastNewline.Canonical := by
    rw [← hparts] at hcanonical
    exact canonical_of_append hcanonical
  have htabs' : '\t' ∉ t.afterLastNewline.code := by
    rw [← hparts, code_append, List.mem_append, not_or] at htabs
    exact htabs.2
  rw [leadingIndentation]
  generalize t.afterLastNewline = line at h hline hcanonical' htabs'
  rcases takeWhile_isBlank hcanonical' htabs' with hnil | ⟨m, rest, rfl, hblanks, hrest⟩
  · rw [hnil]
    exact steps_nil
  rw [hblanks]
  intro p hp
  refine ⟨m, List.mem_singleton.mp hp, ?_⟩
  rw [code_cons, Piece.code_spaces, Column.walk?_append_of_some (Column.walk?_spaces 0 m),
    zero_add] at h
  have hopen : (Column.margin (m : ZMod n)).Open := by
    cases rest with
    | nil =>
        cases h
        exact hb
    | cons q rest =>
        have hcomment : Piece.opening q <+: code (q :: rest) := hcanonical'.2.opening_starts
        rcases hcomment with ⟨u, hu⟩
        rw [← hu] at h
        rw [containsNewline_cons, containsNewline_cons, Bool.or_eq_false_iff,
          Bool.or_eq_false_iff] at hline
        cases q with
        | run kind k =>
            have hblank := hrest _ rfl
            rw [Piece.isBlank, Bool.not_eq_false'] at hblank
            exact Bool.noConfusion (hblank.symm.trans hline.2.1)
        | comment form text =>
            cases form with
            | line => exact Column.open_of_walk? ⟨by decide, by decide⟩ h
            | block => exact Column.open_of_walk? ⟨by decide, by decide⟩ h
  rcases hopen with hopen | hopen
  · cases hopen
  · injection hopen with hzero
    exact (ZMod.natCast_eq_zero_iff m n).mp hzero

end Trivia

namespace IndentUnit

def IsStep (n : Nat) (u : IndentUnit) : Prop := ∃ w, u = .spaces w ∧ n ∣ w

theorem steps_addedTo {u : IndentUnit} (hu : u.IsStep n) {base : Trivia} (h : base.Steps n) :
    (u.addedTo base).Steps n := by
  rcases hu with ⟨w, rfl, hw⟩
  have hunit : Trivia.Steps n [(spaces w).piece] := by
    intro p hp
    exact ⟨w, List.mem_singleton.mp hp, hw⟩
  unfold addedTo
  split
  · next kind count hlast =>
      split
      · rcases List.getLast?_eq_some_iff.mp hlast with ⟨front, rfl⟩
        rw [List.dropLast_concat]
        rcases h (.run kind count) (by simp) with ⟨m, heq, hm⟩
        cases heq
        have hlonger : Trivia.Steps n [.run .spaces (m + (spaces w).width)] := by
          intro p hp
          refine ⟨m + w, ?_, Nat.dvd_add hm hw⟩
          rw [List.mem_singleton.mp hp, Piece.spaces, Nat.cast_add]
          rfl
        exact Trivia.Steps.append (fun p hp => h p (List.mem_append_left _ hp)) hlonger
      · exact h.append hunit
  · exact h.append hunit

end IndentUnit
end ForceTry

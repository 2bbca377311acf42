import ForceTry.Proofs.Text.Parted
import ForceTry.Proofs.Token.Outlook
import ForceTry.Proofs.Token.Unclosed

/-!
# How tokens and comments end

A token or a comment that is read off a text ends where the text may be cut: no blank is its last
character unless a line ends there, and it takes no half of a line break.
-/

namespace ForceTry

open ForceTry.Text

namespace Numeral

/-!
# Numbers
-/

/-- The first `n` characters of a text end in a character of a word. -/
def EndsWithin (t : Text) (n : Nat) : Prop := ∀ c ∈ (t.take n).getLast?, stopsWord c = false

theorem endsWithin_zero (t : Text) : EndsWithin t 0 := by
  intro c hc
  cases hc

theorem EndsWithin.add {t : Text} {n m : Nat} (h : EndsWithin t n) (h' : EndsWithin (t.drop n) m) :
    EndsWithin t (n + m) := by
  intro c hc
  rw [List.take_add, List.getLast?_append] at hc
  cases hlast : ((t.drop n).take m).getLast? with
  | none =>
      rw [hlast] at hc
      exact h c hc
  | some d =>
      rw [hlast] at hc
      exact h' c (hlast.trans hc)

theorem endsWithin_runLength {p : Char → Bool} (hp : WithinWord p) (t : Text) :
    EndsWithin t (runLength p t) := by
  intro c hc
  rw [take_runLength] at hc
  have hpc := List.mem_takeWhile_imp (List.mem_of_mem_getLast? hc)
  rw [← Bool.not_eq_true]
  intro hstops
  rw [hp c hstops] at hpc
  cases hpc

theorem endsWithin_one {c : Char} (hc : stopsWord c = false) (t : Text) :
    EndsWithin (c :: t) 1 := by
  intro d hd
  cases hd
  exact hc

theorem not_stops_of_within {p : Char → Bool} (hp : WithinWord p) {c : Char} (hc : p c = true) :
    stopsWord c = false := by
  rw [← Bool.not_eq_true]
  intro hstops
  rw [hp c hstops] at hc
  cases hc

theorem endsWithin_fractionLength {isFirst isRest : Char → Bool} (hfirst : WithinWord isFirst)
    (hrest : WithinWord isRest) (t : Text) : EndsWithin t (fractionLength isFirst isRest t) := by
  match t with
  | [] => exact endsWithin_zero _
  | [a] =>
      rw [fractionLength_of_short _ _ (by simp)]
      exact endsWithin_zero _
  | a :: b :: t =>
      rw [fractionLength_cons]
      split
      · next hpoint =>
          rw [Bool.and_eq_true] at hpoint
          have hsign : EndsWithin (a :: b :: t) (1 + 1) := by
            intro c hc
            cases hc
            exact not_stops_of_within hfirst hpoint.2
          exact hsign.add (endsWithin_runLength hrest t)
      · exact endsWithin_zero _

theorem endsWithin_exponentLength (lower upper : Char) (t : Text) :
    EndsWithin t (exponentLength lower upper t) := by
  match t with
  | [] => exact endsWithin_zero _
  | [a] => exact endsWithin_zero _
  | a :: b :: t =>
      have hdigits := endsWithin_runLength withinWord_isDecimal
      rw [exponentLength_cons]
      split
      · split
        · next hsign =>
            split
            · exact endsWithin_zero _
            · have hfront : EndsWithin (a :: b :: t) 2 := by
                intro c hc
                cases hc
                rw [Bool.or_eq_true, beq_iff_eq, beq_iff_eq] at hsign
                rcases hsign with rfl | rfl <;> rfl
              rw [Nat.add_comm]
              exact hfront.add (hdigits t)
        · split
          · exact endsWithin_zero _
          · next hne =>
              intro c hc
              rw [List.take_succ_cons] at hc
              cases hlast : ((b :: t).take (runLength isDecimal (b :: t))).getLast? with
              | none =>
                  rw [List.getLast?_eq_none_iff, List.take_eq_nil_iff] at hlast
                  rcases hlast with hzero | hnil
                  · exact absurd hzero hne
                  · cases hnil
              | some d =>
                  rw [List.getLast?_cons, hlast] at hc
                  exact hdigits (b :: t) c (hlast.trans hc)
      · exact endsWithin_zero _

theorem endsWithin_realLength {whole : Nat} {isFirst isRest : Char → Bool}
    (hfirst : WithinWord isFirst) (hrest : WithinWord isRest) (lower upper : Char) {t : Text}
    (h : EndsWithin t whole) : EndsWithin t (realLength whole isFirst isRest lower upper t) :=
  (h.add (endsWithin_fractionLength hfirst hrest _)).add (endsWithin_exponentLength lower upper _)

theorem endsWithin_basedLength? {t : Text} {n : Nat} (h : basedLength? t = some n) :
    EndsWithin t n := by
  match t with
  | [] => cases h
  | [a] =>
      rw [basedLength?_of_quiet a quiet_nil] at h
      cases h
  | a :: b :: t =>
      have hdigits : ∀ {p : Char → Bool}, WithinWord p → stopsWord b = false →
          EndsWithin (a :: b :: t) (2 + runLength p t) := by
        intro p hp hb
        have hfront : EndsWithin (a :: b :: t) 2 := by
          intro c hc
          cases hc
          exact hb
        exact hfront.add (endsWithin_runLength hp t)
      rw [basedLength?_cons] at h
      split at h
      · split at h
        · next hb =>
            split at h <;> cases h
            apply endsWithin_realLength withinWord_isHex withinWord_isHex
            exact hdigits withinWord_isHex (by rw [eq_of_beq hb]; rfl)
        split at h
        · next hb =>
            split at h <;> cases h
            exact hdigits withinWord_isOctal (by rw [eq_of_beq hb]; rfl)
        split at h
        · next hb =>
            split at h <;> cases h
            exact hdigits withinWord_isBinary (by rw [eq_of_beq hb]; rfl)
        · cases h
      · cases h

theorem endsWithin_length (t : Text) : EndsWithin t (length t) := by
  cases t with
  | nil => exact endsWithin_zero _
  | cons a t =>
      rw [length_cons]
      split
      · cases hbased : basedLength? (a :: t) with
        | some n => exact endsWithin_basedLength? hbased
        | none =>
            apply endsWithin_realLength withinWord_isDigit withinWord_isDecimal
            exact endsWithin_runLength withinWord_isDecimal _
      · exact endsWithin_zero _

end Numeral

namespace Literal

/-!
# Literals
-/

theorem lengthFrom_nil {skip n m : Nat} {t : Text} (h : lengthFrom [] skip n t = .ok m) :
    m = n + skip := by
  induction t generalizing skip n with
  | nil =>
      rw [lengthFrom] at h
      split at h
      · next hzero =>
          cases h
          rw [eq_of_beq (Bool.and_eq_true_iff.mp hzero).2]
          rfl
      · cases h
  | cons c t ih =>
      cases skip with
      | zero =>
          cases h
          rfl
      | succ skip =>
          rw [ih h]
          exact Nat.succ_add_eq_add_succ n skip

theorem last_of_closing (hashes : Nat) (multiline : Bool) :
    ∃ front c, closing hashes multiline = front ++ [c] ∧ isLoose c = false := by
  cases hashes with
  | zero =>
      cases multiline with
      | false => exact ⟨[], '"', rfl, rfl⟩
      | true => exact ⟨['"', '"'], '"', rfl, rfl⟩
  | succ hashes =>
      refine ⟨quotes multiline ++ List.replicate hashes '#', '#', ?_, rfl⟩
      rw [closing, List.replicate_succ', List.append_assoc]

theorem last_of_lengthFrom {layers : List Layer} {skip n m : Nat} {t : Text}
    (h : lengthFrom layers skip n t = .ok m) (hgrounded : Grounded layers) (hne : layers ≠ []) :
    ∃ front c, t.take (m - n) = front ++ [c] ∧ isLoose c = false := by
  -- The last character belongs to the sign that closes the outermost layer; the sign may be read in
  -- one step.
  fun_induction lengthFrom layers skip n t with
  | case1 layers skip n hclosed =>
      rw [Bool.and_eq_true, List.isEmpty_iff] at hclosed
      exact absurd hclosed.1 hne
  | case2 => cases h
  | case3 layers n c t skip ih =>
      have hle := lengthFrom_ge h
      rcases ih h hgrounded hne with ⟨front, d, htake, hd⟩
      refine ⟨c :: front, d, ?_, hd⟩
      rw [show m - n = m - (n + 1) + 1 by omega, List.take_succ_cons, htake]
      rfl
  | case4 layers n c t hclosed => exact absurd (List.isEmpty_iff.mp hclosed) hne
  | case5 => cases h
  | case6 layers n c t hopen layers' skip' hstep ih =>
      have hle := lengthFrom_ge h
      by_cases hlayers : layers' = []
      · subst hlayers
        have hm := lengthFrom_nil h
        rcases step_cases hstep with ⟨l, outer, pushed, rfl, hnil, hsame, hmoves⟩
        rcases List.append_eq_nil_iff.mp hnil.symm with ⟨rfl, rfl⟩
        cases hmoves with
        | @closed hashes multiline start hclosing =>
            rcases last_of_closing hashes multiline with ⟨front, d, hlast, hd⟩
            refine ⟨front, d, ?_, hd⟩
            have hpos := congrArg List.length hlast
            rw [List.length_append, List.length_singleton] at hpos
            have hlength : m - n = (closing hashes multiline).length := by omega
            rcases Option.isSome_iff_exists.mp hclosing with ⟨rest, hrest⟩
            rw [hlength, eq_append_of_after? hrest, List.take_left, hlast]
        | left => exact absurd rfl (hgrounded 0)
      · rcases ih h (grounded_step hstep hgrounded) hlayers with ⟨front, d, htake, hd⟩
        refine ⟨c :: front, d, ?_, hd⟩
        rw [show m - n = m - (n + 1) + 1 by omega, List.take_succ_cons, htake]
        rfl

theorem parted_of_length {t : Text} {n : Nat} (h : length t = .ok n) (u : Text) :
    Parted (t.take n) u := by
  unfold length at h
  have hgrounded : ∀ hashes multiline, Grounded [Layer.quoted hashes multiline 0] := by
    intro hashes multiline depth hlast
    cases hlast
  rcases last_of_lengthFrom h (hgrounded _ _) (List.cons_ne_nil _ _) with ⟨front, c, htake, hc⟩
  rw [Nat.sub_zero] at htake
  rw [htake]
  exact parted_concat hc u

end Literal

namespace Text

/-- The first place of a sign, with what stands in front of it and behind it. -/
theorem split_of_find? {p t : Text} {i : Nat} (h : find? p t = some i) :
    t.take (i + p.length) = t.take i ++ p := by
  induction t generalizing i with
  | nil =>
      rw [find?] at h
      split at h
      · next hp =>
          cases h
          rw [hp]
          rfl
      · cases h
  | cons c t ih =>
      rw [find?] at h
      split at h
      · next hstarts =>
          cases h
          rcases Option.isSome_iff_exists.mp hstarts with ⟨rest, hrest⟩
          rw [eq_append_of_after? hrest, Nat.zero_add, List.take_left]
          rfl
      · rcases Option.map_eq_some_iff.mp h with ⟨j, hj, rfl⟩
        rw [Nat.add_right_comm, List.take_succ_cons, ih hj, List.take_succ_cons]
        rfl

end Text

namespace Token

/-!
# Tokens
-/

theorem parted_one {c : Char} {r : Text} (hstarts : Piece.next? (c :: r) = none) :
    Parted ((c :: r).take 1) ((c :: r).drop 1) := by
  rcases (next?_eq_none_iff c r).mp hstarts with ⟨hspace, htab, -, hpair, -⟩
  constructor
  · intro hreturn hbreak
    cases hreturn
    exact hpair ⟨rfl, hbreak⟩
  · intro d hd hblank
    cases hd
    rcases hblank with hblank | hblank
    · exact absurd hblank hspace
    · exact absurd hblank htab

theorem parted_word {c : Char} {r : Text} (hstarts : Piece.next? (c :: r) = none)
    (hreturn : c ≠ '\r') {n : Nat} (hn : Numeral.EndsWithin r n) (u : Text) :
    Parted ((c :: r).take (n + 1)) u := by
  rcases (next?_eq_none_iff c r).mp hstarts with ⟨hspace, htab, -⟩
  apply parted_of_last
  intro d hd
  rw [List.take_succ_cons, List.getLast?_cons] at hd
  cases hlast : (r.take n).getLast? with
  | some e =>
      rw [hlast] at hd
      exact isLoose_of_stopsWord (hn d (hlast.trans hd))
  | none =>
      rw [hlast] at hd
      cases hd
      simp [isLoose, hspace, htab, hreturn]

theorem endsWithin_operatorTail (t : Text) : Numeral.EndsWithin t (operatorTail t) := by
  induction t with
  | nil => exact Numeral.endsWithin_zero _
  | cons c t ih =>
      rw [operatorTail_cons]
      split
      · next hsign =>
          rw [Bool.and_eq_true] at hsign
          have hc := Numeral.not_stops_of_within withinWord_isOperatorChar hsign.1
          rw [Nat.add_comm]
          exact (Numeral.endsWithin_one hc t).add ih
      · exact Numeral.endsWithin_zero _

theorem parted_placeholder {t : Text} {n : Nat} (h : placeholderLength? t = some n) (u : Text) :
    Parted (t.take n) u := by
  unfold placeholderLength? at h
  split at h
  · next s =>
      rcases Option.map_eq_some_iff.mp h with ⟨i, hi, rfl⟩
      have hfind : s.take (i + 2) = s.take i ++ ['#', '>'] := split_of_find? hi
      have htake : ('<' :: '#' :: s).take (i + 4) = ('<' :: '#' :: (s.take i ++ ['#'])) ++ ['>'] := by
        rw [List.take_succ_cons, List.take_succ_cons, hfind]
        simp
      rw [htake]
      exact parted_concat rfl _
  · cases h

theorem parted_quoted (c : Char) (r : Text) :
    Parted ((c :: r).take (backquotedLength r)) ((c :: r).drop (backquotedLength r)) := by
  unfold backquotedLength
  split
  · next i hi =>
      have hfind : r.take (i + 1) = r.take i ++ ['\x60'] := split_of_find? hi
      rw [List.take_succ_cons, hfind, ← List.cons_append]
      exact parted_concat rfl _
  · rw [List.drop_eq_nil_of_le (by simp)]
    exact parted_nil _

theorem Plain.parted {c : Char} {r : Text} {kind : TokenKind} {n : Nat} (h : Plain c r kind n)
    (hstarts : Piece.next? (c :: r) = none) : Parted ((c :: r).take n) ((c :: r).drop n) := by
  have hword := Numeral.endsWithin_runLength withinWord_isIdentifierChar r
  cases h with
  | placeholder hlength => exact parted_placeholder hlength _
  | literal _ hlength => exact Literal.parted_of_length hlength _
  | pound hc => exact parted_word hstarts (hc ▸ by decide) hword _
  | atSign hc => exact parted_word hstarts (hc ▸ by decide) hword _
  | quoted => exact parted_quoted c r
  | word hc hn =>
      subst hn
      exact parted_word hstarts (ne_of_holds hc rfl) hword _
  | number hn =>
      subst hn
      exact parted_of_last fun d hd =>
        isLoose_of_stopsWord (Numeral.endsWithin_length (c :: r) d hd)
  | operator hc => exact parted_word hstarts (ne_of_holds hc rfl) (endsWithin_operatorTail r) _
  | _ => exact parted_one hstarts

theorem parted_of_measure {marks : Bool} {c : Char} {r : Text} {kind : TokenKind} {n : Nat}
    (h : measure marks c r = .ok (kind, n)) (hstarts : Piece.next? (c :: r) = none) :
    Parted ((c :: r).take n) ((c :: r).drop n) := by
  cases measured_of_measure h with
  | plain _ h => exact h.parted hstarts
  | _ => exact parted_one hstarts

end Token

namespace Piece

/-!
# Comments
-/

theorem last_of_behindBlock? {depth : Nat} {t : Text} (h : behindBlock? depth t = some []) :
    t.getLast? = some '/' := by
  fun_induction behindBlock? depth t with
  | case1 depth t ih =>
      rw [List.getLast?_cons, List.getLast?_cons, ih h]
      rfl
  | case2 t =>
      cases h
      rfl
  | case3 t depth ih =>
      rw [List.getLast?_cons, List.getLast?_cons, ih h]
      rfl
  | case4 depth c t hopen hclose ih =>
      rw [List.getLast?_cons, ih h]
      rfl
  | case5 => cases h

theorem parted_of_stopsAt {form : CommentForm} {text u : Text}
    (h : (Piece.comment form text).StopsAt u) : Parted text u := by
  cases form with
  | line =>
      rcases h with ⟨r, rfl, hr, hu⟩
      constructor
      · intro hlast
        have hmem := List.mem_of_getLast? hlast
        rcases List.mem_cons.mp hmem with hc | hmem
        · cases hc
        rcases List.mem_cons.mp hmem with hc | hmem
        · cases hc
        · cases hr _ hmem
      · exact fun _ _ _ => hu
  | block =>
      rcases h with ⟨r, rfl, hclosed | ⟨-, rfl⟩⟩
      · apply parted_of_last
        intro c hc
        rw [List.getLast?_cons, List.getLast?_cons, last_of_behindBlock? hclosed] at hc
        cases hc
        rfl
      · exact parted_nil _

theorem pair_of_stopsAt {p : Piece} {u : Text} (h : p.StopsAt u) :
    p.code.getLast? = some '\r' → u.head? ≠ some '\n' := by
  cases p with
  | comment form text => exact (parted_of_stopsAt h).pair
  | run kind count =>
      intro hlast
      rcases code_run_of_pos h.1 with ⟨k, hk⟩
      have hmem : ∀ c ∈ (times (k + 1) kind.unit).getLast?, c ∈ kind.unit.getLast? := by
        intro c hc
        rw [times, List.replicate_succ', List.flatten_append, List.getLast?_append] at hc
        cases kind <;> exact hc
      rw [hk] at hlast
      have hunit := hmem _ hlast
      cases kind <;> cases hunit

end Piece
end ForceTry

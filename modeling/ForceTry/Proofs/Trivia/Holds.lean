import ForceTry.Proofs.Trivia.Canonical

/-!
# Trivia in front of other texts

Trivia that is put in front of a text reads back as trivia in front of the same text, if no piece of
it runs on: a line comment must have a line break behind it, and a block comment must be closed.
Neighbouring runs may be joined, so the pieces that are read need not be the same, but line breaks
stand where they stood.
-/

namespace ForceTry

namespace Text

def EndsLine (t : Text) : Prop := ∀ c ∈ t.head?, Piece.staysInLine c = false

theorem endsLine_cons {c : Char} (h : Piece.staysInLine c = false) (t : Text) :
    EndsLine (c :: t) := by
  intro d hd
  cases hd
  exact h

theorem not_endsLine_cons {c : Char} (h : Piece.staysInLine c = true) (t : Text) :
    ¬ EndsLine (c :: t) :=
  fun hline => Bool.noConfusion (h.symm.trans (hline c rfl))

theorem times_add (n m : Nat) (t : Text) : times (n + m) t = times n t ++ times m t := by
  induction n with
  | zero => rw [Nat.zero_add, times_zero, List.nil_append]
  | succ n ih => rw [Nat.succ_add, times_succ, times_succ, ih, List.append_assoc]

end Text

namespace Piece

open ForceTry.Text

/-- The piece does not run on into the text `u` behind it, except that a run may be continued. -/
def HoldsBefore (u : Text) : Piece → Prop
  | .run _ count => 0 < count
  | .comment .line text =>
      ∃ r, text = '/' :: '/' :: r ∧ (∀ c ∈ r, staysInLine c = true) ∧ EndsLine u
  | .comment .block text => ∃ r, text = '/' :: '*' :: r ∧ behindBlock? 0 r = some []

theorem HoldsBefore.mono {u u' : Text} {p : Piece} (h : p.HoldsBefore u)
    (hline : EndsLine u → EndsLine u') : p.HoldsBefore u' := by
  match p, h with
  | .run _ _, h => exact h
  | .comment .line _, ⟨r, htext, hr, hu⟩ => exact ⟨r, htext, hr, hline hu⟩
  | .comment .block _, h => exact h

theorem opening_of_holdsBefore {u : Text} {p : Piece} (h : p.HoldsBefore u) :
    p.opening <+: p.code := by
  match p, h with
  | .run _ _, hcount => exact unit_starts hcount
  | .comment .line _, ⟨r, rfl, _⟩ => exact ⟨r, rfl⟩
  | .comment .block _, ⟨r, rfl, _⟩ => exact ⟨r, rfl⟩

theorem code_run_add (kind : Run) {n m : Int} (hn : 0 < n) (hm : 0 < m) :
    code (.run kind n) ++ code (.run kind m) = code (.run kind (n + m)) := by
  have hsum : (n + m).toNat = n.toNat + m.toNat := by omega
  rw [code, code, code, hsum, times_add]

theorem code_run_split (kind : Run) {m n : Int} (hm : 0 < m) (hlt : m < n) :
    code (.run kind n) = code (.run kind m) ++ code (.run kind (n - m)) := by
  rw [code_run_add kind hm (Int.sub_pos.mpr hlt)]
  congr 2
  omega

theorem next?_of_unit {kind : Run} {u : Text} (h : kind.unit <+: u) :
    ∃ p n, next? u = some (p, n) := by
  rcases h with ⟨v, rfl⟩
  cases kind <;> exact ⟨_, _, rfl⟩

end Piece

namespace Trivia

open ForceTry.Text

/-- What the grammar sees of trivia: what the first piece is, and whether a line break is in it. -/
def lineView (t : Trivia) : Option Bool × Bool := (t.head?.map Piece.isNewline, t.containsNewline)

theorem scan_piece {p : Piece} {u : Text} (h : p.HoldsBefore u) :
    (scan false (p.code ++ u)).2 = (scan false u).2 ∧
      lineView (scan false (p.code ++ u)).1 = lineView (p :: (scan false u).1) := by
  have hstops : ∀ q w, q.StopsAt w → scan false (q.code ++ w) = (q :: (scan false w).1, (scan false w).2) := by
    intro q w hq
    rw [scan_of_next?_eq_some (Piece.next?_append hq), List.drop_left]
    rfl
  match p, h with
  | .comment .line _, ⟨r, htext, hr, hu⟩ =>
      rw [hstops (.comment .line _) u ⟨r, htext, hr, hu⟩]
      exact ⟨rfl, rfl⟩
  | .comment .block _, ⟨r, htext, hr⟩ =>
      rw [hstops (.comment .block _) u ⟨r, htext, .inl hr⟩]
      exact ⟨rfl, rfl⟩
  | .run kind count, hcount =>
      by_cases hunit : kind.unit <+: u
      · rcases Piece.next?_of_unit hunit with ⟨q, n, hnext⟩
        rcases Piece.eq_run_of_opening (Piece.opening_of_next? hnext) hunit with ⟨m, rfl⟩
        have hstop := (Piece.stopsAt_of_next? hnext).2
        have hu : u = Piece.code (.run kind m) ++ u.drop n := by
          rw [Piece.code_of_next? hnext, List.take_append_drop]
        have hsum : Piece.StopsAt (u.drop n) (.run kind (count + m)) :=
          ⟨Int.add_pos hcount hstop.1, hstop.2⟩
        have hjoin : Piece.code (.run kind count) ++ u =
            Piece.code (.run kind (count + m)) ++ u.drop n := by
          rw [← Piece.code_run_add kind hcount hstop.1, List.append_assoc, ← hu]
        rw [hjoin, hstops _ _ hsum]
        rw [hu, hstops _ _ hstop]
        refine ⟨by rw [← hu], ?_⟩
        rw [← hu]
        simp [lineView, containsNewline, Piece.isNewline]
      · rw [hstops (.run kind count) u ⟨hcount, hunit⟩]
        exact ⟨rfl, rfl⟩

/-- No piece runs on, neither into the pieces behind it nor into the text `u`. -/
def HoldsBefore (u : Text) : Trivia → Prop
  | [] => True
  | p :: t => p.HoldsBefore (code t ++ u) ∧ HoldsBefore u t

theorem holdsBefore_append {u : Text} {s t : Trivia} :
    HoldsBefore u (s ++ t) ↔ HoldsBefore (code t ++ u) s ∧ HoldsBefore u t := by
  induction s with
  | nil => exact (true_and _).symm ▸ Iff.rfl
  | cons p s ih =>
      rw [List.cons_append, HoldsBefore, HoldsBefore, ih, code_append, List.append_assoc, and_assoc]

theorem HoldsBefore.mono {u u' : Text} {t : Trivia} (h : HoldsBefore u t)
    (hline : EndsLine u → EndsLine u') : HoldsBefore u' t := by
  induction t with
  | nil => trivial
  | cons p t ih =>
      refine ⟨h.1.mono ?_, ih h.2⟩
      cases code t with
      | nil => exact hline
      | cons c s => exact id

theorem scan_append {u : Text} {t : Trivia} (h : HoldsBefore u t) :
    (scan false (code t ++ u)).2 = (scan false u).2 ∧
      lineView (scan false (code t ++ u)).1 = lineView (t ++ (scan false u).1) := by
  induction t with
  | nil => exact ⟨rfl, rfl⟩
  | cons p t ih =>
      have hpiece := scan_piece h.1
      have hrest := ih h.2
      rw [code_cons, List.append_assoc]
      refine ⟨hpiece.1.trans hrest.1, hpiece.2.trans ?_⟩
      have hnewline := (Prod.ext_iff.mp hrest.2).2
      simp only [lineView, containsNewline, List.cons_append, List.head?_cons, List.any_cons] at hnewline ⊢
      rw [hnewline]

theorem scan_line (t : Text) :
    scan false t = ((scan true t).1 ++ (scan false (scan true t).2).1,
      (scan false (scan true t).2).2) := by
  induction t using scan_induction true with
  | absent t h =>
      rw [@scan_of_next?_eq_none true t h, List.nil_append]
  | stopped t p n h hline =>
      rw [@scan_of_next?_eq_some true t p n h, if_pos hline, List.nil_append]
  | piece t p n h hline ih =>
      rw [@scan_of_next?_eq_some true t p n h, if_neg hline, @scan_of_next?_eq_some false t p n h,
        Bool.false_and, if_neg Bool.false_ne_true, ih]
      rfl

theorem isEmpty_scan (t : Text) :
    (scan true t).1.isEmpty = (scan false t).1.head?.all Piece.isNewline := by
  cases h : Piece.next? t with
  | none => rw [scan_of_next?_eq_none h, scan_of_next?_eq_none h]; rfl
  | some found =>
      rcases found with ⟨p, n⟩
      rw [scan_of_next?_eq_some h, scan_of_next?_eq_some h]
      cases hp : p.isNewline <;> simp [hp]

theorem next?_scan (t : Text) : Piece.next? (scan false t).2 = none := by
  induction t using scan_induction false with
  | absent t h =>
      rw [scan_of_next?_eq_none h]
      exact h
  | stopped t p n h hline => cases hline
  | piece t p n h hline ih =>
      rw [scan_of_next?_eq_some h, if_neg hline]
      exact ih

end Trivia

/-!
# What is read holds
-/

def Piece.Closed : Piece → Prop
  | .comment .block text => ∃ r, text = '/' :: '*' :: r ∧ behindBlock? 0 r = some []
  | _ => True

theorem Piece.holdsBefore_of_stopsAt {p : Piece} {u : Text} (h : p.StopsAt u)
    (hclosed : u ≠ [] ∨ p.Closed) : p.HoldsBefore u := by
  match p, h, hclosed with
  | .run _ _, h, _ => exact h.1
  | .comment .line _, h, _ => exact h
  | .comment .block _, ⟨r, htext, .inl hr⟩, _ => exact ⟨r, htext, hr⟩
  | .comment .block _, ⟨_, _, .inr h⟩, .inl hne => exact absurd h.2 hne
  | .comment .block _, _, .inr h => exact h

namespace Trivia

/-- Trivia that is read off a text holds before what follows it, unless it ends in a comment that is
never closed. -/
theorem holdsBefore_scan (inLine : Bool) (t : Text)
    (h : (scan inLine t).2 ≠ [] ∨ ∀ p ∈ (scan inLine t).1, p.Closed) :
    HoldsBefore (scan inLine t).2 (scan inLine t).1 := by
  induction t using scan_induction inLine with
  | absent t hnext =>
      rw [scan_of_next?_eq_none hnext]
      trivial
  | stopped t p n hnext hline =>
      rw [scan_of_next?_eq_some hnext, if_pos hline]
      trivial
  | piece t p n hnext hline ih =>
      rw [scan_of_next?_eq_some hnext, if_neg hline] at h ⊢
      have hcode := code_scan inLine (t.drop n)
      refine ⟨Piece.holdsBefore_of_stopsAt (by rw [hcode]; exact (Piece.stopsAt_of_next? hnext).2) ?_,
        ih (h.imp id fun hall q hq => hall q (List.mem_cons_of_mem p hq))⟩
      refine h.imp ?_ fun hall => hall p (List.mem_cons_self ..)
      intro hne hnil
      exact hne (List.append_eq_nil_iff.mp hnil).2

end Trivia
end ForceTry

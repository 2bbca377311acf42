import ForceTry.Proofs.Token.Reading

/-!
# Canonical trivia

The pieces that are read off a text are as long as they can be: neighbouring runs differ in kind, a
line comment ends at a line break or at the end, and a block comment ends where it is closed.  Such
a list of pieces is canonical.  Reading gives canonical lists, and the text of a canonical list
reads back as the list itself, so a second reading of a stretch of trivia finds the same pieces.
-/

namespace ForceTry

namespace Text

theorem drop_runLength (p : Char → Bool) (t : Text) : t.drop (runLength p t) = t.dropWhile p := by
  calc
    t.drop (runLength p t) = (t.takeWhile p ++ t.dropWhile p).drop (t.takeWhile p).length := by
      rw [List.takeWhile_append_dropWhile]
      rfl
    _ = t.dropWhile p := List.drop_left

theorem runLength_append {p : Char → Bool} {s u : Text} (hs : ∀ c ∈ s, p c = true)
    (hu : ∀ c ∈ u.head?, p c = false) : runLength p (s ++ u) = s.length := by
  have hnone : u.takeWhile p = [] := by
    cases u with
    | nil => rfl
    | cons d u =>
        apply List.takeWhile_cons_of_neg
        rw [hu d rfl]
        exact Bool.false_ne_true
  rw [runLength, List.takeWhile_append_of_pos hs, hnone, List.append_nil]

end Text

namespace Piece

/-!
# Where a piece ends
-/

/-- What follows the outermost block comment, when `depth` further comments are open inside it and
`t` is the text from there on. -/
def behindBlock? (depth : Nat) : Text → Option Text
  | '/' :: '*' :: t => behindBlock? (depth + 1) t
  | '*' :: '/' :: t =>
      match depth with
      | 0 => some t
      | depth + 1 => behindBlock? depth t
  | _ :: t => behindBlock? depth t
  | [] => none

/-- Reading the text of the piece in front of the text `u` stops at `u`. -/
def StopsAt (u : Text) : Piece → Prop
  | .run kind count => 0 < count ∧ ¬ kind.unit <+: u
  | .comment .line text =>
      ∃ r, text = '/' :: '/' :: r ∧ (∀ c ∈ r, staysInLine c = true) ∧
        ∀ c ∈ u.head?, staysInLine c = false
  | .comment .block text =>
      ∃ r, text = '/' :: '*' :: r ∧
        (behindBlock? 0 r = some [] ∨ behindBlock? 0 r = none ∧ u = [])

/-- The piece is complete in front of the pieces `rest`: a run repeats its unit at least once and
is not continued, a line comment is last or followed by a line break, and a block comment is closed
by its last characters or is last. -/
def EndsBefore (rest : Trivia) : Piece → Prop
  | .run kind count => 0 < count ∧ ∀ n, rest.head? ≠ some (.run kind n)
  | .comment .line text =>
      ∃ r, text = '/' :: '/' :: r ∧ (∀ c ∈ r, staysInLine c = true) ∧
        ∀ p ∈ rest.head?, p.isNewline = true
  | .comment .block text =>
      ∃ r, text = '/' :: '*' :: r ∧
        (behindBlock? 0 r = some [] ∨ behindBlock? 0 r = none ∧ rest = [])

def opening : Piece → Text
  | .run kind _ => kind.unit
  | .comment .line _ => ['/', '/']
  | .comment .block _ => ['/', '*']

theorem opening_of_next? {t : Text} {p : Piece} {n : Nat} (h : next? t = some (p, n)) :
    p.opening <+: t := by
  unfold next? at h
  split at h <;> simp only [Option.some.injEq, Prod.mk.injEq, reduceCtorEq] at h
  · rcases h with ⟨rfl, rfl⟩
    exact ⟨_, rfl⟩
  · rcases h with ⟨rfl, rfl⟩
    exact ⟨_, rfl⟩
  · rcases h with ⟨rfl, rfl⟩
    exact ⟨_, rfl⟩
  · rcases h with ⟨rfl, rfl⟩
    exact ⟨_, rfl⟩
  · rcases h with ⟨rfl, rfl⟩
    exact ⟨_, rfl⟩
  · rcases h with ⟨rfl, rfl⟩
    exact ⟨_, rfl⟩

theorem code_run_of_pos {kind : Run} {m : Int} (h : 0 < m) :
    ∃ k, code (.run kind m) = Text.times (k + 1) kind.unit := by
  rcases Nat.exists_eq_succ_of_ne_zero (show m.toNat ≠ 0 by omega) with ⟨k, hk⟩
  exact ⟨k, congrArg (Text.times · kind.unit) hk⟩

theorem unit_starts {kind : Run} {m : Int} (h : 0 < m) : kind.unit <+: code (.run kind m) := by
  rcases code_run_of_pos h with ⟨k, hk⟩
  rw [hk, Text.times_succ]
  exact List.prefix_append _ _

theorem opening_of_endsBefore {p : Piece} {rest : Trivia} (h : p.EndsBefore rest) :
    p.opening <+: p.code := by
  match p, h with
  | .run _ _, ⟨hcount, _⟩ => exact unit_starts hcount
  | .comment .line _, ⟨r, rfl, _⟩ => exact ⟨r, rfl⟩
  | .comment .block _, ⟨r, rfl, _⟩ => exact ⟨r, rfl⟩

theorem isNewline_of_opening {p : Piece} {u : Text} (h : p.opening <+: u)
    (hu : ∀ c ∈ u.head?, staysInLine c = false) : p.isNewline = true := by
  rcases h with ⟨v, rfl⟩
  match p with
  | .run .spaces _ => exact absurd (hu ' ' rfl) (by decide)
  | .run .tabs _ => exact absurd (hu '\t' rfl) (by decide)
  | .run .newlines _ => rfl
  | .run .carriageReturnLineFeeds _ => rfl
  | .comment .line _ => exact absurd (hu '/' rfl) (by decide)
  | .comment .block _ => exact absurd (hu '/' rfl) (by decide)

theorem staysInLine_head_of_isNewline {p : Piece} {u : Text} (h : p.opening <+: u)
    (hp : p.isNewline = true) : ∀ c ∈ u.head?, staysInLine c = false := by
  rcases h with ⟨v, rfl⟩
  intro c hc
  match p, hp with
  | .run .newlines _, _ =>
      cases hc
      rfl
  | .run .carriageReturnLineFeeds _, _ =>
      cases hc
      rfl

theorem eq_run_of_opening {kind : Run} {p : Piece} {u : Text} (h : p.opening <+: u)
    (hu : kind.unit <+: u) : ∃ n, p = .run kind n := by
  rcases h with ⟨v, rfl⟩
  rcases hu with ⟨w, hw⟩
  cases p with
  | run kind' n =>
      have hkind : kind' = kind := by
        cases kind <;> cases kind' <;> first | rfl | cases hw
      exact ⟨n, by rw [hkind]⟩
  | comment form text => cases kind <;> cases form <;> cases hw

/-!
# Block comments
-/

theorem behindBlock?_append {depth : Nat} {s u : Text} (h : behindBlock? depth s = some u)
    (v : Text) : behindBlock? depth (s ++ v) = some (u ++ v) := by
  fun_induction behindBlock? depth s with
  | case1 depth t ih => exact ih h
  | case2 t =>
      cases h
      rfl
  | case3 t depth ih => exact ih h
  | case4 depth c t hopen hclose ih =>
      cases t with
      | nil => cases h
      | cons d t =>
          rw [List.cons_append, List.cons_append, behindBlock?]
          · exact ih h
          · intro w hc hd
            cases hd
            exact hopen t hc rfl
          · intro w hc hd
            cases hd
            exact hclose t hc rfl
  | case5 => cases h

theorem blockEnd_of_behindBlock?_eq_none {depth : Nat} {t : Text}
    (h : behindBlock? depth t = none) (n : Nat) : blockEnd depth n t = n + t.length := by
  fun_induction behindBlock? depth t generalizing n with
  | case1 depth t ih =>
      rw [blockEnd, ih h, List.length_cons, List.length_cons]
      omega
  | case2 t => cases h
  | case3 t depth ih =>
      rw [blockEnd]
      show blockEnd depth (n + 2) t = _
      rw [ih h, List.length_cons, List.length_cons]
      omega
  | case4 depth c t hopen hclose ih =>
      rw [blockEnd, ih h, List.length_cons]
      · omega
      · exact hopen
      · exact hclose
  | case5 => rfl

theorem blockEnd_of_behindBlock?_eq_some {depth : Nat} {t u : Text}
    (h : behindBlock? depth t = some u) (n : Nat) :
    ∃ s, t = s ++ u ∧ behindBlock? depth s = some [] ∧ blockEnd depth n t = n + s.length := by
  fun_induction behindBlock? depth t generalizing n with
  | case1 depth t ih =>
      rcases ih h (n + 2) with ⟨s, rfl, hs, hend⟩
      refine ⟨'/' :: '*' :: s, rfl, hs, ?_⟩
      rw [blockEnd, hend, List.length_cons, List.length_cons]
      omega
  | case2 t =>
      cases h
      exact ⟨['*', '/'], rfl, rfl, rfl⟩
  | case3 t depth ih =>
      rcases ih h (n + 2) with ⟨s, rfl, hs, hend⟩
      refine ⟨'*' :: '/' :: s, rfl, hs, ?_⟩
      rw [blockEnd]
      show blockEnd depth (n + 2) (s ++ u) = _
      rw [hend, List.length_cons, List.length_cons]
      omega
  | case4 depth c t hopen hclose ih =>
      rcases ih h (n + 1) with ⟨s, rfl, hs, hend⟩
      refine ⟨c :: s, rfl, ?_, ?_⟩
      · cases s with
        | nil => cases hs
        | cons d s =>
            rw [behindBlock?]
            · exact hs
            · intro w hc hd
              cases hd
              exact hopen (s ++ u) hc rfl
            · intro w hc hd
              cases hd
              exact hclose (s ++ u) hc rfl
      · rw [blockEnd, hend, List.length_cons]
        · omega
        · exact hopen
        · exact hclose
  | case5 => cases h

/-!
# One piece
-/

theorem not_unit_prefix_drop_runLength {c : Char} (t : Text) :
    ¬ [c] <+: t.drop (Text.runLength (· == c) t) := by
  rintro ⟨v, hv⟩
  have hhead := List.head?_dropWhile_not (· == c) t
  rw [← Text.drop_runLength, ← hv] at hhead
  simp at hhead

theorem not_pair_prefix_drop_crlfPairs (t : Text) :
    ¬ ['\r', '\n'] <+: t.drop (2 * crlfPairs t) := by
  fun_induction crlfPairs t with
  | case1 t ih =>
      rw [show 2 * (crlfPairs t + 1) = 2 * crlfPairs t + 1 + 1 by omega]
      exact ih
  | case2 t ht =>
      rintro ⟨v, hv⟩
      exact ht v hv.symm

theorem two_mul_crlfPairs_le (t : Text) : 2 * crlfPairs t ≤ t.length := by
  fun_induction crlfPairs t with
  | case1 t ih =>
      rw [List.length_cons, List.length_cons]
      omega
  | case2 => exact Nat.zero_le _

theorem stopsAt_of_next? {t : Text} {p : Piece} {n : Nat} (h : next? t = some (p, n)) :
    n ≤ t.length ∧ p.StopsAt (t.drop n) := by
  have hpos := (next?_length_pos h).1
  unfold next? at h
  -- A run stops where its unit does, a line comment at the end of the line, and a block comment
  -- where it is closed or at the end of the text.
  split at h <;> simp only [Option.some.injEq, Prod.mk.injEq, reduceCtorEq] at h
  · rcases h with ⟨rfl, rfl⟩
    exact ⟨Text.runLength_le _ _, Int.natCast_pos.mpr hpos, not_unit_prefix_drop_runLength _⟩
  · rcases h with ⟨rfl, rfl⟩
    exact ⟨Text.runLength_le _ _, Int.natCast_pos.mpr hpos, not_unit_prefix_drop_runLength _⟩
  · rcases h with ⟨rfl, rfl⟩
    exact ⟨Text.runLength_le _ _, Int.natCast_pos.mpr hpos, not_unit_prefix_drop_runLength _⟩
  · rcases h with ⟨rfl, rfl⟩
    exact ⟨two_mul_crlfPairs_le _, by omega, not_pair_prefix_drop_crlfPairs _⟩
  · next r =>
      rcases h with ⟨rfl, rfl⟩
      refine ⟨Text.runLength_le _ _, r.takeWhile staysInLine, ?_, ?_, ?_⟩
      · rw [Text.take_runLength]
        rfl
      · intro c hc
        exact List.mem_takeWhile_imp hc
      · intro c hc
        rw [Text.drop_runLength] at hc
        have hhead := List.head?_dropWhile_not staysInLine ('/' :: '/' :: r)
        rw [Option.mem_def.mp hc] at hhead
        exact hhead
  · next r =>
      rcases h with ⟨rfl, rfl⟩
      cases hr : behindBlock? 0 r with
      | none =>
          rw [blockEnd_of_behindBlock?_eq_none hr]
          have hlen : 2 + r.length = ('/' :: '*' :: r).length := by
            rw [List.length_cons, List.length_cons]
            omega
          rw [hlen, List.take_length, List.drop_length]
          exact ⟨Nat.le_refl _, r, rfl, Or.inr ⟨hr, rfl⟩⟩
      | some u =>
          rcases blockEnd_of_behindBlock?_eq_some hr 2 with ⟨s, rfl, hs, hend⟩
          rw [hend, Nat.add_comm 2]
          refine ⟨?_, s, ?_, Or.inl hs⟩
          · simp
          · simp

theorem runLength_replicate_append {c : Char} (n : Nat) {u : Text} (hu : ¬ [c] <+: u) :
    Text.runLength (· == c) (List.replicate n c ++ u) = n := by
  rw [Text.runLength_append, List.length_replicate]
  · intro d hd
    rw [List.eq_of_mem_replicate hd]
    exact beq_self_eq_true c
  · intro d hd
    rw [beq_eq_false_iff_ne]
    intro hdc
    rw [hdc] at hd
    exact hu (List.head?_eq_some_iff.mp hd |>.elim fun v hv => ⟨v, hv.symm⟩)

theorem next?_replicate {kind : Run} {c : Char} {k : Nat} {u : Text}
    (hunit : kind.unit = [c])
    (hnext : ∀ t, next? (c :: t) = some (.run kind (Text.runLength (· == c) (c :: t)),
      Text.runLength (· == c) (c :: t)))
    (hstop : ¬ kind.unit <+: u) :
    next? (code (.run kind (k + 1 : Nat)) ++ u) =
      some (.run kind (k + 1 : Nat), (code (.run kind (k + 1 : Nat))).length) := by
  have hcode : code (.run kind (k + 1 : Nat)) = List.replicate (k + 1) c := by
    rw [code_run, hunit, Text.times_singleton]
  rw [hunit] at hstop
  rw [hcode, List.replicate_succ, List.cons_append, hnext, ← List.cons_append,
    ← List.replicate_succ, runLength_replicate_append _ hstop, List.length_replicate]

theorem crlfPairs_times_append (n : Nat) {u : Text} (hu : ¬ ['\r', '\n'] <+: u) :
    crlfPairs (Text.times n ['\r', '\n'] ++ u) = n := by
  induction n with
  | zero =>
      rw [Text.times_zero, List.nil_append, crlfPairs]
      intro t ht
      exact hu ⟨t, ht.symm⟩
  | succ n ih =>
      rw [Text.times_succ, List.append_assoc]
      show crlfPairs (Text.times n ['\r', '\n'] ++ u) + 1 = n + 1
      rw [ih]

theorem length_times_pair (n : Nat) : (Text.times n ['\r', '\n']).length = 2 * n := by
  induction n with
  | zero => rfl
  | succ n ih =>
      rw [Text.times_succ, List.length_append, ih]
      show 2 + 2 * n = 2 * (n + 1)
      omega

theorem next?_pairs (k : Nat) {u : Text} (hstop : ¬ ['\r', '\n'] <+: u) :
    next? (code (carriageReturnLineFeeds (k + 1 : Nat)) ++ u) =
      some (carriageReturnLineFeeds (k + 1 : Nat),
        (code (carriageReturnLineFeeds (k + 1 : Nat))).length) := by
  have hcode : code (carriageReturnLineFeeds (k + 1 : Nat)) =
      Text.times (k + 1) ['\r', '\n'] := code_run _ _
  have hnext : ∀ t, next? (['\r', '\n'] ++ t) =
      some (carriageReturnLineFeeds (crlfPairs (['\r', '\n'] ++ t)),
        2 * crlfPairs (['\r', '\n'] ++ t)) := fun _ => rfl
  rw [hcode, Text.times_succ, List.append_assoc, hnext, ← List.append_assoc, ← Text.times_succ,
    crlfPairs_times_append _ hstop, length_times_pair]

theorem next?_line {r u : Text} (hr : ∀ c ∈ r, staysInLine c = true)
    (hu : ∀ c ∈ u.head?, staysInLine c = false) :
    next? (('/' :: '/' :: r) ++ u) =
      some (.comment .line ('/' :: '/' :: r), ('/' :: '/' :: r).length) := by
  have hall : ∀ c ∈ '/' :: '/' :: r, staysInLine c = true := by
    intro c hc
    rcases List.mem_cons.mp hc with rfl | hc
    · rfl
    rcases List.mem_cons.mp hc with rfl | hc
    · rfl
    exact hr c hc
  have hlen := Text.runLength_append hall hu
  show some (Piece.comment .line ((('/' :: '/' :: r) ++ u).take (Text.runLength _ _)),
    Text.runLength _ _) = _
  rw [hlen, List.take_left]

theorem next?_block {r u : Text}
    (h : behindBlock? 0 r = some [] ∨ behindBlock? 0 r = none ∧ u = []) :
    next? (('/' :: '*' :: r) ++ u) =
      some (.comment .block ('/' :: '*' :: r), ('/' :: '*' :: r).length) := by
  have hend : blockEnd 0 2 (r ++ u) = ('/' :: '*' :: r).length := by
    rw [List.length_cons, List.length_cons]
    rcases h with hclosed | ⟨hopen, rfl⟩
    · rcases blockEnd_of_behindBlock?_eq_some (behindBlock?_append hclosed u) 2 with ⟨s, hs, -, hend⟩
      rw [hend, List.append_cancel_right hs]
      omega
    · rw [List.append_nil, blockEnd_of_behindBlock?_eq_none hopen]
      omega
  show some (Piece.comment .block ((('/' :: '*' :: r) ++ u).take (blockEnd 0 2 (r ++ u))),
    blockEnd 0 2 (r ++ u)) = _
  rw [hend, List.take_left]

theorem next?_append {p : Piece} {u : Text} (h : p.StopsAt u) :
    next? (p.code ++ u) = some (p, p.code.length) := by
  match p, h with
  | .run kind count, ⟨hcount, hstop⟩ =>
      rcases Int.eq_ofNat_of_zero_le (Int.le_of_lt hcount) with ⟨m, rfl⟩
      rcases Nat.exists_eq_succ_of_ne_zero (show m ≠ 0 by omega) with ⟨k, rfl⟩
      cases kind with
      | spaces => exact next?_replicate rfl (fun _ => rfl) hstop
      | tabs => exact next?_replicate rfl (fun _ => rfl) hstop
      | newlines => exact next?_replicate rfl (fun _ => rfl) hstop
      | carriageReturnLineFeeds => exact next?_pairs k hstop
  | .comment .line _, ⟨r, rfl, hr, hu⟩ => exact next?_line hr hu
  | .comment .block _, ⟨r, rfl, hr⟩ => exact next?_block hr

end Piece

namespace Trivia

/-!
# Lists of pieces
-/

/-- Every piece is complete in front of the pieces behind it. -/
def Canonical : Trivia → Prop
  | [] => True
  | p :: rest => p.EndsBefore rest ∧ Canonical rest

theorem Canonical.opening_starts {p : Piece} {rest : Trivia} (h : Canonical (p :: rest)) :
    p.opening <+: code (p :: rest) :=
  (Piece.opening_of_endsBefore h.1).trans (List.prefix_append p.code (code rest))

theorem Canonical.stopsAt {p : Piece} {rest : Trivia} (h : Canonical (p :: rest)) :
    p.StopsAt rest.code := by
  match p, h.1 with
  | .run kind count, ⟨hcount, hkind⟩ =>
      refine ⟨hcount, ?_⟩
      intro hunit
      cases rest with
      | nil => cases kind <;> cases List.prefix_nil.mp hunit
      | cons q rest =>
          rcases Piece.eq_run_of_opening h.2.opening_starts hunit with ⟨n, rfl⟩
          exact hkind n rfl
  | .comment .line text, ⟨r, htext, hr, hrest⟩ =>
      refine ⟨r, htext, hr, ?_⟩
      cases rest with
      | nil =>
          intro c hc
          cases hc
      | cons q rest => exact Piece.staysInLine_head_of_isNewline h.2.opening_starts (hrest q rfl)
  | .comment .block text, ⟨r, htext, hr⟩ =>
      refine ⟨r, htext, ?_⟩
      rcases hr with hclosed | ⟨hopen, rfl⟩
      · exact Or.inl hclosed
      · exact Or.inr ⟨hopen, rfl⟩

theorem scan_code {t : Trivia} (h : Canonical t) : scan false t.code = (t, []) := by
  induction t with
  | nil => exact scan_of_next?_eq_none rfl
  | cons p rest ih =>
      rw [code_cons, scan_of_next?_eq_some (Piece.next?_append h.stopsAt), List.drop_left, ih h.2]
      rfl

theorem ofText?_code {t : Trivia} (h : Canonical t) : ofText? t.code = .ok t := by
  rw [ofText?, scan_code h]

/-!
# What is read is canonical
-/

/-- The trivia at the start of a text by its pieces: there is none, there is a line break at which
reading stops, or there is a piece in front of more trivia. -/
theorem scan_induction (inLine : Bool) {P : Text → Prop}
    (absent : ∀ t, Piece.next? t = none → P t)
    (stopped : ∀ t p n, Piece.next? t = some (p, n) → (inLine && p.isNewline) = true → P t)
    (piece : ∀ t p n, Piece.next? t = some (p, n) → ¬ (inLine && p.isNewline) = true →
      P (t.drop n) → P t) (t : Text) : P t := by
  induction hlen : t.length using Nat.strong_induction_on generalizing t with
  | _ len ih =>
      cases h : Piece.next? t with
      | none => exact absent t h
      | some found =>
          rcases found with ⟨p, n⟩
          by_cases hline : (inLine && p.isNewline) = true
          · exact stopped t p n h hline
          · apply piece t p n h hline
            exact ih _ (hlen ▸ Piece.length_drop_of_next? h) _ rfl

theorem next?_of_head?_scan {inLine : Bool} {t : Text} {p : Piece}
    (h : (scan inLine t).1.head? = some p) : ∃ n, Piece.next? t = some (p, n) := by
  cases hnext : Piece.next? t with
  | none =>
      rw [scan_of_next?_eq_none hnext] at h
      cases h
  | some found =>
      rcases found with ⟨q, n⟩
      rw [scan_of_next?_eq_some hnext] at h
      split at h
      · cases h
      · cases h
        exact ⟨n, rfl⟩

/-- A piece that stops at a text is complete in front of the trivia at its start. -/
theorem endsBefore_scan {inLine : Bool} {p : Piece} {u : Text} (h : p.StopsAt u) :
    p.EndsBefore (scan inLine u).1 := by
  match p, h with
  | .run kind count, ⟨hcount, hunit⟩ =>
      refine ⟨hcount, ?_⟩
      intro n hhead
      rcases next?_of_head?_scan hhead with ⟨m, hnext⟩
      exact hunit (Piece.opening_of_next? hnext)
  | .comment .line text, ⟨r, htext, hr, hu⟩ =>
      refine ⟨r, htext, hr, ?_⟩
      intro q hhead
      rcases next?_of_head?_scan hhead with ⟨m, hnext⟩
      exact Piece.isNewline_of_opening (Piece.opening_of_next? hnext) hu
  | .comment .block text, ⟨r, htext, hr⟩ =>
      refine ⟨r, htext, ?_⟩
      rcases hr with hclosed | ⟨hopen, rfl⟩
      · exact Or.inl hclosed
      · exact Or.inr ⟨hopen, by rw [scan_of_next?_eq_none rfl]⟩

theorem canonical_scan (inLine : Bool) (t : Text) : Canonical (scan inLine t).1 := by
  induction t using scan_induction inLine with
  | absent t h =>
      rw [scan_of_next?_eq_none h]
      trivial
  | stopped t p n h hline =>
      rw [scan_of_next?_eq_some h, if_pos hline]
      trivial
  | piece t p n h hline ih =>
      rw [scan_of_next?_eq_some h, if_neg hline]
      exact ⟨endsBefore_scan (Piece.stopsAt_of_next? h).2, ih⟩

/-- The stretch of text that trivia was read from reads as trivia again, with the same pieces. -/
theorem ofText?_scan (inLine : Bool) (t : Text) :
    ∃ stretch, t = stretch ++ (scan inLine t).2 ∧ ofText? stretch = .ok (scan inLine t).1 :=
  ⟨(scan inLine t).1.code, (code_scan inLine t).symm, ofText?_code (canonical_scan inLine t)⟩

theorem scan_behind_line (t : Text) :
    ∀ p ∈ (scan false (scan true t).2).1.head?, p.isNewline = true := by
  induction t using scan_induction true with
  | absent t h =>
      rw [scan_of_next?_eq_none h, scan_of_next?_eq_none h]
      intro p hp
      cases hp
  | stopped t p n h hline =>
      rw [scan_of_next?_eq_some h, if_pos hline]
      intro q hq
      rcases next?_of_head?_scan hq with ⟨m, hm⟩
      rw [h] at hm
      cases hm
      exact hline
  | piece t p n h hline ih =>
      rw [scan_of_next?_eq_some h, if_neg hline]
      exact ih

end Trivia
end ForceTry

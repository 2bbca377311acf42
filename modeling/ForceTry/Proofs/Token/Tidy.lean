import ForceTry.Proofs.Token.Endings
import ForceTry.Proofs.Trivia.Tidy

/-!
# Tokens without blanks at the ends of lines

The tokens of a text whose lines do not end in blanks are tidy, and tokens that are tidy and meet well have
such a text.
-/

namespace ForceTry

open ForceTry.Text

/-- A part of a text that ends where the text may be cut off does not end in a blank. -/
theorem Text.solid_of_parted {s u : Text} (h : Parted s u) (hflush : Flush (s ++ (u ++ ['\n'])))
    (hreturns : '\r' ∉ u) (hne : s ≠ []) (hstart : s.head? ≠ some '\n') : Solid s := by
  rcases flush_append.mp hflush with ⟨hs, -, hjoin⟩
  refine ⟨hne, hstart, flush_append.mpr ⟨hs, List.isChain_singleton _, ?_⟩⟩
  intro _ c hc hpads
  have hline := h.blank c hc hpads
  cases u with
  | nil => exact hjoin rfl c hc hpads
  | cons d u =>
      have hd : d = '\n' ∨ d = '\r' := by
        have hstays := hline d rfl
        rw [Piece.staysInLine, Bool.and_eq_false_iff, bne_eq_false_iff_eq, bne_eq_false_iff_eq] at hstays
        exact hstays.symm
      rcases hd with rfl | rfl
      · exact hjoin rfl c hc hpads
      · exact hreturns (List.mem_cons_self ..)

namespace Piece

theorem head?_of_isNewline {p : Piece} {u : Text} (hp : p.isNewline = true) (h : p.opening <+: u)
    (hreturns : '\r' ∉ u) : u.head? = some '\n' := by
  rcases h with ⟨v, rfl⟩
  match p, hp with
  | .run .newlines _, _ => rfl
  | .run .carriageReturnLineFeeds _, _ => exact absurd (List.mem_cons_self ..) hreturns

theorem pads_of_isBlank {p : Piece} (h : p.Tidy) (hp : p.isBlank = true) :
    ∃ c ∈ p.code.getLast?, Pads c := by
  cases p with
  | comment form text => cases hp
  | run kind n =>
      have hunit : ∀ c ∈ kind.unit, Pads c := by
        cases kind with
        | spaces => simp [Run.unit, Pads]
        | tabs => simp [Run.unit, Pads]
        | newlines => cases hp
        | carriageReturnLineFeeds => cases hp
      have hne : code (.run kind n) ≠ [] := by
        rcases @unit_starts kind n h with ⟨v, hv⟩
        rw [← hv]
        cases kind <;> exact List.cons_ne_nil _ _
      have hlast := List.getLast?_eq_some_getLast hne
      exact ⟨_, hlast, hunit _ (mem_unit_of_mem_code (List.getLast_mem hne))⟩

theorem tidy_of_next? {t : Text} {p : Piece} {n : Nat} (h : next? t = some (p, n))
    (hflush : Flush (t ++ ['\n'])) (hreturns : '\r' ∉ t) : p.Tidy := by
  have hstops := (stopsAt_of_next? h).2
  have hcode := code_of_next? h
  cases p with
  | run kind count => exact hstops.1
  | comment form text =>
      have hopening : ∃ r, text = '/' :: r := by
        cases form with
        | line =>
            rcases hstops with ⟨r, rfl, _⟩
            exact ⟨_, rfl⟩
        | block =>
            rcases hstops with ⟨r, rfl, _⟩
            exact ⟨_, rfl⟩
      rcases hopening with ⟨r, rfl⟩
      apply solid_of_parted (parted_of_stopsAt hstops) _ _ (List.cons_ne_nil _ _)
      · exact fun h => by cases h
      · show Flush (code (.comment form ('/' :: r)) ++ _)
        rw [hcode, ← List.append_assoc, List.take_append_drop]
        exact hflush
      · exact fun hmem => hreturns (List.mem_of_mem_drop hmem)

end Piece

namespace Trivia

def Firm (t : Trivia) : Prop := ∀ p ∈ t.getLast?, p.isBlank = false

theorem firm_or_head? {t : Trivia} (h : t.Tidy) {u : Text} (hflush : Flush (t.code ++ u)) :
    t.Firm ∨ u.head? ≠ some '\n' := by
  by_cases hfirm : t.Firm
  · exact .inl hfirm
  · right
    intro hbreak
    apply hfirm
    intro p hp
    by_contra hblank
    rw [Bool.not_eq_false] at hblank
    rcases List.getLast?_eq_some_iff.mp hp with ⟨front, rfl⟩
    rcases Piece.pads_of_isBlank (h.pieces p (by simp)) hblank with ⟨c, hc, hpads⟩
    apply (flush_append.mp hflush).2.2 hbreak c _ hpads
    rw [code_append, code_cons, code_nil, List.append_nil, List.getLast?_append, hc]
    rfl

/-- In what is read off a text whose lines do not end in blanks, a line break has only a comment in front
of it: a run in front of it would be a blank, or it would be continued. -/
theorem tidy_scan (inLine : Bool) (t : Text) (hflush : Flush (t ++ ['\n'])) (hreturns : '\r' ∉ t) :
    (scan inLine t).1.Tidy := by
  induction t using scan_induction inLine with
  | absent t h =>
      rw [scan_of_next?_eq_none h]
      exact tidy_nil
  | stopped t p n h hline =>
      rw [scan_of_next?_eq_some h, if_pos hline]
      exact tidy_nil
  | piece t p n h hline ih =>
      have hp := Piece.tidy_of_next? h hflush hreturns
      have hcode := Piece.code_of_next? h
      have hstops := (Piece.stopsAt_of_next? h).2
      have hrest : '\r' ∉ t.drop n := fun hmem => hreturns (List.mem_of_mem_drop hmem)
      rw [← List.take_append_drop n t, ← hcode, List.append_assoc] at hflush
      rcases flush_append.mp hflush with ⟨-, hbehind, hjoin⟩
      rw [scan_of_next?_eq_some h, if_neg hline]
      refine tidy_cons.mpr ⟨hp, ?_, ih hbehind hrest⟩
      intro q hq hbreak
      rcases next?_of_head?_scan hq with ⟨m, hm⟩
      have hhead := Piece.head?_of_isNewline hbreak (Piece.opening_of_next? hm) hrest
      cases p with
      | comment form text => rfl
      | run kind count =>
          exfalso
          by_cases hblank : (Piece.run kind count).isBlank = true
          · rcases Piece.pads_of_isBlank hp hblank with ⟨c, hc, hpads⟩
            apply hjoin _ c hc hpads
            rw [List.head?_append, hhead]
            rfl
          · cases kind with
            | spaces => exact hblank rfl
            | tabs => exact hblank rfl
            | newlines =>
                apply hstops.2
                rcases List.head?_eq_some_iff.mp hhead with ⟨v, hv⟩
                rw [hv]
                exact ⟨v, rfl⟩
            | carriageReturnLineFeeds =>
                rcases Piece.opening_of_next? h with ⟨v, rfl⟩
                exact hreturns (List.mem_cons_self ..)

end Trivia

/-- A token whose text and trivia are without blanks at the ends of lines, with no line break behind it. -/
structure Token.Tidy (t : Token) : Prop where
  text : Solid t.text
  leading : t.leading.Tidy
  trailing : t.trailing.Tidy
  inLine : t.trailing.containsNewline = false

namespace Tokens

/-- Between two tokens no blank stands in front of a line break. -/
def Meets (t u : Token) : Prop := t.trailing.Firm ∨ u.leading.Stays

structure Tidy (ts : List Token) : Prop where
  tokens : ∀ t ∈ ts, t.Tidy
  meets : ts.IsChain Meets

theorem tidy_nil : Tidy [] := ⟨fun _ ht => absurd ht List.not_mem_nil, List.isChain_nil⟩

theorem tidy_cons {t : Token} {ts : List Token} :
    Tidy (t :: ts) ↔ t.Tidy ∧ (∀ u ∈ ts.head?, Meets t u) ∧ Tidy ts := by
  constructor
  · rintro ⟨htokens, hmeets⟩
    rw [List.forall_mem_cons] at htokens
    rw [List.isChain_cons] at hmeets
    exact ⟨htokens.1, hmeets.1, htokens.2, hmeets.2⟩
  · rintro ⟨ht, hhead, hts⟩
    exact ⟨List.forall_mem_cons.mpr ⟨ht, hts.tokens⟩, List.isChain_cons.mpr ⟨hhead, hts.meets⟩⟩

theorem tidy_singleton {t : Token} (h : t.Tidy) : Tidy [t] := by
  refine tidy_cons.mpr ⟨h, ?_, tidy_nil⟩
  intro u hu
  cases hu

theorem tidy_append {ts us : List Token} :
    Tidy (ts ++ us) ↔ Tidy ts ∧ Tidy us ∧ ∀ t ∈ ts.getLast?, ∀ u ∈ us.head?, Meets t u := by
  constructor
  · rintro ⟨htokens, hmeets⟩
    rw [List.forall_mem_append] at htokens
    rw [List.isChain_append] at hmeets
    exact ⟨⟨htokens.1, hmeets.1⟩, ⟨htokens.2, hmeets.2.1⟩, hmeets.2.2⟩
  · rintro ⟨hts, hus, hjoin⟩
    exact ⟨List.forall_mem_append.mpr ⟨hts.tokens, hus.tokens⟩,
      List.isChain_append.mpr ⟨hts.meets, hus.meets, hjoin⟩⟩

/-!
# The text of tidy tokens
-/

theorem head?_codeOf_append {t : Token} (h : t.Tidy) (hstays : t.leading.Stays) (ts : List Token)
    (u : Text) : (codeOf (t :: ts) ++ u).head? ≠ some '\n' := by
  rw [codeOf_cons_append]
  exact Trivia.head?_code_append h.leading hstays (h.text.head?_append _)

theorem flush_codeOf_append {ts : List Token} (h : Tidy ts) {u : Text} (hu : Flush u)
    (hlast : (∀ t ∈ ts.getLast?, t.trailing.Firm) ∨ u.head? ≠ some '\n') : Flush (codeOf ts ++ u) := by
  induction ts with
  | nil => exact hu
  | cons t ts ih =>
      rcases tidy_cons.mp h with ⟨ht, hhead, hts⟩
      have hrest : Flush (codeOf ts ++ u) := by
        apply ih hts
        refine hlast.imp_left fun hfirm x hx => hfirm x ?_
        rw [List.getLast?_cons, hx]
        rfl
      have hbehind : t.trailing.Firm ∨ (codeOf ts ++ u).head? ≠ some '\n' := by
        cases ts with
        | nil => exact hlast.imp_left fun hfirm => hfirm t rfl
        | cons x ts =>
            apply (hhead x rfl).imp_right
            exact fun hstays => head?_codeOf_append (tidy_cons.mp hts).1 hstays ts u
      rw [codeOf_cons_append]
      apply Trivia.flush_code_append ht.leading
      · apply ht.text.append
        apply Trivia.flush_code_append ht.trailing hrest
        intro p hp hblank
        apply hbehind.resolve_left
        intro hfirm
        rw [hfirm p hp] at hblank
        cases hblank
      · exact fun _ _ _ => ht.text.head?_append _

/-!
# Reading
-/

theorem stays_of_scan {t : Text} (hreturns : '\r' ∉ t) (hhead : t.head? ≠ some '\n') :
    (Trivia.scan false t).1.Stays := by
  intro p hp
  by_contra hbreak
  rw [Bool.not_eq_false] at hbreak
  rcases Trivia.next?_of_head?_scan hp with ⟨n, hn⟩
  exact hhead (Piece.head?_of_isNewline hbreak (Piece.opening_of_next? hn) hreturns)

theorem stays_of_lexes {previous : Option Token} {t : Text} {body : List Token} {ending : Trivia}
    (h : Lexes previous t body ending) (hreturns : '\r' ∉ t) (hhead : t.head? ≠ some '\n') :
    ∀ u ∈ body.head?, u.leading.Stays := by
  intro u hu
  cases h with
  | ending gap => cases hu
  | token gap found behind next =>
      cases hu
      have hstays := stays_of_scan hreturns hhead
      rw [gap] at hstays
      exact hstays

theorem solid_of_measure {marks : Bool} {c : Char} {r : Text} {kind : TokenKind} {n : Nat}
    (h : Token.measure marks c r = .ok (kind, n)) (hstarts : Piece.next? (c :: r) = none)
    (hflush : Flush (c :: r ++ ['\n'])) (hreturns : '\r' ∉ c :: r) : Solid ((c :: r).take n) := by
  have hparted := Token.parted_of_measure h hstarts
  rcases Nat.exists_eq_succ_of_ne_zero (Nat.ne_of_gt (Token.measure_pos h)) with ⟨m, rfl⟩
  apply solid_of_parted hparted
  · rw [← List.append_assoc, List.take_append_drop]
    exact hflush
  · exact fun hmem => hreturns (List.mem_of_mem_drop hmem)
  · exact List.cons_ne_nil _ _
  · intro hhead
    cases hhead
    exact ((Token.next?_eq_none_iff _ _).mp hstarts).2.2.1 rfl

/-- The tokens of a text whose lines do not end in blanks are tidy, and so is the end of the text.
-/
theorem tidy_of_lexes {previous : Option Token} {t : Text} {body : List Token} {ending : Trivia}
    (h : Lexes previous t body ending) (hflush : Flush (t ++ ['\n'])) (hreturns : '\r' ∉ t) :
    Tidy body ∧ Flush (ending.code ++ ['\n']) ∧
      ((∀ x ∈ body.getLast?, x.trailing.Firm) ∨ (ending.code ++ ['\n']).head? ≠ some '\n') := by
  -- By induction on the reading: that no line ends in blanks is handed down to what is behind each
  -- token.
  induction h with
  | @ending previous t leading gap =>
      have hcode := Trivia.code_scan false t
      rw [gap, List.append_nil] at hcode
      rw [hcode]
      exact ⟨tidy_nil, hflush, .inl fun x hx => by cases hx⟩
  | @token previous t leading trailing ending c r rest kind n body gap found behind next ih =>
      have hstarts := Trivia.next?_scan t
      have hleading := Trivia.tidy_scan false t hflush hreturns
      have hcode := Trivia.code_scan false t
      rw [gap] at hstarts hleading hcode
      rw [← hcode, List.append_assoc] at hflush
      have hflushToken := (flush_append.mp hflush).2.1
      have hreturnsToken : '\r' ∉ c :: r :=
        fun hmem => hreturns (hcode ▸ List.mem_append_right leading.code hmem)
      have htext := solid_of_measure found hstarts hflushToken hreturnsToken
      rw [← List.take_append_drop n (c :: r), List.append_assoc] at hflushToken
      have hflushBehind := (flush_append.mp hflushToken).2.1
      have hreturnsBehind : '\r' ∉ (c :: r).drop n :=
        fun hmem => hreturnsToken (List.mem_of_mem_drop hmem)
      have htrailing := Trivia.tidy_scan true _ hflushBehind hreturnsBehind
      have hinLine := Trivia.containsNewline_scan ((c :: r).drop n)
      have hcodeBehind := Trivia.code_scan true ((c :: r).drop n)
      rw [behind] at htrailing hinLine hcodeBehind
      rw [← hcodeBehind, List.append_assoc] at hflushBehind
      have hreturnsRest : '\r' ∉ rest :=
        fun hmem => hreturnsBehind (hcodeBehind ▸ List.mem_append_right trailing.code hmem)
      rcases ih (flush_append.mp hflushBehind).2.1 hreturnsRest with ⟨hbody, hending, hlast⟩
      have hfirm := Trivia.firm_or_head? htrailing hflushBehind
      refine ⟨tidy_cons.mpr ⟨⟨htext, hleading, htrailing, hinLine⟩, ?_, hbody⟩, hending, ?_⟩
      · intro u hu
        apply hfirm.imp_right
        intro hhead
        apply stays_of_lexes next hreturnsRest _ u hu
        intro hbreak
        apply hhead
        rw [List.head?_append, hbreak]
        rfl
      · cases body with
        | cons u us => exact hlast
        | nil =>
            cases next with
            | ending gap =>
                have hrest := Trivia.code_scan false rest
                rw [gap, List.append_nil] at hrest
                rw [hrest]
                refine hfirm.imp_left fun hfirm x hx => ?_
                cases hx
                exact hfirm

end Tokens
end ForceTry

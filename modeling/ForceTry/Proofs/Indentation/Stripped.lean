import ForceTry.Proofs.Indentation.Aligned
import ForceTry.Proofs.Indentation.Back
import ForceTry.Proofs.Trivia.Reading
import ForceTry.Proofs.Trivia.Tidy

/-!
# Indentation taken off a text

Indentation is compared and taken off piece by piece.  On canonical trivia this works like taking a text
off the front of another one: all of the base goes exactly where the text starts with the text of the
base, since the pieces of both are cut at the same places.  Where it does not, a front part of the base
may still go.
-/

namespace ForceTry

namespace Trivia

/-!
# What goes
-/

/-- A run at the start of one text stands at the start of another one as a run of the same length.  Only
the last run may be the front part of a longer one. -/
theorem run_of_starts {p : Piece} {t base : Trivia} {kind : Run} {m : Int} (ht : Canonical (p :: t))
    (hbase : Canonical (.run kind m :: base)) (h : code (.run kind m :: base) <+: code (p :: t)) :
    p = .run kind m ∨ ∃ n, p = .run kind n ∧ m < n ∧ base = [] := by
  have hunit : kind.unit <+: code (p :: t) := hbase.opening_starts.trans h
  rcases Piece.eq_run_of_opening ht.opening_starts hunit with ⟨n, rfl⟩
  have hm : 0 < m := hbase.1.1
  have hn : 0 < n := ht.1.1
  rcases Int.lt_trichotomy n m with hlt | rfl | hlt
  · rw [code_cons, code_cons, Piece.code_run_split kind hn hlt, List.append_assoc,
      List.prefix_append_right_inj] at h
    have hrest : kind.unit <+: code t :=
      (Piece.unit_starts (Int.sub_pos.mpr hlt)).trans ((List.prefix_append _ _).trans h)
    exact absurd hrest ht.stopsAt.2
  · exact .inl rfl
  · refine .inr ⟨n, rfl, hlt, ?_⟩
    cases base with
    | nil => rfl
    | cons q base =>
        rw [code_cons, code_cons (.run kind n), Piece.code_run_split kind hm hlt, List.append_assoc,
          List.prefix_append_right_inj] at h
        have hrest : kind.unit <+: Piece.code (.run kind (n - m)) ++ code t :=
          (Piece.unit_starts (Int.sub_pos.mpr hlt)).trans (List.prefix_append _ _)
        rcases Piece.eq_run_of_opening (hbase.2.opening_starts.trans h) hrest with ⟨k, rfl⟩
        exact absurd rfl (hbase.1.2 k)

theorem code_strip_of_starts {t base : Trivia} (ht : t.Canonical) (hbase : base.Canonical)
    (hblank : ∀ p ∈ base, p.isBlank = true) (h : base.code <+: t.code) :
    t.code = base.code ++ (t.strip base).code := by
  induction base generalizing t with
  | nil => rw [strip_nil, code_nil, List.nil_append]
  | cons e base ih =>
      have he := hblank e (List.mem_cons_self ..)
      have hrest := fun p hp => hblank p (List.mem_cons_of_mem e hp)
      cases e with
      | comment form text => cases he
      | run kind m =>
          have hkind : kind.breaksLine = false := by simpa [Piece.isBlank] using he
          cases t with
          | nil =>
              have hunit : kind.unit <+: [] := hbase.opening_starts.trans h
              cases kind <;> cases List.prefix_nil.mp hunit
          | cons p t =>
              rcases run_of_starts ht hbase h with rfl | ⟨n, rfl, hlt, rfl⟩
              · rw [code_cons, code_cons, List.prefix_append_right_inj] at h
                rw [strip_cons_self, code_cons, code_cons, List.append_assoc,
                  ← ih ht.2 hbase.2 hrest h]
              · rw [strip_longer hkind hlt, code_cons, code_cons, code_cons, code_nil,
                  List.append_nil, Piece.code_run_split kind hbase.1.1 hlt, List.append_assoc]

theorem ledBy_iff_starts {t base : Trivia} (ht : t.Canonical) (hbase : base.Canonical)
    (hblank : ∀ p ∈ base, p.isBlank = true) :
    LedBy t base ↔ ∀ front p rest, t = front ++ p :: rest → p.isNewline = true →
      base.code <+: code rest := by
  constructor
  · intro h front p rest hsplit hp
    exact ⟨_, (h front p rest hsplit hp).symm⟩
  · intro h front p rest hsplit hp
    have hrest : Canonical (p :: rest) := canonical_of_append (hsplit ▸ ht)
    exact code_strip_of_starts hrest.2 hbase hblank (h front p rest hsplit hp)

theorem exists_taken {base : Trivia} (hbase : base.Canonical) (t : Trivia) :
    ∃ taken, t.code = taken ++ (t.strip base).code ∧ taken <+: base.code := by
  fun_induction strip t base with
  | case1 t p base ih =>
      rcases ih hbase.2 with ⟨taken, hcode, htaken⟩
      refine ⟨p.code ++ taken, ?_, ?_⟩
      · rw [code_cons, hcode, List.append_assoc]
      · rw [code_cons, List.prefix_append_right_inj]
        exact htaken
  | case2 t kind n kind' m hcondition hne =>
      simp only [Bool.and_eq_true, decide_eq_true_eq] at hcondition
      rcases hcondition with ⟨⟨-, rfl⟩, hlt⟩
      refine ⟨Piece.code (.run kind m), ?_, List.prefix_append _ _⟩
      rw [code_cons, code_cons, Piece.code_run_split kind hbase.1.1 hlt, List.append_assoc]
  | case3 => exact ⟨[], rfl, List.nil_prefix⟩
  | case4 => exact ⟨[], rfl, List.nil_prefix⟩
  | case5 => exact ⟨[], rfl, List.nil_prefix⟩

/-!
# What stays
-/

theorem filter_strip {f : Piece → Bool} (hf : ∀ p, p.isBlank = true → f p = false) {base : Trivia}
    (hblank : ∀ p ∈ base, p.isBlank = true) (t : Trivia) : (t.strip base).filter f = t.filter f := by
  fun_induction strip t base with
  | case1 t p base ih =>
      have hp := hf p (hblank p (List.mem_cons_self ..))
      rw [ih fun q hq => hblank q (List.mem_cons_of_mem p hq),
        List.filter_cons_of_neg (Bool.eq_false_iff.mp hp)]
  | case2 t kind n kind' m hcondition hne =>
      simp only [Bool.and_eq_true] at hcondition
      have hrun : ∀ k : Int, ¬ f (.run kind k) = true :=
        fun k => Bool.eq_false_iff.mp (hf _ hcondition.1.1)
      rw [List.filter_cons_of_neg (hrun _), List.filter_cons_of_neg (hrun _)]
  | case3 => rfl
  | case4 => rfl
  | case5 => rfl

theorem comment_or_newline_of_isBlank (p : Piece) (h : p.isBlank = true) :
    (p.isComment || p.isNewline) = false := by
  rw [Piece.isComment_of_isBlank h, not_isNewline_of_isBlank h]
  rfl

/-- Taking blanks off canonical trivia takes a text off its front that also stands at the front of the
text of the blanks.  It is all of that text exactly if the trivia starts with it.  Comments and line
breaks stay as they are. -/
theorem strip_takes_start {t base : Trivia} (ht : t.Canonical) (hbase : base.Canonical)
    (hblank : ∀ p ∈ base, p.isBlank = true) :
    (∃ taken, t.code = taken ++ (t.strip base).code ∧ taken <+: base.code ∧
      (taken = base.code ↔ base.code <+: t.code)) ∧
    (t.strip base).filter (fun p => p.isComment || p.isNewline) =
      t.filter fun p => p.isComment || p.isNewline := by
  refine ⟨?_, filter_strip comment_or_newline_of_isBlank hblank t⟩
  rcases exists_taken hbase t with ⟨taken, hcode, htaken⟩
  refine ⟨taken, hcode, htaken, ?_, ?_⟩
  · rintro rfl
    exact ⟨_, hcode.symm⟩
  · intro hstarts
    have hwhole := code_strip_of_starts ht hbase hblank hstarts
    exact List.append_cancel_right (hcode.symm.trans hwhole)

/-- A base of two runs, the last of which is the front part of a longer run before a comment. -/
theorem strip_takes_start_mixed :
    let t : Trivia := [.tabs 1, .spaces 4, .comment .line (Text.ofString "// c"), .newlines 1]
    let base : Trivia := [.tabs 1, .spaces 2]
    t.Canonical ∧ base.Canonical ∧ (∀ p ∈ base, p.isBlank = true) ∧
      (∃ taken, t.code = taken ++ (t.strip base).code ∧ taken <+: base.code ∧
        (taken = base.code ↔ base.code <+: t.code)) ∧
      (t.strip base).filter (fun p => p.isComment || p.isNewline) =
        t.filter fun p => p.isComment || p.isNewline := by
  intro t base
  have ht : t.Canonical := ((ofText?_eq_ok_iff t.code t).mp (by decide +kernel)).1
  have hbase : base.Canonical := ((ofText?_eq_ok_iff base.code base).mp (by decide +kernel)).1
  have hblank : ∀ p ∈ base, p.isBlank = true := by decide
  exact ⟨ht, hbase, hblank, strip_takes_start ht hbase hblank⟩

/-- Only the last run of the base may match a part of a run, and runs that could be one are not joined
before they are compared. -/
example : strip [.spaces 4, .tabs 1] [.spaces 2, .tabs 1] = [.spaces 4, .tabs 1] ∧
    strip [.spaces 2, .spaces 2] [.spaces 4] = [.spaces 2, .spaces 2] := by
  decide

end Trivia
end ForceTry

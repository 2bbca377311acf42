import ForceTry.Proofs.Tree.Parsed
import ForceTry.Proofs.Tree.TokenEdit

/-!
# Moving lines and moving them back

Moving lines changes the margins of the lines only, which are the blanks directly behind a line break.
Where every line starts with the old indentation, moving the lines back gives the old text.
-/

namespace ForceTry

namespace Trivia

/-- Trivia without its margins.  With `inMargin`, it starts in one. -/
def dropMargins (inMargin : Bool) : Trivia → Trivia
  | [] => []
  | p :: t => if inMargin && p.isBlank then dropMargins true t else p :: dropMargins p.isNewline t

/-- Every line that starts in `t` starts with `base`: what `strip` takes off behind a line break is all of
`base`. -/
def LedBy (t base : Trivia) : Prop :=
  ∀ front p rest, t = front ++ p :: rest → p.isNewline = true →
    code rest = code base ++ code (strip rest base)

theorem not_isNewline_of_isBlank {p : Piece} (h : p.isBlank = true) : p.isNewline = false := by
  cases p with
  | run kind n => simpa [Piece.isBlank, Piece.isNewline] using h
  | comment form text => rfl

theorem strip_append (s t : Trivia) : strip (s ++ t) s = t := by
  induction s with
  | nil => exact strip_nil t
  | cons p s ih =>
      rw [List.cons_append, strip_cons_self]
      exact ih

/-!
# Margins
-/

theorem dropMargins_append {s : Trivia} (h : ∀ p ∈ s, p.isBlank = true) (t : Trivia) :
    dropMargins true (s ++ t) = dropMargins true t := by
  induction s with
  | nil => rfl
  | cons p s ih =>
      have hp := h p (List.mem_cons_self ..)
      rw [List.cons_append, dropMargins, Bool.true_and, if_pos hp]
      exact ih fun q hq => h q (List.mem_cons_of_mem p hq)

theorem dropMargins_strip {base : Trivia} (h : ∀ p ∈ base, p.isBlank = true) (t : Trivia) :
    dropMargins true (t.strip base) = dropMargins true t := by
  fun_induction strip t base with
  | case1 t p base ih =>
      have hp := h p (List.mem_cons_self ..)
      rw [dropMargins, Bool.true_and, if_pos hp]
      exact ih fun q hq => h q (List.mem_cons_of_mem p hq)
  | case2 t kind n kind' m hcondition hne =>
      simp only [Bool.and_eq_true, Bool.not_eq_true'] at hcondition
      have hblank : ∀ k : Int, (Piece.run kind k).isBlank = true := by
        intro k
        rw [Piece.isBlank, hcondition.1.1]
        rfl
      rw [dropMargins, dropMargins, Bool.true_and, Bool.true_and, if_pos (hblank _),
        if_pos (hblank _)]
  | case3 => rfl
  | case4 => rfl
  | case5 => rfl

theorem dropMargins_shift {base indentation : Trivia} (hbase : ∀ p ∈ base, p.isBlank = true)
    (hindentation : ∀ p ∈ indentation, p.isBlank = true) (t : Trivia) (inMargin : Bool) :
    dropMargins inMargin (t.shift base indentation) = dropMargins inMargin t := by
  fun_induction shift t base indentation generalizing inMargin with
  | case1 => rfl
  | case2 p t hnewline ih =>
      have hblank : p.isBlank = false := by
        cases hp : p.isBlank with
        | false => rfl
        | true =>
            rw [not_isNewline_of_isBlank hp] at hnewline
            cases hnewline
      rw [List.cons_append, dropMargins, dropMargins, hblank, Bool.and_false, hnewline,
        dropMargins_append hindentation, ih, dropMargins_strip hbase]
  | case3 p t hnewline ih => rw [dropMargins, dropMargins, ih, ih]

/-!
# Lines that start with an indentation
-/

theorem ledBy_nil (base : Trivia) : LedBy [] base := by
  intro front p rest h
  cases front with
  | nil => cases h
  | cons q front => cases h

theorem ledBy_cons {base : Trivia} {p : Piece} {t : Trivia} :
    LedBy (p :: t) base ↔
      (p.isNewline = true → code t = code base ++ code (strip t base)) ∧ LedBy t base := by
  constructor
  · intro h
    refine ⟨h [] p t rfl, ?_⟩
    intro front q rest ht
    exact h (p :: front) q rest (by rw [ht, List.cons_append])
  · rintro ⟨hp, ht⟩ front q rest h hq
    cases front with
    | nil =>
        rw [List.nil_append, List.cons.injEq] at h
        rcases h with ⟨rfl, rfl⟩
        exact hp hq
    | cons r front =>
        rw [List.cons_append, List.cons.injEq] at h
        exact ht front q rest h.2 hq

instance decidableLedBy (base : Trivia) : (t : Trivia) → Decidable (LedBy t base)
  | [] => isTrue (ledBy_nil base)
  | _ :: t =>
      have : Decidable (LedBy t base) := decidableLedBy base t
      decidable_of_iff _ ledBy_cons.symm

theorem ledBy_cons_of_blank {base : Trivia} {p : Piece} (hp : p.isBlank = true) {t : Trivia} :
    LedBy (p :: t) base ↔ LedBy t base := by
  rw [ledBy_cons, not_isNewline_of_isBlank hp]
  exact and_iff_right fun hnewline => absurd hnewline Bool.false_ne_true

theorem ledBy_append {base s : Trivia} (hs : ∀ p ∈ s, p.isBlank = true) {t : Trivia} :
    LedBy (s ++ t) base ↔ LedBy t base := by
  induction s with
  | nil => exact Iff.rfl
  | cons p s ih =>
      rw [List.cons_append, ledBy_cons_of_blank (hs p (List.mem_cons_self ..))]
      exact ih fun q hq => hs q (List.mem_cons_of_mem p hq)

theorem LedBy.strip {base t : Trivia} (h : LedBy t base) {s : Trivia}
    (hs : ∀ p ∈ s, p.isBlank = true) : LedBy (t.strip s) base := by
  fun_induction Trivia.strip t s with
  | case1 t p s ih => exact ih (ledBy_cons.mp h).2 fun q hq => hs q (List.mem_cons_of_mem p hq)
  | case2 t kind n kind' m hcondition hne =>
      simp only [Bool.and_eq_true, Bool.not_eq_true'] at hcondition
      refine (ledBy_cons_of_blank ?_).mpr (ledBy_cons.mp h).2
      rw [Piece.isBlank, hcondition.1.1]
      rfl
  | case3 => exact h
  | case4 => exact h
  | case5 => exact h

theorem ledBy_shift (base : Trivia) {indentation : Trivia}
    (hindentation : ∀ p ∈ indentation, p.isBlank = true) (t : Trivia) :
    LedBy (t.shift base indentation) indentation := by
  fun_induction shift t base indentation with
  | case1 => exact ledBy_nil _
  | case2 p t hnewline ih =>
      rw [List.cons_append, ledBy_cons, ledBy_append hindentation]
      refine ⟨fun _ => ?_, ih⟩
      rw [strip_append, code_append]
  | case3 p t hnewline ih =>
      rw [ledBy_cons]
      exact ⟨fun h => absurd h hnewline, ih⟩

theorem code_shift_shift {base t : Trivia} (hbase : ∀ p ∈ base, p.isBlank = true)
    (h : LedBy t base) (indentation : Trivia) :
    ((t.shift base indentation).shift indentation base).code = t.code := by
  fun_induction shift t base indentation with
  | case1 => rw [shift]
  | case2 p t hnewline ih =>
      rw [ledBy_cons] at h
      have hback := ih (h.2.strip hbase)
      rw [List.cons_append, shift, if_pos hnewline, strip_append, List.cons_append, code_cons,
        code_append, hback, code_cons, h.1 hnewline]
  | case3 p t hnewline ih =>
      rw [ledBy_cons] at h
      rw [shift, if_neg hnewline, code_cons, code_cons, ih h.2]

end Trivia

/-!
# Lines of a tree
-/

/-- A token without the margins in its trivia. -/
def Token.dropMargins (t : Token) : Token :=
  { t with leading := t.leading.dropMargins false, trailing := t.trailing.dropMargins false }

theorem Token.dropMargins_shift {base indentation : Trivia} (hbase : ∀ p ∈ base, p.isBlank = true)
    (hindentation : ∀ p ∈ indentation, p.isBlank = true) (t : Token) :
    (t.shift base indentation).dropMargins = t.dropMargins := by
  rw [Token.dropMargins, Token.dropMargins, Token.shift, Trivia.dropMargins_shift hbase hindentation,
    Trivia.dropMargins_shift hbase hindentation]

namespace Tree

/-- Every line that starts in the trivia of `t` starts with `base`. -/
def LedBy (base : Trivia) (t : Tree) : Prop :=
  ∀ token ∈ t.tokens, token.leading.LedBy base ∧ token.trailing.LedBy base

instance (base : Trivia) (t : Tree) : Decidable (t.LedBy base) :=
  inferInstanceAs (Decidable (∀ token ∈ t.tokens, _))

theorem outline_mapLeaves (f g : Token → Token) (t : Tree) :
    (t.mapLeaves g).outline f = t.outline (f ∘ g) := by
  induction t using Tree.induction with
  | leaf l => rfl
  | node n k cs ih =>
      have hcs : outlineAll f (mapLeavesAll g cs) = outlineAll (f ∘ g) cs := by
        induction cs with
        | nil => rfl
        | cons c cs ihcs =>
            rw [mapLeavesAll, outlineAll, outlineAll, ih c (List.mem_cons_self ..),
              ihcs fun d hd => ih d (List.mem_cons_of_mem c hd)]
      rw [mapLeaves, outline_node, outline_node, hcs]

theorem Edit.lt {n : Nat} {t u : Tree} {result : Tree × Nat} (h : Edit n t u result)
    (hlt : ∀ x ∈ u.labels, x < n) : ∀ x ∈ result.1.labels, x < result.2 := by
  intro x hx
  have hcount := h.count x
  have hpos := List.count_pos_iff.mpr hx
  by_cases hu : x ∈ u.labels
  · exact Nat.lt_of_lt_of_le (hlt x hu) h.le
  · rw [List.count_eq_zero_of_not_mem hu] at hcount
    unfold handedOut at hcount
    split at hcount
    · next hwithin => exact hwithin.2
    · omega

theorem reindent_result {t : Tree} {n : Nat} (hlt : ∀ x ∈ t.labels, x < n)
    (base indentation : Trivia) :
    ∃ moved n', (t.reindent base indentation false).run n = (moved, n') ∧
      moved.tokens = t.tokens.map (Token.shift base indentation) ∧
      (∀ f : Token → Token, moved.outline f = t.outline (f ∘ Token.shift base indentation)) ∧
      ∀ x ∈ moved.labels, x < n' := by
  have hedit := mapTokens_result (Token.shift base indentation) t n hlt
  have hpure := skeleton_mapLeaves (Token.shift base indentation) t
  rcases hresult : (t.mapTokens (Token.shift base indentation)).run n with ⟨moved, n'⟩
  rw [hresult] at hedit
  refine ⟨moved, n', ?_, ?_, ?_, ?_⟩
  · rw [reindent, StateT.run_bind, hresult]
    rfl
  · rw [((plain_eq_iff _ _).mp hedit.plain).2, hpure.2.1]
  · intro f
    rw [outline_eq_of_plain f hedit.plain, outline_mapLeaves]
  · exact hedit.lt (by rw [hpure.2.2]; exact hlt)

/-- Moving the lines of a tree keeps its shape and its tokens, and of the trivia everything but the margins.
Its lines then start with the new indentation.  If they started with the old one, they can be moved back. -/
theorem reindent_back {t : Tree} {n : Nat} (hlt : ∀ x ∈ t.labels, x < n) {base indentation : Trivia}
    (hbase : ∀ p ∈ base, p.isBlank = true) (hindentation : ∀ p ∈ indentation, p.isBlank = true) :
    ∃ moved n', (t.reindent base indentation false).run n = (moved, n') ∧
      moved.outline Token.dropMargins = t.outline Token.dropMargins ∧
      moved.LedBy indentation ∧
      (t.LedBy base → ((moved.reindent indentation base false).run n').1.code = t.code) := by
  rcases reindent_result hlt base indentation with ⟨moved, n', hrun, htokens, houtline, hlt'⟩
  refine ⟨moved, n', hrun, ?_, ?_, ?_⟩
  · rw [houtline]
    congr 1
    funext token
    exact Token.dropMargins_shift hbase hindentation token
  · intro token htoken
    rw [htokens] at htoken
    rcases List.mem_map.mp htoken with ⟨old, -, rfl⟩
    exact ⟨Trivia.ledBy_shift base hindentation old.leading,
      Trivia.ledBy_shift base hindentation old.trailing⟩
  · intro hled
    rcases reindent_result hlt' indentation base with ⟨back, n'', hback, htokens', -⟩
    rw [hback, code, htokens', htokens, List.map_map, List.flatMap_map, code, List.flatMap_def,
      List.flatMap_def]
    congr 1
    apply List.map_congr_left
    intro token htoken
    have hleading := Trivia.code_shift_shift hbase (hled token htoken).1 indentation
    have htrailing := Trivia.code_shift_shift hbase (hled token htoken).2 indentation
    show ((token.leading.shift base indentation).shift indentation base).code ++ token.text ++
      ((token.trailing.shift base indentation).shift indentation base).code = token.code
    rw [hleading, htrailing, Token.code]

def callSource : Text := Text.ofString "f(\n  a, // b\n    /* c */ d)"

theorem reindent_back_call :
    ∃ t n, ofTextFrom 0 callSource = .ok (t, n) ∧
      ∃ moved n', (t.reindent [.spaces 2] [.tabs 1] false).run n = (moved, n') ∧
        moved.outline Token.dropMargins = t.outline Token.dropMargins ∧
        moved.LedBy [.tabs 1] ∧
        ((moved.reindent [.tabs 1] [.spaces 2] false).run n').1.code = callSource := by
  have hled : ((ofTextFrom 0 callSource).toOption.any fun result =>
      decide (result.1.LedBy [.spaces 2])) = true := by
    decide +kernel
  cases h : ofTextFrom 0 callSource with
  | error e =>
      rw [h] at hled
      cases hled
  | ok result =>
      rcases result with ⟨t, n⟩
      rw [h] at hled
      rcases ofTextFrom_forms h with ⟨_, _, _, _, hneat⟩
      rcases @reindent_back t n hneat.lt [.spaces 2] [.tabs 1] (by decide) (by decide) with
        ⟨moved, n', hrun, houtline, hmoved, hback⟩
      refine ⟨t, n, rfl, moved, n', hrun, houtline, hmoved, ?_⟩
      rw [hback (of_decide_eq_true hled), code_of_ofTextFrom h]

end Tree
end ForceTry

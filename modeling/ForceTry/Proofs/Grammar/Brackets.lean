import ForceTry.Tree.Basic
import Mathlib.Data.List.Induction

/-!
# Brackets

Brackets of three kinds are well nested when every closing one matches the opening one of its kind that is
the last left open.  The parser sees less of round and square brackets: it counts how many are open, of both
kinds together.  This module says what such a count is worth without braces: the tokens are well nested
exactly when the brackets that the count pairs have the same kinds.
-/

namespace ForceTry

inductive Bracket where
  | round
  | square
  | curly
  deriving DecidableEq, Repr

namespace TokenKind

def opening? : TokenKind → Option Bracket
  | leftParen => some .round
  | leftSquare => some .square
  | leftBrace => some .curly
  | _ => none

def closing? : TokenKind → Option Bracket
  | rightParen => some .round
  | rightSquare => some .square
  | rightBrace => some .curly
  | _ => none

end TokenKind

namespace Bracket

/-- The open brackets behind a token, the innermost first.  A token that closes must match the
innermost one. -/
def openBehind (stack : List Bracket) (t : Token) : Option (List Bracket) :=
  match t.kind.opening?, t.kind.closing?, stack with
  | some b, _, _ => some (b :: stack)
  | none, none, _ => some stack
  | none, some b, c :: rest => if b = c then some rest else none
  | none, some _, [] => none

def openBehindAll (stack : List Bracket) : List Token → Option (List Bracket)
  | [] => some stack
  | t :: ts => (openBehind stack t).bind fun s => openBehindAll s ts

/-- Every closing bracket matches an opening one of its own kind, and none stays open. -/
def WellNested (ts : List Token) : Prop := openBehindAll [] ts = some []

instance (ts : List Token) : Decidable (WellNested ts) := inferInstanceAs (Decidable (_ = _))

theorem openBehindAll_append (stack : List Bracket) (ts us : List Token) :
    openBehindAll stack (ts ++ us) =
      (openBehindAll stack ts).bind fun s => openBehindAll s us := by
  induction ts generalizing stack with
  | nil => rfl
  | cons t ts ih =>
      rw [List.cons_append, openBehindAll, openBehindAll]
      cases openBehind stack t with
      | none => rfl
      | some s => exact ih s

section

variable {t : Token} {b : Bracket}

theorem openBehind_opening (h : t.kind.opening? = some b) (stack : List Bracket) :
    openBehind stack t = some (b :: stack) := by
  simp only [openBehind, h]

theorem openBehind_neither (hopen : t.kind.opening? = none) (hclose : t.kind.closing? = none)
    (stack : List Bracket) : openBehind stack t = some stack := by
  simp only [openBehind, hopen, hclose]

theorem openBehind_closing (hopen : t.kind.opening? = none) (hclose : t.kind.closing? = some b)
    (stack : List Bracket) : openBehind (b :: stack) t = some stack := by
  simp only [openBehind, hopen, hclose, if_pos]

theorem openBehind_cases {stack stack' : List Bracket} (h : openBehind stack t = some stack') :
    (∃ b, t.kind.opening? = some b ∧ stack' = b :: stack) ∨
      (t.kind.opening? = none ∧ t.kind.closing? = none ∧ stack' = stack) ∨
      ∃ b, t.kind.opening? = none ∧ t.kind.closing? = some b ∧ stack = b :: stack' := by
  unfold openBehind at h
  split at h
  · next b hopen =>
      cases h
      exact .inl ⟨b, hopen, rfl⟩
  · next hopen hclose =>
      cases h
      exact .inr (.inl ⟨hopen, hclose, rfl⟩)
  · next b c rest hopen hclose =>
      split at h
      · next hbc =>
          cases h
          rw [← hbc]
          exact .inr (.inr ⟨b, hopen, hclose, rfl⟩)
      · cases h
  · cases h

theorem stack_of_closing {stack stack' : List Bracket} (hopen : t.kind.opening? = none)
    (hclose : t.kind.closing? = some b) (h : openBehind stack t = some stack') :
    stack = b :: stack' := by
  rcases openBehind_cases h with ⟨_, hbad, _⟩ | ⟨_, hbad, _⟩ | ⟨b', _, hclose', heq⟩
  · rw [hopen] at hbad
    cases hbad
  · rw [hclose] at hbad
    cases hbad
  · rw [hclose, Option.some.injEq] at hclose'
    rw [hclose', heq]

end

theorem openBehind_below {stack stack' : List Bracket} {t : Token}
    (h : openBehind stack t = some stack') (below : List Bracket) :
    openBehind (stack ++ below) t = some (stack' ++ below) := by
  rcases openBehind_cases h with ⟨b, hopen, rfl⟩ | ⟨hopen, hclose, rfl⟩ | ⟨b, hopen, hclose, rfl⟩
  · exact openBehind_opening hopen _
  · exact openBehind_neither hopen hclose _
  · exact openBehind_closing hopen hclose _

theorem openBehindAll_below {stack stack' : List Bracket} {ts : List Token}
    (h : openBehindAll stack ts = some stack') (below : List Bracket) :
    openBehindAll (stack ++ below) ts = some (stack' ++ below) := by
  induction ts generalizing stack with
  | nil =>
      cases h
      rfl
  | cons t ts ih =>
      rw [openBehindAll] at h
      rcases Option.bind_eq_some_iff.mp h with ⟨s, hs, hrest⟩
      rw [openBehindAll, openBehind_below hs below]
      exact ih hrest

theorem WellNested.neutral {ts : List Token} (h : WellNested ts) (stack : List Bracket) :
    openBehindAll stack ts = some stack := openBehindAll_below h stack

/-!
# Tokens that are no braces
-/

def NoBrace (t : Token) : Prop := t.kind ≠ .leftBrace ∧ t.kind ≠ .rightBrace

theorem opening_curly {k : TokenKind} (h : k.opening? = some .curly) : k = .leftBrace := by
  cases k <;> first | rfl | cases h

theorem closing_curly {k : TokenKind} (h : k.closing? = some .curly) : k = .rightBrace := by
  cases k <;> first | rfl | cases h

theorem openBehind_above {stack stack' below : List Bracket} {t : Token} (ht : NoBrace t)
    (hstack : .curly ∉ stack) (h : openBehind (stack ++ .curly :: below) t = some stack') :
    ∃ above, openBehind stack t = some above ∧ stack' = above ++ .curly :: below ∧
      .curly ∉ above := by
  rcases openBehind_cases h with ⟨b, hopen, rfl⟩ | ⟨hopen, hclose, rfl⟩ | ⟨b, hopen, hclose, heq⟩
  · refine ⟨b :: stack, openBehind_opening hopen stack, rfl, ?_⟩
    rw [List.mem_cons, not_or]
    refine ⟨?_, hstack⟩
    rintro rfl
    exact ht.1 (opening_curly hopen)
  · exact ⟨stack, openBehind_neither hopen hclose stack, rfl, hstack⟩
  · cases stack with
    | nil =>
        cases heq
        exact absurd (closing_curly hclose) ht.2
    | cons c rest =>
        rw [List.cons_append, List.cons.injEq] at heq
        rw [heq.1] at hstack ⊢
        exact ⟨rest, openBehind_closing hopen hclose rest, heq.2.symm,
          fun hmem => hstack (List.mem_cons_of_mem b hmem)⟩

theorem openBehindAll_above {stack stack' below : List Bracket} {ts : List Token}
    (hbrace : ∀ t ∈ ts, NoBrace t) (hstack : .curly ∉ stack)
    (h : openBehindAll (stack ++ .curly :: below) ts = some stack') :
    ∃ above, openBehindAll stack ts = some above ∧ stack' = above ++ .curly :: below ∧
      .curly ∉ above := by
  induction ts generalizing stack with
  | nil =>
      cases h
      exact ⟨stack, rfl, rfl, hstack⟩
  | cons t ts ih =>
      rw [openBehindAll] at h
      rcases Option.bind_eq_some_iff.mp h with ⟨s, hs, hmore⟩
      rcases openBehind_above (hbrace t (List.mem_cons_self ..)) hstack hs with
        ⟨stack₁, hstack₁, rfl, hcurly⟩
      rcases ih (fun u hu => hbrace u (List.mem_cons_of_mem t hu)) hcurly hmore with
        ⟨above, habove, heq, hnot⟩
      refine ⟨above, ?_, heq, hnot⟩
      rw [openBehindAll, hstack₁]
      exact habove

/-- The tokens between two braces are well nested when they find their brackets with the braces around them,
wherever these stand. -/
theorem wellNested_inside {stack stack' : List Bracket} {left right : Token} {ts : List Token}
    (hleft : left.kind = .leftBrace) (hright : right.kind = .rightBrace)
    (hbrace : ∀ t ∈ ts, NoBrace t)
    (h : openBehindAll stack (left :: (ts ++ [right])) = some stack') :
    WellNested ts ∧ stack' = stack := by
  have hopen : left.kind.opening? = some .curly := by rw [hleft]; rfl
  have hnot : right.kind.opening? = none := by rw [hright]; rfl
  have hclose : right.kind.closing? = some .curly := by rw [hright]; rfl
  rw [openBehindAll, openBehind_opening hopen, Option.bind_some, openBehindAll_append] at h
  rcases Option.bind_eq_some_iff.mp h with ⟨inner, hinner, hlast⟩
  rcases @openBehindAll_above [] _ stack ts hbrace (List.not_mem_nil) hinner with
    ⟨above, habove, rfl, hcurly⟩
  rw [openBehindAll] at hlast
  rcases Option.bind_eq_some_iff.mp hlast with ⟨s, hs, hend⟩
  cases hend
  have heq := stack_of_closing hnot hclose hs
  cases above with
  | cons c rest =>
      rw [List.cons_append, List.cons.injEq] at heq
      rw [heq.1] at hcurly
      exact absurd (List.mem_cons_self ..) hcurly
  | nil =>
      cases heq
      exact ⟨habove, rfl⟩

theorem wellNested_braces_iff {left right : Token} {ts : List Token} (hleft : left.kind = .leftBrace)
    (hright : right.kind = .rightBrace) (hbrace : ∀ t ∈ ts, NoBrace t) :
    WellNested (left :: (ts ++ [right])) ↔ WellNested ts := by
  refine ⟨fun h => (wellNested_inside hleft hright hbrace h).1, fun h => ?_⟩
  have hopen : left.kind.opening? = some .curly := by rw [hleft]; rfl
  have hnot : right.kind.opening? = none := by rw [hright]; rfl
  have hclose : right.kind.closing? = some .curly := by rw [hright]; rfl
  rw [WellNested, openBehindAll, openBehind_opening hopen, Option.bind_some, openBehindAll_append,
    h.neutral, Option.bind_some, openBehindAll, openBehind_closing hnot hclose]
  rfl

theorem count_openBehind {stack stack' : List Bracket} {t : Token} (ht : t.kind ≠ .leftBrace)
    (h : openBehind stack t = some stack') :
    stack'.count .curly + (if t.kind = .rightBrace then 1 else 0) = stack.count .curly := by
  rcases openBehind_cases h with ⟨b, hopen, rfl⟩ | ⟨hopen, hclose, rfl⟩ | ⟨b, hopen, hclose, rfl⟩
  · have hb : b ≠ .curly := by
      rintro rfl
      exact ht (opening_curly hopen)
    have hkind : t.kind ≠ .rightBrace := by
      intro hkind
      rw [hkind] at hopen
      cases hopen
    rw [if_neg hkind, List.count_cons_of_ne hb]
    rfl
  · have hkind : t.kind ≠ .rightBrace := by
      intro hkind
      rw [hkind] at hclose
      cases hclose
    rw [if_neg hkind]
    rfl
  · rw [List.count_cons]
    by_cases hb : b = .curly
    · subst hb
      rw [if_pos (closing_curly hclose)]
      rfl
    · have hkind : t.kind ≠ .rightBrace := by
        intro hkind
        rw [hkind] at hclose
        exact hb (Option.some.inj hclose).symm
      rw [if_neg hkind, if_neg (by simpa using hb)]

theorem count_openBehindAll {stack stack' : List Bracket} {ts : List Token}
    (hleft : ∀ t ∈ ts, t.kind ≠ .leftBrace) (h : openBehindAll stack ts = some stack') :
    stack'.count .curly + ts.countP (fun t => t.kind = .rightBrace) = stack.count .curly := by
  induction ts generalizing stack with
  | nil =>
      cases h
      rfl
  | cons t ts ih =>
      rw [openBehindAll] at h
      rcases Option.bind_eq_some_iff.mp h with ⟨s, hs, hrest⟩
      have hstep := count_openBehind (hleft t (List.mem_cons_self ..)) hs
      have hall := ih (fun u hu => hleft u (List.mem_cons_of_mem t hu)) hrest
      rw [List.countP_cons]
      simp only [decide_eq_true_eq]
      omega

theorem WellNested.not_rightBrace {ts : List Token} (h : WellNested ts)
    (hleft : ∀ t ∈ ts, t.kind ≠ .leftBrace) : ∀ t ∈ ts, t.kind ≠ .rightBrace := by
  have hcount := count_openBehindAll hleft h
  have hzero : ts.countP (fun t => t.kind = .rightBrace) = 0 := by simpa using hcount
  intro t ht hkind
  exact List.countP_eq_zero.mp hzero t ht (decide_eq_true hkind)

theorem not_rightBrace_between {left right : Token} {ts : List Token}
    (hopen : left.kind = .leftBrace) (hclose : right.kind = .rightBrace)
    (hleft : ∀ t ∈ ts, t.kind ≠ .leftBrace) (h : WellNested (left :: (ts ++ [right]))) :
    ∀ t ∈ ts, t.kind ≠ .rightBrace := by
  have hcurly : left.kind.opening? = some .curly := by rw [hopen]; rfl
  have hlast : ∀ t ∈ ts ++ [right], t.kind ≠ .leftBrace := by
    intro t ht
    rcases List.mem_append.mp ht with ht | ht
    · exact hleft t ht
    · rw [List.mem_singleton.mp ht, hclose]
      decide
  rw [WellNested, openBehindAll, openBehind_opening hcurly, Option.bind_some] at h
  have hcount := count_openBehindAll hlast h
  have hzero : ts.countP (fun t => t.kind = .rightBrace) = 0 := by
    simp [List.countP_append, hclose] at hcount
    simpa using hcount
  intro t ht hkind
  exact List.countP_eq_zero.mp hzero t ht (decide_eq_true hkind)

/-!
# Counting round and square brackets
-/

def opens (ts : List Token) : Nat := ts.countP fun t => t.kind.opens

def closes (ts : List Token) : Nat := ts.countP fun t => t.kind.closes

/-- Round and square brackets, counted together, are closed as often as they are opened, and nowhere more
often. -/
structure Balanced (ts : List Token) : Prop where
  whole : closes ts = opens ts
  prefixes : ∀ front back, ts = front ++ back → closes front ≤ opens front

/-- Two brackets with a balanced text in between have the same kind. -/
def Paired (ts : List Token) : Prop :=
  ∀ front a mid b back, ts = front ++ a :: (mid ++ b :: back) → a.kind.opens = true →
    b.kind.closes = true → Balanced mid → a.kind.opening? = b.kind.closing?

@[simp] theorem opens_nil : opens [] = 0 := rfl

@[simp] theorem closes_nil : closes [] = 0 := rfl

theorem opens_append (ts us : List Token) : opens (ts ++ us) = opens ts + opens us :=
  List.countP_append

theorem closes_append (ts us : List Token) : closes (ts ++ us) = closes ts + closes us :=
  List.countP_append

theorem opens_cons (t : Token) (ts : List Token) :
    opens (t :: ts) = opens ts + if t.kind.opens then 1 else 0 := List.countP_cons

theorem closes_cons (t : Token) (ts : List Token) :
    closes (t :: ts) = closes ts + if t.kind.closes then 1 else 0 := List.countP_cons

/-- A token opens a bracket that is counted, or closes one, or is a brace or no bracket. -/
theorem counted_cases (t : Token) :
    (t.kind.opens = true ∧ t.kind.closes = false ∧ ∃ b, t.kind.opening? = some b) ∨
      (t.kind.opens = false ∧ t.kind.closes = true ∧ t.kind.opening? = none ∧
        ∃ b, t.kind.closing? = some b) ∨
      t.kind.opens = false ∧ t.kind.closes = false ∧
        (NoBrace t → t.kind.opening? = none ∧ t.kind.closing? = none) := by
  rw [NoBrace]
  cases t.kind <;> simp [TokenKind.opens, TokenKind.closes, TokenKind.opening?, TokenKind.closing?]

theorem opening_of_opens {k : TokenKind} (h : k.opens = true) : ∃ b, k.opening? = some b := by
  cases k <;> first | exact ⟨_, rfl⟩ | cases h

theorem closing_of_closes {k : TokenKind} (h : k.closes = true) :
    k.opening? = none ∧ ∃ b, k.closing? = some b := by
  cases k <;> first | exact ⟨rfl, _, rfl⟩ | cases h

theorem balanced_nil : Balanced [] := by
  refine ⟨rfl, fun front back h => ?_⟩
  rw [(List.append_eq_nil_iff.mp h.symm).1]
  exact Nat.le_refl _

theorem balanced_singleton {t : Token} (hopens : t.kind.opens = false)
    (hcloses : t.kind.closes = false) : Balanced [t] := by
  have hzero : closes [t] = opens [t] := by rw [closes_cons, opens_cons, hopens, hcloses]; rfl
  refine ⟨hzero, fun front back h => ?_⟩
  rcases List.append_eq_singleton_iff.mp h.symm with ⟨rfl, _⟩ | ⟨rfl, _⟩
  · exact Nat.le_refl _
  · exact Nat.le_of_eq hzero

theorem Balanced.append {ts us : List Token} (ht : Balanced ts) (hu : Balanced us) :
    Balanced (ts ++ us) := by
  refine ⟨by rw [closes_append, opens_append, ht.whole, hu.whole], fun front back h => ?_⟩
  rcases List.append_eq_append_iff.mp h with ⟨mid, rfl, hback⟩ | ⟨mid, hfront, _⟩
  · rw [closes_append, opens_append, ht.whole]
    exact Nat.add_le_add_left (hu.prefixes mid back hback) _
  · exact ht.prefixes front mid hfront

theorem Balanced.wrap {a b : Token} {mid : List Token} (ha : a.kind.opens = true)
    (ha' : a.kind.closes = false) (hb : b.kind.closes = true) (hb' : b.kind.opens = false)
    (h : Balanced mid) : Balanced (a :: (mid ++ [b])) := by
  have hwhole : closes (a :: (mid ++ [b])) = opens (a :: (mid ++ [b])) := by
    simp [closes_cons, opens_cons, closes_append, opens_append, ha, ha', hb, hb', h.whole]
  refine ⟨hwhole, fun front back heq => ?_⟩
  rcases List.cons_eq_append_iff.mp heq with ⟨rfl, _⟩ | ⟨front, rfl, hrest⟩
  · exact Nat.le_refl _
  rcases List.append_eq_append_iff.mp hrest with ⟨rest, rfl, hend⟩ | ⟨rest, hmid, _⟩
  · rcases List.append_eq_singleton_iff.mp hend.symm with ⟨rfl, _⟩ | ⟨rfl, _⟩
    · rw [List.append_nil, closes_cons, opens_cons, ha, ha', h.whole]
      simp
    · exact Nat.le_of_eq hwhole
  · rw [closes_cons, opens_cons, ha, ha']
    have hfront := h.prefixes front rest hmid
    simp
    omega

theorem openBehind_floor {t : Token} (ht : NoBrace t) {above stack s : List Bracket}
    (hfloor : closes [t] ≤ above.length + opens [t]) (h : openBehind (above ++ stack) t = some s) :
    ∃ above', openBehind above t = some above' ∧ s = above' ++ stack ∧
      above'.length + closes [t] = above.length + opens [t] := by
  rw [closes_cons, opens_cons, closes_nil, opens_nil] at hfloor ⊢
  rcases counted_cases t with ⟨hopens, hcloses, b, hopen⟩ | ⟨hopens, hcloses, hopen, b, hclose⟩ |
    ⟨hopens, hcloses, hneither⟩
  · rw [openBehind_opening hopen, Option.some.injEq] at h
    refine ⟨b :: above, openBehind_opening hopen above, h.symm, ?_⟩
    rw [hopens, hcloses]
    rfl
  · rw [hopens, hcloses] at hfloor ⊢
    cases above with
    | nil => cases hfloor
    | cons c above =>
        have heq := stack_of_closing hopen hclose h
        rw [List.cons_append, List.cons.injEq] at heq
        rw [heq.1]
        exact ⟨above, openBehind_closing hopen hclose above, heq.2.symm, rfl⟩
  · rcases hneither ht with ⟨hopen, hclose⟩
    rw [openBehind_neither hopen hclose, Option.some.injEq] at h
    refine ⟨above, openBehind_neither hopen hclose above, h.symm, ?_⟩
    rw [hopens, hcloses]

/-- Tokens that close no more than they open, and what was open on top, leave open what was below. -/
theorem openBehindAll_floor {ts : List Token} (hbrace : ∀ t ∈ ts, NoBrace t)
    {above stack stack' : List Bracket}
    (hfloor : ∀ front back, ts = front ++ back → closes front ≤ above.length + opens front)
    (h : openBehindAll (above ++ stack) ts = some stack') :
    ∃ above', openBehindAll above ts = some above' ∧ stack' = above' ++ stack ∧
      above'.length + closes ts = above.length + opens ts := by
  induction ts generalizing above with
  | nil =>
      cases h
      exact ⟨above, rfl, rfl, rfl⟩
  | cons t ts ih =>
      have hcloses : ∀ us, closes (t :: us) = closes [t] + closes us := closes_append [t]
      have hopens : ∀ us, opens (t :: us) = opens [t] + opens us := opens_append [t]
      rw [openBehindAll] at h
      rcases Option.bind_eq_some_iff.mp h with ⟨s, hs, hmore⟩
      rcases openBehind_floor (hbrace t (List.mem_cons_self ..)) (hfloor [t] ts rfl) hs with
        ⟨above₁, habove₁, rfl, hlength₁⟩
      have hbehind : ∀ front back, ts = front ++ back →
          closes front ≤ above₁.length + opens front := by
        intro front back heq
        have hfront := hfloor (t :: front) back (by rw [heq]; rfl)
        rw [hcloses, hopens] at hfront
        omega
      rcases ih (fun u hu => hbrace u (List.mem_cons_of_mem t hu)) hbehind hmore with
        ⟨above', habove, heq, hlength⟩
      refine ⟨above', ?_, heq, ?_⟩
      · rw [openBehindAll, habove₁]
        exact habove
      · rw [hcloses, hopens]
        omega

theorem Balanced.neutral {ts : List Token} (hts : Balanced ts) (hbrace : ∀ t ∈ ts, NoBrace t)
    {stack stack' : List Bracket} (h : openBehindAll stack ts = some stack') :
    stack' = stack ∧ WellNested ts := by
  rcases @openBehindAll_floor ts hbrace [] stack stack'
    (fun front back heq => by simpa using hts.prefixes front back heq) h with
    ⟨above, habove, rfl, hlength⟩
  rw [hts.whole, Nat.add_right_cancel_iff] at hlength
  rw [List.length_eq_zero_iff.mp hlength] at habove ⊢
  exact ⟨rfl, habove⟩

theorem WellNested.paired {ts : List Token} (h : WellNested ts) (hbrace : ∀ t ∈ ts, NoBrace t) :
    Paired ts := by
  rintro front a mid b back rfl ha hb hmid
  rcases opening_of_opens ha with ⟨k, hopen⟩
  rcases closing_of_closes hb with ⟨hopen', k', hclose⟩
  rw [WellNested, openBehindAll_append] at h
  rcases Option.bind_eq_some_iff.mp h with ⟨s, _, h⟩
  rw [openBehindAll, openBehind_opening hopen, Option.bind_some, openBehindAll_append] at h
  rcases Option.bind_eq_some_iff.mp h with ⟨s', hs', h⟩
  have hbetween : ∀ t ∈ mid, NoBrace t := fun t ht => hbrace t (by simp [ht])
  rw [(hmid.neutral hbetween hs').1, openBehindAll] at h
  rcases Option.bind_eq_some_iff.mp h with ⟨s'', hs'', _⟩
  have heq := stack_of_closing hopen' hclose hs''
  rw [List.cons.injEq] at heq
  rw [hopen, hclose, heq.1]

/-- The brackets open behind some tokens, each with the balanced tokens behind it. -/
inductive LeavesOpen : List Token → List Bracket → Prop where
  | none {ts : List Token} (h : Balanced ts) : LeavesOpen ts []
  | push {front mid : List Token} {a : Token} {k : Bracket} {stack : List Bracket}
      (h : LeavesOpen front stack) (hopens : a.kind.opens = true) (hcloses : a.kind.closes = false)
      (hkind : a.kind.opening? = some k) (hmid : Balanced mid) :
      LeavesOpen (front ++ a :: mid) (k :: stack)

namespace LeavesOpen

variable {ts us : List Token} {stack : List Bracket}

theorem append (h : LeavesOpen ts stack) (hus : Balanced us) : LeavesOpen (ts ++ us) stack := by
  cases h with
  | none h => exact .none (h.append hus)
  | push h hopens hcloses hkind hmid =>
      rw [List.append_assoc, List.cons_append]
      exact .push h hopens hcloses hkind (hmid.append hus)

theorem count (h : LeavesOpen ts stack) : opens ts = closes ts + stack.length := by
  induction h with
  | none h => exact h.whole.symm
  | push h hopens hcloses hkind hmid ih =>
      rw [opens_append, closes_append, opens_cons, closes_cons, hopens, hcloses, hmid.whole, ih,
        List.length_cons]
      simp
      omega

end LeavesOpen

/-- With the pairs of brackets of the same kinds, what is open is what the count leaves open. -/
theorem open_of_paired {ts : List Token} (hbrace : ∀ t ∈ ts, NoBrace t) (hpaired : Paired ts)
    (hprefixes : ∀ front back, ts = front ++ back → closes front ≤ opens front) (front : List Token) :
    ∀ back, ts = front ++ back → ∃ stack, openBehindAll [] front = some stack ∧
      LeavesOpen front stack := by
  -- By induction from the end: a closing bracket meets the last one left open, which pairs with it.
  induction front using List.reverseRecOn with
  | nil => exact fun back _ => ⟨[], rfl, .none balanced_nil⟩
  | append_singleton front t ih =>
      intro back heq
      have heq' : ts = front ++ t :: back := by rw [heq, List.append_assoc]; rfl
      rcases ih (t :: back) heq' with ⟨stack, hstack, hopen⟩
      have hlast : openBehindAll [] (front ++ [t]) = openBehind stack t := by
        rw [openBehindAll_append, hstack, Option.bind_some, openBehindAll]
        cases openBehind stack t <;> rfl
      rw [hlast]
      rcases counted_cases t with ⟨hopens, hcloses, k, hkind⟩ | ⟨hopens, hcloses, hkind, k, hclose⟩ |
        ⟨hopens, hcloses, hneither⟩
      · exact ⟨_, openBehind_opening hkind stack, .push hopen hopens hcloses hkind balanced_nil⟩
      · have hcount := hprefixes _ back heq
        rw [closes_append, opens_append, closes_cons, opens_cons, hopen.count, hopens, hcloses] at hcount
        cases hopen with
        | none h =>
            rw [closes_nil, opens_nil, List.length_nil] at hcount
            exact absurd hcount (by simp)
        | @push front mid a k' stack hfront ha ha' hkind' hmid =>
            have hpair := hpaired front a mid t back (by rw [heq']; simp) ha hcloses hmid
            rw [hkind', hclose, Option.some.injEq] at hpair
            subst hpair
            refine ⟨stack, openBehind_closing hkind hclose stack, ?_⟩
            rw [List.append_assoc, List.cons_append]
            exact hfront.append (hmid.wrap ha ha' hcloses hopens)
      · rcases hneither (hbrace t (by rw [heq']; simp)) with ⟨hkind, hclose⟩
        exact ⟨stack, openBehind_neither hkind hclose stack,
          hopen.append (balanced_singleton hopens hcloses)⟩

/-- Balanced tokens without braces are well nested exactly when the count pairs brackets of the same
kinds. -/
theorem wellNested_iff_paired {ts : List Token} (h : Balanced ts) (hbrace : ∀ t ∈ ts, NoBrace t) :
    WellNested ts ↔ Paired ts := by
  refine ⟨fun hnested => hnested.paired hbrace, fun hpaired => ?_⟩
  rcases open_of_paired hbrace hpaired h.prefixes ts [] (List.append_nil ts).symm with
    ⟨stack, hstack, hopen⟩
  have hcount := hopen.count
  rw [h.whole, Nat.left_eq_add] at hcount
  rw [WellNested, hstack, List.length_eq_zero_iff.mp hcount]

end Bracket
end ForceTry

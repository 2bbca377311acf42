import ForceTry.Text.Basic
import Mathlib.Data.ZMod.Basic

/-!
# Aligned texts

A text is aligned to `n` when every line with a character other than a space starts with a multiple of
`n` spaces.  This is decided by going through the text once: in the margin of a line the spaces are
counted modulo `n`, and the first other character is accepted when the count is zero.  The walk through
a text that is put together is the walk through its parts, one after the other.
-/

namespace ForceTry
namespace Text

/-- Every line that holds a character other than a space starts with a multiple of `n` spaces. -/
def Aligned (n : Nat) (t : Text) : Prop :=
  ∀ line ∈ t.split '\n', (∃ c ∈ line, c ≠ ' ') → n ∣ runLength (· == ' ') line

/-- The margin of a line ends with a character that is neither a space nor a line break. -/
def EndsMargin (c : Char) : Prop := c ≠ ' ' ∧ c ≠ '\n'

/-- A place in a line: in its margin, behind some spaces, or behind the margin. -/
inductive Column (n : Nat) where
  | margin (spaces : ZMod n)
  | inside

namespace Column

variable {n : Nat} {a a' b b' : Column n} {c : Char} {s t u : Text}

def next? (a : Column n) (c : Char) : Option (Column n) :=
  if c = '\n' then some (.margin 0)
  else match a with
    | .inside => some .inside
    | .margin k => if c = ' ' then some (.margin (k + 1)) else if k = 0 then some .inside else none

def walk? : Column n → Text → Option (Column n)
  | a, [] => some a
  | a, c :: t =>
      match a.next? c with
      | none => none
      | some b => walk? b t

theorem walk?_cons_of_some (h : a.next? c = some b) (t : Text) : a.walk? (c :: t) = b.walk? t := by
  rw [walk?, h]

theorem walk?_cons_of_none (h : a.next? c = none) (t : Text) : a.walk? (c :: t) = none := by
  rw [walk?, h]

theorem walk?_append (a : Column n) (s t : Text) :
    a.walk? (s ++ t) = (a.walk? s).bind fun b => b.walk? t := by
  induction s generalizing a with
  | nil => rfl
  | cons c s ih =>
      cases hnext : a.next? c with
      | none =>
          rw [List.cons_append, walk?_cons_of_none hnext, walk?_cons_of_none hnext]
          rfl
      | some b =>
          rw [List.cons_append, walk?_cons_of_some hnext, walk?_cons_of_some hnext]
          exact ih b

theorem walk?_append_of_some (h : a.walk? s = some b) (t : Text) : a.walk? (s ++ t) = b.walk? t := by
  rw [walk?_append, h]
  rfl

theorem walk?_append_some (h : a.walk? (s ++ t) = some b) :
    ∃ a', a.walk? s = some a' ∧ a'.walk? t = some b := by
  rw [walk?_append, Option.bind_eq_some_iff] at h
  exact h

theorem walk?_append_congr {s' t' : Text} (hs : a.walk? s = a.walk? s')
    (ht : ∀ b : Column n, b.walk? t = b.walk? t') : a.walk? (s ++ t) = a.walk? (s' ++ t') := by
  rw [walk?_append, walk?_append, hs]
  congr 1
  funext b
  exact ht b

/-!
## Characters
-/

theorem next?_newline (a : Column n) : a.next? '\n' = some (.margin 0) := if_pos rfl

theorem next?_inside (h : c ≠ '\n') : (inside : Column n).next? c = some .inside := if_neg h

theorem next?_space (k : ZMod n) : (margin k).next? ' ' = some (.margin (k + 1)) := rfl

theorem next?_margin (h : EndsMargin c) (k : ZMod n) :
    (margin k).next? c = if k = 0 then some .inside else none := by
  rw [next?, if_neg h.2]
  exact if_neg h.1

def Open (a : Column n) : Prop := a = .inside ∨ a = .margin 0

theorem open_inside : (inside : Column n).Open := .inl rfl

theorem open_margin : (margin 0 : Column n).Open := .inr rfl

theorem Open.next? (h : a.Open) (hc : EndsMargin c) : a.next? c = some .inside := by
  rcases h with rfl | rfl
  · exact next?_inside hc.2
  · rw [next?_margin hc, if_pos rfl]

theorem Open.walk?_cons (h : a.Open) (hc : EndsMargin c) (t : Text) :
    a.walk? (c :: t) = (inside : Column n).walk? t :=
  walk?_cons_of_some (h.next? hc) t

theorem open_of_walk? (hc : EndsMargin c) (h : a.walk? (c :: t) = some b) : a.Open := by
  cases a with
  | inside => exact open_inside
  | margin k =>
      by_cases hk : k = 0
      · rw [hk]
        exact open_margin
      · rw [walk?_cons_of_none (by rw [next?_margin hc, if_neg hk])] at h
        cases h

theorem walk?_inside (h : '\n' ∉ t) : (inside : Column n).walk? t = some .inside := by
  induction t with
  | nil => rfl
  | cons c t ih =>
      rw [List.mem_cons, not_or] at h
      rw [walk?_cons_of_some (next?_inside (Ne.symm h.1))]
      exact ih h.2

theorem walk?_newline (h : a.walk? (t ++ ['\n']) = some b) : b = .margin 0 := by
  rcases walk?_append_some h with ⟨a', _, hb⟩
  rw [walk?_cons_of_some (next?_newline a')] at hb
  cases hb
  rfl

theorem walk?_spaces (k : ZMod n) (m : Nat) :
    (margin k).walk? (List.replicate m ' ') = some (.margin (k + m)) := by
  induction m generalizing k with
  | zero => simp [walk?]
  | succ m ih =>
      rw [List.replicate_succ, walk?_cons_of_some (next?_space k), ih, Nat.cast_succ, add_assoc,
        add_comm (1 : ZMod n)]

theorem walk?_step {m : Nat} (h : n ∣ m) (a : Column n) :
    a.walk? (List.replicate m ' ') = some a := by
  cases a with
  | inside =>
      apply walk?_inside
      intro hmem
      cases List.eq_of_mem_replicate hmem
  | margin k => rw [walk?_spaces, (ZMod.natCast_eq_zero_iff m n).mpr h, add_zero]

/-!
## Fewer spaces to count

Inside a line every text may follow, so a walk that starts there, and not in a margin, does not fail.
-/

inductive Below : Column n → Column n → Prop where
  | refl (a : Column n) : Below a a
  | inside (a : Column n) : Below .inside a

theorem Below.trans {a'' : Column n} (h : Below a a') (h' : Below a' a'') : Below a a'' := by
  cases h with
  | refl => exact h'
  | inside => exact .inside a''

theorem Below.next? (h : Below a' a) (hnext : a.next? c = some b) :
    ∃ b', a'.next? c = some b' ∧ Below b' b := by
  cases h with
  | refl => exact ⟨b, hnext, .refl b⟩
  | inside =>
      by_cases hc : c = '\n'
      · subst hc
        rw [next?_newline] at hnext
        cases hnext
        exact ⟨_, next?_newline _, .refl _⟩
      · exact ⟨.inside, next?_inside hc, .inside b⟩

theorem Below.walk? (h : Below a' a) (hwalk : a.walk? t = some b) :
    ∃ b', a'.walk? t = some b' ∧ Below b' b := by
  induction t generalizing a a' with
  | nil =>
      cases hwalk
      exact ⟨a', rfl, h⟩
  | cons c t ih =>
      cases hnext : a.next? c with
      | none =>
          rw [walk?_cons_of_none hnext] at hwalk
          cases hwalk
      | some d =>
          rw [walk?_cons_of_some hnext] at hwalk
          rcases h.next? hnext with ⟨d', hd', hbelow⟩
          rw [walk?_cons_of_some hd']
          exact ih hbelow hwalk

/-- Where the walk through `t` does not fail, the walk through `u` does not, and it ends in the same
column or inside a line. -/
def Follows (a : Column n) (t u : Text) : Prop :=
  ∀ b, a.walk? t = some b → ∃ b', a.walk? u = some b' ∧ Below b' b

theorem follows_refl (a : Column n) (t : Text) : a.Follows t t := fun b hb => ⟨b, hb, .refl b⟩

theorem Follows.below (h : a.Follows t u) (ha : Below a' a) (hwalk : a.walk? t = some b) :
    ∃ b', a'.walk? u = some b' ∧ Below b' b := by
  rcases h b hwalk with ⟨d, hd, hbelow⟩
  rcases ha.walk? hd with ⟨d', hd', hbelow'⟩
  exact ⟨d', hd', hbelow'.trans hbelow⟩

theorem Follows.append {t' u' : Text} (h : a.Follows t u)
    (hs : ∀ b, a.walk? t = some b → b.Follows t' u') : a.Follows (t ++ t') (u ++ u') := by
  intro b hb
  rcases walk?_append_some hb with ⟨d, hd, hb⟩
  rcases h d hd with ⟨d', hd', hbelow⟩
  rw [walk?_append_of_some hd']
  exact (hs d hd).below hbelow hb

end Column

/-!
# The walk decides whether a text is aligned
-/

theorem exists_split (separator : Char) (t : Text) : ∃ p ps, t.split separator = p :: ps := by
  cases t with
  | nil => exact ⟨[], [], rfl⟩
  | cons c t =>
      rw [split]
      split
      · split <;> exact ⟨_, _, rfl⟩
      · exact ⟨_, _, rfl⟩

theorem split_cons_separator {separator : Char} {t p : Text} {ps : List Text}
    (h : t.split separator = p :: ps) : split separator (separator :: t) = [] :: p :: ps := by
  rw [split, h]
  exact if_pos (beq_self_eq_true separator)

theorem split_cons_of_ne {separator c : Char} {t p : Text} {ps : List Text}
    (h : t.split separator = p :: ps) (hc : c ≠ separator) :
    split separator (c :: t) = (c :: p) :: ps := by
  rw [split, h]
  exact if_neg (by simpa using hc)

namespace Column

variable {n : Nat}

def Admits : Column n → Text → Prop
  | .inside, _ => True
  | .margin k, line => (∃ c ∈ line, c ≠ ' ') → k + (runLength (· == ' ') line : Nat) = 0

theorem admits_margin_zero (line : Text) :
    (margin 0 : Column n).Admits line ↔
      ((∃ c ∈ line, c ≠ ' ') → n ∣ runLength (· == ' ') line) := by
  rw [Admits, zero_add, ZMod.natCast_eq_zero_iff]

theorem admits_space (k : ZMod n) (line : Text) :
    (margin k).Admits (' ' :: line) ↔ (margin (k + 1)).Admits line := by
  have hlength : runLength (· == ' ') (' ' :: line) = runLength (· == ' ') line + 1 := rfl
  rw [Admits, Admits, hlength, Nat.cast_succ, add_assoc, add_comm (1 : ZMod n)]
  simp

theorem admits_endsMargin {c : Char} (hc : EndsMargin c) (k : ZMod n) (line : Text) :
    (margin k).Admits (c :: line) ↔ k = 0 := by
  have hlength : runLength (· == ' ') (c :: line) = 0 := by
    simp [runLength, hc.1]
  rw [Admits, hlength, Nat.cast_zero, add_zero]
  exact ⟨fun h => h ⟨c, List.mem_cons_self .., hc.1⟩, fun h _ => h⟩

/-- A walk does not fail when the rest of the first line and all further lines may stand where they
stand. -/
theorem walk?_isSome_iff {t p : Text} {ps : List Text} (h : t.split '\n' = p :: ps)
    (a : Column n) :
    (a.walk? t).isSome = true ↔ a.Admits p ∧ ∀ line ∈ ps, (margin 0 : Column n).Admits line := by
  -- By induction on the text. A line break starts a new margin, and a line is tested at the first
  -- character behind its margin.
  induction t generalizing a p ps with
  | nil =>
      cases h
      refine iff_of_true rfl ⟨?_, fun _ hline => absurd hline List.not_mem_nil⟩
      cases a with
      | inside => trivial
      | margin k =>
          rintro ⟨c, hc, _⟩
          cases hc
  | cons c t ih =>
      rcases exists_split '\n' t with ⟨q, qs, hsplit⟩
      by_cases hc : c = '\n'
      · subst hc
        rw [split_cons_separator hsplit] at h
        cases h
        rw [walk?_cons_of_some (next?_newline a), ih hsplit, List.forall_mem_cons]
        refine (and_iff_right ?_).symm
        cases a with
        | inside => trivial
        | margin k =>
            rintro ⟨c, hc, _⟩
            cases hc
      · rw [split_cons_of_ne hsplit hc] at h
        cases h
        cases a with
        | inside =>
            rw [walk?_cons_of_some (next?_inside hc), ih hsplit]
            exact Iff.rfl
        | margin k =>
            by_cases hspace : c = ' '
            · subst hspace
              rw [walk?_cons_of_some (next?_space k), ih hsplit, admits_space]
            · have hends : EndsMargin c := ⟨hspace, hc⟩
              rw [admits_endsMargin hends]
              by_cases hk : k = 0
              · rw [walk?_cons_of_some (by rw [next?_margin hends, if_pos hk]), ih hsplit]
                exact and_congr_left' (iff_of_true trivial hk)
              · rw [walk?_cons_of_none (by rw [next?_margin hends, if_neg hk])]
                exact iff_of_false Bool.false_ne_true fun h => hk h.1

end Column

theorem aligned_iff (n : Nat) (t : Text) :
    Aligned n t ↔ ∃ b : Column n, (Column.margin 0).walk? t = some b := by
  rcases exists_split '\n' t with ⟨p, ps, hsplit⟩
  rw [← Option.isSome_iff_exists, Column.walk?_isSome_iff hsplit, Aligned, hsplit,
    List.forall_mem_cons]
  simp only [Column.admits_margin_zero]

theorem Aligned.of_follows {n : Nat} {t u : Text} (h : Aligned n t)
    (hu : (Column.margin 0 : Column n).Follows t u) : Aligned n u := by
  rw [aligned_iff] at h ⊢
  rcases h with ⟨b, hb⟩
  rcases hu b hb with ⟨b', hb', _⟩
  exact ⟨b', hb'⟩

end Text
end ForceTry

import ForceTry.Proofs.Computation
import ForceTry.Proofs.Settings.Documented
import ForceTry.Settings.Lax
import Mathlib.Data.List.TakeWhile

/-!
# Lax checks as documented

The lax checks read a value for a field as what it may hold, collect the entries of a record one field after
the other, and read the digits of a number as the number.
-/

namespace ForceTry
namespace Lax

variable {v w : Value} {n : Int} {b : Bool} {t : Text} {d r : Details} {fields : List Field}

theorem toOption_eq_some {ε α : Type} {x : Except ε α} {a : α} : x.toOption = some a ↔ x = .ok a := by
  cases x <;> simp [Except.toOption]

/-!
# Records
-/

theorem read_eq_ok {kind : FieldKind} : read kind v = .ok w ↔ library.Reads kind v w := by
  cases kind with
  | text refine =>
      simp only [read, bind_eq_ok, SchemaLibrary.Reads, library, toOption_eq_some]
      refine exists_congr fun t => ?_
      cases refine t <;> simp [eq_comm]
  | flag =>
      simp only [read, bind_eq_ok, SchemaLibrary.Reads, library, toOption_eq_some]
      refine exists_congr fun b => and_congr_right fun _ => ?_
      exact ⟨fun h => by cases h; rfl, fun h => by rw [h]; rfl⟩
  | whole least greatest =>
      simp only [read, bind_eq_ok, SchemaLibrary.Reads, library, toOption_eq_some]
      refine exists_congr fun n => and_congr_right fun _ => ?_
      split
      · next habove =>
          constructor
          · intro h
            cases h
          · intro h
            omega
      split
      · next hbelow =>
          constructor
          · intro h
            cases h
          · intro h
            omega
      · next habove hbelow =>
          constructor
          · intro h
            cases h
            exact ⟨by omega, by omega, rfl⟩
          · rintro ⟨_, _, rfl⟩
            rfl

theorem fills_iff {f : Field} {e : Text × Value} : library.Fills d f e ↔ e.1 = f.key ∧
    match d.get? f.key with
    | some v => read f.kind v = .ok e.2
    | none => e.2 = f.standard := by
  rw [SchemaLibrary.Fills]
  cases d.get? f.key <;> simp only [read_eq_ok]

/-- Fields are read without a problem exactly when every entry of the record is the one of its field. -/
theorem readFields_eq_iff :
    readFields d fields = (r, []) ↔ List.Forall₂ (library.Fills d) fields r := by
  induction fields generalizing r with
  | nil => simp [readFields, eq_comm]
  | cons f fs ih =>
      rw [readFields, List.forall₂_cons_left_iff]
      simp only [← ih, fills_iff]
      cases hrest : readFields d fs with
      | mk r' ps =>
          cases hget : d.get? f.key with
          | none =>
              simp only [Prod.mk.injEq]
              constructor
              · rintro ⟨rfl, rfl⟩
                exact ⟨_, _, ⟨rfl, rfl⟩, ⟨rfl, rfl⟩, rfl⟩
              · rintro ⟨⟨key, w⟩, u, ⟨rfl, rfl⟩, ⟨rfl, rfl⟩, rfl⟩
                exact ⟨rfl, rfl⟩
          | some v =>
              dsimp only
              cases read f.kind v with
              | error e =>
                  simp only [Prod.mk.injEq]
                  constructor
                  · rintro ⟨_, hcons⟩
                    cases hcons
                  · rintro ⟨_, _, ⟨_, herror⟩, _⟩
                    cases herror
              | ok w =>
                  simp only [Prod.mk.injEq]
                  constructor
                  · rintro ⟨rfl, rfl⟩
                    exact ⟨_, _, ⟨rfl, rfl⟩, ⟨rfl, rfl⟩, rfl⟩
                  · rintro ⟨⟨key, w'⟩, u, ⟨rfl, heq⟩, ⟨rfl, rfl⟩, rfl⟩
                    cases heq
                    exact ⟨rfl, rfl⟩

theorem extraKeys_eq_nil_iff :
    extraKeys fields d = [] ↔ ∀ e ∈ d, ∃ f ∈ fields, f.key = e.1 := by
  rw [extraKeys, List.map_eq_nil_iff, List.filter_eq_nil_iff]
  simp

theorem build_eq_ok_iff {schema : Schema} : build schema d = .ok r ↔
    (∀ e ∈ d, ∃ f ∈ schema.fields, f.key = e.1) ∧
      List.Forall₂ (library.Fills d) schema.fields r := by
  rw [← extraKeys_eq_nil_iff, ← readFields_eq_iff, build]
  cases readFields d schema.fields with
  | mk r' ps =>
      dsimp only
      split
      · next hnil =>
          rw [List.append_eq_nil_iff] at hnil
          rw [hnil.1, hnil.2]
          simp
      · next p qs hcons =>
          constructor
          · intro h
            cases h
          · rintro ⟨hextra, heq⟩
            cases heq
            rw [hextra] at hcons
            cases hcons

/-!
# Numbers
-/

theorem not_isMargin_of_isDigit {c : Char} (h : c.isDigit = true) : isMargin c = false := by
  simp only [Char.isDigit, Bool.and_eq_true, decide_eq_true_eq, UInt32.le_iff_toNat_le] at h
  have hlow : 48 ≤ c.toNat := h.1
  have hhigh : c.toNat ≤ 57 := h.2
  have hblank : Text.isBlank c = false := by
    simp only [Text.isBlank, Bool.or_eq_false_iff, Bool.and_eq_false_iff, decide_eq_false_iff_not,
      beq_eq_false_iff_ne]
    omega
  rw [isMargin, hblank, Bool.false_and]

theorem trimmed_of_digits (h : ∀ c ∈ t, c.isDigit = true) : trimmed t = t := by
  have hdrop : ∀ u : Text, (∀ c ∈ u, c.isDigit = true) → u.dropWhile isMargin = u := by
    intro u hu
    cases u with
    | nil => rfl
    | cons c u =>
        rw [List.dropWhile_cons, not_isMargin_of_isDigit (hu c List.mem_cons_self)]
        rfl
  rw [trimmed, hdrop t h, hdrop t.reverse (fun c hc => h c (List.mem_reverse.mp hc)),
    List.reverse_reverse]

theorem readDigits_of_digits {m : Nat} (h : ∀ c ∈ t, c.isDigit = true) :
    readDigits m t = some (Nat.ofDigitChars 10 t m) := by
  induction t generalizing m with
  | nil => rfl
  | cons c t ih =>
      have hc := h c List.mem_cons_self
      have hne : c ≠ '_' := by
        rintro rfl
        exact absurd hc (by decide)
      rw [readDigits.eq_3 m c t (fun _ _ heq _ => hne heq), if_pos hc,
        ih fun c hc => h c (List.mem_cons_of_mem _ hc), Nat.ofDigitChars_cons, Nat.mul_comm m 10]
      rfl

theorem readUnsigned_of_digits (h : ∀ c ∈ t, c.isDigit = true) (hne : t ≠ []) :
    readUnsigned t = some (Nat.ofDigitChars 10 t 0) := by
  have hpoint : ∀ c ∈ t, (c != '.') = true := by
    intro c hc
    rw [bne_iff_ne]
    rintro rfl
    exact absurd (h '.' hc) (by decide)
  have hwhole : t.takeWhile (· != '.') = t := List.takeWhile_eq_self_iff.mpr hpoint
  have hfraction : t.dropWhile (· != '.') = [] := List.dropWhile_eq_nil_iff.mpr hpoint
  cases t with
  | nil => exact absurd rfl hne
  | cons c t =>
      simp only [readUnsigned, hwhole, hfraction, h c List.mem_cons_self, List.drop_nil, List.all_nil,
        Bool.and_true, if_true, Nat.ofDigitChars_cons,
        readDigits_of_digits fun c hc => h c (List.mem_cons_of_mem _ hc), Nat.mul_zero, Nat.zero_add]
      rfl

theorem readWhole_of_digits (h : ∀ c ∈ t, c.isDigit = true) (hne : t ≠ []) :
    readWhole t = some (Nat.ofDigitChars 10 t 0 : Int) := by
  rw [readWhole, trimmed_of_digits h]
  split
  · exact absurd (h '-' List.mem_cons_self) (by decide)
  · exact absurd (h '+' List.mem_cons_self) (by decide)
  · rw [readUnsigned_of_digits h hne]
    rfl

theorem asWhole_digits (n : Nat) (hn : n < wordBound) :
    asWhole (.text (Nat.toDigits 10 n)) = .ok n := by
  have hdigits : ∀ c ∈ Nat.toDigits 10 n, c.isDigit = true :=
    fun c hc => Nat.isDigit_of_mem_toDigits (by decide) (Nat.le_refl 10) hc
  have hlength : (Nat.toDigits 10 n).length ≤ 19 := by
    rw [wordBound] at hn
    rw [Nat.length_toDigits_le_iff (by decide) (by decide)]
    omega
  rw [asWhole, wholeOfText, if_neg (by rw [longestNumber]; omega),
    readWhole_of_digits hdigits Nat.toDigits_ne_nil,
    Nat.ofDigitChars_toDigits (by decide) (Nat.le_refl 10)]

theorem asWhole_float {x : Float} (h : (Value.floatShape x).integral? = some n) (hlow : -wordBound < n)
    (hhigh : n < wordBound) : asWhole (.float x) = .ok n := by
  rw [asWhole, wholeOfFloat]
  cases hshape : Value.floatShape x with
  | finite negative digits place =>
      rw [hshape] at h
      simp only [h]
      rw [if_pos]
      simpa using And.intro hlow hhigh
  | undefined =>
      rw [hshape] at h
      cases h
  | infinite negative =>
      rw [hshape] at h
      cases h

/-!
# Flags
-/

theorem integral?_of_wholeOfFloat {x : Float} (h : wholeOfFloat x = .ok n) :
    (Value.floatShape x).integral? = some n := by
  unfold wholeOfFloat at h
  split at h
  · next m _ hm =>
      split at h
      · cases h
        exact hm
      · cases h
  · cases h
  · cases h

theorem flagOfWhole_eq_ok (h : flagOfWhole n = .ok b) : n = if b then 1 else 0 := by
  unfold flagOfWhole at h
  split at h
  · next hzero =>
      cases h
      exact hzero
  split at h
  · next hone =>
      cases h
      exact hone
  · cases h

theorem ne_nil_of_flagOfWord (h : flagOfWord t = .ok b) : t ≠ [] := by
  rintro rfl
  cases h

theorem form_of_asFlag (h : asFlag v = .ok b) : FlagForm v b := by
  cases v with
  | bool b' =>
      cases h
      exact .bool b
  | int n =>
      rw [asFlag] at h
      split at h
      · rw [flagOfWhole_eq_ok h]
        exact .int b
      · cases h
  | float x =>
      rw [asFlag] at h
      split at h
      · next n hn =>
          apply FlagForm.float
          rw [integral?_of_wholeOfFloat hn, flagOfWhole_eq_ok h]
      · cases h
  | text t => exact .text (ne_nil_of_flagOfWord h)
  | bytes content =>
      apply FlagForm.bytes
      rintro rfl
      rw [asFlag, bind_eq_ok] at h
      rcases h with ⟨t, ht, h⟩
      have hnone : Utf8.decode [] = .ok [] := by simp [Utf8.decode, Utf8.decodeFrom]
      rw [textOfBytes, hnone] at ht
      cases ht
      cases h
  | null => cases h
  | list items => cases h
  | map entries => cases h
  | other kind shown => cases h

theorem library_documented : library.Documented where
  build_eq_ok := build_eq_ok_iff
  whole_int _ := rfl
  whole_bool _ := rfl
  whole_digits n hn := toOption_eq_some.mpr (asWhole_digits n hn)
  whole_float h hlow hhigh := toOption_eq_some.mpr (asWhole_float h hlow hhigh)
  whole_other _ _ := rfl
  flag_bool _ := rfl
  flag_no := by decide
  flag_form h := form_of_asFlag (toOption_eq_some.mp h)
  text_text _ := rfl
  text_other _ _ := rfl

end Lax
end ForceTry

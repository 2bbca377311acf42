import ForceTry.Proofs.Settings.Lax
import ForceTry.Proofs.Settings.Range

/-!
# Settings that are kept as they were given

The check takes every value for one of the kind of its setting, and throws the result away: the settings
keep the values as they were given.  Where a value is a whole number or a flag of its own the two agree.  A
number that was written as a text and a word for no do not behave as what the check takes them for.
-/

namespace ForceTry

namespace Value

/-- The whole number that a value is without being taken for one. -/
def whole? : Value → Option Int
  | int n => some n
  | bool b => some (if b then 1 else 0)
  | _ => none

def isWord : Value → Bool
  | text _ => true
  | bytes _ => true
  | _ => false

/-- A value that is taken for a flag counts as this flag, except for a word for no: every word counts as
yes. -/
theorem isTruthy_iff_of_form {v : Value} {b : Bool} (h : FlagForm v b) :
    v.isTruthy = b ↔ (v.isWord = true → b = true) := by
  cases h with
  | bool b => simp [isTruthy, isWord]
  | int b => cases b <;> simp [isTruthy, isWord]
  | float hwhole => cases b <;> simp_all [isTruthy, isWord]
  | @text t _ hne =>
      cases t with
      | nil => exact absurd rfl hne
      | cons c t => simp [isTruthy, isWord, eq_comm]
  | @bytes content _ hne =>
      cases content with
      | nil => exact absurd rfl hne
      | cons x content => simp [isTruthy, isWord, eq_comm]

end Value

namespace Settings

variable {codecs : Codecs} {lib : SchemaLibrary} {s : Settings} {c : Checked} {d : Details}

/-- The settings behave as what the check takes them for: the fallback is the unit of the style and the width
and can be written out, the flags count as what they were taken for, and the size is the number. -/
structure BehaveAs (s : Settings) (c : Checked) : Prop where
  fallback : ∃ f, s.fallback = .ok f ∧ f.writable = true ∧
    f.unit = if c.indentStyle = "tabs".toList then .tab else .spaces c.indentWidth.toNat
  validateOutput : s.validateOutput.isTruthy = c.validateOutput
  backups : s.backups.isTruthy = c.backups
  maxFileSize : s.maxFileSize.whole? = some c.maxFileSize

/-- No value that matters was given as something else than what the check takes it for. -/
structure GivenAsRead (s : Settings) (c : Checked) : Prop where
  indentation : if c.indentStyle = "tabs".toList then s.indentStyle = .text c.indentStyle
    else s.indentWidth.whole?.isSome = true
  validateOutput : s.validateOutput.isWord = true → c.validateOutput = true
  backups : s.backups.isWord = true → c.backups = true
  maxFileSize : s.maxFileSize.whole?.isSome = true

/-!
# Numbers
-/

theorem whole?_eq_some_iff (hlib : lib.Documented) {v : Value} {n : Int} (h : lib.whole? v = some n) :
    v.whole? = some n ↔ v.whole?.isSome = true := by
  cases v with
  | int m =>
      rw [hlib.whole_int] at h
      simp [Value.whole?, Option.some.inj h]
  | bool b =>
      rw [hlib.whole_bool] at h
      simp [Value.whole?, Option.some.inj h]
  | _ => simp [Value.whole?]

/-- A width gives the unit of the number that it is taken for exactly when it is a whole number. -/
theorem ofWidth_iff (hlib : lib.Documented) {v : Value} {n : Int} (h : lib.whole? v = some n)
    (hleast : 1 ≤ n) :
    (∃ f, Fallback.ofWidth v = .ok f ∧ f.writable = true ∧ f.unit = .spaces n.toNat) ↔
      v.whole?.isSome = true := by
  cases v with
  | int m =>
      rw [hlib.whole_int] at h
      cases h
      refine ⟨fun _ => rfl, fun _ => ?_⟩
      rw [Fallback.ofWidth, IndentUnit.ofWidth?, if_neg (by omega)]
      exact ⟨_, rfl, rfl, rfl⟩
  | bool b =>
      rw [hlib.whole_bool] at h
      cases h
      cases b with
      | true => exact ⟨fun _ => rfl, fun _ => ⟨_, rfl, rfl, rfl⟩⟩
      | false => exact absurd hleast (by decide)
  | float x =>
      refine ⟨?_, fun hsome => by cases hsome⟩
      rintro ⟨f, hf, hwritable, _⟩
      rw [Fallback.ofWidth] at hf
      split at hf
      · cases hf
      · cases hf
        cases hwritable
  | _ =>
      refine ⟨?_, fun hsome => by cases hsome⟩
      rintro ⟨f, hf, _⟩
      cases hf

theorem ofWidth_ne_tab {v : Value} {f : Fallback} (h : Fallback.ofWidth v = .ok f)
    (hwritable : f.writable = true) : f.unit ≠ .tab := by
  cases v with
  | int m =>
      rw [Fallback.ofWidth, IndentUnit.ofWidth?] at h
      split at h
      · next u hu =>
          split at hu
          · cases hu
          · cases hu
            cases h
            exact fun heq => by cases heq
      · cases h
  | bool b =>
      cases b with
      | true =>
          cases h
          exact fun heq => by cases heq
      | false => cases h
  | float x =>
      rw [Fallback.ofWidth] at h
      split at h
      · cases h
      · cases h
        cases hwritable
  | _ => cases h

/-!
# The fallback
-/

theorem fallback_of_not_tabs (h : s.indentStyle ≠ .text "tabs".toList) :
    s.fallback = Fallback.ofWidth s.indentWidth := by
  rw [fallback]
  split
  · next t ht =>
      split
      · next htabs =>
          rw [ht, htabs] at h
          exact absurd rfl h
      · rfl
  · rfl

/-- The fallback is the unit of the style and the width that the check found exactly when tabs were asked for in
a text, or the width is a whole number. -/
theorem fallback_iff (hlib : lib.Documented)
    (hstyle : lib.Reads (Setting.fieldKind codecs .indentStyle) s.indentStyle (.text c.indentStyle))
    (hwidth : lib.Reads (Setting.fieldKind codecs .indentWidth) s.indentWidth (.int c.indentWidth)) :
    (∃ f, s.fallback = .ok f ∧ f.writable = true ∧
        f.unit = if c.indentStyle = "tabs".toList then .tab else .spaces c.indentWidth.toNat) ↔
      if c.indentStyle = "tabs".toList then s.indentStyle = .text c.indentStyle
        else s.indentWidth.whole?.isSome = true := by
  split
  · next htabs =>
      rw [htabs]
      constructor
      · rintro ⟨f, hf, hwritable, hunit⟩
        by_contra hother
        rw [fallback_of_not_tabs hother] at hf
        exact ofWidth_ne_tab hf hwritable hunit
      · intro htext
        rw [fallback, htext]
        exact ⟨_, rfl, rfl, rfl⟩
  · next hspaces =>
      have hother : s.indentStyle ≠ .text "tabs".toList := by
        intro htext
        rcases hstyle with ⟨t, u, ht, hcheck, heq⟩
        rw [htext, hlib.text_text] at ht
        have hkept : Setting.checkIndentStyle "tabs".toList = .ok u := by
          rw [Option.some.inj ht]
          exact hcheck
        rw [Value.text.inj heq] at hspaces
        exact hspaces (Except.ok.inj hkept).symm
      rcases hwidth with ⟨n, hn, hleast, _, heq⟩
      cases heq
      rw [fallback_of_not_tabs hother]
      exact ofWidth_iff hlib hn hleast

/-!
# Accepted settings
-/

theorem ofDetails_eq_ok : ofDetails codecs lib d = .ok s ↔
    s = standard.setKnown d ∧ ∃ r, validate codecs lib s.toDetails = .ok r := by
  rw [ofDetails, bind_eq_ok]
  constructor
  · rintro ⟨_, hcheck, h⟩
    cases h
    rw [check, bind_eq_ok] at hcheck
    rcases hcheck with ⟨r, hr, _⟩
    exact ⟨rfl, r, hr⟩
  · rintro ⟨rfl, r, hr⟩
    refine ⟨(), ?_, rfl⟩
    rw [check, hr]
    rfl

/-- Accepted settings are taken for settings with a width from 1 to 8 and a size from 1 to 100, and they
behave as these exactly when every number was given as a number, a width under tabs apart, and no flag as a
word for no. -/
theorem behaveAs_of_ofDetails (hlib : lib.Documented) (h : ofDetails codecs lib d = .ok s) :
    ∃ c : Checked, validate codecs lib s.toDetails = .ok c.toDetails ∧
      (1 ≤ c.indentWidth ∧ c.indentWidth ≤ 8) ∧ (1 ≤ c.maxFileSize ∧ c.maxFileSize ≤ 100) ∧
      (BehaveAs s c ↔ GivenAsRead s c) := by
  rcases ofDetails_eq_ok.mp h with ⟨_, r, hr⟩
  rcases (validate_eq_ok hlib).mp hr with ⟨c, rfl, hreads⟩
  have hfallback := fallback_iff hlib (hreads .indentStyle) (hreads .indentWidth)
  rcases hreads .indentWidth with ⟨width, _, hwidth₁, hwidth₈, heq⟩
  cases heq
  rcases hreads .maxFileSize with ⟨size, hsize, hsize₁, hsize₁₀₀, heq⟩
  cases heq
  rcases hreads .validateOutput with ⟨output, houtput, heq⟩
  cases heq
  rcases hreads .backups with ⟨backups, hbackups, heq⟩
  cases heq
  refine ⟨c, hr, ⟨hwidth₁, hwidth₈⟩, ⟨hsize₁, hsize₁₀₀⟩, fun hbehave => ?_, fun hgiven => ?_⟩
  · exact {
      indentation := hfallback.mp hbehave.fallback
      validateOutput := (Value.isTruthy_iff_of_form (hlib.flag_form houtput)).mp hbehave.validateOutput
      backups := (Value.isTruthy_iff_of_form (hlib.flag_form hbackups)).mp hbehave.backups
      maxFileSize := (whole?_eq_some_iff hlib hsize).mp hbehave.maxFileSize }
  · exact {
      fallback := hfallback.mpr hgiven.indentation
      validateOutput := (Value.isTruthy_iff_of_form (hlib.flag_form houtput)).mpr hgiven.validateOutput
      backups := (Value.isTruthy_iff_of_form (hlib.flag_form hbackups)).mpr hgiven.backups
      maxFileSize := (whole?_eq_some_iff hlib hsize).mpr hgiven.maxFileSize }

/-- A value that is taken for one that its setting may have is accepted when all other settings are the
standard ones. -/
theorem ofDetails_single (hlib : lib.Documented) (hcodecs : KnowsStandard codecs) {k : Setting}
    {v w : Value} (h : lib.Reads (k.fieldKind codecs) v w) :
    ofDetails codecs lib [(k.key.toList, v)] = .ok (standard.set k v) ∧
      ∃ c : Checked, validate codecs lib (standard.set k v).toDetails = .ok c.toDetails ∧ c.get k = w := by
  have hset : standard.setKnown [(k.key.toList, v)] = standard.set k v := by
    cases k <;> rfl
  choose w' hreads _ using fun k' => FieldKind.reads_of_holds hlib (inRange_of_knowsStandard hcodecs k')
  have hall : ∀ k', lib.Reads (k'.fieldKind codecs) ((standard.set k v).get k')
      (Function.update w' k w k') := by
    intro k'
    rw [get_set]
    split
    · next heq =>
        rw [heq, Function.update_self]
        exact h
    · next hne =>
        rw [Function.update_of_ne hne]
        exact hreads k'
  rcases exists_checked hall with ⟨c, hc⟩
  have hvalid : validate codecs lib (standard.set k v).toDetails = .ok c.toDetails :=
    (validate_eq_ok hlib).mpr ⟨c, rfl, fun k' => hc ▸ hall k'⟩
  exact ⟨ofDetails_eq_ok.mpr ⟨hset.symm, _, hvalid⟩, c, hvalid, by rw [hc, Function.update_self]⟩

theorem behaveAs_of_ofDetails_width :
    ∃ s c, ofDetails Encoding.codecs Lax.library [(Setting.indentWidth.key.toList, .int 4)] = .ok s ∧
      validate Encoding.codecs Lax.library s.toDetails = .ok c.toDetails ∧ BehaveAs s c := by
  have hreads : Lax.library.Reads (Setting.fieldKind Encoding.codecs .indentWidth) (.int 4) (.int 4) :=
    ⟨4, rfl, by decide, by decide, rfl⟩
  have hs := (ofDetails_single Lax.library_documented codecs_knowsStandard hreads).1
  rcases behaveAs_of_ofDetails Lax.library_documented hs with ⟨c, hvalid, _, _, hbehave⟩
  rcases (validate_eq_ok Lax.library_documented).mp hvalid with ⟨c', heq, hreads'⟩
  cases Checked.toDetails_injective heq
  have hstyle : c.indentStyle = "spaces".toList := by
    rcases hreads' .indentStyle with ⟨t, u, ht, hu, heq⟩
    cases ht
    rw [Value.text.inj heq]
    exact (Except.ok.inj hu).symm
  refine ⟨_, c, hs, hvalid, hbehave.mpr ?_⟩
  exact {
    indentation := by rw [hstyle]; rfl
    validateOutput := fun hword => by cases hword
    backups := fun hword => by cases hword
    maxFileSize := rfl }

/-- A width that was written as a text is accepted as a width of four, and gives no fallback. -/
theorem not_behaveAs_of_text (hlib : lib.Documented) (hcodecs : KnowsStandard codecs) :
    ∃ s c, ofDetails codecs lib [(Setting.indentWidth.key.toList, .text ['4'])] = .ok s ∧
      validate codecs lib s.toDetails = .ok c.toDetails ∧ c.indentWidth = 4 ∧
      s.fallback = .error .badKind ∧ ¬ BehaveAs s c := by
  have hreads : lib.Reads (Setting.fieldKind codecs .indentWidth) (.text ['4']) (.int 4) :=
    ⟨4, hlib.whole_digits 4 (by decide), by decide, by decide, rfl⟩
  rcases ofDetails_single hlib hcodecs hreads with ⟨hs, c, hvalid, hwidth⟩
  refine ⟨_, c, hs, hvalid, Value.int.inj hwidth, rfl, ?_⟩
  intro hbehave
  rcases hbehave.fallback with ⟨f, hf, _⟩
  cases hf

theorem not_behaveAs_of_word (hlib : lib.Documented) (hcodecs : KnowsStandard codecs) :
    ∃ s c, ofDetails codecs lib [(Setting.backups.key.toList, .ofString "no")] = .ok s ∧
      validate codecs lib s.toDetails = .ok c.toDetails ∧ c.backups = false ∧
      s.backups.isTruthy = true ∧ ¬ BehaveAs s c := by
  have hreads : lib.Reads (Setting.fieldKind codecs .backups) (.ofString "no") (.bool false) :=
    ⟨false, hlib.flag_no "no" (by decide), rfl⟩
  rcases ofDetails_single hlib hcodecs hreads with ⟨hs, c, hvalid, hbackups⟩
  refine ⟨_, c, hs, hvalid, Value.bool.inj hbackups, rfl, ?_⟩
  intro hbehave
  have hsame := hbehave.backups
  rw [Value.bool.inj hbackups] at hsame
  cases hsame

theorem not_behaveAs_of_text_width :
    (∃ s c, ofDetails Encoding.codecs Lax.library [(Setting.indentWidth.key.toList, .text ['4'])] =
        .ok s ∧
      validate Encoding.codecs Lax.library s.toDetails = .ok c.toDetails ∧ c.indentWidth = 4 ∧
      s.fallback = .error .badKind ∧ ¬ BehaveAs s c) ∧
    ∃ s c, ofDetails Encoding.codecs Lax.library [(Setting.backups.key.toList, .ofString "no")] =
        .ok s ∧
      validate Encoding.codecs Lax.library s.toDetails = .ok c.toDetails ∧ c.backups = false ∧
      s.backups.isTruthy = true ∧ ¬ BehaveAs s c :=
  ⟨not_behaveAs_of_text Lax.library_documented codecs_knowsStandard,
    not_behaveAs_of_word Lax.library_documented codecs_knowsStandard⟩

end Settings
end ForceTry

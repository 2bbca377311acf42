import ForceTry.Encoding.Basic
import ForceTry.Proofs.Computation
import ForceTry.Proofs.Settings.Documented
import ForceTry.Settings.Check

/-!
# Settings in range

Settings are in range when every value has the kind and the range that is declared for its setting.  Such
settings give an indentation unit and a placeholder that can be written out.  Whatever library checks them,
they are accepted, and every value is taken for one of its own kind.
-/

namespace ForceTry

namespace FieldKind

def Holds : FieldKind → Value → Prop
  | .text refine, v => ∃ t u, v = .text t ∧ refine t = .ok u
  | .flag, v => ∃ b, v = .bool b
  | .whole least greatest, v => ∃ n, v = .int n ∧ least ≤ n ∧ n ≤ greatest

variable {lib : SchemaLibrary} {kind : FieldKind} {v w : Value}

theorem reads_of_holds (hlib : lib.Documented) (h : kind.Holds v) :
    ∃ w, lib.Reads kind v w ∧ v.kind = w.kind := by
  cases kind with
  | text refine =>
      rcases h with ⟨t, u, rfl, hrefine⟩
      exact ⟨.text u, ⟨t, u, hlib.text_text t, hrefine, rfl⟩, rfl⟩
  | flag =>
      rcases h with ⟨b, rfl⟩
      exact ⟨.bool b, ⟨b, hlib.flag_bool b, rfl⟩, rfl⟩
  | whole least greatest =>
      rcases h with ⟨n, rfl, hleast, hgreatest⟩
      exact ⟨.int n, ⟨n, hlib.whole_int n, hleast, hgreatest, rfl⟩, rfl⟩

theorem holds_of_reads (hlib : lib.Documented) (h : lib.Reads kind v w) (hkind : v.kind = w.kind) :
    kind.Holds v := by
  cases kind with
  | text refine =>
      rcases h with ⟨t, u, htext, hrefine, rfl⟩
      cases v with
      | text t' =>
          rw [hlib.text_text] at htext
          cases htext
          exact ⟨t, u, rfl, hrefine⟩
      | other kind shown =>
          rw [hlib.text_other] at htext
          cases htext
      | _ => exact absurd hkind (by simp only [Value.kind]; decide)
  | flag =>
      rcases h with ⟨b, hflag, rfl⟩
      cases hlib.flag_form hflag with
      | bool => exact ⟨b, rfl⟩
      | _ => exact absurd hkind (by simp only [Value.kind]; decide)
  | whole least greatest =>
      rcases h with ⟨n, hwhole, hleast, hgreatest, rfl⟩
      cases v with
      | int m =>
          rw [hlib.whole_int] at hwhole
          cases hwhole
          exact ⟨n, rfl, hleast, hgreatest⟩
      | other kind shown =>
          rw [hlib.whole_other] at hwhole
          cases hwhole
      | _ => exact absurd hkind (by simp only [Value.kind]; decide)

end FieldKind

/-!
# What the check takes settings for
-/

/-- Settings of which every value has its kind. -/
structure Checked where
  indentStyle : Text
  indentWidth : Int
  placeholder : Text
  validateOutput : Bool
  maxFileSize : Int
  encoding : Text
  backups : Bool
  logLevel : Text
  deriving DecidableEq, Repr

namespace Checked

def get (c : Checked) : Setting → Value
  | .indentStyle => .text c.indentStyle
  | .indentWidth => .int c.indentWidth
  | .placeholder => .text c.placeholder
  | .validateOutput => .bool c.validateOutput
  | .maxFileSize => .int c.maxFileSize
  | .encoding => .text c.encoding
  | .backups => .bool c.backups
  | .logLevel => .text c.logLevel

def toDetails (c : Checked) : Details := Setting.all.map fun k => (k.key.toList, c.get k)

end Checked

theorem Checked.toDetails_injective {c c' : Checked} (h : c.toDetails = c'.toDetails) : c = c' := by
  cases c
  cases c'
  simp only [Checked.toDetails, Setting.all, List.map_cons, List.map_nil, List.cons.injEq, Prod.mk.injEq,
    Checked.get, true_and, and_true, Value.text.injEq, Value.int.injEq, Value.bool.injEq] at h
  rw [Checked.mk.injEq]
  exact h

namespace Settings

variable {codecs : Codecs} {lib : SchemaLibrary} {s : Settings} {c : Checked} {d r : Details}

theorem get?_toDetails (s : Settings) (k : Setting) :
    s.toDetails.get? k.key.toList = some (s.get k) := by
  cases k <;> rfl

theorem fills_toDetails {k : Setting} {e : Text × Value} :
    lib.Fills s.toDetails (k.field codecs) e ↔
      e.1 = k.key.toList ∧ lib.Reads (k.fieldKind codecs) (s.get k) e.2 := by
  have hget : s.toDetails.get? (k.field codecs).key = some (s.get k) := get?_toDetails s k
  simp only [SchemaLibrary.Fills, hget]
  rfl

/-- The entries of a record with one entry for each key are the values of a function. -/
theorem forall₂_entries_iff {P : Setting → Value → Prop} {ks : List Setting} (hnodup : ks.Nodup) :
    List.Forall₂ (fun k e => e.1 = k.key.toList ∧ P k e.2) ks r ↔
      ∃ w : Setting → Value, r = (ks.map fun k => (k.key.toList, w k)) ∧ ∀ k ∈ ks, P k (w k) := by
  induction ks generalizing r with
  | nil => simp
  | cons k ks ih =>
      rw [List.nodup_cons] at hnodup
      rw [List.forall₂_cons_left_iff]
      constructor
      · rintro ⟨⟨_, v⟩, r', ⟨rfl, hv⟩, hrest, rfl⟩
        rcases (ih hnodup.2).mp hrest with ⟨w, rfl, hw⟩
        have hother : ∀ k' ∈ ks, Function.update w k v k' = w k' := by
          intro k' hk'
          apply Function.update_of_ne
          rintro rfl
          exact hnodup.1 hk'
        refine ⟨Function.update w k v, ?_, ?_⟩
        · rw [List.map_cons, Function.update_self]
          congr 1
          exact List.map_congr_left fun k' hk' => by rw [hother k' hk']
        · rw [List.forall_mem_cons, Function.update_self]
          refine ⟨hv, fun k' hk' => ?_⟩
          rw [hother k' hk']
          exact hw k' hk'
      · rintro ⟨w, rfl, hw⟩
        rw [List.forall_mem_cons] at hw
        exact ⟨_, _, ⟨rfl, hw.1⟩, (ih hnodup.2).mpr ⟨w, rfl, hw.2⟩, rfl⟩

theorem mem_all (k : Setting) : k ∈ Setting.all := by
  cases k <;> decide

theorem exists_checked {v w : Setting → Value}
    (h : ∀ k, lib.Reads (k.fieldKind codecs) (v k) (w k)) : ∃ c : Checked, c.get = w := by
  rcases h .indentStyle with ⟨_, indentStyle, _, _, h₁⟩
  rcases h .indentWidth with ⟨indentWidth, _, _, _, h₂⟩
  rcases h .placeholder with ⟨_, placeholder, _, _, h₃⟩
  rcases h .validateOutput with ⟨validateOutput, _, h₄⟩
  rcases h .maxFileSize with ⟨maxFileSize, _, _, _, h₅⟩
  rcases h .encoding with ⟨_, encoding, _, _, h₆⟩
  rcases h .backups with ⟨backups, _, h₇⟩
  rcases h .logLevel with ⟨_, logLevel, _, _, h₈⟩
  refine ⟨⟨indentStyle, indentWidth, placeholder, validateOutput, maxFileSize, encoding, backups,
    logLevel⟩, ?_⟩
  funext k
  cases k
  exacts [h₁.symm, h₂.symm, h₃.symm, h₄.symm, h₅.symm, h₆.symm, h₇.symm, h₈.symm]

/-- The check accepts settings exactly when it takes every value for one that its setting may have. -/
theorem validate_eq_ok (hlib : lib.Documented) :
    validate codecs lib s.toDetails = .ok r ↔
      ∃ c : Checked, r = c.toDetails ∧ ∀ k, lib.Reads (k.fieldKind codecs) (s.get k) (c.get k) := by
  have hknown : ∀ e ∈ s.toDetails, ∃ f ∈ (Setting.schema codecs).fields, f.key = e.1 := by
    intro e he
    rcases List.mem_map.mp he with ⟨k, hk, rfl⟩
    exact ⟨k.field codecs, List.mem_map.mpr ⟨k, hk, rfl⟩, rfl⟩
  have hfields : (Setting.schema codecs).fields = Setting.all.map (Setting.field codecs) := rfl
  rw [validate, mapError_eq_ok, hlib.build_eq_ok, and_iff_right hknown, hfields,
    List.forall₂_map_left_iff]
  simp only [fills_toDetails]
  rw [forall₂_entries_iff (by decide)]
  constructor
  · rintro ⟨w, rfl, hw⟩
    have hreads : ∀ k, lib.Reads (k.fieldKind codecs) (s.get k) (w k) := fun k => hw k (mem_all k)
    rcases exists_checked hreads with ⟨c, rfl⟩
    exact ⟨c, rfl, hreads⟩
  · rintro ⟨c, rfl, hreads⟩
    exact ⟨c.get, rfl, fun k _ => hreads k⟩

/-!
# In range
-/

/-- Every value has the kind and the range that is declared for its setting. -/
def InRange (codecs : Codecs) (s : Settings) : Prop :=
  ∀ k : Setting, (k.fieldKind codecs).Holds (s.get k)

/-- Settings are in range exactly when the check accepts them and takes every value for one of its own
kind. -/
theorem inRange_iff (hlib : lib.Documented) : s.InRange codecs ↔
    ∃ c : Checked, validate codecs lib s.toDetails = .ok c.toDetails ∧
      ∀ k, (s.get k).kind = (c.get k).kind := by
  constructor
  · intro h
    choose w hreads hkinds using fun k => FieldKind.reads_of_holds hlib (h k)
    rcases exists_checked hreads with ⟨c, rfl⟩
    exact ⟨c, (validate_eq_ok hlib).mpr ⟨c, rfl, hreads⟩, hkinds⟩
  · rintro ⟨c, hvalid, hkinds⟩ k
    rcases (validate_eq_ok hlib).mp hvalid with ⟨c', heq, hreads⟩
    cases Checked.toDetails_injective heq
    exact FieldKind.holds_of_reads hlib (hreads k) (hkinds k)

variable (h : s.InRange codecs)
include h

theorem placeholder_of_inRange :
    ∃ t, s.placeholder = .text t ∧ Setting.looksLikePlaceholder t = true ∧ '\n' ∉ t := by
  rcases h .placeholder with ⟨t, u, htext, hcheck⟩
  refine ⟨t, htext, ?_⟩
  rw [Setting.checkPlaceholder] at hcheck
  split at hcheck
  · cases hcheck
  · next hlooks =>
      split at hcheck
      · cases hcheck
      · next hline => exact ⟨by simpa using hlooks, hline⟩

theorem indentWidth_of_inRange : ∃ n, s.indentWidth = .int n ∧ 1 ≤ n := by
  rcases h .indentWidth with ⟨n, hwidth, hleast, _⟩
  exact ⟨n, hwidth, hleast⟩

theorem maxFileSize_of_inRange : ∃ n, s.maxFileSize = .int n := by
  rcases h .maxFileSize with ⟨n, hsize, _⟩
  exact ⟨n, hsize⟩

theorem encoding_of_inRange :
    ∃ name coding, s.encoding = .text name ∧ codecs.lookup name = .ok coding := by
  rcases h .encoding with ⟨name, u, htext, hcheck⟩
  rw [Setting.checkEncoding] at hcheck
  split at hcheck
  · next coding hcoding => exact ⟨name, coding, htext, hcoding⟩
  · cases hcheck
  · cases hcheck

theorem fallback_of_inRange : ∃ f, s.fallback = .ok f ∧ f.writable = true := by
  rcases indentWidth_of_inRange h with ⟨n, hwidth, hn⟩
  have hofWidth : ∃ f, Fallback.ofWidth s.indentWidth = .ok f ∧ f.writable = true := by
    rw [hwidth, Fallback.ofWidth, IndentUnit.ofWidth?, if_neg (by omega)]
    exact ⟨_, rfl, rfl⟩
  unfold fallback
  split
  · split
    · exact ⟨_, rfl, rfl⟩
    · exact hofWidth
  · exact hofWidth

theorem writes_of_inRange (known : Option IndentUnit) : s.writes known = true := by
  rcases placeholder_of_inRange h with ⟨t, htext, _⟩
  rcases fallback_of_inRange h with ⟨f, hf, hwritable⟩
  rw [writes, htext, hf]
  simp [Value.isText, Except.toOption, hwritable]

omit h

/-!
# The standard settings
-/

def KnowsStandard (codecs : Codecs) : Prop := ∃ coding, codecs.lookup "utf-8".toList = .ok coding

theorem checkEncoding_of_lookup {name : Text} {coding : Coding} (h : codecs.lookup name = .ok coding) :
    Setting.checkEncoding codecs name = .ok name := by
  rw [Setting.checkEncoding, h]

theorem inRange_of_knowsStandard (hcodecs : KnowsStandard codecs) : standard.InRange codecs := by
  rcases hcodecs with ⟨coding, hcoding⟩
  intro k
  cases k with
  | indentStyle => exact ⟨_, _, rfl, rfl⟩
  | indentWidth => exact ⟨2, rfl, by decide, by decide⟩
  | placeholder => exact ⟨_, _, rfl, rfl⟩
  | validateOutput => exact ⟨true, rfl⟩
  | maxFileSize => exact ⟨10, rfl, by decide, by decide⟩
  | encoding => exact ⟨_, _, rfl, checkEncoding_of_lookup hcoding⟩
  | backups => exact ⟨true, rfl⟩
  | logLevel => exact ⟨_, _, rfl, rfl⟩

theorem codecs_knowsStandard : KnowsStandard Encoding.codecs := by
  have hfound : (Encoding.codecs.lookup "utf-8".toList).toOption.isSome = true := by
    decide +kernel
  rcases Option.isSome_iff_exists.mp hfound with ⟨coding, hcoding⟩
  exact ⟨coding, eq_ok_of_toOption hcoding⟩

theorem standard_inRange : standard.InRange Encoding.codecs :=
  inRange_of_knowsStandard codecs_knowsStandard

/-- Settings stay in range when one value is changed for another one that its setting may have. -/
theorem InRange.set (hs : s.InRange codecs) {k : Setting} {v : Value}
    (hv : (k.fieldKind codecs).Holds v) : (s.set k v).InRange codecs := by
  intro k'
  rw [get_set]
  split
  · next heq =>
      rw [heq]
      exact hv
  · exact hs k'

end Settings
end ForceTry

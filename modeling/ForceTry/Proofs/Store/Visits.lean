import ForceTry.Proofs.Store.Refactor

/-!
# Visiting files one after the other

Files are refactored in their order, each in the store that the ones before have left.  One visit
touches the place of its file and the place of the copy and no other.  A file that is visited once, and
whose copy no other visit touches, is found in its copy as it was before the first visit.
-/

namespace ForceTry
namespace Store

variable {host : Host} {s s' : Store} {settings : Settings} {plan : Plan} {p : Path}
  {l k : Location} {content : Bytes} {ps visited files : List Path}

def refactorAll (host : Host) (plan : Plan) (s : Store) (ps : List Path) : Store :=
  ps.foldl (fun s p => (s.refactor host plan p).1) s

/-- The place is the one of the file of a path, or the one of its copy. -/
def Touches (s : Store) (p : Path) (k : Location) : Prop :=
  s.locate p = .ok k ∨ s.locate (s.backupPath p) = .ok k

/-- Among the paths is one that shares no place with any other. -/
def VisitedOnce (s : Store) (ps : List Path) (p : Path) : Prop :=
  ∃ before behind, ps = before ++ p :: behind ∧
    ∀ q ∈ before ++ behind, ∀ k, s.Touches p k → ¬ s.Touches q k

theorem touches_iff (h : SameDirectories s s') : s.Touches p k ↔ s'.Touches p k := by
  rw [Touches, Touches, h.backupPath p, h.locate p k, h.locate _ k]

theorem BreaksOff.rewritten {codec : Codec} {before : Bytes} {new : Text} {f : FileFault}
    (h : BreaksOff host s settings p codec before new s' f) :
    ∃ copy after, (copy = before ∨ after = before) ∧
      s.Rewritten s' settings p before copy after := by
  cases h with
  | copying _ _ _ hrewritten => exact ⟨_, _, .inr rfl, hrewritten⟩
  | opening _ _ _ hrewritten => exact ⟨_, _, .inl rfl, hrewritten⟩
  | writing _ _ _ _ hrewritten => exact ⟨_, _, .inl rfl, hrewritten⟩

theorem refactor_step (host : Host) (s : Store) (plan : Plan) (p : Path) :
    (s.refactor host plan p).1 = s ∨
      ∃ before copy after, (copy = before ∨ after = before) ∧
        s.Rewritten (s.refactor host plan p).1 plan.settings p before copy after := by
  rw [refactor]
  split
  · exact .inl rfl
  · exact .inl rfl
  · next old hsmall =>
      rcases reads_of_readSmall hsmall with ⟨codec, before, hreads⟩
      split
      · exact .inl rfl
      · next new metadata _ =>
          by_cases hchanged : plan.inPlace = true ∧ new ≠ old
          · rcases @finish_of_changed host s plan p old new metadata hchanged with ⟨_, _, _, hfinish⟩
            rw [hfinish]
            rcases replace_cases hreads new with ⟨f, hreplace⟩ | ⟨s₁, f, hreplace, hbreaks⟩ |
              ⟨s₁, bytes, _, hreplace, hrewritten⟩ | ⟨s₁, w, _, _, hreplace, hrewritten⟩ <;>
              rw [hreplace]
            · exact .inl rfl
            · exact .inr ⟨before, hbreaks.rewritten⟩
            · exact .inr ⟨before, before, bytes, .inl rfl, hrewritten⟩
            · exact .inr ⟨before, before, [], .inl rfl, hrewritten⟩
          · rcases @finish_of_kept host s plan p old new metadata hchanged with ⟨_, hfinish, _⟩
            rw [hfinish]
            exact .inl rfl
      · exact .inl rfl
      · exact .inl rfl

theorem refactor_frame (host : Host) (s : Store) (plan : Plan) (p : Path) :
    SameDirectories s (s.refactor host plan p).1 ∧
      ∀ k, (s.refactor host plan p).1.get? k ≠ s.get? k → s.Touches p k := by
  rcases refactor_step host s plan p with heq | ⟨before, copy, after, _, hrewritten⟩
  · rw [heq]
    exact ⟨.refl s, fun k hk => absurd rfl hk⟩
  · refine ⟨hrewritten.directories, fun k hk => ?_⟩
    rcases hrewritten.frame k hk with hfile | ⟨_, hcopy⟩
    · exact .inl hfile
    · exact .inr hcopy

theorem refactorAll_cons : refactorAll host plan s (p :: ps) = refactorAll host plan (s.refactor host plan p).1 ps :=
  rfl

theorem refactorAll_append :
    refactorAll host plan s (visited ++ ps) = refactorAll host plan (refactorAll host plan s visited) ps :=
  List.foldl_append

theorem refactorAll_frame (host : Host) (plan : Plan) (s : Store) (ps : List Path) :
    SameDirectories s (refactorAll host plan s ps) ∧
      ∀ k, (refactorAll host plan s ps).get? k ≠ s.get? k → ∃ p ∈ ps, s.Touches p k := by
  induction ps generalizing s with
  | nil => exact ⟨.refl s, fun k hk => absurd rfl hk⟩
  | cons p ps ih =>
      rcases refactor_frame host s plan p with ⟨hsame, hframe⟩
      rcases ih (s.refactor host plan p).1 with ⟨hsame', hframe'⟩
      rw [refactorAll_cons]
      refine ⟨hsame.trans hsame', fun k hk => ?_⟩
      by_cases hfirst : (s.refactor host plan p).1.get? k = s.get? k
      · rw [← hfirst] at hk
        rcases hframe' k hk with ⟨q, hq, htouches⟩
        exact ⟨q, List.mem_cons_of_mem p hq, (touches_iff hsame).mpr htouches⟩
      · exact ⟨p, List.mem_cons_self, hframe k hfirst⟩

theorem read_refactorAll (h : ∀ q ∈ ps, ∀ k, s.locate p = .ok k → ¬ s.Touches q k) :
    (refactorAll host plan s ps).read p = .ok content ↔ s.read p = .ok content := by
  rcases refactorAll_frame host plan s ps with ⟨hsame, hframe⟩
  rw [read_eq_ok, read_eq_ok]
  refine exists_congr fun l => ?_
  rw [← hsame.locate p l]
  refine and_congr_right fun hl => ?_
  have hget : (refactorAll host plan s ps).get? l = s.get? l := by
    by_contra hchanged
    rcases hframe l hchanged with ⟨q, hq, htouches⟩
    exact h q hq l hl htouches
  rw [hget]

/-!
# Files that are visited once
-/

/-- A part of the visits ends before the file is visited, or visits it once as well. -/
theorem VisitedOnce.of_prefix (h : s.VisitedOnce files p) (hpart : ps <+: files) :
    (∀ q ∈ ps, ∀ k, s.Touches p k → ¬ s.Touches q k) ∨ s.VisitedOnce ps p := by
  rcases h with ⟨before, behind, rfl, halone⟩
  rcases hpart with ⟨rest, heq⟩
  rcases List.append_eq_append_iff.mp heq with ⟨mid, rfl, _⟩ | ⟨mid, rfl, hmid⟩
  · exact .inl fun q hq => halone q (by simp [hq])
  · cases mid with
    | nil =>
        rw [List.append_nil]
        exact .inl fun q hq => halone q (List.mem_append_left _ hq)
    | cons q mid =>
        rw [List.cons_append, List.cons.injEq] at hmid
        rcases hmid with ⟨rfl, rfl⟩
        refine .inr ⟨before, mid, rfl, fun q hq => halone q ?_⟩
        rw [← List.append_assoc]
        exact List.mem_append_left rest hq

theorem refactorAll_copied (hbackups : plan.settings.backups.isTruthy = true)
    (h : s.VisitedOnce ps p) (hread : s.read p = .ok content)
    (hchanged : (refactorAll host plan s ps).read p ≠ .ok content) :
    (refactorAll host plan s ps).read (s.backupPath p) = .ok content := by
  rcases h with ⟨before, behind, rfl, halone⟩
  rw [refactorAll_append, refactorAll_cons] at hchanged ⊢
  have hsame := (refactorAll_frame host plan s before).1
  have hread₁ : (refactorAll host plan s before).read p = .ok content :=
    (read_refactorAll fun q hq k hk => halone q (List.mem_append_left _ hq) k (.inl hk)).mpr hread
  generalize refactorAll host plan s before = s₁ at hsame hread₁ hchanged ⊢
  have hsame₂ := hsame.trans (refactor_frame host s₁ plan p).1
  have hbehind : ∀ q ∈ behind, ∀ k, s.Touches p k → ¬ (s₁.refactor host plan p).1.Touches q k := by
    intro q hq k hk htouches
    exact halone q (List.mem_append_right _ hq) k hk ((touches_iff hsame₂).mpr htouches)
  rw [read_refactorAll fun q hq k hk => hbehind q hq k (.inr ((hsame₂.locate _ k).mpr hk))]
  rw [Ne, read_refactorAll fun q hq k hk => hbehind q hq k (.inl ((hsame₂.locate _ k).mpr hk))]
    at hchanged
  rcases refactor_step host s₁ plan p with heq | ⟨before', copy, after, hwhole, hrewritten⟩
  · rw [heq] at hchanged
    exact absurd hread₁ hchanged
  · have hcopy := hrewritten.copy hbackups
    have hold := hrewritten.old
    rw [hread₁] at hold
    cases hold
    rw [hsame.backupPath p, hcopy]
    rcases hwhole with rfl | rfl
    · rfl
    · exact absurd hrewritten.file hchanged

end Store
end ForceTry

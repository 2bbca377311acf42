import ForceTry.Proofs.Computation
import ForceTry.Store.Refactor

/-!
# Places of files

Where a path leads depends on nothing but where the directories are.  A file written to a place
without a directory leaves the directories where they are, so that all paths lead where they led
before; and the copy of a file never comes to the place of the file itself.
-/

namespace ForceTry
namespace Store

variable {s s' s'' : Store} {p : Path} {path path' : Text} {k l b : Location} {names : List Text}
  {n : Text} {content : Bytes} {device : Device}

/-!
# Following paths
-/

theorem follow_cons_eq_ok :
    s.follow path k (n :: names) = .ok l ↔ s.get? k = some .directory ∧
      s.follow path (if n = Path.above then k.dropLast else k ++ [n]) names = .ok l := by
  rw [follow]
  split
  · next hnone => simp [hnone]
  · next hfile => simp [hfile]
  · next hdirectory => simp [hdirectory]

theorem follow_concat_eq_ok :
    s.follow path k (names ++ [n]) = .ok l ↔ ∃ d, s.follow path k names = .ok d ∧
      s.get? d = some .directory ∧ l = if n = Path.above then d.dropLast else d ++ [n] := by
  induction names generalizing k with
  | nil =>
      rw [List.nil_append, follow_cons_eq_ok]
      simp only [follow, Except.ok.injEq]
      constructor
      · rintro ⟨hk, rfl⟩
        exact ⟨k, rfl, hk, rfl⟩
      · rintro ⟨d, rfl, hk, rfl⟩
        exact ⟨hk, rfl⟩
  | cons n' names ih =>
      rw [List.cons_append, follow_cons_eq_ok, ih]
      constructor
      · rintro ⟨hk, d, hd, hrest⟩
        exact ⟨d, follow_cons_eq_ok.mpr ⟨hk, hd⟩, hrest⟩
      · rintro ⟨d, hd, hrest⟩
        rw [follow_cons_eq_ok] at hd
        exact ⟨hd.1, d, hd.2, hrest⟩

theorem follow_of_directories
    (h : ∀ k, s.get? k = some .directory → s'.get? k = some .directory)
    (hfollow : s.follow path k names = .ok l) : s'.follow path' k names = .ok l := by
  induction names generalizing k with
  | nil => exact hfollow
  | cons n names ih =>
      rw [follow_cons_eq_ok] at hfollow ⊢
      exact ⟨h k hfollow.1, ih hfollow.2⟩

structure SameDirectories (s s' : Store) : Prop where
  home : s.home = s'.home
  directory : ∀ l, s.get? l = some .directory ↔ s'.get? l = some .directory

namespace SameDirectories

theorem refl (s : Store) : SameDirectories s s := ⟨rfl, fun _ => Iff.rfl⟩

theorem symm (h : SameDirectories s s') : SameDirectories s' s :=
  ⟨h.home.symm, fun l => (h.directory l).symm⟩

theorem trans (h : SameDirectories s s') (h' : SameDirectories s' s'') : SameDirectories s s'' :=
  ⟨h.home.trans h'.home, fun l => (h.directory l).trans (h'.directory l)⟩

theorem locate (h : SameDirectories s s') (p : Path) (l : Location) :
    s.locate p = .ok l ↔ s'.locate p = .ok l := by
  rw [Store.locate, Store.locate, h.home]
  exact ⟨follow_of_directories fun k => (h.directory k).mp,
    follow_of_directories fun k => (h.directory k).mpr⟩

end SameDirectories

/-!
# Reading and writing
-/

theorem stat_eq_ok {e : Entry} : s.stat p = .ok e ↔ ∃ l, s.locate p = .ok l ∧ s.get? l = some e := by
  rw [stat, bind_eq_ok]
  constructor
  · rintro ⟨l, hl, h⟩
    split at h
    · next e' he =>
        cases h
        exact ⟨l, hl, he⟩
    · cases h
  · rintro ⟨l, hl, he⟩
    refine ⟨l, hl, ?_⟩
    rw [he]

theorem read_eq_ok :
    s.read p = .ok content ↔ ∃ l, s.locate p = .ok l ∧ s.get? l = some (.file content) := by
  rw [read, bind_eq_ok]
  constructor
  · rintro ⟨e, hstat, h⟩
    cases e with
    | directory => cases h
    | file content' =>
        cases h
        exact stat_eq_ok.mp hstat
  · intro h
    exact ⟨_, stat_eq_ok.mpr h, rfl⟩

theorem permit_eq_ok {a : Access} : device.permit a s l = .ok () ↔ device.refuses? a s l = none := by
  rw [Device.permit]
  split <;> simp_all

theorem look_eq_ok {e : Entry} : s.look device p = .ok e ↔
    s.stat p = .ok e ∧ ∃ l, s.locate p = .ok l ∧ device.refuses? .look s l = none := by
  simp only [look, bind_eq_ok, ← permit_eq_ok]
  constructor
  · rintro ⟨e', he, l, hl, _, hpermit, heq⟩
    cases heq
    exact ⟨he, l, hl, hpermit⟩
  · rintro ⟨he, l, hl, hpermit⟩
    exact ⟨e, he, l, hl, (), hpermit, rfl⟩

theorem fetch_eq_ok {a : Access} : s.fetch device a p = .ok content ↔
    s.read p = .ok content ∧ ∃ l, s.locate p = .ok l ∧ device.refuses? a s l = none := by
  simp only [fetch, bind_eq_ok, ← permit_eq_ok]
  constructor
  · rintro ⟨content', hcontent, l, hl, _, hpermit, heq⟩
    cases heq
    exact ⟨hcontent, l, hl, hpermit⟩
  · rintro ⟨hcontent, l, hl, hpermit⟩
    exact ⟨content, hcontent, l, hl, (), hpermit, rfl⟩

theorem place_eq_ok : s.place device p = .ok l ↔
    s.locate p = .ok l ∧ s.get? l ≠ some .directory ∧ device.refuses? .write s l = none := by
  simp only [place, bind_eq_ok, ← permit_eq_ok]
  constructor
  · rintro ⟨l', hl, h⟩
    split at h
    · cases h
    · next hdirectory =>
        rcases bind_eq_ok.mp h with ⟨_, hpermit, heq⟩
        cases heq
        exact ⟨hl, hdirectory, hpermit⟩
  · rintro ⟨hl, hdirectory, hpermit⟩
    refine ⟨l, hl, ?_⟩
    rw [if_neg hdirectory, hpermit]
    rfl

theorem place_of_not_directory (hl : s.locate p = .ok l) (hplace : s.get? l ≠ some .directory) :
    s.place device p = match device.refuses? .write s l with
      | some f => .error f
      | none => .ok l := by
  rw [place, hl]
  show (if s.get? l = some .directory then _ else _) = _
  rw [if_neg hplace, Device.permit]
  cases device.refuses? .write s l with
  | some f => rfl
  | none => rfl

theorem isDirectory_iff :
    s.isDirectory p = true ↔ ∃ l, s.locate p = .ok l ∧ s.get? l = some .directory := by
  rw [← stat_eq_ok, isDirectory]
  split
  · next h => simp [h]
  · next h => simpa using h

theorem ne_nil_of_not_directory (hl : s.get? l ≠ some .directory) : l ≠ [] := by
  rintro rfl
  exact hl rfl

theorem putIn_putIn (l : Location) (e e' : Entry) (es : List (Location × Entry)) :
    putIn l e' (putIn l e es) = putIn l e' es := by
  induction es with
  | nil => simp [putIn]
  | cons d rest ih =>
      obtain ⟨k, d⟩ := d
      by_cases hk : k = l <;> simp [putIn, hk, ih]

theorem put_put (s : Store) (l : Location) (e e' : Entry) : (s.put l e).put l e' = s.put l e' := by
  rw [put, put, put, putIn_putIn]

theorem get?_put_self (hl : s.get? l ≠ some .directory) (e : Entry) :
    (s.put l e).get? l = some e := by
  rw [get?_put s (ne_nil_of_not_directory hl), if_pos rfl]

theorem get?_put_of_ne (hl : s.get? l ≠ some .directory) (hk : k ≠ l) (e : Entry) :
    (s.put l e).get? k = s.get? k := by
  rw [get?_put s (ne_nil_of_not_directory hl), if_neg hk]

theorem sameDirectories_put (hl : s.get? l ≠ some .directory) (content : Bytes) :
    SameDirectories s (s.put l (.file content)) := by
  refine ⟨rfl, fun k => ?_⟩
  by_cases hk : k = l
  · rw [hk, get?_put_self hl]
    simp [hl]
  · rw [get?_put_of_ne hl hk]

/-!
# Copies
-/

theorem SameDirectories.backupPath (h : SameDirectories s s') (p : Path) :
    s.backupPath p = s'.backupPath p := by
  have hsame : s.isDirectory (p.addEnding backupEnding) = s'.isDirectory (p.addEnding backupEnding) := by
    rw [Bool.eq_iff_iff, isDirectory_iff, isDirectory_iff]
    exact exists_congr fun l => and_congr (h.locate _ l) (h.directory l)
  rw [Store.backupPath, Store.backupPath, hsame]

theorem addEnding_ne_above (n : Text) : n ++ backupEnding ≠ Path.above := by
  intro h
  have hlength := congrArg List.length h
  rw [List.length_append, show backupEnding.length = 4 from rfl,
    show Path.above.length = 2 from rfl] at hlength
  omega

theorem addEnding_ne_self (n : Text) : n ++ backupEnding ≠ n := by
  intro h
  have hlength := congrArg List.length h
  rw [List.length_append, show backupEnding.length = 4 from rfl] at hlength
  omega

/-- The copy of a file goes to the place beside the file under the longer name, or into the directory
that stands there. -/
theorem copy_place (hb : s.locate (s.backupPath p) = .ok b) (hcopy : s.get? b ≠ some .directory) :
    ∃ d, s.get? d = some .directory ∧
      s.follow p.text (if p.rooted then [] else s.home) p.names.dropLast = .ok d ∧
      (b = d ++ [p.name ++ backupEnding] ∨ b = d ++ [p.name ++ backupEnding, p.name]) := by
  rw [backupPath] at hb
  split at hb
  · have hnames : ((p.addEnding backupEnding).within [p.name]).names =
        p.names.dropLast ++ [p.name ++ backupEnding] ++ [p.name] := rfl
    rw [locate, hnames, follow_concat_eq_ok] at hb
    rcases hb with ⟨d', hd', hdirectory', rfl⟩
    rw [follow_concat_eq_ok] at hd'
    rcases hd' with ⟨d, hd, hdirectory, rfl⟩
    rw [if_neg (addEnding_ne_above p.name)] at hcopy ⊢
    refine ⟨d, hdirectory, follow_of_directories (fun _ => id) hd, ?_⟩
    split at hcopy
    · -- the name leads back to the directory where the file would be copied to
      rw [List.dropLast_concat] at hcopy
      exact absurd hdirectory hcopy
    · next hname =>
        right
        rw [if_neg hname, List.append_assoc]
        rfl
  · rw [locate, show (p.addEnding backupEnding).names =
      p.names.dropLast ++ [p.name ++ backupEnding] from rfl, follow_concat_eq_ok] at hb
    rcases hb with ⟨d, hd, hdirectory, rfl⟩
    rw [if_neg (addEnding_ne_above p.name)]
    exact ⟨d, hdirectory, follow_of_directories (fun _ => id) hd, .inl rfl⟩

theorem copy_ne (hl : s.locate p = .ok l) (hfile : s.get? l ≠ some .directory)
    (hb : s.locate (s.backupPath p) = .ok b) (hcopy : s.get? b ≠ some .directory) : b ≠ l := by
  rcases copy_place hb hcopy with ⟨d, hdirectory, hd, hplace⟩
  rw [locate] at hl
  rcases List.eq_nil_or_concat p.names with hnil | ⟨names, n, hnames⟩
  · -- a path without names leads to the place where it starts, and there is a directory
    rw [hnil] at hl hd
    rw [List.dropLast_nil, hl] at hd
    cases hd
    exact absurd hdirectory hfile
  · rw [List.concat_eq_append] at hnames
    rw [hnames, follow_concat_eq_ok] at hl
    rcases hl with ⟨d', hd', _, rfl⟩
    rw [hnames, List.dropLast_concat, hd'] at hd
    cases hd
    have hname : p.name = n := by rw [Path.name, hnames, List.getLast?_concat]; rfl
    rw [hname] at hplace
    rintro rfl
    split at hplace
    · -- the file is in the directory above, and its copy would be below `d`
      have hlonger : d.length < d.dropLast.length := by
        rcases hplace with heq | heq <;> rw [heq] <;> simp
      rw [List.length_dropLast] at hlonger
      omega
    · rcases hplace with heq | heq <;> rw [List.append_cancel_left_eq] at heq
      · exact addEnding_ne_self n (List.singleton_inj.mp heq).symm
      · simp at heq

end Store
end ForceTry

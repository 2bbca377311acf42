import ForceTry.Proofs.Refactor.Candidates
import ForceTry.Proofs.Store.Reading

/-!
# What refactoring does to files

A file is opened, its text is refactored, and the new text goes back to the file behind a copy.  The
store changes in the last step only, so that every other ending leaves it as it was.  The file is emptied
before its new text is encoded and written: it stays empty when the encoding cannot write this text, and
holds a part of the bytes when the file system fails on the way.
-/

namespace ForceTry

namespace Details

variable {d : Details} {name name' : Text} {v : Value}

theorem get?_put : (d.put name v).get? name' = if name' = name then some v else d.get? name' := by
  induction d with
  | nil =>
      by_cases h : name' = name
      · simp [put, get?, h]
      · simp [put, get?, h, Ne.symm h]
  | cons e rest ih =>
      obtain ⟨n, w⟩ := e
      rw [put]
      split
      · next hn =>
          by_cases h : name' = name
          · simp [get?, h, hn]
          · simp [get?, h, hn, Ne.symm h]
      · next hn =>
          rw [get?, get?] at ih
          by_cases h : n = name'
          · subst h
            simp [get?, hn]
          · simp [get?, h, ih]

theorem putAll_nil : d.putAll [] = d := rfl

theorem putAll_cons (more : Details) : d.putAll ((name, v) :: more) = (d.put name v).putAll more := rfl

end Details

namespace Outcome

def Written (o : Outcome Text) : Prop :=
  o.isSuccess = true ∧ o.metadata.get? "written".toList = some (.bool true)

instance (o : Outcome Text) : Decidable o.Written :=
  decidable_of_iff (o.isSuccess = true ∧ (match o.metadata.get? "written".toList with
      | some (.bool b) => b
      | _ => false) = true) <| by
    refine and_congr_right fun _ => ?_
    split
    · next b h => rw [h]; simp
    · next h => simpa using h true

end Outcome

namespace Store

open ForceTry.Refactor ForceTry.Tree

variable {host : Host} {s s' s₁ : Store} {settings : Settings} {plan : Plan} {p : Path}
  {l b : Location} {codec : Codec} {before copy bytes : Bytes} {old new : Text} {metadata : Details}
  {answer : Except Fault (Outcome Text)}

/-!
# Copies
-/

/-- The store in which bytes have gone to the place of the copy of a file, if the settings ask for
one. -/
inductive Copied (s : Store) (settings : Settings) (p : Path) (l : Location) (copy : Bytes) :
    Store → Prop
  | plain (h : settings.backups.isTruthy = false) : Copied s settings p l copy s
  | copy {b : Location} (h : settings.backups.isTruthy = true)
      (hb : s.locate (s.backupPath p) = .ok b) (hplace : s.get? b ≠ some .directory) (hne : b ≠ l) :
      Copied s settings p l copy (s.put b (.file copy))

namespace Copied

theorem directories (h : Copied s settings p l copy s₁) : SameDirectories s s₁ := by
  cases h with
  | plain _ => exact .refl s
  | copy _ _ hplace _ => exact sameDirectories_put hplace copy

theorem get?_eq (h : Copied s settings p l copy s₁) : s₁.get? l = s.get? l := by
  cases h with
  | plain _ => rfl
  | copy _ _ hplace hne => exact get?_put_of_ne hplace (Ne.symm hne) _

theorem place (h : Copied s settings p l copy s₁) (hbackups : settings.backups.isTruthy = true) :
    ∃ b, s.locate (s.backupPath p) = .ok b ∧ b ≠ l ∧ s₁.get? b = some (.file copy) := by
  cases h with
  | plain hplain =>
      rw [hbackups] at hplain
      cases hplain
  | @copy b _ hb hplace hne => exact ⟨b, hb, hne, get?_put_self hplace _⟩

theorem frame (h : Copied s settings p l copy s₁) {k : Location} (hk : s₁.get? k ≠ s.get? k) :
    settings.backups.isTruthy = true ∧ s.locate (s.backupPath p) = .ok k := by
  cases h with
  | plain _ => exact absurd rfl hk
  | @copy b hbackups hb hplace _ =>
      by_cases hkb : k = b
      · rw [hkb]
        exact ⟨hbackups, hb⟩
      · exact absurd (get?_put_of_ne hplace hkb _) hk

end Copied

theorem not_directory_of_file (hfile : s.get? l = some (.file before)) :
    s.get? l ≠ some .directory := by
  rw [hfile]
  simp

/-- Making the copy is refused, or breaks off behind a part of the bytes, or succeeds. -/
theorem secure_cases (hl : s.locate p = .ok l) (hfile : s.get? l = some (.file before)) :
    (∃ f, s.secure host settings p = (s, .error f)) ∨
    (∃ s₁ b n f, settings.backups.isTruthy = true ∧ s.locate (s.backupPath p) = .ok b ∧
      host.device.breaksOff? s b before = some (n, f) ∧
      Copied s settings p l (before.take n) s₁ ∧ s.secure host settings p = (s₁, .error f)) ∨
    ∃ s₁, Copied s settings p l before s₁ ∧ s.secure host settings p = (s₁, .ok ()) := by
  rw [secure]
  split
  · next hbackups =>
      rw [backUp]
      split
      · next f _ => exact .inl ⟨f, rfl⟩
      · next f _ _ => exact .inl ⟨f, rfl⟩
      · next content b hcontent hb =>
          have hread := (fetch_eq_ok.mp hcontent).1
          rw [read_eq_ok.mpr ⟨l, hl, hfile⟩] at hread
          cases hread
          rcases place_eq_ok.mp hb with ⟨hb, hplace, _⟩
          have hne := copy_ne hl (not_directory_of_file hfile) hb hplace
          rw [fill]
          split
          · exact .inr (.inr ⟨_, .copy hbackups hb hplace hne, rfl⟩)
          · next n f hfault =>
              exact .inr (.inl ⟨_, b, n, f, hbackups, hb, hfault, .copy hbackups hb hplace hne, rfl⟩)
  · next hplain => exact .inr (.inr ⟨s, .plain (Bool.not_eq_true _ ▸ hplain), rfl⟩)

/-!
# Replacing the text of a file
-/

/-- The file of a path holds new bytes, the place of its copy some others, if the settings ask for
copies, and all else is as it was. -/
structure Rewritten (s s' : Store) (settings : Settings) (p : Path) (before copy after : Bytes) :
    Prop where
  directories : SameDirectories s s'
  old : s.read p = .ok before
  file : s'.read p = .ok after
  copy : settings.backups.isTruthy = true → s'.read (s.backupPath p) = .ok copy
  frame : ∀ k, s'.get? k ≠ s.get? k → s.locate p = .ok k ∨
    (settings.backups.isTruthy = true ∧ s.locate (s.backupPath p) = .ok k)

/-- The file was copied, if the settings ask for that, and opened for writing. -/
def Opened (host : Host) (s : Store) (settings : Settings) (p : Path) : Prop :=
  ∃ s₁ l, s.secure host settings p = (s₁, .ok ()) ∧ s₁.place host.device p = .ok l

/-- What is left when the file system fails while a text is written back. -/
inductive BreaksOff (host : Host) (s : Store) (settings : Settings) (p : Path) (codec : Codec)
    (before : Bytes) (new : Text) : Store → FileFault → Prop
  | copying {s' : Store} {b : Location} {n : Nat} {f : FileFault}
      (hbackups : settings.backups.isTruthy = true) (hb : s.locate (s.backupPath p) = .ok b)
      (hfault : host.device.breaksOff? s b before = some (n, f))
      (hrewritten : s.Rewritten s' settings p before (before.take n) before) :
      BreaksOff host s settings p codec before new s' f
  | opening {s' : Store} {l : Location} {f : FileFault}
      (hsecure : s.secure host settings p = (s', .ok ())) (hl : s.locate p = .ok l)
      (hfault : host.device.refuses? .write s' l = some f)
      (hrewritten : s.Rewritten s' settings p before before before) :
      BreaksOff host s settings p codec before new s' f
  | writing {s' s₁ : Store} {l : Location} {bytes : Bytes} {n : Nat} {f : FileFault}
      (hopened : Opened host s settings p) (hl : s.locate p = .ok l)
      (hencode : codec.encode new = .ok bytes)
      (hfault : host.device.breaksOff? s₁ l bytes = some (n, f))
      (hrewritten : s.Rewritten s' settings p before before (bytes.take n)) :
      BreaksOff host s settings p codec before new s' f

theorem kept_of_copied (hl : s.locate p = .ok l) (hfile : s.get? l = some (.file before))
    (hcopied : Copied s settings p l copy s₁) : Rewritten s s₁ settings p before copy before := by
  have hsame := hcopied.directories
  refine ⟨hsame, read_eq_ok.mpr ⟨l, hl, hfile⟩, ?_, ?_, fun k hk => .inr (hcopied.frame hk)⟩
  · exact read_eq_ok.mpr ⟨l, (hsame.locate p l).mp hl, hcopied.get?_eq.trans hfile⟩
  · intro hbackups
    rcases hcopied.place hbackups with ⟨b, hb, _, hcopy⟩
    exact read_eq_ok.mpr ⟨b, (hsame.locate _ b).mp hb, hcopy⟩

theorem rewritten_of_copied (hl : s.locate p = .ok l) (hfile : s.get? l = some (.file before))
    (hcopied : Copied s settings p l copy s₁) (after : Bytes) :
    Rewritten s (s₁.put l (.file after)) settings p before copy after := by
  have hplace : s₁.get? l ≠ some .directory := by
    rw [hcopied.get?_eq]
    exact not_directory_of_file hfile
  have hsame := hcopied.directories.trans (sameDirectories_put hplace after)
  refine ⟨hsame, read_eq_ok.mpr ⟨l, hl, hfile⟩, ?_, ?_, ?_⟩
  · exact read_eq_ok.mpr ⟨l, (hsame.locate p l).mp hl, get?_put_self hplace _⟩
  · intro hbackups
    rcases hcopied.place hbackups with ⟨b, hb, hne, hcopy⟩
    refine read_eq_ok.mpr ⟨b, (hsame.locate _ b).mp hb, ?_⟩
    rw [get?_put_of_ne hplace hne, hcopy]
  · intro k hk
    by_cases hkl : k = l
    · rw [hkl]
      exact .inl hl
    · rw [get?_put_of_ne hplace hkl] at hk
      exact .inr (hcopied.frame hk)

theorem writeText_of_names (hnames : Names host.codecs settings codec) (hl : s.locate p = .ok l)
    (hplace : s.get? l ≠ some .directory) (new : Text) :
    s.writeText host settings.encoding p new = match host.device.refuses? .write s l with
      | some f => (s, .error (.fileSystem f))
      | none => match codec.encode new with
        | .error w => (s.put l (.file []), .error (Fault.ofWrite w))
        | .ok bytes => match host.device.breaksOff? (s.put l (.file [])) l bytes with
          | some (n, f) => (s.put l (.file (bytes.take n)), .error (.fileSystem f))
          | none => (s.put l (.file bytes), .ok ()) := by
  rcases hnames with ⟨name, hname, hcodec⟩
  rw [writeText, hname, place_of_not_directory hl hplace]
  cases host.device.refuses? .write s l with
  | some f => rfl
  | none =>
      simp only [hcodec]
      cases codec.encode new with
      | error w => rfl
      | ok bytes =>
          simp only [fill, put_put]
          cases host.device.breaksOff? (s.put l (.file [])) l bytes with
          | none => rfl
          | some fault => rfl

/-- Replacing the text of a file is refused at the copy, or breaks off, or writes the text, or leaves
the file empty because the encoding cannot write the text. -/
theorem replace_cases (h : s.Reads host settings p codec before old) (new : Text) :
    (∃ f, s.replace host settings p new = (s, .error (.fileSystem f))) ∨
    (∃ s' f, s.replace host settings p new = (s', .error (.fileSystem f)) ∧
      BreaksOff host s settings p codec before new s' f) ∨
    (∃ s' bytes, codec.encode new = .ok bytes ∧ s.replace host settings p new = (s', .ok ()) ∧
      s.Rewritten s' settings p before before bytes) ∨
    ∃ s' w, Opened host s settings p ∧ codec.encode new = .error w ∧
      s.replace host settings p new = (s', .error (Fault.ofWrite w)) ∧
      s.Rewritten s' settings p before before [] := by
  rcases read_eq_ok.mp (read_of_opens h.opens) with ⟨l, hl, hfile⟩
  rw [replace]
  rcases @secure_cases host s settings p l before hl hfile with
    ⟨f, hsecure⟩ | ⟨s₁, b, n, f, hbackups, hb, hfault, hcopied, hsecure⟩ | ⟨s₁, hcopied, hsecure⟩
  · rw [hsecure]
    exact .inl ⟨f, rfl⟩
  · rw [hsecure]
    exact .inr (.inl ⟨s₁, f, rfl, .copying hbackups hb hfault (kept_of_copied hl hfile hcopied)⟩)
  have hl₁ := (hcopied.directories.locate p l).mp hl
  have hplace : s₁.get? l ≠ some .directory := by
    rw [hcopied.get?_eq]
    exact not_directory_of_file hfile
  have hrewritten := rewritten_of_copied hl hfile hcopied
  rw [hsecure]
  simp only [writeText_of_names h.names hl₁ hplace]
  cases hrefuses : host.device.refuses? .write s₁ l with
  | some f =>
      exact .inr (.inl ⟨s₁, f, rfl, .opening hsecure hl hrefuses (kept_of_copied hl hfile hcopied)⟩)
  | none =>
      have hopened : Opened host s settings p :=
        ⟨s₁, l, hsecure, place_eq_ok.mpr ⟨hl₁, hplace, hrefuses⟩⟩
      cases hencode : codec.encode new with
      | error w => exact .inr (.inr (.inr ⟨_, w, hopened, rfl, rfl, hrewritten []⟩))
      | ok bytes =>
          cases hfault : host.device.breaksOff? (s₁.put l (.file [])) l bytes with
          | none =>
              simp only [hfault]
              exact .inr (.inr (.inl ⟨_, bytes, rfl, rfl, hrewritten bytes⟩))
          | some fault =>
              obtain ⟨n, f⟩ := fault
              simp only [hfault]
              exact .inr (.inl ⟨_, f, rfl, .writing hopened hl hencode hfault (hrewritten _)⟩)

/-!
# Answers and faults
-/

/-- The file of a path is read, its text refactored to another one, and this one to be written back. -/
structure Rewrites (host : Host) (s : Store) (plan : Plan) (p : Path) (codec : Codec) (before : Bytes)
    (old new : Text) : Prop where
  reads : s.Reads host plan.settings p codec before old
  source : ∃ m, Refactor.source .standard plan.settings plan.rule p.text old plan.debug =
    .ok (.success new m)
  inPlace : plan.inPlace = true
  changed : new ≠ old

/-- An answer tells what has happened.  Without a written text nothing has, except for what the file
system leaves when it fails on writing; a success was written when that was asked for and the text had
changed, and then the file holds the new text. -/
structure Reports (host : Host) (s : Store) (plan : Plan) (p : Path) (s' : Store) (o : Outcome Text) :
    Prop where
  kept : ¬ o.Written → s' = s ∨ ∃ f m codec before old new, o = .failure (.fileSystem f) m ∧
    s.Rewrites host plan p codec before old new ∧
    BreaksOff host s plan.settings p codec before new s' f
  success : ∀ new m, o = .success new m → ∃ codec before old m',
    s.Reads host plan.settings p codec before old ∧
    Refactor.source .standard plan.settings plan.rule p.text old plan.debug =
      .ok (.success new m') ∧
    (o.Written ↔ plan.inPlace = true ∧ new ≠ old) ∧
    (o.Written → ∃ bytes, codec.encode new = .ok bytes ∧
      s.Rewritten s' plan.settings p before before bytes)

/-- How refactoring a file ends in a fault that is not reported, and what it leaves then. -/
inductive Escapes (host : Host) (s : Store) (plan : Plan) (p : Path) : Store → Fault → Prop
  | path (h : p.isBroken = true) :
      Escapes host s plan p s (.badValue (Text.ofString "embedded null byte"))
  | unreadable {before : Bytes} {e : Fault} (hopens : s.Opens host plan.settings p before)
      (h : Unreadable host.codecs plan.settings before e) : Escapes host s plan p s e
  /-- the encoding cannot write the new text, and the file is empty afterwards -/
  | unwritable {s' : Store} {codec : Codec} {before : Bytes} {old new : Text} {w : WriteFault}
      (hrewrites : s.Rewrites host plan p codec before old new)
      (hopened : Opened host s plan.settings p) (hencode : codec.encode new = .error w)
      (hrewritten : s.Rewritten s' plan.settings p before before []) :
      Escapes host s plan p s' (Fault.ofWrite w)

theorem reports_of_not_success {o : Outcome Text} (h : o.isSuccess = false) :
    s.Reports host plan p s o := by
  refine ⟨fun _ => .inl rfl, ?_⟩
  rintro new m rfl
  cases h

theorem source_total {codecs : Codecs} (hs : settings.InRange codecs) (rule file source : Text) (debug : Bool) :
    ∃ o, Refactor.source .standard settings rule file source debug = .ok o := by
  by_cases hrule : rule = DoCatch.name
  · subst hrule
    cases h : ofTextFrom 0 source with
    | error e =>
        rw [Refactor.source, prepare, resolve_standard, h]
        exact ⟨_, rfl⟩
    | ok result =>
        rcases result with ⟨t, next⟩
        rcases ofTextFrom_forms h with ⟨_, _, _, hforms, hneat⟩
        exact source_of_inRange hs hforms hneat file h debug
  · have hnone : Registry.standard.get? rule = none := by
      rw [Registry.get?, List.find?_eq_none]
      intro r hr
      rw [List.mem_singleton.mp hr]
      show ¬ (DoCatch.name == rule) = true
      rw [beq_iff_eq]
      exact Ne.symm hrule
    rw [Refactor.source, prepare, Registry.resolve, hnone]
    exact ⟨_, rfl⟩

/-!
# Writing back
-/

theorem finish_of_kept (h : ¬ (plan.inPlace = true ∧ new ≠ old)) :
    ∃ m, s.finish host plan p old new metadata = (s, .ok (.success new m)) ∧
      ¬ (Outcome.success new m).Written := by
  have hkept : (plan.inPlace && new != old) = false := by
    rw [Bool.eq_false_iff]
    simpa using h
  rw [finish]
  simp only [hkept]
  refine ⟨_, rfl, ?_⟩
  rintro ⟨_, hwritten⟩
  rw [Outcome.metadata, Details.putAll_cons, Details.putAll_cons, Details.putAll_cons,
    Details.putAll_nil, Details.get?_put, if_pos rfl] at hwritten
  cases hwritten

theorem finish_of_changed (h : plan.inPlace = true ∧ new ≠ old) :
    ∃ m m', (Outcome.success new m').Written ∧ s.finish host plan p old new metadata =
      match s.replace host plan.settings p new with
      | (s, .ok ()) => (s, .ok (.success new m'))
      | (s, .error e) => (s, if isReported e then .ok (.failure e m) else .error e) := by
  have hchanged : (plan.inPlace && new != old) = true := by simpa using h
  rw [finish]
  simp only [hchanged]
  refine ⟨_, _, ⟨rfl, ?_⟩, rfl⟩
  rw [Outcome.metadata, Details.get?_put, if_pos rfl]

theorem not_isReported_ofWrite (w : WriteFault) : isReported (Fault.ofWrite w) = false := by
  cases w <;> rfl

theorem finish_reports (hreads : s.Reads host plan.settings p codec before old)
    (hsource : Refactor.source .standard plan.settings plan.rule p.text old plan.debug =
      .ok (.success new metadata))
    (h : s.finish host plan p old new metadata = (s', answer)) :
    (∃ o, answer = .ok o ∧ s.Reports host plan p s' o) ∨
      ∃ e, answer = .error e ∧ s.Escapes host plan p s' e := by
  by_cases hchanged : plan.inPlace = true ∧ new ≠ old
  · have hrewrites : s.Rewrites host plan p codec before old new :=
      ⟨hreads, ⟨metadata, hsource⟩, hchanged.1, hchanged.2⟩
    rcases @finish_of_changed host s plan p old new metadata hchanged with
      ⟨m, m', hwritten, hfinish⟩
    rw [h] at hfinish
    rcases replace_cases hreads new with ⟨f, hreplace⟩ | ⟨s₁, f, hreplace, hbreaks⟩ |
      ⟨s₁, bytes, hencode, hreplace, hrewritten⟩ | ⟨s₁, w, hopened, hencode, hreplace, hrewritten⟩
    · rw [hreplace] at hfinish
      cases hfinish
      exact .inl ⟨_, rfl, reports_of_not_success rfl⟩
    · rw [hreplace] at hfinish
      cases hfinish
      refine .inl ⟨_, rfl, fun _ => .inr ⟨f, m, codec, before, old, new, rfl, hrewrites, hbreaks⟩, ?_⟩
      rintro new' m'' heq
      cases heq
    · rw [hreplace] at hfinish
      cases hfinish
      refine .inl ⟨_, rfl, fun hnot => absurd hwritten hnot, ?_⟩
      rintro new' m'' heq
      cases heq
      exact ⟨codec, before, old, metadata, hreads, hsource, ⟨fun _ => hchanged, fun _ => hwritten⟩,
        fun _ => ⟨bytes, hencode, hrewritten⟩⟩
    · rw [hreplace] at hfinish
      simp only [not_isReported_ofWrite] at hfinish
      cases hfinish
      exact .inr ⟨_, rfl, .unwritable hrewrites hopened hencode hrewritten⟩
  · rcases @finish_of_kept host s plan p old new metadata hchanged with ⟨m, hfinish, hnot⟩
    rw [h] at hfinish
    cases hfinish
    refine .inl ⟨_, rfl, fun _ => .inl rfl, ?_⟩
    rintro new' m'' heq
    cases heq
    exact ⟨codec, before, old, metadata, hreads, hsource,
      ⟨fun hwritten => absurd hwritten hnot, fun hchanged' => absurd hchanged' hchanged⟩,
      fun hwritten => absurd hwritten hnot⟩

theorem replace_of_opened {w : WriteFault} (hreads : s.Reads host settings p codec before old)
    (hopened : Opened host s settings p) (hencode : codec.encode new = .error w) :
    ∃ s₁, s.replace host settings p new = (s₁, .error (Fault.ofWrite w)) := by
  rcases hopened with ⟨s₁, l, hsecure, hplace⟩
  rcases hreads.names with ⟨name, hname, hcodec⟩
  refine ⟨s₁.put l (.file []), ?_⟩
  rw [replace, hsecure]
  simp only [writeText, hname, hplace, hcodec, hencode]

theorem refactor_of_escapes (hs : plan.settings.InRange host.codecs) {e : Fault}
    (h : s.Escapes host plan p s' e) : ∃ s₁, s.refactor host plan p = (s₁, .error e) := by
  rw [refactor]
  cases h with
  | path hpath =>
      have hsmall : s.readSmall host plan.settings p =
          .error (.badValue (Text.ofString "embedded null byte")) := by
        rw [readSmall, hpath]
        rfl
      rw [hsmall]
      exact ⟨s, rfl⟩
  | unreadable hopens hunreadable =>
      rcases readText_of_unreadable hs hopens.bytes hunreadable with ⟨hread, hreported⟩
      rw [readSmall_of_opens hopens, hread]
      show ∃ s₁, (s, if isReported e then _ else _) = _
      rw [hreported]
      exact ⟨s, rfl⟩
  | @unwritable _ codec before old new w hrewrites hopened hencode _ =>
      rcases hrewrites with ⟨hreads, ⟨m, hsource⟩, hinPlace, hchanged⟩
      rw [readSmall_of_reads hreads]
      simp only [hsource]
      rcases @finish_of_changed host s plan p old new m ⟨hinPlace, hchanged⟩ with ⟨_, _, _, hfinish⟩
      rcases replace_of_opened hreads hopened hencode with ⟨s₁, hreplace⟩
      rw [hfinish, hreplace]
      simp only [not_isReported_ofWrite]
      exact ⟨s₁, rfl⟩

theorem refactor_ends (hs : plan.settings.InRange host.codecs)
    (h : s.refactor host plan p = (s', answer)) :
    (∃ o, answer = .ok o ∧ s.Reports host plan p s' o) ∨
      ∃ e, answer = .error e ∧ s.Escapes host plan p s' e := by
  rw [refactor] at h
  split at h
  · next e he =>
      cases h
      rcases error_of_readSmall hs he with hreported | ⟨hpath, rfl⟩ | ⟨before, hopens, hunreadable⟩
      · rw [hreported]
        exact .inl ⟨_, rfl, reports_of_not_success rfl⟩
      · exact .inr ⟨_, rfl, .path hpath⟩
      · rw [(readText_of_unreadable hs hopens.bytes hunreadable).2]
        exact .inr ⟨_, rfl, .unreadable hopens hunreadable⟩
  · cases h
    exact .inl ⟨_, rfl, reports_of_not_success rfl⟩
  · next old hsmall =>
      rcases reads_of_readSmall hsmall with ⟨codec, before, hreads⟩
      rcases source_total hs plan.rule p.text old plan.debug with ⟨o, hsource⟩
      rw [hsource] at h
      cases o with
      | success new metadata => exact finish_reports hreads hsource h
      | failure e metadata =>
          cases h
          exact .inl ⟨_, rfl, reports_of_not_success rfl⟩
      | skipped e metadata =>
          cases h
          exact .inl ⟨_, rfl, reports_of_not_success rfl⟩

/-- With settings in range refactoring a file answers what has happened to it, except for a path that
is none, bytes that are read as no text for lack of a text encoding or because the encoding refuses them,
and a new text that the encoding cannot write. -/
theorem refactor_reports (hs : plan.settings.InRange host.codecs)
    (h : s.refactor host plan p = (s', answer)) :
    (∀ o, answer = .ok o → s.Reports host plan p s' o) ∧
      ∀ e, answer = .error e ↔ s.Escapes host plan p s' e := by
  refine ⟨?_, fun e => ⟨?_, ?_⟩⟩
  · rintro o rfl
    rcases refactor_ends hs h with ⟨o', heq, hreports⟩ | ⟨e, heq, _⟩
    · cases heq
      exact hreports
    · cases heq
  · rintro rfl
    rcases refactor_ends hs h with ⟨o, heq, _⟩ | ⟨e', heq, hescapes⟩
    · cases heq
    · cases heq
      exact hescapes
  · intro hescapes
    rcases refactor_of_escapes hs hescapes with ⟨s₁, heq⟩
    rw [h] at heq
    cases heq
    rfl

def Plan.ascii (placeholder : Text) : Plan where
  settings := (Settings.standard.set .encoding (.ofString "us-ascii")).set .placeholder
    (.text placeholder)
  rule := DoCatch.name
  inPlace := true
  debug := false

/-- The encodings of the library, and a file system that refuses nothing. -/
def Host.sound : Host := ⟨Encoding.codecs, .sound⟩

theorem ascii_inRange {t u : Text} (h : Setting.checkPlaceholder t = .ok u) :
    (Plan.ascii t).settings.InRange Encoding.codecs := by
  have hfound : (Encoding.codecs.lookup "us-ascii".toList).toOption.isSome = true := by
    decide +kernel
  rcases Option.isSome_iff_exists.mp hfound with ⟨coding, hcoding⟩
  have hencoding := Settings.checkEncoding_of_lookup (eq_ok_of_toOption hcoding)
  refine Settings.InRange.set (Settings.InRange.set Settings.standard_inRange ?_) ?_
  · exact ⟨_, _, rfl, hencoding⟩
  · exact ⟨_, _, rfl, h⟩

def holding (name : Text) (content : Bytes) : Store :=
  (emptyAt [['w']]).add [['w'], name] (.file content)

def forced : Store := holding ['a'] (Utf8.encode (Text.ofString "try! f()\n"))

theorem refactor_reports_written :
    ∃ s' o, forced.refactor .sound (Plan.ascii Token.defaultPlaceholder) (Path.ofText ['a']) =
        (s', .ok o) ∧ o.Written ∧
      forced.Reports .sound (Plan.ascii Token.defaultPlaceholder) (Path.ofText ['a']) s' o := by
  have hwritten : (match (forced.refactor .sound (Plan.ascii Token.defaultPlaceholder)
      (Path.ofText ['a'])).2 with
    | .ok o => decide o.Written
    | .error _ => false) = true := by
    decide +kernel
  cases h : forced.refactor .sound (Plan.ascii Token.defaultPlaceholder) (Path.ofText ['a']) with
  | mk s' answer =>
      rw [h] at hwritten
      cases answer with
      | error e => cases hwritten
      | ok o =>
          have hs : (Plan.ascii Token.defaultPlaceholder).settings.InRange Host.sound.codecs :=
            ascii_inRange rfl
          exact ⟨s', o, rfl, of_decide_eq_true hwritten, (refactor_reports hs h).1 o rfl⟩

/-- With an encoding that cannot write the placeholder a file is emptied, and no answer tells so. -/
theorem refactor_empties_unwritable :
    ∃ s', (Plan.ascii (Text.ofString "<#é#>")).settings.InRange Encoding.codecs ∧
      forced.refactor .sound (Plan.ascii (Text.ofString "<#é#>")) (Path.ofText ['a']) =
        (s', .error .encode) ∧
      s'.read (Path.ofText ['a']) = .ok [] := by
  have hempty : (match forced.refactor .sound (Plan.ascii (Text.ofString "<#é#>"))
      (Path.ofText ['a']) with
    | (s', .error .encode) => (s'.read (Path.ofText ['a'])).toOption == some []
    | _ => false) = true := by
    decide +kernel
  split at hempty
  · next s' h => exact ⟨s', ascii_inRange rfl, h, eq_ok_of_toOption (eq_of_beq hempty)⟩
  · cases hempty

/-!
# File systems that fail
-/

theorem not_breaksOff_of_sound (hsound : host.device = .sound) {f : FileFault} :
    ¬ BreaksOff host s settings p codec before new s' f := by
  intro h
  cases h with
  | copying _ _ hfault _ =>
      rw [hsound] at hfault
      cases hfault
  | opening _ _ hfault _ =>
      rw [hsound] at hfault
      cases hfault
  | writing _ _ _ hfault _ =>
      rw [hsound] at hfault
      cases hfault

/-- A file system that refuses nothing leaves all as it was when no text was written. -/
theorem refactor_kept_of_sound (hs : plan.settings.InRange host.codecs)
    (hsound : host.device = .sound) {o : Outcome Text} (h : s.refactor host plan p = (s', .ok o))
    (hnot : ¬ o.Written) : s' = s := by
  rcases refactor_ends hs h with ⟨o', heq, hreports⟩ | ⟨_, heq, _⟩
  · cases heq
    rcases hreports.kept hnot with hsame | ⟨_, _, _, _, _, _, _, _, hbreaks⟩
    · exact hsame
    · exact absurd hbreaks (not_breaksOff_of_sound hsound)
  · cases heq

def fullBehind (room : Nat) : Device where
  refuses? _ _ _ := none
  breaksOff? _ _ bytes :=
    if room < bytes.length then
      some (room, .other (Text.ofString "[Errno 28] No space left on device"))
    else none

/-- On a device that has room for the old text and not for the new one, the answer is a failure, and the
file has lost its old text. -/
theorem refactor_cuts_on_full_device :
    ∃ s' o, forced.refactor ⟨Encoding.codecs, fullBehind 15⟩
        (Plan.ascii Token.defaultPlaceholder) (Path.ofText ['a']) = (s', .ok o) ∧
      o.status = .error ∧
      s'.read (Path.ofText ['a']) = .ok (Utf8.encode (Text.ofString "do \x7b\n  try f()\n")) := by
  have hfailed : (forced.refactor ⟨Encoding.codecs, fullBehind 15⟩
      (Plan.ascii Token.defaultPlaceholder) (Path.ofText ['a'])).2.toOption.map Outcome.status =
        some .error := by
    decide +kernel
  have hcut : ((forced.refactor ⟨Encoding.codecs, fullBehind 15⟩
      (Plan.ascii Token.defaultPlaceholder) (Path.ofText ['a'])).1.read (Path.ofText ['a'])).toOption =
        some (Utf8.encode (Text.ofString "do \x7b\n  try f()\n")) := by
    decide +kernel
  cases h : forced.refactor ⟨Encoding.codecs, fullBehind 15⟩
      (Plan.ascii Token.defaultPlaceholder) (Path.ofText ['a']) with
  | mk s' answer =>
      rw [h] at hfailed hcut
      cases answer with
      | error e => cases hfailed
      | ok o => exact ⟨s', o, rfl, Option.some.inj hfailed, eq_ok_of_toOption hcut⟩

end Store
end ForceTry

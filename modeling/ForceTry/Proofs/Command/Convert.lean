import ForceTry.Command.Standard
import ForceTry.Proofs.Store.Visits

/-!
# Converting files

The parts of a command write messages and end it, and only the refactoring of a file changes the store.
So a command leaves the store of its visits, up to the one that broke it off, and a file that it visits
once is found in its copy as it was before.
-/

namespace ForceTry
namespace Command

variable {libs : Libraries} {α β : Type} {x : Action α} {f : α → Action β}
  {session session' : Session}

/-!
# Actions and the store
-/

theorem run_bind (x : Action α) (f : α → Action β) (session : Session) :
    (x >>= f).run.run session = match x.run.run session with
      | (.ok a, session') => (f a).run.run session'
      | (.error e, session') => (.error e, session') := by
  rw [ExceptT.run_bind, StateT.run_bind]
  rcases x.run.run session with ⟨a, session'⟩
  cases a <;> rfl

theorem run_get (session : Session) :
    (get : Action Session).run.run session = (.ok session, session) := rfl

theorem run_modify (change : Session → Session) (session : Session) :
    (modify change : Action Unit).run.run session = (.ok (), change session) := rfl

def KeepsStore (x : Action α) : Prop :=
  ∀ session, (x.run.run session).2.store = session.store

theorem keepsStore_pure (a : α) : KeepsStore (pure a) := fun _ => rfl

theorem keepsStore_get : KeepsStore (get : Action Session) := fun _ => rfl

theorem keepsStore_throw (e : Stop) : KeepsStore (throw e : Action α) := fun _ => rfl

theorem keepsStore_print (t : Text) : KeepsStore (print t) := fun _ => rfl

theorem keepsStore_complain (t : Text) : KeepsStore (complain t) := fun _ => rfl

theorem store_bind (hf : ∀ a, KeepsStore (f a)) (session : Session) :
    ((x >>= f).run.run session).2.store = (x.run.run session).2.store := by
  rw [run_bind]
  rcases x.run.run session with ⟨a, session'⟩
  cases a with
  | error e => rfl
  | ok a => exact hf a session'

theorem KeepsStore.bind (hx : KeepsStore x) (hf : ∀ a, KeepsStore (f a)) : KeepsStore (x >>= f) :=
  fun session => (store_bind hf session).trans (hx session)

theorem KeepsStore.run_bind_cases (hx : KeepsStore x) (session : Session) :
    ((x >>= f).run.run session).2.store = session.store ∨
    ∃ a session', x.run.run session = (.ok a, session') ∧ session'.store = session.store ∧
      (x >>= f).run.run session = (f a).run.run session' := by
  have hkept := hx session
  rw [run_bind]
  generalize x.run.run session = result at hkept ⊢
  rcases result with ⟨a, session'⟩
  cases a with
  | error e => exact .inl hkept
  | ok a => exact .inr ⟨a, session', rfl, hkept, rfl⟩

theorem keepsStore_orBreak (y : Except Fault α) : KeepsStore (orBreak y) := by
  cases y with
  | error e => exact keepsStore_throw _
  | ok a => exact keepsStore_pure a

theorem keepsStore_refuse (n : Nat) (t : Text) : KeepsStore (refuse n t : Action α) :=
  (keepsStore_complain t).bind fun _ => keepsStore_throw _

theorem keepsStore_loadSettings (config : Option Text) : KeepsStore (loadSettings libs config) := by
  cases config with
  | none => exact keepsStore_pure _
  | some name =>
      refine keepsStore_get.bind fun session => ?_
      dsimp only
      split
      · exact keepsStore_pure _
      · exact keepsStore_refuse _ _
      · exact keepsStore_pure _

theorem keepsStore_checkRule (rule : Text) : KeepsStore (checkRule rule) := by
  rw [checkRule]
  split
  · exact keepsStore_refuse _ _
  · exact keepsStore_pure _

theorem keepsStore_findSources (given : List Text) : KeepsStore (findSources given) := by
  refine keepsStore_get.bind fun session => ?_
  dsimp only
  split
  · exact keepsStore_refuse _ _
  · exact keepsStore_pure _

theorem keepsStore_showConverted (o : ConvertOptions) (settings : Settings) (p : Path) (code : Text)
    (metadata : Details) : KeepsStore (showConverted libs o settings p code metadata) := by
  rw [showConverted]
  split
  · exact keepsStore_get.bind fun session =>
      (keepsStore_orBreak _).bind fun before => keepsStore_print _
  split
  · split <;> exact keepsStore_print _
  · exact keepsStore_print _

/-!
# Visits
-/

theorem store_convertFile (libs : Libraries) (o : ConvertOptions) (plan : Store.Plan) (p : Path)
    (session : Session) : ((convertFile libs o plan p).run.run session).2.store =
      (session.store.refactor libs.toHost plan p).1 := by
  rw [convertFile, run_bind, run_get]
  dsimp only
  rcases session.store.refactor libs.toHost plan p with ⟨store, outcome⟩
  dsimp only
  rw [run_bind, run_modify]
  dsimp only
  refine ((keepsStore_orBreak outcome).bind fun outcome => ?_) { session with store }
  cases outcome with
  | success code metadata =>
      exact (keepsStore_showConverted o _ p code metadata).bind fun _ => keepsStore_pure true
  | failure e metadata => exact (keepsStore_complain _).bind fun _ => keepsStore_pure false
  | skipped e metadata => exact (keepsStore_print _).bind fun _ => keepsStore_pure true

/-- Converting files one after the other makes visits to them, up to one that breaks the command off. -/
theorem store_mapM_convertFile (o : ConvertOptions) (plan : Store.Plan) (files : List Path)
    (session : Session) :
    ∃ ps, ps <+: files ∧ ((files.mapM (convertFile libs o plan)).run.run session).2.store =
      Store.refactorAll libs.toHost plan session.store ps := by
  induction files generalizing session with
  | nil => exact ⟨[], List.prefix_rfl, rfl⟩
  | cons p files ih =>
      have hstore := store_convertFile libs o plan p session
      rw [List.mapM_cons, run_bind]
      generalize (convertFile libs o plan p).run.run session = result at hstore ⊢
      rcases result with ⟨done, session'⟩
      cases done with
      | error e => exact ⟨[p], ⟨files, rfl⟩, hstore⟩
      | ok b =>
          rcases ih session' with ⟨ps, hpart, hrest⟩
          refine ⟨p :: ps, List.cons_prefix_cons.mpr ⟨rfl, hpart⟩, ?_⟩
          rw [Store.refactorAll_cons, ← hstore, ← hrest]
          exact store_bind (fun _ => keepsStore_pure _) session'

theorem store_forEach (o : ConvertOptions) (plan : Store.Plan) (files : List Path)
    (session : Session) :
    ∃ ps, ps <+: files ∧ ((forEach (convertFile libs o plan) files).run.run session).2.store =
      Store.refactorAll libs.toHost plan session.store ps := by
  have hended : ∀ done : List Bool,
      KeepsStore (if done.all id then pure () else throw (.status 1) : Action Unit) := by
    intro done
    split
    · exact keepsStore_pure ()
    · exact keepsStore_throw _
  rcases store_mapM_convertFile o plan files session with ⟨ps, hpart, hstore⟩
  exact ⟨ps, hpart, (store_bind hended session).trans hstore⟩

theorem files_of_findSources {given : List Text} {files : List Path}
    (h : (findSources given).run.run session = (.ok files, session')) :
    files = session.store.sources (given.map Path.ofText) := by
  rw [findSources, run_bind] at h
  change ((if (session.store.sources (given.map Path.ofText)).isEmpty then
    refuse 2 (Text.ofString "Error: no Swift source files found.")
    else pure (session.store.sources (given.map Path.ofText)) : Action (List Path))).run.run session =
      _ at h
  split at h
  · cases h
  · cases h
    rfl

theorem store_convertAll (o : ConvertOptions) (debug : Bool) (session : Session) :
    ((convertAll libs o debug).run.run session).2.store = session.store ∨
    ∃ settings session' ps, (loadSettings libs o.config).run.run session = (.ok settings, session') ∧
      ps <+: session.store.sources (o.sources.map Path.ofText) ∧
      ((convertAll libs o debug).run.run session).2.store =
        Store.refactorAll libs.toHost ⟨settings, o.rule, o.inPlace, debug⟩ session.store ps := by
  rw [convertAll]
  split
  · exact .inl rfl
  rcases (keepsStore_loadSettings o.config).run_bind_cases session with
    hend | ⟨settings, session₁, hload, hstore₁, heq⟩
  · exact .inl hend
  rw [heq]
  rcases (keepsStore_orBreak _).run_bind_cases session₁ with hend | ⟨_, session₂, _, hstore₂, heq⟩
  · exact .inl (hend.trans hstore₁)
  rw [heq]
  rcases (keepsStore_checkRule o.rule).run_bind_cases session₂ with
    hend | ⟨_, session₃, _, hstore₃, heq⟩
  · exact .inl (hend.trans (hstore₂.trans hstore₁))
  rw [heq]
  rcases (keepsStore_findSources o.sources).run_bind_cases session₃ with
    hend | ⟨files, session₄, hfind, hstore₄, heq⟩
  · exact .inl (hend.trans (hstore₃.trans (hstore₂.trans hstore₁)))
  rw [heq]
  have hstore := hstore₃.trans (hstore₂.trans hstore₁)
  rcases store_forEach o ⟨settings, o.rule, o.inPlace, debug⟩ files session₄ with
    ⟨ps, hpart, hvisits⟩
  rw [files_of_findSources hfind, hstore] at hpart
  rw [hstore₄, hstore] at hvisits
  exact .inr ⟨settings, session₁, ps, hload, hpart, hvisits⟩

/-!
# The whole command
-/

theorem store_run_convert {args : List Text} {o : ConvertOptions}
    (h : libs.arguments args = .ok (.convert o)) (s : Store) (debug : Bool) :
    (run libs s debug args).store = ((convertAll libs o debug).run.run ⟨s, [], []⟩).2.store := by
  rw [run, h]
  rfl

/-- However a conversion ends, it touches no places but those of the files that it finds and of their
copies.  When the settings that it loads ask for copies, a file that is visited once and has changed is
found in its copy. -/
theorem run_convert_copies {args : List Text} {o : ConvertOptions}
    (h : libs.arguments args = .ok (.convert o)) {s : Store} {debug : Bool}
    (hbackups : ∀ settings session, (loadSettings libs o.config).run.run ⟨s, [], []⟩ =
      (.ok settings, session) → settings.backups.isTruthy = true) :
    (∀ k, (run libs s debug args).store.get? k ≠ s.get? k →
      ∃ p ∈ s.sources (o.sources.map Path.ofText), s.Touches p k) ∧
    ∀ p content, s.VisitedOnce (s.sources (o.sources.map Path.ofText)) p →
      s.read p = .ok content → (run libs s debug args).store.read p ≠ .ok content →
      (run libs s debug args).store.read (s.backupPath p) = .ok content := by
  rw [store_run_convert h]
  rcases store_convertAll o debug ⟨s, [], []⟩ with
    hsame | ⟨settings, session, ps, hload, hpart, hvisits⟩
  · rw [hsame]
    exact ⟨fun k hk => absurd rfl hk, fun p content _ hread hchanged => absurd hread hchanged⟩
  · rw [hvisits]
    refine ⟨fun k hk => ?_, fun p content honce hread hchanged => ?_⟩
    · rcases (Store.refactorAll_frame _ _ s ps).2 k hk with ⟨p, hp, htouches⟩
      exact ⟨p, hpart.subset hp, htouches⟩
    · rcases honce.of_prefix hpart with halone | honce
      · rw [Ne, Store.read_refactorAll fun q hq k hk => halone q hq k (.inl hk)] at hchanged
        exact absurd hread hchanged
      · exact Store.refactorAll_copied (hbackups settings session hload) honce hread hchanged

def nested : Store :=
  (Store.holding ['a'] (Utf8.encode (Text.ofString "f(try! a(), try! b())\n"))).add [['w'], ['c']]
    (.file (Utf8.encode (Text.ofString "encoding: us-ascii\n")))

/-- The arguments that convert files in place with the settings of a file. -/
def converting (files : List Text) : List Text :=
  [Text.ofString "convert", Text.ofString "-i", Text.ofString "-c", ['c']] ++ files

theorem run_convert_copies_nested :
    (run .standard nested false (converting [['a']])).store.read (Path.ofText ['a']) ≠
        .ok (Utf8.encode (Text.ofString "f(try! a(), try! b())\n")) ∧
      (run .standard nested false (converting [['a']])).store.read (nested.backupPath (Path.ofText ['a'])) =
        .ok (Utf8.encode (Text.ofString "f(try! a(), try! b())\n")) := by
  have harguments : Libraries.standard.arguments (converting [['a']]) =
      .ok (.convert ⟨[['a']], DoCatch.name, true, false, some ['c'], none, false⟩) :=
    eq_ok_of_toOption (by decide +kernel)
  have hsettings : (match ((loadSettings .standard (some ['c'])).run.run ⟨nested, [], []⟩).1 with
      | .ok settings => settings.backups.isTruthy
      | .error _ => false) = true := by
    decide +kernel
  have honce : nested.VisitedOnce (nested.sources ([['a']].map Path.ofText)) (Path.ofText ['a']) := by
    have hsources : nested.sources ([['a']].map Path.ofText) = [Path.ofText ['a']] := by
      decide +kernel
    rw [hsources]
    exact ⟨[], [], rfl, by simp⟩
  have hread : nested.read (Path.ofText ['a']) =
      .ok (Utf8.encode (Text.ofString "f(try! a(), try! b())\n")) :=
    eq_ok_of_toOption (by decide +kernel)
  have hchanged : (run .standard nested false (converting [['a']])).store.read (Path.ofText ['a']) ≠
      .ok (Utf8.encode (Text.ofString "f(try! a(), try! b())\n")) := by
    intro heq
    have hsame := congrArg Except.toOption heq
    revert hsame
    decide +kernel
  refine ⟨hchanged, (run_convert_copies harguments ?_).2 _ _ honce hread hchanged⟩
  intro settings session hload
  rw [hload] at hsettings
  exact hsettings

/-- A file that is visited twice is found in its copy as the first visit has left it. -/
theorem run_convert_loses_original :
    nested.read (Path.ofText ['a']) =
        .ok (Utf8.encode (Text.ofString "f(try! a(), try! b())\n")) ∧
      (run .standard nested false (converting [['a'], ['a']])).fault?.isNone = true ∧
      (run .standard nested false (converting [['a'], ['a']])).store.read
          (nested.backupPath (Path.ofText ['a'])) =
        .ok (Utf8.encode (Text.ofString
          "do \x7b\n  f(try a(), try! b())\n\x7d catch \x7b\n  <#code#>\n\x7d\n")) := by
  have hall : ((run .standard nested false (converting [['a'], ['a']])).fault?.isNone &&
      ((run .standard nested false (converting [['a'], ['a']])).store.read
        (nested.backupPath (Path.ofText ['a']))).toOption ==
        some (Utf8.encode (Text.ofString
          "do \x7b\n  f(try a(), try! b())\n\x7d catch \x7b\n  <#code#>\n\x7d\n"))) = true := by
    decide +kernel
  rw [Bool.and_eq_true] at hall
  exact ⟨eq_ok_of_toOption (by decide +kernel), hall.1, eq_ok_of_toOption (eq_of_beq hall.2)⟩

end Command
end ForceTry

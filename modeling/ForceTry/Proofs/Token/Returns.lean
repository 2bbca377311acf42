import ForceTry.Proofs.Text.Returns
import ForceTry.Proofs.Token.Endings

/-!
# Tokens and carriage returns

A text without carriage returns reads as the same tokens when one is put in front of every line feed.
Runs of line feeds become runs of pairs, and comments and tokens that hold a line feed become longer.
Only a string literal may be broken off by this: a backslash escapes a line feed, but of a pair it escapes
the carriage return alone.
-/

namespace ForceTry

open Text

namespace Piece

/-- The piece with a carriage return in front of every line feed. -/
def withReturns : Piece → Piece
  | .run .newlines n => .run .carriageReturnLineFeeds n
  | .run kind n => .run kind n
  | .comment form text => .comment form (Text.withReturns text)

@[simp] theorem isNewline_withReturns (p : Piece) : p.withReturns.isNewline = p.isNewline := by
  match p with
  | .run .spaces _ | .run .tabs _ | .run .newlines _ | .run .carriageReturnLineFeeds _ => rfl
  | .comment _ _ => rfl

@[simp] theorem isBlank_withReturns (p : Piece) : p.withReturns.isBlank = p.isBlank := by
  match p with
  | .run .spaces _ | .run .tabs _ | .run .newlines _ | .run .carriageReturnLineFeeds _ => rfl
  | .comment _ _ => rfl

theorem withReturns_of_isBlank {p : Piece} (h : p.isBlank = true) : p.withReturns = p := by
  match p with
  | .run .spaces _ | .run .tabs _ => rfl

theorem crlfPairs_withReturns {t : Text} (h : '\r' ∉ t) :
    crlfPairs (Text.withReturns t) = runLength (· == '\n') t := by
  induction t with
  | nil => rfl
  | cons c t ih =>
      rw [List.mem_cons, not_or] at h
      by_cases hc : c = '\n'
      · subst hc
        rw [withReturns_newline, crlfPairs, ih h.2, runLength_cons]
        rfl
      · rw [withReturns_cons hc, runLength_cons, beq_eq_false_iff_ne.mpr hc]
        unfold crlfPairs
        split
        · next heq => exact absurd (List.cons.inj heq).1.symm h.1
        · rfl

theorem behindBlock?_withReturns (depth : Nat) (t : Text) :
    behindBlock? depth (Text.withReturns t) = (behindBlock? depth t).map Text.withReturns := by
  have hhead : ∀ {t u : Text} {c : Char}, c ≠ '\r' → Text.withReturns t = c :: u →
      ∃ v, t = c :: v := by
    intro t u c hc h
    exact List.head?_eq_some_iff.mp (head?_withReturns hc (by rw [h]; rfl))
  fun_induction behindBlock? depth t with
  | case1 depth t ih =>
      rw [withReturns_cons (by decide), withReturns_cons (by decide), behindBlock?, ih]
  | case2 t =>
      rw [withReturns_cons (by decide), withReturns_cons (by decide), behindBlock?]
      rfl
  | case3 t depth ih =>
      rw [withReturns_cons (by decide), withReturns_cons (by decide), behindBlock?]
      exact ih
  | case4 depth c t hopen hclose ih =>
      by_cases hc : c = '\n'
      · subst hc
        rw [withReturns_newline, behindBlock?, behindBlock?, ih]
        · rintro u ⟨⟩
        · rintro u ⟨⟩
        · rintro u ⟨⟩
        · rintro u ⟨⟩
      · rw [withReturns_cons hc, behindBlock?, ih]
        · intro u hslash hstar
          rcases hhead (by decide) hstar with ⟨v, rfl⟩
          exact hopen v hslash rfl
        · intro u hstar hslash
          rcases hhead (by decide) hslash with ⟨v, rfl⟩
          exact hclose v hstar rfl
  | case5 => rfl

theorem blockEnd_withReturns (n : Nat) (t : Text) :
    ∃ k, blockEnd 0 n t = n + k ∧ blockEnd 0 n (Text.withReturns t) = n + stretched k t := by
  have hbehind := behindBlock?_withReturns 0 t
  cases hrest : behindBlock? 0 t with
  | none =>
      rw [hrest] at hbehind
      refine ⟨t.length, blockEnd_of_behindBlock?_eq_none hrest n, ?_⟩
      rw [blockEnd_of_behindBlock?_eq_none hbehind, stretched, List.take_length]
  | some u =>
      rw [hrest, Option.map_some] at hbehind
      rcases blockEnd_of_behindBlock?_eq_some hrest n with ⟨s, rfl, -, hend⟩
      rcases blockEnd_of_behindBlock?_eq_some hbehind n with ⟨s', hs', -, hend'⟩
      rw [withReturns_append, List.append_cancel_right_eq] at hs'
      refine ⟨s.length, hend, ?_⟩
      rw [hend', stretched, List.take_left, hs']

theorem stretched_run (t : Text) :
    stretched (runLength (· == '\n') t) t = 2 * runLength (· == '\n') t := by
  induction t with
  | nil => rfl
  | cons c t ih =>
      by_cases hc : c = '\n'
      · subst hc
        rw [runLength_cons, if_pos (beq_self_eq_true '\n'), stretched_newline, ih]
        rfl
      · rw [runLength_cons, beq_eq_false_iff_ne.mpr hc]
        rfl

theorem opensComment_withReturns (t : Text) :
    Token.opensComment (Text.withReturns t) = true → Token.opensComment t = true := by
  simp only [Token.opensComment, Bool.or_eq_true, beq_iff_eq]
  exact Or.imp (head?_withReturns (by decide)) (head?_withReturns (by decide))

theorem next?_withReturns_eq_none {t : Text} (h : '\r' ∉ t) (hnone : next? t = none) :
    next? (Text.withReturns t) = none := by
  cases t with
  | nil => rfl
  | cons c t =>
      rw [Token.next?_eq_none_iff] at hnone
      rcases hnone with ⟨hspace, htab, hbreak, _, hcomment⟩
      rw [withReturns_cons hbreak, Token.next?_eq_none_iff]
      refine ⟨hspace, htab, hbreak, ?_, fun hc => hcomment ⟨hc.1, opensComment_withReturns t hc.2⟩⟩
      rintro ⟨rfl, -⟩
      exact h (List.mem_cons_self ..)

theorem next?_withReturns {t : Text} (h : '\r' ∉ t) :
    next? (Text.withReturns t) = (next? t).map fun (p, n) => (p.withReturns, stretched n t) := by
  cases hnext : next? t with
  | none => rw [next?_withReturns_eq_none h hnext, Option.map_none]
  | some found =>
      rw [Option.map_some]
      unfold next? at hnext
      split at hnext
      · next u =>
          cases hnext
          have hlength := runLength_withReturns (p := (· == ' ')) rfl rfl (' ' :: u)
          dsimp only
          rw [stretched_runLength rfl rfl, ← hlength]
          rfl
      · next u =>
          cases hnext
          have hlength := runLength_withReturns (p := (· == '\t')) rfl rfl ('\t' :: u)
          dsimp only
          rw [stretched_runLength rfl rfl, ← hlength]
          rfl
      · next u =>
          cases hnext
          dsimp only
          rw [stretched_run, ← crlfPairs_withReturns h]
          rfl
      · exact absurd (List.mem_cons_self ..) h
      · next u =>
          cases hnext
          dsimp only [withReturns]
          rw [← take_stretched, stretched_runLength rfl rfl]
          rfl
      · next u =>
          cases hnext
          rcases blockEnd_withReturns 2 u with ⟨k, hk, hend⟩
          have hstretched : stretched (blockEnd 0 2 u) ('/' :: '*' :: u) =
              blockEnd 0 2 (Text.withReturns u) := by
            rw [hend, hk, Nat.add_comm, stretched_succ (by decide), stretched_succ (by decide)]
            omega
          dsimp only [withReturns]
          rw [← take_stretched, hstretched]
          rfl
      · cases hnext

end Piece

namespace Trivia

/-- The trivia with a carriage return in front of every line feed. -/
def withReturns (t : Trivia) : Trivia := t.map Piece.withReturns

theorem notMem_scan {inLine : Bool} {t rest : Text} {pieces : Trivia}
    (h : scan inLine t = (pieces, rest)) (hreturn : '\r' ∉ t) : '\r' ∉ rest := by
  have hcode := code_scan inLine t
  rw [h] at hcode
  rw [← hcode, List.mem_append, not_or] at hreturn
  exact hreturn.2

theorem scan_withReturns (inLine : Bool) {t : Text} (h : '\r' ∉ t) :
    scan inLine (Text.withReturns t) =
      ((scan inLine t).1.withReturns, Text.withReturns (scan inLine t).2) := by
  induction t using scan_induction inLine with
  | absent t hnone =>
      rw [scan_of_next?_eq_none hnone, scan_of_next?_eq_none (Piece.next?_withReturns_eq_none h hnone)]
      rfl
  | stopped t p n hnext hline =>
      have hnext' := Piece.next?_withReturns h
      rw [hnext, Option.map_some] at hnext'
      rw [scan_of_next?_eq_some hnext, scan_of_next?_eq_some hnext', Piece.isNewline_withReturns,
        if_pos hline, if_pos hline]
      rfl
  | piece t p n hnext hline ih =>
      have hnext' := Piece.next?_withReturns h
      rw [hnext, Option.map_some] at hnext'
      rw [scan_of_next?_eq_some hnext, scan_of_next?_eq_some hnext', Piece.isNewline_withReturns,
        if_neg hline, if_neg hline, drop_stretched, ih fun hmem => h (List.mem_of_mem_drop hmem)]
      rfl

end Trivia

namespace Literal

/-!
# Literals
-/

def Layer.placeless : Layer → Layer
  | .quoted hashes multiline _ => .quoted hashes multiline 0
  | .interpolation depth => .interpolation depth

theorem unbroken_closing (hashes : Nat) (multiline : Bool) : Unbroken (closing hashes multiline) := by
  intro c hc
  rcases List.mem_append.mp hc with hc | hc
  · constructor
    · rintro rfl
      cases stopsWord_of_mem_quotes hc
    · rintro rfl
      cases stopsWord_of_mem_quotes hc
  · rw [List.eq_of_mem_replicate hc]
    decide

theorem unbroken_escape (hashes : Nat) : Unbroken (escape hashes) := by
  intro c hc
  rcases List.mem_cons.mp hc with rfl | hc
  · decide
  · rw [List.eq_of_mem_replicate hc]
    decide

theorem unbroken_append {p q : Text} (hp : Unbroken p) (hq : Unbroken q) : Unbroken (p ++ q) :=
  fun c hc => (List.mem_append.mp hc).elim (hp c) (hq c)

theorem opensMultiline_withReturns (t : Text) :
    opensMultiline (withReturns t) = opensMultiline t :=
  startsWith_withReturns (by decide) t

theorem step_withReturns {layers layers' : List Layer}
    (hsame : layers'.map Layer.placeless = layers.map Layer.placeless) {c : Char} (hc : c ≠ '\n')
    (n n' : Nat) (t : Text) :
    (step layers' n' (c :: withReturns t)).map (fun r => (r.1.map Layer.placeless, r.2)) =
      (step layers n (c :: t)).map fun r => (r.1.map Layer.placeless, r.2) := by
  have hstarts : ∀ {p : Text}, Unbroken p →
      startsWith p (c :: withReturns t) = startsWith p (c :: t) := by
    intro p hp
    rw [← withReturns_cons hc, startsWith_withReturns hp]
  -- Both stacks look for the same signs, and no sign holds a line feed.
  match layers, layers' with
  | [], [] => rfl
  | .quoted hashes multiline start :: outer, .quoted hashes' multiline' start' :: outer' =>
      simp only [List.map_cons, List.cons.injEq, Layer.placeless, Layer.quoted.injEq] at hsame
      rcases hsame with ⟨⟨rfl, rfl, -⟩, houter⟩
      have hfeed : ∀ u : Text, startsWith ['\n'] (c :: u) = false := by
        intro u
        rw [startsWith_cons, beq_eq_false_iff_ne.mpr (Ne.symm hc)]
        rfl
      have hescape := unbroken_escape hashes'
      rw [step_quoted, step_quoted, hstarts (unbroken_closing _ _), hfeed, hfeed,
        hstarts (unbroken_append hescape (by decide)), hstarts hescape]
      split
      · simp [houter]
      split
      · rfl
      split
      · simp [houter, Layer.placeless]
      split <;> simp [houter, Layer.placeless]
  | .interpolation depth :: outer, .interpolation depth' :: outer' =>
      simp only [List.map_cons, List.cons.injEq, Layer.placeless, Layer.interpolation.injEq] at hsame
      rcases hsame with ⟨rfl, houter⟩
      have hmultiline : opensMultiline (c :: withReturns t) = opensMultiline (c :: t) :=
        hstarts (by decide)
      rw [step_interpolation, step_interpolation, hmultiline]
      split
      · simp [houter, Layer.placeless]
      split
      · simp [houter, Layer.placeless]
      split
      · split <;> simp [houter, Layer.placeless]
      · simp [houter, Layer.placeless]

theorem notMem_take_of_startsWith {p : Text} (hp : Unbroken p) {c : Char} {t : Text}
    (h : startsWith p (c :: t) = true) : '\n' ∉ t.take (p.length - 1) := by
  rcases Option.isSome_iff_exists.mp h with ⟨r, hr⟩
  have hsplit := eq_append_of_after? hr
  cases p with
  | nil => exact List.not_mem_nil
  | cons d p =>
      rw [List.cons_append] at hsplit
      rw [(List.cons.inj hsplit).2, List.length_cons, Nat.add_sub_cancel, List.take_left]
      exact fun hmem => (hp '\n' (List.mem_cons_of_mem _ hmem)).1 rfl

/-- Of the characters that belong to a sign only the last one can be a line feed, and none if the sign
closes the outermost literal. -/
theorem notMem_take_of_step {layers layers' : List Layer} {n skip : Nat} {c : Char} {t : Text}
    (h : step layers n (c :: t) = some (layers', skip)) :
    '\n' ∉ t.take (skip - 1) ∧ (layers' = [] → '\n' ∉ t.take skip) := by
  have hless : '\n' ∉ t.take skip → '\n' ∉ t.take (skip - 1) :=
    fun hnot hmem => hnot (List.take_subset_take_left t (Nat.sub_le skip 1) hmem)
  match layers with
  | .quoted hashes multiline start :: outer =>
      rw [step_quoted] at h
      split at h
      · next hclosing =>
          cases h
          have hnot := notMem_take_of_startsWith (unbroken_closing _ _) hclosing
          exact ⟨hless hnot, fun _ => hnot⟩
      split at h
      · cases h
      split at h
      · next hopen =>
          cases h
          have hnot := notMem_take_of_startsWith
            (unbroken_append (unbroken_escape hashes) (by decide)) hopen
          rw [show (escape hashes ++ ['(']).length - 1 = hashes + 1 by simp [escape]] at hnot
          exact ⟨hless hnot, fun _ => hnot⟩
      split at h
      · next hback =>
          cases h
          have hnot := notMem_take_of_startsWith (unbroken_escape hashes) hback
          rw [show (escape hashes).length - 1 = hashes by simp [escape]] at hnot
          exact ⟨hnot, fun hnil => absurd hnil (List.cons_ne_nil _ _)⟩
      · cases h
        exact ⟨List.not_mem_nil, fun hnil => absurd hnil (List.cons_ne_nil _ _)⟩
  | .interpolation depth :: outer =>
      rw [step_interpolation] at h
      split at h
      · cases h
        refine ⟨?_, fun hnil => absurd hnil (List.cons_ne_nil _ _)⟩
        apply hless
        cases hmultiline : opensMultiline (c :: t) with
        | false => exact List.not_mem_nil
        | true => exact notMem_take_of_startsWith (p := quotes true) (by decide) hmultiline
      split at h
      · cases h
        exact ⟨List.not_mem_nil, fun hnil => absurd hnil (List.cons_ne_nil _ _)⟩
      split at h
      · cases h
        exact ⟨List.not_mem_nil, fun _ => List.not_mem_nil⟩
      · cases h
        exact ⟨List.not_mem_nil, fun hnil => absurd hnil (List.cons_ne_nil _ _)⟩

theorem closing_ne_nil (hashes : Nat) (multiline : Bool) : closing hashes multiline ≠ [] := by
  cases multiline <;> exact List.cons_ne_nil _ _

/-- A character of a line break opens and closes nothing, but a line feed may break the literal off. -/
theorem step_break {l : Layer} {outer : List Layer} {n : Nat} {c : Char} {t : Text}
    (hc : c = '\n' ∨ c = '\r') :
    step (l :: outer) n (c :: t) = some (l :: outer, 0) ∨
      c = '\n' ∧ step (l :: outer) n (c :: t) = none := by
  cases l with
  | quoted hashes multiline start =>
      have hescape := unbroken_escape hashes
      have hne : escape hashes ≠ [] := List.cons_ne_nil _ _
      rw [step_quoted, startsWith_break (closing_ne_nil _ _) (unbroken_closing _ _) hc,
        startsWith_break (by simp) (unbroken_append hescape (by decide)) hc,
        startsWith_break hne hescape hc]
      rcases hc with rfl | rfl
      · cases multiline with
        | false => exact Or.inr ⟨rfl, rfl⟩
        | true => exact Or.inl rfl
      · cases multiline <;> exact Or.inl rfl
  | interpolation depth =>
      rw [step_interpolation]
      rcases hc with rfl | rfl <;> exact Or.inl rfl

theorem lengthFrom_newline {l : Layer} {outer : List Layer} {n m : Nat} {t : Text}
    (h : lengthFrom (l :: outer) 0 n ('\n' :: t) = .ok m) :
    lengthFrom (l :: outer) 0 (n + 1) t = .ok m := by
  rw [lengthFrom, if_neg (by simp)] at h
  rcases @step_break l outer n '\n' t (Or.inl rfl) with hstep | ⟨-, hstep⟩
  · rw [hstep] at h
    exact h
  · rw [hstep] at h
    cases h

theorem lengthFrom_return (l : Layer) (outer : List Layer) (n : Nat) (t : Text) :
    lengthFrom (l :: outer) 0 n ('\r' :: t) = lengthFrom (l :: outer) 0 (n + 1) t := by
  rw [lengthFrom, if_neg (by simp)]
  rcases @step_break l outer n '\r' t (Or.inr rfl) with hstep | ⟨hfeed, -⟩
  · rw [hstep]
  · cases hfeed

/-- The line feed itself is escaped, or only the carriage return in front of it, or nothing is. -/
theorem lengthFrom_both_newline {l l' : Layer} {outer outer' : List Layer} {skip n n' m m' : Nat}
    {t t' : Text} (hskip : skip ≤ 1) (h : lengthFrom (l :: outer) skip n ('\n' :: t) = .ok m)
    (h' : lengthFrom (l' :: outer') skip n' ('\r' :: '\n' :: t') = .ok m') :
    lengthFrom (l :: outer) 0 (n + 1) t = .ok m ∧
      lengthFrom (l' :: outer') 0 (n' + 1 + 1) t' = .ok m' := by
  cases skip with
  | zero =>
      rw [lengthFrom_return] at h'
      exact ⟨lengthFrom_newline h, lengthFrom_newline h'⟩
  | succ skip =>
      obtain rfl : skip = 0 := by omega
      rw [lengthFrom] at h h'
      exact ⟨h, lengthFrom_newline h'⟩

/-- A character that is no line feed leads to layers that differ only in where they start. -/
theorem lengthFrom_both_step {layers layers' : List Layer} {n n' m m' : Nat} {c : Char} {t : Text}
    (hsame : layers'.map Layer.placeless = layers.map Layer.placeless) (hc : c ≠ '\n')
    (hopen : layers ≠ []) (h : lengthFrom layers 0 n (c :: t) = .ok m)
    (h' : lengthFrom layers' 0 n' (c :: withReturns t) = .ok m') :
    ∃ inner inner' skip, inner'.map Layer.placeless = inner.map Layer.placeless ∧
      '\n' ∉ t.take (skip - 1) ∧ (inner = [] → '\n' ∉ t.take skip) ∧
      lengthFrom inner skip (n + 1) t = .ok m ∧
      lengthFrom inner' skip (n' + 1) (withReturns t) = .ok m' := by
  have hopen' : layers' ≠ [] := by
    rintro rfl
    exact hopen (List.map_eq_nil_iff.mp hsame.symm)
  have hstep := step_withReturns hsame hc n n' t
  rw [lengthFrom, if_neg (by simpa using hopen)] at h
  rw [lengthFrom, if_neg (by simpa using hopen')] at h'
  split at h
  · cases h
  next inner skip hinner =>
  rw [hinner, Option.map_some, Option.map_eq_some_iff] at hstep
  rcases hstep with ⟨⟨inner', skip'⟩, hinner', heq⟩
  rw [Prod.mk.injEq] at heq
  rcases heq with ⟨hsame', rfl⟩
  rw [hinner'] at h'
  have hnot := notMem_take_of_step hinner
  exact ⟨inner, inner', skip', hsame', hnot.1, hnot.2, h, h'⟩

theorem lengthFrom_withReturns {layers layers' : List Layer} {skip n n' m m' : Nat} {t : Text}
    (hsame : layers'.map Layer.placeless = layers.map Layer.placeless)
    (hskip : '\n' ∉ t.take (skip - 1)) (hclosed : layers = [] → '\n' ∉ t.take skip)
    (h : lengthFrom layers skip n t = .ok m)
    (h' : lengthFrom layers' skip n' (withReturns t) = .ok m') :
    ∃ k, m = n + k ∧ m' = n' + stretched k t := by
  -- The induction is on the text. Of the characters that are skipped only the last one can be a
  -- line feed, so both readers are at the same line feed at the same time.
  induction t generalizing layers layers' skip n n' with
  | nil =>
      rw [withReturns, lengthFrom] at h'
      rw [lengthFrom] at h
      split at h
      · split at h'
        · cases h
          cases h'
          exact ⟨0, rfl, rfl⟩
        · cases h'
      · cases h
  | cons c t ih =>
      by_cases hempty : layers = [] ∧ skip = 0
      · rcases hempty with ⟨rfl, rfl⟩
        rw [List.map_nil, List.map_eq_nil_iff] at hsame
        subst hsame
        refine ⟨0, ?_, ?_⟩
        · cases h
          rfl
        · rw [withReturns] at h'
          split at h'
          · cases h'
            rfl
          · cases h'
            rfl
      by_cases hc : c = '\n'
      · subst hc
        have hone : skip ≤ 1 := by
          by_contra hmore
          apply hskip
          rw [List.take_cons (by omega)]
          exact List.mem_cons_self ..
        cases layers with
        | nil =>
            have hmem : '\n' ∈ ('\n' :: t).take skip := by
              rw [List.take_cons (Nat.pos_of_ne_zero fun hzero => hempty ⟨rfl, hzero⟩)]
              exact List.mem_cons_self ..
            exact absurd hmem (hclosed rfl)
        | cons l outer =>
            rcases List.map_eq_cons_iff.mp hsame with ⟨l', outer', rfl, -, -⟩
            rcases lengthFrom_both_newline hone h h' with ⟨hnext, hnext'⟩
            rcases ih hsame List.not_mem_nil (fun _ => List.not_mem_nil) hnext hnext' with ⟨k, hm, hm'⟩
            exact ⟨k + 1, by omega, by rw [stretched_newline]; omega⟩
      rw [withReturns_cons hc] at h'
      cases skip with
      | succ skip =>
          rw [lengthFrom] at h h'
          have hskip' : '\n' ∉ t.take (skip - 1) := by
            cases skip with
            | zero => exact List.not_mem_nil
            | succ skip => exact fun hmem => hskip (List.mem_cons_of_mem c hmem)
          rcases ih hsame hskip' (fun hnil hmem => hclosed hnil (List.mem_cons_of_mem c hmem)) h h'
            with ⟨k, hm, hm'⟩
          exact ⟨k + 1, by omega, by rw [stretched_succ hc]; omega⟩
      | zero =>
          have hopen : layers ≠ [] := fun hnil => hempty ⟨hnil, rfl⟩
          rcases lengthFrom_both_step hsame hc hopen h h' with
            ⟨inner, inner', skip, hsame', hnot, hnot', hnext, hnext'⟩
          rcases ih hsame' hnot hnot' hnext hnext' with ⟨k, hm, hm'⟩
          exact ⟨k + 1, by omega, by rw [stretched_succ hc]; omega⟩

theorem opensAt_withReturns (t : Text) : opensAt (withReturns t) = opensAt t := by
  induction t with
  | nil => rfl
  | cons c t ih =>
      by_cases hc : c = '\n'
      · subst hc
        rw [withReturns_newline, opensAt_cons, opensAt_cons]
        rfl
      · rw [withReturns_cons hc, opensAt_cons, opensAt_cons, ih]

theorem notMem_take_of_opensAt {t : Text} (h : opensAt t = true) :
    '\n' ∉ t.take (runLength (· == '#') t +
      (quotes (opensMultiline (t.drop (runLength (· == '#') t)))).length) := by
  have hrest : ∃ u, t.drop (runLength (· == '#') t) = '"' :: u := by
    rw [drop_runLength]
    unfold opensAt at h
    split at h
    · next u heq => exact ⟨u, heq⟩
    · cases h
  rcases hrest with ⟨u, hu⟩
  rw [List.take_add, List.mem_append, not_or]
  refine ⟨notMem_take_runLength rfl t, ?_⟩
  rw [hu]
  cases hmultiline : opensMultiline ('"' :: u) with
  | false =>
      intro hmem
      cases List.mem_singleton.mp hmem
  | true =>
      have hnot := notMem_take_of_startsWith (p := quotes true) (by decide) hmultiline
      exact fun hmem => (List.mem_cons.mp hmem).elim (by decide) hnot

theorem length_withReturns {t : Text} (hopens : opensAt t = true) {m m' : Nat}
    (h : length t = .ok m) (h' : length (withReturns t) = .ok m') : m' = stretched m t := by
  have hnot := notMem_take_of_opensAt hopens
  have hhashes : runLength (· == '#') (withReturns t) = runLength (· == '#') t :=
    runLength_withReturns rfl rfl t
  have hdrop : (withReturns t).drop (runLength (· == '#') t) =
      withReturns (t.drop (runLength (· == '#') t)) := by
    rw [← drop_stretched, stretched_runLength rfl rfl, hhashes]
  unfold length at h h'
  dsimp only at h h'
  rw [hhashes, hdrop, opensMultiline_withReturns] at h'
  have hskip := fun hmem => hnot (List.take_subset_take_left t (Nat.sub_le _ 1) hmem)
  rcases lengthFrom_withReturns rfl hskip (fun hnil => absurd hnil (List.cons_ne_nil _ _)) h h'
    with ⟨k, hm, hm'⟩
  rw [hm', hm, Nat.zero_add, Nat.zero_add]

end Literal

namespace Token

/-!
# Tokens
-/

theorem measure_backquote (marks : Bool) (r : Text) :
    measure marks '\x60' r = .ok (.identifier, backquotedLength r) :=
  measure_eq_ok_iff.mpr (.plain (fun _ => by decide) (.quoted rfl))

theorem length_of_measure {marks : Bool} {c : Char} {r : Text} {kind : TokenKind} {n : Nat}
    (hopens : Literal.opensAt (c :: r) = true) (h : measure marks c r = .ok (kind, n)) :
    Literal.length (c :: r) = .ok n ∧ kind = .stringLiteral := by
  rw [measure_literal hopens] at h
  cases hlength : Literal.length (c :: r) with
  | error e =>
      rw [hlength] at h
      cases h
  | ok m =>
      rw [hlength] at h
      cases h
      exact ⟨rfl, rfl⟩

theorem stretched_of_find? {p t : Text} {i : Nat} (hp : Unbroken p) (h : find? p t = some i) :
    stretched (i + p.length) t = stretched i t + p.length := by
  have hnot : '\n' ∉ p := fun hmem => (hp '\n' hmem).1 rfl
  rw [stretched, split_of_find? h, withReturns_append, withReturns_of_notMem hnot,
    List.length_append]
  rfl

theorem backquotedLength_withReturns (r : Text) :
    backquotedLength (withReturns r) = stretched (backquotedLength r) ('\x60' :: r) := by
  have hfind := find?_withReturns (p := ['\x60']) (List.cons_ne_nil _ _) (by decide) r
  unfold backquotedLength
  rw [hfind]
  cases hend : find? ['\x60'] r with
  | none =>
      rw [Option.map_none]
      dsimp only
      rw [stretched_succ (by decide), stretched, List.take_length]
  | some i =>
      rw [Option.map_some]
      dsimp only
      have hi : stretched (i + 1) r = stretched i r + 1 := stretched_of_find? (by decide) hend
      rw [stretched_succ (by decide), hi]

theorem placeholderLength?_withReturns (r : Text) :
    placeholderLength? ('<' :: '#' :: withReturns r) =
      (placeholderLength? ('<' :: '#' :: r)).map (stretched · ('<' :: '#' :: r)) := by
  have hfind := find?_withReturns (p := ['#', '>']) (List.cons_ne_nil _ _) (by decide) r
  have hlength : ∀ u, placeholderLength? ('<' :: '#' :: u) = (find? ['#', '>'] u).map (· + 4) :=
    fun _ => rfl
  rw [hlength, hlength, hfind]
  cases hend : find? ['#', '>'] r with
  | none => rfl
  | some i =>
      have hi : stretched (i + 2) r = stretched i r + 2 := stretched_of_find? (by decide) hend
      rw [Option.map_some, Option.map_some, Option.map_some, Option.map_some,
        stretched_succ (by decide), stretched_succ (by decide), hi]

theorem measure_sign_withReturns {marks : Bool} {r : Text} {kind kind' : TokenKind} {n n' : Nat}
    (h : measure marks '<' ('#' :: r) = .ok (kind, n))
    (h' : measure marks '<' (withReturns ('#' :: r)) = .ok (kind', n')) :
    kind' = kind ∧ n' = stretched n ('<' :: '#' :: r) := by
  have hmoved := placeholderLength?_withReturns r
  rw [withReturns_cons (by decide)] at h'
  cases hlength : placeholderLength? ('<' :: '#' :: r) with
  | none =>
      rw [hlength] at hmoved
      rw [measure_less marks hlength, operatorTail_cons] at h
      rw [measure_less marks hmoved, operatorTail_cons] at h'
      cases h
      cases h'
      exact ⟨rfl, rfl⟩
  | some m =>
      rw [hlength, Option.map_some] at hmoved
      rw [measure_placeholder marks hlength] at h
      rw [measure_placeholder marks hmoved] at h'
      cases h
      cases h'
      exact ⟨rfl, rfl⟩

theorem measure_line {marks : Bool} {c : Char} {line u : Text} {kind : TokenKind} {n : Nat}
    (h : measure marks c line = .ok (kind, n)) (hu : Outlook [] u)
    (hless : c = '<' → line.head? ≠ some '#') (hname : c ≠ '\x60') :
    measure marks c (line ++ u) = .ok (kind, n) := by
  have hpos := measure_pos h
  have hle := measure_le h
  have hn : n = (line.take (n - 1)).length + 1 := by
    rw [List.length_take]
    omega
  have hsplit := List.take_append_drop (n - 1) line
  generalize line.take (n - 1) = front at hn hsplit
  generalize line.drop (n - 1) = behind at hsplit
  subst hsplit
  rw [List.append_assoc, hn]
  rw [hn] at h
  apply measure_append _ _ _ h
  · rintro hc rfl
    exact hless hc
  · exact fun hc => absurd hc hname
  · have hbehind := hu.append behind
    rwa [List.append_nil] at hbehind

theorem outlook_line {u : Text} (h : u = [] ∨ ∃ v, u = '\n' :: v) :
    Outlook [] u ∧ Outlook [] (withReturns u) := by
  rcases h with rfl | ⟨v, rfl⟩
  · exact ⟨Outlook.refl [], Outlook.refl []⟩
  · exact ⟨Outlook.of_quiet quiet_nil (quiet_cons rfl _) fun _ => endsLine_cons rfl _,
      Outlook.of_quiet quiet_nil (quiet_cons rfl _) fun _ => endsLine_cons rfl _⟩

theorem measure_withReturns {marks : Bool} {c : Char} {r : Text} {kind kind' : TokenKind} {n n' : Nat}
    (hc : c ≠ '\n') (h : measure marks c r = .ok (kind, n))
    (h' : measure marks c (withReturns r) = .ok (kind', n')) :
    kind' = kind ∧ n' = stretched n (c :: r) := by
  by_cases hname : c = '\x60'
  · subst hname
    rw [measure_backquote] at h h'
    cases h
    cases h'
    exact ⟨rfl, backquotedLength_withReturns r⟩
  by_cases hopens : Literal.opensAt (c :: r) = true
  · have hopens' := Literal.opensAt_withReturns (c :: r)
    rw [hopens, withReturns_cons hc] at hopens'
    rcases length_of_measure hopens h with ⟨hlength, rfl⟩
    rcases length_of_measure hopens' h' with ⟨hlength', rfl⟩
    rw [← withReturns_cons hc] at hlength'
    exact ⟨rfl, Literal.length_withReturns hopens hlength hlength'⟩
  by_cases hless : c = '<' ∧ r.head? = some '#'
  · rcases hless with ⟨rfl, hhead⟩
    rcases List.head?_eq_some_iff.mp hhead with ⟨u, rfl⟩
    exact measure_sign_withReturns h h'
  rcases exists_first_line r with ⟨line, u, rfl, hline, hu⟩
  rcases outlook_line hu with ⟨hout, hout'⟩
  rw [withReturns_append, withReturns_of_notMem hline] at h'
  have hhead : c = '<' → line.head? ≠ some '#' := by
    intro hc hhead
    apply hless
    refine ⟨hc, ?_⟩
    rw [List.head?_append, hhead]
    rfl
  cases hmeasure : measure marks c line with
  | error e =>
      have hliteral := (literal_of_measure_error hmeasure).1
      have hsame := Literal.opensAt_append hout.opens (c :: line)
      rw [List.append_nil, hliteral, List.cons_append] at hsame
      exact absurd hsame.symm hopens
  | ok found =>
      rcases found with ⟨k, m⟩
      have hread := measure_line hmeasure hout hhead hname
      have hread' := measure_line hmeasure hout' hhead hname
      rw [h] at hread
      rw [h'] at hread'
      cases hread
      cases hread'
      have hle := measure_le hmeasure
      refine ⟨rfl, (stretched_of_notMem ?_ ?_).symm⟩
      · rw [← List.cons_append, List.take_append_of_le_length hle]
        intro hmem
        exact (List.mem_cons.mp (List.mem_of_mem_take hmem)).elim (Ne.symm hc) hline
      · rw [List.length_cons, List.length_append]
        omega

/-- The token with a carriage return in front of every line feed. -/
def withReturns (t : Token) : Token :=
  ⟨t.kind, Text.withReturns t.text, t.leading.withReturns, t.trailing.withReturns⟩

theorem isBareTry_withReturns (t : Token) : t.withReturns.isBareTry = t.isBareTry := by
  have htext : Text.withReturns t.text = "try".toList ↔ t.text = "try".toList :=
    withReturns_eq_iff (by decide) (by decide)
  rw [isBareTry, isBareTry, isKeyword, isKeyword, Bool.eq_iff_iff]
  simp only [withReturns, Trivia.withReturns, Bool.and_eq_true, beq_iff_eq, htext,
    List.isEmpty_iff, List.map_eq_nil_iff]

theorem afterTry_withReturns (previous : Option Token) :
    afterTry (previous.map withReturns) = afterTry previous := by
  cases previous with
  | none => rfl
  | some t => exact isBareTry_withReturns t

end Token

namespace Tokens

theorem lexes_withReturns {previous : Option Token} {t : Text} {body body' : List Token}
    {ending ending' : Trivia} (h : Lexes previous t body ending) (hreturn : '\r' ∉ t)
    (h' : Lexes (previous.map Token.withReturns) (Text.withReturns t) body' ending') :
    body' = body.map Token.withReturns ∧ ending' = ending.withReturns := by
  -- By induction on the reading of the text; each token of it decides the next one of the other
  -- text.
  induction h generalizing body' ending' with
  | @ending previous t leading gap =>
      have hscan := Trivia.scan_withReturns false hreturn
      rw [gap] at hscan
      cases h' with
      | ending gap' =>
          rw [hscan] at gap'
          cases gap'
          exact ⟨rfl, rfl⟩
      | token gap' =>
          rw [hscan] at gap'
          cases gap'
  | @token previous t leading trailing ending c r rest kind n body gap found behind next ih =>
      have hscan := Trivia.scan_withReturns false hreturn
      have hrest := Trivia.notMem_scan gap hreturn
      rw [gap] at hscan
      have hstarts := Trivia.next?_scan t
      rw [gap, Token.next?_eq_none_iff] at hstarts
      have hc : c ≠ '\n' := hstarts.2.2.1
      cases h' with
      | ending gap' =>
          rw [hscan, withReturns_cons hc] at gap'
          cases gap'
      | @token _ _ leading' trailing' _ c' r' rest' kind' n' body' gap' found' behind' next' =>
          rw [hscan, withReturns_cons hc] at gap'
          cases gap'
          rw [Token.afterTry_withReturns] at found'
          rcases Token.measure_withReturns hc found found' with ⟨rfl, rfl⟩
          have hdrop : '\r' ∉ (c :: r).drop n := fun hmem => hrest (List.mem_of_mem_drop hmem)
          rw [← withReturns_cons hc, drop_stretched, Trivia.scan_withReturns true hdrop, behind]
            at behind'
          cases behind'
          rw [← withReturns_cons hc, take_stretched] at next' ⊢
          rcases ih (Trivia.notMem_scan behind hdrop) next' with ⟨rfl, rfl⟩
          exact ⟨rfl, rfl⟩

end Tokens
end ForceTry

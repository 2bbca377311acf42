import ForceTry.Proofs.Indentation.Reread
import ForceTry.Proofs.Indentation.Rows
import ForceTry.Proofs.Token.Returns
import ForceTry.Proofs.Tree.Parsed

/-!
# What the indentation of a file shows

Every line that is indented further than the line in front of it, by one tab or by spaces alone, is a
sample of a unit.  The unit of a file is the one with the most samples, the first of several, and a file
without samples has none.  Carriage returns in front of the line feeds change no indentation, so they
change no unit.
-/

namespace ForceTry

open Text

/-!
# Samples
-/

/-- `line` is `before` with one tab or with some spaces behind it. -/
def IndentUnit.Extends (before line : Text) : IndentUnit → Prop
  | .tab => line = before ++ ['\t']
  | .spaces n => 0 < n ∧ line = before ++ List.replicate n ' '

/-- The samples of some lines: the unit of every line that extends the line in front of it. -/
inductive Samples : List Text → List IndentUnit → Prop where
  | single (line : Text) : Samples [line] []
  | taken {before line : Text} {lines : List Text} {u : IndentUnit} {samples : List IndentUnit}
      (unit : u.Extends before line) (rest : Samples (line :: lines) samples) :
      Samples (before :: line :: lines) (u :: samples)
  | passed {before line : Text} {lines : List Text} {samples : List IndentUnit}
      (none : ∀ u : IndentUnit, ¬ u.Extends before line) (rest : Samples (line :: lines) samples) :
      Samples (before :: line :: lines) samples

/-- The unit has more samples than the other one, or as many and the first of them stands in front. -/
def IndentUnit.Beats (samples : List IndentUnit) (u v : IndentUnit) : Prop :=
  samples.count v < samples.count u ∨
    samples.count v = samples.count u ∧ samples.idxOf u < samples.idxOf v

/-- The unit has samples and beats every other unit that has some. -/
def IndentUnit.Leads (samples : List IndentUnit) (u : IndentUnit) : Prop :=
  u ∈ samples ∧ ∀ v ∈ samples, v ≠ u → u.Beats samples v

theorem IndentUnit.Beats.asymm {samples : List IndentUnit} {u v : IndentUnit}
    (h : u.Beats samples v) : ¬ v.Beats samples u := by
  unfold Beats at *
  omega

namespace Tree

theorem sample?_eq_some_iff (before line : Text) (u : IndentUnit) :
    sample? before line = some u ↔ u.Extends before line := by
  constructor
  · intro h
    unfold sample? at h
    split at h
    · next hafter =>
        cases h
        exact eq_append_of_after? hafter
    · next c r hafter =>
        split at h
        · next hspaces =>
            cases h
            refine ⟨Nat.succ_pos _, ?_⟩
            rw [eq_append_of_after? hafter, List.append_cancel_left_eq]
            rw [List.all_eq_true] at hspaces
            exact List.eq_replicate_of_mem fun d hd => eq_of_beq (hspaces d hd)
        · cases h
    · cases h
  · intro h
    cases u with
    | tab =>
        have hline : line = before ++ ['\t'] := h
        rw [hline, sample?, after?_append]
        rfl
    | spaces n =>
        rcases h with ⟨hpos, hline⟩
        cases n with
        | zero => cases hpos
        | succ n =>
            have hall : (' ' :: List.replicate n ' ').all (· == ' ') = true := by simp
            rw [hline, sample?, after?_append, List.replicate_succ]
            split
            · next heq => cases heq
            · next heq =>
                cases heq
                rw [if_pos hall, List.length_replicate]
            · next _ hother => exact absurd rfl (hother ' ' (List.replicate n ' '))

theorem samples_iff (before : Text) (lines : List Text) (samples : List IndentUnit) :
    Samples (before :: lines) samples ↔ samples = samplesFrom before lines := by
  -- By induction on the lines: each pair of lines gives the sample that `sample?` finds, or none.
  induction lines generalizing before samples with
  | nil =>
      constructor
      · rintro ⟨⟩
        rfl
      · rintro rfl
        exact .single before
  | cons line lines ih =>
      rw [samplesFrom]
      cases hsample : sample? before line with
      | none =>
          have hnone : ∀ u : IndentUnit, ¬ u.Extends before line := by
            intro u hu
            rw [(sample?_eq_some_iff before line u).mpr hu] at hsample
            cases hsample
          constructor
          · intro h
            cases h with
            | taken unit rest => exact absurd unit (hnone _)
            | passed none rest => exact (ih line samples).mp rest
          · exact fun h => .passed hnone ((ih line samples).mpr h)
      | some u =>
          have hu := (sample?_eq_some_iff before line u).mp hsample
          constructor
          · intro h
            cases h with
            | @taken _ _ _ v samples unit rest =>
                have hv := (sample?_eq_some_iff before line v).mpr unit
                rw [hsample] at hv
                cases hv
                rw [(ih line samples).mp rest]
                rfl
            | passed none rest => exact absurd hu (none u)
          · rintro rfl
            exact .taken hu ((ih line _).mpr rfl)

/-!
# The unit with the most samples
-/

/-- Of the samples `xs`, which stand at the start of all samples, `best` is the unit that leads. -/
def LeadsIn (samples xs : List IndentUnit) (best : Option IndentUnit) : Prop :=
  (best = none → xs = []) ∧ ∀ u ∈ best, u ∈ xs ∧ ∀ v ∈ xs, v ≠ u → u.Beats samples v

theorem LeadsIn.concat {samples xs ys : List IndentUnit} {x b : IndentUnit}
    (hsplit : samples = xs ++ x :: ys) (h : LeadsIn samples xs (some b)) :
    LeadsIn samples (xs ++ [x])
      (if samples.count b < samples.count x then some x else some b) := by
  rcases h.2 b rfl with ⟨hb, hbeats⟩
  have hmem : ∀ v, v ∈ xs ++ [x] → v ∈ xs ∨ v = x := by
    intro v hv
    simpa using hv
  split
  · next hmore =>
      refine ⟨fun hnone => absurd hnone (Option.some_ne_none _), ?_⟩
      rintro u ⟨⟩
      refine ⟨by simp, ?_⟩
      intro v hv hne
      have hle : samples.count v ≤ samples.count b := by
        by_cases hvb : v = b
        · exact Nat.le_of_eq (hvb ▸ rfl)
        · rcases hbeats v ((hmem v hv).resolve_right hne) hvb with hless | ⟨heq, -⟩
          · exact Nat.le_of_lt hless
          · exact Nat.le_of_eq heq
      exact Or.inl (Nat.lt_of_le_of_lt hle hmore)
  · next hless =>
      refine ⟨fun hnone => absurd hnone (Option.some_ne_none _), ?_⟩
      rintro u ⟨⟩
      refine ⟨List.mem_append_left _ hb, ?_⟩
      intro v hv hne
      by_cases hxs : v ∈ xs
      · exact hbeats v hxs hne
      · have hvx := (hmem v hv).resolve_left hxs
        subst hvx
        have hfirst : samples.idxOf b < samples.idxOf v := by
          rw [hsplit, List.idxOf_append_of_mem hb, List.idxOf_append_of_notMem hxs]
          exact Nat.lt_of_lt_of_le (List.idxOf_lt_length_of_mem hb) (Nat.le_add_right _ _)
        rcases Nat.lt_or_eq_of_le (Nat.le_of_not_lt hless) with hlt | heq
        · exact Or.inl hlt
        · exact Or.inr ⟨heq, hfirst⟩

theorem leadsIn_foldl {samples : List IndentUnit}
    {next : Option IndentUnit → IndentUnit → Option IndentUnit}
    (hnext : ∀ {xs ys : List IndentUnit} {x : IndentUnit} {best : Option IndentUnit},
      samples = xs ++ x :: ys → LeadsIn samples xs best →
        LeadsIn samples (xs ++ [x]) (next best x))
    {xs ys : List IndentUnit} {best : Option IndentUnit} (hsplit : samples = xs ++ ys)
    (hbest : LeadsIn samples xs best) : LeadsIn samples samples (ys.foldl next best) := by
  -- By induction on the samples that are left, where each of them may take the lead.
  induction ys generalizing xs best with
  | nil =>
      rw [List.append_nil] at hsplit
      rw [hsplit] at hbest ⊢
      exact hbest
  | cons y ys ih =>
      rw [List.foldl_cons]
      apply ih _ (hnext hsplit hbest)
      rw [hsplit, List.append_assoc]
      rfl

theorem leadsIn_mostCommon? (samples : List IndentUnit) :
    LeadsIn samples samples (mostCommon? samples) := by
  refine leadsIn_foldl ?_ rfl ⟨fun _ => rfl, ?_⟩
  · intro xs ys x best hsplit hbest
    cases best with
    | none =>
        rw [hbest.1 rfl]
        refine ⟨fun hnone => absurd hnone (Option.some_ne_none _), ?_⟩
        rintro u ⟨⟩
        exact ⟨List.mem_singleton_self x, fun v hv hne => absurd (List.mem_singleton.mp hv) hne⟩
    | some b => exact hbest.concat hsplit
  · rintro u ⟨⟩

theorem mostCommon?_eq_none_iff (samples : List IndentUnit) :
    mostCommon? samples = none ↔ samples = [] := by
  constructor
  · exact (leadsIn_mostCommon? samples).1
  · rintro rfl
    rfl

theorem mostCommon?_eq_some_iff (samples : List IndentUnit) (u : IndentUnit) :
    mostCommon? samples = some u ↔ u.Leads samples := by
  have hleads := leadsIn_mostCommon? samples
  constructor
  · exact fun h => hleads.2 u h
  · rintro ⟨hu, hbeats⟩
    cases hbest : mostCommon? samples with
    | none =>
        rw [(mostCommon?_eq_none_iff samples).mp hbest] at hu
        cases hu
    | some v =>
        rcases hleads.2 v hbest with ⟨hv, hbeats'⟩
        by_cases hvu : v = u
        · rw [hvu]
        · exact absurd (hbeats' u hu (Ne.symm hvu)) (hbeats v hv hvu).asymm

end Tree

/-!
# Carriage returns
-/

namespace Trivia

theorem containsNewline_withReturns (t : Trivia) :
    t.withReturns.containsNewline = t.containsNewline := by
  rw [containsNewline, containsNewline, withReturns, List.any_map]
  congr 1
  funext p
  exact Piece.isNewline_withReturns p

theorem afterLastNewline_withReturns (t : Trivia) :
    t.withReturns.afterLastNewline = t.afterLastNewline.withReturns := by
  have hindex : ∀ t : Trivia, t.withReturns.lastNewlineIndex? = t.lastNewlineIndex? := by
    intro t
    induction t with
    | nil => rfl
    | cons p t ih =>
        rw [withReturns, List.map_cons, lastNewlineIndex?, lastNewlineIndex?, ← withReturns, ih,
          Piece.isNewline_withReturns]
  rw [afterLastNewline, afterLastNewline, hindex]
  cases t.lastNewlineIndex? with
  | none => rfl
  | some i => exact List.map_drop.symm

theorem leadingIndentation_withReturns (t : Trivia) :
    t.withReturns.leadingIndentation = t.leadingIndentation := by
  rw [leadingIndentation, leadingIndentation, afterLastNewline_withReturns, withReturns,
    List.takeWhile_map]
  have hblank : Piece.isBlank ∘ Piece.withReturns = Piece.isBlank :=
    funext Piece.isBlank_withReturns
  rw [hblank]
  have hall : ∀ p ∈ t.afterLastNewline.takeWhile Piece.isBlank, p.withReturns = p :=
    fun p hp => Piece.withReturns_of_isBlank (List.mem_takeWhile_imp hp)
  exact (List.map_congr_left hall).trans (List.map_id _)

end Trivia

namespace Token

/-- The token is the first one of its line, where `previous` is the token in front of it. -/
def opensLine (previous : Option Token) (t : Token) : Bool :=
  previous.all fun p => t.leading.containsNewline || p.trailing.containsNewline

theorem opensLine_withReturns (previous : Option Token) (t : Token) :
    opensLine (previous.map withReturns) t.withReturns = opensLine previous t := by
  cases previous with
  | none => rfl
  | some p =>
      rw [opensLine, opensLine, Option.map_some, Option.all_some, Option.all_some, withReturns,
        withReturns, Trivia.containsNewline_withReturns, Trivia.containsNewline_withReturns]

end Token

namespace Tree

theorem startsBehind_eq (previous : Option Token) (l : Leaf) :
    startsBehind previous l = l.token.opensLine previous := by
  cases previous <;> rfl

/-- The indentations of the tokens that start a line, the end of the file left out. -/
def indentationsFrom (previous : Option Token) : List Token → List Text
  | [] => []
  | t :: ts =>
      if t.opensLine previous && t.kind != .endOfFile then
        t.leading.leadingIndentation.code :: indentationsFrom (some t) ts
      else indentationsFrom (some t) ts

theorem indentations_eq (t : Tree) : t.indentations = indentationsFrom none t.tokens := by
  rw [indentations, lineStarts, tokens]
  generalize (none : Option Token) = previous
  induction t.leaves generalizing previous with
  | nil => rfl
  | cons l ls ih =>
      rw [lineStartsFrom_cons, startsBehind_eq, List.map_cons, indentationsFrom, ← ih]
      cases hstarts : l.token.opensLine previous && l.token.kind != .endOfFile with
      | true => exact List.filterMap_cons_some (if_pos hstarts)
      | false => exact List.filterMap_cons_none (if_neg (by rw [hstarts]; exact Bool.false_ne_true))

theorem indentationsFrom_withReturns (previous : Option Token) (ts : List Token) :
    indentationsFrom (previous.map Token.withReturns) (ts.map Token.withReturns) =
      indentationsFrom previous ts := by
  induction ts generalizing previous with
  | nil => rfl
  | cons t ts ih =>
      have hrest := ih (some t)
      rw [Option.map_some] at hrest
      rw [List.map_cons, indentationsFrom, indentationsFrom, Token.opensLine_withReturns, hrest]
      have hindentation := Trivia.leadingIndentation_withReturns t.leading
      rw [show t.withReturns.leading.leadingIndentation = t.leading.leadingIndentation from
        hindentation]
      rfl

theorem tokens_withReturns {source : Text} (hreturn : '\r' ∉ source) {t t' : Tree}
    (h : ofText source = .ok t) (h' : ofText (Text.withReturns source) = .ok t') :
    t'.tokens = t.tokens.map Token.withReturns := by
  rcases (ofText_holds_tokens h).1 with ⟨ts, hts, htokens, -⟩
  rcases (ofText_holds_tokens h').1 with ⟨ts', hts', htokens', -⟩
  have hall := Tokens.lexes_withReturns ((Tokens.ofText_eq_ok_iff _ _).mp hts) hreturn
    ((Tokens.ofText_eq_ok_iff _ _).mp hts')
  rw [htokens, htokens', Tokens.toList, Tokens.toList, Tokens.endOfFile, Tokens.endOfFile, hall.1,
    hall.2, List.map_append]
  rfl

/-- The unit of a parsed tree is the one that leads among the samples of its lines, the first of which is
compared with no indentation, and there is none exactly if there is no sample.  A carriage return in
front of every line feed changes nothing. -/
theorem ofText_inferUnit {source : Text} {t : Tree} (h : ofText source = .ok t) :
    (∃ samples, Samples ([] :: t.indentations) samples ∧ (t.inferUnit? = none ↔ samples = []) ∧
      ∀ u, t.inferUnit? = some u ↔ u.Leads samples) ∧
    ('\r' ∉ source → ∀ t', ofText (Text.withReturns source) = .ok t' →
      t'.inferUnit? = t.inferUnit?) := by
  refine ⟨⟨samplesFrom [] t.indentations, (samples_iff [] _ _).mpr rfl, ?_, ?_⟩, ?_⟩
  · exact mostCommon?_eq_none_iff _
  · exact mostCommon?_eq_some_iff _
  · intro hreturn t' h'
    have hsame := indentationsFrom_withReturns none t.tokens
    rw [← tokens_withReturns hreturn h h'] at hsame
    rw [inferUnit?, inferUnit?, indentations_eq, indentations_eq t, ← hsame]
    rfl

/-- Two units with one sample each, the tab in front, and a literal over three lines. -/
theorem ofText_inferUnit_tie :
    let source := ofString "f \x7b\n\tg \x7b\n\t    let s = \"\"\"\n  a\n\"\"\"\n\t\x7d\n\x7d\n"
    ∃ t t', ofText source = .ok t ∧ ofText (Text.withReturns source) = .ok t' ∧ '\r' ∉ source ∧
      Samples [[], [], ['\t'], ['\t', ' ', ' ', ' ', ' '], ['\t'], []] [.tab, .spaces 4] ∧
      t.inferUnit? = some .tab ∧ t'.inferUnit? = some .tab := by
  intro source
  have hreturn : '\r' ∉ source := by decide
  have hok : ((ofText source).toOption.any fun t => t.indentations ==
      [[], ['\t'], ['\t', ' ', ' ', ' ', ' '], ['\t'], []]) = true := by decide +kernel
  have hok' : (ofText (Text.withReturns source)).isOk = true := by decide +kernel
  cases h : ofText source with
  | error e =>
      rw [h] at hok
      cases hok
  | ok t =>
  cases h' : ofText (Text.withReturns source) with
  | error e =>
      rw [h'] at hok'
      cases hok'
  | ok t' =>
  rw [h] at hok
  have hlines : t.indentations = [[], ['\t'], ['\t', ' ', ' ', ' ', ' '], ['\t'], []] :=
    eq_of_beq hok
  rcases ofText_inferUnit h with ⟨⟨samples, hsamples, -, hleads⟩, hsame⟩
  rw [hlines] at hsamples
  have hshown : samples = [.tab, .spaces 4] := (samples_iff _ _ _).mp hsamples
  rw [hshown] at hsamples hleads
  have htab : t.inferUnit? = some .tab := by
    rw [hleads]
    exact ⟨by decide, by unfold IndentUnit.Beats; decide⟩
  exact ⟨t, t', rfl, rfl, hreturn, hsamples, htab, (hsame hreturn t' h').trans htab⟩

end Tree
end ForceTry

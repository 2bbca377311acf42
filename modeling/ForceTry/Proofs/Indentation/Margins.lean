import ForceTry.Proofs.Indentation.Aligned
import ForceTry.Proofs.Tree.Faults

/-!
# The margins of a source

What an aligned source without tabs and carriage returns tells about its indentation: every line with a
token is indented by steps, so the unit that is inferred from the lines is a step as well, and its line
breaks are line feeds.
-/

namespace ForceTry

open ForceTry.Text

variable {n : Nat} {a b : Column n}

namespace Token

structure Regular (t : Token) : Prop where
  text : ∃ c s, t.text = c :: s ∧ EndsMargin c
  leading : t.leading.Canonical
  tabs : '\t' ∉ t.leading.code
  trailing : t.trailing.containsNewline = false

theorem Regular.walk?_leading {t : Token} (h : t.Regular) {u : Text}
    (hwalk : a.walk? (t.code ++ u) = some b) :
    ∃ d, a.walk? t.leading.code = some d ∧ d.Open := by
  rcases h.text with ⟨c, s, htext, hc⟩
  rw [code, htext, List.append_assoc, List.append_assoc] at hwalk
  rcases Column.walk?_append_some hwalk with ⟨d, hd, hrest⟩
  exact ⟨d, hd, Column.open_of_walk? hc hrest⟩

end Token

namespace Tokens

theorem starts_of_lexes {previous : Option Token} {t : Text} {body : List Token} {ending : Trivia}
    (h : Lexes previous t body ending) :
    ∀ x ∈ body, ∃ c s, x.text = c :: s ∧ c ≠ ' ' ∧ c ≠ '\t' ∧ c ≠ '\n' := by
  induction h with
  | ending gap =>
      intro x hx
      cases hx
  | @token previous t leading trailing ending c r rest kind m body gap found behind next ih =>
      intro x hx
      rcases List.mem_cons.mp hx with rfl | hx
      · have hnext := Trivia.next?_scan t
        rw [gap, Token.next?_eq_none_iff] at hnext
        rcases Nat.exists_eq_succ_of_ne_zero (Nat.ne_of_gt (Token.measure_pos found)) with ⟨k, rfl⟩
        exact ⟨c, r.take k, rfl, hnext.1, hnext.2.1, hnext.2.2.1⟩
      · exact ih x hx

theorem regular_of_ofText {source : Text} {ts : Tokens} (h : ofText source = .ok ts)
    (htabs : '\t' ∉ source) : ∀ x ∈ ts.body, x.Regular := by
  intro x hx
  have hdivide := divide_of_ofText h
  have hmem : x ∈ ts.toList := List.mem_append_left _ hx
  rcases starts_of_lexes ((ofText_eq_ok_iff source ts).mp h) x hx with ⟨c, s, htext, hspace, _, hbreak⟩
  refine ⟨⟨c, s, htext, hspace, hbreak⟩, (hdivide.canonical x hmem).1, ?_, hdivide.trailing x hmem⟩
  intro htab
  apply htabs
  rw [← hdivide.code]
  exact List.mem_flatMap.mpr ⟨x, hmem, List.mem_append_left _ (List.mem_append_left _ htab)⟩

end Tokens

namespace Tree

/-!
# Lines that start with a token
-/

/-- Behind a token without line breaks, a token starts a line when a line break leads it. -/
theorem starts_of_lineStartsFrom {previous : Token} {ls : List Leaf}
    (hprevious : previous.trailing.containsNewline = false)
    (hls : ∀ l ∈ ls, l.token.trailing.containsNewline = false) :
    ∀ entry ∈ lineStartsFrom (some previous) ls,
      entry.1 ∈ ls ∧ entry.2 = entry.1.token.leading.containsNewline := by
  induction ls generalizing previous with
  | nil =>
      intro entry hentry
      cases hentry
  | cons l ls ih =>
      intro entry hentry
      rcases List.mem_cons.mp hentry with rfl | hentry
      · refine ⟨List.mem_cons_self .., ?_⟩
        show (l.token.leading.containsNewline || previous.trailing.containsNewline) = _
        rw [hprevious, Bool.or_false]
      · have hrest := ih (hls l (List.mem_cons_self ..))
          (fun m hm => hls m (List.mem_cons_of_mem l hm)) entry hentry
        exact ⟨List.mem_cons_of_mem l hrest.1, hrest.2⟩

theorem lineStartsFrom_concat (previous : Option Token) (ls : List Leaf) (l : Leaf) :
    ∃ starts, lineStartsFrom previous (ls ++ [l]) = lineStartsFrom previous ls ++ [(l, starts)] := by
  induction ls generalizing previous with
  | nil => exact ⟨_, rfl⟩
  | cons m ls ih =>
      rcases ih (some m.token) with ⟨starts, hrest⟩
      exact ⟨starts, congrArg (_ :: ·) hrest⟩

theorem steps_of_lineStartsFrom {previous : Option Token} {ls : List Leaf}
    (hls : ∀ l ∈ ls, l.token.Regular)
    (hprevious : ∀ p ∈ previous, p.trailing.containsNewline = false)
    (hstart : previous = none → a = .margin 0) {u : Text}
    (hwalk : a.walk? (Leaf.codeOf ls ++ u) = some b) :
    ∀ entry ∈ lineStartsFrom previous ls, entry.2 = true →
      entry.1.token.leading.leadingIndentation.Steps n := by
  -- By induction on the leaves: the walk through the text hands each leaf the column it starts
  -- from.
  induction ls generalizing previous a with
  | nil =>
      intro entry hentry
      cases hentry
  | cons l ls ih =>
      have hregular := hls l (List.mem_cons_self ..)
      rw [Leaf.codeOf_cons, List.append_assoc] at hwalk
      intro entry hentry hstarts
      rcases List.mem_cons.mp hentry with rfl | hentry
      · have hline : l.token.leading.containsNewline = true ∨ a = .margin 0 := by
          cases previous with
          | none => exact .inr (hstart rfl)
          | some p =>
              have hbreak : (l.token.leading.containsNewline || p.trailing.containsNewline) = true :=
                hstarts
              rw [hprevious p rfl, Bool.or_false] at hbreak
              exact .inl hbreak
        rcases hregular.walk?_leading hwalk with ⟨d, hd, hopen⟩
        have hbehind := (Trivia.walk?_throughLastNewline hregular.leading hd hline).2
        exact Trivia.steps_leadingIndentation hregular.leading hregular.tabs hbehind hopen
      · rcases Column.walk?_append_some hwalk with ⟨d, _, hrest⟩
        refine ih (fun m hm => hls m (List.mem_cons_of_mem l hm)) ?_ ?_ hrest entry hentry hstarts
        · intro p hp
          cases hp
          exact hregular.trailing
        · intro hnone
          cases hnone

variable {root : Tree} {body : List Leaf} {ending : Leaf}

theorem steps_indentationFrom {k : Nat} {current : Trivia} (hcurrent : current.Steps n)
    {entries : List (Leaf × Bool)} (h : ∀ entry ∈ entries, entry.2 = true →
      entry.1.token.leading.leadingIndentation.Steps n)
    {last : Leaf × Bool} (hlast : last.1.label ≠ k) :
    (indentationFrom k current (entries ++ [last])).Steps n := by
  induction entries generalizing current with
  | nil =>
      rw [List.nil_append, indentationFrom, if_neg (by simpa using hlast)]
      exact Trivia.steps_nil
  | cons entry entries ih =>
      rcases entry with ⟨l, starts⟩
      have hline : Trivia.Steps n
          (if starts then l.token.leading.leadingIndentation else current) := by
        split
        · next hstarts => exact h _ (List.mem_cons_self ..) hstarts
        · exact hcurrent
      rw [List.cons_append, indentationFrom]
      split
      · exact hline
      · exact ih hline fun e he => h e (List.mem_cons_of_mem _ he)

/-- Every element but the end of the file stands on a line that is indented by steps. -/
theorem steps_lineIndentation (hleaves : root.leaves = body ++ [ending])
    (h : ∀ entry ∈ lineStartsFrom none body, entry.2 = true →
      entry.1.token.leading.leadingIndentation.Steps n)
    {t : Tree} (ht : ∀ l ∈ t.firstLeaf?, l.label ≠ ending.label) :
    (root.lineIndentation t).Steps n := by
  rcases lineStartsFrom_concat none body ending with ⟨starts, hentries⟩
  rw [lineIndentation, lineStarts, hleaves, hentries]
  cases hfirst : t.firstLeaf? with
  | none => exact Trivia.steps_nil
  | some l => exact steps_indentationFrom Trivia.steps_nil h (Ne.symm (ht l hfirst))

/-!
# The unit of the lines
-/

theorem isStep_sample? {i j : Nat} (hi : n ∣ i) (hj : n ∣ j) {u : IndentUnit}
    (h : sample? (List.replicate i ' ') (List.replicate j ' ') = some u) : u.IsStep n := by
  have hafter : ∀ r, after? (List.replicate i ' ') (List.replicate j ' ') = some r →
      r = List.replicate (j - i) ' ' ∧ i ≤ j := by
    intro r hr
    have heq := eq_append_of_after? hr
    have hlength := congrArg List.length heq
    rw [List.length_append, List.length_replicate, List.length_replicate] at hlength
    refine ⟨?_, by omega⟩
    rw [List.eq_replicate_iff]
    refine ⟨by omega, fun c hc => ?_⟩
    apply List.eq_of_mem_replicate (n := j)
    rw [heq]
    exact List.mem_append_right _ hc
  unfold sample? at h
  split at h
  · next hr =>
      have htab : '\t' ∈ List.replicate (j - i) ' ' := by
        rw [← (hafter _ hr).1]
        exact List.mem_singleton_self '\t'
      cases List.eq_of_mem_replicate htab
  · next c r _ hr =>
      split at h
      · cases h
        rcases hafter _ hr with ⟨heq, hle⟩
        have hlength := congrArg List.length heq
        rw [List.length_cons, List.length_replicate] at hlength
        refine ⟨r.length + 1, rfl, ?_⟩
        rw [hlength]
        exact (Nat.dvd_sub hj hi)
      · cases h
  · cases h

theorem isStep_samplesFrom {before : Text} {lines : List Text}
    (hbefore : ∃ i, before = List.replicate i ' ' ∧ n ∣ i)
    (h : ∀ line ∈ lines, ∃ i, line = List.replicate i ' ' ∧ n ∣ i) :
    ∀ u ∈ samplesFrom before lines, u.IsStep n := by
  induction lines generalizing before with
  | nil =>
      intro u hu
      cases hu
  | cons line lines ih =>
      intro u hu
      have hline := h line (List.mem_cons_self ..)
      rcases List.mem_append.mp hu with hu | hu
      · rcases hbefore with ⟨i, rfl, hi⟩
        rcases hline with ⟨j, rfl, hj⟩
        exact isStep_sample? hi hj (Option.mem_toList.mp hu)
      · exact ih hline (fun l hl => h l (List.mem_cons_of_mem line hl)) u hu

theorem isStep_inferUnit? (hleaves : root.leaves = body ++ [ending])
    (hending : ending.token.kind = .endOfFile)
    (h : ∀ entry ∈ lineStartsFrom none body, entry.2 = true →
      entry.1.token.leading.leadingIndentation.Steps n)
    {u : IndentUnit} (hu : root.inferUnit? = some u) : u.IsStep n := by
  refine isStep_samplesFrom ⟨0, rfl, Nat.dvd_zero n⟩ ?_ u (mem_of_mostCommon? hu)
  intro line hline
  rcases lineStartsFrom_concat none body ending with ⟨starts, hentries⟩
  rw [indentations, lineStarts, hleaves, hentries, List.mem_filterMap] at hline
  rcases hline with ⟨⟨l, starts'⟩, hentry, hline⟩
  simp only [Option.ite_none_right_eq_some, Bool.and_eq_true, bne_iff_ne] at hline
  rcases hline with ⟨⟨hstarts, hkind⟩, hline⟩
  rcases List.mem_append.mp hentry with hentry | hentry
  · rcases Trivia.code_of_steps (h _ hentry hstarts) with ⟨i, hi, hdvd⟩
    injection hline with hline
    exact ⟨i, hline.symm.trans hi, hdvd⟩
  · rw [List.mem_singleton] at hentry
    cases hentry
    exact absurd hending hkind

/-!
# Line breaks
-/

theorem newlineStyle_of_pieces {t : Tree} (h : ∀ m, .run .carriageReturnLineFeeds m ∉ t.pieces) :
    newlineStyle (some t) = Trivia.newline := by
  unfold newlineStyle
  split
  · next kind m hfind =>
      have hbreaks : kind.breaksLine = true := List.find?_some (p := Piece.isNewline) hfind
      have hmem : Piece.run kind m ∈ t.pieces := List.mem_of_find?_eq_some hfind
      cases kind with
      | spaces => cases hbreaks
      | tabs => cases hbreaks
      | newlines => rfl
      | carriageReturnLineFeeds => exact absurd hmem (h m)
  · rfl

theorem newlineStyle_of_code {t : Tree}
    (hcanonical : ∀ x ∈ t.tokens, x.leading.Canonical ∧ x.trailing.Canonical)
    (hreturns : '\r' ∉ t.code) : newlineStyle (some t) = Trivia.newline := by
  apply newlineStyle_of_pieces
  intro m hm
  have hreturn : ∀ {s : Trivia}, s.Canonical → .run .carriageReturnLineFeeds m ∈ s → '\r' ∈ s.code := by
    intro s hs hmem
    have hunit : Run.carriageReturnLineFeeds.unit <+: Piece.code (.run .carriageReturnLineFeeds m) :=
      Piece.unit_starts (Trivia.count_of_canonical hs hmem)
    exact List.mem_flatMap.mpr ⟨_, hmem, hunit.subset (List.mem_cons_self ..)⟩
  rcases List.mem_flatMap.mp hm with ⟨x, hx, hm⟩
  apply hreturns
  refine List.mem_flatMap.mpr ⟨x, hx, ?_⟩
  rw [Token.code, List.mem_append, List.mem_append]
  rcases List.mem_append.mp hm with hm | hm
  · exact .inl (.inl (hreturn (hcanonical x hx).1 hm))
  · exact .inr (hreturn (hcanonical x hx).2 hm)

/-!
# An aligned source
-/

structure AlignedLines (n : Nat) (root : Tree) : Prop where
  /-- the last leaf is the end of the file -/
  regular : ∀ l ∈ root.leaves.dropLast, l.token.Regular
  /-- behind the first token, lines start with a token that a line break leads -/
  starts : ∀ l ∈ root.leaves.tail, (l, true) ∈ root.lineStarts →
    l.token.leading.containsNewline = true
  indentation : ∀ t : Tree, (∀ l ∈ t.firstLeaf?, l ∈ root.leaves.dropLast) →
    (root.lineIndentation t).Steps n
  unit : ∀ u, root.inferUnit? = some u → u.IsStep n
  newline : newlineStyle (some root) = Trivia.newline

theorem containsNewline_of_lineStarts {t : Tree} (hnodup : (t.leaves.map Leaf.label).Nodup)
    (htrailing : ∀ l ∈ t.leaves, l.token.trailing.containsNewline = false) :
    ∀ l ∈ t.leaves.tail, (l, true) ∈ t.lineStarts → l.token.leading.containsNewline = true := by
  intro l hl hentry
  rw [lineStarts] at hentry
  cases hcons : t.leaves with
  | nil =>
      rw [hcons] at hl
      cases hl
  | cons m ls =>
      rw [hcons] at hl hentry hnodup htrailing
      rw [List.map_cons, List.nodup_cons] at hnodup
      rw [List.forall_mem_cons] at htrailing
      rcases List.mem_cons.mp hentry with heq | hentry
      · cases heq
        exact absurd (List.mem_map_of_mem hl) hnodup.1
      · exact (starts_of_lineStartsFrom htrailing.1 htrailing.2 _ hentry).2.symm

section

variable {first : Nat} {source : Text} {ts : Tokens}

theorem regular_of_mem_toLeaves (hts : Tokens.ofText source = .ok ts) (htabs : '\t' ∉ source) :
    ∀ l ∈ Tokens.toLeaves first ts.body, l.token.Regular := by
  intro l hl
  apply Tokens.regular_of_ofText hts htabs
  rw [← token_toLeaves first ts.body]
  exact List.mem_map_of_mem hl

theorem steps_of_aligned (hts : Tokens.ofText source = .ok ts) (htabs : '\t' ∉ source)
    (haligned : source.Aligned n) :
    ∀ entry ∈ lineStartsFrom none (Tokens.toLeaves first ts.body), entry.2 = true →
      entry.1.token.leading.leadingIndentation.Steps n := by
  rcases (aligned_iff n source).mp haligned with ⟨b, hb⟩
  have hsource : source = Leaf.codeOf (Tokens.toLeaves first ts.body) ++ (ts.endOfFile.code ++ []) := by
    rw [← (Tokens.divide_of_ofText hts).code, ← codeOf_toLeaves first, toLeaves_toList,
      Leaf.codeOf_append]
    rfl
  rw [hsource] at hb
  refine steps_of_lineStartsFrom (regular_of_mem_toLeaves hts htabs) ?_ (fun _ => rfl) hb
  intro p hp
  cases hp

end

theorem alignedLines_of_ofTextFrom {first next : Nat} {source : Text} {t : Tree}
    (h : ofTextFrom first source = .ok (t, next)) (htabs : '\t' ∉ source) (hreturns : '\r' ∉ source)
    (haligned : source.Aligned n) : t.AlignedLines n := by
  rcases ofTextFrom_forms h with ⟨ts, hts, hleaves, _, _⟩
  have hdivide := Tokens.divide_of_ofText hts
  have htokens := tokens_of_toLeaves hleaves
  have hcode := code_of_ofTextFrom h
  have hnodup : (t.leaves.map Leaf.label).Nodup := by
    rw [hleaves]
    exact nodup_label_toLeaves first ts.toList
  have hsplit := hleaves.trans (toLeaves_toList first ts)
  have hdrop : t.leaves.dropLast = Tokens.toLeaves first ts.body := by
    rw [hsplit, List.dropLast_concat]
  have hsteps := @steps_of_aligned n first source ts hts htabs haligned
  constructor
  · rw [hdrop]
    exact regular_of_mem_toLeaves hts htabs
  · apply containsNewline_of_lineStarts hnodup
    intro l hl
    apply hdivide.trailing
    rw [← htokens]
    exact List.mem_map_of_mem hl
  · intro u hu
    apply steps_lineIndentation hsplit hsteps
    intro l hl hlabel
    rw [hdrop] at hu
    rw [hsplit, List.map_append, List.nodup_append] at hnodup
    exact hnodup.2.2 l.label (List.mem_map_of_mem (hu l hl)) _ (List.mem_singleton_self _) hlabel
  · exact fun u hu => isStep_inferUnit? hsplit rfl hsteps hu
  · apply newlineStyle_of_code
    · rw [htokens]
      exact hdivide.canonical
    · rw [hcode]
      exact hreturns

end Tree
end ForceTry

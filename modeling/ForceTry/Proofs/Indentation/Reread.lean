import ForceTry.Proofs.Indentation.Breaks
import ForceTry.Proofs.Indentation.Lookup
import ForceTry.Proofs.Token.Replace

/-!
# Moved lines read back

Lines are moved by blanks behind line breaks.  Up to the first line break nothing changes, and nothing
looks past a line break, so tokens whose lines are moved may take the place of those that they were.
-/

namespace ForceTry

open ForceTry.Text

namespace Piece

theorem code_of_holdsBefore {p : Piece} {u : Text} (h : p.HoldsBefore u) :
    ∃ c s, p.code = c :: s ∧ staysInLine c = !p.isNewline ∧ stopsWord c = !p.isComment ∧
      Token.isIdentifierChar c = false := by
  rcases opening_of_holdsBefore h with ⟨v, hv⟩
  rw [← hv]
  match p with
  | .run .spaces _ => exact ⟨_, _, rfl, rfl, rfl, rfl⟩
  | .run .tabs _ => exact ⟨_, _, rfl, rfl, rfl, rfl⟩
  | .run .newlines _ => exact ⟨_, _, rfl, rfl, rfl, rfl⟩
  | .run .carriageReturnLineFeeds _ => exact ⟨_, _, rfl, rfl, rfl, rfl⟩
  | .comment .line _ => exact ⟨_, _, rfl, rfl, rfl, rfl⟩
  | .comment .block _ => exact ⟨_, _, rfl, rfl, rfl, rfl⟩

theorem isComment_of_isNewline {p : Piece} (h : p.isNewline = true) : p.isComment = false := by
  cases p with
  | run kind n => rfl
  | comment form text => cases h

end Piece

namespace Trivia

def Indents (t : Trivia) : Prop :=
  ∀ p ∈ t, ∃ kind n, p = .run kind n ∧ kind.breaksLine = false ∧ 0 < n

theorem holdsBefore_of_indents {t : Trivia} (h : t.Indents) (u : Text) : HoldsBefore u t := by
  induction t with
  | nil => trivial
  | cons p t ih =>
      rcases h p (List.mem_cons_self ..) with ⟨kind, n, rfl, _, hn⟩
      exact ⟨hn, ih fun q hq => h q (List.mem_cons_of_mem _ hq)⟩

/-- Trivia that starts with a line break ends the line and hides what is behind it. -/
theorem line_of_newline {u : Text} {t : Trivia} (h : HoldsBefore u t) {p : Piece}
    (hhead : t.head? = some p) (hp : p.isNewline = true) :
    Quiet (code t ++ u) ∧ EndsLine (code t ++ u) := by
  cases t with
  | nil => cases hhead
  | cons q t =>
      cases hhead
      rcases Piece.code_of_holdsBefore h.1 with ⟨c, s, hcode, hstays, hstop, _⟩
      rw [hp] at hstays
      rw [Piece.isComment_of_isNewline hp] at hstop
      rw [code_cons, hcode]
      exact ⟨quiet_cons hstop _, endsLine_cons hstays _⟩

theorem not_endsLine_of_holdsBefore {u : Text} {t : Trivia} (h : HoldsBefore u t)
    (ht : t.containsNewline = false) (hu : ¬ EndsLine u) : ¬ EndsLine (code t ++ u) := by
  cases t with
  | nil => exact hu
  | cons p t =>
      rw [containsNewline_cons, Bool.or_eq_false_iff] at ht
      rcases Piece.code_of_holdsBefore h.1 with ⟨c, s, hcode, hstays, _⟩
      rw [ht.1] at hstays
      rw [code_cons, hcode]
      exact not_endsLine_cons hstays _

theorem not_identifier_of_holdsBefore {u : Text} {t : Trivia} (h : HoldsBefore u t) (hne : t ≠ []) :
    ∀ d ∈ (code t ++ u).head?, Token.isIdentifierChar d = false := by
  cases t with
  | nil => exact absurd rfl hne
  | cons p t =>
      rcases Piece.code_of_holdsBefore h.1 with ⟨c, s, hcode, _, _, hword⟩
      rw [code_cons, hcode]
      intro d hd
      cases hd
      exact hword

theorem quiet_of_blanks {u : Text} {t : Trivia} (h : HoldsBefore u t)
    (ht : ∀ p ∈ t, p.isBlank = true) (hu : Quiet u) : Quiet (code t ++ u) := by
  cases t with
  | nil => exact hu
  | cons p t =>
      rcases Piece.code_of_holdsBefore h.1 with ⟨c, s, hcode, _, hstop, _⟩
      have hcomment : p.isComment = false := by
        have hblank := ht p (List.mem_cons_self ..)
        cases p with
        | run kind n => rfl
        | comment form text => cases hblank
      rw [hcomment] at hstop
      rw [code_cons, hcode]
      exact quiet_cons hstop _

theorem indents_of_blanks {u : Text} {t : Trivia} (h : HoldsBefore u t)
    (ht : ∀ p ∈ t, p.isBlank = true) : t.Indents := by
  induction t with
  | nil =>
      intro p hp
      cases hp
  | cons q t ih =>
      intro p hp
      cases hp with
      | head =>
          have hblank := ht q (List.mem_cons_self ..)
          cases q with
          | comment form text => cases hblank
          | run kind n => exact ⟨kind, n, rfl, by simpa [Piece.isBlank] using hblank, h.1⟩
      | tail _ hp => exact ih h.2 (fun p hp => ht p (List.mem_cons_of_mem q hp)) p hp

theorem isBlank_of_mem_trailingBlanks (t : Trivia) : ∀ p ∈ t.trailingBlanks, p.isBlank = true := by
  intro p hp
  rw [trailingBlanks, List.mem_reverse] at hp
  exact List.all_eq_true.mp List.all_takeWhile p hp

theorem containsNewline_afterLastNewline (t : Trivia) :
    t.afterLastNewline.containsNewline = false := by
  have hdrop : ∀ {t : Trivia} {i : Nat}, t.lastNewlineIndex? = some i →
      containsNewline (t.drop (i + 1)) = false := by
    intro t
    induction t with
    | nil =>
        intro i h
        cases h
    | cons p t ih =>
        intro i h
        rw [lastNewlineIndex?] at h
        split at h
        · next j hj =>
            cases h
            exact ih hj
        · next hnone =>
            split at h
            · cases h
              exact containsNewline_of_lastNewlineIndex?_eq_none hnone
            · cases h
  unfold afterLastNewline
  split
  · next hnone => exact containsNewline_of_lastNewlineIndex?_eq_none hnone
  · next i hi => exact hdrop hi

theorem holdsBefore_strip {u : Text} {t : Trivia} (h : HoldsBefore u t) (base : Trivia) :
    HoldsBefore u (t.strip base) := by
  fun_induction strip t base with
  | case1 p t base ih => exact ih h.2
  | case2 t kind n kind' m hcondition hne =>
      refine ⟨?_, h.2⟩
      simp only [Bool.and_eq_true, decide_eq_true_eq] at hcondition
      show 0 < n - m
      omega
  | case3 => exact h
  | case4 => exact h
  | case5 => exact h

theorem head?_shift (t base indentation : Trivia) : (t.shift base indentation).head? = t.head? := by
  cases t with
  | nil =>
      rw [shift]
  | cons p t =>
      rw [shift]
      split <;> rfl

theorem endsLine_shift {u u' : Text} {t : Trivia} (h : HoldsBefore u t) (base indentation : Trivia)
    (hline : EndsLine u → EndsLine u') :
    EndsLine (t.code ++ u) → EndsLine ((t.shift base indentation).code ++ u') := by
  cases t with
  | nil =>
      rw [shift]
      exact hline
  | cons p t =>
      rcases Piece.code_of_holdsBefore h.1 with ⟨c, s, hp, _⟩
      have hhead : ∀ v : Text, EndsLine (c :: (s ++ code t ++ u)) → EndsLine (c :: v) :=
        fun v hc => endsLine_cons (hc c rfl) v
      rw [code_cons, hp, shift]
      split
      · rw [code_append, code_cons, hp]
        exact hhead _
      · rw [code_cons, hp]
        exact hhead _

theorem holdsBefore_shift {u u' : Text} {t base indentation : Trivia} (hindents : indentation.Indents)
    (h : HoldsBefore u t) (hline : EndsLine u → EndsLine u') :
    HoldsBefore u' (t.shift base indentation) := by
  fun_induction shift t base indentation with
  | case1 => trivial
  | case2 p t hnewline ih =>
      rw [List.cons_append]
      refine ⟨?_, ?_⟩
      · have hp := h.1
        cases p with
        | run kind count => exact hp
        | comment kind text => cases hnewline
      · rw [holdsBefore_append]
        exact ⟨holdsBefore_of_indents hindents _, ih (holdsBefore_strip h.2 _)⟩
  | case3 p t hnewline ih =>
      exact ⟨h.1.mono (endsLine_shift h.2 base indentation hline), ih h.2⟩

theorem outlook_shift {u u' : Text} {t : Trivia} (base indentation : Trivia) (h : HoldsBefore u t)
    (ho : Outlook u u') : Outlook (t.code ++ u) ((t.shift base indentation).code ++ u') := by
  induction t with
  | nil =>
      rw [shift]
      exact ho
  | cons p t ih =>
      rcases Piece.code_of_holdsBefore h.1 with ⟨c, s, hp, _, hstop, _⟩
      rw [shift]
      split
      · next hnewline =>
          rw [Piece.isComment_of_isNewline hnewline] at hstop
          rw [List.cons_append, code_cons, code_cons, hp]
          exact .of_stop hstop [] _ _
      · rw [code_cons, code_cons, List.append_assoc, List.append_assoc]
        exact (ih h.2).append p.code

end Trivia

namespace Tokens

theorem marksBehind_of_head {p p' : Token} {gap gap' : Trivia} (hbare : p.bare = p'.bare)
    (hhead : (p.trailing ++ gap).head? = (p'.trailing ++ gap').head?) :
    Token.marksBehind (some p) gap = Token.marksBehind (some p') gap' := by
  show (p.isKeyword "try" && (p.trailing ++ gap).head?.all Piece.isNewline) =
    (p'.isKeyword "try" && (p'.trailing ++ gap').head?.all Piece.isNewline)
  rw [Token.isKeyword_of_bare hbare, hhead]

theorem sameMarks_shift (base indentation : Trivia) (t : Token) :
    SameMarks (some t) (some (t.shift base indentation)) := by
  intro gap
  refine @marksBehind_of_head t (t.shift base indentation) gap gap rfl ?_
  show _ = (t.trailing.shift base indentation ++ gap).head?
  rw [List.head?_append, List.head?_append, Trivia.head?_shift]

theorem marksBehind_shift (previous : Option Token) (base indentation gap : Trivia) :
    Token.marksBehind previous (gap.shift base indentation) = Token.marksBehind previous gap := by
  cases previous with
  | none => rfl
  | some p =>
      apply marksBehind_of_head rfl
      rw [List.head?_append, List.head?_append, Trivia.head?_shift]

theorem replaces_shift_token {previous : Option Token} {r : Text} (base : Trivia)
    {indentation : Trivia} (hindents : indentation.Indents) {t : Token} (h : Holds previous r [t]) :
    Replaces previous r [t] [t.shift base indentation] := by
  rcases h with ⟨hleading, htoken, htrailing, _⟩
  have hbehind : ∀ r', Follows (some t) r r' →
      Follows (some t) (t.trailing.code ++ r) ((t.trailing.shift base indentation).code ++ r') := by
    intro r' hr
    rcases hr t rfl with ho | hfree
    · exact follows_of_outlook (Trivia.outlook_shift base indentation htrailing ho) _
    · intro t' ht'
      cases ht'
      exact .inr ⟨hfree.1, Trivia.endsLine_shift htrailing base indentation hfree.2⟩
  refine ⟨fun _ _ => sameMarks_shift base indentation t, ?_, ?_⟩
  · intro r' hr
    have htext := outlook_text (hbehind r' hr)
    have hshift := Trivia.outlook_shift base indentation hleading htext
    apply follows_of_outlook
    simpa [codeOf_cons, codeOf_nil, Token.code, Token.shift] using hshift
  · intro previous' r' hprevious hr
    refine ⟨Trivia.holdsBefore_shift hindents hleading (endsLine_append_of_holds htoken _ _), ?_, ?_,
      trivial⟩
    · show Token.HoldsBefore (Token.marksBehind previous' (t.leading.shift base indentation)) _ _
      rw [marksBehind_shift, ← hprevious t.leading]
      rcases hbehind r' hr t rfl with ho | hfree
      · exact htoken.append ho
      · exact htoken.free hfree.1 _ _
    · exact Trivia.holdsBefore_shift hindents htrailing hr.line

theorem replaces_shift {previous : Option Token} {r : Text} (base : Trivia) {indentation : Trivia}
    (hindents : indentation.Indents) {ts : List Token} (h : Holds previous r ts) :
    Replaces previous r ts (ts.map (Token.shift base indentation)) := by
  induction ts generalizing previous with
  | nil => exact replaces_refl h
  | cons t ts ih =>
      have hsplit := (@holds_append previous r [t] ts).mp h
      exact (replaces_shift_token base hindents hsplit.1).append (ih hsplit.2)

end Tokens
/-!
# The indentation of a source
-/

namespace Trivia

theorem count_of_canonical {t : Trivia} (h : t.Canonical) {kind : Run} {n : Int}
    (hmem : .run kind n ∈ t) : 0 < n := by
  induction t with
  | nil => cases hmem
  | cons p t ih =>
      cases hmem with
      | head => exact h.1.1
      | tail _ hmem => exact ih h.2 hmem

theorem indents_leadingIndentation {t : Trivia} (h : t.Canonical) : t.leadingIndentation.Indents := by
  intro p hp
  have hblank := List.all_eq_true.mp (List.all_takeWhile (p := Piece.isBlank)) p hp
  have hmem : p ∈ t := by
    rw [← throughLastNewline_append_afterLastNewline t]
    exact List.mem_append_right _ ((List.takeWhile_sublist _).subset hp)
  cases p with
  | comment form text => cases hblank
  | run kind n => exact ⟨kind, n, rfl, by simpa [Piece.isBlank] using hblank, count_of_canonical h hmem⟩

end Trivia

namespace Tree

theorem indents_indentationFrom (n : Nat) {current : Trivia} (hcurrent : current.Indents)
    {ls : List (Leaf × Bool)} (h : ∀ entry ∈ ls, entry.1.token.leading.Canonical) :
    (indentationFrom n current ls).Indents := by
  induction ls generalizing current with
  | nil =>
      intro p hp
      cases hp
  | cons entry ls ih =>
      rcases entry with ⟨l, starts⟩
      have hline : Trivia.Indents
          (if starts then l.token.leading.leadingIndentation else current) := by
        split
        · exact Trivia.indents_leadingIndentation (h _ (List.mem_cons_self ..))
        · exact hcurrent
      rw [indentationFrom]
      split
      · exact hline
      · exact ih hline fun entry hentry => h entry (List.mem_cons_of_mem _ hentry)

theorem indents_lineIndentation {root : Tree} (h : ∀ t ∈ root.tokens, t.leading.Canonical)
    (t : Tree) : (root.lineIndentation t).Indents := by
  have hnil : Trivia.Indents [] := by
    intro p hp
    cases hp
  unfold lineIndentation
  split
  · exact hnil
  · next l _ =>
      apply indents_indentationFrom l.label hnil
      intro entry hentry
      apply h
      have hmem := List.mem_map_of_mem (f := Prod.fst) hentry
      rw [lineStarts, leaves_lineStartsFrom] at hmem
      exact List.mem_map_of_mem hmem

theorem newlineStyle_eq (t : Option Tree) :
    ∃ kind : Run, kind.breaksLine = true ∧ newlineStyle t = [.run kind 1] := by
  unfold newlineStyle
  split
  · next kind n hfind =>
      rcases Option.bind_eq_some_iff.mp hfind with ⟨pieces, _, hpiece⟩
      exact ⟨kind, List.find?_some (p := Piece.isNewline) hpiece, rfl⟩
  · exact ⟨.newlines, rfl, rfl⟩

theorem width_of_sample? {before line : Text} {u : IndentUnit} (h : sample? before line = some u) :
    0 < u.width := by
  unfold sample? at h
  split at h
  · cases h
    exact Nat.one_pos
  · split at h
    · cases h
      exact Nat.succ_pos _
    · cases h
  · cases h

theorem width_of_samplesFrom (before : Text) (lines : List Text) :
    ∀ u ∈ samplesFrom before lines, 0 < u.width := by
  induction lines generalizing before with
  | nil =>
      intro u hu
      cases hu
  | cons line lines ih =>
      intro u hu
      rcases List.mem_append.mp hu with hu | hu
      · exact width_of_sample? (Option.mem_toList.mp hu)
      · exact ih line u hu

theorem mem_of_mostCommon? {samples : List IndentUnit} {u : IndentUnit}
    (h : mostCommon? samples = some u) : u ∈ samples := by
  suffices hall : ∀ b ∈ mostCommon? samples, b ∈ samples from hall u h
  refine List.foldlRecOn samples _ (motive := fun best => ∀ b ∈ best, b ∈ samples) ?_ ?_
  · intro b hb
    cases hb
  · intro best hbest v hv b hb
    cases best with
    | none =>
        cases hb
        exact hv
    | some c =>
        simp only at hb
        split at hb
        · cases hb
          exact hv
        · cases hb
          exact hbest _ rfl

theorem width_of_inferUnit? {root : Tree} {u : IndentUnit} (h : root.inferUnit? = some u) :
    0 < u.width :=
  width_of_samplesFrom [] root.indentations u (mem_of_mostCommon? h)

end Tree
end ForceTry

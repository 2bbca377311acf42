import ForceTry.Proofs.Rule.Reread
import ForceTry.Proofs.Settings.Range
import ForceTry.Proofs.Tree.Parsed

/-!
# Placeholders of the settings

The check of the settings looks at the two ends of a placeholder, and the reader of tokens looks for the
first closing mark behind the opening one.  The two agree on a text in which no closing mark stands
before its end.
-/

namespace ForceTry

namespace Text

theorem eq_append_of_find? {p t : Text} {i : Nat} (h : find? p t = some i) :
    ∃ r, t = t.take i ++ (p ++ r) := by
  induction t generalizing i with
  | nil =>
      rw [find?] at h
      split at h
      · next hp =>
          cases h
          exact ⟨[], by rw [hp]; rfl⟩
      · cases h
  | cons c t ih =>
      rw [find?] at h
      split at h
      · next hstarts =>
          cases h
          rcases Option.isSome_iff_exists.mp hstarts with ⟨r, hr⟩
          refine ⟨r, ?_⟩
          rw [List.take_zero, List.nil_append]
          exact eq_append_of_after? hr
      · rcases Option.map_eq_some_iff.mp h with ⟨j, hj, rfl⟩
        rcases ih hj with ⟨r, hr⟩
        exact ⟨r, congrArg (c :: ·) hr⟩

theorem find?_of_append (a p b : Text) : ∃ i, find? p (a ++ (p ++ b)) = some i ∧ i ≤ a.length := by
  induction a with
  | nil =>
      refine ⟨0, ?_, Nat.le_refl 0⟩
      rw [List.nil_append]
      cases hwhole : p ++ b with
      | nil =>
          rw [(List.append_eq_nil_iff.mp hwhole).1]
          rfl
      | cons c t =>
          rw [find?, ← hwhole, startsWith, after?_append]
          rfl
  | cons c a ih =>
      rw [List.cons_append, find?]
      split
      · exact ⟨0, rfl, Nat.zero_le _⟩
      · rcases ih with ⟨i, hi, hle⟩
        rw [hi]
        exact ⟨i + 1, rfl, Nat.succ_le_succ hle⟩

end Text

namespace Token

open ForceTry.Text

/-!
# Where a placeholder ends
-/

/-- Behind the opening mark, the first closing mark is the end of the text. -/
def ClosesAtEnd (t : Text) : Prop :=
  ∀ a b : Text, t = ['<', '#'] ++ a ++ ['#', '>'] ++ b → b = []

theorem parts_of_looksLikePlaceholder {t : Text} (h : Setting.looksLikePlaceholder t = true) :
    ∃ a, t = '<' :: '#' :: (a ++ ['#', '>']) := by
  rw [Setting.looksLikePlaceholder, Bool.and_eq_true, Bool.and_eq_true, decide_eq_true_eq] at h
  rcases h with ⟨⟨hstart, hend⟩, hlength⟩
  rcases Option.isSome_iff_exists.mp hstart with ⟨s, hs⟩
  rcases Option.isSome_iff_exists.mp hend with ⟨u, hu⟩
  have hfront : t = '<' :: '#' :: s := eq_append_of_after? hs
  have hback : t = u.reverse ++ ['#', '>'] := by
    have hreverse := congrArg List.reverse (eq_append_of_after? hu)
    simpa using hreverse
  subst hback
  generalize u.reverse = front at hfront hlength ⊢
  rcases front with _ | ⟨c, _ | ⟨d, a⟩⟩
  · simp at hlength
  · simp at hlength
  · injection hfront with hc hfront
    injection hfront with hd hfront
    exact ⟨a, by rw [hc, hd]; rfl⟩

/-- A text that looks like a placeholder is one to its end exactly when it closes there. -/
theorem placeholderLength?_eq_length_iff {t : Text}
    (h : Setting.looksLikePlaceholder t = true) :
    placeholderLength? t = some t.length ↔ ClosesAtEnd t := by
  rcases parts_of_looksLikePlaceholder h with ⟨a, rfl⟩
  have hlength : placeholderLength? ('<' :: '#' :: (a ++ ['#', '>'])) =
      (find? ['#', '>'] (a ++ ['#', '>'])).map (· + 4) := rfl
  rw [hlength, Option.map_eq_some_iff]
  simp only [List.length_cons, List.length_append, List.length_nil]
  constructor
  · rintro ⟨i, hi, hend⟩ front b heq
    have hfront : a ++ ['#', '>'] = front ++ (['#', '>'] ++ b) := by
      simpa using heq
    rcases find?_of_append front ['#', '>'] b with ⟨j, hj, hle⟩
    rw [← hfront, hi] at hj
    cases hj
    have hsum := congrArg List.length hfront
    simp only [List.length_append, List.length_cons, List.length_nil] at hsum
    exact List.eq_nil_of_length_eq_zero (by omega)
  · intro hcloses
    rcases find?_of_append a ['#', '>'] [] with ⟨i, hi, hle⟩
    rw [List.append_nil] at hi
    refine ⟨i, hi, ?_⟩
    rcases eq_append_of_find? hi with ⟨r, hr⟩
    have hnil : r = [] := by
      apply hcloses ((a ++ ['#', '>']).take i) r
      rw [List.append_assoc, List.append_assoc, ← hr]
      rfl
    rw [hnil, List.append_nil] at hr
    have hsum := congrArg List.length hr
    simp only [List.length_append, List.length_take, List.length_cons, List.length_nil] at hsum
    omega

theorem placeholderLength?_of_measure {marks : Bool} {c : Char} {r : Text} {n : Nat}
    (h : measure marks c r = .ok (.editorPlaceholder, n)) :
    placeholderLength? (c :: r) = some n := by
  generalize hkind : TokenKind.editorPlaceholder = kind at h
  cases measured_of_measure h with
  | force => cases hkind
  | optional => cases hkind
  | plain _ h =>
      cases h with
      | placeholder hlength => exact hlength
      | punctuation hc =>
          unfold punctuation? at hc
          split at hc <;> cases hc <;> cases hkind
      | word => split at hkind <;> cases hkind
      | number => split at hkind <;> cases hkind
      | _ => cases hkind

theorem placeholderLength?_take {t : Text} {n : Nat} (h : placeholderLength? t = some n) :
    placeholderLength? (t.take n) = some (t.take n).length := by
  have hle := placeholderLength?_le h
  unfold placeholderLength? at h
  split at h
  · next r =>
      rcases Option.map_eq_some_iff.mp h with ⟨i, hi, rfl⟩
      have htake : ('<' :: '#' :: r).take (i + 4) = '<' :: '#' :: r.take (i + 2) := rfl
      have hfind : find? ['#', '>'] (r.take (i + 2) ++ []) = some i := by
        apply find?_append (t := r.drop (i + 2))
        · rw [List.take_append_drop]
          exact hi
        · simp only [List.length_cons] at hle
          rw [List.length_take, List.length_cons, List.length_cons, List.length_nil]
          omega
      rw [List.append_nil] at hfind
      rw [List.length_take, Nat.min_eq_left hle, htake]
      show (find? ['#', '>'] (r.take (i + 2))).map (· + 4) = some (i + 4)
      rw [hfind]
      rfl
  · cases h

end Token

namespace Tokens

theorem placeholder_of_lexes {previous : Option Token} {t : Text} {body : List Token}
    {ending : Trivia} (h : Lexes previous t body ending) :
    ∀ x ∈ body, x.kind = .editorPlaceholder →
      Token.placeholderLength? x.text = some x.text.length := by
  induction h with
  | ending gap =>
      intro x hx
      cases hx
  | token gap found behind next ih =>
      intro x hx hkind
      rcases List.mem_cons.mp hx with rfl | hx
      · cases hkind
        exact Token.placeholderLength?_take (Token.placeholderLength?_of_measure found)
      · exact ih x hx hkind

theorem ofText_placeholder {t : Text} (h : Token.placeholderLength? t = some t.length) :
    ofText t = .ok ⟨[Token.placeholder t [] []], []⟩ := by
  rcases Token.holdsBefore_placeholder h [] [] false [] with ⟨c, s, htext, hfound⟩
  cases htext
  have hread := hfound.read
  have hstarts := hfound.starts
  rw [List.append_nil] at hread hstarts
  have hbehind : Trivia.scan true ((c :: s).drop (s.length + 1)) = ([], []) := by
    rw [← List.length_cons, List.drop_length]
    exact Trivia.scan_of_next?_eq_none rfl
  have hlexes := @Lexes.token none _ _ _ _ _ _ _ _ _ _ (Trivia.scan_of_next?_eq_none hstarts) hread
    hbehind (.ending (Trivia.scan_of_next?_eq_none rfl))
  rw [← List.length_cons, List.take_length] at hlexes
  exact (ofText_eq_ok_iff _ _).mpr hlexes

end Tokens

namespace DoCatch

open ForceTry.Tokens ForceTry.Tree

/-!
# The body of the catch clause
-/

/-- The block of the catch clause, with some blanks behind its last brace. -/
def Layout.catchBody (o : Layout) (blanks : Trivia) : Tree :=
  Layout.braces (.node 0 .statement
      [.leaf ⟨0, Token.placeholder o.placeholder (o.newline ++ o.deeper) []⟩])
    (Token.rightBrace (o.newline ++ o.base) blanks)

theorem ofText_of_parse {source : Text} {ts : Tokens} {t : Tree} (hts : Tokens.ofText source = .ok ts)
    (hparse : Parser.parse (toLeaves 0 ts.body) ⟨ts.body.length, ts.endOfFile⟩ = .ok t) :
    Tree.ofText source = .ok ((renumber t).run (ts.body.length + 1)).1 := by
  rw [Tree.ofText, ofTextFrom, hts]
  simp only [Nat.zero_add, hparse]
  rfl

/-- A file that holds a block and nothing else. -/
def fileOf (block : Tree) : Tree :=
  .node 0 .sourceFile
    [.node 0 .item [.node 0 .statement [block]], .leaf ⟨0, ⟨.endOfFile, [], [], []⟩⟩]

theorem parse_catchBody {l m r ending : Leaf} (hl : l.token.kind = .leftBrace)
    (hm : m.token.kind = .editorPlaceholder) (hr : r.token.kind = .rightBrace) :
    Parser.parse [l, m, r] ending = .ok (.node 0 .sourceFile
      [.node 0 .item [.node 0 .statement [.node 0 .block
        [.leaf l, .node 0 .item [.node 0 .statement [.leaf m]], .leaf r]]], .leaf ending]) := by
  rcases l with ⟨_, _, _, _, _⟩
  rcases m with ⟨_, _, _, _, _⟩
  rcases r with ⟨_, _, _, _, _⟩
  cases hl
  cases hm
  cases hr
  rfl

theorem ofText_catchBody {o : Layout} (ho : o.Written) {blanks : Trivia} (hblanks : blanks.Indents) :
    ∃ file, Tree.ofText (o.catchBody blanks).code = .ok file ∧
      file.bare = (fileOf (o.catchBody blanks)).bare := by
  have hholds : Holds none [] (o.catchBody blanks).tokens :=
    ⟨trivial, Token.holdsBefore_punctuation rfl rfl _ _, trivial,
      holdsBefore_line ho (indents_deeper ho) _,
      Token.holdsBefore_placeholder ho.placeholder _ _ _ _, trivial,
      holdsBefore_line ho ho.base _, Token.holdsBefore_punctuation rfl rfl _ _,
      Trivia.holdsBefore_of_indents hblanks _, trivial⟩
  have hend : Trivia.scan false ([] : Text) = ([], []) := Trivia.scan_of_next?_eq_none rfl
  rcases lexes_of_holds hend hholds (.start _) trivial rfl with
    ⟨body, ending, hlexes, halike, _⟩
  match body, hlexes, halike with
  | [l, m, r], hlexes, ⟨⟨hl, _⟩, ⟨hm, _⟩, ⟨hr, _⟩, _⟩ =>
      have htext : Tokens.ofText (o.catchBody blanks).code = .ok ⟨[l, m, r], ending⟩ := by
        rw [ofText_eq_ok_iff]
        have hcode : (trailingOf none).code ++ (codeOf (o.catchBody blanks).tokens ++ []) =
            (o.catchBody blanks).code := List.append_nil _
        rw [← hcode]
        exact hlexes
      have hparse := @parse_catchBody ⟨0, l⟩ ⟨1, m⟩ ⟨2, r⟩
        ⟨3, (Tokens.mk [l, m, r] ending).endOfFile⟩ (Token.bare_eq_bare.mp hl).1.symm
        (Token.bare_eq_bare.mp hm).1.symm (Token.bare_eq_bare.mp hr).1.symm
      refine ⟨_, ofText_of_parse htext hparse, ?_⟩
      show Tree.node 0 .sourceFile
        [.node 0 .item [.node 0 .statement [.node 0 .block
          [.leaf ⟨0, l.bare⟩, .node 0 .item [.node 0 .statement [.leaf ⟨0, m.bare⟩]],
            .leaf ⟨0, r.bare⟩]]], .leaf ⟨0, ⟨.endOfFile, [], [], []⟩⟩] = _
      rw [← hl, ← hm, ← hr]
      rfl

end DoCatch

namespace Setting

open ForceTry.Token ForceTry.DoCatch

theorem looksLikePlaceholder_of_check {t u : Text} (h : checkPlaceholder t = .ok u) :
    looksLikePlaceholder t = true := by
  rw [checkPlaceholder] at h
  split at h
  · cases h
  · next hlooks => simpa using hlooks

/-- An accepted placeholder is read as one token, and the body of the catch clause as a block with
this token alone, exactly when the placeholder closes at its end. -/
theorem placeholder_reads_iff {t u : Text} (h : checkPlaceholder t = .ok u) :
    (Tokens.ofText t = .ok ⟨[Token.placeholder t [] []], []⟩ ↔ ClosesAtEnd t) ∧
    ∀ (o : Layout) (kind : Run) (blanks : Trivia), o.placeholder = t → kind.breaksLine = true →
      o.newline = [.run kind 1] → o.base.Indents → 0 < o.unit.width → blanks.Indents →
      ((∃ file, Tree.ofText (o.catchBody blanks).code = .ok file ∧
        file.bare = (fileOf (o.catchBody blanks)).bare) ↔ ClosesAtEnd t) := by
  have hlength := placeholderLength?_eq_length_iff (looksLikePlaceholder_of_check h)
  rw [← hlength]
  refine ⟨⟨fun hread => ?_, Tokens.ofText_placeholder⟩, ?_⟩
  · exact Tokens.placeholder_of_lexes ((Tokens.ofText_eq_ok_iff _ _).mp hread)
      (Token.placeholder t [] []) (List.mem_singleton_self _) rfl
  · rintro o kind blanks rfl hbreaks hnewline hbase hunit hblanks
    constructor
    · rintro ⟨file, hfile, hbare⟩
      rcases Tree.ofText_holds_tokens hfile with ⟨⟨ts, hts, htokens, _⟩, _⟩
      have hall := congrArg Tree.tokens hbare
      rw [Tree.bare, Tree.bare, Tree.tokens_outline, Tree.tokens_outline, htokens] at hall
      have hmem : Token.placeholder o.placeholder [] [] ∈ ts.toList.map Token.bare := by
        rw [hall]
        simp [fileOf, Layout.catchBody, Layout.braces, Token.bare, Token.placeholder]
      rcases List.mem_map.mp hmem with ⟨x, hx, heq⟩
      have hkind : x.kind = .editorPlaceholder := congrArg Token.kind heq
      have htext : x.text = o.placeholder := congrArg Token.text heq
      have hbody : x ∈ ts.body := by
        rcases List.mem_append.mp hx with hx | hx
        · exact hx
        · rw [List.mem_singleton] at hx
          rw [hx] at hkind
          cases hkind
      have hread := Tokens.placeholder_of_lexes ((Tokens.ofText_eq_ok_iff _ _).mp hts) x hbody hkind
      rw [htext] at hread
      exact hread
    · intro hplaceholder
      exact ofText_catchBody ⟨⟨kind, hbreaks, hnewline⟩, hbase, hunit, hplaceholder⟩ hblanks

theorem placeholder_reads_iff_standard :
    ∃ t, checkPlaceholder Token.defaultPlaceholder = .ok t ∧
      (Tokens.ofText t = .ok ⟨[Token.placeholder t [] []], []⟩ ↔ ClosesAtEnd t) ∧
      ∀ (o : Layout) (kind : Run) (blanks : Trivia), o.placeholder = t → kind.breaksLine = true →
        o.newline = [.run kind 1] → o.base.Indents → 0 < o.unit.width → blanks.Indents →
        ((∃ file, Tree.ofText (o.catchBody blanks).code = .ok file ∧
          file.bare = (fileOf (o.catchBody blanks)).bare) ↔ ClosesAtEnd t) :=
  ⟨_, rfl, placeholder_reads_iff (t := Token.defaultPlaceholder) rfl⟩

/-- A placeholder with a closing mark in the middle is accepted, and is read as four tokens. -/
theorem not_reads_of_early_close :
    checkPlaceholder (Text.ofString "<#a#>b#>") = .ok (Text.ofString "<#a#>b#>") ∧
      Tokens.ofText (Text.ofString "<#a#>b#>") =
        .ok ⟨[Token.placeholder (Text.ofString "<#a#>") [] [],
          ⟨.identifier, ['b'], [], []⟩, ⟨.poundKeyword, ['#'], [], []⟩,
          ⟨.operatorSign, ['>'], [], []⟩], []⟩ ∧
      Tokens.ofText (Text.ofString "<#a#>b#>") ≠
        .ok ⟨[Token.placeholder (Text.ofString "<#a#>b#>") [] []], []⟩ := by
  have hread : Tokens.ofText (Text.ofString "<#a#>b#>") =
      .ok ⟨[Token.placeholder (Text.ofString "<#a#>") [] [],
        ⟨.identifier, ['b'], [], []⟩, ⟨.poundKeyword, ['#'], [], []⟩,
        ⟨.operatorSign, ['>'], [], []⟩], []⟩ := by
    apply eq_ok_of_toOption
    decide +kernel
  refine ⟨rfl, hread, ?_⟩
  rw [hread]
  intro heq
  injection heq with heq
  exact absurd heq (by decide)

end Setting
end ForceTry

import ForceTry.Proofs.Indentation.Margins
import ForceTry.Proofs.Text.Line
import ForceTry.Proofs.Tree.Starts
import ForceTry.Proofs.Trivia.Tidy

/-!
# Lines and rows

Lines of a tree are looked up by the pieces that break a line.  The rows that these pieces leave are the
lines of the text only where no line feed stands in a comment or in a token: a comment over several lines,
a string or a placeholder joins the lines it touches to one row.  What is looked up is right for rows, and
so it is right for every line on which a row starts.
-/

namespace ForceTry

open ForceTry.Text

namespace Piece

theorem pads_of_mem_code {p : Piece} (hp : p.isBlank = true) : ∀ c ∈ p.code, Pads c := by
  cases p with
  | comment form text => cases hp
  | run kind n =>
      intro c hc
      have hunit := mem_unit_of_mem_code hc
      cases kind with
      | spaces => exact .inl (List.mem_singleton.mp hunit)
      | tabs => exact .inr (List.mem_singleton.mp hunit)
      | newlines => cases hp
      | carriageReturnLineFeeds => cases hp

theorem not_pads_head {p : Piece} {rest : Trivia} (h : p.EndsBefore rest) (hp : p.isBlank = false) :
    ∃ c s, p.code = c :: s ∧ ¬ Pads c := by
  rcases opening_of_endsBefore h with ⟨s, hs⟩
  rw [← hs]
  match p with
  | .run .newlines _ => exact ⟨'\n', s, rfl, by decide⟩
  | .run .carriageReturnLineFeeds _ => exact ⟨'\r', '\n' :: s, rfl, by decide⟩
  | .comment .line _ => exact ⟨'/', '/' :: s, rfl, by decide⟩
  | .comment .block _ => exact ⟨'/', '*' :: s, rfl, by decide⟩

end Piece

namespace Trivia

theorem takeWhile_pads_code {t : Trivia} (h : t.Canonical) {u : Text}
    (hu : ∀ c ∈ u.head?, ¬ Pads c) :
    (t.code ++ u).takeWhile (Pads ·) = code (t.takeWhile Piece.isBlank) := by
  induction t with
  | nil => exact takeWhile_pads_append [] hu
  | cons p t ih =>
      rw [code_cons, List.append_assoc]
      cases hp : p.isBlank with
      | true =>
          have hpads := Piece.pads_of_mem_code hp
          rw [List.takeWhile_append_of_pos fun c hc => decide_eq_true (hpads c hc), ih h.2,
            List.takeWhile_cons_of_pos hp, code_cons]
      | false =>
          rcases Piece.not_pads_head h.1 hp with ⟨c, s, hcode, hc⟩
          rw [hcode, List.cons_append,
            List.takeWhile_cons_of_neg (by simpa only [decide_eq_true_eq] using hc),
            List.takeWhile_cons_of_neg (Bool.eq_false_iff.mp hp)]
          rfl

theorem mem_code_of_containsNewline {t : Trivia} (h : t.Canonical)
    (hbreak : t.containsNewline = true) : '\n' ∈ t.code := by
  rcases List.any_eq_true.mp hbreak with ⟨p, hp, hnewline⟩
  cases p with
  | comment form text => cases hnewline
  | run kind n =>
      rcases Piece.code_of_isNewline hnewline (count_of_canonical h hp) with ⟨s, hs⟩
      refine List.mem_flatMap.mpr ⟨_, hp, ?_⟩
      rw [hs]
      exact List.mem_append_right s (List.mem_singleton_self '\n')

theorem staysInLine_of_canonical {t : Trivia} (h : t.Canonical) {text : Text}
    (hmem : .comment .line text ∈ t) : ∀ c ∈ text, Piece.staysInLine c = true := by
  induction t with
  | nil => cases hmem
  | cons p t ih =>
      cases hmem with
      | tail _ hmem => exact ih h.2 hmem
      | head =>
          rcases h.1 with ⟨r, rfl, hr, _⟩
          intro c hc
          rcases List.mem_cons.mp hc with rfl | hc
          · rfl
          rcases List.mem_cons.mp hc with rfl | hc
          · rfl
          · exact hr c hc

theorem comment_of_mem_code {t : Trivia} (h : t.Canonical) (hbreak : t.containsNewline = false)
    (hmem : '\n' ∈ t.code) : ∃ text, .comment .block text ∈ t ∧ '\n' ∈ text := by
  rcases List.mem_flatMap.mp hmem with ⟨p, hp, hcode⟩
  match p with
  | .comment .block text => exact ⟨text, hp, hcode⟩
  | .comment .line text => exact absurd (staysInLine_of_canonical h hp '\n' hcode) (by decide)
  | .run kind n =>
      have hkind : kind.breaksLine = false :=
        Bool.eq_false_iff.mpr fun hkind => List.any_eq_false.mp hbreak _ hp hkind
      have hunit := Piece.mem_unit_of_mem_code hcode
      cases kind with
      | spaces => cases List.mem_singleton.mp hunit
      | tabs => cases List.mem_singleton.mp hunit
      | newlines => cases hkind
      | carriageReturnLineFeeds => cases hkind

/-- The row that trivia leads to from a row with the text `row`. -/
def row (row : Text) (t : Trivia) : Text :=
  if t.containsNewline then t.afterLastNewline.code else row ++ t.code

theorem fromLineStart_row {t : Trivia} (h : t.Canonical) {u r : Text} (hr : FromLineStart u r) :
    FromLineStart (u ++ t.code) (t.row r) := by
  unfold row
  split
  · next hbreak =>
      rcases throughLastNewline_of_containsNewline hbreak with ⟨front, kind, n, heq, hkind, hmem⟩
      rcases Piece.code_of_isNewline hkind (count_of_canonical h hmem) with ⟨s, hs⟩
      have hcode : t.code = code front ++ (s ++ ['\n']) ++ t.afterLastNewline.code := by
        have hparts := congrArg code (throughLastNewline_append_afterLastNewline t)
        rw [code_append, heq, code_append, code_cons, code_nil, List.append_nil, hs] at hparts
        exact hparts.symm
      right
      refine ⟨u ++ (code front ++ s), ?_⟩
      rw [hcode]
      simp only [List.append_assoc, List.singleton_append]
  · exact hr.append t.code

end Trivia

namespace Leaf

def rowBehind (row : Text) (l : Leaf) : Text :=
  l.token.trailing.row (l.token.leading.row row ++ l.token.text)

/-- The row in front of the text of a leaf that stands behind other leaves. -/
def row (before : List Leaf) (l : Leaf) : Text := l.token.leading.row (before.foldl rowBehind [])

theorem fromLineStart_foldl {ls : List Leaf}
    (h : ∀ l ∈ ls, l.token.leading.Canonical ∧ l.token.trailing.Canonical) {u r : Text}
    (hr : FromLineStart u r) : FromLineStart (u ++ codeOf ls) (ls.foldl rowBehind r) := by
  induction ls generalizing u r with
  | nil => rwa [codeOf, List.flatMap_nil, List.append_nil]
  | cons l ls ih =>
      rcases List.forall_mem_cons.mp h with ⟨hl, hls⟩
      have hleading := (Trivia.fromLineStart_row hl.1 hr).append l.token.text
      have hrest := ih hls (Trivia.fromLineStart_row hl.2 hleading)
      rw [codeOf_cons, Token.code, List.foldl_cons]
      simp only [List.append_assoc] at hrest ⊢
      exact hrest

theorem fromLineStart_row {before : List Leaf} {l : Leaf}
    (h : ∀ m ∈ before, m.token.leading.Canonical ∧ m.token.trailing.Canonical)
    (hl : l.token.leading.Canonical) :
    FromLineStart (codeOf before ++ l.token.leading.code) (row before l) :=
  Trivia.fromLineStart_row hl (fromLineStart_foldl h (.inl rfl))

/-!
# The first token of a line
-/

/-- No token of `before` ends on the line of the source on which the text of `l` begins. -/
def FirstOnLine (source : Text) (before : List Leaf) (l : Leaf) : Prop :=
  ∀ front m behind, before = front ++ m :: behind →
    lineOf source (offset front m + m.token.text.length) ≠ lineOf source (offset before l)

/-- Directly behind the token in front of `l` there is a block comment over several lines, and the line
does not break behind it. -/
def JoinedByComment (before : List Leaf) (l : Leaf) : Prop :=
  ∃ m ∈ before.getLast?, l.token.leading = [] ∧
    ∃ text, .comment .block text ∈ m.token.trailing ∧ '\n' ∈ text

variable {source : Text} {before behind : List Leaf} {l : Leaf}

theorem take_end (h : source = codeOf (before ++ l :: behind)) :
    source.take (offset before l + l.token.text.length) =
      codeOf before ++ l.token.leading.code ++ l.token.text := by
  rw [h, codeOf_split, ← List.append_assoc, offset, ← List.length_append, List.take_left]

/-- A token ends on the line of a later one when there is no line feed in between. -/
theorem lineOf_eq_iff {front rest : List Leaf} {m : Leaf}
    (h : source = codeOf (front ++ m :: rest ++ l :: behind)) :
    lineOf source (offset front m + m.token.text.length) =
        lineOf source (offset (front ++ m :: rest) l) ↔
      '\n' ∉ m.token.trailing.code ++ codeOf rest ++ l.token.leading.code := by
  have htext : codeOf (front ++ m :: rest) ++ l.token.leading.code =
      (codeOf front ++ m.token.leading.code ++ m.token.text) ++
        (m.token.trailing.code ++ codeOf rest ++ l.token.leading.code) := by
    rw [codeOf_split]
    simp only [List.append_assoc]
  have hsource : source = codeOf (front ++ m :: (rest ++ l :: behind)) := by
    rw [h, List.append_assoc, List.cons_append]
  have hcount (s gap : Text) : s.count '\n' = (s ++ gap).count '\n' ↔ '\n' ∉ gap := by
    rw [List.count_append, eq_comm, Nat.add_eq_left, List.count_eq_zero]
  rw [lineOf, lineOf, take_offset h, htext, take_end hsource]
  exact hcount _ _

theorem firstOnLine_iff (h : source = codeOf (before ++ l :: behind)) :
    FirstOnLine source before l ↔
      ∀ m ∈ before.getLast?, '\n' ∈ m.token.trailing.code ++ l.token.leading.code := by
  constructor
  · intro hfirst m hm
    rcases List.getLast?_eq_some_iff.mp hm with ⟨front, rfl⟩
    have hne := hfirst front m [] rfl
    rw [Ne, lineOf_eq_iff h, not_not, codeOf, List.flatMap_nil, List.append_nil] at hne
    exact hne
  · rintro hlast front m rest rfl
    rw [Ne, lineOf_eq_iff h, not_not]
    rcases List.eq_nil_or_concat rest with rfl | ⟨rest, k, rfl⟩
    · have hmem := hlast m (by simp)
      rwa [codeOf, List.flatMap_nil, List.append_nil]
    · rw [List.concat_eq_append] at hlast ⊢
      have hmem := hlast k (by rw [← List.cons_append, ← List.append_assoc]; exact List.getLast?_concat)
      rw [codeOf_append, codeOf_cons, Token.code]
      simp only [List.mem_append] at hmem ⊢
      rcases hmem with hmem | hmem
      · exact .inl (.inr (.inr (.inl (.inr hmem))))
      · exact .inr hmem

theorem line_of_split (h : source = codeOf (before ++ l :: behind))
    (htext : ∃ c s, l.token.text = c :: s ∧ ¬ Pads c) :
    ∃ line, (source.split '\n')[lineOf source (offset before l)]? = some line ∧
      line.takeWhile (Pads ·) =
        (Position.lastLine (codeOf before ++ l.token.leading.code)).takeWhile (Pads ·) := by
  rcases htext with ⟨c, s, hcons, hc⟩
  have hline := getElem?_split (codeOf before ++ l.token.leading.code)
    (l.token.text ++ (l.token.trailing.code ++ codeOf behind))
  rw [← codeOf_split, ← h, ← take_offset h] at hline
  rw [← take_offset h]
  refine ⟨_, hline, takeWhile_pads_append _ ?_⟩
  rw [hcons, List.cons_append, List.takeWhile_cons]
  split
  · rintro d hd
    cases hd
    exact hc
  · intro d hd
    cases hd

end Leaf

namespace Token

structure Apart (t : Token) : Prop where
  text : ∃ c s, t.text = c :: s ∧ ¬ Pads c
  leading : t.leading.Canonical
  trailing : t.trailing.Canonical ∧ t.trailing.containsNewline = false

end Token

namespace Tree

open Leaf (rowBehind FirstOnLine JoinedByComment)

/-!
# Looking up a line
-/

def startsBehind (previous : Option Token) (l : Leaf) : Bool :=
  match previous with
  | none => true
  | some p => l.token.leading.containsNewline || p.trailing.containsNewline

theorem lineStartsFrom_cons (previous : Option Token) (l : Leaf) (ls : List Leaf) :
    lineStartsFrom previous (l :: ls) =
      (l, startsBehind previous l) :: lineStartsFrom (some l.token) ls := rfl

theorem lineStartsFrom_append (previous : Option Token) (before ls : List Leaf) :
    lineStartsFrom previous (before ++ ls) =
      lineStartsFrom previous before ++
        lineStartsFrom ((before.getLast?.map Leaf.token).or previous) ls := by
  induction before generalizing previous with
  | nil => rfl
  | cons m before ih =>
      have hlast : ((before.getLast?.map Leaf.token).or (some m.token)) =
          (((m :: before).getLast?.map Leaf.token).or previous) := by
        rw [List.getLast?_cons]
        cases before.getLast? <;> rfl
      rw [List.cons_append, lineStartsFrom_cons, lineStartsFrom_cons, ih, hlast, List.cons_append]

variable {source : Text} {t : Tree} {before behind : List Leaf} {l : Leaf}

theorem startsLine_leaf (hleaves : t.leaves = before ++ l :: behind)
    (hlabel : ∀ m ∈ before, m.label ≠ l.label) :
    startsLine (some t) (.leaf l) = startsBehind (before.getLast?.map Leaf.token) l := by
  have hbefore : (lineStartsFrom none before).find? (fun entry => entry.1.label == l.label) = none := by
    rw [List.find?_eq_none]
    intro entry hentry heq
    have hmem := List.mem_map_of_mem (f := Prod.fst) hentry
    rw [leaves_lineStartsFrom] at hmem
    exact hlabel entry.1 hmem (eq_of_beq heq)
  have hfind : t.lineStarts.find? (fun entry => entry.1.label == l.label) =
      some (l, startsBehind (before.getLast?.map Leaf.token) l) := by
    rw [lineStarts, hleaves, lineStartsFrom_append, List.find?_append, hbefore, Option.none_or,
      Option.or_none]
    exact List.find?_cons_of_pos (beq_self_eq_true l.label)
  have hfirst : (Tree.leaf l).firstLeaf? = some l := rfl
  simp only [startsLine, hfirst, hfind]

/-- What is known behind a token: the row that it stands on goes on, and its blanks are those of the
trivia that were looked up. -/
inductive Margin : Option Token → Text → Trivia → Prop where
  | start (current : Trivia) : Margin none [] current
  | behind {p : Token} {row : Text} {current : Trivia}
      (trailing : p.trailing.containsNewline = false)
      (blanks : ∀ u, (row ++ u).takeWhile (Pads ·) = current.code) : Margin (some p) row current

def indentationAt (previous : Option Token) (current : Trivia) (l : Leaf) : Trivia :=
  if startsBehind previous l then l.token.leading.leadingIndentation else current

section

variable {previous : Option Token} {row : Text} {current : Trivia}

theorem Margin.takeWhile_row (h : Margin previous row current) (hl : l.token.leading.Canonical)
    {u : Text} (hu : ∀ c ∈ u.head?, ¬ Pads c) :
    (l.token.leading.row row ++ u).takeWhile (Pads ·) = (indentationAt previous current l).code := by
  have hblanks : (l.token.leading.afterLastNewline.code ++ u).takeWhile (Pads ·) =
      l.token.leading.leadingIndentation.code := by
    apply Trivia.takeWhile_pads_code _ hu
    rw [← Trivia.throughLastNewline_append_afterLastNewline l.token.leading] at hl
    exact Trivia.canonical_of_append hl
  rw [Trivia.row, indentationAt]
  cases hbreak : l.token.leading.containsNewline with
  | true =>
      have hstarts : startsBehind previous l = true := by
        cases h with
        | start => rfl
        | behind => rw [startsBehind, hbreak, Bool.true_or]
      rw [if_pos rfl, if_pos hstarts]
      exact hblanks
  | false =>
      rw [if_neg Bool.false_ne_true]
      cases h with
      | start =>
          have hafter : l.token.leading.afterLastNewline = l.token.leading := by
            have hparts := Trivia.throughLastNewline_append_afterLastNewline l.token.leading
            rwa [Trivia.throughLastNewline_of_not_containsNewline hbreak, List.nil_append] at hparts
          rw [hafter] at hblanks
          exact hblanks
      | @behind p _ _ htrailing hrow =>
          have hstarts : startsBehind (some p) l = false := by
            rw [startsBehind, hbreak, htrailing, Bool.or_false]
          rw [hstarts, if_neg Bool.false_ne_true, List.append_assoc, hrow]

theorem Margin.next (h : Margin previous row current) (hl : l.token.Apart) :
    Margin (some l.token) (rowBehind row l) (indentationAt previous current l) := by
  apply Margin.behind hl.trailing.2
  intro u
  rcases hl.text with ⟨c, s, htext, hc⟩
  rw [rowBehind, Trivia.row, hl.trailing.2, if_neg Bool.false_ne_true, htext]
  simp only [List.append_assoc]
  apply h.takeWhile_row hl.leading
  rintro d hd
  cases hd
  exact hc

theorem Margin.code_indentationFrom (h : Margin previous row current)
    (hbefore : ∀ m ∈ before, m.label ≠ l.label ∧ m.token.Apart) (hl : l.token.leading.Canonical) :
    (indentationFrom l.label current (lineStartsFrom previous (before ++ l :: behind))).code =
      (l.token.leading.row (before.foldl rowBehind row)).takeWhile (Pads ·) := by
  induction before generalizing previous row current with
  | nil =>
      have hrow := h.takeWhile_row hl (u := []) (by simp)
      rw [List.append_nil] at hrow
      rw [List.nil_append, List.foldl_nil, hrow, lineStartsFrom_cons, indentationFrom,
        if_pos (beq_self_eq_true l.label)]
      rfl
  | cons m before ih =>
      rcases List.forall_mem_cons.mp hbefore with ⟨⟨hlabel, hm⟩, hrest⟩
      rw [List.cons_append, List.foldl_cons, lineStartsFrom_cons, indentationFrom,
        if_neg (by simpa using hlabel)]
      exact ih (h.next hm) hrest

end

/-- A leaf starts a line when it is the first one on the line of its text, and no comment joins that
line to the one before it. -/
theorem startsBehind_iff (hsource : source = Leaf.codeOf (before ++ l :: behind))
    (hbefore : ∀ m ∈ before, m.token.Apart) (hl : l.token.leading.Canonical)
    (hleading : before ≠ [] → ∀ p ∈ l.token.leading.head?, p.isNewline = true) :
    startsBehind (before.getLast?.map Leaf.token) l = true ↔
      FirstOnLine source before l ∧ ¬ JoinedByComment before l := by
  rw [Leaf.firstOnLine_iff hsource]
  cases hlast : before.getLast? with
  | none =>
      refine iff_of_true rfl (And.intro ?_ ?_)
      · intro m hm
        cases hm
      · rintro ⟨m, hm, _⟩
        rw [hlast] at hm
        cases hm
  | some m =>
      have hm := hbefore m (List.mem_of_getLast? hlast)
      have hne : before ≠ [] := List.ne_nil_of_mem (List.mem_of_getLast? hlast)
      have hstarts : startsBehind ((some m).map Leaf.token) l = l.token.leading.containsNewline := by
        rw [Option.map_some, startsBehind, hm.trailing.2, Bool.or_false]
      rw [hstarts]
      cases hbreak : l.token.leading.containsNewline with
      | true =>
          refine iff_of_true rfl (And.intro ?_ ?_)
          · intro k _
            exact List.mem_append_right _ (Trivia.mem_code_of_containsNewline hl hbreak)
          · rintro ⟨k, _, hnil, _⟩
            rw [hnil] at hbreak
            cases hbreak
      | false =>
          have hnil : l.token.leading = [] := by
            cases hcons : l.token.leading with
            | nil => rfl
            | cons p rest =>
                have hp : p.isNewline = true := hleading hne p (by rw [hcons]; rfl)
                rw [hcons, Trivia.containsNewline_cons, hp] at hbreak
                cases hbreak
          refine iff_of_false Bool.false_ne_true ?_
          rintro ⟨hfirst, hjoined⟩
          have hmem := hfirst m rfl
          rw [hnil, Trivia.code_nil, List.append_nil] at hmem
          exact hjoined ⟨m, hlast, hnil, Trivia.comment_of_mem_code hm.trailing.1 hm.trailing.2 hmem⟩

/-- What is looked up for the line of the leaf `l` behind the leaves `before`. -/
structure FindsLine (source : Text) (t : Tree) (before : List Leaf) (l : Leaf) : Prop where
  /-- a first token is found, unless a comment joins its line to the one before it -/
  starts : startsLine (some t) (.leaf l) = true ↔
    FirstOnLine source before l ∧ ¬ JoinedByComment before l
  /-- the indentation found is that of the row -/
  row : (t.lineIndentation (.leaf l)).code = (Leaf.row before l).takeWhile (Pads ·)
  /-- the line ends what the row has in front of the leaf, so it is indented alike when it is all of it -/
  line : ∃ line, (source.split '\n')[lineOf source (Leaf.offset before l)]? = some line ∧
    line.takeWhile (Pads ·) = (Position.lastLine (Leaf.row before l)).takeWhile (Pads ·) ∧
    ('\n' ∉ Leaf.row before l → (t.lineIndentation (.leaf l)).code = line.takeWhile (Pads ·))

theorem apart_of_split {first : Nat} {ts : Tokens} (hts : Tokens.ofText source = .ok ts)
    (h : Tokens.toLeaves first ts.toList = before ++ l :: behind) (hl : l.token.kind ≠ .endOfFile) :
    ∀ m ∈ before ++ [l], m.token.Apart := by
  have hdivide := Tokens.divide_of_ofText hts
  have hlexes := (Tokens.ofText_eq_ok_iff source ts).mp hts
  intro m hm
  have hkind : m.token.kind ≠ .endOfFile := by
    rcases List.mem_append.mp hm with hbefore | hlast
    · intro hend
      rcases List.append_of_mem hbefore with ⟨front, rest, rfl⟩
      rw [List.append_assoc, List.cons_append] at h
      have hnil := (behind_endOfFile (fun t ht => (hdivide.text t ht).1) h hend).1
      exact List.append_ne_nil_of_right_ne_nil rest (List.cons_ne_nil l behind) hnil
    · rwa [List.mem_singleton.mp hlast]
  have hmem : m.token ∈ ts.toList := by
    rw [← token_toLeaves first ts.toList, h]
    apply List.mem_map_of_mem
    rw [← List.singleton_append, ← List.append_assoc]
    exact List.mem_append_left behind hm
  have hbody : m.token ∈ ts.body := by
    rw [hdivide.ending] at hmem
    rcases List.mem_append.mp hmem with hbody | hlast
    · exact hbody
    · rw [List.mem_singleton.mp hlast] at hkind
      exact absurd rfl hkind
  rcases Tokens.starts_of_lexes hlexes _ hbody with ⟨c, s, htext, hspace, htab, _⟩
  have hcanonical := hdivide.canonical _ hmem
  constructor
  · refine ⟨c, s, htext, ?_⟩
    rintro (rfl | rfl)
    · exact hspace rfl
    · exact htab rfl
  · exact hcanonical.1
  · exact ⟨hcanonical.2, hdivide.trailing _ hmem⟩

/-- What is looked up for every token of a source but the end of the file. -/
theorem ofText_lines (h : ofText source = .ok t) (hleaves : t.leaves = before ++ l :: behind)
    (hl : l.token.kind ≠ .endOfFile) : FindsLine source t before l := by
  rcases ofText_forms h with ⟨ts, _, hts, htoLeaves, _⟩
  have hdivide := Tokens.divide_of_ofText hts
  have hsplit := htoLeaves.symm.trans hleaves
  have hsource : source = Leaf.codeOf (before ++ l :: behind) := by
    rw [← hsplit, codeOf_toLeaves]
    exact hdivide.code.symm
  have hapart := apart_of_split hts hsplit hl
  have hlast : l.token.Apart := hapart l (List.mem_append_right _ (List.mem_singleton_self l))
  have hbefore : ∀ m ∈ before, m.token.Apart := fun m hm => hapart m (List.mem_append_left _ hm)
  have hlabel : ∀ m ∈ before, m.label ≠ l.label := by
    have hnodup := nodup_label_toLeaves 0 ts.toList
    rw [hsplit, List.map_append, List.nodup_append] at hnodup
    exact fun m hm => hnodup.2.2 _ (List.mem_map_of_mem hm) _ (List.mem_cons_self ..)
  have hleading : before ≠ [] → ∀ p ∈ l.token.leading.head?, p.isNewline = true := by
    intro hne
    apply hdivide.leading
    have htokens := token_toLeaves 0 ts.toList
    rcases List.exists_cons_of_ne_nil hne with ⟨m, rest, rfl⟩
    rw [← htokens, hsplit]
    exact List.mem_map_of_mem (List.mem_append_right rest (List.mem_cons_self ..))
  have hfound : (t.lineIndentation (.leaf l)).code = (Leaf.row before l).takeWhile (Pads ·) := by
    have hfirst : (Tree.leaf l).firstLeaf? = some l := rfl
    simp only [lineIndentation, hfirst, lineStarts, hleaves]
    exact (Margin.start []).code_indentationFrom (fun m hm => ⟨hlabel m hm, hbefore m hm⟩) hlast.leading
  constructor
  · rw [startsLine_leaf hleaves hlabel]
    exact startsBehind_iff hsource hbefore hlast.leading hleading
  · exact hfound
  · have hrow := (Leaf.fromLineStart_row (fun m hm => ⟨(hbefore m hm).leading, (hbefore m hm).trailing.1⟩)
      hlast.leading).lastLine_eq
    rcases Leaf.line_of_split hsource hlast.text with ⟨line, hline, hblanks⟩
    rw [hrow] at hblanks
    refine ⟨line, hline, hblanks, ?_⟩
    intro hnewline
    rw [hblanks, hfound, Position.lastLine_of_notMem hnewline]

/-- The row of `g` begins with a comment over two lines, and a string over two lines stands on it. -/
theorem ofText_lines_string :
    ∃ t before l behind,
      ofText (Text.ofString "f()\n\t/* \n */ x = \"\"\"\n  \"\"\" + g\n") = .ok t ∧
        t.leaves = before ++ l :: behind ∧ l.token.text = ['g'] ∧ l.token.kind ≠ .endOfFile ∧
        FindsLine (Text.ofString "f()\n\t/* \n */ x = \"\"\"\n  \"\"\" + g\n") t before l := by
  have hcheck : ((ofText (Text.ofString
      "f()\n\t/* \n */ x = \"\"\"\n  \"\"\" + g\n")).toOption.bind fun t =>
        (t.leaves.drop 7).head?.map fun l => (l.token.text, l.token.kind)) =
      some (['g'], .identifier) := by
    decide +kernel
  rcases Option.bind_eq_some_iff.mp hcheck with ⟨t, ht, hfound⟩
  rcases Option.map_eq_some_iff.mp hfound with ⟨l, hl, hall⟩
  rcases List.head?_eq_some_iff.mp hl with ⟨behind, hbehind⟩
  rcases Prod.mk.injEq .. ▸ hall with ⟨htext, hkind⟩
  have hleaves : t.leaves = t.leaves.take 7 ++ l :: behind := by
    rw [← hbehind, List.take_append_drop]
  have hne : l.token.kind ≠ .endOfFile := by
    rw [hkind]
    decide
  exact ⟨t, _, l, behind, eq_ok_of_toOption ht, hleaves, htext, hne,
    ofText_lines (eq_ok_of_toOption ht) hleaves hne⟩

/-- The `try` is the first token on its line, which is indented by two spaces, but it is not found to
start that line, and no indentation is found. -/
theorem ofText_joined_line :
    ∃ t before l behind line,
      ofText (Text.ofString "a = /* x\n  y */ try b()\n") = .ok t ∧
        t.leaves = before ++ l :: behind ∧ l.token.kind = .keyword ∧
        FirstOnLine (Text.ofString "a = /* x\n  y */ try b()\n") before l ∧
        startsLine (some t) (.leaf l) = false ∧
        (split '\n' (Text.ofString "a = /* x\n  y */ try b()\n"))[lineOf
          (Text.ofString "a = /* x\n  y */ try b()\n") (Leaf.offset before l)]? = some line ∧
        line.takeWhile (Pads ·) = [' ', ' '] ∧ (t.lineIndentation (.leaf l)).code = [] := by
  have hcheck : ((ofText (Text.ofString "a = /* x\n  y */ try b()\n")).toOption.bind fun t =>
      (t.leaves.drop 2).head?.map fun l =>
        (((t.leaves.take 2).getLast?.map fun m => m.token.trailing.code ++ l.token.leading.code),
          l.token.kind, startsLine (some t) (.leaf l), Leaf.offset (t.leaves.take 2) l,
          (t.lineIndentation (.leaf l)).code)) =
      some (some (Text.ofString " /* x\n  y */ "), .keyword, false, 16, []) := by
    decide +kernel
  rcases Option.bind_eq_some_iff.mp hcheck with ⟨t, ht, hfound⟩
  rcases Option.map_eq_some_iff.mp hfound with ⟨l, hl, hall⟩
  rcases List.head?_eq_some_iff.mp hl with ⟨behind, hbehind⟩
  simp only [Prod.mk.injEq] at hall
  rcases hall with ⟨hgap, hkind, hstarts, hoffset, hindentation⟩
  have hok := eq_ok_of_toOption ht
  have hleaves : t.leaves = t.leaves.take 2 ++ l :: behind := by
    rw [← hbehind, List.take_append_drop]
  have hsource : Text.ofString "a = /* x\n  y */ try b()\n" =
      Leaf.codeOf (t.leaves.take 2 ++ l :: behind) := by
    rcases ofTextFrom_of_ofText hok with ⟨next, hfrom⟩
    rw [← hleaves, ← code_eq_codeOf, code_of_ofTextFrom hfrom]
  refine ⟨t, _, l, behind, Text.ofString "  y */ try b()", hok, hleaves, hkind, ?_, hstarts, ?_, ?_,
    hindentation⟩
  · rw [Leaf.firstOnLine_iff hsource]
    intro m hm
    rw [Option.mem_def.mp hm, Option.map_some, Option.some_inj] at hgap
    rw [hgap]
    decide
  · rw [hoffset]
    decide
  · decide

end Tree
end ForceTry

import ForceTry.Proofs.Indentation.Margins
import ForceTry.Proofs.Pass.Materials
import ForceTry.Proofs.Refactor.Agreement
import ForceTry.Proofs.Token.Endings

/-!
# Refactoring keeps the kind of line breaks

A source in which a carriage return stands in front of every line feed is refactored to one, and a source
without carriage returns to one without.  No token and no piece of trivia of a source has one half of a
line break, so each of them keeps its line breaks whole wherever it goes.
-/

namespace ForceTry

open ForceTry.Text

namespace Text

/-!
# Properties of the parts of a text
-/

/-- A property that a text has when its parts have it, and that blanks have. -/
structure Local (Q : Text → Prop) : Prop where
  nil : Q []
  append : ∀ {s t : Text}, Q s → Q t → Q (s ++ t)
  space : Q [' ']
  tab : Q ['\t']

variable {Q : Text → Prop}

theorem Local.times (hQ : Local Q) {t : Text} (h : Q t) (n : Nat) : Q (times n t) := by
  induction n with
  | zero => exact hQ.nil
  | succ n ih =>
      rw [times_succ]
      exact hQ.append h ih

theorem Local.flatMap (hQ : Local Q) {α : Type} {f : α → Text} {xs : List α}
    (h : ∀ x ∈ xs, Q (f x)) : Q (xs.flatMap f) := by
  induction xs with
  | nil => exact hQ.nil
  | cons x xs ih =>
      rw [List.flatMap_cons]
      exact hQ.append (h x (List.mem_cons_self ..)) (ih fun y hy => h y (List.mem_cons_of_mem x hy))

theorem local_returned : Local Returned := by
  constructor
  · exact returned_of_not_mem (by decide)
  · exact Returned.append
  · exact returned_of_not_mem (by decide)
  · exact returned_of_not_mem (by decide)

theorem local_not_mem {c : Char} (hspace : c ≠ ' ') (htab : c ≠ '\t') : Local fun t => c ∉ t := by
  constructor
  · exact List.not_mem_nil
  · intro s t hs ht hmem
    rcases List.mem_append.mp hmem with hmem | hmem
    · exact hs hmem
    · exact ht hmem
  · exact fun hmem => hspace (List.mem_singleton.mp hmem)
  · exact fun hmem => htab (List.mem_singleton.mp hmem)

end Text

variable {Q : Text → Prop}

theorem Piece.local_of_blank (hQ : Local Q) {p : Piece} (h : p.isBlank = true) : Q p.code := by
  match p, h with
  | .run .spaces n, _ => exact hQ.times hQ.space n.toNat
  | .run .tabs n, _ => exact hQ.times hQ.tab n.toNat

def Token.Has (Q : Text → Prop) (t : Token) : Prop := t.MadeOf Q fun p => Q p.code

theorem Trivia.local_of_madeOf (hQ : Local Q) {t : Trivia} (h : t.MadeOf fun p => Q p.code) :
    Q t.code := by
  apply hQ.flatMap
  intro p hp
  rcases h p hp with hblank | hp
  · exact Piece.local_of_blank hQ hblank
  · exact hp

theorem Token.local_of_has (hQ : Local Q) {t : Token} (h : t.Has Q) : Q t.code :=
  hQ.append (hQ.append (Trivia.local_of_madeOf hQ h.leading) h.text)
    (Trivia.local_of_madeOf hQ h.trailing)

namespace Tokens

/-!
# The parts of a source
-/

theorem returned_scan (inLine : Bool) (t : Text) (h : Returned t) :
    (∀ p ∈ (Trivia.scan inLine t).1, Returned p.code) ∧ Returned (Trivia.scan inLine t).2 := by
  have hnil : ∀ p ∈ ([] : Trivia), Returned p.code := fun _ hp => absurd hp List.not_mem_nil
  induction t using Trivia.scan_induction inLine with
  | absent t hnone =>
      rw [Trivia.scan_of_next?_eq_none hnone]
      exact ⟨hnil, h⟩
  | stopped t p n hsome hline =>
      rw [Trivia.scan_of_next?_eq_some hsome, if_pos hline]
      exact ⟨hnil, h⟩
  | piece t p n hsome hline ih =>
      have hcode := Piece.code_of_next? hsome
      have hpair := Piece.pair_of_stopsAt (Piece.stopsAt_of_next? hsome).2
      rw [← List.take_append_drop n t, ← hcode] at h
      rcases ih (h.right hpair) with ⟨hpieces, hrest⟩
      rw [Trivia.scan_of_next?_eq_some hsome, if_neg hline]
      constructor
      · rw [List.forall_mem_cons]
        exact ⟨h.left, hpieces⟩
      · exact hrest

/-- No token and no piece of trivia begins with the line feed of a line break that begins in front
of it. -/
theorem returned_of_lexes {previous : Option Token} {t : Text} {body : List Token}
    {ending : Trivia} (h : Lexes previous t body ending) (ht : Returned t) :
    (∀ x ∈ body, x.Has Returned) ∧ ending.MadeOf fun p => Returned p.code := by
  -- By induction on the reading: each token is cut off where the text may be cut.
  induction h with
  | @ending previous t leading gap =>
      have hscan := returned_scan false t ht
      rw [gap] at hscan
      constructor
      · intro x hx
        cases hx
      · exact fun p hp => .inr (hscan.1 p hp)
  | @token previous t leading trailing ending c r rest kind n body gap found behind next ih =>
      have hstarts := Trivia.next?_scan t
      have hleading := returned_scan false t ht
      rw [gap] at hstarts hleading
      have hcut := Token.parted_of_measure found hstarts
      have htext := hleading.2
      rw [← List.take_append_drop n (c :: r)] at htext
      have htrailing := returned_scan true _ (htext.right hcut.pair)
      rw [behind] at htrailing
      have hrest := ih htrailing.2
      constructor
      · rw [List.forall_mem_cons]
        refine ⟨⟨htext.left, ?_, ?_⟩, hrest.1⟩
        · exact fun p hp => .inr (hleading.1 p hp)
        · exact fun p hp => .inr (htrailing.1 p hp)
      · exact hrest.2

theorem has_of_lexes {source : Text} {ts : Tokens} (h : ofText source = .ok ts)
    (hsource : Returned source) : ∀ x ∈ ts.toList, x.Has Returned := by
  have hall := returned_of_lexes ((ofText_eq_ok_iff source ts).mp h) hsource
  intro x hx
  rcases List.mem_append.mp hx with hx | hx
  · exact hall.1 x hx
  · rw [List.mem_singleton.mp hx]
    exact ⟨returned_nil, hall.2, Trivia.madeOf_nil⟩

theorem has_of_not_mem {c : Char} {ts : List Token} (h : c ∉ codeOf ts) :
    ∀ x ∈ ts, x.Has fun t => c ∉ t := by
  intro x hx
  have hcode : c ∉ x.code := fun hmem => h (List.mem_flatMap.mpr ⟨x, hx, hmem⟩)
  rw [Token.code, List.mem_append, List.mem_append, not_or, not_or] at hcode
  constructor
  · exact hcode.1.2
  · exact fun p hp => .inr fun hmem => hcode.1.1 (List.mem_flatMap.mpr ⟨p, hp, hmem⟩)
  · exact fun p hp => .inr fun hmem => hcode.2 (List.mem_flatMap.mpr ⟨p, hp, hmem⟩)

end Tokens

namespace Tree

/-- A tree whose line breaks have carriage returns shows so, if it has one between its tokens. -/
theorem newlineStyle_of_returned {t : Tree}
    (hcanonical : ∀ x ∈ t.tokens, x.leading.Canonical ∧ x.trailing.Canonical)
    (hreturned : ∀ x ∈ t.tokens, x.Has Returned) (hbreaks : ∃ p ∈ t.pieces, p.isNewline = true) :
    newlineStyle (some t) = [.run .carriageReturnLineFeeds 1] := by
  -- A run of line feeds would begin with one that no carriage return precedes.
  have hpiece : ∀ n, .run .newlines n ∉ t.pieces := by
    intro n hn
    rcases List.mem_flatMap.mp hn with ⟨x, hx, hn⟩
    have hcount : 0 < n := by
      rcases List.mem_append.mp hn with hn | hn
      · exact Trivia.count_of_canonical (hcanonical x hx).1 hn
      · exact Trivia.count_of_canonical (hcanonical x hx).2 hn
    have hcode : Returned (Piece.code (.run .newlines n)) := by
      rcases List.mem_append.mp hn with hn | hn
      · exact ((hreturned x hx).leading _ hn).resolve_left Bool.false_ne_true
      · exact ((hreturned x hx).trailing _ hn).resolve_left Bool.false_ne_true
    rcases @Piece.unit_starts .newlines n hcount with ⟨u, hu⟩
    cases hcode [] u hu.symm
  unfold newlineStyle
  split
  · next kind n hfind =>
      have hbreak : kind.breaksLine = true := List.find?_some (p := Piece.isNewline) hfind
      have hmem : Piece.run kind n ∈ t.pieces := List.mem_of_find?_eq_some hfind
      cases kind with
      | spaces => cases hbreak
      | tabs => cases hbreak
      | newlines => exact absurd hmem (hpiece n)
      | carriageReturnLineFeeds => rfl
  · next hnone =>
      rcases hbreaks with ⟨p, hp, hbreak⟩
      cases hfind : t.pieces.find? Piece.isNewline with
      | none => exact absurd hbreak (List.find?_eq_none.mp hfind p hp)
      | some q =>
          have hq := List.find?_some hfind
          cases q with
          | comment form text => cases hq
          | run kind n => exact absurd hfind (hnone kind n)

end Tree

namespace Refactor

open ForceTry.DoCatch ForceTry.Tree ForceTry.Tokens

/-- Without trivia the refactored tree is the reference.  Where every line feed of a source has its
carriage return, and some line break is no part of a token or comment, every line feed of the refactored
text has its carriage return.  Where a source has no carriage return, the refactored text has none. -/
theorem tree_line_breaks {s : Settings} {f : Settings.Fallback} {placeholder source : Text}
    {first next : Nat} {t : Tree} (hf : s.fallback = .ok f) (hwritable : f.writable = true)
    (hplaceholder : s.placeholder = .text placeholder)
    (h : ofTextFrom first source = .ok (t, next)) (debug : Bool) :
    ∃ report metadata, tree rule s t debug next = .ok (report, metadata) ∧
      report.tree.bare = guardForced placeholder t.bare ∧
      (Returned placeholder → Returned source → (∃ p ∈ t.pieces, p.isNewline = true) →
        Returned report.tree.code) ∧
      ('\r' ∉ placeholder → '\r' ∉ source → '\r' ∉ report.tree.code) := by
  rcases ofTextFrom_forms h with ⟨ts, hts, hleaves, hforms, -⟩
  rcases tree_of_fallback hf hwritable hplaceholder h debug with
    ⟨pass, unitName, report, -, hroot, -, hpassPlaceholder, -, hreport, hnew, hbare, -⟩
  have htokens := tokens_of_toLeaves hleaves
  have hcanonical : ∀ x ∈ t.tokens, x.leading.Canonical ∧ x.trailing.Canonical := by
    rw [htokens]
    exact (divide_of_ofText hts).canonical
  have hsource := code_of_ofTextFrom h
  have hspread : ∀ {Q : Text → Prop}, Local Q → (∀ x ∈ t.tokens, x.Has Q) →
      (∀ p ∈ newlineStyle (some t), Q p.code) → (∀ text ∈ scaffold, Q text) → Q placeholder →
      Q report.tree.code := by
    intro Q hQ hold hnewline hscaffold hplace
    have hlayout : ∀ t, (pass.layout t).MadeOf Q fun p => Q p.code := by
      apply Pass.layout_madeOf
      · rw [hroot]
        exact hnewline
      · exact hscaffold
      · rw [hpassPlaceholder]
        exact hplace
    rw [Tree.code, hnew]
    apply hQ.flatMap
    exact fun x hx => Token.local_of_has hQ (Pass.madeOf_rewritten hlayout hforms hold x hx)
  refine ⟨report, _, hreport, hbare, ?_, ?_⟩
  · intro hplace hreturned hbreaks
    have hold : ∀ x ∈ t.tokens, x.Has Returned := by
      rw [htokens]
      exact has_of_lexes hts hreturned
    apply hspread local_returned hold _ _ hplace
    · rw [newlineStyle_of_returned hcanonical hold hbreaks]
      intro p hp
      rw [List.mem_singleton.mp hp]
      decide
    · exact fun text htext => returned_of_not_mem (by revert text; decide)
  · intro hplace hreturns
    rw [← hsource] at hreturns
    apply hspread (local_not_mem (by decide) (by decide)) (has_of_not_mem hreturns) _ _ hplace
    · rw [newlineStyle_of_code hcanonical hreturns]
      decide
    · decide

/-- A source with line breaks in a comment and in a literal, and with statements in statements, written
with the given line break. -/
def brokenSource (newline : Text) : Text :=
  Text.ofString "func f() \x7b" ++ newline ++ Text.ofString "  let s = try! g(\"\"\"" ++ newline ++
    Text.ofString "    a" ++ newline ++ Text.ofString "    \"\"\") /* b" ++ newline ++
    Text.ofString "  c */ \x7b try! h() \x7d" ++ newline ++ Text.ofString "\x7d" ++ newline

theorem tree_line_breaks_both :
    (∃ t next report metadata, ofTextFrom 0 (brokenSource ['\r', '\n']) = .ok (t, next) ∧
      tree rule Settings.standard t false next = .ok (report, metadata) ∧
      Returned report.tree.code) ∧
    ∃ t next report metadata, ofTextFrom 0 (brokenSource ['\n']) = .ok (t, next) ∧
      tree rule Settings.standard t false next = .ok (report, metadata) ∧
      '\r' ∉ report.tree.code := by
  have hf : Settings.standard.fallback = .ok ⟨.spaces 2, Text.ofString "2 spaces", true⟩ := rfl
  have hplaceholder : Settings.standard.placeholder = .text Token.defaultPlaceholder := rfl
  constructor
  · have hok : ((ofTextFrom 0 (brokenSource ['\r', '\n'])).toOption.any fun r =>
        r.1.pieces.any Piece.isNewline) = true := by
      decide +kernel
    rcases (Option.any_eq_true ..).mp hok with ⟨⟨t, next⟩, ht, hbreaks⟩
    rcases tree_line_breaks hf rfl hplaceholder (eq_ok_of_toOption ht) false with
      ⟨report, metadata, hreport, -, hreturned, -⟩
    exact ⟨t, next, report, metadata, eq_ok_of_toOption ht, hreport,
      hreturned (by decide) (by decide +kernel) (List.any_eq_true.mp hbreaks)⟩
  · have hok : (ofTextFrom 0 (brokenSource ['\n'])).toOption.isSome = true := by
      decide +kernel
    rcases Option.isSome_iff_exists.mp hok with ⟨⟨t, next⟩, ht⟩
    rcases tree_line_breaks hf rfl hplaceholder (eq_ok_of_toOption ht) false with
      ⟨report, metadata, hreport, -, -, hreturns⟩
    exact ⟨t, next, report, metadata, eq_ok_of_toOption ht, hreport,
      hreturns (by decide) (by decide +kernel)⟩

end Refactor
end ForceTry

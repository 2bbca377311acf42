import ForceTry.Proofs.Trivia.Canonical
import ForceTry.Tree.Parser

/-!
# The tokens of a source

Every source is either divided completely into tokens or has a string literal that is never closed.
The tokens have the text of the source, only the last one is the end of the file, line breaks stand
in front of tokens and never behind them, and all trivia is canonical.
-/

namespace ForceTry

namespace Literal

/-!
# What a step does

A step looks at the innermost layer only.
-/

inductive Moves (n : Nat) (t : Text) : Layer → List Layer → Nat → Prop where
  | closed {hashes : Nat} {multiline : Bool} {start : Nat}
      (hclosing : Text.startsWith (closing hashes multiline) t = true) :
      Moves n t (.quoted hashes multiline start) [] ((closing hashes multiline).length - 1)
  | interpolated {hashes : Nat} {multiline : Bool} {start : Nat} :
      Moves n t (.quoted hashes multiline start)
        [.interpolation 0, .quoted hashes multiline start] (hashes + 1)
  | stayed {l : Layer} {skip : Nat} : Moves n t l [l] skip
  | nested {depth : Nat} (hquote : t.head? = some '"') :
      Moves n t (.interpolation depth) [.quoted 0 (opensMultiline t) n, .interpolation depth]
        ((quotes (opensMultiline t)).length - 1)
  | counted {depth depth' : Nat} : Moves n t (.interpolation depth) [.interpolation depth'] 0
  | left : Moves n t (.interpolation 0) [] 0

theorem moves_of_step {l : Layer} {pushed : List Layer} {n skip : Nat} {t : Text}
    (h : step [l] n t = some (pushed, skip)) : Moves n t l pushed skip := by
  cases l with
  | quoted hashes multiline start =>
      simp only [step] at h
      split at h
      · next hclosing =>
          cases h
          exact .closed hclosing
      split at h
      · cases h
      split at h
      · cases h
        exact .interpolated
      split at h <;> cases h <;> exact .stayed
  | interpolation depth =>
      simp only [step] at h
      split at h
      · cases h
        exact .nested rfl
      · cases h
        exact .counted
      · cases depth with
        | zero =>
            cases h
            exact .left
        | succ depth =>
            cases h
            exact .counted
      · cases h
        exact .stayed

theorem step_cons (l : Layer) (outer : List Layer) (n : Nat) (t : Text) :
    step (l :: outer) n t = (step [l] n t).map fun r => (r.1 ++ outer, r.2) := by
  cases l with
  | quoted hashes multiline start =>
      simp only [step]
      split
      · rfl
      split
      · rfl
      split
      · rfl
      split <;> rfl
  | interpolation depth =>
      simp only [step]
      split
      · rfl
      · rfl
      · cases depth <;> rfl
      · rfl

theorem step_cases {layers layers' : List Layer} {n skip : Nat} {t : Text}
    (h : step layers n t = some (layers', skip)) :
    ∃ l outer pushed, layers = l :: outer ∧ layers' = pushed ++ outer ∧
      step [l] n t = some (pushed, skip) ∧ Moves n t l pushed skip := by
  cases layers with
  | nil => cases h
  | cons l outer =>
      rw [step_cons, Option.map_eq_some_iff] at h
      rcases h with ⟨⟨pushed, skip'⟩, hstep, heq⟩
      cases heq
      exact ⟨l, outer, pushed, rfl, rfl, hstep, moves_of_step hstep⟩

/-!
# Literals that are never closed
-/

/-- No literal that is open starts behind the `n` characters that have been read. -/
def StartBefore (n : Nat) (layers : List Layer) : Prop :=
  ∀ hashes multiline start, Layer.quoted hashes multiline start ∈ layers → start ≤ n

theorem StartBefore.mono {n m : Nat} {layers : List Layer} (h : StartBefore n layers)
    (hle : n ≤ m) : StartBefore m layers :=
  fun hashes multiline start hmem => Nat.le_trans (h hashes multiline start hmem) hle

theorem StartBefore.tail {n : Nat} {l : Layer} {layers : List Layer}
    (h : StartBefore n (l :: layers)) : StartBefore n layers :=
  fun hashes multiline start hmem => h hashes multiline start (List.mem_cons_of_mem l hmem)

theorem StartBefore.cons_quoted {n : Nat} {layers : List Layer} (h : StartBefore n layers)
    (hashes : Nat) (multiline : Bool) : StartBefore n (.quoted hashes multiline n :: layers) := by
  intro hashes' multiline' start hmem
  cases hmem with
  | head => exact Nat.le_refl n
  | tail _ hmem => exact h hashes' multiline' start hmem

theorem StartBefore.cons_interpolation {n : Nat} {layers : List Layer}
    (h : StartBefore n layers) (depth : Nat) : StartBefore n (.interpolation depth :: layers) := by
  intro hashes multiline start hmem
  cases hmem with
  | tail _ hmem => exact h hashes multiline start hmem

theorem startBefore_of_step {layers layers' : List Layer} {n skip : Nat} {t : Text}
    (h : step layers n t = some (layers', skip)) (hbefore : StartBefore n layers) :
    StartBefore n layers' := by
  rcases step_cases h with ⟨l, outer, pushed, rfl, rfl, _, hmoves⟩
  cases hmoves with
  | closed hclosing => exact hbefore.tail
  | interpolated => exact hbefore.cons_interpolation 0
  | stayed => exact hbefore
  | nested hquote => exact hbefore.cons_quoted 0 _
  | counted => exact hbefore.tail.cons_interpolation _
  | left => exact hbefore.tail

theorem innermost_le {n : Nat} {layers : List Layer} (h : StartBefore n layers) :
    innermost layers ≤ n := by
  induction layers with
  | nil => exact Nat.zero_le n
  | cons l layers ih =>
      cases l with
      | quoted hashes multiline start => exact h hashes multiline start (List.mem_cons_self ..)
      | interpolation depth => exact ih h.tail

theorem lengthFrom_error_le {layers : List Layer} {skip n e : Nat} {t : Text}
    (h : lengthFrom layers skip n t = .error e) (hbefore : StartBefore n layers) :
    e ≤ n + t.length := by
  fun_induction lengthFrom layers skip n t with
  | case1 => cases h
  | case2 layers skip n hopen =>
      cases h
      exact innermost_le hbefore
  | case3 layers n c t skip ih =>
      have hle := ih h (hbefore.mono (Nat.le_succ n))
      rw [List.length_cons]
      omega
  | case4 => cases h
  | case5 layers n c t hopen hstep =>
      cases h
      exact Nat.le_trans (innermost_le hbefore) (Nat.le_add_right n _)
  | case6 layers n c t hopen layers' skip' hstep ih =>
      have hle := ih h ((startBefore_of_step hstep hbefore).mono (Nat.le_succ n))
      rw [List.length_cons]
      omega

theorem length_error_le {t : Text} {e : Nat} (h : length t = .error e) : e ≤ t.length := by
  have hle := lengthFrom_error_le h (by
    intro hashes multiline start hmem
    cases hmem with
    | head => exact Nat.le_refl 0
    | tail _ hmem => cases hmem)
  rwa [Nat.zero_add] at hle

end Literal

namespace Tokens

/-!
# Reading up to a place

`Reads previous t body rest` says that the tokens `body` are read off `t` one after the other behind
the token `previous`, and that the text `rest` is still to be read.
-/

inductive Reads : Option Token → Text → List Token → Text → Prop where
  | here {previous : Option Token} {t : Text} : Reads previous t [] t
  | token {previous : Option Token} {t left : Text} {leading trailing : Trivia} {c : Char}
      {r rest : Text} {kind : TokenKind} {n : Nat} {body : List Token}
      (gap : Trivia.scan false t = (leading, c :: r))
      (found : Token.measure (Token.afterTry previous) c r = .ok (kind, n))
      (behind : Trivia.scan true ((c :: r).drop n) = (trailing, rest))
      (next : Reads (some ⟨kind, (c :: r).take n, leading, trailing⟩) rest body left) :
      Reads previous t (⟨kind, (c :: r).take n, leading, trailing⟩ :: body) left

theorem code_of_reads {previous : Option Token} {t rest : Text} {body : List Token}
    (h : Reads previous t body rest) : t = body.flatMap Token.code ++ rest := by
  induction h with
  | here => rfl
  | @token previous t left leading trailing c r rest kind n body gap found behind next ih =>
      have hleading := Trivia.code_scan false t
      rw [gap] at hleading
      have htrailing := Trivia.code_scan true ((c :: r).drop n)
      rw [behind] at htrailing
      rw [List.flatMap_cons, List.append_assoc, ← ih, ← hleading]
      show leading.code ++ (c :: r) = leading.code ++ (c :: r).take n ++ trailing.code ++ rest
      rw [List.append_assoc, htrailing, List.append_assoc, List.take_append_drop]

theorem reads_of_readFrom_error {read : List Token} {t : Text} {left : Nat}
    (h : readFrom read t = .error left) :
    ∃ body rest leading literal e,
      Reads read.head? t body rest ∧ Trivia.scan false rest = (leading, literal) ∧
      Literal.opensAt literal = true ∧ Literal.length literal = .error e ∧
      left = literal.length - e := by
  fun_induction readFrom read t with
  | case1 => cases h
  | case2 read t leading c r hl e hm =>
      cases h
      rcases Token.literal_of_measure_error hm with ⟨hopens, hlength⟩
      exact ⟨[], t, leading, c :: r, e, Reads.here, hl, hopens, hlength, rfl⟩
  | case3 read t leading c r hl kind n hm trailing rest ht ih =>
      rcases ih h with ⟨body, rest', leading', literal, e, hreads, hfailed⟩
      have hflag : Token.afterTry read.head? = (read.head?.map Token.isBareTry).getD false := by
        cases read.head? <;> rfl
      exact ⟨_ :: body, rest', leading', literal, e, Reads.token hl (hflag ▸ hm) ht hreads, hfailed⟩

/-!
# What the tokens of a text are
-/

theorem text_of_lexes {previous : Option Token} {t : Text} {body : List Token} {ending : Trivia}
    (h : Lexes previous t body ending) : ∀ x ∈ body, x.kind ≠ .endOfFile ∧ x.text ≠ [] := by
  induction h with
  | ending gap =>
      intro x hx
      cases hx
  | @token previous t leading trailing ending c r rest kind n body gap found behind next ih =>
      intro x hx
      cases hx with
      | tail _ hx => exact ih x hx
      | head =>
          refine ⟨(Token.kind_of_measure found).1, ?_⟩
          rcases Nat.exists_eq_succ_of_ne_zero (Nat.ne_of_gt (Token.measure_pos found)) with ⟨m, rfl⟩
          exact List.cons_ne_nil _ _

theorem trailing_of_ordinary {previous : Option Token} {body : List Token}
    (h : Ordinary previous body) : ∀ x ∈ body, x.trailing.containsNewline = false := by
  induction body generalizing previous with
  | nil =>
      intro x hx
      cases hx
  | cons y body ih =>
      intro x hx
      cases hx with
      | head => exact h.1.2.1
      | tail _ hx => exact ih h.2 x hx

theorem canonical_of_lexes {previous : Option Token} {t : Text} {body : List Token}
    {ending : Trivia} (h : Lexes previous t body ending) :
    (∀ x ∈ body, x.leading.Canonical ∧ x.trailing.Canonical) ∧ ending.Canonical := by
  induction h with
  | @ending previous t leading gap =>
      have hleading := Trivia.canonical_scan false t
      rw [gap] at hleading
      refine ⟨?_, hleading⟩
      intro x hx
      cases hx
  | @token previous t leading trailing ending c r rest kind n body gap found behind next ih =>
      have hleading := Trivia.canonical_scan false t
      rw [gap] at hleading
      have htrailing := Trivia.canonical_scan true ((c :: r).drop n)
      rw [behind] at htrailing
      refine ⟨?_, ih.2⟩
      intro x hx
      cases hx with
      | head => exact ⟨hleading, htrailing⟩
      | tail _ hx => exact ih.1 x hx

/-- Behind a token, trivia in front of a token is empty or starts with a line break. -/
theorem leading_of_lexes {previous : Option Token} {t : Text} {body : List Token}
    {ending : Trivia} (h : Lexes previous t body ending)
    (ht : ∃ u, t = (Trivia.scan true u).2) :
    (∀ x ∈ body, ∀ p ∈ x.leading.head?, p.isNewline = true) ∧
      ∀ p ∈ ending.head?, p.isNewline = true := by
  induction h with
  | @ending previous t leading gap =>
      rcases ht with ⟨u, rfl⟩
      have hleading := Trivia.scan_behind_line u
      rw [gap] at hleading
      refine ⟨?_, hleading⟩
      intro x hx
      cases hx
  | @token previous t leading trailing ending c r rest kind n body gap found behind next ih =>
      rcases ht with ⟨u, rfl⟩
      have hleading := Trivia.scan_behind_line u
      rw [gap] at hleading
      have hnext := ih ⟨(c :: r).drop n, by rw [behind]⟩
      refine ⟨?_, hnext.2⟩
      intro x hx
      cases hx with
      | head => exact hleading
      | tail _ hx => exact hnext.1 x hx

/-- The tokens `ts` divide the text `source`. -/
structure Divide (source : Text) (ts : Tokens) : Prop where
  /-- nothing of the text is lost, and nothing is added -/
  code : ts.toList.flatMap Token.code = source
  /-- the last token is the end of the file, and it has only leading trivia -/
  ending : ts.toList = ts.body ++ [⟨.endOfFile, [], ts.ending, []⟩]
  /-- every other token has a text and is not the end of the file -/
  text : ∀ t ∈ ts.body, t.kind ≠ .endOfFile ∧ t.text ≠ []
  /-- no line break stands behind a token -/
  trailing : ∀ t ∈ ts.toList, t.trailing.containsNewline = false
  /-- what stands in front of any token but the first is empty or starts with a line break -/
  leading : ∀ t ∈ ts.toList.tail, ∀ p ∈ t.leading.head?, p.isNewline = true
  /-- neighbouring runs differ in kind, and no piece is cut short -/
  canonical : ∀ t ∈ ts.toList, t.leading.Canonical ∧ t.trailing.Canonical

theorem leading_of_mem_tail {source : Text} {ts : Tokens} (h : Lexes none source ts.body ts.ending) :
    ∀ t ∈ ts.toList.tail, ∀ p ∈ t.leading.head?, p.isNewline = true := by
  rcases ts with ⟨body, ending⟩
  cases h with
  | ending gap =>
      intro t ht
      cases ht
  | @token previous t leading trailing ending c r rest kind n body gap found behind next =>
      have hnext := leading_of_lexes next ⟨(c :: r).drop n, by rw [behind]⟩
      intro t ht
      rcases List.mem_append.mp ht with hbody | hlast
      · exact hnext.1 t hbody
      · rw [List.mem_singleton.mp hlast]
        exact hnext.2

theorem divide_of_ofText {source : Text} {ts : Tokens} (h : ofText source = .ok ts) :
    ts.Divide source := by
  have hlexes := (ofText_eq_ok_iff source ts).mp h
  have hcanonical := canonical_of_lexes hlexes
  refine ⟨code_of_ofText h, rfl, text_of_lexes hlexes, ?_, leading_of_mem_tail hlexes, ?_⟩
  · intro t ht
    rcases List.mem_append.mp ht with hbody | hlast
    · exact trailing_of_ordinary (ordinary_of_lexes hlexes) t hbody
    · rw [List.mem_singleton.mp hlast]
      rfl
  · intro t ht
    rcases List.mem_append.mp ht with hbody | hlast
    · exact hcanonical.1 t hbody
    · rw [List.mem_singleton.mp hlast]
      exact ⟨hcanonical.2, trivial⟩

/-- When a source cannot be divided into tokens, some tokens can be read off it, and behind them a
literal opens that cannot. -/
theorem reads_of_ofText_error {source : Text} {offset : Nat} (h : ofText source = .error offset) :
    ∃ body rest leading literal e,
      Reads none source body rest ∧ Trivia.scan false rest = (leading, literal) ∧
      Literal.opensAt literal = true ∧ Literal.length literal = .error e ∧
      source = (body.flatMap Token.code ++ leading.code) ++ literal ∧
      offset = (body.flatMap Token.code ++ leading.code).length + e := by
  unfold ofText at h
  split at h
  · cases h
  · next left hread =>
      cases h
      rcases reads_of_readFrom_error hread with
        ⟨body, rest, leading, literal, e, hreads, hgap, hopens, hlength, rfl⟩
      have hrest := Trivia.code_scan false rest
      rw [hgap] at hrest
      have hsource : source = (body.flatMap Token.code ++ leading.code) ++ literal := by
        rw [List.append_assoc, hrest]
        exact code_of_reads hreads
      refine ⟨body, rest, leading, literal, e, hreads, hgap, hopens, hlength, hsource, ?_⟩
      have hle := Literal.length_error_le hlength
      rw [hsource, List.length_append]
      omega

theorem ofText_error {source : Text} {offset : Nat} (h : ofText source = .error offset) :
    ∃ before behind e, source = before ++ behind ∧ Literal.opensAt behind = true ∧
      Literal.length behind = .error e ∧ offset = before.length + e := by
  rcases reads_of_ofText_error h with
    ⟨body, rest, leading, literal, e, _, _, hopens, hlength, hsource, hoffset⟩
  exact ⟨_, literal, e, hsource, hopens, hlength, hoffset⟩

/-- A source is divided into tokens, or it is rejected because of a string literal that is never
closed.  Trivia that has been found between tokens always reads as trivia again. -/
theorem ofText_divides (source : Text) :
    ((∃ ts, ofText source = .ok ts ∧ ts.Divide source) ∨
      ∃ before behind e, source = before ++ behind ∧ Literal.opensAt behind = true ∧
        Literal.length behind = .error e ∧ ofText source = .error (before.length + e) ∧
        ∃ fault, Tree.ofText source = .error fault ∧
          fault.reason.message = Text.ofString "Unterminated string literal" ∧
          fault.position = Position.start.advance (source.take (before.length + e))) ∧
      ∀ inLine t, ∃ stretch, t = stretch ++ (Trivia.scan inLine t).2 ∧
        Trivia.ofText? stretch = .ok (Trivia.scan inLine t).1 := by
  refine ⟨?_, Trivia.ofText?_scan⟩
  cases h : ofText source with
  | ok ts => exact Or.inl ⟨ts, rfl, divide_of_ofText h⟩
  | error offset =>
      rcases ofText_error h with ⟨before, behind, e, hsource, hopens, hlength, rfl⟩
      refine Or.inr ⟨before, behind, e, hsource, hopens, hlength, rfl,
        ⟨.unterminatedString, Position.start.advance (source.take (before.length + e))⟩, ?_, rfl, rfl⟩
      rw [Tree.ofText, Tree.ofTextFrom, h]
      rfl

end Tokens
end ForceTry

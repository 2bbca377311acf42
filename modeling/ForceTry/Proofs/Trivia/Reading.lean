import ForceTry.Proofs.Trivia.Holds

/-!
# Texts that are trivia

A text is trivia exactly when it is the text of canonical pieces, and then it reads as these pieces and
no others.  Of any other text the longest stretch of trivia at its start is known: reading names the place
behind whole pieces where no piece starts.
-/

namespace ForceTry

theorem Piece.next?_eq_none_iff_opening (t : Text) :
    next? t = none ↔ ∀ p : Piece, ¬ p.opening <+: t := by
  constructor
  · intro h p hp
    rcases p with ⟨kind, count⟩ | ⟨form, text⟩
    · rcases next?_of_unit hp with ⟨q, n, hnext⟩
      rw [h] at hnext
      cases hnext
    · rcases hp with ⟨u, rfl⟩
      cases form <;> cases h
  · intro h
    cases hnext : next? t with
    | none => rfl
    | some found => exact absurd (opening_of_next? hnext) (h found.1)

namespace Trivia

/-- The offset stands behind whole pieces of the text `t`, and no piece starts there. -/
structure Foreign.StopsIn (t : Text) (e : Foreign) : Prop where
  inside : e.offset < t.length
  pieces : ∃ p : Trivia, p.Canonical ∧ p.code = t.take e.offset
  found : e.found = t.drop e.offset
  foreign : ∀ p : Piece, ¬ p.opening <+: e.found

theorem ofText?_eq_ok_iff (t : Text) (p : Trivia) : ofText? t = .ok p ↔ p.Canonical ∧ p.code = t := by
  constructor
  · intro h
    have hcode := code_scan false t
    have hcanonical := canonical_scan false t
    unfold ofText? at h
    split at h
    · next pieces hscan =>
        cases h
        rw [hscan] at hcode hcanonical
        exact ⟨hcanonical, by rw [← hcode, List.append_nil]⟩
    · cases h
  · rintro ⟨hcanonical, rfl⟩
    exact ofText?_code hcanonical

theorem stopsIn_of_ofText? {t : Text} {e : Foreign} (h : ofText? t = .error e) : e.StopsIn t := by
  have hcode := code_scan false t
  have hcanonical := canonical_scan false t
  have hnext := next?_scan t
  unfold ofText? at h
  split at h
  · cases h
  next pieces rest hrest hscan =>
  rw [hscan] at hcode hcanonical hnext
  injection h with h
  subst h
  have hpos : 0 < rest.length := by
    rw [List.length_pos_iff]
    rintro rfl
    exact hrest rfl
  have hlength : t.length = pieces.code.length + rest.length := by
    rw [← hcode, List.length_append]
  have hoffset : t.length - rest.length = pieces.code.length := by omega
  constructor
  · show t.length - rest.length < t.length
    omega
  · refine ⟨pieces, hcanonical, ?_⟩
    show pieces.code = t.take (t.length - rest.length)
    rw [hoffset, ← hcode, List.take_left]
  · show rest = t.drop (t.length - rest.length)
    rw [hoffset, ← hcode, List.drop_left]
  · exact (Piece.next?_eq_none_iff_opening rest).mp hnext

/-- Every text reads as trivia or stops the reading behind whole pieces, at a place where none starts.  The
pieces that are read are the canonical ones with this text. -/
theorem canonical_reading (t : Text) :
    ((∃ p, ofText? t = .ok p) ∨ ∃ e, ofText? t = .error e ∧ e.StopsIn t) ∧
      ∀ p, ofText? t = .ok p ↔ p.Canonical ∧ p.code = t := by
  refine ⟨?_, ofText?_eq_ok_iff t⟩
  cases h : ofText? t with
  | ok p => exact .inl ⟨p, rfl⟩
  | error e => exact .inr ⟨e, rfl, stopsIn_of_ofText? h⟩

/-- A comment within a comment, an opening that is no end, and a lone carriage return. -/
example : ofText? (Text.ofString " \n\n/*/*/ a */*/\t//b") =
      .ok [.spaces 1, .newlines 2, .comment .block (Text.ofString "/*/*/ a */*/"), .tabs 1,
        .comment .line (Text.ofString "//b")] ∧
    ofText? (Text.ofString "\r\n\rx") = .error ⟨2, ['\r', 'x']⟩ := by
  decide +kernel

end Trivia
end ForceTry

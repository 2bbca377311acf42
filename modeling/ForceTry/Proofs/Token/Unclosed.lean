import ForceTry.Proofs.Text.Ahead
import ForceTry.Proofs.Token.Stream

/-!
# Literals that are never closed

When reading a literal fails, one literal is to blame: the innermost one that is open.  Taken on its
own, from its first character on, it is not closed either, and nothing inside it is to blame.  The
reader of tokens fails only at such a literal, behind tokens that it has read.
-/

namespace ForceTry
namespace Literal

/-!
# One layer at a time

A step looks at the innermost layer only, and the place where a literal starts has no influence on
how it is read.
-/

/-- The layer with the start of its literal counted from the character `s` on. -/
def Layer.since (s : Nat) : Layer → Layer
  | .quoted hashes multiline start => .quoted hashes multiline (start - s)
  | .interpolation depth => .interpolation depth

variable {l : Layer} {outer layers layers' : List Layer} {n s skip : Nat} {c : Char} {t : Text}

theorem step_since (s : Nat) (l : Layer) (n : Nat) (t : Text) :
    step [l.since s] (n - s) t =
      (step [l] n t).map fun r => (r.1.map (Layer.since s), r.2) := by
  cases l with
  | quoted hashes multiline start =>
      simp only [step, Layer.since]
      split
      · rfl
      split
      · rfl
      split
      · rfl
      split <;> rfl
  | interpolation depth =>
      simp only [step, Layer.since]
      split
      · rfl
      · rfl
      · cases depth <;> rfl
      · rfl

theorem eq_of_singleton_eq_append {x y : Layer} {front back : List Layer}
    (h : [x] = front ++ y :: back) : back = [] ∧ x = y := by
  rcases List.singleton_eq_append_iff.mp h with ⟨-, hback⟩ | ⟨-, hback⟩
  · cases hback
    exact ⟨rfl, rfl⟩
  · cases hback

theorem eq_of_pair_eq_append {x y z : Layer} {front back : List Layer}
    (h : [x, y] = front ++ z :: back) :
    (front = [] ∧ back = [y] ∧ x = z) ∨ (back = [] ∧ y = z) := by
  rcases List.cons_eq_append_iff.mp h with ⟨hfront, hback⟩ | ⟨front', -, hrest⟩
  · cases hback
    exact .inl ⟨hfront, rfl, rfl⟩
  · exact .inr (eq_of_singleton_eq_append hrest)

/-- A literal that is open behind a step was open before, or opens with the character that is
read. -/
theorem opened_of_step {top rest : List Layer} {hashes : Nat} {multiline : Bool}
    (h : step [l] n (c :: t) = some (top ++ .quoted hashes multiline s :: rest, skip)) :
    (rest = [] ∧ l = .quoted hashes multiline s) ∨
      (c = '"' ∧ top = [] ∧ rest = [l] ∧ hashes = 0 ∧ multiline = opensMultiline (c :: t) ∧
        s = n ∧ skip = (quotes multiline).length - 1) := by
  generalize hpushed : top ++ Layer.quoted hashes multiline s :: rest = pushed at h
  have hmoves := moves_of_step h
  cases hmoves with
  | closed hclosing => simp at hpushed
  | interpolated =>
      rcases eq_of_pair_eq_append hpushed.symm with ⟨_, _, hne⟩ | hsame
      · cases hne
      · exact .inl hsame
  | stayed => exact .inl (eq_of_singleton_eq_append hpushed.symm)
  | nested hquote =>
      rcases eq_of_pair_eq_append hpushed.symm with ⟨htop, hrest, hsame⟩ | ⟨_, hne⟩
      · injection hsame with hhashes hmultiline hs
        injection hquote with hc
        subst hhashes hmultiline hs
        exact .inr ⟨hc, htop, hrest, rfl, rfl, rfl, rfl⟩
      · cases hne
  | counted => exact Layer.noConfusion (eq_of_singleton_eq_append hpushed.symm).2
  | left => simp at hpushed

/-- A literal that is open behind a step was open before, and the step of the layers down to it is the
same on its own, or it opens with the character that is read. -/
theorem step_literal {top : List Layer} {hashes : Nat} {multiline : Bool}
    (h : step layers n (c :: t) = some (top ++ .quoted hashes multiline s :: outer, skip)) :
    (∃ top', layers = top' ++ .quoted hashes multiline s :: outer ∧
      step ((top' ++ [Layer.quoted hashes multiline s]).map (Layer.since s)) (n - s) (c :: t) =
        some ((top ++ [Layer.quoted hashes multiline s]).map (Layer.since s), skip)) ∨
      (c = '"' ∧ top = [] ∧ hashes = 0 ∧ multiline = opensMultiline (c :: t) ∧ s = n ∧
        skip = (quotes multiline).length - 1) := by
  cases layers with
  | nil => cases h
  | cons l below =>
      rw [step_cons, Option.map_eq_some_iff] at h
      rcases h with ⟨⟨pushed, skip'⟩, hstep, heq⟩
      injection heq with happend hskip
      change pushed ++ below = _ at happend
      change skip' = skip at hskip
      subst hskip
      have hsince : ∀ rest : List Layer,
          step ((l :: rest).map (Layer.since s)) (n - s) (c :: t) =
            some ((pushed ++ rest).map (Layer.since s), skip') := by
        intro rest
        rw [List.map_cons, step_cons, step_since, hstep, List.map_append]
        rfl
      have hbelow : ∀ rest, top = pushed ++ rest →
          below = rest ++ .quoted hashes multiline s :: outer →
          ∃ top', l :: below = top' ++ .quoted hashes multiline s :: outer ∧
            step ((top' ++ [Layer.quoted hashes multiline s]).map (Layer.since s)) (n - s) (c :: t) =
              some ((top ++ [Layer.quoted hashes multiline s]).map (Layer.since s), skip') := by
        intro rest htop hrest
        refine ⟨l :: rest, by rw [hrest, List.cons_append], ?_⟩
        rw [List.cons_append, hsince, htop, List.append_assoc]
      rcases List.append_eq_append_iff.mp happend with ⟨rest, htop, hrest⟩ | ⟨rest, hpushed, hrest⟩
      · exact Or.inl (hbelow rest htop hrest)
      · cases rest with
        | nil =>
            left
            refine hbelow [] ?_ ?_
            · rw [hpushed, List.append_nil, List.append_nil]
            · exact hrest.symm
        | cons x rest =>
            injection hrest with hx houter
            subst hx
            rw [hpushed] at hstep
            rcases opened_of_step hstep with ⟨hnil, hl⟩ | ⟨hc, htop, _, hnew⟩
            · left
              subst hnil
              refine ⟨[], by rw [hl, houter]; rfl, ?_⟩
              have hone := hsince []
              rw [List.append_nil, hpushed, hl] at hone
              exact hone
            · exact Or.inr ⟨hc, htop, hnew⟩

theorem skip_le_of_closed (h : step layers n (c :: t) = some (layers', skip)) (hnil : layers' = []) :
    skip ≤ t.length := by
  rcases step_cases h with ⟨l, outer, pushed, rfl, rfl, _, hmoves⟩
  cases hmoves with
  | closed hclosing =>
      have hle := Text.length_le_of_startsWith hclosing
      rw [List.length_cons] at hle
      omega
  | left => exact Nat.zero_le _
  | _ => simp at hnil

/-!
# The literal to blame
-/

def Grounded (layers : List Layer) : Prop :=
  ∀ depth, layers.getLast? ≠ some (.interpolation depth)

theorem grounded_of_cons (h : Grounded (l :: outer)) : Grounded outer := by
  intro depth hlast
  apply h depth
  rw [List.getLast?_cons, hlast]
  rfl

theorem grounded_step (hs : step layers n t = some (layers', skip)) (h : Grounded layers) :
    Grounded layers' := by
  rcases step_cases hs with ⟨l, outer, pushed, rfl, rfl, _, hmoves⟩
  have houter := grounded_of_cons h
  have hpush : ∀ x, Grounded (x :: l :: outer) := by
    intro x depth hlast
    rw [List.getLast?_cons_cons] at hlast
    exact h depth hlast
  cases hmoves with
  | closed hclosing => exact houter
  | interpolated => exact hpush _
  | stayed => exact h
  | nested hquote => exact hpush _
  | @counted depth depth' =>
      intro deep hlast
      cases outer with
      | nil => exact h depth rfl
      | cons x outer =>
          apply houter deep
          rwa [List.singleton_append, List.getLast?_cons_cons] at hlast
  | left => exact houter

theorem innermost_split (hne : layers ≠ []) (hgrounded : Grounded layers) :
    ∃ top hashes multiline outer,
      layers = top ++ .quoted hashes multiline (innermost layers) :: outer ∧
        ∀ rest, innermost (top ++ rest) = innermost rest := by
  induction layers with
  | nil => exact absurd rfl hne
  | cons l layers ih =>
      cases l with
      | quoted hashes multiline start =>
          exact ⟨[], hashes, multiline, layers, rfl, fun _ => rfl⟩
      | interpolation depth =>
          have hlayers : layers ≠ [] := by
            intro hnil
            subst hnil
            exact hgrounded depth rfl
          rcases ih hlayers (grounded_of_cons hgrounded) with
            ⟨top, hashes, multiline, outer, hsplit, htop⟩
          refine ⟨.interpolation depth :: top, hashes, multiline, outer, ?_, htop⟩
          show Layer.interpolation depth :: layers = _
          rw [List.cons_append]
          exact congrArg _ hsplit

theorem innermost_since (top : List Layer) (s hashes : Nat) (multiline : Bool)
    (h : ∀ rest, innermost (top ++ rest) = innermost rest) :
    innermost ((top ++ [Layer.quoted hashes multiline s]).map (Layer.since s)) = 0 := by
  induction top with
  | nil => exact Nat.sub_self s
  | cons l top ih =>
      cases l with
      | quoted hashes' multiline' start =>
          have h₁ := h [.quoted 0 false (start + 1)]
          exact absurd h₁ (Nat.ne_of_lt (Nat.lt_succ_self start))
      | interpolation depth => exact ih h

theorem length_quote (t : Text) :
    length ('"' :: t) = lengthFrom [.quoted 0 (opensMultiline ('"' :: t)) 0]
      ((quotes (opensMultiline ('"' :: t))).length - 1) 1 t := by
  have hhashes : Text.runLength (· == '#') ('"' :: t) = 0 := rfl
  unfold length
  simp only [hhashes, List.drop_zero]
  cases opensMultiline ('"' :: t) <;> rfl

/-- When reading fails, the literal to blame is one that is open, and reading it on its own fails in
the same way, or one that opens later, and reading it on its own fails. -/
theorem lengthFrom_error {layers : List Layer} {skip n e : Nat} {t : Text}
    (h : lengthFrom layers skip n t = .error e) (hgrounded : Grounded layers)
    (hbefore : StartBefore n layers) (hskip : layers = [] → skip ≤ t.length) :
    (∃ top hashes multiline outer, layers = top ++ .quoted hashes multiline e :: outer ∧
      lengthFrom ((top ++ [Layer.quoted hashes multiline e]).map (Layer.since e)) skip (n - e) t =
        .error 0) ∨
    ∃ k, e = n + k ∧ opensAt (t.drop k) = true ∧ length (t.drop k) = .error 0 := by
  fun_induction lengthFrom layers skip n t with
  | case1 => cases h
  | case2 layers skip n hopen =>
      cases h
      left
      have hne : layers ≠ [] := by
        rintro rfl
        have hzero : skip = 0 := Nat.le_zero.mp (hskip rfl)
        exact hopen (by rw [hzero]; rfl)
      rcases innermost_split hne hgrounded with ⟨top, hashes, multiline, outer, hsplit, htop⟩
      refine ⟨top, hashes, multiline, outer, hsplit, ?_⟩
      rw [lengthFrom, if_neg (by simp), innermost_since top _ _ _ htop]
  | case3 layers n c t skip ih =>
      rcases ih h hgrounded (hbefore.mono (Nat.le_succ n))
        (fun hnil => Nat.le_of_succ_le_succ (hskip hnil)) with
        ⟨top, hashes, multiline, outer, hsplit, hread⟩ | ⟨k, he, hopens, hlength⟩
      · left
        have hle : e ≤ n := hbefore hashes multiline e (by rw [hsplit]; simp)
        refine ⟨top, hashes, multiline, outer, hsplit, ?_⟩
        rw [lengthFrom, ← Nat.sub_add_comm hle]
        exact hread
      · right
        exact ⟨k + 1, by omega, hopens, hlength⟩
  | case4 => cases h
  | case5 layers n c t hopen hstep =>
      cases h
      left
      have hne : layers ≠ [] := by simpa using hopen
      rcases innermost_split hne hgrounded with ⟨top, hashes, multiline, outer, hsplit, htop⟩
      refine ⟨top, hashes, multiline, outer, hsplit, ?_⟩
      have hstop : step ((top ++ [Layer.quoted hashes multiline (innermost layers)]).map
          (Layer.since (innermost layers))) (n - innermost layers) (c :: t) = none := by
        rw [hsplit] at hstep
        cases top with
        | nil =>
            rw [List.nil_append, step_cons, Option.map_eq_none_iff] at hstep
            rw [List.nil_append, List.map_singleton, step_since, hstep]
            rfl
        | cons l top =>
            rw [List.cons_append, step_cons, Option.map_eq_none_iff] at hstep
            rw [List.cons_append, List.map_cons, step_cons, step_since, hstep]
            rfl
      rw [lengthFrom, if_neg (by simp), hstop, innermost_since top _ _ _ htop]
  | case6 layers n c t hopen layers' skip' hstep ih =>
      have hlayers' := startBefore_of_step hstep hbefore
      rcases ih h (grounded_step hstep hgrounded) (hlayers'.mono (Nat.le_succ n))
        (skip_le_of_closed hstep) with
        ⟨top, hashes, multiline, outer, rfl, hread⟩ | ⟨k, he, hopens, hlength⟩
      · have hle : e ≤ n := hlayers' hashes multiline e (by simp)
        rw [Nat.sub_add_comm hle] at hread
        rcases step_literal hstep with ⟨top', hlayers, hstep'⟩ |
          ⟨hc, htop, hhashes, hmultiline, he, hskip'⟩
        · left
          refine ⟨top', hashes, multiline, outer, hlayers, ?_⟩
          rw [lengthFrom, if_neg (by simp), hstep']
          exact hread
        · right
          subst he
          refine ⟨0, rfl, ?_, ?_⟩
          · rw [hc]
            rfl
          · subst htop hhashes hmultiline hskip' hc
            rw [Nat.sub_self, List.nil_append, List.map_singleton, Layer.since, Nat.sub_self] at hread
            exact (length_quote t).trans hread
      · right
        exact ⟨k + 1, by omega, hopens, hlength⟩

/-- A literal that cannot be read holds a literal, or is one, that is to blame for it. -/
theorem length_drop_of_error {t : Text} {e : Nat} (hopens : opensAt t = true)
    (h : length t = .error e) :
    opensAt (t.drop e) = true ∧ length (t.drop e) = .error 0 := by
  have hread := h
  unfold length at hread
  rcases lengthFrom_error hread (fun depth hlast => by cases hlast)
    (fun hashes multiline start hmem => by
      rw [List.mem_singleton] at hmem
      injection hmem with _ _ hstart
      rw [hstart])
    (fun hnil => by cases hnil) with
    ⟨top, hashes, multiline, outer, hsplit, _⟩ | ⟨k, he, hdrop⟩
  · cases top with
    | nil =>
        injection hsplit with hlayer _
        injection hlayer with _ _ hstart
        subst hstart
        exact ⟨hopens, h⟩
    | cons l top =>
        injection hsplit with _ htail
        exact absurd htail (by simp)
  · rw [Nat.zero_add] at he
    subst he
    exact hdrop

end Literal

namespace Tokens

/-- Some tokens of a source can be read, and behind them and some trivia a literal opens that cannot:
`offset` is where the literal starts that is to blame. -/
def UnclosedAt (source : Text) (offset : Nat) : Prop :=
  ∃ body rest leading literal e,
    Reads none source body rest ∧ Trivia.scan false rest = (leading, literal) ∧
    Literal.opensAt literal = true ∧ Literal.length literal = .error e ∧
    offset = (body.flatMap Token.code ++ leading.code).length + e ∧
    Literal.opensAt (source.drop offset) = true ∧ Literal.length (source.drop offset) = .error 0

theorem unclosedAt_of_ofText_error {source : Text} {offset : Nat} (h : ofText source = .error offset) :
    offset ≤ source.length ∧ UnclosedAt source offset := by
  rcases reads_of_ofText_error h with
    ⟨body, rest, leading, literal, e, hreads, hgap, hopens, hlength, hsource, rfl⟩
  have hle := Literal.length_error_le hlength
  have hdrop : source.drop ((body.flatMap Token.code ++ leading.code).length + e) =
      literal.drop e := by
    rw [hsource, List.drop_append, List.drop_of_length_le (Nat.le_add_right _ _),
      List.nil_append, Nat.add_sub_cancel_left]
  have hwithin : (body.flatMap Token.code ++ leading.code).length + e ≤ source.length := by
    have hlength := congrArg List.length hsource
    rw [List.length_append] at hlength
    omega
  refine ⟨hwithin, body, rest, leading, literal, e, hreads, hgap, hopens, hlength, rfl, ?_⟩
  rw [hdrop]
  exact Literal.length_drop_of_error hopens hlength

end Tokens
end ForceTry

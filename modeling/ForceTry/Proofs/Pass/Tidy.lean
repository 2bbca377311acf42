import ForceTry.Proofs.Pass.Aligned
import ForceTry.Proofs.Token.Tidy

/-!
# A pass over tidy tokens

Where every mark stands directly behind its `try`, tidy tokens come out of a pass tidy.  The blanks behind a
statement move behind the last brace around it, so what meets the tokens of the statement meets those that
come out for them, too.
-/

namespace ForceTry

open ForceTry.Tree ForceTry.DoCatch ForceTry.Grammar ForceTry.Tokens ForceTry.Text

namespace Trivia

theorem firm_nil : Firm [] := fun _ hp => by cases hp

theorem stays_nil : Stays [] := fun _ hp => by cases hp

theorem tidy_space : Tidy [.spaces 1] :=
  tidy_of_indents fun _ hp => ⟨.spaces, 1, List.mem_singleton.mp hp, rfl, Int.one_pos⟩

theorem firm_withoutTrailingBlanks (t : Trivia) : t.withoutTrailingBlanks.Firm := by
  intro p hp
  rw [withoutTrailingBlanks, List.getLast?_reverse] at hp
  have hhead := List.head?_dropWhile_not Piece.isBlank t.reverse
  rw [hp] at hhead
  exact hhead

theorem trailingBlanks_of_firm {t : Trivia} (h : t.Firm) : t.trailingBlanks = [] := by
  rcases List.eq_nil_or_concat t with rfl | ⟨front, p, rfl⟩
  · rfl
  · have hp := h p (by rw [List.concat_eq_append, List.getLast?_concat]; rfl)
    simp [trailingBlanks, hp]

end Trivia

/-- The trivia behind a tidy token, divided into the blanks at its end and what is in front of them. -/
structure Token.TidyBehind (t : Token) : Prop where
  front : t.trailing.withoutTrailingBlanks.Tidy
  frontInLine : t.trailing.withoutTrailingBlanks.containsNewline = false
  blanks : t.trailing.trailingBlanks.Tidy
  blanksInLine : t.trailing.trailingBlanks.containsNewline = false

theorem Token.Tidy.behind {t : Token} (h : t.Tidy) : t.TidyBehind := by
  have htrailing := h.trailing
  have hinLine := h.inLine
  rw [← Trivia.withoutTrailingBlanks_append_trailingBlanks t.trailing] at htrailing hinLine
  rw [Trivia.containsNewline_append, Bool.or_eq_false_iff] at hinLine
  rcases Trivia.tidy_append.mp htrailing with ⟨hfront, hblanks, -⟩
  exact ⟨hfront, hinLine.1, hblanks, hinLine.2⟩

namespace DoCatch

variable {o : Layout} {ts : List Token}

/-!
# The statement in the body
-/

theorem tidy_trimLast (h : Tokens.Tidy ts) :
    Tokens.Tidy (trimLast ts) ∧ ∀ t ∈ (trimLast ts).getLast?, t.trailing.Firm := by
  rcases List.eq_nil_or_concat ts with rfl | ⟨front, last, rfl⟩
  · exact ⟨tidy_nil, fun t ht => by cases ht⟩
  rw [List.concat_eq_append] at h ⊢
  rw [trimLast_append]
  rcases tidy_append.mp h with ⟨hfront, hlast, hjoin⟩
  have htoken := hlast.tokens last (List.mem_singleton_self _)
  constructor
  · refine tidy_append.mpr ⟨hfront, tidy_singleton ?_, ?_⟩
    · exact ⟨htoken.text, htoken.leading, htoken.behind.front, htoken.behind.frontInLine⟩
    · intro t ht u hu
      cases hu
      exact hjoin t ht last rfl
  · intro t ht
    rw [List.getLast?_concat] at ht
    cases ht
    exact Trivia.firm_withoutTrailingBlanks last.trailing

/-- Both parts of divided trivia are tidy, and neither begins with a line break that was not first before. -/
theorem tidy_split (ho : o.Written) {t : Token} (h : t.leading.Tidy) :
    (o.split t).1.Tidy ∧ (t.leading.Stays → (o.split t).1.Stays) ∧
      (o.split t).2.Tidy ∧ (o.split t).2.Stays := by
  have hbase := Trivia.tidy_of_indents ho.base
  have hstaysBase := Trivia.stays_of_indents ho.base
  rw [Layout.split, splitLeading]
  split
  · have hparts := h
    rw [← Trivia.throughLastNewline_append_afterLastNewline t.leading] at hparts
    rcases Trivia.tidy_append.mp hparts with ⟨hfront, hback, -⟩
    have hstaysBack := Trivia.stays_of_containsNewline (Trivia.containsNewline_afterLastNewline t.leading)
    refine ⟨hfront.append hbase hstaysBase, ?_, ?_⟩
    · intro hstays p hp
      cases hthrough : t.leading.throughLastNewline with
      | nil =>
          rw [hthrough] at hp
          exact hstaysBase p hp
      | cons q front =>
          apply hstays p
          rw [← Trivia.throughLastNewline_append_afterLastNewline t.leading]
          rw [hthrough] at hp ⊢
          exact hp
    · have hline : Trivia.Tidy (.spaces 1 :: t.leading.afterLastNewline) :=
        Trivia.tidy_space.append hback hstaysBack
      exact hline.strip rfl ho.base
  · exact ⟨h, id, Trivia.tidy_nil, Trivia.stays_nil⟩

theorem tidy_shift (ho : o.Written) {t : Token} (h : t.Tidy) : (t.shift o.base o.deeper).Tidy := by
  constructor
  · exact h.text
  · exact h.leading.shift ho.base (indents_deeper ho)
  · exact h.trailing.shift ho.base (indents_deeper ho)
  · show (t.trailing.shift o.base o.deeper).containsNewline = false
    rw [Trivia.shift_of_containsNewline h.inLine]
    exact h.inLine

theorem trailing_shift {t : Token} (h : t.Tidy) (base indentation : Trivia) :
    (t.shift base indentation).trailing = t.trailing :=
  Trivia.shift_of_containsNewline h.inLine base indentation

theorem tidy_map_shift (ho : o.Written) (h : Tokens.Tidy ts) :
    Tokens.Tidy (ts.map (Token.shift o.base o.deeper)) := by
  induction ts with
  | nil => exact h
  | cons t ts ih =>
      rcases tidy_cons.mp h with ⟨ht, hhead, hts⟩
      refine tidy_cons.mpr ⟨tidy_shift ho ht, ?_, ih hts⟩
      intro u hu
      rw [List.head?_map] at hu
      rcases Option.map_eq_some_iff.mp hu with ⟨x, hx, rfl⟩
      refine (hhead x hx).imp ?_ ?_
      · rw [trailing_shift ht]
        exact id
      · intro hstays p hp
        apply hstays p
        rw [← Trivia.head?_shift x.leading o.base o.deeper]
        exact hp

theorem tidy_newLine (ho : o.Written) {indentation : Trivia} (h : indentation.Indents) :
    (o.newline ++ indentation).Tidy := by
  rcases ho.newline with ⟨kind, _, hnewline⟩
  rw [hnewline]
  apply Trivia.Tidy.append _ (Trivia.tidy_of_indents h) (Trivia.stays_of_indents h)
  exact Trivia.tidy_singleton Int.one_pos

/-- Inside the braces tokens stay tidy, and no blank stands in front of the closing brace. -/
theorem tidy_dress (ho : o.Written) (h : Tokens.Tidy ts) :
    Tokens.Tidy (o.dress ts) ∧ ∀ t ∈ (o.dress ts).getLast?, t.trailing.Firm := by
  rcases tidy_trimLast h with ⟨htrim, hlast⟩
  unfold Layout.dress
  cases hts : trimLast ts with
  | nil => exact ⟨tidy_nil, fun t ht => by cases ht⟩
  | cons first rest =>
      rw [hts] at htrim hlast
      rcases tidy_cons.mp htrim with ⟨hfirst, hhead, hrest⟩
      rcases tidy_split ho hfirst.leading with ⟨-, -, hsplit, hstays⟩
      have hmoved : Token.Tidy { first with leading := (o.split first).2 } :=
        ⟨hfirst.text, hsplit, hfirst.trailing, hfirst.inLine⟩
      have hshift := tidy_map_shift ho (tidy_cons.mpr ⟨hmoved, hhead, hrest⟩)
      rcases tidy_cons.mp hshift with ⟨htoken, hjoin, hbehind⟩
      constructor
      · refine tidy_cons.mpr ⟨⟨htoken.text, ?_, htoken.trailing, htoken.inLine⟩, hjoin, hbehind⟩
        show Trivia.Tidy (o.newline ++ (o.deeper ++ (o.split first).2.shift o.base o.deeper))
        rw [← List.append_assoc]
        apply (tidy_newLine ho (indents_deeper ho)).append htoken.leading
        intro p hp
        apply hstays p
        rw [← Trivia.head?_shift (o.split first).2 o.base o.deeper]
        exact hp
      · have htrailings : (o.dressFirst first :: rest.map (Token.shift o.base o.deeper)).map
            Token.trailing = (first :: rest).map Token.trailing := by
          have hhere : (o.dressFirst first).trailing = first.trailing := trailing_shift hmoved _ _
          rw [List.map_cons, List.map_cons, hhere, List.map_map]
          congr 1
          exact List.map_congr_left fun t ht => trailing_shift (hrest.tokens t ht) _ _
        intro t ht
        have hmem := congrArg List.getLast? htrailings
        rw [List.getLast?_map, List.getLast?_map, ht] at hmem
        rcases Option.map_eq_some_iff.mp hmem.symm with ⟨u, hu, heq⟩
        rw [← heq]
        exact hlast u hu

/-!
# The tokens around it
-/

theorem tidy_blanksBehind (h : Tokens.Tidy ts) :
    (blanksBehind ts).Tidy ∧ (blanksBehind ts).containsNewline = false := by
  rcases List.eq_nil_or_concat ts with rfl | ⟨front, last, rfl⟩
  · exact ⟨Trivia.tidy_nil, rfl⟩
  rw [List.concat_eq_append] at h ⊢
  rw [blanksBehind_append]
  have htoken := h.tokens last (by simp)
  exact ⟨htoken.behind.blanks, htoken.behind.blanksInLine⟩

theorem firm_blanksBehind (h : ∀ t ∈ ts.getLast?, t.trailing.Firm) : (blanksBehind ts).Firm := by
  rcases List.eq_nil_or_concat ts with rfl | ⟨front, last, rfl⟩
  · exact Trivia.firm_nil
  rw [List.concat_eq_append] at h ⊢
  have hlast := h last (by rw [List.getLast?_concat]; rfl)
  rw [blanksBehind_append, Trivia.trailingBlanks_of_firm hlast]
  exact Trivia.firm_nil

theorem tidy_doLeading (ho : o.Written) (h : Tokens.Tidy ts) :
    (o.doLeading ts).Tidy ∧
      ((∀ t ∈ ts.head?, t.leading.Stays) → (o.doLeading ts).Stays) := by
  cases ts with
  | nil => exact ⟨Trivia.tidy_nil, fun _ => Trivia.stays_nil⟩
  | cons t ts =>
      rcases tidy_split ho (tidy_cons.mp h).1.leading with ⟨htidy, hstays, -⟩
      rw [doLeading_cons]
      exact ⟨htidy, fun hall => hstays (hall t rfl)⟩

theorem tidy_opening (ho : o.Written) (h : Tokens.Tidy ts) : Tokens.Tidy (o.opening ts) := by
  refine tidy_cons.mpr ⟨⟨?_, (tidy_doLeading ho h).1, Trivia.tidy_space, rfl⟩, ?_,
    tidy_singleton ⟨?_, Trivia.tidy_nil, Trivia.tidy_nil, rfl⟩⟩
  · show Solid "do".toList
    decide
  · intro u hu
    cases hu
    exact .inr Trivia.stays_nil
  · show Solid ['\x7b']
    decide

theorem tidy_closing (ho : o.Written) (hplaceholder : Solid o.placeholder) {blanks : Trivia}
    (hblanks : blanks.Tidy) (hinLine : blanks.containsNewline = false) :
    Tokens.Tidy (o.closing blanks) := by
  have hbase := tidy_newLine ho ho.base
  have hdeeper := tidy_newLine ho (indents_deeper ho)
  have hbrace : Solid ['\x7d'] := by decide
  refine tidy_cons.mpr ⟨⟨hbrace, hbase, Trivia.tidy_space, rfl⟩, ?_,
    tidy_cons.mpr ⟨⟨?_, Trivia.tidy_nil, Trivia.tidy_space, rfl⟩, ?_,
    tidy_cons.mpr ⟨⟨?_, Trivia.tidy_nil, Trivia.tidy_nil, rfl⟩, ?_,
    tidy_cons.mpr ⟨⟨hplaceholder, hdeeper, Trivia.tidy_nil, rfl⟩, ?_,
    tidy_singleton ⟨hbrace, hbase, hblanks, hinLine⟩⟩⟩⟩⟩
  · intro u hu
    cases hu
    exact .inr Trivia.stays_nil
  · show Solid "catch".toList
    decide
  · intro u hu
    cases hu
    exact .inr Trivia.stays_nil
  · show Solid ['\x7b']
    decide
  · exact fun _ _ => .inl Trivia.firm_nil
  · exact fun _ _ => .inl Trivia.firm_nil

end DoCatch

namespace Tokens

/-- Tidy tokens that come out for others, and that meet well what those meet well. -/
structure Tidied (ts us : List Token) : Prop where
  tidy : Tidy us
  empty : us = [] → ts = []
  first : (∀ t ∈ ts.head?, t.leading.Stays) → ∀ u ∈ us.head?, u.leading.Stays
  last : (∀ t ∈ ts.getLast?, t.trailing.Firm) → ∀ u ∈ us.getLast?, u.trailing.Firm

theorem Tidied.refl {ts : List Token} (h : Tidy ts) : Tidied ts ts := ⟨h, id, id, id⟩

theorem Tidied.append {ts ts' us us' : List Token} (h : Tidied ts us) (h' : Tidied ts' us')
    (hmeets : ∀ t ∈ ts.getLast?, ∀ t' ∈ ts'.head?, Meets t t') : Tidied (ts ++ ts') (us ++ us') := by
  constructor
  · refine tidy_append.mpr ⟨h.tidy, h'.tidy, ?_⟩
    intro u hu u' hu'
    -- If the old tokens in front end in blanks, the old ones behind begin with no line break, and
    -- so do the new ones.
    by_cases hfirm : ∀ t ∈ ts.getLast?, t.trailing.Firm
    · exact .inl (h.last hfirm u hu)
    · right
      push Not at hfirm
      rcases hfirm with ⟨t, ht, hblank⟩
      exact h'.first (fun t' ht' => (hmeets t ht t' ht').resolve_left hblank) u' hu'
  · intro hnil
    rcases List.append_eq_nil_iff.mp hnil with ⟨hus, hus'⟩
    rw [h.empty hus, h'.empty hus']
    rfl
  · intro hstays
    cases us with
    | nil =>
        rw [h.empty rfl] at hstays
        exact h'.first hstays
    | cons u us =>
        apply h.first
        intro t ht
        apply hstays
        rw [List.head?_append, ht]
        rfl
  · intro hfirm
    cases us' with
    | nil =>
        rw [h'.empty rfl, List.append_nil] at hfirm
        rw [List.append_nil]
        exact h.last hfirm
    | cons u us' =>
        rw [List.getLast?_append_of_ne_nil us (List.cons_ne_nil u us')]
        apply h'.last
        intro t ht
        apply hfirm
        rw [List.getLast?_append, ht]
        rfl

theorem tidied_wrappedTokens {o : Layout} (ho : o.Written) (hplaceholder : Solid o.placeholder)
    {ts us : List Token} (h : Tidied ts us) : Tidied ts (o.wrappedTokens us) := by
  rcases tidy_dress ho h.tidy with ⟨hdress, hfirm⟩
  rcases tidy_blanksBehind h.tidy with ⟨hblanks, hinLine⟩
  have hclosing := tidy_closing ho hplaceholder hblanks hinLine
  constructor
  · refine tidy_append.mpr ⟨tidy_opening ho h.tidy, tidy_append.mpr ⟨hdress, hclosing, ?_⟩, ?_⟩
    · exact fun t ht u _ => .inl (hfirm t ht)
    · intro t ht u _
      cases ht
      exact .inl Trivia.firm_nil
  · exact fun hnil => by cases hnil
  · intro hstays u hu
    cases hu
    exact (tidy_doLeading ho h.tidy).2 (h.first hstays)
  · intro hlast u hu
    have hend : (o.wrappedTokens us).getLast? =
        some (Token.rightBrace (o.newline ++ o.base) (blanksBehind us)) := by
      simp [Layout.wrappedTokens, Layout.closing, List.getLast?_append]
    rw [hend] at hu
    cases hu
    exact firm_blanksBehind (h.last hlast)

end Tokens

namespace Pass

variable {pass : Pass}

/-- Behind a `try` that loses its mark stands what stood behind the mark, or a space in front of an operand
that follows directly. -/
theorem trailingOfTry_of_bare {keyword mark : Token} (hkeyword : keyword.trailing = [])
    (hmark : mark.leading = []) (operand : Tree) :
    trailingOfTry keyword mark operand = mark.trailing ∨
      trailingOfTry keyword mark operand = [.spaces 1] ∧
        ∃ u, operand.tokens.head? = some u ∧ u.leading = [] := by
  rw [trailingOfTry, hkeyword, hmark, any_firstLeaf?, List.nil_append, List.nil_append]
  split
  · next hspace =>
      rw [Bool.and_eq_true, Option.any_eq_true] at hspace
      rcases hspace.2 with ⟨u, hu, hleading⟩
      exact .inr ⟨rfl, u, hu, List.isEmpty_iff.mp hleading⟩
  · exact .inl rfl

theorem tidied_unmarked {keyword mark : Token} {operand : Tree} (hkeyword : keyword.trailing = [])
    (hmark : mark.leading = []) (h : Tokens.Tidy (keyword :: mark :: operand.tokens))
    (hoperand : Tidied operand.tokens (pass.rewritten operand).tokens) :
    Tidied (keyword :: mark :: operand.tokens) (pass.unmarked keyword mark operand) := by
  rcases tidy_cons.mp h with ⟨htoken, -, hbehind⟩
  rcases tidy_cons.mp hbehind with ⟨hmarkToken, hmeets, -⟩
  have hcases := trailingOfTry_of_bare hkeyword hmark (pass.rewritten operand)
  have htrailing : (trailingOfTry keyword mark (pass.rewritten operand)).Tidy ∧
      (trailingOfTry keyword mark (pass.rewritten operand)).containsNewline = false := by
    rcases hcases with heq | ⟨heq, -⟩
    · rw [heq]
      exact ⟨hmarkToken.trailing, hmarkToken.inLine⟩
    · rw [heq]
      exact ⟨Trivia.tidy_space, rfl⟩
  constructor
  · refine tidy_cons.mpr ⟨⟨htoken.text, htoken.leading, htrailing.1, htrailing.2⟩, ?_, hoperand.tidy⟩
    intro u hu
    rcases hcases with heq | ⟨-, x, hx, hleading⟩
    · by_cases hfirm : mark.trailing.Firm
      · exact .inl (heq.symm ▸ hfirm)
      · exact .inr (hoperand.first (fun t ht => (hmeets t ht).resolve_left hfirm) u hu)
    · right
      rw [hu] at hx
      cases hx
      rw [hleading]
      exact Trivia.stays_nil
  · exact fun hnil => by cases hnil
  · exact fun hstays u hu => by
      cases hu
      exact hstays keyword rfl
  · intro hlast u hu
    rw [unmarked] at hu
    cases hnew : (pass.rewritten operand).tokens with
    | nil =>
        rw [hnew] at hu
        cases hu
        rw [hoperand.empty hnew] at hlast
        rcases hcases with heq | ⟨-, x, hx, -⟩
        · exact heq.symm ▸ hlast mark rfl
        · rw [hnew] at hx
          cases hx
    | cons x xs =>
        rw [hnew, List.getLast?_cons_cons] at hu
        apply hoperand.last _ u (hnew ▸ hu)
        intro t ht
        apply hlast
        rw [List.getLast?_cons, List.getLast?_cons, ht]
        rfl

theorem tidied_rewritten {file : Tree} (hfile : FormsFile file) (hmarks : file.BareMarks)
    (hlayout : ∀ t, (pass.layout t).Written) (hplaceholder : Solid pass.style.placeholder) :
    ∃ ts us ending, file.tokens = ts ++ [ending] ∧ (pass.rewritten file).tokens = us ++ [ending] ∧
      (Tokens.Tidy ts → Tidied ts us) := by
  have hcarries : pass.Carries file fun _ _ ts us => Tokens.Tidy ts → Tidied ts us := by
    constructor
    · exact Tidied.refl
    · exact fun t => Tidied.refl
    · intro _ _ _ _ ts ts' us us' hts hts' h
      rcases tidy_append.mp h with ⟨hleft, hright, hmeets⟩
      exact (hts hleft).append (hts' hright) hmeets
    · intro k n keyword mark operand hmem _ hmark hoperand h
      rcases bare_of_bareMarks hmarks hmem hmark with ⟨hkeywordBare, hmarkBare⟩
      have hrest := (tidy_cons.mp (tidy_cons.mp h).2.2).2.2
      exact tidied_unmarked hkeywordBare hmarkBare h (hoperand hrest)
    · exact fun t hts h => tidied_wrappedTokens (hlayout t) hplaceholder (hts h)
  rcases hcarries.of_formsFile hfile with ⟨ts, us, ending, hold, hnew, -, hcarried⟩
  exact ⟨ts, us, ending, hold, hnew, hcarried⟩

end Pass
end ForceTry

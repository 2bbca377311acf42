import ForceTry.Proofs.Pass.Carried

/-!
# What the tokens behind a pass are made of

The trivia behind a pass is made of blanks, of the pieces in front of it and of the line break of the
file; the texts of the tokens are old ones and those of `do` and `catch`.
-/

namespace ForceTry

open ForceTry.Tree ForceTry.DoCatch ForceTry.Grammar

variable {T : Text → Prop} {B : Piece → Prop}

namespace Trivia

def MadeOf (B : Piece → Prop) (t : Trivia) : Prop := ∀ p ∈ t, p.isBlank = true ∨ B p

theorem madeOf_of_blank {t : Trivia} (h : ∀ p ∈ t, p.isBlank = true) : t.MadeOf B :=
  fun p hp => .inl (h p hp)

theorem madeOf_nil : MadeOf B [] := madeOf_of_blank fun _ hp => absurd hp List.not_mem_nil

theorem MadeOf.append {s t : Trivia} (hs : s.MadeOf B) (ht : t.MadeOf B) : MadeOf B (s ++ t) := by
  intro p hp
  rcases List.mem_append.mp hp with hp | hp
  · exact hs p hp
  · exact ht p hp

theorem MadeOf.part {s t : Trivia} (h : t.MadeOf B) (hs : s ⊆ t) : s.MadeOf B :=
  fun p hp => h p (hs hp)

theorem MadeOf.strip {t : Trivia} (h : t.MadeOf B) (base : Trivia) : (t.strip base).MadeOf B := by
  fun_induction Trivia.strip t base with
  | case1 p t base ih => exact ih (h.part (List.subset_cons_self ..))
  | case2 t kind n kind' m hshort hne =>
      rw [Bool.and_eq_true, Bool.and_eq_true] at hshort
      intro p hp
      rcases List.mem_cons.mp hp with rfl | hp
      · exact .inl hshort.1.1
      · exact h p (List.mem_cons_of_mem _ hp)
  | case3 => exact h
  | case4 => exact h
  | case5 => exact h

theorem MadeOf.shift {t : Trivia} (h : t.MadeOf B) (base : Trivia) {indentation : Trivia}
    (hindentation : indentation.MadeOf B) : (t.shift base indentation).MadeOf B := by
  fun_induction Trivia.shift t base indentation with
  | case1 => exact h
  | case2 p t hp ih =>
      have hrest := ih ((h.part (List.subset_cons_self p t)).strip base)
      have hhead : MadeOf B (p :: indentation) := by
        intro q hq
        rcases List.mem_cons.mp hq with rfl | hq
        · exact h q (List.mem_cons_self ..)
        · exact hindentation q hq
      exact hhead.append hrest
  | case3 p t hp ih =>
      intro q hq
      rcases List.mem_cons.mp hq with rfl | hq
      · exact h q (List.mem_cons_self ..)
      · exact ih (h.part (List.subset_cons_self p t)) q hq

end Trivia

theorem IndentUnit.isBlank_addedTo (u : IndentUnit) {base : Trivia}
    (h : ∀ p ∈ base, p.isBlank = true) : ∀ p ∈ u.addedTo base, p.isBlank = true := by
  have hrun : ∀ n, (Piece.run u.run n).isBlank = true := by
    intro n
    cases u <;> rfl
  unfold addedTo
  split
  · split
    · next hkind =>
        intro p hp
        rcases List.mem_append.mp hp with hp | hp
        · exact h p (List.dropLast_subset base hp)
        · rw [List.mem_singleton.mp hp, hkind]
          exact hrun _
    · intro p hp
      rcases List.mem_append.mp hp with hp | hp
      · exact h p hp
      · rw [List.mem_singleton.mp hp]
        exact hrun _
  · intro p hp
    rcases List.mem_append.mp hp with hp | hp
    · exact h p hp
    · rw [List.mem_singleton.mp hp]
      exact hrun _

namespace Tree

theorem isBlank_indentationFrom (n : Nat) {current : Trivia}
    (hcurrent : ∀ p ∈ current, p.isBlank = true) (ls : List (Leaf × Bool)) :
    ∀ p ∈ indentationFrom n current ls, p.isBlank = true := by
  induction ls generalizing current with
  | nil =>
      intro p hp
      cases hp
  | cons entry ls ih =>
      rcases entry with ⟨l, starts⟩
      have hline : ∀ p ∈ (if starts then l.token.leading.leadingIndentation else current),
          p.isBlank = true := by
        split
        · exact fun p hp => List.all_eq_true.mp List.all_takeWhile p hp
        · exact hcurrent
      rw [indentationFrom]
      split
      · exact hline
      · exact ih hline

theorem isBlank_lineIndentation (root t : Tree) : ∀ p ∈ root.lineIndentation t, p.isBlank = true := by
  have hnil : ∀ p ∈ ([] : Trivia), p.isBlank = true := fun _ hp => absurd hp List.not_mem_nil
  unfold lineIndentation
  split
  · exact hnil
  · exact isBlank_indentationFrom _ hnil _

end Tree

/-- The text satisfies `T`, and all pieces around it are blanks or satisfy `B`. -/
structure Token.MadeOf (T : Text → Prop) (B : Piece → Prop) (t : Token) : Prop where
  text : T t.text
  leading : t.leading.MadeOf B
  trailing : t.trailing.MadeOf B

namespace DoCatch

def scaffold : List Text := ["do".toList, "catch".toList, ['\x7b'], ['\x7d']]

/-- A layout with an indentation of blanks, whose texts and line break are of the same materials. -/
structure Layout.MadeOf (T : Text → Prop) (B : Piece → Prop) (o : Layout) : Prop where
  base : ∀ p ∈ o.base, p.isBlank = true
  newline : ∀ p ∈ o.newline, B p
  scaffold : ∀ t ∈ scaffold, T t
  placeholder : T o.placeholder

variable {o : Layout} {ts : List Token}

theorem madeOf_line (ho : o.MadeOf T B) {indentation : Trivia}
    (h : ∀ p ∈ indentation, p.isBlank = true) : (o.newline ++ indentation).MadeOf B := by
  apply Trivia.MadeOf.append
  · exact fun p hp => .inr (ho.newline p hp)
  · exact Trivia.madeOf_of_blank h

theorem madeOf_split (ho : o.MadeOf T B) {t : Token} (h : t.leading.MadeOf B) :
    (o.split t).1.MadeOf B ∧ (o.split t).2.MadeOf B := by
  have hparts : (t.leading.throughLastNewline ++ t.leading.afterLastNewline).MadeOf B := by
    rw [Trivia.throughLastNewline_append_afterLastNewline]
    exact h
  rw [Layout.split, splitLeading]
  split
  · constructor
    · exact (hparts.part (List.subset_append_left ..)).append (Trivia.madeOf_of_blank ho.base)
    · exact (hparts.part (List.subset_append_right ..)).strip o.base
  · exact ⟨h, Trivia.madeOf_nil⟩

theorem madeOf_trimLast (h : ∀ t ∈ ts, t.MadeOf T B) : ∀ t ∈ trimLast ts, t.MadeOf T B := by
  rcases List.eq_nil_or_concat ts with rfl | ⟨front, last, rfl⟩
  · exact h
  rw [List.concat_eq_append] at h ⊢
  rw [trimLast_append]
  intro t ht
  rcases List.mem_append.mp ht with ht | ht
  · exact h t (List.mem_append_left _ ht)
  · have hlast := h last (by simp)
    have hparts :
        Trivia.MadeOf B (last.trailing.withoutTrailingBlanks ++ last.trailing.trailingBlanks) := by
      rw [Trivia.withoutTrailingBlanks_append_trailingBlanks]
      exact hlast.trailing
    rw [List.mem_singleton.mp ht]
    constructor
    · exact hlast.text
    · exact hlast.leading
    · exact hparts.part (List.subset_append_left ..)

theorem madeOf_shift (ho : o.MadeOf T B) {t : Token} (h : t.MadeOf T B) :
    (t.shift o.base o.deeper).MadeOf T B := by
  have hdeeper := Trivia.madeOf_of_blank (B := B) (IndentUnit.isBlank_addedTo o.unit ho.base)
  constructor
  · exact h.text
  · exact h.leading.shift o.base hdeeper
  · exact h.trailing.shift o.base hdeeper

theorem madeOf_dress (ho : o.MadeOf T B) (h : ∀ t ∈ ts, t.MadeOf T B) :
    ∀ t ∈ o.dress ts, t.MadeOf T B := by
  have htrim := madeOf_trimLast h
  unfold Layout.dress
  cases hts : trimLast ts with
  | nil =>
      intro t ht
      cases ht
  | cons first rest =>
      rw [hts] at htrim
      have hfirst := htrim first (List.mem_cons_self ..)
      have hmoved : ({ first with leading := (o.split first).2 } : Token).MadeOf T B := by
        constructor
        · exact hfirst.text
        · exact (madeOf_split ho hfirst.leading).2
        · exact hfirst.trailing
      intro t ht
      rcases List.mem_cons.mp ht with rfl | ht
      · have hall := madeOf_shift ho hmoved
        have hline := madeOf_line ho (IndentUnit.isBlank_addedTo o.unit ho.base)
        constructor
        · exact hall.text
        · show Trivia.MadeOf B (o.newline ++ (o.deeper ++ _))
          rw [← List.append_assoc]
          exact hline.append hall.leading
        · exact hall.trailing
      · rcases List.mem_map.mp ht with ⟨u, hu, rfl⟩
        exact madeOf_shift ho (htrim u (List.mem_cons_of_mem _ hu))

theorem madeOf_doLeading (ho : o.MadeOf T B) (h : ∀ t ∈ ts, t.MadeOf T B) :
    (o.doLeading ts).MadeOf B := by
  have htrim := madeOf_trimLast h
  unfold Layout.doLeading
  cases hts : trimLast ts with
  | nil => exact Trivia.madeOf_nil
  | cons first rest =>
      rw [hts] at htrim
      exact (madeOf_split ho (htrim first (List.mem_cons_self ..)).leading).1

theorem madeOf_blanksBehind (ts : List Token) : (blanksBehind ts).MadeOf B := by
  unfold blanksBehind
  cases ts.getLast? with
  | none => exact Trivia.madeOf_nil
  | some t => exact Trivia.madeOf_of_blank (Trivia.isBlank_of_mem_trailingBlanks t.trailing)

theorem madeOf_wrappedTokens (ho : o.MadeOf T B) (h : ∀ t ∈ ts, t.MadeOf T B) :
    ∀ t ∈ o.wrappedTokens ts, t.MadeOf T B := by
  have hbase := madeOf_line ho ho.base
  have hdeeper := madeOf_line ho (IndentUnit.isBlank_addedTo o.unit ho.base)
  have hspace : Trivia.MadeOf B [.spaces 1] :=
    Trivia.madeOf_of_blank fun p hp => by rw [List.mem_singleton.mp hp]; rfl
  have hnil : Trivia.MadeOf B [] := Trivia.madeOf_nil
  have htexts : ∀ text ∈ scaffold, ∀ leading trailing : Trivia, leading.MadeOf B →
      trailing.MadeOf B → ∀ kind, Token.MadeOf T B ⟨kind, text, leading, trailing⟩ :=
    fun text htext leading trailing hleading htrailing kind =>
      ⟨ho.scaffold text htext, hleading, htrailing⟩
  intro t ht
  rw [Layout.wrappedTokens, List.mem_append, List.mem_append] at ht
  rcases ht with ht | ht | ht
  · simp only [Layout.opening, List.mem_cons, List.not_mem_nil, or_false] at ht
    rcases ht with rfl | rfl
    · exact htexts _ (by simp [scaffold]) _ _ (madeOf_doLeading ho h) hspace _
    · exact htexts _ (by simp [scaffold]) _ _ hnil hnil _
  · exact madeOf_dress ho h t ht
  · simp only [Layout.closing, List.mem_cons, List.not_mem_nil, or_false] at ht
    rcases ht with rfl | rfl | rfl | rfl | rfl
    · exact htexts _ (by simp [scaffold]) _ _ hbase hspace _
    · exact htexts _ (by simp [scaffold]) _ _ hnil hspace _
    · exact htexts _ (by simp [scaffold]) _ _ hnil hnil _
    · exact ⟨ho.placeholder, hdeeper, hnil⟩
    · exact htexts _ (by simp [scaffold]) _ _ hbase (madeOf_blanksBehind ts) _

theorem madeOf_trailingOfTry {keyword mark : Token} (operand : Tree)
    (hkeyword : keyword.MadeOf T B) (hmark : mark.MadeOf T B) :
    (trailingOfTry keyword mark operand).MadeOf B := by
  rw [trailingOfTry]
  split
  · exact Trivia.madeOf_of_blank fun p hp => by rw [List.mem_singleton.mp hp]; rfl
  · exact (hkeyword.trailing.append hmark.leading).append hmark.trailing

end DoCatch

namespace Pass

theorem madeOf_rewritten {pass : Pass} (hlayout : ∀ t, (pass.layout t).MadeOf T B) {file : Tree}
    (hfile : FormsFile file) (h : ∀ t ∈ file.tokens, t.MadeOf T B) :
    ∀ t ∈ (pass.rewritten file).tokens, t.MadeOf T B := by
  have hcarries : pass.Carries file fun _ _ ts us =>
      (∀ t ∈ ts, t.MadeOf T B) → ∀ t ∈ us, t.MadeOf T B := by
    constructor
    · exact id
    · exact fun t => id
    · intro _ _ _ _ ts ts' us us' hts hts' hall t ht
      rw [List.forall_mem_append] at hall
      rcases List.mem_append.mp ht with ht | ht
      · exact hts hall.1 t ht
      · exact hts' hall.2 t ht
    · intro _ _ keyword mark operand _ _ _ hoperand hall t ht
      rw [List.forall_mem_cons, List.forall_mem_cons] at hall
      rcases List.mem_cons.mp ht with rfl | ht
      · exact ⟨hall.1.text, hall.1.leading, madeOf_trailingOfTry _ hall.1 hall.2.1⟩
      · exact hoperand hall.2.2 t ht
    · exact fun t hts hall => madeOf_wrappedTokens (hlayout t) (hts hall)
  rcases hcarries.of_formsFile hfile with ⟨ts, us, ending, hold, hnew, -, hcarried⟩
  rw [hold, List.forall_mem_append] at h
  rw [hnew]
  intro t ht
  rcases List.mem_append.mp ht with ht | ht
  · exact hcarried h.1 t ht
  · exact h.2 t ht

theorem layout_madeOf {pass : Pass} (hnewline : ∀ p ∈ newlineStyle (some pass.root), B p)
    (hscaffold : ∀ t ∈ scaffold, T t) (hplaceholder : T pass.style.placeholder) (t : Tree) :
    (pass.layout t).MadeOf T B :=
  ⟨isBlank_lineIndentation pass.root t, hnewline, hscaffold, hplaceholder⟩

end Pass
end ForceTry

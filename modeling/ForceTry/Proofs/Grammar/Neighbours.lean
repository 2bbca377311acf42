import ForceTry.Proofs.Grammar.WellFormed
import ForceTry.Proofs.Grammar.Alike

/-!
# Neighbours of a phrase

The rules of the grammar look at the token in front of a tree and at the token behind it, but not at
everything about them.  Nothing that starts a phrase depends on the token in front, and of the token
behind a statement it only matters that it separates the statement from what follows.  So a statement
can be moved to other neighbours.
-/

namespace ForceTry

namespace Tree

theorem lastOf_of_ne_nil {cs : List Tree} (h : leavesOf cs ≠ []) (previous previous' : Option Token) :
    lastOf previous cs = lastOf previous' cs := by
  unfold lastOf
  cases hcs : (leavesOf cs).getLast? with
  | none => exact absurd (List.getLast?_eq_none_iff.mp hcs) h
  | some l => rfl

end Tree

namespace Grammar

open ForceTry.Parser ForceTry.Tree

/-!
# The token in front
-/

theorem ends_of_start {f : Frame} (hf : f.hasParts = false) (previous previous' : Option Token)
    (t : Token) : f.ends previous t = f.ends previous' t := by
  rw [Frame.ends, Frame.ends, hf, Bool.false_and, Bool.false_and, Bool.false_and]

theorem formsPart_of_start {f : Frame} (hf : f.hasParts = false) {previous : Option Token}
    (previous' : Option Token) {next : Token} {t : Tree} (h : FormsPart f previous next t) :
    FormsPart f previous' next t := by
  have hends := ends_of_start hf previous' previous
  cases shape_of_formsPart h <;> rw [FormsPart, hends] <;> rwa [FormsPart] at h

/-- The first part of a phrase does not depend on what stands in front of it. -/
theorem formsParts_of_start {f : Frame} (hf : f.hasParts = false) {previous : Option Token}
    (previous' : Option Token) {next : Token} {parts : List Tree}
    (h : FormsParts f previous next parts) : FormsParts f previous' next parts := by
  cases parts with
  | nil => trivial
  | cons c cs =>
      rw [FormsParts] at h ⊢
      have hleaves : leavesOf [c] ≠ [] := by
        rw [leavesOf_cons, leavesOf_nil, List.append_nil]
        exact leaves_ne_nil_of_formsPart h.1
      rw [lastOf_of_ne_nil hleaves previous' previous]
      exact ⟨formsPart_of_start hf previous' h.1, h.2⟩

theorem formsContent_of_previous {mayBeEmpty : Bool} {previous : Option Token}
    (previous' : Option Token) {next : Token} {t : Tree}
    (h : FormsContent mayBeEmpty previous next t) : FormsContent mayBeEmpty previous' next t := by
  cases shape_of_formsContent h with
  | statement n parts hempty hdo hparts hends =>
      rw [FormsContent]
      refine ⟨hempty, hdo, formsParts_of_start rfl previous' hparts, ?_⟩
      cases parts with
      | nil =>
          rw [lastOf_nil] at hends ⊢
          rw [ends_of_start rfl previous' previous]
          exact hends
      | cons c cs =>
          have hleaves := leavesOf_ne_nil_of_formsParts (List.cons_ne_nil c cs) hparts
          rw [lastOf_of_ne_nil hleaves previous' previous]
          exact hends
  | doStatement =>
      rw [FormsContent] at h ⊢
      exact h

/-!
# The token behind
-/

/-- The token `t` ends every statement that has `previous` as its last token. -/
def Separates (previous : Option Token) (t : Token) : Prop :=
  t.kind = .semicolon ∨ t.kind = .rightBrace ∨ t.kind = .endOfFile ∨ startsAnew previous t = true

theorem separates_of_ends {f : Frame} (htry : f.inTry = false) {previous : Option Token} {t : Token}
    (h : f.ends previous t = true) : Separates previous t := by
  simp only [Frame.ends, htry, Bool.false_and, Bool.or_false, Bool.and_eq_true, Bool.or_eq_true,
    beq_iff_eq] at h
  rcases h.2 with ((hkind | hkind) | hkind) | hanew
  · exact .inl hkind
  · exact .inr (.inl hkind)
  · exact .inr (.inr (.inl hkind))
  · exact .inr (.inr (.inr hanew.2))

theorem ends_of_separates {f : Frame} (hdepth : f.depth = 0) (hparts : f.hasParts = true)
    (hline : f.lineSensitive = true) {previous : Option Token} {t : Token}
    (h : Separates previous t) : f.ends previous t = true := by
  rw [Frame.ends, hdepth, hparts, hline]
  rcases h with hkind | hkind | hkind | hanew
  · simp [hkind]
  · simp [hkind]
  · simp [hkind]
  · simp [hanew]

theorem depth_of_ends {f : Frame} {previous : Option Token} {t : Token}
    (h : f.ends previous t = true) : f.depth = 0 := by
  rw [Frame.ends, Bool.and_eq_true] at h
  exact beq_iff_eq.mp h.1

namespace Frame

theorem operand_lineSensitive {f : Frame} (hline : f.lineSensitive = true) (hdepth : f.depth = 0) :
    f.operand.lineSensitive = true := by
  rw [operand, hline, hdepth]
  rfl

theorem depth_after_node (f : Frame) (n : Nat) (k : NodeKind) (cs : List Tree) :
    (f.after (.node n k cs)).depth = f.depth := rfl

theorem lineSensitive_after (f : Frame) (t : Tree) : (f.after t).lineSensitive = f.lineSensitive := by
  cases t <;> rfl

end Frame

theorem operand_ends {f : Frame} {parts : List Tree} (hne : parts ≠ [])
    (hline : f.lineSensitive = true) (hdepth : f.depth = 0) {previous : Option Token}
    {next next' : Token} (hends : (f.operand.afterAll parts).ends previous next = true)
    (h : Separates previous next') : (f.operand.afterAll parts).ends previous next' = true := by
  apply ends_of_separates (depth_of_ends hends) _ _ h
  · rw [Frame.hasParts_afterAll]
    cases parts with
    | nil => exact absurd rfl hne
    | cons c cs => rfl
  · rw [Frame.lineSensitive_afterAll]
    exact Frame.operand_lineSensitive hline hdepth

mutual

theorem formsPart_of_separates {f : Frame} {previous : Option Token} {next next' : Token} {t : Tree}
    (h : FormsPart f previous next t) (hline : f.lineSensitive = true)
    (hdepth : (f.after t).depth = 0) (hnext : Separates (lastOf previous [t]) next') :
    FormsPart f previous next' t := by
  cases shape_of_formsPart h with
  | leaf l hstays htakes =>
      rw [FormsPart]
      exact ⟨hstays, htakes⟩
  | block n cs hstays hbraces =>
      rcases starts_of_formsBraces hbraces with ⟨left, rest, rfl, _⟩
      rw [FormsPart]
      exact ⟨hstays, hbraces⟩
  | bare n m keyword parts hstays htry hne hparts hends =>
      rw [Frame.depth_after_node] at hdepth
      rw [lastOf_try] at hnext
      rw [FormsPart]
      exact ⟨hstays, htry, hne,
        formsParts_of_separates hparts (Frame.operand_lineSensitive hline hdepth)
          (depth_of_ends hends) hnext,
        operand_ends hne hline hdepth hends hnext⟩
  | marked n m keyword mark parts hstays htry hmark hne hparts hends =>
      rw [Frame.depth_after_node] at hdepth
      rw [lastOf_markedTry] at hnext
      rw [FormsPart]
      exact ⟨hstays, htry, hmark, hne,
        formsParts_of_separates hparts (Frame.operand_lineSensitive hline hdepth)
          (depth_of_ends hends) hnext,
        operand_ends hne hline hdepth hends hnext⟩
termination_by sizeOf t

/-- The parts of a statement stay what they are in front of any token that ends the statement. -/
theorem formsParts_of_separates {f : Frame} {previous : Option Token} {next next' : Token}
    {parts : List Tree} (h : FormsParts f previous next parts) (hline : f.lineSensitive = true)
    (hdepth : (f.afterAll parts).depth = 0) (hnext : Separates (lastOf previous parts) next') :
    FormsParts f previous next' parts := by
  cases parts with
  | nil => trivial
  | cons c cs =>
      rw [FormsParts] at h ⊢
      rw [lastOf_cons] at hnext
      rw [Frame.afterAll_cons] at hdepth
      refine ⟨?_, formsParts_of_separates h.2 ((f.lineSensitive_after c).trans hline) hdepth hnext⟩
      cases cs with
      | nil => exact formsPart_of_separates h.1 hline hdepth hnext
      | cons d ds =>
          have hleaves := leavesOf_ne_nil_of_formsParts (List.cons_ne_nil d ds) h.2
          rw [firstOf_of_ne_nil hleaves next' next]
          exact h.1
termination_by sizeOf parts

end

/-!
# Trees with the same skeleton
-/

def AlikeList (previous previous' : Option Token) : List Token → List Token → Prop
  | [], [] => True
  | t :: ts, t' :: ts' =>
      AlikeTokens previous previous' t t' ∧ AlikeList (some t) (some t') ts ts'
  | _, _ => False

theorem alikeList_refl (previous : Option Token) (ts : List Token) :
    AlikeList previous previous ts ts := by
  induction ts generalizing previous with
  | nil => trivial
  | cons t ts ih => exact ⟨⟨rfl, rfl⟩, ih (some t)⟩

theorem alikeList_append {previous previous' : Option Token} {ts ts' us us' : List Token}
    (hlength : ts.length = ts'.length) (h : AlikeList previous previous' (ts ++ us) (ts' ++ us')) :
    AlikeList previous previous' ts ts' ∧
      AlikeList (ts.getLast?.or previous) (ts'.getLast?.or previous') us us' := by
  induction ts generalizing previous previous' ts' with
  | nil =>
      rw [List.eq_nil_of_length_eq_zero hlength.symm] at h ⊢
      exact ⟨trivial, h⟩
  | cons t ts ih =>
      cases ts' with
      | nil => cases hlength
      | cons t' ts' =>
          have hrest := ih (Nat.succ.inj hlength) h.2
          refine ⟨⟨h.1, hrest.1⟩, ?_⟩
          rw [List.getLast?_cons, List.getLast?_cons]
          rw [Option.or_some, Option.or_some] at hrest
          exact hrest.2

theorem AlikeList.append {previous previous' : Option Token} {ts ts' us us' : List Token}
    (h : AlikeList previous previous' ts ts')
    (h' : AlikeList (ts.getLast?.or previous) (ts'.getLast?.or previous') us us') :
    AlikeList previous previous' (ts ++ us) (ts' ++ us') := by
  induction ts generalizing previous previous' ts' with
  | nil =>
      cases ts' with
      | nil => exact h'
      | cons t' ts' => cases h
  | cons t ts ih =>
      cases ts' with
      | nil => cases h
      | cons t' ts' =>
          refine ⟨h.1, ih h.2 ?_⟩
          rw [List.getLast?_cons, List.getLast?_cons] at h'
          rw [Option.or_some, Option.or_some]
          exact h'

theorem lastOf_eq_tokensOf (previous : Option Token) (cs : List Tree) :
    lastOf previous cs = (tokensOf cs).getLast?.or previous := by
  rw [lastOf, tokensOf, List.getLast?_map]

mutual

theorem alike_of_skeleton {previous previous' : Option Token} {t t' : Tree}
    (hskeleton : t.skeleton = t'.skeleton) (h : AlikeList previous previous' t.tokens t'.tokens) :
    Alike previous previous' t t' := by
  cases t with
  | leaf l =>
      cases t' with
      | leaf l' => exact h.1
      | node n' k' cs' => cases hskeleton
  | node n k cs =>
      cases t' with
      | leaf l' => cases hskeleton
      | node n' k' cs' =>
          simp only [skeleton, outline_node, Tree.node.injEq, true_and] at hskeleton
          exact ⟨hskeleton.1, alikeAll_of_skeleton hskeleton.2 h⟩
termination_by structural t

theorem alikeAll_of_skeleton {previous previous' : Option Token} {cs cs' : List Tree}
    (hskeleton : outlineAll (fun _ => nothing) cs = outlineAll (fun _ => nothing) cs')
    (h : AlikeList previous previous' (tokensOf cs) (tokensOf cs')) :
    AlikeAll previous previous' cs cs' := by
  cases cs with
  | nil =>
      cases cs' with
      | nil => trivial
      | cons c' cs' => cases hskeleton
  | cons c cs =>
      cases cs' with
      | nil => cases hskeleton
      | cons c' cs' =>
          simp only [outlineAll, List.cons.injEq] at hskeleton
          rw [tokensOf_cons, tokensOf_cons] at h
          have hparts := alikeList_append (length_tokens_of_skeleton hskeleton.1) h
          refine ⟨alike_of_skeleton hskeleton.1 hparts.1, ?_⟩
          rw [lastOf_eq_tokensOf, lastOf_eq_tokensOf, tokensOf_cons, tokensOf_cons, tokensOf_nil,
            List.append_nil, List.append_nil]
          exact alikeAll_of_skeleton hskeleton.2 hparts.2
termination_by structural cs

end

theorem alike_of_plain (previous : Option Token) {t t' : Tree} (h : t.plain = t'.plain) :
    Alike previous previous t t' := by
  have hparts := (plain_eq_iff t t').mp h
  apply alike_of_skeleton hparts.1
  rw [hparts.2]
  exact alikeList_refl previous t'.tokens

theorem formsFile_of_plain {t t' : Tree} (h : t.plain = t'.plain) (hforms : FormsFile t) :
    FormsFile t' :=
  formsFile_of_alike (alike_of_plain none h) hforms

/-!
# Tokens that start alike
-/

/-- The tokens have the same kind and text, and a line break leads both or none. -/
def StartsAlike (t t' : Token) : Prop :=
  t.bare = t'.bare ∧ t.leading.containsNewline = t'.leading.containsNewline

theorem startsAlike_refl (t : Token) : StartsAlike t t := ⟨rfl, rfl⟩

theorem alikeTokens_of_startsAlike (previous : Option Token) {t t' : Token}
    (h : StartsAlike t t') : AlikeTokens previous previous t t' := by
  refine ⟨h.1, ?_⟩
  rw [breaksBefore, breaksBefore, h.2]

theorem ends_of_startsAlike (f : Frame) (previous : Option Token) {t t' : Token}
    (h : StartsAlike t t') : f.ends previous t = f.ends previous t' :=
  ends_of_alike f rfl (alikeTokens_of_startsAlike previous h)

theorem alike_refl (previous : Option Token) (t : Tree) : Alike previous previous t t :=
  alike_of_skeleton rfl (alikeList_refl previous t.tokens)

theorem formsPart_of_next {f : Frame} {previous : Option Token} {next next' : Token} {t : Tree}
    (h : FormsPart f previous next t) (hnext : StartsAlike next next') :
    FormsPart f previous next' t :=
  formsPart_of_alike (alike_refl previous t) rfl (alikeTokens_of_startsAlike _ hnext) h

theorem secondOf_leaf (l : Leaf) (cs : List Tree) (next : Token) :
    secondOf (.leaf l :: cs) next = firstOf cs next := rfl

/-!
# Statements in front of other tokens
-/

theorem formsContent_of_separates {mayBeEmpty mayBeEmpty' : Bool} {previous : Option Token}
    {next next' : Token} {n : Nat} {parts : List Tree}
    (h : FormsContent mayBeEmpty previous next (.node n .statement parts)) (hne : parts ≠ [])
    (hnext : Separates (lastOf previous parts) next') (hbrace : next'.kind ≠ .leftBrace) :
    FormsContent mayBeEmpty' previous next' (.node n .statement parts) := by
  rw [FormsContent] at h ⊢
  rcases h with ⟨_, hdo, hforms, hends⟩
  have hleaves := leavesOf_ne_nil_of_formsParts hne hforms
  rw [firstOf_of_ne_nil hleaves next' next]
  refine ⟨fun hnil => absurd hnil hne, ?_, formsParts_of_separates hforms rfl (depth_of_ends hends)
    hnext, ?_⟩
  · intro hfirst
    have hsecond := hdo hfirst
    unfold secondOf at hsecond ⊢
    cases htail : (leavesOf parts).tail.head? with
    | none => exact hbrace
    | some l =>
        rw [htail] at hsecond
        exact hsecond
  · apply ends_of_separates (depth_of_ends hends) _ _ hnext
    · rw [Frame.hasParts_afterAll]
      cases parts with
      | nil => exact absurd rfl hne
      | cons c cs => rfl
    · rw [Frame.lineSensitive_afterAll]
      rfl

theorem separates_of_formsContent {mayBeEmpty : Bool} {previous : Option Token} {next : Token}
    {n : Nat} {parts : List Tree}
    (h : FormsContent mayBeEmpty previous next (.node n .statement parts)) :
    Separates (lastOf previous parts) next := by
  rw [FormsContent] at h
  apply separates_of_ends _ h.2.2.2
  rw [Frame.inTry_afterAll]
  rfl

theorem leaves_of_formsContent {previous : Option Token} {next : Token} {t : Tree}
    (h : FormsContent false previous next t) : leavesOf [t] ≠ [] := by
  rw [leavesOf_cons, leavesOf_nil, List.append_nil]
  cases shape_of_formsContent h with
  | statement n parts hempty hdo hparts =>
      exact leavesOf_ne_nil_of_formsParts (fun hnil => Bool.noConfusion (hempty hnil)) hparts
  | doStatement => exact List.cons_ne_nil _ _

theorem leaves_of_formsItem {previous : Option Token} {next : Token} {t : Tree}
    (h : FormsItem previous next t) : t.leaves ≠ [] := by
  cases shape_of_formsItem h with
  | bare n content hnext hcontent => exact leaves_of_formsContent hcontent
  | closed => simp

/-!
# Where an item starts
-/

/-- An item that starts with `t` starts with `t'` afterwards, which is the same token or the `do` of a
statement that is wrapped. -/
def Heads (t t' : Token) : Prop :=
  t' = t ∨ t'.kind = .keyword ∧ t'.text = "do".toList ∧
    t'.leading.containsNewline = t.leading.containsNewline ∧
    t.kind ≠ .semicolon ∧ t.kind ≠ .rightBrace ∧ t.kind ≠ .endOfFile

theorem separates_of_heads {previous : Option Token} {t t' : Token} (h : Heads t t')
    (ht : Separates previous t) : Separates previous t' := by
  rcases h with rfl | ⟨hkind, htext, hbreak, hsemicolon, hbrace, hend⟩
  · exact ht
  · rcases ht with ht | ht | ht | ht
    · exact absurd ht hsemicolon
    · exact absurd ht hbrace
    · exact absurd ht hend
    · refine .inr (.inr (.inr ?_))
      have hdo : continues t' = false := by
        simp only [continues, Token.isKeyword, hkind, htext]
        decide
      simp only [startsAnew, breaksBefore, Bool.and_eq_true] at ht ⊢
      rw [hbreak, hkind, hdo]
      exact ⟨⟨⟨⟨ht.1.1.1.1, rfl⟩, rfl⟩, rfl⟩, ht.2⟩

theorem kind_of_heads {t t' : Token} {k : TokenKind} (hk : k ≠ .keyword) (h : Heads t t')
    (ht : t.kind ≠ k) : t'.kind ≠ k := by
  rcases h with rfl | ⟨hkind, _⟩
  · exact ht
  · rw [hkind]
    exact hk.symm

theorem not_catch_of_separates {previous : Option Token} {t : Token} (h : Separates previous t) :
    t.isKeyword "catch" = false := by
  have hkind : ∀ k, t.kind = k → k ≠ .keyword → t.isKeyword "catch" = false := by
    intro k hk hne
    rw [Token.isKeyword, hk, beq_eq_false_iff_ne.mpr hne, Bool.false_and]
  rcases h with h | h | h | h
  · exact hkind _ h (by decide)
  · exact hkind _ h (by decide)
  · exact hkind _ h (by decide)
  · simp only [startsAnew, continues, Bool.and_eq_true, Bool.not_eq_true', Bool.or_eq_false_iff] at h
    exact h.1.2.1.2

theorem not_ends_of_formsPart {f : Frame} {previous : Option Token} {next : Token} {c : Tree}
    (h : FormsPart f previous next c) : f.ends previous (firstOf [c] next) = false := by
  cases shape_of_formsPart h with
  | leaf l hstays => exact hstays
  | block n cs hstays =>
      rw [firstOf_node]
      exact hstays
  | bare n m keyword parts hstays => exact hstays
  | marked n m keyword mark parts hstays => exact hstays

theorem kind_of_formsPart {f : Frame} (hdepth : f.depth = 0) {previous : Option Token} {next : Token}
    {t : Tree} (h : FormsPart f previous next t) :
    (firstOf [t] next).kind ≠ .semicolon ∧ (firstOf [t] next).kind ≠ .rightBrace ∧
      (firstOf [t] next).kind ≠ .endOfFile := by
  have hstays := not_ends_of_formsPart h
  rw [Frame.ends, hdepth] at hstays
  refine ⟨?_, ?_, ?_⟩ <;> intro hkind <;> simp [hkind] at hstays

theorem heads_refl (t : Token) : Heads t t := .inl rfl

theorem heads_of_eq {t t' : Token} (h : t = t') : Heads t t' := .inl h.symm

/-- In an item that ends there, the token behind may become the `do` of the next item. -/
theorem formsContent_of_heads {previous : Option Token} {next next' : Token} {t : Tree}
    (h : FormsContent false previous next t) (hnext : Heads next next') :
    FormsContent false previous next' t := by
  rcases hnext with rfl | hdo
  · exact h
  · have hforms := h
    cases shape_of_formsContent h with
    | statement n parts hempty =>
        have hne : parts ≠ [] := fun hnil => Bool.noConfusion (hempty hnil)
        refine formsContent_of_separates hforms hne
          (separates_of_heads (.inr hdo) (separates_of_formsContent hforms)) ?_
        rw [hdo.1]
        decide
    | doStatement n keyword body clauses hkeyword hbody hclauses =>
        rw [FormsContent]
        refine ⟨hkeyword, hbody, hclauses, ?_⟩
        rw [Token.isKeyword, hdo.1, hdo.2.1]
        decide

end Grammar
end ForceTry

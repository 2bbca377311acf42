import ForceTry.Proofs.Grammar.Neighbours

/-!
# The end of an item

No phrase ends in `try` or in its mark, since a `try` has an operand.  An item ends in a semicolon or a
brace, or in front of something that ends it: a brace, the end of the file, or a token that starts anew.
-/

namespace ForceTry
namespace Grammar

open ForceTry.Parser ForceTry.Tree

/-!
# Phrases
-/

mutual

theorem last_of_formsPart {f : Frame} {previous : Option Token} {next : Token} {t : Tree}
    (h : FormsPart f previous next t) :
    ∀ x ∈ lastOf previous [t], x.isKeyword "try" = false ∧ x.kind.marksTry = false := by
  intro x hx
  cases shape_of_formsPart h with
  | leaf l hstays htakes =>
      rw [lastOf_leaf] at hx
      cases hx
      exact ⟨htakes.2.2.1, htakes.2.2.2.1⟩
  | block n cs hstays hbraces =>
      rcases (formsBraces_iff cs).mp hbraces with ⟨left, items, right, rfl, _, hright, _⟩
      rw [lastOf_node, lastOf_cons, lastOf_append, lastOf_leaf] at hx
      cases hx
      rw [Token.isKeyword, hright]
      exact ⟨rfl, rfl⟩
  | bare n m keyword parts hstays htry hne hparts =>
      rw [lastOf_try] at hx
      exact last_of_formsParts hne hparts x hx
  | marked n m keyword mark parts hstays htry hmark hne hparts =>
      rw [lastOf_markedTry] at hx
      exact last_of_formsParts hne hparts x hx
termination_by sizeOf t

theorem last_of_formsParts {f : Frame} {previous : Option Token} {next : Token}
    {parts : List Tree} (hne : parts ≠ []) (h : FormsParts f previous next parts) :
    ∀ x ∈ lastOf previous parts, x.isKeyword "try" = false ∧ x.kind.marksTry = false := by
  cases parts with
  | nil => exact absurd rfl hne
  | cons c cs =>
      rw [FormsParts] at h
      rw [lastOf_cons]
      cases cs with
      | nil => exact last_of_formsPart h.1
      | cons d ds => exact last_of_formsParts (List.cons_ne_nil d ds) h.2
termination_by sizeOf parts

end

theorem not_try_of_formsParts {f : Frame} {previous : Option Token} {next : Token}
    {parts : List Tree} (hne : parts ≠ []) (h : FormsParts f previous next parts) :
    ∀ x ∈ lastOf previous parts, x.isKeyword "try" = false :=
  fun x hx => (last_of_formsParts hne h x hx).1

/-!
# Blocks and clauses
-/

def EndInBrace (cs : List Tree) : Prop :=
  ∀ previous, ∃ right, lastOf previous cs = some right ∧ right.kind = .rightBrace

theorem endInBrace_cons {cs : List Tree} (h : EndInBrace cs) (c : Tree) : EndInBrace (c :: cs) := by
  intro previous
  rw [lastOf_cons]
  exact h _

theorem endInBrace_of_formsBlock {t : Tree} (h : FormsBlock t) : EndInBrace [t] := by
  intro previous
  rcases (formsBlock_iff t).mp h with ⟨n, cs, rfl, hbraces⟩
  rcases (formsBraces_iff cs).mp hbraces with ⟨left, items, right, rfl, _, hright, _⟩
  refine ⟨right.token, ?_, hright⟩
  rw [lastOf_node, lastOf_cons, lastOf_append, lastOf_leaf]

theorem endInBrace_of_formsPattern {cs : List Tree} (h : FormsPattern cs) : EndInBrace cs := by
  induction cs with
  | nil => cases shape_of_formsPattern h
  | cons c cs ih =>
      cases shape_of_formsPattern h with
      | leaf l cs hleft hright hend hcs => exact endInBrace_cons (ih hcs) _
      | block n cs hbraces =>
          exact endInBrace_of_formsBlock ((formsBlock_iff _).mpr ⟨n, cs, rfl, hbraces⟩)

theorem endInBrace_of_formsClauses {clauses : List Tree} (h : FormsClauses clauses) :
    ∀ c ∈ clauses, EndInBrace [c] := by
  intro c hc previous
  rcases shapes_of_formsClauses h c hc with ⟨n, keyword, cs, rfl, _, hpattern⟩
  rw [lastOf_node]
  exact endInBrace_cons (endInBrace_of_formsPattern hpattern) (.leaf keyword) previous

theorem endInBrace_of_all {cs : List Tree} (hne : cs ≠ []) (h : ∀ c ∈ cs, EndInBrace [c]) :
    EndInBrace cs := by
  induction cs with
  | nil => exact absurd rfl hne
  | cons c cs ih =>
      cases cs with
      | nil => exact h c (List.mem_cons_self ..)
      | cons d ds =>
          exact endInBrace_cons (ih (List.cons_ne_nil d ds) fun e he =>
            h e (List.mem_cons_of_mem c he)) c

/-!
# Items
-/

/-- How an item ends: with a semicolon or a brace, or in front of a token that ends it. -/
structure ItemEnds (last next : Token) : Prop where
  not_try : last.isKeyword "try" = false
  ends : last.kind = .semicolon ∨ last.kind = .rightBrace ∨ next.kind = .rightBrace ∨
    next.kind = .endOfFile ∨ startsAnew (some last) next = true

theorem not_try_of_kind {t : Token} (h : t.kind ≠ .keyword) : t.isKeyword "try" = false := by
  rw [Token.isKeyword, beq_eq_false_iff_ne.mpr h, Bool.false_and]

theorem itemEnds_of_statement {mayBeEmpty : Bool} {previous : Option Token} {next : Token} {n : Nat}
    {parts : List Tree} (h : FormsContent mayBeEmpty previous next (.node n .statement parts))
    (hne : parts ≠ []) (hnext : next.kind ≠ .semicolon) :
    ∃ last, lastOf previous parts = some last ∧ ItemEnds last next := by
  have hseparates := separates_of_formsContent h
  rw [FormsContent] at h
  have hleaves := leavesOf_ne_nil_of_formsParts hne h.2.2.1
  have hnotTry := not_try_of_formsParts hne h.2.2.1
  cases hlast : lastOf previous parts with
  | none =>
      rw [lastOf, Option.or_eq_none_iff, Option.map_eq_none_iff, List.getLast?_eq_none_iff] at hlast
      exact absurd hlast.1 hleaves
  | some last =>
      rw [hlast] at hnotTry hseparates
      exact ⟨last, rfl, hnotTry last rfl, .inr (.inr (hseparates.resolve_left hnext))⟩

theorem itemEnds_of_formsItem {previous : Option Token} {next : Token} {t : Tree}
    (h : FormsItem previous next t) :
    ∃ last, lastOf previous [t] = some last ∧ ItemEnds last next := by
  cases shape_of_formsItem h with
  | bare n content hnext hcontent =>
      rw [lastOf_node]
      cases shape_of_formsContent hcontent with
      | statement m parts hempty =>
          rw [lastOf_node]
          exact itemEnds_of_statement hcontent (fun hnil => Bool.noConfusion (hempty hnil)) hnext
      | doStatement m keyword body clauses hdo hbody hclauses =>
          have hall : EndInBrace (body :: clauses) := by
            apply endInBrace_of_all (List.cons_ne_nil body clauses)
            rw [List.forall_mem_cons]
            exact ⟨endInBrace_of_formsBlock hbody, endInBrace_of_formsClauses hclauses⟩
          rcases endInBrace_cons hall (.leaf keyword) previous with ⟨right, hlast, hright⟩
          refine ⟨right, ?_, not_try_of_kind (by rw [hright]; decide), .inr (.inl hright)⟩
          rw [lastOf_node]
          exact hlast
  | closed n content semicolon hsemicolon =>
      refine ⟨semicolon.token, ?_, not_try_of_kind (by rw [hsemicolon]; decide), .inl hsemicolon⟩
      rw [lastOf_node, lastOf_cons, lastOf_leaf]

end Grammar
end ForceTry

import ForceTry.Proofs.Grammar.Children
import ForceTry.Proofs.Grammar.Segments
import ForceTry.Proofs.Grammar.Surface
import ForceTry.Proofs.Token.Stream

/-!
# What a `try` takes

The operand of a `try` reaches as far as it can.  Nothing that ends an operand stands in it outside
brackets, and what stands behind it ends it.
-/

namespace ForceTry
namespace Grammar

open ForceTry.Parser ForceTry.Tree

/-!
# Inside an operand
-/

/-- The piece does not end an operand.  A block ends one in the condition of a statement. -/
def MayStand (condition : Bool) : Tree → Prop
  | .leaf l =>
      l.token.kind ≠ .comma ∧ l.token.kind ≠ .semicolon ∧ l.token.isKeyword "else" = false
  | .node _ k _ => k = .block → condition = false

/-- What an operand holds: its brackets are closed in it, and outside them nothing ends it. -/
structure OperandHolds (condition : Bool) (operand : List Tree) : Prop where
  balanced : closed (surfaceOf operand) = opened (surfaceOf operand)
  prefixes : ∀ front back, surfaceOf operand = front ++ back → closed front ≤ opened front
  outside : ∀ front x back, surfaceOf operand = front ++ x :: back → closed front = opened front →
    MayStand condition x

theorem not_endsOperand_of_stays {f : Frame} (htry : f.inTry = true) (hdepth : f.depth = 0)
    {previous : Option Token} {t : Token} (h : f.ends previous t = false) :
    t.kind ≠ .semicolon ∧ endsOperand t f.condition = false := by
  simp only [Frame.ends, htry, hdepth, beq_self_eq_true, Bool.true_and, Bool.or_eq_false_iff,
    beq_eq_false_iff_ne] at h
  exact ⟨h.1.1.1.1, h.2⟩

theorem mayStand_of_piece {f : Frame} (htry : f.inTry = true) (hdepth : f.depth = 0)
    {previous : Option Token} {x : Tree} (h : Piece f previous x) : MayStand f.condition x := by
  have hstays : ∀ l : Leaf, f.ends previous l.token = false → MayStand f.condition (.leaf l) := by
    intro l hl
    have hnot := not_endsOperand_of_stays htry hdepth hl
    simp only [endsOperand, Bool.or_eq_false_iff, beq_eq_false_iff_ne] at hnot
    exact ⟨hnot.2.1.1.1, hnot.1, hnot.2.1.2⟩
  cases h with
  | token l hl htakes => exact hstays l hl
  | keyword l hl hkeyword => exact hstays l hl
  | mark l hmark hkeyword =>
      cases hkind : l.token.kind <;> rw [hkind] at hmark <;>
        first | simp [MayStand, Token.isKeyword, hkind]; done | cases hmark
  | block n cs hl hbraces =>
      intro _
      have hnot := (not_endsOperand_of_stays htry hdepth (hl nothing)).2
      rcases (formsBraces_iff cs).mp hbraces with ⟨left, items, right, rfl, hleft, _⟩
      simp only [endsOperand, firstOf_leaf, hleft, Bool.or_eq_false_iff, beq_self_eq_true,
        Bool.and_true] at hnot
      exact hnot.2

theorem operandHolds_of_forms {f : Frame} {previous last : Option Token} {next : Token}
    {operand : List Tree} (h : FormsParts f.operand previous next operand)
    (hends : (f.operand.afterAll operand).ends last next = true) :
    OperandHolds f.condition operand := by
  have hpiece : ∀ front x back, surfaceOf operand = front ++ x :: back →
      ∃ g last, Reaches f.operand previous front g last ∧ Piece g last x :=
    fun front x back hsurface => piece_of_formsParts h hsurface
  have hdepth : f.operand.depth = 0 := rfl
  have hbalanced := balanced_of_ends hends (depth_afterAll_surface h)
  constructor
  · exact hbalanced
  · exact fun front back hsurface => closed_le_of_formsParts h hdepth hsurface
  · intro front x back hsurface hlevel
    rcases hpiece front x back hsurface with ⟨g, last, hreaches, hx⟩
    rcases hreaches.depth with ⟨outer, hcount, _⟩
    have hmay := mayStand_of_piece (hreaches.inTry rfl) (by omega) hx
    rw [hreaches.condition] at hmay
    exact hmay

/-!
# Behind an operand
-/

/-- The token `next` ends an operand whose last token is `last`: always, or because it opens the body of
a condition, or, with no bracket open around the `try`, because it starts a new line. -/
inductive EndsBehind (condition : Bool) (outside : Prop) (last next : Token) : Prop where
  | sign (h : next.kind ∈ [.endOfFile, .semicolon, .rightBrace, .comma, .rightParen, .rightSquare])
  | alternative (h : next.isKeyword "else" = true)
  | body (hcondition : condition = true) (h : next.kind = .leftBrace)
  | line (houtside : outside) (h : startsStatement (some last) next = true)

theorem EndsBehind.imp {condition : Bool} {outside outside' : Prop} {last next : Token}
    (h : EndsBehind condition outside last next) (himp : outside → outside') :
    EndsBehind condition outside' last next := by
  cases h with
  | sign h => exact .sign h
  | alternative h => exact .alternative h
  | body hcondition h => exact .body hcondition h
  | line houtside h => exact .line (himp houtside) h

theorem endsBehind_of_ends {f : Frame} {operand : List Tree} {last next : Token}
    (hline : last.trailing.containsNewline = false)
    (hends : (f.operand.afterAll operand).ends (some last) next = true) :
    EndsBehind f.condition (f.operand.lineSensitive = true) last next := by
  rw [Frame.ends, Bool.and_eq_true] at hends
  simp only [Frame.lineSensitive_afterAll, Frame.condition_afterAll, endsOperand, Bool.or_eq_true,
    Bool.and_eq_true, beq_iff_eq, @startsAnew_eq (some last) hline] at hends
  rcases hends.2 with (((hkind | hkind) | hkind) | ⟨⟨_, houtside⟩, hanew⟩) |
    ⟨_, ((hkind | hkind) | helse) | ⟨hcondition, hkind⟩⟩
  · exact .sign (by rw [hkind]; decide)
  · exact .sign (by rw [hkind]; decide)
  · exact .sign (by rw [hkind]; decide)
  · exact .line houtside hanew
  · exact .sign (by rw [hkind]; decide)
  · refine .sign ?_
    cases hnext : next.kind <;> rw [hnext] at hkind <;> first | decide | cases hkind
  · exact .alternative helse
  · exact .body hcondition hkind

/-!
# A `try` in its statement
-/

theorem operand_of_formsPart {f : Frame} {previous : Option Token} {next : Token} {m : Tree}
    (h : FormsPart f previous next m) (htry : m.isKind .tryExpression = true) :
    ∃ n lead k operand before, m = .node n .tryExpression (lead ++ [.node k .expression operand]) ∧
      operand ≠ [] ∧ FormsParts f.operand before next operand ∧
      (f.operand.afterAll operand).ends (lastOf before operand) next = true := by
  cases shape_of_formsPart h with
  | leaf => cases htry
  | block => cases htry
  | bare n k keyword operand hstays hkeyword hne hparts hends =>
      exact ⟨n, [.leaf keyword], k, operand, _, rfl, hne, hparts, hends⟩
  | marked n k keyword mark operand hstays hkeyword hmark hne hparts hends =>
      exact ⟨n, [.leaf keyword, .leaf mark], k, operand, _, rfl, hne, hparts, hends⟩

theorem head_behind (cs : List Tree) (l : Leaf) (after : List Leaf) :
    ∃ next rest, leavesOf cs ++ l :: after = next :: rest ∧ next.token = firstOf cs l.token := by
  rw [firstOf]
  cases leavesOf cs with
  | nil => exact ⟨l, after, rfl, rfl⟩
  | cons next rest => exact ⟨next, rest ++ l :: after, rfl, rfl⟩

theorem statement_of_followed {ls : List Leaf} {n k : Nat} {parts semicolon : List Tree} {l : Leaf}
    (h : Followed ls (.node n .item (.node k .statement parts :: semicolon)) l) :
    ∃ mayBeEmpty previous before next after, ls = before ++ leavesOf parts ++ next :: after ∧
      FormsContent mayBeEmpty previous next.token (.node k .statement parts) := by
  rcases h with ⟨⟨before, after, rfl⟩, previous, hforms⟩
  cases shape_of_formsItem hforms with
  | bare _ _ hnext hcontent =>
      refine ⟨false, previous, before, l, after, ?_, hcontent⟩
      rw [leaves_node, leavesOf_cons, leaves_node, leavesOf_nil, List.append_nil]
  | closed _ _ semicolon hsemicolon hcontent =>
      refine ⟨true, previous, before, semicolon, l :: after, ?_, hcontent⟩
      rw [leaves_node, leavesOf_cons, leaves_node]
      simp

theorem outside_of_reaches {condition : Bool} {previous last : Option Token} {front : List Tree}
    {g : Frame} (h : Reaches (Frame.statement condition) previous front g last)
    (houtside : g.operand.lineSensitive = true) : closed front = opened front := by
  rcases h.depth with ⟨outer, hcount, hline⟩
  have hdepth : (Frame.statement condition).depth = 0 := rfl
  rw [Frame.operand, hline, Bool.and_eq_true, Bool.and_eq_true, beq_iff_eq, beq_iff_eq] at houtside
  omega

/-- The `try` `m` among the parts of a statement, with the leaves `after` behind the statement: its
operand, what stands in front of it, its last leaf and the one behind it. -/
def TakesOperand (parts : List Tree) (after : List Leaf) (m : Tree) : Prop :=
  ∃ first n lead k operand front back last next rest,
    (leavesOf parts).head? = some first ∧
    m = .node n .tryExpression (lead ++ [.node k .expression operand]) ∧
    OperandHolds (startsCondition first.token) operand ∧
    surfaceOf parts = front ++ m.surface ++ back ∧
    m.lastLeaf? = some last ∧ leavesOf back ++ after = next :: rest ∧
    EndsBehind (startsCondition first.token) (closed front = opened front) last.token next.token

theorem takesOperand_of_content {mayBeEmpty : Bool} {previous : Option Token} {k : Nat}
    {parts : List Tree} {l : Leaf} {after : List Leaf}
    (h : FormsContent mayBeEmpty previous l.token (.node k .statement parts))
    (hline : ∀ x ∈ leavesOf parts, x.token.trailing.containsNewline = false) {m : Tree}
    (hm : m ∈ directNodesOf parts) (htry : m.isKind .tryExpression = true) :
    TakesOperand parts (l :: after) m := by
  rw [FormsContent] at h
  rcases try_of_formsParts h.2.2.1 hm htry with ⟨front, back, g, last, hsurface, hreaches, hpart⟩
  rcases operand_of_formsPart hpart htry with
    ⟨n, lead, k, operand, behind, hshape, hne, hoperand, hends⟩
  have hparts : leavesOf parts ≠ [] := by
    apply leavesOf_ne_nil_of_formsParts _ h.2.2.1
    rintro rfl
    cases hm
  rcases List.exists_cons_of_ne_nil hparts with ⟨first, rest, hfirst⟩
  have hcondition : g.condition = startsCondition first.token := by
    rw [hreaches.condition, Frame.statement, firstOf, hfirst]
    rfl
  have hlast := List.getLast?_eq_some_getLast (leavesOf_ne_nil_of_formsParts hne hoperand)
  generalize (leavesOf operand).getLast _ = x at hlast
  have hlastLeaf : m.lastLeaf? = some x := by
    rw [lastLeaf?, hshape, leaves_node, leavesOf_append, leavesOf_cons, leaves_node, leavesOf_nil,
      List.append_nil, List.getLast?_append, hlast]
    rfl
  have hmem : x ∈ leavesOf parts := by
    rw [← leavesOf_surfaceOf, hsurface, leavesOf_append, leavesOf_append, leavesOf_surface]
    exact List.mem_append_left _ (List.mem_append_right _ (List.mem_of_mem_getLast? hlastLeaf))
  have hlastOf : lastOf behind operand = some x.token := by
    rw [lastOf, hlast]
    rfl
  rcases head_behind back l after with ⟨next, rest', hnext, htoken⟩
  have hbehind : (g.operand.afterAll operand).ends (some x.token) next.token = true := by
    rw [← hlastOf, htoken]
    exact hends
  refine ⟨first, n, lead, _, operand, front, back, x, next, rest', by rw [hfirst]; rfl, hshape, ?_,
    hsurface, hlastLeaf, hnext, ?_⟩
  · rw [← hcondition]
    exact operandHolds_of_forms hoperand hends
  · rw [← hcondition]
    exact (endsBehind_of_ends (hline x hmem) hbehind).imp (outside_of_reaches hreaches)

end Grammar

namespace Tree

open ForceTry.Grammar ForceTry.Parser

/-- What a `try` of a source takes.  It stands in a statement, and its operand has closed brackets, holds
nothing outside them that ends it, and reaches up to a token that does. -/
theorem ofText_operands {source : Text} {t : Tree} (h : ofText source = .ok t) {m : Tree}
    (hm : m ∈ t.nodes) (htry : m.isKind .tryExpression = true) :
    ∃ parts before after, t.StandsIn parts m ∧ t.leaves = before ++ leavesOf parts ++ after ∧
      TakesOperand parts after m := by
  rcases ofText_forms h with ⟨ts, _, hts, hleaves, hfile, _⟩
  rcases standsIn_of_file hfile hm htry with ⟨parts, hstands⟩
  rcases hstands.1 with ⟨n, k, semicolon, hitem⟩
  rcases followed_of_file hfile hitem rfl with ⟨l, hfollowed⟩
  rcases statement_of_followed hfollowed with ⟨_, _, before, next, after, hsplit, hcontent⟩
  refine ⟨parts, before, next :: after, hstands, hsplit, ?_⟩
  refine takesOperand_of_content hcontent ?_ hstands.2 htry
  intro x hx
  apply (Tokens.divide_of_ofText hts).trailing
  rw [← tokens_of_toLeaves hleaves, tokens, hsplit]
  exact List.mem_map_of_mem (List.mem_append_left _ (List.mem_append_right _ hx))

/-- The operand of the first `try` ends at `else`, that of the second one at `)`. -/
theorem ofText_operands_guard :
    ∃ t m, ofText (Text.ofString "guard let x = try! f(try g()) else \x7b return \x7d\n") = .ok t ∧
      m ∈ t.nodes ∧ m.isKind .tryExpression = true ∧
      ∃ parts before after, t.StandsIn parts m ∧ t.leaves = before ++ leavesOf parts ++ after ∧
        TakesOperand parts after m := by
  have hcheck : ((ofText (Text.ofString
      "guard let x = try! f(try g()) else \x7b return \x7d\n")).toOption.bind fun t =>
        t.nodes.find? (isKind .tryExpression)).isSome = true := by
    decide +kernel
  rcases Option.isSome_iff_exists.mp hcheck with ⟨m, hfound⟩
  rcases Option.bind_eq_some_iff.mp hfound with ⟨t, ht, hm⟩
  have hok := eq_ok_of_toOption ht
  have hmem := List.mem_of_find?_eq_some hm
  have htry := List.find?_some hm
  exact ⟨t, m, hok, hmem, htry, ofText_operands hok hmem htry⟩

end Tree
end ForceTry

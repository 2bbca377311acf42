import ForceTry.Tree.Parser

/-!
# The grammar of trees

The parser is a machine that reads one token after the other.  This module says without a machine
which trees it makes: every rule looks at one node, at the token before it and at the token behind
it.

A phrase is the run of parts of a statement or of an operand.  What ends it depends on where it
stands, which a `Frame` holds.  A line break before a token counts wherever it stands, in the trivia
before the token or in the trivia behind the token before.
-/

namespace ForceTry

namespace Tree

/-- The first token of some trees, or `next` when they have none. -/
def firstOf (cs : List Tree) (next : Token) : Token :=
  ((leavesOf cs).head?.map Leaf.token).getD next

/-- The last token of some trees, or `previous` when they have none. -/
def lastOf (previous : Option Token) (cs : List Tree) : Option Token :=
  ((leavesOf cs).getLast?.map Leaf.token).or previous

/-- The second token of some trees, or `next` when they have none. -/
def secondOf (cs : List Tree) (next : Token) : Token :=
  ((leavesOf cs).tail.head?.map Leaf.token).getD next

end Tree

namespace Grammar

open ForceTry.Parser ForceTry.Tree

def breaksBefore (previous : Option Token) (t : Token) : Bool :=
  t.leading.containsNewline || previous.any (·.trailing.containsNewline)

/-- The token starts a new statement behind `previous`. -/
def startsAnew (previous : Option Token) (t : Token) : Bool :=
  breaksBefore previous t && t.kind != .period && t.kind != .operatorSign && !continues t &&
    !(previous.any bindsOn)

structure Frame where
  inTry : Bool
  condition : Bool
  lineSensitive : Bool
  depth : Nat
  hasParts : Bool

namespace Frame

def statement (condition : Bool) : Frame := ⟨false, condition, true, 0, false⟩

/-- The start of the operand of a `try` that is the next part of the phrase. -/
def operand (f : Frame) : Frame :=
  ⟨true, f.condition, f.lineSensitive && f.depth == 0, 0, false⟩

def ends (f : Frame) (previous : Option Token) (t : Token) : Bool :=
  f.depth == 0 &&
    (t.kind == .semicolon || t.kind == .rightBrace || t.kind == .endOfFile ||
      (f.hasParts && f.lineSensitive && startsAnew previous t) ||
      (f.inTry && endsOperand t f.condition))

/-- The token can be a part of the phrase on its own. -/
def Takes (f : Frame) (t : Token) : Prop :=
  t.kind ≠ .leftBrace ∧ t.kind ≠ .endOfFile ∧ t.isKeyword "try" = false ∧
    t.kind.marksTry = false ∧ (t.kind.closes = true → 0 < f.depth)

def depthAfter (depth : Nat) (t : Token) : Nat :=
  if t.kind.opens then depth + 1 else if t.kind.closes then depth - 1 else depth

def after (f : Frame) : Tree → Frame
  | .leaf l => { f with depth := depthAfter f.depth l.token, hasParts := true }
  | .node _ _ _ => { f with hasParts := true }

def afterAll (f : Frame) (parts : List Tree) : Frame := parts.foldl after f

end Frame

/-- What stands behind the last child of a node, as far as the node itself knows. -/
def nothing : Token := ⟨.endOfFile, [], [], []⟩

mutual

def FormsPart (f : Frame) (previous : Option Token) (next : Token) : Tree → Prop
  | .leaf l => f.ends previous l.token = false ∧ f.Takes l.token
  | .node _ .block cs => f.ends previous (firstOf cs next) = false ∧ FormsBraces cs
  | .node _ .tryExpression [.leaf keyword, .node _ .expression parts] =>
      f.ends previous keyword.token = false ∧ keyword.token.isKeyword "try" = true ∧
        parts ≠ [] ∧ FormsParts f.operand (some keyword.token) next parts ∧
        (f.operand.afterAll parts).ends (lastOf (some keyword.token) parts) next = true
  | .node _ .tryExpression [.leaf keyword, .leaf mark, .node _ .expression parts] =>
      f.ends previous keyword.token = false ∧ keyword.token.isKeyword "try" = true ∧
        mark.token.kind.marksTry = true ∧
        parts ≠ [] ∧ FormsParts f.operand (some mark.token) next parts ∧
        (f.operand.afterAll parts).ends (lastOf (some mark.token) parts) next = true
  | _ => False

def FormsParts (f : Frame) (previous : Option Token) (next : Token) : List Tree → Prop
  | [] => True
  | c :: cs =>
      FormsPart f previous (firstOf cs next) c ∧
        FormsParts (f.after c) (lastOf previous [c]) next cs

def FormsBraces : List Tree → Prop
  | .leaf left :: cs =>
      left.token.kind = .leftBrace ∧ FormsBody .rightBrace (some left.token) cs
  | _ => False

def FormsBlock : Tree → Prop
  | .node _ .block cs => FormsBraces cs
  | _ => False

def FormsBody (closing : TokenKind) (previous : Option Token) : List Tree → Prop
  | [] => False
  | .leaf l :: cs => l.token.kind = closing ∧ cs = []
  | c :: cs =>
      FormsItem previous (firstOf cs nothing) c ∧ FormsBody closing (lastOf previous [c]) cs

def FormsItem (previous : Option Token) (next : Token) : Tree → Prop
  | .node _ .item [content] => next.kind ≠ .semicolon ∧ FormsContent false previous next content
  | .node _ .item [content, .leaf semicolon] =>
      semicolon.token.kind = .semicolon ∧ FormsContent true previous semicolon.token content
  | _ => False

/-- The content of an item; only in front of a semicolon it may be empty. -/
def FormsContent (mayBeEmpty : Bool) (previous : Option Token) (next : Token) : Tree → Prop
  | .node _ .statement parts =>
      (parts = [] → mayBeEmpty = true) ∧
      ((firstOf parts next).isKeyword "do" = true → (secondOf parts next).kind ≠ .leftBrace) ∧
      FormsParts (Frame.statement (startsCondition (firstOf parts next))) previous next parts ∧
      ((Frame.statement (startsCondition (firstOf parts next))).afterAll parts).ends
        (lastOf previous parts) next = true
  | .node _ .doStatement (.leaf keyword :: body :: clauses) =>
      keyword.token.isKeyword "do" = true ∧ FormsBlock body ∧ FormsClauses clauses ∧
        next.isKeyword "catch" = false
  | _ => False

def FormsClauses : List Tree → Prop
  | [] => True
  | .node _ .catchClause (.leaf keyword :: cs) :: clauses =>
      keyword.token.isKeyword "catch" = true ∧ FormsPattern cs ∧ FormsClauses clauses
  | _ => False

def FormsPattern : List Tree → Prop
  | [] => False
  | .leaf l :: cs =>
      l.token.kind ≠ .leftBrace ∧ l.token.kind ≠ .rightBrace ∧ l.token.kind ≠ .endOfFile ∧
        FormsPattern cs
  | b :: cs => FormsBlock b ∧ cs = []

end

def FormsFile : Tree → Prop
  | .node _ .sourceFile cs => FormsBody .endOfFile none cs
  | _ => False

/-!
# Lists of trees

Parts and items come in lists.  What is said of a list can be said of its two halves, each with the
tokens of the other as its neighbours.
-/

end Grammar

namespace Tree

theorem leavesOf_append (cs ds : List Tree) : leavesOf (cs ++ ds) = leavesOf cs ++ leavesOf ds := by
  rw [leavesOf_eq_flatMap, leavesOf_eq_flatMap, leavesOf_eq_flatMap, List.flatMap_append]

@[simp] theorem leavesOf_nil : leavesOf [] = [] := rfl

@[simp] theorem leavesOf_cons (c : Tree) (cs : List Tree) :
    leavesOf (c :: cs) = c.leaves ++ leavesOf cs := rfl

@[simp] theorem leaves_leaf (l : Leaf) : (Tree.leaf l).leaves = [l] := rfl

@[simp] theorem leaves_node (n : Nat) (k : NodeKind) (cs : List Tree) :
    (Tree.node n k cs).leaves = leavesOf cs := rfl

@[simp] theorem firstOf_nil (next : Token) : firstOf [] next = next := rfl

@[simp] theorem firstOf_leaf (l : Leaf) (cs : List Tree) (next : Token) :
    firstOf (.leaf l :: cs) next = l.token := rfl

@[simp] theorem lastOf_nil (previous : Option Token) : lastOf previous [] = previous := by
  simp [lastOf]

theorem firstOf_append (cs ds : List Tree) (next : Token) :
    firstOf (cs ++ ds) next = firstOf cs (firstOf ds next) := by
  unfold firstOf
  rw [leavesOf_append]
  cases leavesOf cs with
  | nil => rfl
  | cons l ls => rfl

theorem lastOf_append (previous : Option Token) (cs ds : List Tree) :
    lastOf previous (cs ++ ds) = lastOf (lastOf previous cs) ds := by
  unfold lastOf
  rw [leavesOf_append, List.getLast?_append]
  cases (leavesOf ds).getLast? with
  | none => rfl
  | some l => rfl

theorem lastOf_cons (previous : Option Token) (c : Tree) (cs : List Tree) :
    lastOf previous (c :: cs) = lastOf (lastOf previous [c]) cs :=
  lastOf_append previous [c] cs

theorem firstOf_cons (c : Tree) (cs : List Tree) (next : Token) :
    firstOf (c :: cs) next = firstOf [c] (firstOf cs next) :=
  firstOf_append [c] cs next

theorem firstOf_snoc (parts : List Tree) (x : Tree) (next : Token) :
    firstOf (x :: parts).reverse next = firstOf parts.reverse (firstOf [x] next) := by
  rw [List.reverse_cons, firstOf_append]

theorem secondOf_append {parts : List Tree} (x : Tree) (next : Token) (hparts : leavesOf parts ≠ [])
    (hx : x.leaves ≠ []) :
    secondOf (parts ++ [x]) next = secondOf parts (firstOf [x] next) := by
  unfold secondOf firstOf
  rw [leavesOf_append, leavesOf_cons, leavesOf_nil, List.append_nil]
  cases hparts' : leavesOf parts with
  | nil => exact absurd hparts' hparts
  | cons l ls =>
      cases ls with
      | nil =>
          cases hx' : x.leaves with
          | nil => exact absurd hx' hx
          | cons m ms => rfl
      | cons m ms => rfl

end Tree

namespace Grammar

open ForceTry.Parser ForceTry.Tree

namespace Frame

theorem afterAll_append (f : Frame) (ps qs : List Tree) :
    f.afterAll (ps ++ qs) = (f.afterAll ps).afterAll qs := by
  unfold afterAll
  rw [List.foldl_append]

theorem afterAll_cons (f : Frame) (p : Tree) (ps : List Tree) :
    f.afterAll (p :: ps) = (f.after p).afterAll ps := rfl

theorem inTry_afterAll (f : Frame) (ps : List Tree) : (f.afterAll ps).inTry = f.inTry := by
  induction ps generalizing f with
  | nil => rfl
  | cons p ps ih =>
      rw [afterAll_cons, ih]
      cases p <;> rfl

theorem condition_afterAll (f : Frame) (ps : List Tree) :
    (f.afterAll ps).condition = f.condition := by
  induction ps generalizing f with
  | nil => rfl
  | cons p ps ih =>
      rw [afterAll_cons, ih]
      cases p <;> rfl

theorem lineSensitive_afterAll (f : Frame) (ps : List Tree) :
    (f.afterAll ps).lineSensitive = f.lineSensitive := by
  induction ps generalizing f with
  | nil => rfl
  | cons p ps ih =>
      rw [afterAll_cons, ih]
      cases p <;> rfl

theorem hasParts_after (f : Frame) (p : Tree) : (f.after p).hasParts = true := by
  cases p <;> rfl

theorem hasParts_afterAll (f : Frame) (ps : List Tree) :
    (f.afterAll ps).hasParts = (f.hasParts || !ps.isEmpty) := by
  induction ps generalizing f with
  | nil => simp [afterAll]
  | cons p ps ih => simp [afterAll_cons, ih, hasParts_after]

theorem afterAll_eq (f : Frame) (ps : List Tree) :
    f.afterAll ps =
      ⟨f.inTry, f.condition, f.lineSensitive, (f.afterAll ps).depth,
        f.hasParts || !ps.isEmpty⟩ := by
  rw [← inTry_afterAll f ps, ← condition_afterAll f ps, ← lineSensitive_afterAll f ps,
    ← hasParts_afterAll f ps]

theorem depth_afterAll_snoc (f : Frame) (parts : List Tree) (x : Tree) :
    (f.afterAll (parts ++ [x])).depth = ((f.afterAll parts).after x).depth := by
  rw [Frame.afterAll_append]
  rfl

end Frame

theorem formsParts_append (f : Frame) (previous : Option Token) (next : Token)
    (ps qs : List Tree) :
    FormsParts f previous next (ps ++ qs) ↔
      FormsParts f previous (firstOf qs next) ps ∧
        FormsParts (f.afterAll ps) (lastOf previous ps) next qs := by
  induction ps generalizing f previous with
  | nil => simp [FormsParts, Frame.afterAll]
  | cons p ps ih =>
      rw [List.cons_append, FormsParts, FormsParts, ih, firstOf_append, Frame.afterAll_cons,
        lastOf_cons previous p ps, and_assoc]

def FormsItems (previous : Option Token) (next : Token) : List Tree → Prop
  | [] => True
  | c :: cs => FormsItem previous (firstOf cs next) c ∧ FormsItems (lastOf previous [c]) next cs

theorem formsItems_append (previous : Option Token) (next : Token) (cs ds : List Tree) :
    FormsItems previous next (cs ++ ds) ↔
      FormsItems previous (firstOf ds next) cs ∧ FormsItems (lastOf previous cs) next ds := by
  induction cs generalizing previous with
  | nil => simp [FormsItems]
  | cons c cs ih =>
      rw [List.cons_append, FormsItems, FormsItems, ih, firstOf_append,
        lastOf_cons previous c cs, and_assoc]

/-!
# Parts, items and clauses one by one

A shape for each way in which a rule is followed names the parts of the tree and what is asked of them.
-/

inductive PartShape (f : Frame) (previous : Option Token) (next : Token) : Tree → Prop where
  | leaf (l : Leaf) (hstays : f.ends previous l.token = false) (htakes : f.Takes l.token) :
      PartShape f previous next (.leaf l)
  | block (n : Nat) (cs : List Tree) (hstays : f.ends previous (firstOf cs next) = false)
      (hbraces : FormsBraces cs) : PartShape f previous next (.node n .block cs)
  | bare (n m : Nat) (keyword : Leaf) (parts : List Tree)
      (hstays : f.ends previous keyword.token = false)
      (htry : keyword.token.isKeyword "try" = true) (hne : parts ≠ [])
      (hparts : FormsParts f.operand (some keyword.token) next parts)
      (hends : (f.operand.afterAll parts).ends (lastOf (some keyword.token) parts) next = true) :
      PartShape f previous next (.node n .tryExpression [.leaf keyword, .node m .expression parts])
  | marked (n m : Nat) (keyword mark : Leaf) (parts : List Tree)
      (hstays : f.ends previous keyword.token = false)
      (htry : keyword.token.isKeyword "try" = true) (hmark : mark.token.kind.marksTry = true)
      (hne : parts ≠ []) (hparts : FormsParts f.operand (some mark.token) next parts)
      (hends : (f.operand.afterAll parts).ends (lastOf (some mark.token) parts) next = true) :
      PartShape f previous next
        (.node n .tryExpression [.leaf keyword, .leaf mark, .node m .expression parts])

theorem shape_of_formsPart {f : Frame} {previous : Option Token} {next : Token} {t : Tree}
    (h : FormsPart f previous next t) : PartShape f previous next t := by
  unfold FormsPart at h
  split at h
  · exact .leaf _ h.1 h.2
  · exact .block _ _ h.1 h.2
  · rcases h with ⟨hstays, htry, hne, hparts, hends⟩
    exact .bare _ _ _ _ hstays htry hne hparts hends
  · rcases h with ⟨hstays, htry, hmark, hne, hparts, hends⟩
    exact .marked _ _ _ _ _ hstays htry hmark hne hparts hends
  · cases h

inductive ItemShape (previous : Option Token) (next : Token) : Tree → Prop where
  | bare (n : Nat) (content : Tree) (hnext : next.kind ≠ .semicolon)
      (hcontent : FormsContent false previous next content) :
      ItemShape previous next (.node n .item [content])
  | closed (n : Nat) (content : Tree) (semicolon : Leaf)
      (hsemicolon : semicolon.token.kind = .semicolon)
      (hcontent : FormsContent true previous semicolon.token content) :
      ItemShape previous next (.node n .item [content, .leaf semicolon])

theorem shape_of_formsItem {previous : Option Token} {next : Token} {t : Tree}
    (h : FormsItem previous next t) : ItemShape previous next t := by
  unfold FormsItem at h
  split at h
  · exact .bare _ _ h.1 h.2
  · exact .closed _ _ _ h.1 h.2
  · cases h

inductive ContentShape (mayBeEmpty : Bool) (previous : Option Token) (next : Token) :
    Tree → Prop where
  | statement (n : Nat) (parts : List Tree) (hempty : parts = [] → mayBeEmpty = true)
      (hdo : (firstOf parts next).isKeyword "do" = true → (secondOf parts next).kind ≠ .leftBrace)
      (hparts : FormsParts (Frame.statement (startsCondition (firstOf parts next))) previous next
        parts)
      (hends : ((Frame.statement (startsCondition (firstOf parts next))).afterAll parts).ends
        (lastOf previous parts) next = true) :
      ContentShape mayBeEmpty previous next (.node n .statement parts)
  | doStatement (n : Nat) (keyword : Leaf) (body : Tree) (clauses : List Tree)
      (hdo : keyword.token.isKeyword "do" = true) (hbody : FormsBlock body)
      (hclauses : FormsClauses clauses) (hnext : next.isKeyword "catch" = false) :
      ContentShape mayBeEmpty previous next
        (.node n .doStatement (.leaf keyword :: body :: clauses))

theorem shape_of_formsContent {mayBeEmpty : Bool} {previous : Option Token} {next : Token}
    {t : Tree} (h : FormsContent mayBeEmpty previous next t) :
    ContentShape mayBeEmpty previous next t := by
  unfold FormsContent at h
  split at h
  · exact .statement _ _ h.1 h.2.1 h.2.2.1 h.2.2.2
  · exact .doStatement _ _ _ _ h.1 h.2.1 h.2.2.1 h.2.2.2
  · cases h

inductive PatternShape : List Tree → Prop where
  | leaf (l : Leaf) (cs : List Tree) (hleft : l.token.kind ≠ .leftBrace)
      (hright : l.token.kind ≠ .rightBrace) (hend : l.token.kind ≠ .endOfFile)
      (hcs : FormsPattern cs) : PatternShape (.leaf l :: cs)
  | block (n : Nat) (cs : List Tree) (hbraces : FormsBraces cs) : PatternShape [.node n .block cs]

theorem shape_of_formsPattern {cs : List Tree} (h : FormsPattern cs) : PatternShape cs := by
  cases cs with
  | nil => simp [FormsPattern] at h
  | cons c cs =>
      cases c with
      | leaf l =>
          rw [FormsPattern] at h
          exact .leaf l cs h.1 h.2.1 h.2.2.1 h.2.2.2
      | node n k ds =>
          have hblock : FormsBlock (.node n k ds) ∧ cs = [] := by simpa [FormsPattern] using h
          rw [hblock.2]
          have hbraces := hblock.1
          unfold FormsBlock at hbraces
          split at hbraces
          · next heq =>
              cases heq
              exact .block n ds hbraces
          · cases hbraces

inductive ClausesShape : List Tree → Prop where
  | nil : ClausesShape []
  | clause (n : Nat) (keyword : Leaf) (cs clauses : List Tree)
      (hcatch : keyword.token.isKeyword "catch" = true) (hpattern : FormsPattern cs)
      (hclauses : FormsClauses clauses) :
      ClausesShape (.node n .catchClause (.leaf keyword :: cs) :: clauses)

theorem shape_of_formsClauses {clauses : List Tree} (h : FormsClauses clauses) :
    ClausesShape clauses := by
  unfold FormsClauses at h
  split at h
  · exact .nil
  · exact .clause _ _ _ _ h.1 h.2.1 h.2.2
  · cases h

inductive BodyShape (closing : TokenKind) (previous : Option Token) : List Tree → Prop where
  | last (l : Leaf) (hkind : l.token.kind = closing) : BodyShape closing previous [.leaf l]
  | item (c : Tree) (cs : List Tree) (hitem : FormsItem previous (firstOf cs nothing) c)
      (hcs : FormsBody closing (lastOf previous [c]) cs) : BodyShape closing previous (c :: cs)

theorem shape_of_formsBody {closing : TokenKind} {previous : Option Token} {cs : List Tree}
    (h : FormsBody closing previous cs) : BodyShape closing previous cs := by
  cases cs with
  | nil => simp [FormsBody] at h
  | cons c cs =>
      cases c with
      | leaf l =>
          have hl : l.token.kind = closing ∧ cs = [] := by simpa [FormsBody] using h
          rw [hl.2]
          exact .last l hl.1
      | node n k ds =>
          have hbody : FormsItem previous (firstOf cs nothing) (.node n k ds) ∧
              FormsBody closing (lastOf previous [.node n k ds]) cs := by
            simpa [FormsBody] using h
          exact .item _ cs hbody.1 hbody.2

theorem formsBody_last {closing : TokenKind} (previous : Option Token) {l : Leaf}
    (h : l.token.kind = closing) : FormsBody closing previous [.leaf l] := by
  rw [FormsBody]
  exact ⟨h, rfl⟩

theorem formsBody_cons {closing : TokenKind} {previous : Option Token} {c : Tree} {cs : List Tree}
    (hitem : FormsItem previous (firstOf cs nothing) c)
    (hcs : FormsBody closing (lastOf previous [c]) cs) : FormsBody closing previous (c :: cs) := by
  cases shape_of_formsItem hitem <;> simpa [FormsBody] using ⟨hitem, hcs⟩

theorem formsBody_iff (closing : TokenKind) (previous : Option Token) (cs : List Tree) :
    FormsBody closing previous cs ↔
      ∃ items l, cs = items ++ [.leaf l] ∧ l.token.kind = closing ∧
        FormsItems previous l.token items := by
  constructor
  · intro h
    induction cs generalizing previous with
    | nil => cases shape_of_formsBody h
    | cons c cs ih =>
        cases shape_of_formsBody h with
        | last l hkind => exact ⟨[], l, rfl, hkind, trivial⟩
        | item c cs hitem hcs =>
            rcases ih _ hcs with ⟨items, l, rfl, hkind, hitems⟩
            rw [firstOf_append] at hitem
            exact ⟨c :: items, l, rfl, hkind, hitem, hitems⟩
  · rintro ⟨items, l, rfl, hkind, hitems⟩
    induction items generalizing previous with
    | nil => exact formsBody_last previous hkind
    | cons c items ih =>
        apply formsBody_cons _ (ih _ hitems.2)
        rw [firstOf_append]
        exact hitems.1

theorem formsPattern_block {n : Nat} {cs : List Tree} (h : FormsBraces cs) :
    FormsPattern [.node n .block cs] := by
  simpa [FormsPattern, FormsBlock] using h

theorem kind_of_isKeyword {t : Token} {word : String} (h : t.isKeyword word = true) :
    t.kind = .keyword := by
  rw [Token.isKeyword, Bool.and_eq_true, beq_iff_eq] at h
  exact h.1

theorem starts_of_formsBraces {cs : List Tree} (h : FormsBraces cs) :
    ∃ left rest, cs = .leaf left :: rest ∧ left.token.kind = .leftBrace := by
  unfold FormsBraces at h
  split at h
  · exact ⟨_, _, rfl, h.1⟩
  · cases h

theorem leaves_ne_nil_of_formsPart {f : Frame} {previous : Option Token} {next : Token} {x : Tree}
    (h : FormsPart f previous next x) : x.leaves ≠ [] := by
  cases shape_of_formsPart h with
  | block n cs hstays hbraces =>
      rcases starts_of_formsBraces hbraces with ⟨left, rest, rfl, _⟩
      simp
  | _ => simp

theorem firstOf_node_not_do {f : Frame} {previous : Option Token} {next : Token} {n : Nat}
    {k : NodeKind} {cs : List Tree} (h : FormsPart f previous next (.node n k cs)) :
    (firstOf [.node n k cs] next).isKeyword "do" = false := by
  have htry : ∀ t : Token, t.isKeyword "try" = true → t.isKeyword "do" = false := by
    intro t ht
    simp only [Token.isKeyword, Bool.and_eq_true, beq_iff_eq] at ht
    simp [Token.isKeyword, ht.2]
  cases shape_of_formsPart h with
  | block n cs hstays hbraces =>
      rcases starts_of_formsBraces hbraces with ⟨left, rest, rfl, hleft⟩
      show left.token.isKeyword "do" = false
      rw [Token.isKeyword, hleft]
      rfl
  | bare n m keyword parts hstays hkeyword => exact htry _ hkeyword
  | marked n m keyword mark parts hstays hkeyword => exact htry _ hkeyword

theorem leavesOf_ne_nil_of_formsParts {f : Frame} {previous : Option Token} {next : Token}
    {parts : List Tree} (hparts : parts ≠ []) (h : FormsParts f previous next parts) :
    leavesOf parts ≠ [] := by
  cases parts with
  | nil => exact absurd rfl hparts
  | cons x parts =>
      rw [FormsParts] at h
      have hx := leaves_ne_nil_of_formsPart h.1
      intro hnil
      rw [leavesOf_cons, List.append_eq_nil_iff] at hnil
      exact hx hnil.1

theorem formsParts_snoc {f : Frame} {previous : Option Token} {next : Token} {parts : List Tree}
    {x : Tree} (h : FormsParts f previous (firstOf [x] next) parts)
    (hx : FormsPart (f.afterAll parts) (lastOf previous parts) next x) :
    FormsParts f previous next (parts ++ [x]) := by
  rw [formsParts_append]
  refine ⟨h, ?_⟩
  rw [FormsParts, FormsParts]
  exact ⟨hx, trivial⟩

theorem formsItems_snoc {previous : Option Token} {next : Token} {items : List Tree} {item : Tree}
    (h : FormsItems previous (firstOf [item] next) items)
    (hitem : FormsItem (lastOf previous items) next item) :
    FormsItems previous next (items ++ [item]) := by
  rw [formsItems_append]
  refine ⟨h, ?_⟩
  rw [FormsItems, FormsItems]
  exact ⟨hitem, trivial⟩

theorem formsContent_mayBeEmpty {previous : Option Token} {next : Token} {content : Tree}
    (h : FormsContent false previous next content) : FormsContent true previous next content := by
  cases shape_of_formsContent h with
  | statement n parts hempty hdo hparts hends =>
      rw [FormsContent]
      exact ⟨fun _ => rfl, hdo, hparts, hends⟩
  | doStatement n keyword body clauses hdo hbody hclauses hnext =>
      rw [FormsContent]
      exact ⟨hdo, hbody, hclauses, hnext⟩

theorem formsClauses_cons (c : Tree) (clauses : List Tree) :
    FormsClauses (c :: clauses) ↔ FormsClauses [c] ∧ FormsClauses clauses := by
  cases c with
  | leaf l => simp [FormsClauses]
  | node n k cs =>
      cases k with
      | catchClause =>
          cases cs with
          | nil => simp [FormsClauses]
          | cons d cs => cases d <;> simp [FormsClauses, and_assoc]
      | _ => simp [FormsClauses]

theorem formsClauses_append (clauses clauses' : List Tree) :
    FormsClauses (clauses ++ clauses') ↔ FormsClauses clauses ∧ FormsClauses clauses' := by
  induction clauses with
  | nil => simp [FormsClauses]
  | cons c clauses ih =>
      rw [List.cons_append, formsClauses_cons, ih, formsClauses_cons c clauses, and_assoc]

end Grammar
end ForceTry

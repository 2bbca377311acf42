import ForceTry.Proofs.Grammar.Neighbours

/-!
# The surface of a phrase

What a statement or an operand shows outside its nested blocks: its tokens in source order, and each
block as one piece.  A `try` lies flat in the surface, although its operand is a phrase of its own with
its own count of brackets.  This module follows the reader from the start of a phrase to each piece of
its surface and says in which phrase that piece is read.
-/

namespace ForceTry

namespace Tree

mutual

def surface : Tree → List Tree
  | .leaf l => [.leaf l]
  | .node n k cs => if k = .block then [.node n k cs] else surfaceOf cs

def surfaceOf : List Tree → List Tree
  | [] => []
  | c :: cs => surface c ++ surfaceOf cs

end

def isOpening : Tree → Bool
  | .leaf l => l.token.kind.opens
  | .node _ _ _ => false

def isClosing : Tree → Bool
  | .leaf l => l.token.kind.closes
  | .node _ _ _ => false

/-- The number of brackets opened in some pieces. -/
def opened (pieces : List Tree) : Nat := pieces.countP isOpening

/-- The number of brackets closed in some pieces. -/
def closed (pieces : List Tree) : Nat := pieces.countP isClosing

@[simp] theorem surface_leaf (l : Leaf) : (Tree.leaf l).surface = [.leaf l] := rfl

@[simp] theorem surface_block (n : Nat) (cs : List Tree) :
    (Tree.node n .block cs).surface = [.node n .block cs] := rfl

theorem surface_node {k : NodeKind} (hk : k ≠ .block) (n : Nat) (cs : List Tree) :
    (Tree.node n k cs).surface = surfaceOf cs := by
  rw [surface, if_neg hk]

@[simp] theorem surfaceOf_nil : surfaceOf [] = [] := rfl

@[simp] theorem surfaceOf_cons (c : Tree) (cs : List Tree) :
    surfaceOf (c :: cs) = c.surface ++ surfaceOf cs := rfl

theorem surface_try (n m : Nat) (keyword : Leaf) (parts : List Tree) :
    (Tree.node n .tryExpression [.leaf keyword, .node m .expression parts]).surface =
      .leaf keyword :: surfaceOf parts := by
  rw [surface_node (by decide), surfaceOf_cons, surfaceOf_cons, surface_node (by decide),
    surfaceOf_nil, List.append_nil]
  rfl

theorem surface_markedTry (n m : Nat) (keyword mark : Leaf) (parts : List Tree) :
    (Tree.node n .tryExpression [.leaf keyword, .leaf mark, .node m .expression parts]).surface =
      .leaf keyword :: .leaf mark :: surfaceOf parts := by
  rw [surface_node (by decide), surfaceOf_cons, surfaceOf_cons, surfaceOf_cons,
    surface_node (by decide), surfaceOf_nil, List.append_nil]
  rfl

mutual

theorem leavesOf_surface (t : Tree) : leavesOf t.surface = t.leaves := by
  cases t with
  | leaf l => rfl
  | node n k cs =>
      rw [surface]
      split
      · rw [leavesOf_cons, leavesOf_nil, List.append_nil]
      · exact leavesOf_surfaceOf cs
termination_by structural t

theorem leavesOf_surfaceOf (cs : List Tree) : leavesOf (surfaceOf cs) = leavesOf cs := by
  cases cs with
  | nil => rfl
  | cons c cs => rw [surfaceOf_cons, leavesOf_append, leavesOf_surface c, leavesOf_surfaceOf cs,
      leavesOf_cons]
termination_by structural cs

end

theorem lastOf_surface (previous : Option Token) (t : Tree) :
    lastOf previous t.surface = lastOf previous [t] := by
  rw [lastOf, lastOf, leavesOf_surface, leavesOf_cons, leavesOf_nil, List.append_nil]

theorem firstOf_surfaceOf (cs : List Tree) (next : Token) :
    firstOf (surfaceOf cs) next = firstOf cs next := by
  rw [firstOf, firstOf, leavesOf_surfaceOf]

theorem opened_append (ps qs : List Tree) : opened (ps ++ qs) = opened ps + opened qs :=
  List.countP_append

theorem closed_append (ps qs : List Tree) : closed (ps ++ qs) = closed ps + closed qs :=
  List.countP_append

end Tree

namespace Grammar

open ForceTry.Parser ForceTry.Tree

/-!
# Brackets
-/

theorem opened_leaf (l : Leaf) (ps : List Tree) :
    opened (.leaf l :: ps) = opened ps + if l.token.kind.opens then 1 else 0 :=
  List.countP_cons

theorem closed_leaf (l : Leaf) (ps : List Tree) :
    closed (.leaf l :: ps) = closed ps + if l.token.kind.closes then 1 else 0 :=
  List.countP_cons

theorem opened_node (n : Nat) (k : NodeKind) (cs ps : List Tree) :
    opened (.node n k cs :: ps) = opened ps := List.countP_cons_of_neg (by simp [isOpening])

theorem closed_node (n : Nat) (k : NodeKind) (cs ps : List Tree) :
    closed (.node n k cs :: ps) = closed ps := List.countP_cons_of_neg (by simp [isClosing])

theorem depth_after_leaf {f : Frame} {l : Leaf} (h : l.token.kind.closes = true → 0 < f.depth)
    (ps : List Tree) :
    (f.after (.leaf l)).depth + opened ps + closed (.leaf l :: ps) =
      f.depth + opened (.leaf l :: ps) + closed ps := by
  rw [opened_leaf, closed_leaf, Frame.after, Frame.depthAfter]
  cases hopens : l.token.kind.opens with
  | true =>
      have hcloses : l.token.kind.closes = false := by
        cases hkind : l.token.kind <;> rw [hkind] at hopens <;> first | rfl | cases hopens
      rw [hcloses]
      simp
      omega
  | false =>
      cases hcloses : l.token.kind.closes with
      | true =>
          have hpos := h hcloses
          simp
          omega
      | false =>
          simp

theorem opened_of_not_bracket {l : Leaf} (h : l.token.kind.opens = false) (ps : List Tree) :
    opened (.leaf l :: ps) = opened ps := by
  rw [opened_leaf, h]
  rfl

theorem closed_of_not_bracket {l : Leaf} (h : l.token.kind.closes = false) (ps : List Tree) :
    closed (.leaf l :: ps) = closed ps := by
  rw [closed_leaf, h]
  rfl

theorem not_bracket_of_keyword {t : Token} {word : String} (h : t.isKeyword word = true) :
    t.kind.opens = false ∧ t.kind.closes = false := by
  rw [Token.isKeyword, Bool.and_eq_true, beq_iff_eq] at h
  rw [h.1]
  exact ⟨rfl, rfl⟩

theorem not_bracket_of_mark {t : Token} (h : t.kind.marksTry = true) :
    t.kind.opens = false ∧ t.kind.closes = false := by
  cases hkind : t.kind <;> rw [hkind] at h <;> first | exact ⟨rfl, rfl⟩ | cases h

theorem balanced_of_ends {f : Frame} {previous : Option Token} {next : Token} {parts ps : List Tree}
    (hends : (f.operand.afterAll parts).ends previous next = true)
    (hdepth : (f.operand.afterAll parts).depth + closed ps = f.operand.depth + opened ps) :
    closed ps = opened ps := by
  rw [depth_of_ends hends, Nat.zero_add] at hdepth
  exact hdepth.trans (Nat.zero_add _)

mutual

theorem depth_after_surface {f : Frame} {previous : Option Token} {next : Token} {t : Tree}
    (h : FormsPart f previous next t) :
    (f.after t).depth + closed t.surface = f.depth + opened t.surface := by
  cases shape_of_formsPart h with
  | leaf l hstays htakes => exact depth_after_leaf htakes.2.2.2.2 []
  | block n cs =>
      rw [surface_block, opened_node, closed_node]
      rfl
  | bare n m keyword parts hstays htry hne hparts hends =>
      have hbracket := not_bracket_of_keyword htry
      rw [surface_try, opened_of_not_bracket hbracket.1, closed_of_not_bracket hbracket.2,
        balanced_of_ends hends (depth_afterAll_surface hparts)]
      rfl
  | marked n m keyword mark parts hstays htry hmark hne hparts hends =>
      have hbracket := not_bracket_of_keyword htry
      have hbracket' := not_bracket_of_mark hmark
      rw [surface_markedTry, opened_of_not_bracket hbracket.1, closed_of_not_bracket hbracket.2,
        opened_of_not_bracket hbracket'.1, closed_of_not_bracket hbracket'.2,
        balanced_of_ends hends (depth_afterAll_surface hparts)]
      rfl
termination_by sizeOf t

theorem depth_afterAll_surface {f : Frame} {previous : Option Token} {next : Token}
    {parts : List Tree} (h : FormsParts f previous next parts) :
    (f.afterAll parts).depth + closed (surfaceOf parts) = f.depth + opened (surfaceOf parts) := by
  cases parts with
  | nil => rfl
  | cons c cs =>
      rw [FormsParts] at h
      have hc := depth_after_surface h.1
      have hcs := depth_afterAll_surface h.2
      rw [Frame.afterAll_cons, surfaceOf_cons, opened_append, closed_append]
      omega
termination_by sizeOf parts

end

/-!
# From the start of a phrase to a piece
-/

/-- Behind `previous` the reader is in the phrase `f`; some pieces further it is in the phrase `g`, which
is the same one or an operand within it, and the last token is `last`. -/
inductive Reaches : Frame → Option Token → List Tree → Frame → Option Token → Prop where
  | here (f : Frame) (previous : Option Token) : Reaches f previous [] f previous
  | part {f g : Frame} {previous last : Option Token} {next : Token} {c : Tree} {pieces : List Tree}
      (hc : FormsPart f previous next c)
      (h : Reaches (f.after c) (lastOf previous [c]) pieces g last) :
      Reaches f previous (c.surface ++ pieces) g last
  | inside {f g : Frame} {previous last : Option Token} {keyword : Leaf} {pieces : List Tree}
      (hkeyword : keyword.token.isKeyword "try" = true)
      (h : Reaches f.operand (some keyword.token) pieces g last) :
      Reaches f previous (.leaf keyword :: pieces) g last
  | insideMarked {f g : Frame} {previous last : Option Token} {keyword mark : Leaf}
      {pieces : List Tree} (hkeyword : keyword.token.isKeyword "try" = true)
      (hmark : mark.token.kind.marksTry = true)
      (h : Reaches f.operand (some mark.token) pieces g last) :
      Reaches f previous (.leaf keyword :: .leaf mark :: pieces) g last

namespace Reaches

variable {f g : Frame} {previous last : Option Token} {pieces : List Tree}

theorem condition (h : Reaches f previous pieces g last) : g.condition = f.condition := by
  induction h with
  | here f previous => rfl
  | @part f g previous last next c pieces hc h ih =>
      rw [ih]
      cases c <;> rfl
  | inside hkeyword h ih => exact ih
  | insideMarked hkeyword hmark h ih => exact ih

theorem inTry (h : Reaches f previous pieces g last) (htry : f.inTry = true) : g.inTry = true := by
  induction h with
  | here f previous => exact htry
  | @part f g previous last next c pieces hc h ih =>
      apply ih
      cases c <;> exact htry
  | inside hkeyword h ih => exact ih rfl
  | insideMarked hkeyword hmark h ih => exact ih rfl

theorem last_eq (h : Reaches f previous pieces g last) : last = lastOf previous pieces := by
  induction h with
  | here f previous => rw [lastOf_nil]
  | part hc h ih => rw [ih, lastOf_append, lastOf_surface]
  | inside hkeyword h ih => rw [ih, lastOf_cons _ (.leaf _), lastOf_leaf]
  | insideMarked hkeyword hmark h ih =>
      rw [ih, lastOf_cons _ (.leaf _), lastOf_leaf, lastOf_cons _ (.leaf _), lastOf_leaf]

theorem operand_depth {outer : Nat} (hdepth : f.operand.depth + opened pieces =
      closed pieces + outer + g.depth)
    (hline : g.lineSensitive = (f.operand.lineSensitive && outer == 0)) :
    f.depth + opened pieces = closed pieces + (f.depth + outer) + g.depth ∧
      g.lineSensitive = (f.lineSensitive && f.depth + outer == 0) := by
  have hzero : f.operand.depth = 0 := rfl
  have hinner : f.operand.lineSensitive = (f.lineSensitive && f.depth == 0) := rfl
  constructor
  · omega
  · rw [hline, hinner]
    cases f.lineSensitive with
    | false => rfl
    | true =>
        cases f.depth with
        | zero => simp
        | succ d => simp

/-- Of the brackets open in the whole phrase some are open around the operand that is reached, and a new
line ends that operand if there are none of those. -/
theorem depth (h : Reaches f previous pieces g last) :
    ∃ outer, f.depth + opened pieces = closed pieces + outer + g.depth ∧
      g.lineSensitive = (f.lineSensitive && outer == 0) := by
  induction h with
  | here f previous =>
      refine ⟨0, ?_, ?_⟩
      · exact (Nat.zero_add f.depth).symm
      · rw [beq_self_eq_true, Bool.and_true]
  | @part f g previous last next c pieces hc h ih =>
      rcases ih with ⟨outer, hdepth, hline⟩
      have hbalance := depth_after_surface hc
      refine ⟨outer, ?_, ?_⟩
      · rw [opened_append, closed_append]
        omega
      · rw [hline, Frame.lineSensitive_after]
  | inside hkeyword h ih =>
      rcases ih with ⟨outer, hdepth, hline⟩
      have hbracket := not_bracket_of_keyword hkeyword
      rw [opened_of_not_bracket hbracket.1, closed_of_not_bracket hbracket.2]
      exact ⟨_, operand_depth hdepth hline⟩
  | insideMarked hkeyword hmark h ih =>
      rcases ih with ⟨outer, hdepth, hline⟩
      have hbracket := not_bracket_of_keyword hkeyword
      have hbracket' := not_bracket_of_mark hmark
      rw [opened_of_not_bracket hbracket.1, closed_of_not_bracket hbracket.2,
        opened_of_not_bracket hbracket'.1, closed_of_not_bracket hbracket'.2]
      exact ⟨_, operand_depth hdepth hline⟩

/-- A phrase without parts has been reached only at the start or directly behind a `try`. -/
theorem start (h : Reaches f previous pieces g last) (hparts : g.hasParts = false) :
    pieces = [] ∧ f.hasParts = false ∨
      ∃ t ∈ last, t.isKeyword "try" = true ∨ t.kind.marksTry = true := by
  induction h with
  | here f previous => exact .inl ⟨rfl, hparts⟩
  | @part f g previous last next c pieces hc h ih =>
      rcases ih hparts with ⟨_, hafter⟩ | hlast
      · rw [Frame.hasParts_after] at hafter
        cases hafter
      · exact .inr hlast
  | @inside f g previous last keyword pieces hkeyword h ih =>
      rcases ih hparts with ⟨rfl, _⟩ | hlast
      · rw [h.last_eq, lastOf_nil]
        exact .inr ⟨keyword.token, rfl, .inl hkeyword⟩
      · exact .inr hlast
  | @insideMarked f g previous last keyword mark pieces hkeyword hmark h ih =>
      rcases ih hparts with ⟨rfl, _⟩ | hlast
      · rw [h.last_eq, lastOf_nil]
        exact .inr ⟨mark.token, rfl, .inr hmark⟩
      · exact .inr hlast

end Reaches

/-!
# The pieces of a phrase
-/

inductive Piece (f : Frame) (previous : Option Token) : Tree → Prop where
  | token (l : Leaf) (hstays : f.ends previous l.token = false) (htakes : f.Takes l.token) :
      Piece f previous (.leaf l)
  | keyword (l : Leaf) (hstays : f.ends previous l.token = false)
      (hkeyword : l.token.isKeyword "try" = true) : Piece f previous (.leaf l)
  | mark (l : Leaf) (hmark : l.token.kind.marksTry = true)
      (hkeyword : ∃ t ∈ previous, t.isKeyword "try" = true) : Piece f previous (.leaf l)
  | block (n : Nat) (cs : List Tree) (hstays : ∀ next, f.ends previous (firstOf cs next) = false)
      (hbraces : FormsBraces cs) : Piece f previous (.node n .block cs)

theorem piece_of_block {f : Frame} {previous : Option Token} {next : Token} {n : Nat}
    {cs : List Tree} (hstays : f.ends previous (firstOf cs next) = false) (hbraces : FormsBraces cs) :
    Piece f previous (.node n .block cs) := by
  refine .block n cs ?_ hbraces
  rcases (formsBraces_iff cs).mp hbraces with ⟨left, items, right, rfl, _⟩
  exact fun _ => hstays

mutual

theorem piece_of_formsPart {f : Frame} {previous : Option Token} {next : Token} {t : Tree}
    (h : FormsPart f previous next t) {front back : List Tree} {x : Tree}
    (hsurface : t.surface = front ++ x :: back) :
    ∃ g last, Reaches f previous front g last ∧ Piece g last x := by
  cases shape_of_formsPart h with
  | leaf l hstays htakes =>
      rcases List.append_eq_singleton_iff.mp hsurface.symm with ⟨rfl, hx⟩ | ⟨_, hx⟩
      · cases hx
        exact ⟨f, previous, .here f previous, .token l hstays htakes⟩
      · cases hx
  | block n cs hstays hbraces =>
      rcases List.append_eq_singleton_iff.mp hsurface.symm with ⟨rfl, hx⟩ | ⟨_, hx⟩
      · cases hx
        exact ⟨f, previous, .here f previous, piece_of_block hstays hbraces⟩
      · cases hx
  | bare n m keyword parts hstays htry hne hparts =>
      rw [surface_try] at hsurface
      rcases List.cons_eq_append_iff.mp hsurface with ⟨rfl, hx⟩ | ⟨front, rfl, hrest⟩
      · cases hx
        exact ⟨f, previous, .here f previous, .keyword keyword hstays htry⟩
      · rcases piece_of_formsParts hparts hrest with ⟨g, last, hreaches, hpiece⟩
        exact ⟨g, last, .inside htry hreaches, hpiece⟩
  | marked n m keyword mark parts hstays htry hmark hne hparts =>
      rw [surface_markedTry] at hsurface
      rcases List.cons_eq_append_iff.mp hsurface with ⟨rfl, hx⟩ | ⟨front, rfl, hrest⟩
      · cases hx
        exact ⟨f, previous, .here f previous, .keyword keyword hstays htry⟩
      rcases List.cons_eq_append_iff.mp hrest with ⟨rfl, hx⟩ | ⟨front, rfl, hrest'⟩
      · cases hx
        exact ⟨f.operand, some keyword.token, .inside htry (.here _ _),
          .mark mark hmark ⟨keyword.token, rfl, htry⟩⟩
      · rcases piece_of_formsParts hparts hrest' with ⟨g, last, hreaches, hpiece⟩
        exact ⟨g, last, .insideMarked htry hmark hreaches, hpiece⟩
termination_by sizeOf t

/-- Every piece of a phrase is read in the phrase or in an operand within it. -/
theorem piece_of_formsParts {f : Frame} {previous : Option Token} {next : Token} {parts : List Tree}
    (h : FormsParts f previous next parts) {front back : List Tree} {x : Tree}
    (hsurface : surfaceOf parts = front ++ x :: back) :
    ∃ g last, Reaches f previous front g last ∧ Piece g last x := by
  cases parts with
  | nil =>
      rw [surfaceOf_nil] at hsurface
      exact absurd hsurface.symm (List.append_ne_nil_of_right_ne_nil front (List.cons_ne_nil x back))
  | cons c cs =>
      rw [FormsParts] at h
      rw [surfaceOf_cons] at hsurface
      rcases List.append_eq_append_iff.mp hsurface with ⟨rest, rfl, hrest⟩ | ⟨rest, hc, hrest⟩
      · rcases piece_of_formsParts h.2 hrest with ⟨g, last, hreaches, hpiece⟩
        exact ⟨g, last, .part h.1 hreaches, hpiece⟩
      · rcases List.cons_eq_append_iff.mp hrest with ⟨rfl, hcs⟩ | ⟨rest, rfl, _⟩
        · have hcs' : surfaceOf cs = [] ++ x :: back := hcs
          rcases piece_of_formsParts h.2 hcs' with ⟨g, last, hreaches, hpiece⟩
          have hpart := Reaches.part h.1 hreaches
          rw [hc, List.append_nil, List.append_nil] at hpart
          exact ⟨g, last, hpart, hpiece⟩
        · exact piece_of_formsPart h.1 hc
termination_by sizeOf parts

end

theorem closed_le_of_formsParts {f : Frame} {previous : Option Token} {next : Token}
    {parts : List Tree} (h : FormsParts f previous next parts) (hdepth : f.depth = 0)
    {front back : List Tree} (hsurface : surfaceOf parts = front ++ back) :
    closed front ≤ opened front := by
  cases back with
  | nil =>
      have hcount := depth_afterAll_surface h
      rw [hsurface, List.append_nil] at hcount
      omega
  | cons x back =>
      rcases piece_of_formsParts h hsurface with ⟨g, last, hreaches, _⟩
      rcases hreaches.depth with ⟨outer, hcount, _⟩
      omega

/-!
# The tries of a phrase
-/

theorem directNodes_try (n m : Nat) (keyword : Leaf) (parts : List Tree) :
    (Tree.node n .tryExpression [.leaf keyword, .node m .expression parts]).directNodes =
      .node n .tryExpression [.leaf keyword, .node m .expression parts] ::
        .node m .expression parts :: directNodesOf parts :=
  congrArg (List.cons _) (List.append_nil _)

theorem directNodes_markedTry (n m : Nat) (keyword mark : Leaf) (parts : List Tree) :
    (Tree.node n .tryExpression
        [.leaf keyword, .leaf mark, .node m .expression parts]).directNodes =
      .node n .tryExpression [.leaf keyword, .leaf mark, .node m .expression parts] ::
        .node m .expression parts :: directNodesOf parts :=
  congrArg (List.cons _) (List.append_nil _)

mutual

theorem try_of_formsPart {f : Frame} {previous : Option Token} {next : Token} {t : Tree}
    (h : FormsPart f previous next t) (hblock : t.isKind .block = false) {m : Tree}
    (hm : m ∈ t.directNodes) (htry : m.isKind .tryExpression = true) :
    ∃ front back g last, t.surface = front ++ m.surface ++ back ∧
      Reaches f previous front g last ∧ FormsPart g last (firstOf back next) m := by
  have hforms := h
  cases shape_of_formsPart h with
  | leaf => cases hm
  | block => cases hblock
  | bare n k keyword parts hstays hkeyword hne hparts =>
      rw [directNodes_try] at hm
      rcases List.mem_cons.mp hm with rfl | hm
      · exact ⟨[], [], f, previous, (List.append_nil _).symm, .here f previous, hforms⟩
      rcases List.mem_cons.mp hm with rfl | hm
      · cases htry
      rcases try_of_formsParts hparts hm htry with ⟨front, back, g, last, hs, hreaches, hpart⟩
      refine ⟨.leaf keyword :: front, back, g, last, ?_, .inside hkeyword hreaches, hpart⟩
      rw [surface_try, hs]
      rfl
  | marked n k keyword mark parts hstays hkeyword hmark hne hparts =>
      rw [directNodes_markedTry] at hm
      rcases List.mem_cons.mp hm with rfl | hm
      · exact ⟨[], [], f, previous, (List.append_nil _).symm, .here f previous, hforms⟩
      rcases List.mem_cons.mp hm with rfl | hm
      · cases htry
      rcases try_of_formsParts hparts hm htry with ⟨front, back, g, last, hs, hreaches, hpart⟩
      refine ⟨.leaf keyword :: .leaf mark :: front, back, g, last, ?_,
        .insideMarked hkeyword hmark hreaches, hpart⟩
      rw [surface_markedTry, hs]
      rfl
termination_by sizeOf t

/-- Every `try` outside the blocks of a phrase is a part of the phrase or of an operand within it. -/
theorem try_of_formsParts {f : Frame} {previous : Option Token} {next : Token} {parts : List Tree}
    (h : FormsParts f previous next parts) {m : Tree} (hm : m ∈ directNodesOf parts)
    (htry : m.isKind .tryExpression = true) :
    ∃ front back g last, surfaceOf parts = front ++ m.surface ++ back ∧
      Reaches f previous front g last ∧ FormsPart g last (firstOf back next) m := by
  cases parts with
  | nil => cases hm
  | cons c cs =>
      rw [FormsParts] at h
      rw [directNodesOf] at hm
      rcases List.mem_append.mp hm with hm | hm
      · split at hm
        · cases hm
        · next hblock =>
            rw [Bool.not_eq_true] at hblock
            rcases try_of_formsPart h.1 hblock hm htry with
              ⟨front, back, g, last, hs, hreaches, hpart⟩
            refine ⟨front, back ++ surfaceOf cs, g, last, ?_, hreaches, ?_⟩
            · rw [surfaceOf_cons, hs, List.append_assoc]
            · rw [firstOf_append, firstOf_surfaceOf]
              exact hpart
      · rcases try_of_formsParts h.2 hm htry with ⟨front, back, g, last, hs, hreaches, hpart⟩
        refine ⟨c.surface ++ front, back, g, last, ?_, .part h.1 hreaches, hpart⟩
        rw [surfaceOf_cons, hs]
        simp only [List.append_assoc]
termination_by sizeOf parts

end

end Grammar
end ForceTry

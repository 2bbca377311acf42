import ForceTry.Proofs.Grammar.Run

/-!
# Well-formed trees

A tree is well formed when every node below it has the right children at its places: items where
statements stand and nowhere else, a statement or `do` in every item, a semicolon behind an empty
statement, and an operand behind every `try`.  Trees that follow the grammar are well formed.
-/

namespace ForceTry

namespace Place

def name : Place → String
  | .one s => s
  | .optional s => s
  | .many s => s

end Place

namespace Tree

def childrenAt (place : String) : Tree → List Tree
  | .leaf _ => []
  | .node _ k cs =>
      ((Place.deal k.places cs).filter fun entry => entry.1.name == place).flatMap Prod.snd

structure Fits (t : Tree) : Prop where
  statements : ∀ c ∈ t.childrenAt "statements", c.isKind .item = true
  elsewhere : ∀ place, place ≠ "statements" → ∀ c ∈ t.childrenAt place, c.isKind .item = false
  content : t.isKind .item = true → ∃ c, t.childrenAt "item" = [c] ∧
    (c.isKind .statement = true ∨ c.isKind .doStatement = true)
  semicolon : ∀ c ∈ t.childrenAt "item", c.isKind .statement = true → c.children = [] →
    ∃ l, t.childrenAt "semicolon" = [.leaf l] ∧ l.token.kind = .semicolon
  operand : t.isKind .tryExpression = true →
    ∃ c, t.childrenAt "expression" = [c] ∧ c.leaves ≠ []

def WellFormed (t : Tree) : Prop := t.isKind .sourceFile = true ∧ ∀ m ∈ t.nodes, m.Fits

/-!
# Children at places
-/

theorem mem_of_mem_deal {α : Type} {ps : List Place} {cs : List α} {entry : Place × List α}
    (h : entry ∈ Place.deal ps cs) : ∀ c ∈ entry.2, c ∈ cs := by
  induction ps generalizing cs with
  | nil => cases h
  | cons p ps ih =>
      intro c hc
      cases p with
      | one s =>
          rcases List.mem_cons.mp h with rfl | h
          · exact List.mem_of_mem_take hc
          · exact List.mem_of_mem_drop (ih h c hc)
      | optional s =>
          rcases List.mem_cons.mp h with rfl | h
          · exact List.mem_of_mem_take hc
          · exact List.mem_of_mem_drop (ih h c hc)
      | many s =>
          rcases List.mem_cons.mp h with rfl | h
          · exact List.mem_of_mem_take hc
          · exact List.mem_of_mem_drop (ih h c hc)

theorem mem_of_mem_childrenAt {n : Nat} {k : NodeKind} {cs : List Tree} {place : String}
    {c : Tree} (h : c ∈ (Tree.node n k cs).childrenAt place) : c ∈ cs := by
  rw [childrenAt, List.mem_flatMap] at h
  rcases h with ⟨entry, hentry, hc⟩
  exact mem_of_mem_deal (List.mem_filter.mp hentry).1 c hc

theorem childrenAt_eq_nil {n : Nat} {k : NodeKind} {cs : List Tree} {place : String}
    (h : place ∉ k.places.map Place.name) : (Tree.node n k cs).childrenAt place = [] := by
  have hnames : ∀ (ps : List Place) (cs : List Tree),
      (Place.deal ps cs).map (fun entry => entry.1.name) = ps.map Place.name := by
    intro ps
    induction ps with
    | nil =>
        intro cs
        rfl
    | cons p ps ih =>
        intro cs
        cases p <;> simp [Place.deal, ih]
  rw [childrenAt, List.flatMap_eq_nil_iff]
  intro entry hentry
  rw [List.mem_filter] at hentry
  have hname : entry.1.name ∈ k.places.map Place.name := by
    rw [← hnames k.places cs]
    exact List.mem_map_of_mem hentry.1
  rw [beq_iff_eq.mp hentry.2] at hname
  exact absurd hname h

theorem childrenAt_block (n : Nat) (l r : Leaf) (items : List Tree) (place : String) :
    (Tree.node n .block (.leaf l :: (items ++ [.leaf r]))).childrenAt place =
      if place = "left_brace" then [.leaf l] else if place = "statements" then items
      else if place = "right_brace" then [.leaf r] else [] := by
  have hdeal : Place.deal NodeKind.block.places (.leaf l :: (items ++ [Tree.leaf r])) =
      [(.one "left_brace", [.leaf l]), (.many "statements", items),
        (.one "right_brace", [.leaf r])] := by
    have hone : Place.countOne [.one "right_brace"] = 1 := rfl
    simp [NodeKind.places, Place.deal, hone]
  rw [childrenAt, hdeal]
  split
  · next h =>
      subst h
      rfl
  split
  · next h =>
      subst h
      simp [Place.name]
  split
  · next h =>
      subst h
      rfl
  next hleft hstatements hright =>
    simp [Place.name, Ne.symm hleft, Ne.symm hstatements, Ne.symm hright]

theorem childrenAt_sourceFile (n : Nat) (r : Leaf) (items : List Tree) (place : String) :
    (Tree.node n .sourceFile (items ++ [.leaf r])).childrenAt place =
      if place = "statements" then items
      else if place = "end_of_file" then [.leaf r] else [] := by
  have hdeal : Place.deal NodeKind.sourceFile.places (items ++ [Tree.leaf r]) =
      [(.many "statements", items), (.one "end_of_file", [.leaf r])] := by
    have hone : Place.countOne [.one "end_of_file"] = 1 := rfl
    simp [NodeKind.places, Place.deal, hone]
  rw [childrenAt, hdeal]
  split
  · next h =>
      subst h
      simp [Place.name]
  split
  · next h =>
      subst h
      rfl
  next hstatements hend =>
    simp [Place.name, Ne.symm hstatements, Ne.symm hend]

/-- A node without a place for statements fits when none of its children is an item. -/
theorem fits_of_plain {n : Nat} {k : NodeKind} {cs : List Tree}
    (hplaces : "statements" ∉ k.places.map Place.name) (hitem : k ≠ .item)
    (htry : k ≠ .tryExpression) (hcs : ∀ c ∈ cs, c.isKind .item = false) :
    (Tree.node n k cs).Fits := by
  have hkind : ∀ k', (Tree.node n k cs).isKind k' = true → k = k' := by
    intro k' h
    simpa [isKind, kind?] using h
  have hnoItem : "item" ∉ k.places.map Place.name := by
    cases k <;> first | exact absurd rfl hitem | decide
  constructor
  · intro c hc
    rw [childrenAt_eq_nil hplaces] at hc
    cases hc
  · intro place _ c hc
    exact hcs c (mem_of_mem_childrenAt hc)
  · intro h
    exact absurd (hkind _ h) hitem
  · intro c hc
    rw [childrenAt_eq_nil hnoItem] at hc
    cases hc
  · intro h
    exact absurd (hkind _ h) htry

theorem isKind_node (n : Nat) (k k' : NodeKind) (cs : List Tree) :
    (Tree.node n k cs).isKind k' = (k == k') := by
  simp [isKind, kind?]

theorem fits_block {n : Nat} {l r : Leaf} {items : List Tree}
    (hitems : ∀ c ∈ items, c.isKind .item = true) :
    (Tree.node n .block (.leaf l :: (items ++ [.leaf r]))).Fits := by
  constructor
  · intro c hc
    rw [childrenAt_block] at hc
    exact hitems c hc
  · intro place hplace c hc
    rw [childrenAt_block, if_neg hplace] at hc
    split at hc
    · rw [List.mem_singleton.mp hc]
      rfl
    split at hc
    · rw [List.mem_singleton.mp hc]
      rfl
    · cases hc
  · intro h
    cases h
  · intro c hc
    rw [childrenAt_eq_nil (by decide)] at hc
    cases hc
  · intro h
    cases h

theorem fits_sourceFile {n : Nat} {r : Leaf} {items : List Tree}
    (hitems : ∀ c ∈ items, c.isKind .item = true) :
    (Tree.node n .sourceFile (items ++ [.leaf r])).Fits := by
  constructor
  · intro c hc
    rw [childrenAt_sourceFile] at hc
    exact hitems c hc
  · intro place hplace c hc
    rw [childrenAt_sourceFile, if_neg hplace] at hc
    split at hc
    · rw [List.mem_singleton.mp hc]
      rfl
    · cases hc
  · intro h
    cases h
  · intro c hc
    rw [childrenAt_eq_nil (by decide)] at hc
    cases hc
  · intro h
    cases h

theorem fits_item {n : Nat} {content : Tree} (semicolon : Option Leaf)
    (hcontent : content.isKind .statement = true ∨ content.isKind .doStatement = true)
    (hsemicolon : ∀ l ∈ semicolon, l.token.kind = .semicolon)
    (hempty : content.isKind .statement = true → content.children = [] → semicolon ≠ none) :
    (Tree.node n .item (content :: (semicolon.map Tree.leaf).toList)).Fits := by
  have hnot : content.isKind .item = false := by
    cases content with
    | leaf l => rfl
    | node m k cs =>
        rw [isKind_node, isKind_node, beq_iff_eq, beq_iff_eq] at hcontent
        rcases hcontent with rfl | rfl <;> rfl
  have hitem : (Tree.node n .item (content :: (semicolon.map Tree.leaf).toList)).childrenAt
      "item" = [content] := by
    simp [childrenAt, NodeKind.places, Place.deal, Place.name]
  constructor
  · intro c hc
    rw [childrenAt_eq_nil (by decide)] at hc
    cases hc
  · intro place _ c hc
    rcases List.mem_cons.mp (mem_of_mem_childrenAt hc) with rfl | hc
    · exact hnot
    · cases semicolon with
      | none => cases hc
      | some l =>
          rw [List.mem_singleton.mp hc]
          rfl
  · intro _
    exact ⟨content, hitem, hcontent⟩
  · intro c hc hstatement hchildren
    rw [hitem, List.mem_singleton] at hc
    subst hc
    cases semicolon with
    | none => exact absurd rfl (hempty hstatement hchildren)
    | some l => exact ⟨l, rfl, hsemicolon l rfl⟩
  · intro h
    cases h

theorem fits_try {n m : Nat} {keyword : Leaf} (mark : Option Leaf) {parts : List Tree}
    (hparts : leavesOf parts ≠ []) :
    (Tree.node n .tryExpression
      (.leaf keyword :: ((mark.map Tree.leaf).toList ++ [.node m .expression parts]))).Fits := by
  have hexpression : (Tree.node n .tryExpression (.leaf keyword ::
      ((mark.map Tree.leaf).toList ++ [.node m .expression parts]))).childrenAt "expression" =
        [.node m .expression parts] := by
    have hone : Place.countOne [.one "expression"] = 1 := rfl
    simp [childrenAt, NodeKind.places, Place.deal, Place.name, hone]
  constructor
  · intro c hc
    rw [childrenAt_eq_nil (by decide)] at hc
    cases hc
  · intro place _ c hc
    have hmem := mem_of_mem_childrenAt hc
    cases mark <;> simp at hmem <;> rcases hmem with rfl | hmem
    · rfl
    · rw [hmem]
      rfl
    · rfl
    · rcases hmem with rfl | rfl <;> rfl
  · intro h
    cases h
  · intro c hc
    rw [childrenAt_eq_nil (by decide)] at hc
    cases hc
  · intro _
    exact ⟨_, hexpression, hparts⟩

end Tree

namespace Grammar

open ForceTry.Tree

/-!
# Trees that follow the grammar

Every tree below a tree that follows the grammar follows one of its rules.
-/

/-- The parts of a statement or of an operand, up to the token that ends it. -/
structure FormsPhrase (f : Frame) (previous : Option Token) (next : Token) (parts : List Tree) :
    Prop where
  depth : f.depth = 0
  forms : FormsParts f previous next parts
  ends : ∃ last, (f.afterAll parts).ends last next = true

inductive Formed : Tree → Prop where
  | leaf (l : Leaf) : Formed (.leaf l)
  | part {f : Frame} {previous : Option Token} {next : Token} {t : Tree}
      (h : FormsPart f previous next t) : Formed t
  | expression {f : Frame} {previous : Option Token} {next : Token} {n : Nat} {parts : List Tree}
      (h : FormsPhrase f previous next parts) : Formed (.node n .expression parts)
  | block {t : Tree} (h : FormsBlock t) : Formed t
  | item {previous : Option Token} {next : Token} {t : Tree}
      (h : FormsItem previous next t) : Formed t
  | content {mayBeEmpty : Bool} {previous : Option Token} {next : Token} {t : Tree}
      (h : FormsContent mayBeEmpty previous next t) : Formed t
  | clause {n : Nat} {keyword : Leaf} {cs : List Tree}
      (hkeyword : keyword.token.isKeyword "catch" = true) (h : FormsPattern cs) :
      Formed (.node n .catchClause (.leaf keyword :: cs))

theorem part_of_formsParts {f : Frame} {previous : Option Token} {next : Token}
    {parts : List Tree} (h : FormsParts f previous next parts) :
    ∀ c ∈ parts, ∃ f previous next, FormsPart f previous next c := by
  induction parts generalizing f previous with
  | nil =>
      intro c hc
      cases hc
  | cons part parts ih =>
      rw [FormsParts] at h
      rw [List.forall_mem_cons]
      exact ⟨⟨_, _, _, h.1⟩, ih h.2⟩

theorem formed_of_formsParts {f : Frame} {previous : Option Token} {next : Token}
    {parts : List Tree} (h : FormsParts f previous next parts) : ∀ c ∈ parts, Formed c := by
  intro c hc
  rcases part_of_formsParts h c hc with ⟨_, _, _, hpart⟩
  exact .part hpart

theorem not_item_of_formsPart {f : Frame} {previous : Option Token} {next : Token} {t : Tree}
    (h : FormsPart f previous next t) : t.isKind .item = false := by
  cases shape_of_formsPart h <;> rfl

theorem not_item_of_formsParts {f : Frame} {previous : Option Token} {next : Token}
    {parts : List Tree} (h : FormsParts f previous next parts) :
    ∀ c ∈ parts, c.isKind .item = false := by
  intro c hc
  rcases part_of_formsParts h c hc with ⟨_, _, _, hpart⟩
  exact not_item_of_formsPart hpart

theorem formed_of_formsItems {previous : Option Token} {next : Token} {items : List Tree}
    (h : FormsItems previous next items) :
    ∀ c ∈ items, Formed c ∧ c.isKind .item = true := by
  induction items generalizing previous with
  | nil =>
      intro c hc
      cases hc
  | cons item items ih =>
      rw [FormsItems] at h
      rw [List.forall_mem_cons]
      refine ⟨⟨.item h.1, ?_⟩, ih h.2⟩
      cases shape_of_formsItem h.1 <;> rfl

theorem formsBraces_iff (cs : List Tree) :
    FormsBraces cs ↔ ∃ left items right, cs = .leaf left :: (items ++ [.leaf right]) ∧
      left.token.kind = .leftBrace ∧ right.token.kind = .rightBrace ∧
      FormsItems (some left.token) right.token items := by
  constructor
  · intro h
    unfold FormsBraces at h
    split at h
    · next left cs =>
        rcases (formsBody_iff _ _ _).mp h.2 with ⟨items, right, rfl, hright, hitems⟩
        exact ⟨left, items, right, rfl, h.1, hright, hitems⟩
    · cases h
  · rintro ⟨left, items, right, rfl, hleft, hright, hitems⟩
    rw [FormsBraces, formsBody_iff]
    exact ⟨hleft, items, right, rfl, hright, hitems⟩

theorem formsBlock_iff (t : Tree) :
    FormsBlock t ↔ ∃ n cs, t = .node n .block cs ∧ FormsBraces cs := by
  constructor
  · intro h
    unfold FormsBlock at h
    split at h
    · exact ⟨_, _, rfl, h⟩
    · cases h
  · rintro ⟨n, cs, rfl, h⟩
    rw [FormsBlock]
    exact h

theorem formed_of_formsBlock {t : Tree} (h : FormsBlock t) : Formed t ∧ t.isKind .item = false := by
  refine ⟨.block h, ?_⟩
  rcases (formsBlock_iff t).mp h with ⟨n, cs, rfl, _⟩
  rfl

theorem shapes_of_formsClauses {clauses : List Tree} (h : FormsClauses clauses) :
    ∀ c ∈ clauses, ∃ n keyword cs, c = .node n .catchClause (.leaf keyword :: cs) ∧
      keyword.token.isKeyword "catch" = true ∧ FormsPattern cs := by
  induction clauses with
  | nil =>
      intro c hc
      cases hc
  | cons clause clauses ih =>
      cases shape_of_formsClauses h with
      | clause n keyword cs clauses hcatch hpattern hclauses =>
          rw [List.forall_mem_cons]
          exact ⟨⟨n, keyword, cs, rfl, hcatch, hpattern⟩, ih hclauses⟩

theorem shapes_of_formsPattern {cs : List Tree} (h : FormsPattern cs) :
    ∀ c ∈ cs, (∃ l, c = .leaf l ∧ l.token.kind ≠ .leftBrace) ∨ FormsBlock c := by
  induction cs with
  | nil =>
      intro c hc
      cases hc
  | cons c cs ih =>
      cases shape_of_formsPattern h with
      | leaf l cs hleft hright hend hcs =>
          rw [List.forall_mem_cons]
          exact ⟨.inl ⟨l, rfl, hleft⟩, ih hcs⟩
      | block n cs hbraces =>
          rw [List.forall_mem_singleton]
          exact .inr ((formsBlock_iff _).mpr ⟨n, cs, rfl, hbraces⟩)

theorem clause_of_formsClauses {clauses : List Tree} (h : FormsClauses clauses) :
    ∀ c ∈ clauses, Formed c ∧ c.isKind .item = false := by
  intro c hc
  rcases shapes_of_formsClauses h c hc with ⟨n, keyword, cs, rfl, hcatch, hpattern⟩
  exact ⟨.clause hcatch hpattern, rfl⟩

theorem formed_of_formsPattern {cs : List Tree} (h : FormsPattern cs) :
    ∀ c ∈ cs, Formed c ∧ c.isKind .item = false := by
  intro c hc
  rcases shapes_of_formsPattern h c hc with ⟨l, rfl, _⟩ | hblock
  · exact ⟨.leaf l, rfl⟩
  · exact formed_of_formsBlock hblock

/-- The content of an item is a statement, which may be empty in front of a semicolon only, or a
`do` statement. -/
theorem content_of_formsContent {mayBeEmpty : Bool} {previous : Option Token} {next : Token}
    {t : Tree} (h : FormsContent mayBeEmpty previous next t) :
    (t.isKind .statement = true ∨ t.isKind .doStatement = true) ∧
      (t.isKind .statement = true → t.children = [] → mayBeEmpty = true) := by
  cases shape_of_formsContent h with
  | statement n parts hempty => exact ⟨.inl rfl, fun _ hchildren => hempty hchildren⟩
  | doStatement => exact ⟨.inr rfl, fun hkind => by cases hkind⟩

theorem block_of_formed (n : Nat) {cs : List Tree} (h : FormsBraces cs) :
    (Tree.node n .block cs).Fits ∧ ∀ c ∈ cs, Formed c := by
  rcases (formsBraces_iff cs).mp h with ⟨left, items, right, rfl, _, _, hitems⟩
  have hformed := formed_of_formsItems hitems
  refine ⟨fits_block fun c hc => (hformed c hc).2, ?_⟩
  intro c hc
  rcases List.mem_cons.mp hc with rfl | hc
  · exact .leaf left
  rcases List.mem_append.mp hc with hc | hc
  · exact (hformed c hc).1
  · rw [List.mem_singleton.mp hc]
    exact .leaf right

theorem not_item_of_formsContent {mayBeEmpty : Bool} {previous : Option Token} {next : Token}
    {t : Tree} (h : FormsContent mayBeEmpty previous next t) : t.isKind .item = false := by
  cases shape_of_formsContent h <;> rfl

/-- What a tree below a file looks like, with the rule for each of its parts. -/
inductive Shape : Tree → Prop where
  | leaf (l : Leaf) : Shape (.leaf l)
  | block (n : Nat) {cs : List Tree} (hbraces : FormsBraces cs) : Shape (.node n .block cs)
  | bareTry (n m : Nat) {keyword : Leaf} {parts : List Tree} {f : Frame} {previous : Option Token}
      {next : Token} (htry : keyword.token.isKeyword "try" = true) (hne : parts ≠ [])
      (hphrase : FormsPhrase f previous next parts) :
      Shape (.node n .tryExpression [.leaf keyword, .node m .expression parts])
  | markedTry (n m : Nat) {keyword mark : Leaf} {parts : List Tree} {f : Frame}
      {previous : Option Token} {next : Token} (htry : keyword.token.isKeyword "try" = true)
      (hmark : mark.token.kind.marksTry = true) (hne : parts ≠ [])
      (hphrase : FormsPhrase f previous next parts) :
      Shape (.node n .tryExpression [.leaf keyword, .leaf mark, .node m .expression parts])
  | expression (n : Nat) {parts : List Tree} {f : Frame} {previous : Option Token} {next : Token}
      (hphrase : FormsPhrase f previous next parts) : Shape (.node n .expression parts)
  | item (n : Nat) {content : Tree} {previous : Option Token} {next : Token}
      (hnext : next.kind ≠ .semicolon) (hcontent : FormsContent false previous next content) :
      Shape (.node n .item [content])
  | closedItem (n : Nat) {content : Tree} {semicolon : Leaf} {previous : Option Token}
      (hsemicolon : semicolon.token.kind = .semicolon)
      (hcontent : FormsContent true previous semicolon.token content) :
      Shape (.node n .item [content, .leaf semicolon])
  | statement (n : Nat) {parts : List Tree} {f : Frame} {previous : Option Token} {next : Token}
      (hphrase : FormsPhrase f previous next parts) : Shape (.node n .statement parts)
  | doStatement (n : Nat) {keyword : Leaf} {body : Tree} {clauses : List Tree}
      (hdo : keyword.token.isKeyword "do" = true) (hbody : FormsBlock body)
      (hclauses : FormsClauses clauses) :
      Shape (.node n .doStatement (.leaf keyword :: body :: clauses))
  | clause (n : Nat) {keyword : Leaf} {cs : List Tree}
      (hcatch : keyword.token.isKeyword "catch" = true) (hpattern : FormsPattern cs) :
      Shape (.node n .catchClause (.leaf keyword :: cs))

theorem shape_of_formed {t : Tree} (h : Formed t) : Shape t := by
  cases h with
  | leaf l => exact .leaf l
  | part h =>
      cases shape_of_formsPart h with
      | leaf l => exact .leaf l
      | block n cs hstays hbraces => exact .block n hbraces
      | bare n m keyword parts hstays htry hne hparts hends =>
          exact .bareTry n m htry hne ⟨rfl, hparts, _, hends⟩
      | marked n m keyword mark parts hstays htry hmark hne hparts hends =>
          exact .markedTry n m htry hmark hne ⟨rfl, hparts, _, hends⟩
  | expression h => exact .expression _ h
  | block h =>
      rcases (formsBlock_iff _).mp h with ⟨n, cs, rfl, hbraces⟩
      exact .block n hbraces
  | item h =>
      cases shape_of_formsItem h with
      | bare n content hnext hcontent => exact .item n hnext hcontent
      | closed n content semicolon hsemicolon hcontent => exact .closedItem n hsemicolon hcontent
  | content h =>
      cases shape_of_formsContent h with
      | statement n parts hempty hdo hparts hends => exact .statement n ⟨rfl, hparts, _, hends⟩
      | doStatement n keyword body clauses hdo hbody hclauses =>
          exact .doStatement n hdo hbody hclauses
  | clause hkeyword h => exact .clause _ hkeyword h

theorem braces_of_formed {n : Nat} {cs : List Tree} (h : Formed (.node n .block cs)) :
    FormsBraces cs := by
  cases shape_of_formed h with
  | block _ hbraces => exact hbraces

theorem cases_of_children {n : Nat} {k : NodeKind} {cs : List Tree}
    (hplaces : "statements" ∉ k.places.map Place.name) (hitem : k ≠ .item) (htry : k ≠ .tryExpression)
    (h : ∀ c ∈ cs, Formed c ∧ c.isKind .item = false) :
    (Tree.node n k cs).Fits ∧ ∀ c ∈ cs, Formed c ∧ (k ≠ .block → c.isKind .item = false) :=
  ⟨fits_of_plain hplaces hitem htry fun c hc => (h c hc).2,
    fun c hc => ⟨(h c hc).1, fun _ => (h c hc).2⟩⟩

/-- A node that follows the grammar fits, and so do its children; only blocks hold items. -/
theorem formed_cases {n : Nat} {k : NodeKind} {cs : List Tree} (h : Formed (.node n k cs)) :
    (Tree.node n k cs).Fits ∧ ∀ c ∈ cs, Formed c ∧ (k ≠ .block → c.isKind .item = false) := by
  have hleaf : ∀ l : Leaf, Formed (.leaf l) ∧ (k ≠ .block → (Tree.leaf l).isKind .item = false) :=
    fun l => ⟨.leaf l, fun _ => rfl⟩
  cases shape_of_formed h with
  | block _ hbraces =>
      have hblock := block_of_formed n hbraces
      exact ⟨hblock.1, fun c hc => ⟨hblock.2 c hc, fun hne => absurd rfl hne⟩⟩
  | @bareTry _ m keyword parts _ _ _ htry hne hphrase =>
      refine ⟨fits_try none (leavesOf_ne_nil_of_formsParts hne hphrase.forms), ?_⟩
      rw [List.forall_mem_cons, List.forall_mem_singleton]
      exact ⟨hleaf keyword, .expression hphrase, fun _ => rfl⟩
  | @markedTry _ m keyword mark parts _ _ _ htry hmark hne hphrase =>
      refine ⟨fits_try (some mark) (leavesOf_ne_nil_of_formsParts hne hphrase.forms), ?_⟩
      rw [List.forall_mem_cons, List.forall_mem_cons, List.forall_mem_singleton]
      exact ⟨hleaf keyword, hleaf mark, .expression hphrase, fun _ => rfl⟩
  | expression _ hphrase =>
      exact cases_of_children (by decide) (by decide) (by decide) fun c hc =>
        ⟨formed_of_formsParts hphrase.forms c hc, not_item_of_formsParts hphrase.forms c hc⟩
  | item _ hnext hcontent =>
      have hkinds := content_of_formsContent hcontent
      refine ⟨fits_item none hkinds.1 (by simp) ?_, ?_⟩
      · intro hstatement hchildren
        exact absurd (hkinds.2 hstatement hchildren) Bool.false_ne_true
      · rw [List.forall_mem_singleton]
        exact ⟨.content hcontent, fun _ => not_item_of_formsContent hcontent⟩
  | @closedItem _ content semicolon _ hsemicolon hcontent =>
      have hkinds := content_of_formsContent hcontent
      refine ⟨fits_item (some semicolon) hkinds.1 ?_ (by simp), ?_⟩
      · intro l hl
        cases hl
        exact hsemicolon
      · rw [List.forall_mem_cons, List.forall_mem_singleton]
        exact ⟨⟨.content hcontent, fun _ => not_item_of_formsContent hcontent⟩, hleaf semicolon⟩
  | statement _ hphrase =>
      exact cases_of_children (by decide) (by decide) (by decide) fun c hc =>
        ⟨formed_of_formsParts hphrase.forms c hc, not_item_of_formsParts hphrase.forms c hc⟩
  | doStatement _ hdo hbody hclauses =>
      apply cases_of_children (by decide) (by decide) (by decide)
      rw [List.forall_mem_cons, List.forall_mem_cons]
      exact ⟨⟨.leaf _, rfl⟩, formed_of_formsBlock hbody, clause_of_formsClauses hclauses⟩
  | clause _ hcatch hpattern =>
      apply cases_of_children (by decide) (by decide) (by decide)
      rw [List.forall_mem_cons]
      exact ⟨⟨.leaf _, rfl⟩, formed_of_formsPattern hpattern⟩

theorem formsItems_of_formsFile {t : Tree} (h : FormsFile t) :
    ∃ n items ending, t = .node n .sourceFile (items ++ [.leaf ending]) ∧
      ending.token.kind = .endOfFile ∧ FormsItems none ending.token items := by
  unfold FormsFile at h
  split at h
  · next n cs =>
      rcases (formsBody_iff _ _ _).mp h with ⟨items, ending, rfl, hall⟩
      exact ⟨n, items, ending, rfl, hall⟩
  · cases h

theorem items_of_formsFile {t : Tree} (h : FormsFile t) :
    ∃ n items ending, t = .node n .sourceFile (items ++ [.leaf ending]) ∧
      ending.token.kind = .endOfFile ∧ ∀ c ∈ items, Formed c ∧ c.isKind .item = true := by
  rcases formsItems_of_formsFile h with ⟨n, items, ending, ht, hending, hitems⟩
  exact ⟨n, items, ending, ht, hending, formed_of_formsItems hitems⟩

theorem file_of_formsFile {t : Tree} (h : FormsFile t) :
    t.Fits ∧ ∃ n cs, t = .node n .sourceFile cs ∧ ∀ c ∈ cs, Formed c := by
  rcases items_of_formsFile h with ⟨n, items, ending, rfl, _, hformed⟩
  refine ⟨fits_sourceFile fun c hc => (hformed c hc).2, n, _, rfl, ?_⟩
  intro c hc
  rcases List.mem_append.mp hc with hc | hc
  · exact (hformed c hc).1
  · rw [List.mem_singleton.mp hc]
    exact .leaf ending

theorem formed_of_mem_nodes (t : Tree) : Formed t → ∀ m ∈ t.nodes, Formed m := by
  induction t using Tree.induction with
  | leaf l =>
      intro _ m hm
      cases hm
  | node n k cs ih =>
      intro h m hm
      have hcases := formed_cases h
      rw [nodes, nodesOf_eq_flatMap] at hm
      rcases List.mem_cons.mp hm with rfl | hm
      · exact h
      · rcases List.mem_flatMap.mp hm with ⟨c, hc, hm⟩
        exact ih c hc (hcases.2 c hc).1 m hm

/-- A file follows the grammar as a file, and its other nodes as nodes below it. -/
theorem eq_or_formed_of_file {t : Tree} (h : FormsFile t) {m : Tree} (hm : m ∈ t.nodes) :
    m = t ∨ Formed m := by
  rcases file_of_formsFile h with ⟨_, n, cs, rfl, hcs⟩
  rw [nodes, nodesOf_eq_flatMap] at hm
  rcases List.mem_cons.mp hm with rfl | hm
  · exact .inl rfl
  · rcases List.mem_flatMap.mp hm with ⟨c, hc, hm⟩
    exact .inr (formed_of_mem_nodes c (hcs c hc) m hm)

theorem formed_of_file {t m : Tree} (h : FormsFile t) (hm : m ∈ t.nodes)
    (hkind : m.isKind .sourceFile = false) : Formed m := by
  rcases file_of_formsFile h with ⟨_, n, cs, rfl, hcs⟩
  rw [nodes, nodesOf_eq_flatMap] at hm
  rcases List.mem_cons.mp hm with rfl | hm
  · cases hkind
  · rcases List.mem_flatMap.mp hm with ⟨c, hc, hm⟩
    exact formed_of_mem_nodes c (hcs c hc) m hm

theorem leaf_not_mem_nodes (l : Leaf) (t : Tree) : Tree.leaf l ∉ t.nodes := by
  induction t using Tree.induction with
  | leaf l' =>
      intro h
      cases h
  | node n k cs ih =>
      intro h
      rw [nodes, nodesOf_eq_flatMap] at h
      rcases List.mem_cons.mp h with h | h
      · cases h
      · rcases List.mem_flatMap.mp h with ⟨c, hc, hm⟩
        exact ih c hc hm

theorem fits_of_formed {t : Tree} (h : Formed t) : ∀ m ∈ t.nodes, m.Fits := by
  intro m hm
  have hformed := formed_of_mem_nodes t h m hm
  cases m with
  | leaf l => exact absurd hm (leaf_not_mem_nodes l t)
  | node n k cs => exact (formed_cases hformed).1

theorem formsItem_of_formed {t : Tree} (h : Formed t) (hitem : t.isKind .item = true) :
    ∃ previous next, FormsItem previous next t := by
  cases shape_of_formed h with
  | @item n content previous next hnext hcontent =>
      refine ⟨previous, next, ?_⟩
      rw [FormsItem]
      exact ⟨hnext, hcontent⟩
  | @closedItem n content semicolon previous hsemicolon hcontent =>
      refine ⟨previous, nothing, ?_⟩
      rw [FormsItem]
      exact ⟨hsemicolon, hcontent⟩
  | _ => cases hitem

theorem not_block_of_formsContent {mayBeEmpty : Bool} {previous : Option Token} {next : Token}
    {t : Tree} (h : FormsContent mayBeEmpty previous next t) : t.isKind .block = false := by
  cases shape_of_formsContent h <;> rfl

theorem item_of_formed {n : Nat} {cs : List Tree} (h : Formed (.node n .item cs)) :
    ∃ content semicolon, cs = content :: semicolon ∧ content.isKind .block = false ∧
      content.isKind .item = false ∧ ∀ s ∈ semicolon, s.kind? = none := by
  cases shape_of_formed h with
  | @item _ content _ _ _ hcontent =>
      exact ⟨content, [], rfl, not_block_of_formsContent hcontent, not_item_of_formsContent hcontent,
        by simp⟩
  | @closedItem _ content semicolon _ _ hcontent =>
      exact ⟨content, [.leaf semicolon], rfl, not_block_of_formsContent hcontent,
        not_item_of_formsContent hcontent, by simp [kind?]⟩

theorem try_of_formed {n : Nat} {cs : List Tree} (h : Formed (.node n .tryExpression cs)) :
    ∃ keyword m parts, keyword.token.isKeyword "try" = true ∧
      (cs = [.leaf keyword, .node m .expression parts] ∨
        ∃ mark, cs = [.leaf keyword, .leaf mark, .node m .expression parts]) := by
  cases shape_of_formed h with
  | bareTry _ m htry => exact ⟨_, m, _, htry, .inl rfl⟩
  | markedTry _ m htry => exact ⟨_, m, _, htry, .inr ⟨_, rfl⟩⟩

theorem forced_of_formed {t : Tree} (h : Formed t) (hforced : t.isForceTry = true) :
    ∃ n keyword mark m parts,
      t = .node n .tryExpression [.leaf keyword, .leaf mark, .node m .expression parts] ∧
        leavesOf parts ≠ [] := by
  cases shape_of_formed h with
  | markedTry n m htry hmark hne hphrase =>
      exact ⟨n, _, _, m, _, rfl, leavesOf_ne_nil_of_formsParts hne hphrase.forms⟩
  | _ => cases hforced

theorem wellFormed_of_formsFile {t : Tree} (h : FormsFile t) : t.WellFormed := by
  rcases file_of_formsFile h with ⟨hfits, n, cs, rfl, hcs⟩
  refine ⟨rfl, ?_⟩
  intro m hm
  rw [nodes, nodesOf_eq_flatMap] at hm
  rcases List.mem_cons.mp hm with rfl | hm
  · exact hfits
  · rcases List.mem_flatMap.mp hm with ⟨c, hc, hm⟩
    exact fits_of_formed (hcs c hc) m hm

end Grammar
end ForceTry

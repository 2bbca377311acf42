import ForceTry.Proofs.Grammar.Children
import ForceTry.Proofs.Grammar.Surface

/-!
# What the parser makes sure of for brackets

The parser knows blocks by their braces.  In every statement and operand it counts round and square
brackets together, and inside brackets it takes a right brace as it comes; the brackets in the pattern of a
catch clause it does not look at.  So all brackets of a source are well nested, and its braces are those of
blocks, exactly when in a statement the brackets that the count pairs have the same kinds and no right brace
stands among them, and the patterns are well nested.
-/

namespace ForceTry
namespace Tree

def pattern : Tree → List Token
  | .node _ .catchClause (_ :: cs) => directTokensOf cs
  | _ => []

/-- The patterns of the `do` statements among some items, one after the other. -/
def patternsOf (items : List Tree) : List Token :=
  ((items.flatMap children).flatMap children).flatMap pattern

def StatementsNested (items : List Tree) : Prop :=
  ∀ c ∈ items, ∀ m ∈ c.children, m.isKind .statement = true → Bracket.WellNested m.directTokens

/-- A right brace that is a part of a statement or an operand, with a bracket open in front of it. -/
def Plain (t : Tree) (l : Leaf) : Prop :=
  l.token.kind = .rightBrace ∧ ∃ m ∈ t.nodes,
    (m.isKind .statement = true ∨ m.isKind .expression = true) ∧ ∃ front back,
      m.children = front ++ .leaf l :: back ∧
      Bracket.closes (directTokensOf front) < Bracket.opens (directTokensOf front)

/-- What the parser makes sure of.  In every statement and operand the count of brackets comes out, every left
brace is that of one block, and so is every right brace that is not plain. -/
structure CountsBrackets (t : Tree) : Prop where
  phrases : ∀ m ∈ t.nodes, m.isKind .statement = true ∨ m.isKind .expression = true →
    Bracket.Balanced m.directTokens
  left : ∀ l ∈ t.leaves, l.token.kind = .leftBrace →
    t.nodes.countP (fun m => m.leftBrace? = some l) = 1
  right : ∀ l ∈ t.leaves, l.token.kind = .rightBrace →
    (¬ t.Plain l ∧ t.nodes.countP (fun m => m.rightBrace? = some l) = 1) ∨
      (t.Plain l ∧ t.nodes.countP (fun m => m.rightBrace? = some l) = 0)

/-- What it does not look at.  No right brace is plain, the brackets that are paired in a statement have the
same kinds, and the patterns in the file and in every block are well nested. -/
structure Matched (t : Tree) : Prop where
  braces : ∀ l, ¬ t.Plain l
  statements : ∀ m ∈ t.nodes, m.isKind .statement = true → Bracket.Paired m.directTokens
  patterns : ∀ m ∈ t.nodes, m = t ∨ m.isKind .block = true →
    Bracket.WellNested (patternsOf m.children)

end Tree

namespace Grammar

open ForceTry.Bracket ForceTry.Tree

variable {f : Frame} {previous : Option Token} {next : Token} {parts items : List Tree} {t m : Tree}
  {l : Leaf}

/-!
# Phrases
-/

/-- The token of a piece of a surface, if it is no block. -/
def pieceToken? : Tree → Option Token
  | .leaf l => some l.token
  | .node _ _ _ => none

mutual

theorem directTokens_eq (t : Tree) (hblock : t.isKind .block = false) :
    t.directTokens = t.surface.filterMap pieceToken? := by
  cases t with
  | leaf l => rfl
  | node n k cs =>
      rw [isKind_node, beq_eq_false_iff_ne] at hblock
      rw [surface_node hblock, directTokens]
      exact directTokensOf_eq cs
termination_by structural t

theorem directTokensOf_eq (cs : List Tree) :
    directTokensOf cs = (surfaceOf cs).filterMap pieceToken? := by
  cases cs with
  | nil => rfl
  | cons c cs =>
      rw [directTokensOf, surfaceOf_cons, List.filterMap_append, ← directTokensOf_eq cs]
      cases hblock : c.isKind .block with
      | false => rw [← directTokens_eq c hblock]; rfl
      | true =>
          cases c with
          | leaf l => cases hblock
          | node n k ds =>
              rw [isKind_node, beq_iff_eq] at hblock
              rw [hblock]
              rfl
termination_by structural cs

end

theorem opens_pieces (pieces : List Tree) : opens (pieces.filterMap pieceToken?) = opened pieces := by
  induction pieces with
  | nil => rfl
  | cons c pieces ih =>
      cases c with
      | leaf l => rw [opened_leaf, ← ih]; exact opens_cons l.token _
      | node n k cs => rw [opened_node, List.filterMap_cons_none rfl, ih]

theorem closes_pieces (pieces : List Tree) :
    closes (pieces.filterMap pieceToken?) = closed pieces := by
  induction pieces with
  | nil => rfl
  | cons c pieces ih =>
      cases c with
      | leaf l => rw [closed_leaf, ← ih]; exact closes_cons l.token _
      | node n k cs => rw [closed_node, List.filterMap_cons_none rfl, ih]

theorem balanced_of_phrase (h : FormsPhrase f previous next parts) : Balanced (directTokensOf parts) := by
  rcases h.ends with ⟨last, hends⟩
  have hcount := depth_afterAll_surface h.forms
  rw [depth_of_ends hends, h.depth, Nat.zero_add, Nat.zero_add] at hcount
  rw [directTokensOf_eq]
  constructor
  · rw [opens_pieces, closes_pieces, hcount]
  · intro front back hsplit
    rcases List.filterMap_eq_append_iff.mp hsplit with ⟨pieces, rest, hsurface, rfl, _⟩
    rw [opens_pieces, closes_pieces]
    exact closed_le_of_formsParts h.forms h.depth hsurface

theorem open_of_rightBrace (h : FormsPhrase f previous next parts) {front back : List Tree}
    (hparts : parts = front ++ .leaf l :: back) (hkind : l.token.kind = .rightBrace) :
    closes (directTokensOf front) < opens (directTokensOf front) := by
  have hforms := h.forms
  rw [hparts, formsParts_append, FormsParts] at hforms
  have hcount := depth_afterAll_surface hforms.1
  have hstays := hforms.2.1
  rw [FormsPart, Frame.ends, hkind] at hstays
  have hdepth : (f.afterAll front).depth ≠ 0 := by simpa using hstays.1
  rw [h.depth] at hcount
  rw [directTokensOf_eq, opens_pieces, closes_pieces]
  omega

/-!
# Items
-/

theorem not_block_of_formsItem (h : FormsItem previous next t) : t.isKind .block = false := by
  cases shape_of_formsItem h <;> rfl

theorem patternsOf_append (cs ds : List Tree) :
    patternsOf (cs ++ ds) = patternsOf cs ++ patternsOf ds := by
  simp [patternsOf]

theorem patterns_of_formsParts (h : FormsParts f previous next parts) : parts.flatMap pattern = [] := by
  rw [List.flatMap_eq_nil_iff]
  intro c hc
  rcases part_of_formsParts h c hc with ⟨_, _, _, hpart⟩
  cases shape_of_formsPart hpart <;> rfl

theorem open_clauses {clauses : List Tree} (h : FormsClauses clauses) (stack : List Bracket) :
    openBehindAll stack (directTokensOf clauses) = openBehindAll stack (clauses.flatMap pattern) := by
  induction clauses generalizing stack with
  | nil => rfl
  | cons clause clauses ih =>
      cases shape_of_formsClauses h with
      | clause n keyword cs _ hcatch hpattern hclauses =>
          have hkeyword : openBehind stack keyword.token = some stack := by
            apply openBehind_neither <;> rw [kind_of_isKeyword hcatch] <;> rfl
          rw [directTokensOf, List.flatMap_cons, openBehindAll_append, openBehindAll_append]
          show (openBehindAll stack (keyword.token :: directTokensOf cs)).bind _ =
            (openBehindAll stack (directTokensOf cs)).bind _
          rw [openBehindAll, hkeyword, Option.bind_some]
          exact Option.bind_congr fun s _ => ih hclauses s

/-- Once its statement is well nested, the content of an item opens and closes what its patterns do. -/
theorem open_content {mayBeEmpty : Bool} (h : FormsContent mayBeEmpty previous next t)
    (hbrace : ∀ token ∈ t.directTokens, NoBrace token) (stack : List Bracket) :
    ((t.isKind .statement = true → WellNested t.directTokens) →
      openBehindAll stack t.directTokens = openBehindAll stack (t.children.flatMap pattern)) ∧
    ∀ stack', openBehindAll stack t.directTokens = some stack' → t.isKind .statement = true →
      WellNested t.directTokens := by
  cases shape_of_formsContent h with
  | statement n parts hempty hdo hparts hends =>
      have hbalanced := balanced_of_phrase ⟨rfl, hparts, _, hends⟩
      refine ⟨fun hnested => ?_, fun stack' hopen _ => (hbalanced.neutral hbrace hopen).2⟩
      rw [children, patterns_of_formsParts hparts]
      exact (hnested rfl).neutral stack
  | doStatement n keyword body clauses hdo hbody hclauses =>
      refine ⟨fun _ => ?_, fun stack' _ hkind => by cases hkind⟩
      rcases (formsBlock_iff body).mp hbody with ⟨k, cs, rfl, _⟩
      have hkeyword : openBehind stack keyword.token = some stack := by
        apply openBehind_neither <;> rw [kind_of_isKeyword hdo] <;> rfl
      show openBehindAll stack (keyword.token :: directTokensOf clauses) =
        openBehindAll stack (clauses.flatMap pattern)
      rw [openBehindAll, hkeyword]
      exact open_clauses hclauses stack

theorem directTokens_item {n : Nat} {content : Tree} {semicolon : List Tree}
    (h : content.isKind .block = false) : (Tree.node n .item (content :: semicolon)).directTokens =
      content.directTokens ++ directTokensOf semicolon := by
  rw [directTokens, directTokensOf, h]
  rfl

theorem patternsOf_item (n : Nat) (content : Tree) {semicolon : List Tree}
    (h : semicolon.flatMap children = []) :
    patternsOf [.node n .item (content :: semicolon)] = content.children.flatMap pattern := by
  simp [patternsOf, children, h]

theorem statementsNested_item {n : Nat} {content : Tree} {semicolon : List Tree}
    (h : ∀ c ∈ semicolon, c.kind? = none) :
    StatementsNested [.node n .item (content :: semicolon)] ↔
      (content.isKind .statement = true → WellNested content.directTokens) := by
  constructor
  · exact fun hnested => hnested _ (List.mem_singleton_self _) content (List.mem_cons_self ..)
  · intro hcontent c hc m hm hkind
    rw [List.mem_singleton.mp hc] at hm
    rcases List.mem_cons.mp hm with rfl | hm
    · exact hcontent hkind
    · rw [isKind, h m hm] at hkind
      cases hkind

theorem open_item (h : FormsItem previous next t) (hbrace : ∀ token ∈ t.directTokens, NoBrace token)
    (stack : List Bracket) :
    (StatementsNested [t] →
      openBehindAll stack t.directTokens = openBehindAll stack (patternsOf [t])) ∧
    ∀ stack', openBehindAll stack t.directTokens = some stack' → StatementsNested [t] := by
  cases shape_of_formsItem h with
  | bare n content hnext hcontent =>
      rw [directTokens_item (not_block_of_formsContent hcontent), directTokensOf, List.append_nil]
        at hbrace ⊢
      rw [patternsOf_item n content rfl, statementsNested_item (by simp)]
      exact open_content hcontent hbrace stack
  | closed n content semicolon hsemicolon hcontent =>
      have hneutral : ∀ s, openBehind s semicolon.token = some s := by
        intro s
        apply openBehind_neither <;> rw [hsemicolon] <;> rfl
      have hend : ∀ s, openBehindAll s (directTokensOf [.leaf semicolon]) = some s := by
        intro s
        show (openBehind s semicolon.token).bind _ = _
        rw [hneutral]
        rfl
      rw [directTokens_item (not_block_of_formsContent hcontent)] at hbrace ⊢
      rw [patternsOf_item n content rfl, statementsNested_item (by simp [kind?]), openBehindAll_append]
      have hopen := open_content hcontent (fun token hmem => hbrace token (List.mem_append_left _ hmem))
        stack
      refine ⟨fun hnested => ?_, fun stack' hsome => ?_⟩
      · rw [hopen.1 hnested, Option.bind_congr fun s _ => hend s, Option.bind_fun_some]
      · rcases Option.bind_eq_some_iff.mp hsome with ⟨s, hs, _⟩
        exact hopen.2 s hs

theorem statementsNested_append {cs ds : List Tree} :
    StatementsNested (cs ++ ds) ↔ StatementsNested cs ∧ StatementsNested ds := by
  simp only [StatementsNested, List.forall_mem_append]

theorem open_items (h : FormsItems previous next items)
    (hbrace : ∀ token ∈ directTokensOf items, NoBrace token) (stack : List Bracket) :
    (StatementsNested items →
      openBehindAll stack (directTokensOf items) = openBehindAll stack (patternsOf items)) ∧
    ∀ stack', openBehindAll stack (directTokensOf items) = some stack' → StatementsNested items := by
  induction items generalizing previous stack with
  | nil => exact ⟨fun _ => rfl, fun _ _ c hc => by cases hc⟩
  | cons c items ih =>
      rw [FormsItems] at h
      have hdirect : directTokensOf (c :: items) = c.directTokens ++ directTokensOf items := by
        rw [directTokensOf, not_block_of_formsItem h.1]
        rfl
      rw [hdirect] at hbrace ⊢
      rw [← List.singleton_append, patternsOf_append, statementsNested_append, openBehindAll_append,
        openBehindAll_append]
      have hc := open_item h.1 (fun token hmem => hbrace token (List.mem_append_left _ hmem)) stack
      have hrest := ih h.2 fun token hmem => hbrace token (List.mem_append_right _ hmem)
      refine ⟨fun hnested => ?_, fun stack' hsome => ?_⟩
      · rw [hc.1 hnested.1]
        exact Option.bind_congr fun s _ => (hrest s).1 hnested.2
      · rcases Option.bind_eq_some_iff.mp hsome with ⟨s, hs, hmore⟩
        exact ⟨hc.2 s hs, (hrest s).2 stack' hmore⟩

theorem wellNested_items (h : FormsItems previous next items)
    (hbrace : ∀ token ∈ directTokensOf items, NoBrace token) :
    WellNested (directTokensOf items) ↔ StatementsNested items ∧ WellNested (patternsOf items) := by
  have hopen := open_items h hbrace []
  constructor
  · intro hnested
    have hstatements := hopen.2 [] hnested
    exact ⟨hstatements, (hopen.1 hstatements).symm.trans hnested⟩
  · rintro ⟨hstatements, hpatterns⟩
    exact (hopen.1 hstatements).trans hpatterns

/-!
# Right braces
-/

theorem mem_strayBraces {n : Nat} {k : NodeKind} {cs : List Tree} :
    l ∈ (Tree.node n k cs).strayBraces ↔
      k ≠ .block ∧ .leaf l ∈ cs ∧ l.token.kind = .rightBrace := by
  rw [strayBraces]
  by_cases hk : k = .block
  · simp [hk]
  · rw [if_neg hk, List.mem_filterMap]
    constructor
    · rintro ⟨c, hc, hstray⟩
      cases c with
      | node m k' ds => cases hstray
      | leaf l' =>
          rw [strayBrace?] at hstray
          split at hstray
          · next hkind =>
              cases hstray
              exact ⟨hk, hc, hkind⟩
          · cases hstray
    · rintro ⟨_, hl, hkind⟩
      exact ⟨.leaf l, hl, by rw [strayBrace?, if_pos hkind]⟩

theorem phrase_of_formed (h : Formed m)
    (hkind : m.isKind .statement = true ∨ m.isKind .expression = true) :
    ∃ f previous next, FormsPhrase f previous next m.children := by
  cases shape_of_formed h with
  | statement n hphrase => exact ⟨_, _, _, hphrase⟩
  | expression n hphrase => exact ⟨_, _, _, hphrase⟩
  | _ => rcases hkind with hkind | hkind <;> cases hkind

theorem phrase_of_file (h : FormsFile t) (hm : m ∈ t.nodes)
    (hkind : m.isKind .statement = true ∨ m.isKind .expression = true) :
    ∃ f previous next, FormsPhrase f previous next m.children := by
  rcases eq_or_formed_of_file h hm with rfl | hformed
  · rcases items_of_formsFile h with ⟨n, items, ending, rfl, _⟩
    rcases hkind with hkind | hkind <;> cases hkind
  · exact phrase_of_formed hformed hkind

theorem not_rightBrace_of_formsPattern {cs : List Tree} (h : FormsPattern cs) (hl : .leaf l ∈ cs) :
    l.token.kind ≠ .rightBrace := by
  induction cs with
  | nil => cases hl
  | cons c cs ih =>
      cases shape_of_formsPattern h with
      | leaf l' cs hleft hright hend hcs =>
          rcases List.mem_cons.mp hl with heq | hl
          · cases heq
            exact hright
          · exact ih hcs hl
      | block n cs hbraces => simp at hl

theorem not_rightBrace_of_keyword {word : String} (h : l.token.isKeyword word = true) :
    l.token.kind ≠ .rightBrace := by
  rw [kind_of_isKeyword h]
  decide

/-- A right brace that is a child of a node other than a block is one of a phrase. -/
theorem phrase_of_rightBrace {n : Nat} {k : NodeKind} {cs : List Tree} (h : Formed (.node n k cs))
    (hk : k ≠ .block) (hl : .leaf l ∈ cs) (hkind : l.token.kind = .rightBrace) :
    (Tree.node n k cs).isKind .statement = true ∨ (Tree.node n k cs).isKind .expression = true := by
  have hkeyword : ∀ {l' : Leaf} {word : String}, l'.token.isKeyword word = true → l ≠ l' := by
    rintro l' word hword rfl
    exact not_rightBrace_of_keyword hword hkind
  cases shape_of_formed h with
  | block _ _ => exact absurd rfl hk
  | statement _ _ => exact .inl rfl
  | expression _ _ => exact .inr rfl
  | bareTry _ m htry => simp [hkeyword htry] at hl
  | markedTry _ m htry hmark =>
      have hne : ∀ {l' : Leaf}, l'.token.kind.marksTry = true → l ≠ l' := by
        rintro l' hmark rfl
        rw [hkind] at hmark
        cases hmark
      simp [hkeyword htry, hne hmark] at hl
  | item _ hnext hcontent =>
      rw [List.mem_singleton] at hl
      exact absurd (congrArg kind? hl).symm (node_of_formsContent hcontent)
  | closedItem _ hsemicolon hcontent =>
      rcases List.mem_cons.mp hl with heq | hl
      · exact absurd (congrArg kind? heq).symm (node_of_formsContent hcontent)
      · cases List.mem_singleton.mp hl
        rw [hsemicolon] at hkind
        cases hkind
  | doStatement _ hdo hbody hclauses =>
      rcases List.mem_cons.mp hl with heq | hl
      · cases heq
        exact absurd rfl (hkeyword hdo)
      rcases List.mem_cons.mp hl with rfl | hl
      · exact absurd hbody (by simp [FormsBlock])
      · exact absurd rfl (node_of_formsClauses hclauses _ hl)
  | clause _ hcatch hpattern =>
      rcases List.mem_cons.mp hl with heq | hl
      · cases heq
        exact absurd rfl (hkeyword hcatch)
      · exact absurd hkind (not_rightBrace_of_formsPattern hpattern hl)

theorem mem_stray_iff (h : FormsFile t) : l ∈ t.nodes.flatMap strayBraces ↔ t.Plain l := by
  rw [List.mem_flatMap]
  constructor
  · rintro ⟨m, hm, hl⟩
    cases m with
    | leaf l' => cases hl
    | node n k cs =>
        rcases mem_strayBraces.mp hl with ⟨hk, hmem, hkind⟩
        refine ⟨hkind, _, hm, ?_⟩
        have hphrase : (Tree.node n k cs).isKind .statement = true ∨
            (Tree.node n k cs).isKind .expression = true := by
          rcases eq_or_formed_of_file h hm with heq | hformed
          · rcases items_of_formsFile h with ⟨n', items, ending, rfl, hending, hitems⟩
            cases heq
            rcases List.mem_append.mp hmem with hmem | hmem
            · cases (hitems _ hmem).2
            · cases List.mem_singleton.mp hmem
              rw [hending] at hkind
              cases hkind
          · exact phrase_of_rightBrace hformed hk hmem hkind
        refine ⟨hphrase, ?_⟩
        rcases phrase_of_file h hm hphrase with ⟨f, previous, next, hforms⟩
        rcases List.append_of_mem hmem with ⟨front, back, hsplit⟩
        exact ⟨front, back, hsplit, open_of_rightBrace hforms hsplit hkind⟩
  · rintro ⟨hkind, m, hm, hphrase, front, back, hsplit, _⟩
    refine ⟨m, hm, ?_⟩
    cases m with
    | leaf l' => simp [children] at hsplit
    | node n k cs =>
        rw [children] at hsplit
        refine mem_strayBraces.mpr ⟨?_, by simp [hsplit], hkind⟩
        rintro rfl
        rcases hphrase with hphrase | hphrase <;> cases hphrase

/-!
# Files and blocks
-/

theorem strayBraces_of_not_plain (h : FormsFile t) (hplain : ∀ l, ¬ t.Plain l) :
    ∀ m ∈ t.nodes, m.strayBraces = [] := by
  intro m hm
  rw [List.eq_nil_iff_forall_not_mem]
  exact fun l hl => hplain l ((mem_stray_iff h).mp (List.mem_flatMap.mpr ⟨m, hm, hl⟩))

theorem noBrace_of_statement (h : FormsFile t) (hplain : ∀ l, ¬ t.Plain l) (hm : m ∈ t.nodes)
    (hkind : m.isKind .statement = true) : ∀ token ∈ m.directTokens, NoBrace token := by
  cases m with
  | leaf l => cases hkind
  | node n k cs =>
      rw [isKind_node, beq_iff_eq] at hkind
      subst hkind
      have hbelow : ∀ x ∈ (Tree.node n .statement cs).nodes, x ∈ t.nodes :=
        fun x hx => (nodes_sublist hm).subset hx
      have hnode : (Tree.node n .statement cs).kind? ≠ none := Option.some_ne_none _
      have hholds := fun x hx => holdsBraces_of_file h x (hbelow x hx)
      have hstray := fun x hx => strayBraces_of_not_plain h hplain x (hbelow x hx)
      exact fun token htoken => ⟨not_leftBrace_of_direct hnode rfl hholds token htoken,
        not_rightBrace_of_direct hnode rfl hstray token htoken⟩

theorem mem_nodes_of_child_of_mem {c : Tree} (hm : m ∈ t.nodes) (hc : c ∈ m.children) {x : Tree}
    (hx : x ∈ c.nodes) : x ∈ t.nodes := by
  cases m with
  | leaf l => cases hc
  | node n k cs => exact (nodes_sublist hm).subset (mem_nodes_of_child hc hx)

theorem mem_nodes_of_children {c x : Tree} {k : NodeKind} (hm : m ∈ t.nodes) (hc : c ∈ m.children)
    (hx : x ∈ c.children) (hkind : x.isKind k = true) : x ∈ t.nodes := by
  apply mem_nodes_of_child_of_mem hm hc
  cases c with
  | leaf l => cases hx
  | node n k' cs =>
      cases x with
      | leaf l => cases hkind
      | node n' k'' ds => exact mem_nodes_of_child hx (List.mem_cons_self ..)

theorem wellNested_snoc {ts : List Token} {token : Token} (hopen : token.kind.opening? = none)
    (hclose : token.kind.closing? = none) : WellNested (ts ++ [token]) ↔ WellNested ts := by
  have hsame : openBehindAll [] (ts ++ [token]) = openBehindAll [] ts := by
    rw [openBehindAll_append]
    cases openBehindAll [] ts with
    | none => rfl
    | some s =>
        rw [Option.bind_some, openBehindAll, openBehind_neither hopen hclose]
        rfl
  rw [WellNested, WellNested, hsame]

theorem noBrace_of_items (h : FormsFile t) (hplain : ∀ l, ¬ t.Plain l) (hm : m ∈ t.nodes)
    (hitems : ∀ c ∈ items, c.isKind .item = true) (hsub : ∀ c ∈ items, c ∈ m.children) :
    ∀ token ∈ directTokensOf items, NoBrace token := by
  refine noBrace_of_direct (fun c hc hnone => ?_) fun c hc x hx => ?_
  · have hitem := hitems c hc
    rw [isKind, hnone] at hitem
    cases hitem
  · have hmem := mem_nodes_of_child_of_mem hm (hsub c hc) hx
    exact ⟨holdsBraces_of_file h x hmem, strayBraces_of_not_plain h hplain x hmem⟩

theorem statementsNested_leaf (l : Leaf) : StatementsNested [.leaf l] := by
  intro c hc x hx
  rw [List.mem_singleton.mp hc] at hx
  cases hx

theorem patternsOf_leaf (l : Leaf) : patternsOf [.leaf l] = [] := rfl

/-- The tokens directly in the file or in a block are well nested exactly when those of its statements and
its patterns are. -/
theorem wellNested_holder (h : FormsFile t) (hplain : ∀ l, ¬ t.Plain l) (hm : m ∈ t.nodes)
    (hkind : m = t ∨ m.isKind .block = true) :
    WellNested m.directTokens ↔ StatementsNested m.children ∧ WellNested (patternsOf m.children) := by
  rcases hkind with rfl | hblock
  · rcases formsItems_of_formsFile h with ⟨n, items, ending, rfl, hending, hitems⟩
    have hbrace := noBrace_of_items h hplain hm
      (fun c hc => (formed_of_formsItems hitems c hc).2) fun c hc => List.mem_append_left _ hc
    have hdirect : (Tree.node n .sourceFile (items ++ [.leaf ending])).directTokens =
        directTokensOf items ++ [ending.token] := by
      rw [directTokens, directTokensOf_append]
      rfl
    rw [hdirect, wellNested_snoc (by rw [hending]; rfl) (by rw [hending]; rfl),
      wellNested_items hitems hbrace, children, statementsNested_append, patternsOf_append,
      patternsOf_leaf, List.append_nil]
    simp only [statementsNested_leaf, and_true]
  · cases m with
    | leaf l => cases hblock
    | node n k cs =>
        rw [isKind_node, beq_iff_eq] at hblock
        subst hblock
        rcases eq_or_formed_of_file h hm with heq | hformed
        · rcases items_of_formsFile h with ⟨n', items, ending, rfl, _⟩
          cases heq
        rcases (formsBraces_iff cs).mp (braces_of_formed hformed) with
          ⟨left, items, right, rfl, hleft, hright, hitems⟩
        have hbrace := noBrace_of_items h hplain hm
          (fun c hc => (formed_of_formsItems hitems c hc).2)
          fun c hc => List.mem_cons_of_mem _ (List.mem_append_left _ hc)
        rw [directTokens_block, wellNested_braces_iff hleft hright hbrace,
          wellNested_items hitems hbrace, children, ← List.singleton_append, statementsNested_append,
          statementsNested_append, patternsOf_append, patternsOf_append, patternsOf_leaf,
          patternsOf_leaf, List.append_nil, List.nil_append]
        simp only [statementsNested_leaf, and_true, true_and]

theorem kind_of_parent (h : FormsFile t) (hm : m ∈ t.nodes) {c : Tree} {k : NodeKind}
    (hc : c ∈ m.children) (hkind : c.isKind k = true) : ∃ k', m.isKind k' = true ∧ k'.mayHold k = true := by
  cases m with
  | leaf l => cases hc
  | node n k' cs =>
      have hsuits := suits_of_file h hm c hc
      cases c with
      | leaf l => cases hkind
      | node n' k'' ds =>
          rw [isKind_node, beq_iff_eq] at hkind
          subst hkind
          exact ⟨k', by rw [isKind_node, beq_self_eq_true], hsuits⟩

theorem holder_of_statement (h : FormsFile t) (hm : m ∈ t.nodes) (hkind : m.isKind .statement = true) :
    ∃ holder ∈ t.nodes, (holder = t ∨ holder.isKind .block = true) ∧
      ∃ c ∈ holder.children, m ∈ c.children := by
  rcases items_of_formsFile h with ⟨n, items, ending, rfl, _⟩
  rcases exists_parent_node _ hm with rfl | ⟨item, hitem, hchild⟩
  · cases hkind
  rcases kind_of_parent h hitem hchild hkind with ⟨k, hk, hholds⟩
  have hitemKind : item.isKind .item = true := by
    cases k <;> first | exact hk | cases hholds
  rcases exists_parent_node _ hitem with rfl | ⟨holder, hholder, hchild'⟩
  · cases hitemKind
  refine ⟨holder, hholder, ?_, item, hchild', hchild⟩
  rcases kind_of_parent h hholder hchild' hitemKind with ⟨k', hk', hholds'⟩
  rcases eq_or_formed_of_file h hholder with heq | hformed
  · exact .inl heq
  · cases k' with
    | block => exact .inr hk'
    | sourceFile =>
        cases shape_of_formed hformed <;> cases hk'
    | _ => cases hholds'

end Grammar

namespace Tree

open ForceTry.Grammar ForceTry.Bracket

theorem countsBrackets_of_file {t : Tree} (h : FormsFile t) (hnodup : t.leaves.Nodup) :
    t.CountsBrackets := by
  have hholds := holdsBraces_of_file h
  have hnode : t.kind? ≠ none := by
    rcases items_of_formsFile h with ⟨n, items, ending, rfl, _⟩
    exact Option.some_ne_none _
  have hone : ∀ {p : Leaf → Bool} {l : Leaf}, l ∈ t.leaves → p l = true →
      (t.leaves.filter p).count l = 1 := by
    intro p l hl hp
    rw [List.count_filter hp]
    exact hnodup.count.trans (if_pos hl)
  constructor
  · intro m hm hkind
    rcases phrase_of_file h hm hkind with ⟨f, previous, next, hphrase⟩
    cases m with
    | leaf l => rcases hkind with hkind | hkind <;> cases hkind
    | node n k cs => exact balanced_of_phrase hphrase
  · intro l hl hkind
    rw [countP_filterMap, ← leftBraces_eq t hnode hholds]
    exact hone hl (by simpa [isLeftBrace] using hkind)
  · intro l hl hkind
    have hcount := hone hl (show isRightBrace l = true by simpa [isRightBrace] using hkind)
    rw [rightBraces_eq t hnode hholds] at hcount
    rw [countP_filterMap, ← mem_stray_iff h, ← List.count_pos_iff]
    omega

theorem plain_of_belong {t : Tree} (h : FormsFile t) (hstray : ∀ m ∈ t.nodes, m.strayBraces = [])
    (l : Leaf) : ¬ t.Plain l := by
  intro hplain
  rcases List.mem_flatMap.mp ((mem_stray_iff h).mpr hplain) with ⟨m, hm, hl⟩
  rw [hstray m hm] at hl
  cases hl

theorem wellNested_iff_matched {t : Tree} (h : FormsFile t) (hnodup : t.leaves.Nodup) :
    WellNested t.tokens ∧ t.BracesBelong ↔ t.Matched := by
  have hholds := holdsBraces_of_file h
  have hfile : t.kind? ≠ none ∧ t.isKind .block = false ∧ t ∈ t.nodes := by
    rcases items_of_formsFile h with ⟨n, items, ending, rfl, _⟩
    exact ⟨Option.some_ne_none _, rfl, List.mem_cons_self ..⟩
  have hstatement : (∀ l, ¬ t.Plain l) → ∀ m ∈ t.nodes, m.isKind .statement = true →
      (WellNested m.directTokens ↔ Paired m.directTokens) := by
    intro hplain m hm hkind
    exact wellNested_iff_paired ((countsBrackets_of_file h hnodup).phrases m hm (.inl hkind))
      (noBrace_of_statement h hplain hm hkind)
  constructor
  · intro hnested
    have hplain := plain_of_belong h ((bracesBelong_iff hfile.1 hholds hnodup).mp hnested.2)
    rcases (wellNested_iff hfile.1 hfile.2.1 hholds hnodup).mp hnested with ⟨hdirect, hblocks⟩
    have hholder : ∀ m ∈ t.nodes, m = t ∨ m.isKind .block = true →
        StatementsNested m.children ∧ WellNested (patternsOf m.children) := by
      intro m hm hkind
      apply (wellNested_holder h hplain hm hkind).mp
      rcases hkind with rfl | hblock
      · exact hdirect
      · exact hblocks m hm hblock
    refine ⟨hplain, fun m hm hkind => ?_, fun m hm hkind => (hholder m hm hkind).2⟩
    rcases holder_of_statement h hm hkind with ⟨holder, hmem, hholderKind, c, hc, hchild⟩
    exact (hstatement hplain m hm hkind).mp ((hholder holder hmem hholderKind).1 c hc m hchild hkind)
  · intro hmatched
    have hholder : ∀ m ∈ t.nodes, m = t ∨ m.isKind .block = true → WellNested m.directTokens := by
      intro m hm hkind
      refine (wellNested_holder h hmatched.braces hm hkind).mpr ⟨?_, hmatched.patterns m hm hkind⟩
      intro c hc x hx hxkind
      have hmem := mem_nodes_of_children hm hc hx hxkind
      exact (hstatement hmatched.braces x hmem hxkind).mpr (hmatched.statements x hmem hxkind)
    rw [wellNested_iff hfile.1 hfile.2.1 hholds hnodup]
    exact ⟨hholder t hfile.2.2 (.inl rfl), fun m hm hblock => hholder m hm (.inr hblock)⟩

/-- What the parser makes sure of for the brackets of a source that has a tree, and what it leaves open: all
brackets are well nested and all braces are those of blocks exactly when the tree is matched. -/
theorem ofText_wellNested_iff {source : Text} {t : Tree} (h : ofText source = .ok t) :
    t.CountsBrackets ∧ (WellNested t.tokens ∧ t.BracesBelong ↔ t.Matched) := by
  rcases ofText_forms h with ⟨ts, _, _, hleaves, hforms, _⟩
  have hnodup := nodup_of_toLeaves hleaves
  exact ⟨countsBrackets_of_file hforms hnodup, wellNested_iff_matched hforms hnodup⟩

theorem ofText_wellNested_iff_closure :
    ∃ t, ofText (Text.ofString "f([a], \x7b try! g(x[0]) \x7d)\n") = .ok t ∧ t.CountsBrackets ∧
      (WellNested t.tokens ∧ t.BracesBelong ↔ t.Matched) ∧ WellNested t.tokens := by
  have hnested : (ofText (Text.ofString "f([a], \x7b try! g(x[0]) \x7d)\n")).toOption.map
      (fun t => decide (WellNested t.tokens)) = some true := by
    decide +kernel
  rcases Option.map_eq_some_iff.mp hnested with ⟨t, ht, hnested⟩
  have hok := eq_ok_of_toOption ht
  exact ⟨t, hok, (ofText_wellNested_iff hok).1, (ofText_wellNested_iff hok).2,
    of_decide_eq_true hnested⟩

/-- Sources with a tree whose brackets are not well nested. -/
theorem ofText_not_wellNested :
    (∃ t, ofText (Text.ofString "(\x7d)") = .ok t ∧ ¬ WellNested t.tokens) ∧
      ∃ t, ofText (Text.ofString "f(]") = .ok t ∧ ¬ WellNested t.tokens := by
  have hread : ∀ source, (ofText source).toOption.map (fun t => decide (WellNested t.tokens)) =
      some false → ∃ t, ofText source = .ok t ∧ ¬ WellNested t.tokens := by
    intro source hsource
    rcases Option.map_eq_some_iff.mp hsource with ⟨t, ht, hnot⟩
    exact ⟨t, eq_ok_of_toOption ht, of_decide_eq_false hnot⟩
  exact ⟨hread _ (by decide +kernel), hread _ (by decide +kernel)⟩

end Tree
end ForceTry

import ForceTry.Proofs.Indentation.Comments
import ForceTry.Proofs.Pass.Carried

/-!
# What stays of a source

The tokens and comments of a source are its lexemes.  What the pass does to them is written down as a
script: it goes through the old and the new lexemes side by side and says for each what becomes of
it.  A `try` that loses its mark keeps all comments that stood around the mark.
-/

namespace ForceTry

inductive Lexeme where
  | comment (text : Text)
  | token (kind : TokenKind) (text : Text)
  deriving DecidableEq, Repr

namespace Lexeme

def comment? : Lexeme → Option Text
  | comment text => some text
  | token _ _ => none

def isForceMark : Lexeme → Bool
  | token kind _ => kind == .exclamationMark
  | comment _ => false

end Lexeme

namespace Token

/-- The comments in front of a token, the token, and the comments behind it. -/
def lexemes (t : Token) : List Lexeme :=
  t.leading.comments.map .comment ++ .token t.kind t.text :: t.trailing.comments.map .comment

end Token

namespace Tree

/-- The lexemes of a tree in source order. -/
def lexemes (t : Tree) : List Lexeme := t.tokens.flatMap Token.lexemes

end Tree

inductive Change where
  | keep (e : Lexeme)
  | unmark (mark : Text) (front behind : List Text)
  | insert (kind : TokenKind) (text : Text)

namespace Change

def before : Change → List Lexeme
  | keep e => [e]
  | unmark mark front behind =>
      .token .keyword "try".toList :: (front.map .comment ++
        .token .exclamationMark mark :: behind.map .comment)
  | insert _ _ => []

def after : Change → List Lexeme
  | keep e => [e]
  | unmark _ front behind =>
      .token .keyword "try".toList :: (front.map .comment ++ behind.map .comment)
  | insert kind text => [.token kind text]

def isUnmark : Change → Bool
  | unmark _ _ _ => true
  | _ => false

def inserted? : Change → Option (TokenKind × Text)
  | insert kind text => some (kind, text)
  | _ => none

end Change

def openingTokens : List (TokenKind × Text) :=
  [(.keyword, "do".toList), (.leftBrace, ['\x7b'])]

def closingTokens (placeholder : Text) : List (TokenKind × Text) :=
  [(.rightBrace, ['\x7d']), (.keyword, "catch".toList), (.leftBrace, ['\x7b']),
   (.editorPlaceholder, placeholder), (.rightBrace, ['\x7d'])]

/-- The new tokens of `n` wrapped statements, which stand next to or inside one another. -/
inductive Wrappings (placeholder : Text) : Nat → List (TokenKind × Text) → Prop where
  | none : Wrappings placeholder 0 []
  | append {n m : Nat} {a b : List (TokenKind × Text)} (h : Wrappings placeholder n a)
      (h' : Wrappings placeholder m b) : Wrappings placeholder (n + m) (a ++ b)
  | wrap {n : Nat} {a : List (TokenKind × Text)} (h : Wrappings placeholder n a) :
      Wrappings placeholder (n + 1) (openingTokens ++ a ++ closingTokens placeholder)

/-- A script from old to new lexemes in which `unmarked` marks go and `wrapped` statements are
wrapped. -/
structure Script (placeholder : Text) (unmarked wrapped : Nat) (old new : List Lexeme)
    (changes : List Change) : Prop where
  before : changes.flatMap Change.before = old
  after : changes.flatMap Change.after = new
  unmarked : changes.countP Change.isUnmark = unmarked
  wrapped : Wrappings placeholder wrapped (changes.filterMap Change.inserted?)

namespace Script

variable {placeholder : Text} {n m n' m' : Nat} {old new old' new' : List Lexeme}
  {changes changes' : List Change}

theorem append (h : Script placeholder n m old new changes)
    (h' : Script placeholder n' m' old' new' changes') :
    Script placeholder (n + n') (m + m') (old ++ old') (new ++ new') (changes ++ changes') := by
  constructor
  · rw [List.flatMap_append, h.before, h'.before]
  · rw [List.flatMap_append, h.after, h'.after]
  · rw [List.countP_append, h.unmarked, h'.unmarked]
  · rw [List.filterMap_append]
    exact h.wrapped.append h'.wrapped

theorem keep (placeholder : Text) (es : List Lexeme) :
    Script placeholder 0 0 es es (es.map .keep) := by
  induction es with
  | nil => exact ⟨rfl, rfl, rfl, .none⟩
  | cons e es ih =>
      have hone : Script placeholder 0 0 [e] [e] [.keep e] := ⟨rfl, rfl, rfl, .none⟩
      exact hone.append ih

theorem wrap (h : Script placeholder n m old new changes) :
    Script placeholder n (m + 1) old
      (openingTokens.map (fun t => .token t.1 t.2) ++ new ++
        (closingTokens placeholder).map fun t => .token t.1 t.2)
      (openingTokens.map (fun t => .insert t.1 t.2) ++ changes ++
        (closingTokens placeholder).map fun t => .insert t.1 t.2) := by
  constructor
  · rw [List.flatMap_append, List.flatMap_append, h.before]
    exact List.append_nil _
  · rw [List.flatMap_append, List.flatMap_append, h.after]
    rfl
  · rw [List.countP_append, List.countP_append, h.unmarked]
    exact Nat.zero_add _
  · rw [List.filterMap_append, List.filterMap_append]
    exact .wrap h.wrapped

/-- Comments at the start of the new lexemes stay, so the script can be cut behind them. -/
theorem cut {cs : List Text} (h : Script placeholder n m old (cs.map .comment ++ new) changes) :
    ∃ rest, changes = (cs.map .comment).map .keep ++ rest ∧ ∃ old',
      old = cs.map .comment ++ old' ∧ Script placeholder n m old' new rest := by
  induction cs generalizing old changes with
  | nil => exact ⟨changes, rfl, old, rfl, h⟩
  | cons c cs ih =>
      cases changes with
      | nil => cases h.after
      | cons change changes =>
          have hafter := h.after
          cases change with
          | insert kind text => cases hafter
          | unmark mark front behind => cases hafter
          | keep e =>
              rw [List.flatMap_cons] at hafter
              injection hafter with he hafter
              have hbefore := h.before
              rw [List.flatMap_cons] at hbefore
              rcases ih ⟨rfl, hafter, h.unmarked, h.wrapped⟩ with
                ⟨rest, hrest, old', hold, hscript⟩
              refine ⟨rest, by rw [hrest, he]; rfl, old', ?_, hscript⟩
              rw [← hbefore, hold, he]
              rfl

theorem comments (h : Script placeholder n m old new changes) :
    new.filterMap Lexeme.comment? = old.filterMap Lexeme.comment? := by
  rw [← h.before, ← h.after]
  clear h
  induction changes with
  | nil => rfl
  | cons change changes ih =>
      rw [List.flatMap_cons, List.flatMap_cons, List.filterMap_append, List.filterMap_append, ih]
      congr 1
      cases change with
      | keep e => rfl
      | insert kind text => rfl
      | unmark mark front behind =>
          have hmark : Lexeme.comment? (.token .exclamationMark mark) = none := rfl
          have hkeyword : Lexeme.comment? (.token .keyword "try".toList) = none := rfl
          rw [Change.before, Change.after, List.filterMap_cons, List.filterMap_cons, hkeyword,
            List.filterMap_append, List.filterMap_append, List.filterMap_cons, hmark]

theorem sublist (h : Script placeholder n m old new changes) :
    (old.filter fun e => !e.isForceMark).Sublist new := by
  rw [← h.before, ← h.after]
  clear h
  induction changes with
  | nil => exact .slnil
  | cons change changes ih =>
      rw [List.flatMap_cons, List.flatMap_cons, List.filter_append]
      apply List.Sublist.append _ ih
      cases change with
      | keep e => exact List.filter_sublist
      | insert kind text => exact List.nil_sublist _
      | unmark mark front behind =>
          have hfront := @List.filter_sublist _ (fun e : Lexeme => !e.isForceMark) (front.map .comment)
          have hbehind := @List.filter_sublist _ (fun e : Lexeme => !e.isForceMark)
            (behind.map .comment)
          apply List.Sublist.cons_cons
          rw [List.filter_append]
          exact hfront.append hbehind

end Script

/-!
# Lexemes of dressed tokens
-/

def lexemesOf (ts : List Token) : List Lexeme := ts.flatMap Token.lexemes

theorem lexemesOf_append (ts us : List Token) :
    lexemesOf (ts ++ us) = lexemesOf ts ++ lexemesOf us := by
  rw [lexemesOf, List.flatMap_append, ← lexemesOf, ← lexemesOf]

theorem lexemesOf_cons (t : Token) (ts : List Token) :
    lexemesOf (t :: ts) = t.lexemes ++ lexemesOf ts := rfl

namespace DoCatch

open ForceTry.Tree

structure Layout.NoComments (o : Layout) : Prop where
  base : o.base.comments = []
  newline : o.newline.comments = []

theorem lexemesOf_trimLast (ts : List Token) : lexemesOf (trimLast ts) = lexemesOf ts := by
  fun_induction trimLast ts with
  | case1 => rfl
  | case2 t =>
      rw [lexemesOf_cons, lexemesOf_cons, Token.lexemes, Token.lexemes,
        Trivia.comments_withoutTrailingBlanks]
  | case3 t ts _ ih => rw [lexemesOf_cons, lexemesOf_cons, ih]

variable {o : Layout} (ho : o.NoComments)

include ho

theorem comments_deeper : o.deeper.comments = [] := IndentUnit.comments_addedTo o.unit ho.base

theorem lexemes_shift (t : Token) : (Token.shift o.base o.deeper t).lexemes = t.lexemes := by
  have hshift := @Trivia.comments_shift o.base o.deeper ho.base (comments_deeper ho)
  rw [Token.shift, Token.lexemes, Token.lexemes, hshift, hshift]

theorem comments_split (t : Token) :
    (o.split t).1.comments ++ (o.split t).2.comments = t.leading.comments := by
  rw [Layout.split, splitLeading]
  split
  · rw [Trivia.comments_append, ho.base, List.append_nil, Trivia.comments_strip ho.base,
      ← Trivia.comments_append, Trivia.throughLastNewline_append_afterLastNewline]
  · exact List.append_nil _

theorem lexemes_dressFirst (t : Token) :
    (o.split t).1.comments.map .comment ++ (o.dressFirst t).lexemes = t.lexemes := by
  have hshift := @Trivia.comments_shift o.base o.deeper ho.base (comments_deeper ho)
  have hlexemes : t.lexemes = t.leading.comments.map .comment ++
      .token t.kind t.text :: t.trailing.comments.map .comment := rfl
  rw [hlexemes, ← comments_split ho t, List.map_append, List.append_assoc]
  congr 1
  rw [Layout.dressFirst, Token.lexemes, Token.shift, Trivia.comments_append, Trivia.comments_append,
    ho.newline, comments_deeper ho, hshift, hshift]
  rfl

theorem lexemes_dress (ts : List Token) :
    (o.doLeading ts).comments.map .comment ++ lexemesOf (o.dress ts) = lexemesOf ts := by
  rw [← lexemesOf_trimLast ts, Layout.doLeading, Layout.dress]
  cases trimLast ts with
  | nil => rfl
  | cons first rest =>
      have hrest : lexemesOf (rest.map (Token.shift o.base o.deeper)) = lexemesOf rest := by
        rw [lexemesOf, lexemesOf, List.flatMap_map]
        congr 1
        funext t
        exact lexemes_shift ho t
      rw [lexemesOf_cons, lexemesOf_cons, ← List.append_assoc, hrest]
      congr 1
      exact lexemes_dressFirst ho first

omit ho in
theorem comments_blanksBehind (ts : List Token) : (blanksBehind ts).comments = [] := by
  unfold blanksBehind
  cases ts.getLast? with
  | none => rfl
  | some t =>
      apply Trivia.comments_eq_nil
      intro p hp
      rw [Option.map_some, Option.getD_some, Trivia.trailingBlanks, List.mem_reverse] at hp
      exact List.all_eq_true.mp List.all_takeWhile p hp

theorem lexemesOf_wrappedTokens (ts : List Token) :
    lexemesOf (o.wrappedTokens ts) =
      (o.doLeading ts).comments.map .comment ++
        (openingTokens.map (fun t => .token t.1 t.2) ++ lexemesOf (o.dress ts) ++
          (closingTokens o.placeholder).map fun t => .token t.1 t.2) := by
  have hright : (o.newline ++ o.base).comments = [] := by
    rw [Trivia.comments_append, ho.newline, ho.base]
    rfl
  have hplaceholder : (o.newline ++ o.deeper).comments = [] := by
    rw [Trivia.comments_append, ho.newline, comments_deeper ho]
    rfl
  have hblanks := comments_blanksBehind ts
  have hspace : Trivia.comments [Piece.spaces 1] = [] := rfl
  simp only [Layout.wrappedTokens, Layout.opening, Layout.closing, openingTokens, closingTokens,
    lexemesOf, Token.lexemes, List.flatMap_append, List.flatMap_cons, List.flatMap_nil,
    Token.leftBrace, Token.rightBrace, Token.placeholder, hright, hplaceholder, hblanks]
  simp [hspace]

end DoCatch
/-!
# The script of a pass
-/

namespace Pass

open ForceTry.DoCatch ForceTry.Tree ForceTry.Grammar

theorem layout_noComments (pass : Pass) (old : Tree) : (pass.layout old).NoComments :=
  ⟨comments_lineIndentation pass.root old, comments_newlineStyle _⟩

theorem comments_trailingOfTry (keyword mark : Token) (operand : Tree) :
    (trailingOfTry keyword mark operand).comments =
      (keyword.trailing ++ mark.leading).comments ++ mark.trailing.comments := by
  rw [trailingOfTry]
  split
  · next h =>
      rw [Bool.and_eq_true, List.isEmpty_iff, List.append_eq_nil_iff] at h
      rw [h.1.1, h.1.2]
      rfl
  · exact Trivia.comments_append _ _

theorem script_unmark (placeholder : Text) {keyword mark : Token} (operand : Tree)
    (hkeyword : keyword.isKeyword "try" = true) (hmark : mark.kind = .exclamationMark) :
    ∃ changes, Script placeholder 1 0 (keyword.lexemes ++ mark.lexemes)
      ({ keyword with trailing := trailingOfTry keyword mark operand } : Token).lexemes changes := by
  have hparts : keyword.kind = .keyword ∧ keyword.text = "try".toList := by
    rw [Token.isKeyword, Bool.and_eq_true, beq_iff_eq, beq_iff_eq] at hkeyword
    exact hkeyword
  have hcomments := comments_trailingOfTry keyword mark operand
  have hone : Script placeholder 1 0
      (.token keyword.kind keyword.text :: (keyword.trailing.comments.map .comment ++ mark.lexemes))
      (.token keyword.kind keyword.text ::
        (trailingOfTry keyword mark operand).comments.map .comment)
      [.unmark mark.text (keyword.trailing ++ mark.leading).comments mark.trailing.comments] := by
    constructor
    · rw [Token.lexemes, hparts.1, hparts.2, hmark]
      simp [Change.before]
    · rw [hcomments, hparts.1, hparts.2]
      simp [Change.after]
    · rfl
    · exact .none
  have hall := (Script.keep placeholder (keyword.leading.comments.map .comment)).append hone
  rw [show keyword.lexemes ++ mark.lexemes = _ from List.append_assoc _ _ _]
  exact ⟨_, hall⟩

/-- There is a script from the tokens `ts` to `us` in which `wrapped` statements are wrapped and
`extra` more marks go. -/
def Scripts (placeholder : Text) (extra wrapped : Nat) (ts us : List Token) : Prop :=
  ∃ changes, Script placeholder (wrapped + extra) wrapped (lexemesOf ts) (lexemesOf us) changes

theorem Scripts.refl (placeholder : Text) (ts : List Token) : Scripts placeholder 0 0 ts ts :=
  ⟨_, Script.keep placeholder (lexemesOf ts)⟩

theorem Scripts.append {placeholder : Text} {e e' n n' : Nat} {ts ts' us us' : List Token}
    (h : Scripts placeholder e n ts us) (h' : Scripts placeholder e' n' ts' us') :
    Scripts placeholder (e + e') (n + n') (ts ++ ts') (us ++ us') := by
  rcases h with ⟨changes, h⟩
  rcases h' with ⟨changes', h'⟩
  refine ⟨changes ++ changes', ?_⟩
  have hall := h.append h'
  have hcount : n + e + (n' + e') = n + n' + (e + e') := Nat.add_add_add_comm n e n' e'
  rwa [hcount, ← lexemesOf_append, ← lexemesOf_append] at hall

theorem Scripts.wrap {o : Layout} (ho : o.NoComments) {n : Nat} {ts us : List Token}
    (h : Scripts o.placeholder 1 n ts us) :
    Scripts o.placeholder 0 (n + 1) ts (o.wrappedTokens us) := by
  rcases h with ⟨changes, h⟩
  rw [← lexemes_dress ho us] at h
  rcases h.cut with ⟨rest, _, old, hold, hrest⟩
  have hfront := Script.keep o.placeholder ((o.doLeading us).comments.map .comment)
  have hall := hfront.append hrest.wrap
  rw [← hold, ← lexemesOf_wrappedTokens ho, Nat.zero_add] at hall
  exact ⟨_, hall⟩

theorem carries_scripts (pass : Pass) (file : Tree) :
    pass.Carries file (Scripts pass.style.placeholder) := by
  constructor
  · exact Scripts.refl _ []
  · exact fun t => Scripts.refl _ [t]
  · exact Scripts.append
  · intro k n keyword mark operand _ hkeyword hmark hoperand
    rcases script_unmark pass.style.placeholder (pass.rewritten operand) hkeyword hmark with
      ⟨changes, hscript⟩
    rcases hoperand with ⟨changes', hscript'⟩
    have hall := hscript.append hscript'
    rw [Nat.zero_add, Nat.add_zero, Nat.add_comm] at hall
    refine ⟨changes ++ changes', ?_⟩
    simpa [unmarked, lexemesOf, List.append_assoc] using hall
  · exact fun t hts => Scripts.wrap (layout_noComments pass t) hts

theorem script_of_formsFile (pass : Pass) {t : Tree} (h : FormsFile t) :
    ∃ changes, Script pass.style.placeholder (forcedItemsOf [t]) (forcedItemsOf [t]) t.lexemes
      (pass.rewritten t).lexemes changes := by
  rcases (carries_scripts pass t).of_formsFile h with ⟨ts, us, ending, hold, hnew, -, hscripts⟩
  rcases hscripts.append (Scripts.refl _ [ending]) with ⟨changes, hscript⟩
  rw [← hold, ← hnew] at hscript
  exact ⟨changes, hscript⟩

end Pass
end ForceTry

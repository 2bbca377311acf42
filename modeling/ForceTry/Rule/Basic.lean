import ForceTry.Indentation.Shift
import ForceTry.Outcome

/-!
# Rules

A rule looks at one node.  `check` says whether the rule applies to it, and `refactor` answers the
items that take the place of the item around it.  What a rule needs to know of the surroundings
comes with a context; what the context leaves open is looked up under the root.
-/

namespace ForceTry

/-- How generated code looks: the indentation unit for files that show none, with the name under
which it is reported, and the text that stands where code is still to be written.  A unit that the
settings get wrong is a fault only for those who ask for it. -/
structure Style where
  fallback : Except Fault (IndentUnit × Text)
  placeholder : Text

namespace Style

def ofUnit (u : IndentUnit) (placeholder : Text) : Style := ⟨.ok (u, u.describe), placeholder⟩

def standard : Style := ofUnit .standard Token.defaultPlaceholder

/-- The unit that a tree shows, or the fallback, with its name.  A wrong fallback is a fault even
where it is not needed. -/
def unitFor (style : Style) (root : Option Tree) : Except Fault (IndentUnit × Text) := do
  let fallback ← style.fallback
  match root.bind Tree.inferUnit? with
  | some u => .ok (u, u.describe)
  | none => .ok fallback

end Style

structure Context where
  root : Option Tree
  statement : Option Tree
  unit : Option IndentUnit
  base : Option Trivia
  atLineStart : Option Bool
  style : Style

abbrev Build := StateT Nat (Except Fault)

instance : MonadLift Fresh Build where
  monadLift x := fun n => .ok (x n)

structure Rule where
  name : Text
  description : Text
  implementation : Text
  accepts : KindFilter
  usesStyle : Bool
  check : Tree → Outcome Tree
  refactor : Tree → Context → Build (Outcome (List Tree))

namespace Rule

def acceptsNode (r : Rule) (t : Tree) : Bool := t.matchesFilter r.accepts

def describe (r : Rule) : Text :=
  r.implementation ++ Text.ofString "(name=" ++ r.name.quoted ++ [')']

end Rule
end ForceTry

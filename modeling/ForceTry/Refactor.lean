import ForceTry.Comments
import ForceTry.Pass
import ForceTry.Settings.Basic
import ForceTry.Text.Blank

/-!
# Refactoring a source

The operations on a source text: `Refactor.source` applies a rule to it, `Refactor.passes` does so
several times, and `Refactor.candidates` lists the nodes that a rule looks at.
-/

namespace ForceTry
namespace Refactor

/-- A tree that holds something made of settings that are no text cannot be written out, which is a
fault.  `known` is the unit, where the settings do not give it. -/
def written (rule : Rule) (settings : Settings) (known : Option IndentUnit) (report : Pass.Report) :
    Except Fault Pass.Report :=
  if rule.usesStyle && 0 < report.applied && !settings.writes known then .error .badKind
  else .ok report

def tree (rule : Rule) (settings : Settings) (t : Tree) (debug : Bool) (next : Nat) :
    Except Fault (Pass.Report × Details) := do
  let (report, metadata) ← applyRule rule t settings.style debug next
  .ok (← written rule settings t.inferUnit? report, metadata)

/-- Applies a rule with a given unit and otherwise with the style of the settings. -/
def treeIn (unit : IndentUnit) (rule : Rule) (settings : Settings) (t : Tree) (debug : Bool)
    (next : Nat) : Except Fault Pass.Report := do
  written rule settings (some unit) (← (Pass.mk rule t unit settings.style debug).run next)

/-- The rule of a name and the tree of a source, with the next unused label. -/
def prepare (registry : Registry) (rule file source : Text) : Except Fault (Rule × Tree × Nat) := do
  let r ← registry.resolve rule
  match Tree.ofTextFrom 0 source with
  | .ok (t, next) => .ok (r, t, next)
  | .error e => .error (.ofSyntax file e)

/-- Applies the rule of a name to a source.  `file` names the source in messages.  A source that is
not changed comes back as it is; a changed one is looked at first, if the settings say so. -/
def source (registry : Registry) (settings : Settings) (rule file source : Text) (debug : Bool) :
    Except Fault (Outcome Text) :=
  match prepare registry rule file source with
  | .error e => .ok (.failure e [("source".toList, .text file)])
  | .ok (r, t, next) => do
      let (report, metadata) ← tree r settings t debug next
      let metadata := metadata.put "source".toList (.text file)
      let code := report.tree.code
      if code ≠ source && settings.validateOutput.isTruthy then
        match Comments.checkResult file source code with
        | .ok () => .ok (.success code metadata)
        | .error e => .ok (.failure e metadata)
      else .ok (.success code metadata)

def unnamed : Text := Text.ofString "<string>"

/-- Applies the standard rule `n` times, each time to what came out before, and ends early behind
an outcome that is no success. -/
def passes (settings : Settings) (debug : Bool) : Nat → Text → Except Fault (List (Outcome Text))
  | 0, _ => .ok []
  | n + 1, text => do
      let outcome ← source .standard settings DoCatch.name unnamed text debug
      match outcome with
      | .success code _ => .ok (outcome :: (← passes settings debug n code))
      | _ => .ok [outcome]

/-- A node that a rule looks at. -/
structure Candidate where
  position : Position
  snippet : Text
  reason : Option Text
  deriving DecidableEq, Repr

namespace Candidate

def isApplicable (c : Candidate) : Bool := c.reason.isNone

def describe (file : Text) (c : Candidate) : Text :=
  let status := match c.reason with
    | none => Text.ofString "applicable"
    | some r => Text.ofString "skipped: " ++ r
  file ++ [':'] ++ c.position.describe ++ [':', ' '] ++ c.snippet ++ [' ', '['] ++ status ++ [']']

end Candidate

def candidate? (rule : Rule) (positions : List (Nat × Position)) (t : Tree) : Option Candidate :=
  (t.startIn? positions).map fun position =>
    let reason := match rule.check t with
      | .success _ _ => none
      | .failure e _ => some e.message
      | .skipped e _ => some ((e.map Fault.message).getD (Value.display .null))
    ⟨position, t.code.squeezed, reason⟩

/-- The nodes of a source that the rule of a name looks at, in source order. -/
def candidates (registry : Registry) (rule file source : Text) : Except Fault (List Candidate) := do
  let (r, t, _) ← prepare registry rule file source
  .ok ((t.findAll r.accepts).filterMap (candidate? r t.leafPositions))

end Refactor
end ForceTry

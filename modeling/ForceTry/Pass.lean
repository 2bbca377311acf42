import ForceTry.Rule.Registry
import ForceTry.Tree.Transform

/-!
# Passes

A pass applies one rule to every statement of a tree, at most once to each.  Statements in nested
blocks come before the statement that contains them.  For each statement the rule is asked about the
nodes that belong directly to it, in source order and up to the first success; the items it answers
take the place of the statement.

A node that the rule declines counts as skipped.  Any other refusal is recorded as an error and
changes nothing, except that `debug` lets a failure of the rule itself stop the pass.  Trees may be
of any depth, and an interrupt is no refusal.
-/

namespace ForceTry

/-- The state of a pass: the next unused label and the tally. -/
structure Progress where
  next : Nat
  applied : Nat
  skipped : Nat
  errors : List Text
  deriving DecidableEq, Repr

namespace Progress

def start (next : Nat) : Progress := ⟨next, 0, 0, []⟩

def supply (p : Progress) : Nat × Progress := (p.next, { p with next := p.next + 1 })

def addError (e : Text) (p : Progress) : Progress := { p with errors := p.errors ++ [e] }

end Progress

def debugRequested (setting : Option Text) : Bool :=
  setting.any fun t => ["1", "true", "True"].any (·.toList == t)

structure Pass where
  rule : Rule
  root : Tree
  unit : IndentUnit
  style : Style
  debug : Bool

namespace Pass

abbrev Run := StateT Progress (Except Fault)

/-- The context of the item `updated`, which was `old` before its nested items were refactored.
Lines are looked up under the root, so where the old item stands. -/
def context (pass : Pass) (old updated : Tree) : Context where
  root := some pass.root
  statement := some updated
  unit := some pass.unit
  base := some (pass.root.lineIndentation old)
  atLineStart := some (Tree.startsLine (some pass.root) old)
  style := pass.style

/-- Asks the rule about candidates until it succeeds.  The answer `none` says that it never did. -/
def tryCandidates (pass : Pass) (ctx : Context) : List Tree → Run (Option (List Tree))
  | [] => pure none
  | c :: cs => do
      let progress ← get
      match pass.rule.refactor c ctx progress.next with
      | .error e =>
          if pass.debug then throw e
          set (progress.addError e.raisedText)
          tryCandidates pass ctx cs
      | .ok (outcome, next) =>
          let progress := { progress with next := max progress.next next }
          match outcome with
          | .success items _ =>
              set { progress with applied := progress.applied + 1 }
              pure (some items)
          | .failure e _ =>
              if e.isNotApplicable then set { progress with skipped := progress.skipped + 1 }
              else set (progress.addError e.message)
              tryCandidates pass ctx cs
          | .skipped e _ =>
              set (progress.addError ((e.map Fault.message).getD (Value.display .null)))
              tryCandidates pass ctx cs

def onItem (pass : Pass) (old updated : Tree) : Run Replacement := do
  let oldCandidates := old.directCandidates pass.rule.accepts
  if oldCandidates.isEmpty then return .one updated
  let candidates := updated.directCandidates pass.rule.accepts
  if candidates.length != oldCandidates.length then return .one updated
  match ← tryCandidates pass (pass.context old updated) candidates with
  | some items => return .many items
  | none => return .one updated

def transformation (pass : Pass) : Transformation Progress Fault where
  supply := Progress.supply
  unspliceable := .unspliceable
  enters _ := true
  onLeaf l := pure (.leaf l)
  onNode old updated :=
    if old.isKind .item then onItem pass old updated else pure (.one updated)

structure Report where
  tree : Tree
  applied : Nat
  skipped : Nat
  errors : List Text
  next : Nat

def run (pass : Pass) (next : Nat) : Except Fault Report := do
  let (replacement, progress) ← (pass.root.transform pass.transformation).run (Progress.start next)
  match replacement with
  | .one tree => .ok ⟨tree, progress.applied, progress.skipped, progress.errors, progress.next⟩
  | .many _ => .error .splicedRoot

/-- A pass with the unit that the tree shows or the style gives; the second part is the name of the
unit. -/
def ofStyle (rule : Rule) (root : Tree) (style : Style) (debug : Bool) :
    Except Fault (Pass × Text) := do
  let (unit, unitName) ← style.unitFor (some root)
  .ok (⟨rule, root, unit, style, debug⟩, unitName)

end Pass

namespace Pass.Report

def metadata (report : Report) (rule : Rule) (unitName : Text) : Details :=
  [("rule".toList, .text rule.name),
   ("applied".toList, .int report.applied),
   ("skipped".toList, .int report.skipped),
   ("errors".toList, .list (report.errors.map .text)),
   ("indentation_unit".toList, .text unitName)]

end Pass.Report

def applyRule (rule : Rule) (tree : Tree) (style : Style) (debug : Bool) (next : Nat) :
    Except Fault (Pass.Report × Details) := do
  let (pass, unitName) ← Pass.ofStyle rule tree style debug
  let report ← pass.run next
  .ok (report, report.metadata rule unitName)

end ForceTry

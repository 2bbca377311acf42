import ForceTry.Command.Basic
import ForceTry.Rule.DoCatch

/-!
# Arguments of the command line

A command is its name with options and operands in any order.  An option has a long name behind two
dashes, and perhaps a letter behind one dash; several letters can share a dash.  The value of an
option stands behind `=`, behind its letter, or in the next argument.  Behind `--` all arguments are
operands, and the last value of an option counts.

Main operation: `Command.ofArguments`.
-/

namespace ForceTry

inductive Switch where
  | rule
  | inPlace
  | diff
  | config
  | logLevel
  | debug
  | help
  deriving DecidableEq, Repr

namespace Switch

def name : Switch → String
  | rule => "rule"
  | inPlace => "in-place"
  | diff => "diff"
  | config => "config"
  | logLevel => "log-level"
  | debug => "debug"
  | help => "help"

def letter? : Switch → Option Char
  | inPlace => some 'i'
  | config => some 'c'
  | _ => none

def takesValue : Switch → Bool
  | rule | config | logLevel => true
  | inPlace | diff | debug | help => false

end Switch

inductive UsageFault where
  | unknownOption (name : Text)
  | missingValue (s : Switch)
  | unexpectedValue (s : Switch)
  | missingCommand
  | unknownCommand (name : Text)
  | missingOperand
  | unexpectedOperand
  deriving DecidableEq, Repr

namespace UsageFault

def message : UsageFault → Text
  | unknownOption name => Text.ofString "No such option: " ++ name
  | missingValue s => Text.ofString s!"Option --{s.name} requires an argument."
  | unexpectedValue s => Text.ofString s!"Option --{s.name} does not take a value."
  | missingCommand => Text.ofString "Missing command."
  | unknownCommand name => Text.ofString "No such command " ++ name ++ ['.']
  | missingOperand => Text.ofString "Missing argument SOURCE_FILES."
  | unexpectedOperand => Text.ofString "Got unexpected extra argument."

end UsageFault

/-! ## Options and operands -/

/-- The options that are given, with their values, and the operands. -/
structure Given where
  options : List (Switch × Text)
  operands : List Text
  deriving DecidableEq, Repr

namespace Given

def nothing : Given := ⟨[], []⟩

def addOption (s : Switch) (value : Text) (g : Given) : Given :=
  { g with options := (s, value) :: g.options }

def addOperand (t : Text) (g : Given) : Given := { g with operands := t :: g.operands }

def has (g : Given) (s : Switch) : Bool := g.options.any (·.1 == s)

def value? (g : Given) (s : Switch) : Option Text :=
  (g.options.reverse.find? (·.1 == s)).map Prod.snd

end Given

/-- One argument that holds options: those that are complete, and one whose value is the next
argument. -/
structure Cluster where
  complete : List (Switch × Text)
  open? : Option Switch

namespace Cluster

def ofLetters (allowed : List Switch) : Text → Except UsageFault Cluster
  | [] => .ok ⟨[], none⟩
  | c :: t =>
      match allowed.find? (·.letter? == some c) with
      | none => .error (.unknownOption ['-', c])
      | some s =>
          if !s.takesValue then do
            let rest ← ofLetters allowed t
            .ok { rest with complete := (s, []) :: rest.complete }
          else if t = [] then .ok ⟨[], some s⟩
          else .ok ⟨[(s, t)], none⟩

def ofLong (allowed : List Switch) (t : Text) : Except UsageFault Cluster :=
  let name := t.takeWhile (· != '=')
  let value? := if name.length < t.length then some (t.drop (name.length + 1)) else none
  match allowed.find? (·.name.toList == name), value? with
  | none, _ => .error (.unknownOption ('-' :: '-' :: name))
  | some s, some v => if s.takesValue then .ok ⟨[(s, v)], none⟩ else .error (.unexpectedValue s)
  | some s, none => .ok (if s.takesValue then ⟨[], some s⟩ else ⟨[(s, [])], none⟩)

def ofArgument? (allowed : List Switch) : Text → Option (Except UsageFault Cluster)
  | '-' :: '-' :: t => some (ofLong allowed t)
  | '-' :: c :: t => some (ofLetters allowed (c :: t))
  | _ => none

end Cluster

namespace Given

def readFrom (allowed : List Switch) : (waiting : Option Switch) → List Text →
    Except UsageFault Given
  | none, [] => .ok nothing
  | some s, [] => .error (.missingValue s)
  | some s, t :: ts => (readFrom allowed none ts).map (addOption s t)
  | none, t :: ts =>
      if t = ['-', '-'] then .ok ⟨[], ts⟩
      else
        match Cluster.ofArgument? allowed t with
        | none => (readFrom allowed none ts).map (addOperand t)
        | some (.error e) => .error e
        | some (.ok cluster) => do
            let rest ← readFrom allowed cluster.open? ts
            .ok { rest with options := cluster.complete ++ rest.options }

def read (allowed : List Switch) (args : List Text) : Except UsageFault Given :=
  readFrom allowed none args

end Given

/-! ## Commands -/

namespace Command

inductive Name where
  | convert
  | scan
  | rules
  | version
  deriving DecidableEq, Repr

namespace Name

def text : Name → String
  | convert => "convert"
  | scan => "scan"
  | rules => "rules"
  | version => "version"

def all : List Name := [convert, scan, rules, version]

def ofText? (t : Text) : Option Name := all.find? (·.text.toList == t)

def switches : Name → List Switch
  | convert => [.rule, .inPlace, .diff, .config, .logLevel, .debug, .help]
  | scan => [.rule, .config, .help]
  | rules | version => [.help]

def takesSources : Name → Bool
  | convert | scan => true
  | rules | version => false

end Name

def ofGiven (name : Name) (g : Given) : Command :=
  let rule := (g.value? .rule).getD DoCatch.name
  match name with
  | .convert =>
      .convert ⟨g.operands, rule, g.has .inPlace, g.has .diff, g.value? .config,
        g.value? .logLevel, g.has .debug⟩
  | .scan => .scan ⟨g.operands, rule, g.value? .config⟩
  | .rules => .rules
  | .version => .version

def ofNamed (name : Name) (args : List Text) : Except UsageFault Command := do
  let g ← Given.read name.switches args
  if g.has .help then .ok .help
  else if name.takesSources && g.operands.isEmpty then .error .missingOperand
  else if !name.takesSources && !g.operands.isEmpty then .error .unexpectedOperand
  else .ok (ofGiven name g)

/-- Goes over the options before the name of a command, which can only ask for help.  `asked` says
that they have done so. -/
def ofArgumentsFrom (asked : Bool) : List Text → Except UsageFault Command
  | [] => if asked then .ok .help else .error .missingCommand
  | t :: ts =>
      match Cluster.ofArgument? [.help] t with
      | some cluster =>
          if t = ['-', '-'] then
            if asked then .ok .help else named ts
          else do
            let _ ← cluster
            ofArgumentsFrom true ts
      | none => if asked then .ok .help else named (t :: ts)
where
  named : List Text → Except UsageFault Command
    | [] => .error .missingCommand
    | t :: ts =>
        match Name.ofText? t with
        | some name => ofNamed name ts
        | none => .error (.unknownCommand t)

def ofArguments (args : List Text) : Except UsageFault Command := ofArgumentsFrom false args

end Command
end ForceTry

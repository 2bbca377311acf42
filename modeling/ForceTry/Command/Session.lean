import ForceTry.Command.Basic
import ForceTry.LogLevel
import ForceTry.Patch.Unified
import ForceTry.Settings.Load
import ForceTry.Store.Refactor
import ForceTry.Text.Lines

/-!
# Running commands

A command works on a store, and writes to the output and to the error output.  It ends with a
status: zero, one if a file failed, and two if it was used wrongly; or it is broken off by a fault
for which no message is planned.

What the program takes from elsewhere are its `Libraries`: how files are read and written, how settings are
checked and documents are read, and which command arguments stand for.

Main operation: `Command.run`.
-/

namespace ForceTry

/-- What the program takes from elsewhere. -/
structure Libraries extends Store.Host where
  schemas : SchemaLibrary
  document : Text → Except Text Value
  arguments : List Text → Except Text Command

/-- The state of a command: the store, and what has been written, last part first. -/
structure Session where
  store : Store
  output : List Text
  errors : List Text

inductive Stop where
  | status (n : Nat)
  | fault (e : Fault)

structure Ending where
  store : Store
  output : Text
  errors : Text
  status : Nat
  fault? : Option Fault

namespace Command

abbrev Action (α : Type) := ExceptT Stop (StateM Session) α

/-! ## Parts of commands -/

def print (t : Text) : Action Unit := modify fun s => { s with output := t :: s.output }

def printLine (t : Text) : Action Unit := print (t ++ ['\n'])

def complain (t : Text) : Action Unit :=
  modify fun s => { s with errors := (t ++ ['\n']) :: s.errors }

def refuse {α : Type} (status : Nat) (t : Text) : Action α := do
  complain t
  throw (.status status)

def orBreak {α : Type} (x : Except Fault α) : Action α :=
  match x with
  | .ok a => pure a
  | .error e => throw (.fault e)

variable (libs : Libraries)

def loadSettings (config : Option Text) : Action Settings := do
  match config with
  | none => return .standard
  | some name =>
      let content := (← get).store.fetchNamed libs.device name
      match Settings.load libs.codecs libs.schemas libs.document name content with
      | .success s _ => return s
      | .failure e _ =>
          refuse 1 (Text.ofString "Error loading configuration file: " ++ e.message)
      | .skipped _ _ => return .standard

def checkRule (rule : Text) : Action Unit := do
  if (Registry.standard.get? rule).isNone then
    refuse 2 (Text.ofString "Error: unknown rule " ++ ['\x27'] ++ rule ++ ['\x27'] ++
      Text.ofString ". Available: " ++ Text.join [',', ' '] Registry.standard.names)

def findSources (given : List Text) : Action (List Path) := do
  let found := (← get).store.sources (given.map Path.ofText)
  if found.isEmpty then refuse 2 (Text.ofString "Error: no Swift source files found.")
  else return found

def complainAbout (p : Path) (e : Fault) : Action Unit :=
  complain (p.text ++ Text.ofString ": error: " ++ e.message)

def report (p : Path) (t : Text) : Action Unit := printLine (p.text ++ [':', ' '] ++ t)

/-- Works on all files and ends with the status one if `work` fails for one of them. -/
def forEach (work : Path → Action Bool) (files : List Path) : Action Unit := do
  let done ← files.mapM work
  if done.all id then pure () else throw (.status 1)

/-! ## The commands -/

def logLevel (o : ConvertOptions) (settings : Settings) : Except Fault LogLevel :=
  if o.debug then .ok (.ofDebug true)
  else
    match o.logLevel, settings.logLevel with
    | some name, _ => LogLevel.ofName name
    | none, .text name => LogLevel.ofName name
    | none, _ => .error .badKind

def showConverted (o : ConvertOptions) (settings : Settings) (p : Path) (code : Text)
    (metadata : Details) : Action Unit := do
  if o.diff then
    let before ← orBreak ((← get).store.readText libs.toHost settings.encoding p)
    print (Patch.unified p.text before code)
  else if o.inPlace then
    match metadata.get? "written".toList with
    | some (.bool true) =>
        let applied := (metadata.get? "applied".toList).getD (.int 0)
        report p (Text.ofString "rewrote " ++ applied.display ++ Text.ofString " statement(s)")
    | _ => report p (Text.ofString "unchanged")
  else print code

def convertFile (o : ConvertOptions) (plan : Store.Plan) (p : Path) : Action Bool := do
  let (store, outcome) := (← get).store.refactor libs.toHost plan p
  modify fun s => { s with store }
  match ← orBreak outcome with
  | .success code metadata =>
      showConverted libs o plan.settings p code metadata
      return true
  | .failure e _ =>
      complainAbout p e
      return false
  | .skipped _ metadata =>
      let reason := (metadata.get? "reason".toList).getD .null
      report p (Text.ofString "skipped: " ++ reason.display)
      return true

def convertAll (o : ConvertOptions) (debug : Bool) : Action Unit := do
  if o.inPlace && o.diff then
    refuse 2 (Text.ofString "Error: --in-place and --diff cannot be used together.")
  let settings ← loadSettings libs o.config
  let _ ← orBreak (logLevel o settings)
  checkRule o.rule
  let files ← findSources o.sources
  forEach (convertFile libs o ⟨settings, o.rule, o.inPlace, debug⟩) files

def scanFile (o : ScanOptions) (settings : Settings) (p : Path) : Action Bool := do
  let store := (← get).store
  let found : Except Fault (List Refactor.Candidate) := do
    let code ← store.readText libs.toHost settings.encoding p
    Refactor.candidates .standard o.rule p.text (Text.unifyReturns code)
  match found with
  | .ok candidates =>
      candidates.forM fun c => printLine (c.describe p.text)
      return true
  | .error e =>
      if Store.isReported e || e.details?.isSome then
        complainAbout p e
        return false
      else throw (.fault e)

def scanAll (o : ScanOptions) : Action Unit := do
  let settings ← loadSettings libs o.config
  checkRule o.rule
  forEach (scanFile libs o settings) (← findSources o.sources)

def listRules : Action Unit :=
  Registry.standard.rules.forM fun r => printLine (r.name ++ [':', ' '] ++ r.description)

def programName : String := "swift-refactor"

def programVersion : String := "2025.1.0"

def usage : Text :=
  Text.ofString s!"Usage: {programName} [OPTIONS] COMMAND [ARGS]...\n\n" ++
    Text.ofString "Commands:\n" ++
    Text.ofString "  convert  Apply a refactoring rule to Swift files.\n" ++
    Text.ofString "  scan     List candidate nodes and whether the rule applies to each.\n" ++
    Text.ofString "  rules    List the available refactoring rules.\n" ++
    Text.ofString s!"  version  Show the version of {programName}.\n"

def action (debug : Bool) : Command → Action Unit
  | .convert o => convertAll libs o debug
  | .scan o => scanAll libs o
  | .rules => listRules
  | .version => printLine (Text.ofString s!"{programName} {programVersion}")
  | .help => print usage

def rejectUsage (why : Text) : Action Unit := do
  complain usage
  refuse 2 (Text.ofString "Error: " ++ why)

def run (store : Store) (debug : Bool) (args : List Text) : Ending :=
  let action := match libs.arguments args with
    | .ok c => c.action libs debug
    | .error why => rejectUsage why
  let (result, s) := action.run.run ⟨store, [], []⟩
  let (status, fault?) := match result with
    | .ok () => (0, none)
    | .error (.status n) => (n, none)
    | .error (.fault e) => (1, some e)
  ⟨s.store, s.output.reverse.flatten, s.errors.reverse.flatten, status, fault?⟩

end Command
end ForceTry

import ForceTry.Command.Standard

/-!
# The program

The command line works on a picture of the files that its arguments name.  The picture is taken
before the command runs, and what the command has changed in it is written afterwards.  Links are followed
when the picture is taken, so that two names of one file are two files in it.
-/

namespace ForceTry
namespace Program

/-- Where a path leads if every name on the way but the one for the directory above is that of
something below. -/
def locationOf (home : Location) (p : Path) : Location :=
  p.names.foldl (fun l name => if name = Path.above then l.dropLast else l ++ [name])
    (if p.rooted then [] else home)

def systemName (l : Location) : String := (Path.mk true l).text.toString

def addEntry (s : Store) (l : Location) : IO Store := do
  let path := (← IO.currentDir) / systemName l
  if ← path.isDir then return s.add l .directory
  else if ← path.pathExists then return s.add l (.file (← IO.FS.readBinFile path).toList)
  else return s

def addSource (s : Store) (l : Location) : IO Store := do
  let name := l.getLast?.getD []
  let copy := l.dropLast ++ [name ++ Store.backupEnding]
  [l, copy, copy ++ [name]].foldlM addEntry s

/-- Adds to a picture what stands at a location, and for a directory the sources below it. -/
partial def addSources (s : Store) (l : Location) : IO Store := do
  let path := (← IO.currentDir) / systemName l
  if ← path.isDir then
    let mut s := s.add l .directory
    for entry in ← path.readDir do
      let below := l ++ [entry.fileName.toList]
      if ← entry.path.isDir then s ← addSources s below
      else if Text.endsWith Store.sourceEnding entry.fileName.toList then s ← addSource s below
    return s
  else addSource s l

def addWay (s : Store) (p : Path) : IO Store :=
  (List.range p.names.length).foldlM
    (fun s n => addEntry s (locationOf s.home { p with names := p.names.take n })) s

def picture (home : Location) (c : Command) : IO Store := do
  let mut s := Store.emptyAt home
  for source in c.sources do
    let p := Path.ofText source
    s ← addWay s p
    s ← addSources s (locationOf home p)
  if let some config := c.config? then
    let p := Path.ofText config
    s ← addWay s p
    s ← addEntry s (locationOf home p)
  return s

def pictureFor (args : List Text) : IO Store := do
  let home := (Path.ofText (← IO.currentDir).toString.toList).names
  match Command.ofArguments args with
  | .ok c => picture home c
  | .error _ => return .emptyAt home

def save (before after : Store) : IO Unit := do
  for (l, e) in after.changes before do
    match e with
    | .file content => IO.FS.writeBinFile (systemName l) ⟨content.toArray⟩
    | .directory => pure ()

end Program
end ForceTry

open ForceTry in
def main (args : List String) : IO UInt32 := do
  let args := args.map String.toList
  let debug := debugRequested ((← IO.getEnv "SWIFT_REFACTOR_DEBUG").map String.toList)
  let before ← Program.pictureFor args
  let ending := Command.run .standard before debug args
  Program.save before ending.store
  (← IO.getStdout).putStr ending.output.toString
  (← IO.getStderr).putStr ending.errors.toString
  if let some e := ending.fault? then
    (← IO.getStderr).putStrLn e.message.toString
  return UInt32.ofNat ending.status

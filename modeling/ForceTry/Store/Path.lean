import ForceTry.Text.Basic

/-!
# Paths

A path is the list of the names on the way to a file, from the directory where the way starts.  Two
slashes count as one, and names that say nothing but "here" are left out; the name that leads back
to the directory above stays, because what is above is known only where the path is followed.
-/

namespace ForceTry

structure Path where
  /-- the way starts at the top and not at the working directory -/
  rooted : Bool
  names : List Text
  deriving DecidableEq, Repr

namespace Path

def here : Text := ['.']

def above : Text := ['.', '.']

def ofText (t : Text) : Path where
  rooted := Text.startsWith ['/'] t
  names := (Text.split '/' t).filter fun n => n != [] && n != here

def text (p : Path) : Text :=
  let way := Text.join ['/'] p.names
  if p.rooted then '/' :: way else if p.names.isEmpty then here else way

def within (p : Path) (names : List Text) : Path := { p with names := p.names ++ names }

def name (p : Path) : Text := p.names.getLast?.getD []

def addEnding (ending : Text) (p : Path) : Path :=
  { p with names := p.names.dropLast ++ [p.name ++ ending] }

def isBroken (p : Path) : Bool := p.names.any (·.contains '\x00')

end Path
end ForceTry

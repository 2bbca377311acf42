import ForceTry.Fault

/-!
# Levels of logging

A level is given by its name in letters of any size.  A name that is none stands for the level of
information, except for two names that are taken and cannot be levels.
-/

namespace ForceTry

/-- How much is logged: what is at least as grave as the level. -/
inductive LogLevel where
  | everything
  | debug
  | info
  | warning
  | error
  | critical
  deriving DecidableEq, Repr

namespace LogLevel

def number : LogLevel → Nat
  | everything => 0
  | debug => 10
  | info => 20
  | warning => 30
  | error => 40
  | critical => 50

def table : List (String × LogLevel) :=
  [("NOTSET", everything), ("DEBUG", debug), ("INFO", info), ("WARNING", warning),
   ("WARN", warning), ("ERROR", error), ("CRITICAL", critical), ("FATAL", critical)]

/-- A letter of the names of levels in its large form.  Besides the small letters there are two more
that have such a form: the dotless i and the long s. -/
def largeLetter (c : Char) : Char :=
  if c = '\u0131' then 'I' else if c = '\u017f' then 'S' else c.toUpper

def basicFormat : String := "%(levelname)s:%(name)s:%(message)s"

def ofName (name : Text) : Except Fault LogLevel :=
  let large := name.map largeLetter
  match table.find? fun (n, _) => n.toList == large with
  | some (_, level) => .ok level
  | none =>
      if large = "BASIC_FORMAT".toList then
        .error (.badValue (Text.ofString "Unknown level: " ++ Text.quoted basicFormat.toList))
      else if large = "_STYLES".toList then .error .badKind
      else .ok .info

def ofDebug (debug : Bool) : LogLevel := if debug then .debug else .info

end LogLevel
end ForceTry

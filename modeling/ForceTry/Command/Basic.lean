import ForceTry.Text.Basic

/-!
# Commands

What the command line can ask for.  How the arguments of a command line are read is not said here.
-/

namespace ForceTry

structure ConvertOptions where
  sources : List Text
  rule : Text
  inPlace : Bool
  diff : Bool
  config : Option Text
  logLevel : Option Text
  debug : Bool
  deriving DecidableEq, Repr

structure ScanOptions where
  sources : List Text
  rule : Text
  config : Option Text
  deriving DecidableEq, Repr

inductive Command where
  | convert (o : ConvertOptions)
  | scan (o : ScanOptions)
  | rules
  | version
  | help
  deriving DecidableEq, Repr

namespace Command

def sources : Command → List Text
  | convert o => o.sources
  | scan o => o.sources
  | rules | version | help => []

def config? : Command → Option Text
  | convert o => o.config
  | scan o => o.config
  | rules | version | help => none

end Command
end ForceTry

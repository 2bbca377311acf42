import ForceTry.Command.Arguments
import ForceTry.Command.Session
import ForceTry.Encoding.Basic
import ForceTry.Settings.Lax
import ForceTry.Yaml.Document

/-!
# The libraries of the command line

The answers that the command line gives to what the program leaves open: the registered encodings, lax
checks of settings, documents in YAML, arguments with options, and a device that never fails.
-/

namespace ForceTry

def Libraries.standard : Libraries where
  codecs := Encoding.codecs
  device := .sound
  schemas := Lax.library
  document t := (Yaml.read t).mapError Yaml.Flaw.message
  arguments args := (Command.ofArguments args).mapError UsageFault.message

end ForceTry

import ForceTry.Encoding.Codec
import ForceTry.Tree.Parser
import ForceTry.Value.Basic

/-!
# Faults

Everything that can go wrong, by cause, with the kind and the message of each cause and the details
that some of them carry.  Interrupts, and what stops a program for want of depth or of memory, are
none of these.
-/

namespace ForceTry

inductive FileFault where
  | missing (path : Text)
  | isDirectory (path : Text)
  | notDirectory (path : Text)
  | other (message : Text)
  deriving DecidableEq, Repr

namespace FileFault

def message : FileFault → Text
  | missing path => Text.ofString "[Errno 2] No such file or directory: " ++ path.quoted
  | isDirectory path => Text.ofString "[Errno 21] Is a directory: " ++ path.quoted
  | notDirectory path => Text.ofString "[Errno 20] Not a directory: " ++ path.quoted
  | other message => message

def kind : FileFault → String
  | missing _ => "FileNotFoundError"
  | isDirectory _ => "IsADirectoryError"
  | notDirectory _ => "NotADirectoryError"
  | other _ => "OSError"

end FileFault

inductive Fault where
  | refactoring (message : Text) (details : Details)
  | parse (message file : Text) (line column : Option Int)
  | notApplicable (reason : Text) (details : Details)
  | validation (message : Text) (file : Option Text)
  | configuration (message : Text) (key : Option Text)
  | badValue (message : Text)
  | badKind
  | unspliceable (place : String)
  | splicedRoot
  | fileSystem (fault : FileFault)
  | decode (fault : DecodeFault)
  | encode
  | codec (why : Text)
  | noEncoding (fault : NameFault)
  | noConfiguration (path : Text)
  | noAttribute (package name : Text)
  | noValue (message : Text)
  | foreign (kind text : Text)

namespace Fault

def ofSyntax (file : Text) (e : SyntaxFault) : Fault :=
  .parse e.reason.message file (some e.position.line) (some e.position.column)

/-- The fault of a rule that does not apply.  An empty name of a rule or of a kind of node is left
out. -/
def declined (reason : Text) (rule nodeType : Option Text) (details : Details) : Fault :=
  let add (name : String) (t : Option Text) (d : Details) : Details :=
    match t with
    | some (c :: r) => d.put name.toList (.text (c :: r))
    | _ => d
  .notApplicable reason (add "node_type" nodeType (add "rule" rule details))

def ofRead : ReadFault → Fault
  | .decode fault => .decode fault
  | .refused why => .codec why

def ofWrite : WriteFault → Fault
  | .unencodable => .encode
  | .refused why => .codec why

def ofName : NameFault → Fault
  | .embeddedNull => .badValue NameFault.embeddedNull.message
  | fault => .noEncoding fault

def kind : Fault → Text
  | refactoring _ _ => Text.ofString "RefactorError"
  | parse _ _ _ _ => Text.ofString "ParseError"
  | notApplicable _ _ => Text.ofString "RefactoringNotApplicableError"
  | validation _ _ => Text.ofString "TransformationValidationError"
  | configuration _ _ => Text.ofString "ConfigurationError"
  | badValue _ => Text.ofString "ValueError"
  | badKind | unspliceable _ => Text.ofString "TypeError"
  | splicedRoot | noAttribute _ _ => Text.ofString "AttributeError"
  | fileSystem fault => Text.ofString fault.kind
  | decode _ => Text.ofString "UnicodeDecodeError"
  | encode => Text.ofString "UnicodeEncodeError"
  | codec _ => Text.ofString "UnicodeError"
  | noEncoding _ => Text.ofString "LookupError"
  | noConfiguration _ => Text.ofString "FileNotFoundError"
  | noValue _ => Text.ofString "RuntimeError"
  | foreign kind _ => kind

def message : Fault → Text
  | refactoring message _ => message
  | parse message file line column =>
      let place := match line with
        | none => []
        | some l => Text.ofString s!":{l}" ++ (column.map fun c => Text.ofString s!":{c}").getD []
      file ++ place ++ [':', ' '] ++ message
  | notApplicable reason _ => reason
  | validation message _ => message
  | configuration message _ => message
  | badValue message => message
  | badKind => []
  | unspliceable place => Text.ofString s!"Cannot flatten into single-node field '{place}'"
  | splicedRoot => []
  | fileSystem fault => fault.message
  | decode fault => fault.message
  | encode => []
  | codec why => why
  | noEncoding fault => fault.message
  | noConfiguration path => Text.ofString "Configuration file not found: " ++ path
  | noAttribute package name =>
      Text.ofString "module " ++ package.quoted ++ Text.ofString " has no attribute " ++ name.quoted
  | noValue message => message
  | foreign _ text => text

def nonempty : Option Text → Option Text
  | some (c :: r) => some (c :: r)
  | _ => none

def details? : Fault → Option Details
  | refactoring _ details => some details
  | parse _ file line column =>
      some ([("source_file".toList, .text file)] ++
        (line.map fun l => ("line".toList, Value.int l)).toList ++
        (column.map fun c => ("column".toList, Value.int c)).toList)
  | notApplicable _ details => some details
  | validation _ file =>
      some (("validation_type".toList, .ofString "output") ::
        ((nonempty file).map fun f => ("source_file".toList, Value.text f)).toList)
  | configuration _ key =>
      some ((nonempty key).map fun k => ("config_key".toList, Value.text k)).toList
  | _ => none

def isNotApplicable : Fault → Bool
  | notApplicable _ _ => true
  | _ => false

def raisedText (e : Fault) : Text := e.kind ++ [':', ' '] ++ e.message

end Fault
end ForceTry

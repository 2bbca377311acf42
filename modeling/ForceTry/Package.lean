import ForceTry.Command.Session

/-!
# The names of the package

What the package offers is found by name, and a module is loaded when a name of it is first asked for.

Main operation: `Package.lookup`.
-/

namespace ForceTry
namespace Package

inductive Attribute where
  | operation
  | kind
  | abstractKind
  | enumeration
  | module
  | text (value : Text)
  deriving DecidableEq, Repr

def name : Text := Text.ofString "swift_refactor"

def own : List (String × Attribute) :=
  [("__version__", .text (Text.ofString Command.programVersion)),
   ("__description__", .text (Text.ofString "Trivia-preserving refactorings for Swift source files")),
   ("__name__", .text name), ("__package__", .text name),
   ("__getattr__", .operation), ("__dir__", .operation)]

def loaded : List (String × Attribute) :=
  [("main", .module), ("cli", .module), ("refactor_source", .operation), ("refactor_file", .operation),
   ("scan_source", .operation), ("apply_refactoring", .operation), ("RefactoringApplier", .kind),
   ("ConvertToDoCatch", .abstractKind), ("RefactorContext", .kind), ("RefactoringRegistry", .kind),
   ("SyntaxRefactoringProvider", .abstractKind), ("default_registry", .operation),
   ("RefactorConfig", .kind), ("IndentationUnit", .kind), ("Result", .kind),
   ("ResultStatus", .enumeration), ("parse_source", .operation), ("RefactorError", .kind),
   ("ParseError", .kind), ("RefactoringNotApplicableError", .kind),
   ("TransformationValidationError", .kind), ("ConfigurationError", .kind)]

def modules : List String :=
  ["applier", "cli_helpers", "config", "config_validation", "debug", "exceptions", "indentation",
    "refactoring", "result", "syntax", "validation"]

def lookup (n : Text) : Except Fault Attribute :=
  match (own ++ loaded).find? (·.1.toList == n) with
  | some (_, a) => .ok a
  | none =>
      if modules.any (·.toList == n) then .ok .module else .error (.noAttribute name n)

end Package
end ForceTry

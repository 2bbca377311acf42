import ForceTry.Text.Quoted
import ForceTry.Value.Shortest

/-!
# Values

Data whose kind is known only when the program runs: what a configuration file holds, and what
errors and outcomes carry as details.
-/

namespace ForceTry

inductive Value where
  | null
  | bool (b : Bool)
  | int (n : Int)
  | float (x : Float)
  | text (t : Text)
  | bytes (content : List UInt8)
  | list (items : List Value)
  | map (entries : List (Value × Value))
  /-- a value of another kind, given by the name of the kind and its written form -/
  | other (kind shown : Text)
  deriving Inhabited

abbrev Details := List (Text × Value)

namespace Details

/-- Sets a name: in its old place when it is there, and at the end otherwise. -/
def put (name : Text) (v : Value) : Details → Details
  | [] => [(name, v)]
  | (n, w) :: rest => if n = name then (n, v) :: rest else (n, w) :: put name v rest

def putAll (d more : Details) : Details := more.foldl (fun d (n, v) => d.put n v) d

def get? (name : Text) (d : Details) : Option Value := (d.find? fun e => e.1 == name).map Prod.snd

end Details

namespace Value

def ofString (s : String) : Value := .text s.toList

def ofDetails (d : Details) : Value := .map (d.map fun (n, v) => (.text n, v))

def floatShape (x : Float) : NumberShape := NumberShape.ofBits x.toBits.toNat

def kind : Value → Text
  | null => Text.ofString "NoneType"
  | bool _ => Text.ofString "bool"
  | int _ => Text.ofString "int"
  | float _ => Text.ofString "float"
  | text _ => Text.ofString "str"
  | bytes _ => Text.ofString "bytes"
  | list _ => Text.ofString "list"
  | map _ => Text.ofString "dict"
  | other kind _ => kind

mutual

def shown : Value → Text
  | null => Text.ofString "None"
  | bool b => Text.ofString (if b then "True" else "False")
  | int n => Text.ofString (toString n)
  | float x => (floatShape x).describe
  | text t => t.quoted
  | bytes content => Text.quotedBytes content
  | list items => '[' :: Text.join [',', ' '] (shownItems items) ++ [']']
  | map entries => '\x7b' :: Text.join [',', ' '] (shownEntries entries) ++ ['\x7d']
  | other _ shown => shown

def shownItems : List Value → List Text
  | [] => []
  | v :: vs => shown v :: shownItems vs

def shownEntries : List (Value × Value) → List Text
  | [] => []
  | (k, v) :: es => (shown k ++ [':', ' '] ++ shown v) :: shownEntries es

end

/-- The value within a message: a text as it is, all else in its written form. -/
def display : Value → Text
  | text t => t
  | v => v.shown

def isText : Value → Bool
  | text _ => true
  | _ => false

def isTruthy : Value → Bool
  | null => false
  | bool b => b
  | int n => n != 0
  | float x => (floatShape x).integral? != some 0
  | text t => !t.isEmpty
  | bytes content => !content.isEmpty
  | list items => !items.isEmpty
  | map entries => !entries.isEmpty
  | other _ _ => true

end Value
end ForceTry

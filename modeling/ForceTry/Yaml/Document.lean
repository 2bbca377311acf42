import ForceTry.Yaml.Node

/-!
# Values of YAML documents

The value of a document is that of its only element.  A mapping has one entry for each key: the last
one that is written, in the place of the first.  Mappings to be merged into another one count as
written before its own entries, and the first of several has the last word.

Main operation: `Yaml.read`.
-/

namespace ForceTry
namespace Yaml

def numberOf? : Value → Option Int
  | .bool b => some (if b then 1 else 0)
  | .int n => some n
  | .float x => if x.isNaN || x.isInf then none else (Value.floatShape x).integral?
  | _ => none

def isSameKey (a b : Value) : Bool :=
  match numberOf? a, numberOf? b with
  | some m, some n => m == n
  | none, none =>
      match a, b with
      | .null, .null => true
      | .text s, .text t => s == t
      | .bytes a, .bytes b => a == b
      | .float x, .float y => x == y
      | .other k s, .other l t => k == l && s == t
      | _, _ => false
  | _, _ => false

def isKey (v : Value) : Bool := !(["list", "dict", "set"].any (·.toList == v.kind))

def putEntry (k v : Value) : List (Value × Value) → List (Value × Value)
  | [] => [(k, v)]
  | (l, w) :: rest => if isSameKey k l then (l, v) :: rest else (l, w) :: putEntry k v rest

def mappingOf (entries : List (Value × Value)) : List (Value × Value) :=
  entries.foldl (fun m (k, v) => putEntry k v m) []

def pairOf (a b : Value) : Value :=
  .other "tuple".toList ('(' :: a.shown ++ [',', ' '] ++ b.shown ++ [')'])

def setOf (keys : List Value) : Value :=
  .other "set".toList
    (if keys.isEmpty then "set()".toList
      else '\x7b' :: Text.join [',', ' '] (keys.map Value.shown) ++ ['\x7d'])

namespace Node

mutual

def value : Node → Except Flaw Value
  | .scalar tag t => tag.scalar t
  | .sequence tag items =>
      match tag with
      | .sequence => do return .list (← values items)
      | .orderedMap | .pairs => do return .list (← pairs items)
      | .merge | .standsFor | .unknown => .error .unknownTag
      | _ => .error .badValue
  | .mapping tag es =>
      match tag with
      | .mapping => do
          let (merged, own) ← entries es
          return .map (mappingOf (merged ++ own))
      | .set => do
          let (merged, own) ← entries es
          return setOf ((mappingOf (merged ++ own)).map Prod.fst)
      | .merge | .standsFor | .unknown => .error .unknownTag
      | _ => .error .badValue
  | .enclosing isMapping =>
      .ok (if isMapping then .other "dict".toList "\x7b...\x7d".toList
        else .other "list".toList "[...]".toList)

def values : List Node → Except Flaw (List Value)
  | [] => .ok []
  | n :: ns => do return (← value n) :: (← values ns)

def pairs : List Node → Except Flaw (List Value)
  | [] => .ok []
  | .mapping _ [(k, v)] :: ns => do
      let pair := pairOf (← value k) (← value v)
      return pair :: (← pairs ns)
  | _ :: _ => .error .badValue

def entries : List (Node × Node) → Except Flaw (List (Value × Value) × List (Value × Value))
  | [] => .ok ([], [])
  | (.scalar .merge _, v) :: es => do
      let found ← mergedEntries v
      let (merged, own) ← entries es
      return (found ++ merged, own)
  | (.scalar .standsFor t, v) :: es => do
      let w ← value v
      let (merged, own) ← entries es
      return (merged, (.text t, w) :: own)
  | (k, v) :: es => do
      let key ← value k
      let w ← value v
      let (merged, own) ← entries es
      if isKey key then return (merged, (key, w) :: own) else .error .badKey

def mergedEntries : Node → Except Flaw (List (Value × Value))
  | .mapping _ es => do
      let (merged, own) ← entries es
      return merged ++ own
  | .sequence _ items => do return (← mergedItems items).reverse.flatten
  | _ => .error .badValue

def mergedItems : List Node → Except Flaw (List (List (Value × Value)))
  | [] => .ok []
  | .mapping _ es :: ns => do
      let (merged, own) ← entries es
      return (merged ++ own) :: (← mergedItems ns)
  | _ :: _ => .error .badValue

end

end Node

def read (t : Text) : Except Flaw Value := do
  if !t.all isPrintable then throw .unprintable
  match ← Node.ofTokens? (← Token.ofText (unifyBreaks t)) with
  | some node => node.value
  | none => return .null

end Yaml
end ForceTry

import ForceTry.Yaml.Tag
import ForceTry.Yaml.Token

/-!
# Elements of YAML

The elements of a document: scalars, sequences and mappings, with their tags.  Names for elements
and tags are settled here, so that an element that is referred to stands at every place where it
counts.  A reference to an element from within itself is kept as such.

Main operation: `Node.ofTokens?`.
-/

namespace ForceTry
namespace Yaml

inductive Node where
  | scalar (tag : Tag) (text : Text)
  | sequence (tag : Tag) (items : List Node)
  | mapping (tag : Tag) (entries : List (Node × Node))
  /-- the sequence or mapping around this place to which a reference leads -/
  | enclosing (isMapping : Bool)

namespace Node

def empty : Node := .scalar (Tag.ofPlain []) []

structure Reading where
  tokens : List Token
  handles : List (Text × Text)
  named : List (Text × Node)

abbrev Reads (α : Type) := StateT Reading (Except Flaw) α

namespace Reads

def ahead : Reads (Option Token) := do return (← get).tokens.head?

def skip : Reads Unit := modify fun r => { r with tokens := r.tokens.drop 1 }

def next : Reads (Option Token) := do
  let t ← ahead
  skip
  return t

def takeIf (t : Token) : Reads Bool := do
  if (← ahead) = some t then
    skip
    return true
  else return false

def unlessAhead (stops : List Token) (read : Reads Node) : Reads Node := do
  if (← ahead).any stops.contains then return empty else read

def valueIf (stops : List Token) (read : Reads Node) : Reads Node := do
  if ← takeIf .value then unlessAhead stops read else return empty

def properties : Reads (Option Text × Option (Option Text × Text)) := do
  match ← ahead with
  | some (.anchor name) =>
      skip
      match ← ahead with
      | some (.tag mark suffix) =>
          skip
          return (some name, some (mark, suffix))
      | _ => return (some name, none)
  | some (.tag mark suffix) =>
      skip
      match ← ahead with
      | some (.anchor name) =>
          skip
          return (some name, some (mark, suffix))
      | _ => return (none, some (mark, suffix))
  | _ => return (none, none)

def fullName (tag : Option Text × Text) : Reads Text := do
  match tag with
  | (none, name) => return name
  | (some mark, suffix) =>
      match (← get).handles.find? fun (m, _) => m == mark with
      | some (_, replacement) => return replacement ++ suffix
      | none => throw .badTag

/-- The tag of an element that is written with `name`, and is `implied` where that says nothing. -/
def tagOr (implied : Tag) (name : Option Text) : Tag :=
  match name with
  | none => implied
  | some n => if n = ['!'] then implied else Tag.ofName n

def named (name : Text) : Reads Node := do
  match (← get).named.find? fun (n, _) => n == name with
  | some (_, node) => return node
  | none => throw (.unknownAnchor name)

def naming (name : Option Text) (within : Node) (read : Reads Node) : Reads Node := do
  match name with
  | none => read
  | some n =>
      if (← get).named.any fun (m, _) => m == n then throw (.repeatedAnchor n)
      modify fun r => { r with named := (n, within) :: r.named }
      let node ← read
      modify fun r => { r with named := (n, node) :: r.named }
      return node

end Reads

open Reads

mutual

/-- An element.  In a block it may be indented, and as a value of a mapping it may be a sequence
that is not. -/
def element (inBlock loose : Bool) : (fuel : Nat) → Reads Node
  | 0 => throw .badStructure
  | fuel + 1 => do
      if let some (.reference name) ← ahead then
        skip
        return ← named name
      let (name, written) ← properties
      let tag ← written.mapM fullName
      let sequence (items : Reads (List Node)) : Reads Node :=
        naming name (.enclosing false) do return .sequence (tagOr .sequence tag) (← items)
      let mapping (entries : Reads (List (Node × Node))) : Reads Node :=
        naming name (.enclosing true) do return .mapping (tagOr .mapping tag) (← entries)
      let scalar (implied : Tag) (t : Text) : Reads Node :=
        naming name empty do return .scalar (tagOr implied tag) t
      let missing : Reads Node :=
        if name.isSome || tag.isSome then scalar (Tag.ofPlain []) [] else throw .badStructure
      match ← ahead with
      | some (.scalar t isPlain) =>
          skip
          scalar (if isPlain || tag.isSome then Tag.ofPlain t else .text) t
      | some .bracketOpen =>
          skip
          sequence (flowItems true fuel)
      | some .braceOpen =>
          skip
          mapping (flowEntries true fuel)
      | some .entry => if loose then sequence (looseItems fuel) else missing
      | some .sequenceStart =>
          if inBlock then
            skip
            sequence (blockItems fuel)
          else missing
      | some .mappingStart =>
          if inBlock then
            skip
            mapping (blockEntries fuel)
          else missing
      | _ => missing

def blockItems : (fuel : Nat) → Reads (List Node)
  | 0 => throw .badStructure
  | fuel + 1 => do
      match ← next with
      | some .entry =>
          let item ← unlessAhead [.entry, .blockEnd] (element true false fuel)
          return item :: (← blockItems fuel)
      | some .blockEnd => return []
      | _ => throw .badStructure

def looseItems : (fuel : Nat) → Reads (List Node)
  | 0 => throw .badStructure
  | fuel + 1 => do
      if ← takeIf .entry then
        let item ← unlessAhead [.entry, .key, .value, .blockEnd] (element true false fuel)
        return item :: (← looseItems fuel)
      else return []

def blockEntries : (fuel : Nat) → Reads (List (Node × Node))
  | 0 => throw .badStructure
  | fuel + 1 => do
      match ← next with
      | some .key =>
          let stops := [Token.key, .value, .blockEnd]
          let k ← unlessAhead stops (element true true fuel)
          let v ← valueIf stops (element true true fuel)
          return (k, v) :: (← blockEntries fuel)
      | some .blockEnd => return []
      | _ => throw .badStructure

/-- The elements between brackets, to the closing one.  A key makes a mapping of one entry. -/
def flowItems (first : Bool) : (fuel : Nat) → Reads (List Node)
  | 0 => throw .badStructure
  | fuel + 1 => do
      if ← takeIf .bracketClose then return []
      if !first then
        unless ← takeIf .comma do throw .badStructure
      if ← takeIf .bracketClose then return []
      if ← takeIf .key then
        let k ← unlessAhead [.value, .comma, .bracketClose] (element false false fuel)
        let v ← valueIf [.comma, .bracketClose] (element false false fuel)
        return .mapping .mapping [(k, v)] :: (← flowItems false fuel)
      else
        let item ← element false false fuel
        return item :: (← flowItems false fuel)

def flowEntries (first : Bool) : (fuel : Nat) → Reads (List (Node × Node))
  | 0 => throw .badStructure
  | fuel + 1 => do
      if ← takeIf .braceClose then return []
      if !first then
        unless ← takeIf .comma do throw .badStructure
      if ← takeIf .braceClose then return []
      if ← takeIf .key then
        let k ← unlessAhead [.value, .comma, .braceClose] (element false false fuel)
        let v ← valueIf [.comma, .braceClose] (element false false fuel)
        return (k, v) :: (← flowEntries false fuel)
      else
        let k ← element false false fuel
        return (k, empty) :: (← flowEntries false fuel)

end

/-! ## Documents -/

def directives (versionSeen : Bool) (handles : List (Text × Text)) :
    List Token → Except Flaw (List (Text × Text) × List Token)
  | .directive d :: rest =>
      match d with
      | .version major _ =>
          if versionSeen || major != 1 then .error .badDirective else directives true handles rest
      | .tag mark replacement =>
          if handles.any fun (m, _) => m == mark then .error .badDirective
          else directives versionSeen ((mark, replacement) :: handles) rest
      | .other => directives versionSeen handles rest
  | rest => .ok (handles, rest)

def standardHandles : List (Text × Text) :=
  [(['!'], ['!']), (['!', '!'], Tag.namespaceName)]

def ofTokens? (tokens : List Token) : Except Flaw (Option Node) := do
  let (handles, rest) ← directives false [] tokens
  let marked := rest.head? == some .documentStart
  if rest.isEmpty && tokens.isEmpty then return none
  if !marked && rest.length != tokens.length then throw .badDirective
  let body := if marked then rest.drop 1 else rest
  let missing := marked && match body with
    | [] => true
    | t :: _ =>
        match t with
        | .directive _ | .documentStart | .documentEnd => true
        | _ => false
  let fuel := 2 * body.length + 2
  let read := if missing then pure empty else element true false fuel
  let (node, r) ← read.run ⟨body, handles ++ standardHandles, []⟩
  if r.tokens.all (· == .documentEnd) then return some node else throw .severalDocuments

end Node
end Yaml
end ForceTry

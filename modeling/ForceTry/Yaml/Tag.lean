import ForceTry.Value.Basic
import ForceTry.Yaml.Moment

/-!
# Tags of YAML

A tag says of which kind a value is.  A plain scalar without a tag has the kind that its characters
show (`Tag.ofPlain`), and `Tag.scalar` reads the characters of a scalar as a value of a kind.
-/

namespace ForceTry
namespace Yaml

inductive Tag where
  | null
  | bool
  | whole
  | floating
  | binary
  | moment
  | text
  | sequence
  | mapping
  | orderedMap
  | pairs
  | set
  | merge
  | standsFor
  | unknown
  deriving DecidableEq, Repr

namespace Tag

def namespaceName : Text := "tag:yaml.org,2002:".toList

def table : List (String × Tag) :=
  [("null", null), ("bool", bool), ("int", whole), ("float", floating), ("binary", binary),
   ("timestamp", moment), ("str", text), ("seq", sequence), ("map", mapping), ("omap", orderedMap),
   ("pairs", pairs), ("set", set), ("merge", merge), ("value", standsFor)]

def ofName (name : Text) : Tag :=
  match Text.after? namespaceName name with
  | some short => ((table.find? fun (n, _) => n.toList == short).map Prod.snd).getD unknown
  | none => unknown

def flagWords : List (String × Bool) :=
  [("yes", true), ("no", false), ("true", true), ("false", false), ("on", true), ("off", false)]

def spellings (word : String) : List Text :=
  [word.toList, word.capitalize.toList, word.toUpper.toList]

def nullWords : List Text := [[], ['~']] ++ spellings "null"

def ofPlain (t : Text) : Tag :=
  if flagWords.any fun (w, _) => (spellings w).contains t then bool
  else if isFloating t then floating
  else if isWhole t then whole
  else if t = ['<', '<'] then merge
  else if nullWords.contains t then null
  else if Moment.isWritten t then moment
  else if t = ['='] then standsFor
  else text

def flag? (t : Text) : Option Bool :=
  (flagWords.find? fun (w, _) => w.toList == t.map Char.toLower).map Prod.snd

/-! ## Bytes in base 64 -/

def digit64? (c : Char) : Option Nat :=
  if c.isUpper then some (c.toNat - 65)
  else if c.isLower then some (c.toNat - 71)
  else if c.isDigit then some (c.toNat + 4)
  else if c = '+' then some 62
  else if c = '/' then some 63
  else none

/-- The bytes that digits in base 64 stand for; other characters are passed over.  `held` holds the
bits that are no byte yet, of `count` digits in a group of four. -/
def bytes64? (held count padding : Nat) : Text → Option (List Nat)
  | [] => if count = 0 then some [] else none
  | c :: t =>
      if c = '=' then
        if 2 ≤ count ∧ 4 ≤ count + padding + 1 then some []
        else bytes64? held count (padding + 1) t
      else
        match digit64? c with
        | none => bytes64? held count padding t
        | some d =>
            match count with
            | 0 => bytes64? d 1 0 t
            | 1 => (bytes64? (d % 16) 2 0 t).map ((held * 4 + d / 16) :: ·)
            | 2 => (bytes64? (d % 4) 3 0 t).map ((held * 16 + d / 4) :: ·)
            | _ => (bytes64? 0 0 0 t).map ((held * 64 + d) :: ·)

/-! ## Values of scalars -/

def scalar (tag : Tag) (t : Text) : Except Flaw Value :=
  let orFlaw (v : Option Value) : Except Flaw Value := v.elim (.error .badValue) .ok
  match tag with
  | null => .ok .null
  | bool => orFlaw ((flag? t).map .bool)
  | whole => orFlaw ((whole? t).map .int)
  | floating => orFlaw ((floating? t).map .float)
  | text => .ok (.text t)
  | moment =>
      orFlaw ((Moment.read? t).map fun m => .other m.kind.toList m.shown.toList)
  | binary =>
      if t.all (·.toNat < 0x80) then
        orFlaw ((bytes64? 0 0 0 t).map fun bytes => .bytes (bytes.map UInt8.ofNat))
      else .error .badValue
  | merge | standsFor | unknown => .error .unknownTag
  | sequence | mapping | orderedMap | pairs | set => .error .badValue

end Tag
end Yaml
end ForceTry

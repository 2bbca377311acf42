import ForceTry.Fault
import ForceTry.Store.Path

/-!
# Files and directories

A store holds files and directories, each at the list of names that leads to it from the top, and
knows the working directory, where paths start that do not start at the top.  A path is followed
name by name, and each directory on the way must be there.  There are no links: a file has one
location, and a directory on the way is the one of that name.

What else the system may refuse is asked of a `Device`: looking at a place, reading it or opening it
for writing, and writing itself, which then leaves a part of the bytes.

Main operations: `Store.look`, `Store.fetch`, `Store.place`, `Store.fill` and `Store.sources`.
`get?_put` says what a change does to the view of the store as a function from places to entries.
-/

namespace ForceTry

abbrev Location := List Text

inductive Entry where
  | file (content : Bytes)
  | directory
  deriving DecidableEq, Repr

structure Store where
  home : Location
  entries : List (Location × Entry)
  deriving DecidableEq, Repr

namespace Store

def get? (s : Store) (l : Location) : Option Entry :=
  if l = [] then some .directory else (s.entries.find? (·.1 == l)).map Prod.snd

def putIn (l : Location) (e : Entry) : List (Location × Entry) → List (Location × Entry)
  | [] => [(l, e)]
  | (k, d) :: rest => if k = l then (l, e) :: rest else (k, d) :: putIn l e rest

def put (s : Store) (l : Location) (e : Entry) : Store := { s with entries := putIn l e s.entries }

theorem find?_putIn (l k : Location) (e : Entry) (es : List (Location × Entry)) :
    ((putIn l e es).find? (·.1 == k)).map Prod.snd =
      if k = l then some e else (es.find? (·.1 == k)).map Prod.snd := by
  induction es with
  | nil =>
      by_cases h : k = l
      · simp [putIn, h]
      · simp [putIn, h, Ne.symm h]
  | cons d rest ih =>
      obtain ⟨m, d⟩ := d
      by_cases hm : m = l
      · subst hm
        by_cases h : k = m
        · simp [putIn, h]
        · simp [putIn, h, Ne.symm h]
      · by_cases hk : m = k
        · subst hk
          simp [putIn, hm]
        · simp [putIn, hm, hk, ih]

theorem get?_put (s : Store) {l : Location} (hl : l ≠ []) (k : Location) (e : Entry) :
    (s.put l e).get? k = if k = l then some e else s.get? k := by
  by_cases hk : k = []
  · subst hk
    simp [get?, Ne.symm hl]
  · simp [get?, put, hk, find?_putIn]

def parents (l : Location) : List Location :=
  ((List.range l.length).map l.take).filter fun k => k != []

def add (s : Store) (l : Location) (e : Entry) : Store :=
  ((parents l).foldl (fun s k => if (s.get? k).isSome then s else s.put k .directory) s).put l e

def emptyAt (home : Location) : Store := (Store.mk home []).add home .directory

/-! ## Following paths -/

def follow (s : Store) (path : Text) (l : Location) : List Text → Except FileFault Location
  | [] => .ok l
  | name :: rest =>
      match s.get? l with
      | none => .error (.missing path)
      | some (.file _) => .error (.notDirectory path)
      | some .directory =>
          s.follow path (if name = Path.above then l.dropLast else l ++ [name]) rest

def locate (s : Store) (p : Path) : Except FileFault Location :=
  s.follow p.text (if p.rooted then [] else s.home) p.names

def stat (s : Store) (p : Path) : Except FileFault Entry := do
  match s.get? (← s.locate p) with
  | some e => .ok e
  | none => .error (.missing p.text)

def isDirectory (s : Store) (p : Path) : Bool :=
  match s.stat p with
  | .ok .directory => true
  | _ => false

def read (s : Store) (p : Path) : Except FileFault Bytes := do
  match ← s.stat p with
  | .file content => .ok content
  | .directory => .error (.isDirectory p.text)

def sizeOf : Entry → Nat
  | .file content => content.length
  | .directory => 4096

end Store

/-! ## Devices -/

/-- What is asked of the system for a place. -/
inductive Access where
  | look
  | read
  | copy
  | write
  deriving DecidableEq, Repr

/-- What the system refuses besides what the store shows, and where writing bytes to a place breaks
off: behind a number of bytes, with a fault. -/
structure Device where
  refuses? : Access → Store → Location → Option FileFault
  breaksOff? : Store → Location → Bytes → Option (Nat × FileFault)

namespace Device

def sound : Device := ⟨fun _ _ _ => none, fun _ _ _ => none⟩

def permit (device : Device) (a : Access) (s : Store) (l : Location) : Except FileFault Unit :=
  match device.refuses? a s l with
  | some e => .error e
  | none => .ok ()

end Device

namespace Store

def look (device : Device) (s : Store) (p : Path) : Except FileFault Entry := do
  let e ← s.stat p
  device.permit .look s (← s.locate p)
  return e

def fetch (device : Device) (s : Store) (a : Access) (p : Path) : Except FileFault Bytes := do
  let content ← s.read p
  device.permit a s (← s.locate p)
  return content

/-- The place of a file that is opened for writing, which may be there or not. -/
def place (device : Device) (s : Store) (p : Path) : Except FileFault Location := do
  let l ← s.locate p
  if s.get? l = some .directory then .error (.isDirectory p.text)
  else do
    device.permit .write s l
    return l

def fill (device : Device) (s : Store) (l : Location) (content : Bytes) :
    Store × Except FileFault Unit :=
  match device.breaksOff? s l content with
  | none => (s.put l (.file content), .ok ())
  | some (n, e) => (s.put l (.file (content.take n)), .error e)

/-- Reads a file under the name with which it is asked for, where a slash at the end asks for a
directory. -/
def fetchNamed (device : Device) (s : Store) (name : Text) : Except FileFault Bytes :=
  let p := Path.ofText name
  if name = [] || p.isBroken then .error (.missing name)
  else
    match s.fetch device .read p with
    | .ok content => if Text.endsWith ['/'] name then .error (.notDirectory name) else .ok content
    | .error e => .error e

/-! ## Directories -/

def sourceEnding : Text := ".swift".toList

/-- The names on the way from a directory to what is below it with the ending of source files, in
the order of the names. -/
def below (s : Store) (l : Location) : List (List Text) :=
  let found := s.entries.filterMap fun (k, _) =>
    if l.isPrefixOf k && k.length > l.length && Text.endsWith sourceEnding (k.getLast?.getD []) then
      some (k.drop l.length)
    else none
  found.mergeSort fun a b => decide (¬ b < a)

/-- The paths to refactor for a given one: itself for a file, the source files at any depth for a
directory, and none for what is not there. -/
def sourcesAt (s : Store) (p : Path) : List Path :=
  match s.locate p with
  | .error _ => []
  | .ok l =>
      match s.get? l with
      | some .directory => (s.below l).map p.within
      | some (.file _) => [p]
      | none => []

def sources (s : Store) (given : List Path) : List Path := given.flatMap s.sourcesAt

def changes (s before : Store) : List (Location × Entry) :=
  s.entries.filter fun (l, e) => before.get? l != some e

end Store
end ForceTry

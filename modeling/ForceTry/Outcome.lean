import ForceTry.Fault

/-!
# Outcomes

An operation ends with a value, with a fault, or without having been tried.  Each outcome carries
named values that say more about it.  `map` and `bind` go on from a value and leave every other
outcome as it is.
-/

namespace ForceTry

inductive Outcome (α : Type) where
  | success (value : α) (metadata : Details)
  | failure (fault : Fault) (metadata : Details)
  | skipped (fault : Option Fault) (metadata : Details)

inductive Status where
  | success
  | error
  | skipped
  deriving DecidableEq, Repr

namespace Status

def name : Status → String
  | success => "success"
  | error => "error"
  | skipped => "skipped"

def all : List Status := [success, error, skipped]

def ofName? (s : String) : Option Status := all.find? fun k => k.name == s

end Status

namespace Outcome

variable {α β : Type}

def skip (reason : Text) (metadata : Details) : Outcome α :=
  .skipped none (metadata.put "reason".toList (.text reason))

def declined (reason : Text) (rule nodeType : Option Text) (details : Details) : Outcome α :=
  .failure (Fault.declined reason rule nodeType details) []

/-- An outcome from its parts.  A success has no fault, and a failure has a fault and no value. -/
def ofParts (status : Status) (value : Option α) (absent : α) (fault : Option Fault)
    (metadata : Details) : Except Fault (Outcome α) :=
  match status, value, fault with
  | .success, _, some _ =>
      .error (.badValue (Text.ofString "Success results cannot have errors"))
  | .success, value, none => .ok (.success (value.getD absent) metadata)
  | .error, some _, _ => .error (.badValue (Text.ofString "Error results cannot have data"))
  | .error, none, none => .error (.badValue (Text.ofString "Error results need an error"))
  | .error, none, some fault => .ok (.failure fault metadata)
  | .skipped, _, fault => .ok (.skipped fault metadata)

def status : Outcome α → Status
  | success _ _ => .success
  | failure _ _ => .error
  | skipped _ _ => .skipped

def metadata : Outcome α → Details
  | success _ m => m
  | failure _ m => m
  | skipped _ m => m

def fault? : Outcome α → Option Fault
  | success _ _ => none
  | failure e _ => some e
  | skipped e _ => e

def value? : Outcome α → Option α
  | success a _ => some a
  | _ => none

def isSuccess (o : Outcome α) : Bool := o.status == .success

def isNotApplicable : Outcome α → Bool
  | failure e _ => e.isNotApplicable
  | _ => false

def unwrap : Outcome α → Except Fault α
  | success a _ => .ok a
  | failure e _ => .error e
  | skipped _ _ => .error (.noValue (Text.ofString "Result was skipped"))

def unwrapOr (isAbsent : α → Bool) (default : α) : Outcome α → α
  | success a _ => if isAbsent a then default else a
  | _ => default

def map (f : α → Except Fault β) : Outcome α → Outcome β
  | success a m =>
      match f a with
      | .ok b => .success b m
      | .error e => .failure e m
  | failure e m => .failure e m
  | skipped e m => .skipped e m

def bind (f : α → Except Fault (Outcome β)) : Outcome α → Outcome β
  | success a m =>
      match f a with
      | .ok o => o
      | .error e => .failure e m
  | failure e m => .failure e m
  | skipped e m => .skipped e m

def describe (display : α → Text) : Outcome α → Text
  | success a _ => Text.ofString "Result(success, data=" ++ display a ++ [')']
  | failure e _ => Text.ofString "Result(error, error=" ++ e.message ++ [')']
  | skipped _ m => Text.ofString "Result(skipped, metadata=" ++ (Value.ofDetails m).shown ++ [')']

theorem map_pure (o : Outcome α) : o.map .ok = o := by cases o <;> rfl

theorem bind_success (a : α) (m : Details) (f : α → Except Fault (Outcome β)) {o : Outcome β}
    (h : f a = .ok o) : (success a m).bind f = o := by simp [Outcome.bind, h]

end Outcome
end ForceTry

import ForceTry.Rule.DoCatch

/-!
# The registry of rules

Rules by name, in the order of their registration.
-/

namespace ForceTry

structure Registry where
  rules : List Rule

namespace Registry

def empty : Registry := ⟨[]⟩

def get? (registry : Registry) (name : Text) : Option Rule :=
  registry.rules.find? fun r => r.name == name

def names (registry : Registry) : List Text := registry.rules.map Rule.name

def register (registry : Registry) (r : Rule) : Except Fault Registry :=
  if r.name.isEmpty then
    .error (.refactoring (Text.ofString "Refactoring provider has no name")
      [("provider".toList, .text r.implementation)])
  else if (registry.get? r.name).isSome then
    .error (.refactoring (Text.ofString "Refactoring already registered: " ++ r.name)
      [("rule".toList, .text r.name)])
  else .ok ⟨registry.rules ++ [r]⟩

def rulesFor (registry : Registry) (t : Tree) : List Rule :=
  registry.rules.filter fun r => r.acceptsNode t

def resolve (registry : Registry) (name : Text) : Except Fault Rule :=
  match registry.get? name with
  | some r => .ok r
  | none =>
      .error (.refactoring (Text.ofString "Unknown refactoring rule: " ++ name)
        [("rule".toList, .text name), ("available".toList, .list (registry.names.map .text))])

def standard : Registry := ⟨[DoCatch.rule]⟩

theorem names_of_register {registry registry' : Registry} {r : Rule}
    (h : registry.register r = .ok registry') : registry'.names = registry.names ++ [r.name] := by
  unfold register at h
  split at h
  · cases h
  split at h
  · cases h
  · cases h
    simp [names]

end Registry
end ForceTry

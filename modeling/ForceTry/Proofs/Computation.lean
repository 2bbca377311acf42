import ForceTry.Rule.Basic

/-!
# Computations that may fail

A computation in steps answers a value exactly when its first step answers one and the rest does with
that.  With these lemmas a long computation is taken apart one step at a time.
-/

namespace ForceTry

theorem bind_eq_ok {ε α β : Type} {x : Except ε α} {f : α → Except ε β} {b : β} :
    x >>= f = .ok b ↔ ∃ a, x = .ok a ∧ f a = .ok b := by
  cases x with
  | error e =>
      constructor
      · intro h
        cases h
      · rintro ⟨a, ha, _⟩
        cases ha
  | ok a =>
      constructor
      · intro h
        exact ⟨a, rfl, h⟩
      · rintro ⟨a', ha, h⟩
        cases ha
        exact h

theorem bind_eq_error {ε α β : Type} {x : Except ε α} {f : α → Except ε β} {e : ε} :
    x >>= f = .error e ↔ x = .error e ∨ ∃ a, x = .ok a ∧ f a = .error e := by
  cases x with
  | error e' =>
      constructor
      · intro h
        cases h
        exact Or.inl rfl
      · rintro (h | ⟨a, ha, _⟩)
        · cases h
          rfl
        · cases ha
  | ok a =>
      constructor
      · intro h
        exact Or.inr ⟨a, rfl, h⟩
      · rintro (h | ⟨a', ha, h⟩)
        · cases h
        · cases ha
          exact h

theorem mapError_eq_ok {ε ε' α : Type} {f : ε → ε'} {x : Except ε α} {a : α} :
    x.mapError f = .ok a ↔ x = .ok a := by
  cases x with
  | error e => constructor <;> intro h <;> cases h
  | ok b =>
      constructor <;>
      · intro h
        cases h
        rfl

theorem mapError_eq_error {ε ε' α : Type} {f : ε → ε'} {x : Except ε α} {e' : ε'} :
    x.mapError f = .error e' ↔ ∃ e, x = .error e ∧ f e = e' := by
  cases x with
  | error e =>
      constructor
      · intro h
        cases h
        exact ⟨e, rfl, rfl⟩
      · rintro ⟨_, h, rfl⟩
        cases h
        rfl
  | ok b =>
      constructor
      · intro h
        cases h
      · rintro ⟨_, h, _⟩
        cases h

theorem eq_ok_of_toOption {ε α : Type} {x : Except ε α} {a : α} (h : x.toOption = some a) :
    x = .ok a := by
  cases x with
  | error e => cases h
  | ok b =>
      cases h
      rfl

theorem bind_of_ok {σ ε α β : Type} {x : StateT σ (Except ε) α} {s s' : σ} {a : α}
    (h : x s = .ok (a, s')) (f : α → StateT σ (Except ε) β) : (x >>= f) s = f a s' := by
  show (x s >>= fun result => f result.1 result.2) = f a s'
  rw [h]
  rfl

theorem build_bind_fresh {α β : Type} (x : Fresh α) (f : α → Build β) (n : Nat) :
    ((liftM x : Build α) >>= f) n = f (x.run n).1 (x.run n).2 := rfl

theorem build_bind_except {α β : Type} {x : Except Fault α} {a : α} (h : x = .ok a)
    (f : α → Build β) (n : Nat) : ((liftM x : Build α) >>= f) n = f a n := by
  rw [h]
  rfl

end ForceTry

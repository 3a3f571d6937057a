import Mathlib.Tactic.Basic

/-!
Computations that may give nothing or stop: a function that returns an option, leaves
early where an option is empty, and may panic on the way.
-/

inductive Outcome (ε α : Type*) where
  | some (a : α)
  | none
  | stop (e : ε)
deriving DecidableEq

namespace Outcome

variable {ε α β : Type}

protected def bind : Outcome ε α → (α → Outcome ε β) → Outcome ε β
  | .some a, f => f a
  | .none, _ => .none
  | .stop e, _ => .stop e

instance : Monad (Outcome ε) where
  pure := .some
  bind := .bind

/-- The `?` operator. -/
def ofOption : Option α → Outcome ε α
  | .some a => .some a
  | .none => .none

theorem some_bind (a : α) (f : α → Outcome ε β) : (Outcome.some a >>= f) = f a := rfl

theorem bind_eq_some_iff {x : Outcome ε α} {f : α → Outcome ε β} {b : β} :
    (x >>= f) = .some b ↔ ∃ a, x = .some a ∧ f a = .some b := by
  cases x with
  | some a =>
    constructor
    · exact fun h => ⟨a, rfl, h⟩
    · rintro ⟨a', ha, h⟩
      cases ha
      exact h
  | none =>
    constructor
    · intro h
      cases h
    · rintro ⟨a, ha, -⟩
      cases ha
  | stop e =>
    constructor
    · intro h
      cases h
    · rintro ⟨a, ha, -⟩
      cases ha

end Outcome

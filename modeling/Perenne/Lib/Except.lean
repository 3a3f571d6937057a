import Mathlib.Logic.Basic

/-! A computation that may stop: how a returning one decomposes, and with what it can stop. -/

namespace Except

universe u v

variable {ε : Type u} {α β : Type v}

theorem bind_eq_ok_iff {x : Except ε α} {f : α → Except ε β} {b : β} :
    (x >>= f) = .ok b ↔ ∃ a, x = .ok a ∧ f a = .ok b := by
  cases x with
  | error e => simp [bind, Except.bind]
  | ok a => simp [bind, Except.bind]

theorem pure_eq_ok_iff {a b : α} : (pure a : Except ε α) = .ok b ↔ a = b := by
  simp [pure, Except.pure]

theorem ite_error_eq_ok_iff {c : Prop} [Decidable c] {e : ε} {x : Except ε α} {b : α} :
    (if c then .error e else x) = .ok b ↔ ¬ c ∧ x = .ok b := by
  by_cases h : c <;> simp [h]

theorem toOption_eq_some_iff {x : Except ε α} {a : α} : x.toOption = some a ↔ x = .ok a := by
  cases x <;> simp [Except.toOption]

/-- The computation stops with this error. -/
def stopsWith [DecidableEq ε] (x : Except ε α) (e : ε) : Bool :=
  match x with
  | .ok _ => false
  | .error e' => e' = e

theorem stopsWith_iff [DecidableEq ε] {x : Except ε α} {e : ε} :
    x.stopsWith e = true ↔ x = .error e := by
  cases x <;> simp [stopsWith]

/-- The computation returns a value in `P`, or stops with an error in `Q`. -/
def Meets (Q : ε → Prop) (P : α → Prop) : Except ε α → Prop
  | .ok a => P a
  | .error e => Q e

section Rules

variable {Q : ε → Prop} {P P' : α → Prop} {R : β → Prop}

theorem Meets.bind {x : Except ε α} {f : α → Except ε β} (hx : Meets Q P x)
    (hf : ∀ a, P a → Meets Q R (f a)) : Meets Q R (x >>= f) := by
  cases x with
  | error e => exact hx
  | ok a => exact hf a hx

theorem Meets.mono {x : Except ε α} (hx : Meets Q P x) (h : ∀ a, P a → P' a) : Meets Q P' x := by
  cases x with
  | error e => exact hx
  | ok a => exact h a hx

theorem Meets.of_eq_ok {x : Except ε α} {a : α} (h : x = .ok a) (ha : P a) : Meets Q P x :=
  h ▸ ha

theorem Meets.exists_ok {x : Except ε α} (h : Meets (fun _ => False) P x) :
    ∃ a, x = .ok a ∧ P a := by
  cases x with
  | error e => exact h.elim
  | ok a => exact ⟨a, rfl, h⟩

end Rules

end Except

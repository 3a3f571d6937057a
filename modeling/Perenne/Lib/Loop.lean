import Perenne.Lib.Except

/-!
Loops of computations that may stop. A loop is run for a number of rounds; one that is not
through by then hangs, so that a loop which returns has also come to its end.
-/

/-- What a round of a loop ends with: the variables for the next one, or the result. -/
inductive Iter (σ α : Type) where
  | next (s : σ)
  | done (a : α)

namespace Iter

variable {ε : Type} {σ α : Type}

/-- At most `n` rounds. -/
def run (hang : ε) (body : σ → Except ε (Iter σ α)) : Nat → σ → Except ε α
  | 0, _ => .error hang
  | n + 1, s => body s >>= fun
    | .next s' => run hang body n s'
    | .done a => .ok a

/-- The next round has the invariant and less to do; the result is a good one. -/
def Goes (I : σ → Prop) (m : σ → Nat) (P : α → Prop) (s : σ) : Iter σ α → Prop
  | .next s' => I s' ∧ m s' < m s
  | .done a => P a

theorem run_meets {hang : ε} {body : σ → Except ε (Iter σ α)} {I : σ → Prop} {m : σ → Nat}
    {P : α → Prop} {Q : ε → Prop} (hbody : ∀ s, I s → Except.Meets Q (Goes I m P s) (body s))
    {n : Nat} {s : σ} (hs : I s) (hn : m s < n) : Except.Meets Q P (run hang body n s) := by
  induction n generalizing s with
  | zero => cases hn
  | succ n ih =>
    rw [run]
    refine (hbody s hs).bind fun r hr => ?_
    cases r with
    | next s' => exact ih hr.1 (by have := hr.2; omega)
    | done a => exact hr

end Iter

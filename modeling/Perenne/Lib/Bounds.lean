import Perenne.Lib.Prog

/-!
How long a program over a shared state can run, and what becomes of it where every call is
answered in one way.
-/

namespace Prog

variable {ε ι ο σ α β φ η : Type}

theorem bind_assoc {γ : Type} (p : Prog ε ι ο σ α) (f : α → Prog ε ι ο σ β)
    (g : β → Prog ε ι ο σ γ) : ((p >>= f) >>= g) = (p >>= fun a => f a >>= g) := by
  induction p with
  | ret a => rfl
  | stop e => rfl
  | act u k ih => exact congrArg (Prog.act u) (funext ih)
  | call i k ih => exact congrArg (Prog.call i) (funext ih)

/-- On no path does the program make more than `calls` calls, or more than `moves` steps and
calls. -/
def Within (calls moves : Nat) : Prog ε ι ο σ α → Prop
  | .ret _ => True
  | .stop _ => True
  | .act _ k => 0 < moves ∧ ∀ s, Within calls (moves - 1) (k s)
  | .call _ k => 0 < calls ∧ 0 < moves ∧ ∀ o, Within (calls - 1) (moves - 1) (k o)

theorem Within.mono {calls calls' moves moves' : Nat} {p : Prog ε ι ο σ α}
    (h : p.Within calls moves) (hcalls : calls ≤ calls') (hmoves : moves ≤ moves') :
    p.Within calls' moves' := by
  induction p generalizing calls calls' moves moves' with
  | ret a => trivial
  | stop e => trivial
  | act u k ih => exact ⟨by have := h.1; omega, fun s => ih s (h.2 s) hcalls (by omega)⟩
  | call i k ih =>
    exact ⟨by have := h.1; omega, by have := h.2.1; omega,
      fun o => ih o (h.2.2 o) (by omega) (by omega)⟩

theorem Within.bind {c m d n : Nat} {p : Prog ε ι ο σ α} {f : α → Prog ε ι ο σ β}
    (h : p.Within c m) (hf : ∀ a, (f a).Within d n) : (p >>= f).Within (c + d) (m + n) := by
  induction p generalizing c m with
  | ret a => exact (hf a).mono (Nat.le_add_left _ _) (Nat.le_add_left _ _)
  | stop e => trivial
  | act u k ih =>
    refine ⟨by have := h.1; omega, fun s => ?_⟩
    exact (ih s (h.2 s)).mono (Nat.le_refl _) (by have := h.1; omega)
  | call i k ih =>
    refine ⟨by have := h.1; omega, by have := h.2.1; omega, fun o => ?_⟩
    exact (ih o (h.2.2 o)).mono (by have := h.1; omega) (by have := h.2.1; omega)

def Move.isOwn : Move φ η → Bool
  | .env _ => false
  | _ => true

def Move.isServe : Move φ η → Bool
  | .serve _ => true
  | _ => false

section Runs

variable {serve : φ → σ → ι → Option (ο × σ)} {env : η → σ → Option σ}

theorem Within.run {calls moves : Nat} {p : Prog ε ι ο σ α} {s : σ} {c : Prog ε ι ο σ α × σ}
    {ms : List (Move φ η)} (h : p.Within calls moves)
    (hrun : Transition.run (Prog.step serve env) (p, s) ms = some c) :
    (ms.filter Move.isServe).length ≤ calls ∧ (ms.filter Move.isOwn).length ≤ moves := by
  induction ms generalizing p s calls moves with
  | nil => exact ⟨Nat.zero_le _, Nat.zero_le _⟩
  | cons m ms ih =>
    rw [Transition.run] at hrun
    obtain ⟨⟨p', s'⟩, hstep, hrest⟩ := Option.bind_eq_some_iff.mp hrun
    cases m with
    | env e =>
      simp only [Prog.step, Option.map_eq_some_iff, Prod.mk.injEq] at hstep
      obtain ⟨s'', -, rfl, rfl⟩ := hstep
      exact ih h hrest
    | run =>
      cases p with
      | act u k =>
        obtain ⟨rfl, rfl⟩ := Prod.mk.inj (Option.some.inj hstep)
        have := ih (h.2 s) hrest
        have := h.1
        simp only [List.filter_cons, Move.isServe, Move.isOwn, if_true, Bool.false_eq_true, if_false,
          List.length_cons]
        omega
      | ret a => cases hstep
      | stop e => cases hstep
      | call i k => cases hstep
    | serve f =>
      cases p with
      | call i k =>
        simp only [Prog.step, Option.map_eq_some_iff, Prod.mk.injEq] at hstep
        obtain ⟨⟨o, s''⟩, -, rfl, rfl⟩ := hstep
        have := ih (h.2.2 o) hrest
        have := h.1
        have := h.2.1
        simp only [List.filter_cons, Move.isServe, Move.isOwn, if_true, List.length_cons]
        omega
      | ret a => cases hstep
      | stop e => cases hstep
      | act u k => cases hstep

theorem run_bind {p p' : Prog ε ι ο σ α} {s s' : σ} {ms : List (Move φ η)}
    (f : α → Prog ε ι ο σ β)
    (h : Transition.run (Prog.step serve env) (p, s) ms = some (p', s')) :
    Transition.run (Prog.step serve env) (p >>= f, s) ms = some (p' >>= f, s') := by
  induction ms generalizing p s with
  | nil =>
    cases h
    rfl
  | cons m ms ih =>
    rw [Transition.run] at h
    obtain ⟨⟨p₁, s₁⟩, hstep, hrest⟩ := Option.bind_eq_some_iff.mp h
    have hstep' : Prog.step serve env (p >>= f, s) m = some (p₁ >>= f, s₁) := by
      cases m with
      | env e =>
        simp only [Prog.step, Option.map_eq_some_iff, Prod.mk.injEq] at hstep ⊢
        obtain ⟨s'', hs'', rfl, rfl⟩ := hstep
        exact ⟨s'', hs'', rfl, rfl⟩
      | run =>
        cases p with
        | act u k =>
          cases hstep
          rfl
        | ret a => cases hstep
        | stop e => cases hstep
        | call i k => cases hstep
      | serve g =>
        cases p with
        | call i k =>
          simp only [Prog.step, Option.map_eq_some_iff, Prod.mk.injEq] at hstep
          obtain ⟨r, hr, rfl, rfl⟩ := hstep
          change (serve g s i).map _ = _
          rw [hr]
          rfl
        | ret a => cases hstep
        | stop e => cases hstep
        | act u k => cases hstep
    rw [Transition.run, hstep']
    exact ih hrest

end Runs

/-- The program run alone, with every call answered by `answer`. -/
def eval (answer : σ → ι → ο × σ) : Prog ε ι ο σ α → σ → Except ε α × σ
  | .ret a, s => (.ok a, s)
  | .stop e, s => (.error e, s)
  | .act u k, s => (k s).eval answer (u s)
  | .call i k, s => (k (answer s i).1).eval answer (answer s i).2

section Eval

variable {answer : σ → ι → ο × σ}

theorem eval_bind_ok {p : Prog ε ι ο σ α} {f : α → Prog ε ι ο σ β} {s s' : σ} {a : α}
    (h : p.eval answer s = (.ok a, s')) : (p >>= f).eval answer s = (f a).eval answer s' := by
  induction p generalizing s with
  | ret b =>
    cases h
    rfl
  | stop e => cases h
  | act u k ih => exact ih s h
  | call i k ih => exact ih _ h

theorem eval_bind_error {p : Prog ε ι ο σ α} {f : α → Prog ε ι ο σ β} {s s' : σ} {e : ε}
    (h : p.eval answer s = (.error e, s')) : (p >>= f).eval answer s = (.error e, s') := by
  induction p generalizing s with
  | ret b => cases h
  | stop e' =>
    cases h
    rfl
  | act u k ih => exact ih s h
  | call i k ih => exact ih _ h

theorem eval_error_run {serve : φ → σ → ι → Option (ο × σ)} (env : η → σ → Option σ) (f : φ)
    (hserve : ∀ s i, serve f s i = some (answer s i)) {p : Prog ε ι ο σ α} {s s' : σ} {e : ε}
    (h : p.eval answer s = (.error e, s')) :
    ∃ ms, Transition.run (Prog.step serve env) (p, s) ms = some (.stop e, s') := by
  induction p generalizing s with
  | ret a => cases h
  | stop e' =>
    cases h
    exact ⟨[], rfl⟩
  | act u k ih =>
    obtain ⟨ms, hrun⟩ := ih s h
    exact ⟨.run :: ms, hrun⟩
  | call i k ih =>
    obtain ⟨ms, hrun⟩ := ih _ h
    refine ⟨.serve f :: ms, ?_⟩
    rw [Transition.run, Prog.step, hserve]
    exact hrun

end Eval

end Prog

import Perenne.Lib.Transition

/-!
Programs over a shared state that make blocking calls. Others may run between any two
steps of a program, so a proof about one says what holds at each of its steps, under what
the others may do in between.
-/

/-- A program: it returns, stops for good, takes one step on the shared state, or makes a
call and goes on with the answer. -/
inductive Prog (ε ι ο σ α : Type*) where
  | ret (a : α)
  | stop (e : ε)
  | act (upd : σ → σ) (k : σ → Prog ε ι ο σ α)
  | call (i : ι) (k : ο → Prog ε ι ο σ α)

namespace Prog

variable {ε ι ο σ α β φ η : Type}

protected def bind : Prog ε ι ο σ α → (α → Prog ε ι ο σ β) → Prog ε ι ο σ β
  | .ret a, f => f a
  | .stop e, _ => .stop e
  | .act u k, f => .act u fun s => (k s).bind f
  | .call i k, f => .call i fun o => (k o).bind f

instance : Monad (Prog ε ι ο σ) where
  pure := .ret
  bind := .bind

def read (g : σ → α) : Prog ε ι ο σ α := .act id fun s => .ret (g s)

def modify (u : σ → σ) : Prog ε ι ο σ Unit := .act u fun _ => .ret ()

/-- Read and change the state in one step. -/
def update (g : σ → α × σ) : Prog ε ι ο σ α := .act (fun s => (g s).2) fun s => .ret (g s).1

def request (i : ι) : Prog ε ι ο σ ο := .call i .ret

def lift : Except ε α → Prog ε ι ο σ α
  | .ok a => .ret a
  | .error e => .stop e

def result : Prog ε ι ο σ α → Option α
  | .ret a => some a
  | _ => none

theorem eq_ret_of_result {p : Prog ε ι ο σ α} {a : α} (h : p.result = some a) : p = .ret a := by
  cases p with
  | ret b => rw [Option.some.inj h]
  | stop e => cases h
  | act u k => cases h
  | call i k => cases h

/-- The calls a program may make, whatever the states it meets and the answers it gets. -/
inductive Sends : Prog ε ι ο σ α → ι → Prop where
  | here {i : ι} {k : ο → Prog ε ι ο σ α} : Sends (.call i k) i
  | answered {i j : ι} {k : ο → Prog ε ι ο σ α} (o : ο) (h : Sends (k o) j) : Sends (.call i k) j
  | acted {j : ι} {u : σ → σ} {k : σ → Prog ε ι ο σ α} (s : σ) (h : Sends (k s) j) :
    Sends (.act u k) j

/-- Every step that the program takes on the state is in `R`. -/
def Acts (R : σ → σ → Prop) : Prog ε ι ο σ α → Prop
  | .ret _ => True
  | .stop _ => True
  | .act u k => ∀ s, R s (u s) ∧ Acts R (k s)
  | .call _ k => ∀ o, Acts R (k o)

theorem lift_ok_bind (a : α) (f : α → Prog ε ι ο σ β) : (lift (.ok a) >>= f) = f a := rfl

/-- What happens next: the program's own step, the answer to its call, or a step of the
others. -/
inductive Move (φ η : Type) where
  | run
  | serve (f : φ)
  | env (e : η)

section Semantics

variable (serve : φ → σ → ι → Option (ο × σ)) (env : η → σ → Option σ)

/-- One move of a program and its environment. -/
def step : Prog ε ι ο σ α × σ → Move φ η → Option (Prog ε ι ο σ α × σ)
  | (.act u k, s), .run => some (k s, u s)
  | (.call i k, s), .serve f => (serve f s i).map fun r => (k r.1, r.2)
  | (p, s), .env e => (env e s).map fun s' => (p, s')
  | _, _ => none

end Semantics

section Acts

variable {R : σ → σ → Prop}

theorem Acts.bind {p : Prog ε ι ο σ α} {f : α → Prog ε ι ο σ β} (h : Acts R p)
    (hf : ∀ a, Acts R (f a)) : Acts R (p >>= f) := by
  induction p with
  | ret a => exact hf a
  | stop e => trivial
  | act u k ih => exact fun s => ⟨(h s).1, ih s (h s).2⟩
  | call i k ih => exact fun o => ih o (h o)

theorem acts_read (hR : ∀ s, R s s) (g : σ → α) : Acts R (read g : Prog ε ι ο σ α) :=
  fun s => ⟨hR s, trivial⟩

theorem acts_modify {u : σ → σ} (hu : ∀ s, R s (u s)) : Acts R (modify u : Prog ε ι ο σ Unit) :=
  fun s => ⟨hu s, trivial⟩

theorem acts_update {g : σ → α × σ} (hg : ∀ s, R s (g s).2) :
    Acts R (update g : Prog ε ι ο σ α) :=
  fun s => ⟨hg s, trivial⟩

theorem acts_request (i : ι) : Acts R (request i : Prog ε ι ο σ ο) := fun _ => trivial

theorem acts_lift (x : Except ε α) : Acts R (lift x : Prog ε ι ο σ α) := by
  cases x with
  | ok a => trivial
  | error e => trivial

theorem Acts.step {serve : φ → σ → ι → Option (ο × σ)} {env : η → σ → Option σ}
    {p p' : Prog ε ι ο σ α} {s s' : σ} {m : Move φ η} (h : Acts R p)
    (hstep : step serve env (p, s) m = some (p', s')) :
    Acts R p' ∧ (m = .run ∧ R s s' ∨ (∃ f i o, m = .serve f ∧ serve f s i = some (o, s')) ∨
      ∃ e, m = .env e ∧ env e s = some s') := by
  cases m with
  | env e =>
    simp only [Prog.step, Option.map_eq_some_iff, Prod.mk.injEq] at hstep
    obtain ⟨s'', hs'', rfl, rfl⟩ := hstep
    exact ⟨h, .inr (.inr ⟨e, rfl, hs''⟩)⟩
  | run =>
    cases p with
    | act u k =>
      obtain ⟨rfl, rfl⟩ := Prod.mk.inj (Option.some.inj hstep)
      exact ⟨(h s).2, .inl ⟨rfl, (h s).1⟩⟩
    | ret a => cases hstep
    | stop e => cases hstep
    | call i k => cases hstep
  | serve f =>
    cases p with
    | call i k =>
      simp only [Prog.step, Option.map_eq_some_iff, Prod.mk.injEq] at hstep
      obtain ⟨⟨o, s''⟩, hs'', rfl, rfl⟩ := hstep
      exact ⟨h o, .inr (.inl ⟨f, i, o, rfl, hs''⟩)⟩
    | ret a => cases hstep
    | stop e => cases hstep
    | act u k => cases hstep

end Acts

/-- What a proof about a program says: `inv` holds at every step, `guar` between the states
before and after each step of its own, `stop` of what it stops with, and the postcondition
when it returns; `env` is what the others may do in between, and `serve` how calls are
answered. -/
structure Spec (φ ε ι ο σ : Type) where
  serve : φ → σ → ι → Option (ο × σ)
  env : σ → σ → Prop
  guar : σ → σ → Prop
  inv : σ → Prop
  stop : ε → Prop

/-- The others may do nothing, and may go on. -/
structure Spec.Lawful (S : Spec φ ε ι ο σ) : Prop where
  refl (s : σ) : S.env s s
  trans (s₁ s₂ s₃ : σ) (h12 : S.env s₁ s₂) (h23 : S.env s₂ s₃) : S.env s₁ s₃

/-- The program meets the specification from this state on. -/
def Sound (S : Spec φ ε ι ο σ) (Post : α → σ → Prop) : Prog ε ι ο σ α → σ → Prop
  | .ret a, s => ∀ s', S.env s s' → S.inv s' ∧ Post a s'
  | .stop e, s => ∀ s', S.env s s' → S.inv s' ∧ S.stop e
  | .act u k, s => ∀ s', S.env s s' → S.inv s' ∧ S.guar s' (u s') ∧ Sound S Post (k s') (u s')
  | .call i k, s => ∀ s', S.env s s' → S.inv s' ∧ ∀ f o s'', S.serve f s' i = some (o, s'') →
    S.guar s' s'' ∧ Sound S Post (k o) s''

section Rules

variable {S : Spec φ ε ι ο σ} {env : η → σ → Option σ} {Post Post' : α → σ → Prop}
  {p : Prog ε ι ο σ α} {s s' : σ}

theorem Sound.inv (h : Sound S Post p s) (hs : S.env s s') : S.inv s' := by
  cases p with
  | ret a => exact (h s' hs).1
  | stop e => exact (h s' hs).1
  | act u k => exact (h s' hs).1
  | call i k => exact (h s' hs).1

theorem Sound.mono (h : Sound S Post p s) (himp : ∀ a s, Post a s → Post' a s) :
    Sound S Post' p s := by
  induction p generalizing s with
  | ret a => exact fun s' hs => ⟨(h s' hs).1, himp a s' (h s' hs).2⟩
  | stop e => exact h
  | act u k ih => exact fun s' hs => ⟨(h s' hs).1, (h s' hs).2.1, ih s' (h s' hs).2.2⟩
  | call i k ih =>
    exact fun s' hs => ⟨(h s' hs).1, fun f o s'' hf =>
      ⟨((h s' hs).2 f o s'' hf).1, ih o ((h s' hs).2 f o s'' hf).2⟩⟩

theorem Sound.others (hS : S.Lawful) (h : Sound S Post p s) (hs : S.env s s') :
    Sound S Post p s' := by
  cases p with
  | ret a => exact fun s'' hs' => h s'' (hS.trans _ _ _ hs hs')
  | stop e => exact fun s'' hs' => h s'' (hS.trans _ _ _ hs hs')
  | act u k => exact fun s'' hs' => h s'' (hS.trans _ _ _ hs hs')
  | call i k => exact fun s'' hs' => h s'' (hS.trans _ _ _ hs hs')

theorem Sound.bind (hS : S.Lawful) {Q : β → σ → Prop} {f : α → Prog ε ι ο σ β}
    (h : Sound S (fun a s => Sound S Q (f a) s) p s) : Sound S Q (p >>= f) s := by
  induction p generalizing s with
  | ret a => exact (h s (hS.refl s)).2
  | stop e => exact h
  | act u k ih => exact fun s' hs => ⟨(h s' hs).1, (h s' hs).2.1, ih s' (h s' hs).2.2⟩
  | call i k ih =>
    exact fun s' hs => ⟨(h s' hs).1, fun g o s'' hg =>
      ⟨((h s' hs).2 g o s'' hg).1, ih o ((h s' hs).2 g o s'' hg).2⟩⟩

theorem Sound.step (hS : S.Lawful) {ψ : Type} {serve : ψ → σ → ι → Option (ο × σ)}
    {p' : Prog ε ι ο σ α} {m : Move ψ η} (h : Sound S Post p s)
    (hserve : ∀ f i r, m = .serve f → serve f s i = some r → ∃ f', S.serve f' s i = some r)
    (henv : ∀ e s', m = .env e → env e s = some s' → S.env s s')
    (hstep : step serve env (p, s) m = some (p', s')) :
    Sound S Post p' s' ∧ (S.guar s s' ∨ S.env s s') := by
  cases m with
  | env e =>
    simp only [Prog.step, Option.map_eq_some_iff, Prod.mk.injEq] at hstep
    obtain ⟨s'', hs'', rfl, rfl⟩ := hstep
    exact ⟨h.others hS (henv e _ rfl hs''), .inr (henv e _ rfl hs'')⟩
  | run =>
    cases p with
    | act u k =>
      obtain ⟨rfl, rfl⟩ := Prod.mk.inj (Option.some.inj hstep)
      exact ⟨(h s (hS.refl s)).2.2, .inl (h s (hS.refl s)).2.1⟩
    | ret a => cases hstep
    | stop e => cases hstep
    | call i k => cases hstep
  | serve f =>
    cases p with
    | call i k =>
      simp only [Prog.step, Option.map_eq_some_iff, Prod.mk.injEq] at hstep
      obtain ⟨⟨o, s''⟩, hs'', rfl, rfl⟩ := hstep
      obtain ⟨f', hf'⟩ := hserve f i _ rfl hs''
      obtain ⟨hguar, hk⟩ := (h s (hS.refl s)).2 f' o _ hf'
      exact ⟨hk, .inl hguar⟩
    | ret a => cases hstep
    | stop e => cases hstep
    | act u k => cases hstep

/-- Along every run the program stays sound: the invariant holds, and the postcondition
where it returns. -/
theorem Sound.run (hS : S.Lawful) (henv : ∀ e s s', env e s = some s' → S.env s s')
    {p' : Prog ε ι ο σ α} {ms : List (Move φ η)} (h : Sound S Post p s)
    (hrun : Transition.run (Prog.step S.serve env) (p, s) ms = some (p', s')) :
    Sound S Post p' s' := by
  have hstep (c : Prog ε ι ο σ α × σ) (m : Move φ η) (c' : Prog ε ι ο σ α × σ)
      (hc : Sound S Post c.1 c.2) (_ : True) (hm : Prog.step S.serve env c m = some c') :
      Sound S Post c'.1 c'.2 :=
    (hc.step hS (fun f _ _ _ hf => ⟨f, hf⟩) (fun e s' _ => henv e _ s') hm).1
  exact Transition.invariant_run hstep h (Transition.stepsMeet_true ms) hrun

theorem Sound.completes (hS : S.Lawful) (hserve : ∀ s i, ∃ f r, S.serve f s i = some r)
    (hstop : ∀ e, ¬ S.stop e) (h : Sound S Post p s) :
    ∃ ms a s', Transition.run (Prog.step S.serve env) (p, s) ms = some (.ret a, s') := by
  induction p generalizing s with
  | ret a => exact ⟨[], a, s, rfl⟩
  | stop e => exact absurd (h s (hS.refl s)).2 (hstop e)
  | act u k ih =>
    obtain ⟨ms, a, s', hrun⟩ := ih s (h s (hS.refl s)).2.2
    exact ⟨.run :: ms, a, s', hrun⟩
  | call i k ih =>
    obtain ⟨f, ⟨o, s₁⟩, hf⟩ := hserve s i
    obtain ⟨ms, a, s', hrun⟩ := ih o ((h s (hS.refl s)).2 f o s₁ hf).2
    refine ⟨.serve f :: ms, a, s', ?_⟩
    rw [Transition.run, Prog.step, hf]
    exact hrun

end Rules

end Prog

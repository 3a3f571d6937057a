import Mathlib.Data.List.Basic

namespace Transition

variable {σ ι : Type*}

/-- The state a list of labels leads to, when every step is enabled. -/
def run (next : σ → ι → Option σ) : σ → List ι → Option σ
  | s, [] => some s
  | s, l :: ls => (next s l).bind fun s' => run next s' ls

/-- Every step the run takes meets `Good` in the state it is taken from. -/
def StepsMeet (next : σ → ι → Option σ) (Good : σ → ι → Prop) : σ → List ι → Prop
  | _, [] => True
  | s, l :: ls => Good s l ∧ ∀ s', next s l = some s' → StepsMeet next Good s' ls

/-- What an observer has noted after the run: `note` sees each step, the state before it
and the state after it. -/
def observe {γ : Type*} (next : σ → ι → Option σ) (note : σ → ι → σ → γ → γ) :
    σ → γ → List ι → γ
  | _, g, [] => g
  | s, g, l :: ls => (next s l).elim g fun s' => observe next note s' (note s l s' g) ls

instance decidableStepsMeet (next : σ → ι → Option σ) (Good : σ → ι → Prop)
    [∀ s l, Decidable (Good s l)] : ∀ s ls, Decidable (StepsMeet next Good s ls)
  | _, [] => isTrue trivial
  | s, l :: ls =>
    match hn : next s l with
    | none => decidable_of_iff (Good s l) (by simp [StepsMeet, hn])
    | some s' =>
      have := decidableStepsMeet next Good s' ls
      decidable_of_iff (Good s l ∧ StepsMeet next Good s' ls) (by simp [StepsMeet, hn])

section Rules

variable {next : σ → ι → Option σ} {Good : σ → ι → Prop} {Inv : σ → Prop}

@[simp] theorem run_nil (s : σ) : run next s [] = some s := rfl

theorem run_cons {s s' : σ} {l : ι} {ls : List ι} (h : run next s (l :: ls) = some s') :
    ∃ m, next s l = some m ∧ run next m ls = some s' := by
  simpa [run, Option.bind_eq_some_iff] using h

theorem run_append {s s' : σ} {ls ms : List ι} :
    run next s (ls ++ ms) = some s' ↔ ∃ m, run next s ls = some m ∧ run next m ms = some s' := by
  induction ls generalizing s with
  | nil => simp
  | cons l ls ih =>
    simp only [List.cons_append, run, Option.bind_eq_some_iff, ih]
    constructor
    · rintro ⟨a, ha, m, hm, hs⟩
      exact ⟨m, ⟨a, ha, hm⟩, hs⟩
    · rintro ⟨m, ⟨a, ha, hm⟩, hs⟩
      exact ⟨a, ha, m, hm, hs⟩

theorem stepsMeet_append {s m : σ} {ls ms : List ι} (h : StepsMeet next Good s (ls ++ ms))
    (hrun : run next s ls = some m) :
    StepsMeet next Good s ls ∧ StepsMeet next Good m ms := by
  induction ls generalizing s with
  | nil => simpa [StepsMeet] using (Option.some.inj hrun ▸ h)
  | cons l ls ih =>
    obtain ⟨a, ha, hrun⟩ := run_cons hrun
    obtain ⟨hg, hrest⟩ := h
    obtain ⟨h1, h2⟩ := ih (hrest a ha) hrun
    refine ⟨⟨hg, ?_⟩, h2⟩
    intro a' ha'
    rw [ha] at ha'
    exact Option.some.inj ha' ▸ h1

theorem stepsMeet_append_of {s m : σ} {ls ms : List ι} (h : StepsMeet next Good s ls)
    (hrun : run next s ls = some m) (h' : StepsMeet next Good m ms) :
    StepsMeet next Good s (ls ++ ms) := by
  induction ls generalizing s with
  | nil =>
    obtain rfl := Option.some.inj hrun
    exact h'
  | cons l ls ih =>
    obtain ⟨a, ha, hrun⟩ := run_cons hrun
    refine ⟨h.1, fun a' ha' => ?_⟩
    obtain rfl := Option.some.inj (ha.symm.trans ha')
    exact ih (h.2 a ha) hrun

theorem stepsMeet_mono {Good' : σ → ι → Prop} (himp : ∀ s l, Good s l → Good' s l)
    {s : σ} {ls : List ι} (h : StepsMeet next Good s ls) : StepsMeet next Good' s ls := by
  induction ls generalizing s with
  | nil => trivial
  | cons l ls ih => exact ⟨himp s l h.1, fun s' hs' => ih (h.2 s' hs')⟩

theorem stepsMeet_and {Good' : σ → ι → Prop} {s : σ} {ls : List ι}
    (h : StepsMeet next Good s ls) (h' : StepsMeet next Good' s ls) :
    StepsMeet next (fun s l => Good s l ∧ Good' s l) s ls := by
  induction ls generalizing s with
  | nil => trivial
  | cons l ls ih => exact ⟨⟨h.1, h'.1⟩, fun s' hs' => ih (h.2 s' hs') (h'.2 s' hs')⟩

theorem stepsMeet_true {s : σ} (ls : List ι) : StepsMeet next (fun _ _ => True) s ls := by
  induction ls generalizing s with
  | nil => trivial
  | cons l ls ih => exact ⟨trivial, fun _ _ => ih⟩

theorem stepsMeet_and_of_mem {P : ι → Prop} {s : σ} {ls : List ι}
    (h : StepsMeet next Good s ls) (hP : ∀ l ∈ ls, P l) :
    StepsMeet next (fun s l => Good s l ∧ P l) s ls := by
  induction ls generalizing s with
  | nil => trivial
  | cons l ls ih =>
    exact ⟨⟨h.1, hP l (.head _)⟩, fun s' hs' => ih (h.2 s' hs') fun l hl => hP l (.tail _ hl)⟩

/-- The invariant rule: what holds at the start and survives every good step holds
wherever a run of good steps leads. -/
theorem invariant_run
    (hstep : ∀ s l s', Inv s → Good s l → next s l = some s' → Inv s')
    {s s' : σ} {ls : List ι} (h0 : Inv s) (hgood : StepsMeet next Good s ls)
    (hrun : run next s ls = some s') : Inv s' := by
  induction ls generalizing s with
  | nil => exact Option.some.inj hrun ▸ h0
  | cons l ls ih =>
    obtain ⟨m, hm, hrun⟩ := run_cons hrun
    exact ih (hstep s l m h0 hgood.1 hm) (hgood.2 m hm) hrun

theorem invariant_observe {γ : Type*} {note : σ → ι → σ → γ → γ} (Inv : σ → γ → Prop)
    (hstep : ∀ s l s' g, Inv s g → Good s l → next s l = some s' → Inv s' (note s l s' g))
    {s s' : σ} {g : γ} {ls : List ι} (h0 : Inv s g) (hgood : StepsMeet next Good s ls)
    (hrun : run next s ls = some s') : Inv s' (observe next note s g ls) := by
  induction ls generalizing s g with
  | nil => exact Option.some.inj hrun ▸ h0
  | cons l ls ih =>
    obtain ⟨m, hm, hrun⟩ := run_cons hrun
    have h1 := ih (hstep s l m g h0 hgood.1 hm) (hgood.2 m hm) hrun
    simpa [observe, hm] using h1

/-- Two conditions that agree on the steps taken from states where the invariant holds are met
by the same runs. -/
theorem stepsMeet_iff {Good' : σ → ι → Prop}
    (hstep : ∀ s l s', Inv s → next s l = some s' → Inv s')
    (hiff : ∀ s l s', Inv s → next s l = some s' → (Good s l ↔ Good' s l))
    {s s' : σ} {ls : List ι} (h0 : Inv s) (hrun : run next s ls = some s') :
    StepsMeet next Good s ls ↔ StepsMeet next Good' s ls := by
  induction ls generalizing s with
  | nil => rfl
  | cons l ls ih =>
    obtain ⟨m, hm, hrun⟩ := run_cons hrun
    have hrest := ih (hstep s l m h0 hm) hrun
    simp only [StepsMeet, hm, Option.some.injEq, forall_eq', hiff s l m h0 hm, hrest]

end Rules

end Transition

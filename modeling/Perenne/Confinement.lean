import Perenne.Provenance
import Perenne.LinearRuns

namespace Perenne

/-- The capability is in the task's table or carried by it. -/
def Task.owns (t : Task) (cap : Capability) : Prop :=
  (∃ k, t.caps.capAt k = some cap) ∨ t.pendingGrant = some cap

namespace Machine

open Scheduler Transition

/-- The boot tables keep the groups apart: no endpoint occurs in both, and no restart
capability of one names a task of the other. -/
structure Apart (m : Machine) (side : Slot → Bool) : Prop where
  endpoint {i j t u k n ep} (ht : m.sched.tasks i = some t) (hu : m.sched.tasks j = some u)
    (hi : t.caps.capAt k = some (.endpoint ep)) (hj : u.caps.capAt n = some (.endpoint ep)) :
    side i = side j
  restart {i t k} {c : Slot} (ht : m.sched.tasks i = some t)
    (hcap : t.caps.capAt k = some (.restart c.val)) : side c = side i

/-- No reply capability of one group names a task of the other. -/
def AnswersOwn (m : Machine) (side : Slot → Bool) : Prop :=
  ∀ i t k (c : Slot), m.sched.tasks i = some t → t.caps.capAt k = some (.reply c.val) →
    side c = side i

/-- Held at boot by a task of the group, or the right to answer a task of the group. -/
def allowed (m₀ : Machine) (side : Slot → Bool) (g : Bool) (cap : Capability) : Prop :=
  (∃ j t k, side j = g ∧ m₀.sched.tasks j = some t ∧ t.caps.capAt k = some cap) ∨
  ∃ c : Slot, cap = .reply c.val ∧ side c = g

/-- The invariant: what a task owns, whom it may answer and what it is blocked on stays
within its group. -/
structure Confined (m₀ : Machine) (side : Slot → Bool) (m : Machine) : Prop where
  owns {i t cap} (ht : m.sched.tasks i = some t) (hcap : t.owns cap) : allowed m₀ side (side i) cap
  caller {i t c} (ht : m.sched.tasks i = some t) (hc : t.caller = some c) :
    ∃ c' : Slot, c'.val = c ∧ side c' = side i
  blocked {i t ep role} (ht : m.sched.tasks i = some t) (hst : t.state = .blocked ep role) :
    allowed m₀ side (side i) (.endpoint ep)

variable {p : Platform} {m₀ m m₁ m' : Machine} {t : Task} {ev : Event} {side : Slot → Bool}
  {ls : List Label}

theorem Apart.same_side (h : m₀.Apart side) {g g' : Bool} {ep : EndpointId}
    (h₁ : allowed m₀ side g (.endpoint ep)) (h₂ : allowed m₀ side g' (.endpoint ep)) : g = g' := by
  obtain ⟨i, t, k, rfl, ht, hi⟩ | ⟨_, hc, -⟩ := h₁
  · obtain ⟨j, u, n, rfl, hu, hj⟩ | ⟨_, hc, -⟩ := h₂
    · exact h.endpoint ht hu hi hj
    · cases hc
  · cases hc

section Invariant

variable (h : Confined m₀ side m)

include h

theorem Confined.holds {i : Slot} {r : Task} {ep : EndpointId}
    (hr : m.sched.tasks i = some r) (hep : r.holds ep) : allowed m₀ side (side i) (.endpoint ep) := by
  obtain ⟨k, hk⟩ := hep
  exact h.owns hr (.inl ⟨k, Caps.capLookup_eq_some.mp hk⟩)

theorem Confined.meets (hapart : m₀.Apart side) (hrun : m.Runs t) {i : Slot} {r : Task}
    {ep : EndpointId} {role : IpcRole} (hr : m.sched.tasks i = some r)
    (hst : r.state = .blocked ep role) (hep : t.holds ep) : side i = side m.current :=
  hapart.same_side (h.blocked hr hst) (h.holds hrun.task hep)

theorem effect_confined (hapart : m₀.Apart side) (hrun : m.Runs t) (hev : ev ≠ .park)
    (heff : Effect m t ev m₁) : Confined m₀ side m₁ := by
  refine ⟨fun {i t' cap} ht' hown => ?_, fun {i t' c} ht' hc => ?_, fun {i t' ep role} ht' hst => ?_⟩
  · obtain ⟨r, hr, hch⟩ := effect_change hrun heff ht'
    obtain ⟨k, hcap⟩ | hgrant := hown
    · cases hch.capSource hr hrun hcap with
      | kept hr hcap => exact h.owns hr (.inl ⟨_, hcap⟩)
      | stashed hi hcaller =>
        obtain ⟨c, rfl, hc⟩ := h.caller hrun.task hcaller
        exact .inr ⟨c, rfl, hi ▸ hc⟩
      | minted hi hep hr hst => exact .inr ⟨_, rfl, hi ▸ h.meets hapart hrun hr hst hep⟩
      | carried hi hgrant => exact hi ▸ h.owns hrun.task (.inr hgrant)
      | granted hi hep hr hst hgrant =>
        rw [hi, ← h.meets hapart hrun hr hst hep]
        exact h.owns hr (.inr hgrant)
    · cases hch.grantSource hr hgrant with
      | kept hr hgrant => exact h.owns hr (.inr hgrant)
      | queued hi hask hcap hsrc => exact hi ▸ h.owns hrun.task (.inl ⟨_, hsrc⟩)
      | sent hask hcap hsrc hr hst =>
        rw [h.meets hapart hrun hr hst ⟨_, hcap⟩]
        exact h.owns hrun.task (.inl ⟨_, hsrc⟩)
  · obtain ⟨r, hr, hch⟩ := effect_change hrun heff ht'
    cases hch.callerSource hr hc with
    | kept hr hc => exact h.caller hr hc
    | bound hep hr hst => exact ⟨m.current, rfl, (h.meets hapart hrun hr hst hep).symm⟩
  · obtain ⟨r, hr, hch⟩ := effect_change hrun heff ht'
    cases hch.blockSource hr hst with
    | kept hr hst => exact h.blocked hr hst
    | asked hi hep => exact hi ▸ h.holds hrun.task hep
    | parked hpark => exact absurd hpark hev

theorem effect_other_side (hapart : m₀.Apart side) (hreply : m₀.AnswersOwn side) (hrun : m.Runs t)
    (hsys : (∃ sys frame, ev.asks sys frame) ∨ ev = .resume) (heff : Effect m t ev m₁) {j : Slot}
    (hj : side j ≠ side m.current) {u' : Task} (hu' : m₁.sched.tasks j = some u') :
    m.sched.tasks j = some u' := by
  obtain ⟨u, hu, hch⟩ := effect_change hrun heff hu'
  have hcur : j ≠ m.current := fun hc => hj (hc ▸ rfl)
  have htrap {frame : TrapFrame} (hev : ev = .trap frame) : decode frame.scause = .userEcall := by
    obtain ⟨sys, frame', hask⟩ | hres := hsys
    · obtain rfl := Event.trap.inj (hev.symm.trans hask.1)
      exact hask.2.1
    · cases hev.symm.trans hres
  cases hch with
  | same => exact hu
  | wait hi => exact absurd hi hcur
  | queue hi => exact absurd hi hcur
  | receive hi => exact absurd hi hcur
  | pickUp hi => exact absurd hi hcur
  | spend hi => exact absurd hi hcur
  | accept _ hep hst => exact absurd (h.meets hapart hrun hu hst hep) hj
  | taken _ hep hst => exact absurd (h.meets hapart hrun hu hst hep) hj
  | read _ hep hst => exact absurd (h.meets hapart hrun hu hst hep) hj
  | answer _ _ hcap =>
    obtain ⟨i, r, k, hi, hr, hk⟩ | ⟨c, hc, hi⟩ :=
      h.owns hrun.task (.inl ⟨_, Caps.replyCaller_eq_some.mp hcap⟩)
    · exact absurd ((hreply i r k j hr hk).trans hi) hj
    · rw [Fin.ext (Capability.reply.inj hc)] at hj
      exact absurd hi hj
  | @sweep ep _ _ hep =>
    have hkeep : (u.caps.revokeInCaps ep).1 = u.caps := Caps.revokeInCaps_eq_self fun k hk =>
      hj (hapart.same_side (h.owns hu (.inl ⟨k, hk⟩)) (h.holds hrun.task hep))
    rw [hkeep]
    exact hu
  | relaunch hcap =>
    obtain ⟨i, r, k, hi, hr, hk⟩ | ⟨c, hc, -⟩ :=
      h.owns hrun.task (.inl ⟨_, Caps.restartTarget_eq_some.mp hcap⟩)
    · exact absurd ((hapart.restart hr hk).trans hi) hj
    · cases hc
  | interrupt hev hcause => simp [htrap hev] at hcause
  | notify hev hcause => simp [killCause, htrap hev] at hcause

theorem switch_confined (hsw : Switch m m') : Confined m₀ side m' := by
  refine ⟨fun {i t' cap} ht' hown => ?_, fun {i t' c} ht' hc => ?_, fun {i t' ep role} ht' hst => ?_⟩
  · obtain ⟨r, hr, heq, -⟩ := hsw.task ht'
    rw [heq] at hown
    exact h.owns hr hown
  · obtain ⟨r, hr, heq, -⟩ := hsw.task ht'
    rw [heq] at hc
    exact h.caller hr hc
  · obtain ⟨r, hr, -, hsame | ⟨-, hrunnable⟩⟩ := hsw.task ht'
    · exact h.blocked hr (hsame.symm.trans hst)
    · simp [hst, TaskState.runnable] at hrunnable

end Invariant

theorem Fresh.confined (h : m₀.Fresh) : Confined m₀ side m₀ where
  owns {i t cap} ht hown := by
    obtain ⟨k, hk⟩ | hgrant := hown
    · exact .inl ⟨i, t, k, rfl, ht, hk⟩
    · cases (h.task ht).pendingGrant.symm.trans hgrant
  caller ht hc := by cases (h.task ht).caller.symm.trans hc
  blocked ht hst := by
    have := (h.task ht).state
    simp [hst, TaskState.runnable] at this

/-- Groups kept apart at boot stay apart: along every run of system calls, a task owns
only what its group held at boot and the right to answer its group, and a system call of
one group changes nothing of a task of the other but which of them runs. -/
theorem confinement {heal : Heal} {ops : List BootOp} (hboot : boot p heal ops = .ok m₀)
    (hapart : m₀.Apart side) (hreply : m₀.AnswersOwn side) (hsys : ∀ l ∈ ls, l.event.isSyscall = true)
    (hrun : run (step p) m₀ ls = some m) :
    (∀ i t cap, m.sched.tasks i = some t → t.owns cap → allowed m₀ side (side i) cap) ∧
    ∀ l m', m.step p l = some m' →
      ((∃ sys frame, l.event.asks sys frame) ∨ l.event = .resume) →
      ∀ j u, side j ≠ side m.current → m.sched.tasks j = some u →
        ∃ state, m'.sched.tasks j = some { u with state } ∧
          (state = u.state ∨ u.state.runnable ∧ state.runnable) := by
  obtain ⟨hsound, h⟩ := run_rule (Confined m₀ side)
    (fun _ l => True ∧ l.event.isSyscall = true)
    (fun m t l m₁ _ h hrun _ hgood heff => effect_confined h hapart hrun
      (fun hpark => by simp [hpark, Event.isSyscall] at hgood) heff)
    (fun m m' h hsw => switch_confined h hsw) (boot_fresh hboot).sound (boot_fresh hboot).confined
    (stepsMeet_and_of_mem (stepsMeet_true ls) hsys) hrun
  refine ⟨fun i t cap ht hown => h.owns ht hown, fun l m' hstep hev j u hj hu => ?_⟩
  obtain ⟨t, hruns⟩ := hsound.runs
  obtain ⟨hen, hexec⟩ := step_eq_some.mp hstep
  obtain ⟨m₁, heff, hsw⟩ := exec_effect hruns hen hexec
  obtain ⟨u₁, hu₁, -⟩ := exists_task_of_static (effect_static hruns heff j).symm hu
  obtain rfl := Option.some.inj (hu.symm.trans (effect_other_side h hapart hreply hruns hev heff hj hu₁))
  obtain ⟨u', hu', heq, hstate⟩ := hsw.exists_task hu₁
  have hctx := hsw.context hu₁ hu' fun hc => hj (hc ▸ heff.current ▸ rfl)
  refine ⟨u'.state, ?_, hstate⟩
  rw [hu', heq, hctx]

def capIn (m : Machine) (x : Slot × Fin capSlots) : Option Capability :=
  (m.sched.tasks x.1).bind fun t => t.caps.capAt x.2

theorem capIn_eq {i : Slot} {k : Nat} {cap : Capability} (ht : m.sched.tasks i = some t)
    (hcap : t.caps.capAt k = some cap) : m.capIn (i, ⟨k, Caps.capAt_lt hcap⟩) = some cap := by
  simp [capIn, ht, hcap]

/-- A check of every table slot that implies `Apart`. -/
def apartCheck (m : Machine) (side : Slot → Bool) : Bool :=
  decide (∀ x, (m.capIn x).isSome → ∀ y, m.capIn x = m.capIn y → side x.1 = side y.1) &&
  decide (∀ x c, m.capIn x = some (.restart c.val) → side c = side x.1)

theorem apart_of_check (h : m.apartCheck side = true) : m.Apart side := by
  obtain ⟨hend, hrestart⟩ := Bool.and_eq_true_iff.mp h
  refine ⟨fun ht hu hi hj => ?_, fun ht hcap => of_decide_eq_true hrestart _ _ (capIn_eq ht hcap)⟩
  have hx := capIn_eq ht hi
  exact of_decide_eq_true hend _ (by rw [hx]; rfl) _ (hx.trans (capIn_eq hu hj).symm)

/-- Task 0 alone in its group; tasks 1 and 2, a server and its client, in the other. -/
def apartOps (caps : List (Nat × Capability)) : List BootOp :=
  BootOp.tasks [caps, [(0, .endpoint 0)], [(0, .endpoint 0)]]

def apartSide (i : Slot) : Bool := i == 1 || i == 2

theorem confinement_apart : ∃ m₀ m, boot .sample .empty (apartOps [(0, .endpoint 7)]) = .ok m₀ ∧
    run (step .sample) m₀ [.tickUser, .ecall 5 [0, 1]] = some m ∧
    ∀ i t cap, m.sched.tasks i = some t → t.owns cap →
      allowed m₀ apartSide (apartSide i) cap := by
  obtain ⟨m, hm⟩ := Option.isSome_iff_exists.mp (show (runFrom (apartOps [(0, .endpoint 7)])
    [.tickUser, .ecall 5 [0, 1]]).isSome = true by decide +kernel)
  obtain ⟨m₀, hboot, hrun⟩ := runFrom_eq_some hm
  have hcheck : (boot .sample .empty (apartOps [(0, .endpoint 7)])).toOption.all
      (fun m => m.apartCheck apartSide) = true := by decide +kernel
  rw [hboot] at hcheck
  have hreply : m₀.AnswersOwn apartSide := by
    intro i t k c ht hcap
    obtain ⟨slot, j, hmem⟩ := boot_caps hboot ht hcap
    simp [apartOps, BootOp.tasks] at hmem
  exact ⟨m₀, m, hboot, hrun,
    (confinement hboot (apart_of_check hcheck) hreply (by decide) hrun).1⟩

/-- A reply capability handed out at boot crosses the groups: task 0 answers the client's
call and so changes its message and state. -/
theorem confinement_needs_reply : ∃ m₀ ls m l frame m' u u',
    boot .sample .empty (apartOps [(0, .reply 2)]) = .ok m₀ ∧ m₀.Apart apartSide ∧
    (∀ l ∈ ls, l.event.isSyscall = true) ∧ run (step .sample) m₀ ls = some m ∧
    m.step .sample l = some m' ∧ l.event.asks .reply frame ∧
    apartSide 2 ≠ apartSide m.current ∧ m.sched.tasks 2 = some u ∧
    m'.sched.tasks 2 = some u' ∧ u'.message ≠ u.message ∧ ¬ u.state.runnable := by
  let ls : List Label := [.tickUser, .ecall 5 [0, 1], .ecall 7 [0, 7], .tick]
  have heval : (runFrom (apartOps [(0, .reply 2)]) ls).any (fun m =>
      decide (apartSide 2 ≠ apartSide m.current) &&
      (m.step .sample (.ecall 8 [0, 9])).any fun m' =>
        (m.sched.tasks 2).any fun u => (m'.sched.tasks 2).any fun u' =>
          decide (u'.message ≠ u.message) && decide (u.state = .awaitingReply)) = true := by
    decide +kernel
  have hcheck : (boot .sample .empty (apartOps [(0, .reply 2)])).toOption.all
      (fun m => m.apartCheck apartSide) = true := by decide +kernel
  simp only [Option.any_eq_true, Bool.and_eq_true, decide_eq_true_eq] at heval
  obtain ⟨m, hm, hside, m', hstep, u, hu, u', hu', hmsg, hstate⟩ := heval
  obtain ⟨m₀, hboot, hrun⟩ := runFrom_eq_some hm
  rw [hboot] at hcheck
  exact ⟨m₀, ls, m, .ecall 8 [0, 9], .ecall 8 [0, 9], m', u, u', hboot, apart_of_check hcheck,
    by decide, hrun, hstep, ⟨rfl, by decide, by decide⟩, hside, hu, hu', hmsg,
    by simp [hstate, TaskState.runnable]⟩

end Machine

end Perenne

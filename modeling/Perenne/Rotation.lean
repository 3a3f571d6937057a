import Perenne.Steady
import Perenne.Trace

namespace Perenne

open Except Scheduler

namespace Machine

variable {p : Platform} {m₀ m m₁ m' : Machine} {t : Task} {ev : Event} {idle : Slot}

/-- The event restarts the task in slot `i`. -/
def restarts (m : Machine) (i : Slot) (ev : Event) : Bool :=
  m.requests .restart (fun t frame => t.caps.restartTarget (frame.regs 9) == some i.val) ev

/-- The step is not the restart of the task that makes it, and `idle` uses no more of the
scheduler than `yield_now`. -/
def Rotates (idle : Slot) (m : Machine) (l : Label) : Prop :=
  m.restarts m.current l.event = false ∧ (m.current = idle → l.event.uses = none)

instance (idle : Slot) (m : Machine) (l : Label) : Decidable (m.Rotates idle l) :=
  inferInstanceAs (Decidable (_ ∧ _))

/-- Exactly one task is running, the one `current` names, and `idle` waits for nothing. -/
structure WellFormed (idle : Slot) (m : Machine) : Prop where
  running (i : Slot) : (m.sched.tasks i).any (·.state == .running) = true ↔ i = m.current
  idle : ∃ u, m.sched.tasks idle = some u ∧ u.state.runnable

/-- The capability names a U-mode task, if it is the right to restart one. -/
def restartsUser (m₀ : Machine) : Capability → Prop
  | .restart n => ∃ c : Slot, c.val = n ∧ ∃ r, m₀.sched.tasks c = some r ∧ r.isUser = true
  | _ => True

/-- Every capability, in a table or on its way, meets `P`. -/
structure OwnsOnly (P : Capability → Prop) (m : Machine) : Prop where
  table {i : Slot} {t : Task} {k : Nat} {cap : Capability} (ht : m.sched.tasks i = some t)
    (hcap : t.caps.capAt k = some cap) : P cap
  grant {i : Slot} {t : Task} {cap : Capability} (ht : m.sched.tasks i = some t)
    (hgrant : t.pendingGrant = some cap) : P cap

section OwnsOnly

variable {P : Capability → Prop} (hreply : ∀ c, P (.reply c)) (h : m.OwnsOnly P)

include h

include hreply in
theorem effect_ownsOnly (hrun : m.Runs t) (heff : Effect m t ev m₁) : m₁.OwnsOnly P := by
  refine ⟨fun ht' hcap => ?_, fun ht' hgrant => ?_⟩
  · obtain ⟨r, hr, hch⟩ := effect_change hrun heff ht'
    cases hch.capSource hr hrun hcap with
    | kept hr hcap => exact h.table hr hcap
    | stashed => exact hreply _
    | minted => exact hreply _
    | carried hi hgrant => exact h.grant hrun.task hgrant
    | granted hi hep hr hstate hgrant => exact h.grant hr hgrant
  · obtain ⟨r, hr, hch⟩ := effect_change hrun heff ht'
    cases hch.grantSource hr hgrant with
    | kept hr hgrant => exact h.grant hr hgrant
    | queued hi hask hcap hsrc => exact h.table hrun.task hsrc
    | sent hask hcap hsrc hr hstate => exact h.table hrun.task hsrc

theorem switch_ownsOnly (hsw : Switch m m') : m'.OwnsOnly P := by
  refine ⟨fun ht' hcap => ?_, fun ht' hgrant => ?_⟩
  · obtain ⟨r, hr, heq, -⟩ := hsw.task ht'
    rw [heq] at hcap
    exact h.table hr hcap
  · obtain ⟨r, hr, heq, -⟩ := hsw.task ht'
    rw [heq] at hgrant
    exact h.grant hr hgrant

end OwnsOnly

theorem Fresh.ownsOnly {P : Capability → Prop} (h : m.Fresh)
    (hP : ∀ i t k cap, m.sched.tasks i = some t → t.caps.capAt k = some cap → P cap) :
    m.OwnsOnly P := by
  refine ⟨fun ht hcap => hP _ _ _ _ ht hcap, fun ht hgrant => ?_⟩
  rw [(h.task ht).pendingGrant] at hgrant
  cases hgrant

/-- The running task is not marked `Ready`. -/
def Awake (m : Machine) : Prop := ∀ t, m.sched.tasks m.current = some t → t.state ≠ .ready

theorem effect_awake (h : m.Awake) (hrun : m.Runs t) (hself : m.restarts m.current ev = false)
    (heff : Effect m t ev m₁) : m₁.Awake := by
  have hawake := h t hrun.task
  intro t' ht'
  rw [heff.current] at ht'
  have hsame (ht' : m.sched.tasks m.current = some t') : t'.state ≠ .ready := h t' ht'
  have hset {s : Scheduler} {u : Task} (hu : u.state ≠ .ready)
      (ht' : (s.set m.current u).tasks m.current = some t') : t'.state ≠ .ready := by
    rw [set_tasks_self] at ht'
    exact Option.some.inj ht' ▸ hu
  -- A task that waits is another one than the one that runs.
  have hother {i : Slot} {u : Task} (hne : i ≠ m.current)
      (ht' : (m.sched.set i u).tasks m.current = some t') : t'.state ≠ .ready := by
    rw [set_tasks_ne _ hne.symm] at ht'
    exact h t' ht'
  cases heff with
  | keep => exact hsame ht'
  | deliver hoffer =>
    refine hset ?_ ht'
    cases hoffer with
    | call => simp
    | _ => exact hawake
  | enqueue hoffer =>
    refine hset ?_ ht'
    cases hoffer with
    | callMessage => exact hawake
    | _ => simp
  | take => exact hset (by exact hawake) ht'
  | takeMessage _ hne => exact hother hne ht'
  | waitRecv => exact hset (by simp) ht'
  | waitIrq => exact hset (by simp) ht'
  | toRecvPark => exact hsame ht'
  | park hpoint =>
    refine hset ?_ ht'
    obtain ⟨ep, -, rfl, -⟩ | ⟨-, rfl, -⟩ | ⟨ep, -, rfl, -⟩ := parkPoint_eq_some hpoint <;> simp
  | pickUp => exact hset (by exact hawake) ht'
  | callReturn => exact hsame ht'
  | settle => exact hsame ht'
  | finish => exact hsame ht'
  | reply => exact hset (by exact hawake) ht'
  | replyRefused => exact hset (by exact hawake) ht'
  | revoke =>
    change (m.sched.revokeEndpoint _ m.current).1.tasks m.current = some t' at ht'
    rw [revokeEndpoint_tasks, if_pos rfl] at ht'
    exact hsame ht'
  | @relaunch _ frame _ _ target r hask hcap =>
    have hne : target ≠ m.current := by
      rintro rfl
      rw [restarts, requests_of_asks hrun hask, hcap] at hself
      simp at hself
    exact hother hne ht'
  | wakeIrq _ hr hstate =>
    refine hother (hrun.ne_of_blocked hr ?_) ht'
    simp [hstate, TaskState.runnable]
  | exit => exact hset (by simp) ht'
  | kill => exact hset (by simp) ht'
  | crash => exact hset (by simp) ht'

theorem switch_awake (h : m.Awake) (hsw : Switch m m') : m'.Awake := by
  cases hsw with
  | stay => exact h
  | swap ht hne hu hready hstate =>
    intro t' ht'
    obtain rfl := Option.some.inj (((handOver_tasks ..).trans (if_pos rfl)).symm.trans ht')
    exact nofun

/-- The invariant of the run queue. -/
structure Rotation (m₀ : Machine) (idle : Slot) (m : Machine) : Prop where
  turns : m.Turns idle
  awake : m.Awake
  restarts : m.OwnsOnly m₀.restartsUser
  static (j : Slot) : (m.sched.tasks j).map Task.static = (m₀.sched.tasks j).map Task.static

theorem Rotation.wellFormed (h : Rotation m₀ idle m) (hsound : m.Sound) : m.WellFormed idle := by
  refine ⟨fun i => ⟨fun hany => ?_, ?_⟩, h.turns.runnable hsound⟩
  · obtain ⟨t, ht, hstate⟩ := (Option.any_eq_true _ _).mp hany
    exact h.turns.solo i t ht (eq_of_beq hstate)
  · rintro rfl
    obtain ⟨t, hrun⟩ := hsound.runs
    have hrunning := hrun.runnable.resolve_left (h.awake t hrun.task)
    exact (Option.any_eq_true _ _).mpr ⟨t, hrun.task, by rw [hrunning]; rfl⟩

theorem Rotation.valid (h : Rotation m₀ idle m) (hrun : m.Runs t) {k : Nat} {cap : Capability}
    (hcap : t.caps.capAt k = some cap) : cap.valid m.sched ∨ ∃ n, cap = .reply n := by
  have hP := h.restarts.table hrun.task hcap
  cases cap with
  | restart n =>
    left
    exact Capability.valid_of_static h.static hP
  | reply n => exact .inr ⟨n, rfl⟩
  | _ => exact .inl trivial

theorem effect_exited (hrun : m.Runs t) (heff : Effect m t ev m₁) {i : Slot} {r r' : Task}
    (hr : m.sched.tasks i = some r) (hr' : m₁.sched.tasks i = some r') (hdead : r.state = .exited) :
    r'.state = .exited ∨ m.restarts i ev = true := by
  obtain ⟨r₀, hr₀, hch⟩ := effect_change hrun heff hr'
  obtain rfl := Option.some.inj (hr.symm.trans hr₀)
  have hcur : i ≠ m.current := hrun.ne_of_blocked hr (by simp [hdead, TaskState.runnable])
  cases hch with
  | same => exact .inl hdead
  | sweep => exact .inl hdead
  | wait hi => exact absurd hi hcur
  | queue hi => exact absurd hi hcur
  | receive hi => exact absurd hi hcur
  | pickUp hi => exact absurd hi hcur
  | spend hi => exact absurd hi hcur
  | accept _ _ h => cases hdead.symm.trans h
  | taken _ _ h => cases hdead.symm.trans h
  | read _ _ h => cases hdead.symm.trans h
  | answer _ _ _ h => cases hdead.symm.trans h
  | interrupt _ _ h => cases hdead.symm.trans h
  | notify _ _ h => cases hdead.symm.trans h
  | relaunch hcap _ hask =>
    refine .inr ?_
    rw [restarts, requests_of_asks hrun hask, hcap]
    exact beq_self_eq_true _

/-- What one step keeps: no slot is emptied, and a dead task stays dead unless it is the
one that is restarted. -/
structure Keeps (m : Machine) (ev : Event) (m' : Machine) : Prop where
  filled {i : Slot} (h : (m.sched.tasks i).isSome = true) : (m'.sched.tasks i).isSome = true
  exited {i : Slot} {r r' : Task} (hr : m.sched.tasks i = some r)
    (hr' : m'.sched.tasks i = some r') (hdead : r.state = .exited) :
    r'.state = .exited ∨ m.restarts i ev = true

theorem step_keeps {l : Label} (hsound : m.Sound) (hstep : m.step p l = some m') :
    m.Keeps l.event m' := by
  obtain ⟨t, hrun⟩ := hsound.runs
  obtain ⟨hen, hexec⟩ := step_eq_some.mp hstep
  obtain ⟨m₁, heff, hsw⟩ := exec_effect hrun hen hexec
  have hstatic (j : Slot) := (switch_static hsw j).trans (effect_static hrun heff j)
  refine ⟨fun {i} hsome => ?_, fun {i r r'} hr hr' hdead => ?_⟩
  · obtain ⟨r, hr⟩ := Option.isSome_iff_exists.mp hsome
    obtain ⟨r', hr', -⟩ := exists_task_of_static (hstatic i).symm hr
    exact Option.isSome_iff_exists.mpr ⟨r', hr'⟩
  · obtain ⟨r₁, hr₁, -, hstate⟩ := hsw.task hr'
    obtain hdead₁ | hrestart := effect_exited hrun heff hr hr₁ hdead
    · obtain hst | ⟨hrunnable, -⟩ := hstate
      · exact .inl (hst.trans hdead₁)
      · simp [hdead₁, TaskState.runnable] at hrunnable
    · exact .inr hrestart

/-- A panic other than a failed successor assertion. -/
def findsSuccessor : Panic → Prop
  | .assertNe _ => False
  | _ => True

theorem Rotation.findsSuccessor (h : Rotation m₀ idle m) (hsound : m.Sound) {l : Label}
    (hen : m.enabled l.event = true) (hgood : m.Rotates idle l) (text : String) :
    m.exec p l ≠ .error (.assertNe text) := by
  obtain ⟨t, hrun⟩ := hsound.runs
  have hmeets : Meets Machine.findsSuccessor (fun _ => True) (m.exec p l) := by
    refine h.turns.exec_meets hsound hrun hen hgood.2 (fun k cap hcap => ?_)
      (fun _ _ => .inr fun _ => trivial) (fun _ _ => .inr fun e he => ?_) fun _ => .inr trivial
    · exact (h.valid hrun hcap).imp_right fun hreply => ⟨hreply, trivial⟩
    · cases e with
      | assertNe => cases he
      | _ => trivial
  intro herror
  rw [herror] at hmeets
  exact hmeets

theorem boot_awake {heal : Heal} {ops : List BootOp} (h : boot p heal ops = .ok m) : m.Awake := by
  simp only [boot, Except.bind_eq_ok_iff, Except.pure_eq_ok_iff] at h
  obtain ⟨s, hs, s', hs', rfl⟩ := h
  obtain ⟨t₀, ht₀, rfl⟩ := enter_eq_ok hs'
  intro t ht
  obtain rfl := Option.some.inj ((set_tasks_self s 0 _).symm.trans ht)
  simp

theorem reachable_rotation {heal : Heal} {ops : List BootOp} {ls : List Label}
    (hboot : boot p heal ops = .ok m₀)
    (hidle : ∃ u, m₀.sched.tasks idle = some u ∧ u.isUser = false)
    (hrestart : ∀ i t k n, m₀.sched.tasks i = some t → t.caps.capAt k = some (.restart n) →
      ∃ c : Slot, c.val = n ∧ ∃ r, m₀.sched.tasks c = some r ∧ r.isUser = true)
    (hgood : Transition.StepsMeet (step p) (Rotates idle) m₀ ls)
    (hrun : Transition.run (step p) m₀ ls = some m) : m.Sound ∧ Rotation m₀ idle m := by
  have hfresh := boot_fresh hboot
  refine run_rule (Rotation m₀ idle) (Rotates idle) ?_ ?_ hfresh.sound ?_ hgood hrun
  · intro m t l m₁ hsound h hrun hen hgood heff
    exact ⟨effect_turns hsound h.turns hrun hen hgood.2 heff,
      effect_awake h.awake hrun hgood.1 heff,
      effect_ownsOnly (fun _ => trivial) h.restarts hrun heff,
      fun j => (effect_static hrun heff j).trans (h.static j)⟩
  · intro m m' h hsw
    exact ⟨switch_turns h.turns hsw, switch_awake h.awake hsw, switch_ownsOnly h.restarts hsw,
      fun j => (switch_static hsw j).trans (h.static j)⟩
  · obtain ⟨u, hu, hkernel⟩ := hidle
    refine ⟨⟨⟨u, none, hu, ?_⟩, fun i t => hfresh.solo⟩, ?_, hfresh.ownsOnly ?_, fun _ => rfl⟩
    · rw [hfresh.kont idle, hu]
      simp [hkernel]
    · exact boot_awake hboot
    · intro i t k cap ht hcap
      cases cap with
      | restart n => exact hrestart i t k n ht hcap
      | _ => trivial

/-- Boot any configuration with a kernel task that only ever yields, in which the right to
restart is that of U-mode tasks, and let no task restart itself. In every state a run
reaches, one task is running and it is the current one, `idle` is ready or running, no slot
has been emptied, a dead task changes only by its restart, and the successor assertions of
`exit_current` and `park_current` hold. -/
theorem scheduler_well_formed {heal : Heal} {ops : List BootOp} {ls : List Label}
    (hboot : boot p heal ops = .ok m₀)
    (hidle : ∃ u, m₀.sched.tasks idle = some u ∧ u.isUser = false)
    (hrestart : ∀ i t k n, m₀.sched.tasks i = some t → t.caps.capAt k = some (.restart n) →
      ∃ c : Slot, c.val = n ∧ ∃ r, m₀.sched.tasks c = some r ∧ r.isUser = true)
    (hgood : Transition.StepsMeet (step p) (Rotates idle) m₀ ls)
    (hrun : Transition.run (step p) m₀ ls = some m) :
    m.WellFormed idle ∧
    (∀ l m', m.step p l = some m' → m.Keeps l.event m') ∧
    ∀ l, m.enabled l.event = true → m.Rotates idle l →
      ∀ text, m.exec p l ≠ .error (.assertNe text) := by
  obtain ⟨hsound, h⟩ := reachable_rotation hboot hidle hrestart hgood hrun
  exact ⟨h.wellFormed hsound, fun l m' => step_keeps hsound, fun l => h.findsSuccessor hsound⟩

def restarterOps : List BootOp := BootOp.tasks [[], [(0, .restart 0)]]

/-- Task 0 dies, task 1 restarts it, the timer goes on to `idle`. -/
def restarterRun : List Label :=
  [.of (.trap (.fromU 2)), .ecall 6 [0], .tickUser]

/-- A task restarts another that has died. -/
theorem scheduler_well_formed_restart : ∃ m₀ m, boot .sample .empty restarterOps = .ok m₀ ∧
    Transition.run (step .sample) m₀ restarterRun = some m ∧ m.WellFormed 2 := by
  have heval : (boot .sample .empty restarterOps).toOption.any (fun m₀ =>
      decide (Transition.StepsMeet (step .sample) (Rotates 2) m₀ restarterRun) &&
      (Transition.run (step .sample) m₀ restarterRun).isSome &&
      (m₀.sched.tasks 0).any Task.isUser && (m₀.sched.tasks 2).any fun u => !u.isUser) = true := by
    decide +kernel
  simp only [Option.any_eq_true, Bool.and_eq_true, decide_eq_true_eq, Bool.not_eq_true'] at heval
  obtain ⟨m₀, hboot, ⟨⟨hgood, hsome⟩, r, hr, huser⟩, hidle⟩ := heval
  have hboot := Except.toOption_eq_some_iff.mp hboot
  obtain ⟨m, hrun⟩ := Option.isSome_iff_exists.mp hsome
  refine ⟨m₀, m, hboot, hrun, (scheduler_well_formed hboot hidle ?_ hgood hrun).1⟩
  intro i t k n ht hcap
  obtain ⟨slot, j, hmem⟩ := boot_caps hboot ht hcap
  obtain ⟨-, -, rfl⟩ : slot = 1 ∧ j = 0 ∧ n = 0 := by
    simpa [restarterOps, BootOp.tasks, List.zipIdx] using hmem
  exact ⟨0, rfl, r, hr, huser⟩

end Machine

end Perenne

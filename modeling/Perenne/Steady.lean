import Perenne.Progress

namespace Perenne

open Except Scheduler

theorem Capability.valid_of_static {s s' : Scheduler} {cap : Capability}
    (hstatic : ∀ j, (s'.tasks j).map Task.static = (s.tasks j).map Task.static)
    (h : cap.valid s) : cap.valid s' := by
  cases cap with
  | restart n =>
    obtain ⟨c, hc, r, hr, huser⟩ := h
    obtain ⟨r', hr', hst⟩ := Machine.exists_task_of_static (hstatic c).symm hr
    exact ⟨c, hc, r', hr', by rwa [← Machine.isUser_of_static hst]⟩
  | reply n => exact h
  | _ => trivial

/-- The endpoint slot a kernel task's IPC looks up. -/
def Event.uses : Event → Option Nat
  | .recvMessage idx | .callMessage idx _ => some idx
  | _ => none

namespace Machine

variable {p : Platform} {Q : Panic → Prop} {m m₁ m' : Machine} {t : Task} {ev : Event}
  {idle : Slot}

/-- Every capability, in a table or on its way, is valid. -/
structure Valid (m : Machine) : Prop where
  table {i : Slot} {t : Task} {k : Nat} {cap : Capability} (ht : m.sched.tasks i = some t)
    (hcap : t.caps.capAt k = some cap) : cap.valid m.sched
  grant {i : Slot} {t : Task} {cap : Capability} (ht : m.sched.tasks i = some t)
    (hgrant : t.pendingGrant = some cap) : cap.valid m.sched
  caller {i : Slot} {t : Task} {c : Nat} (ht : m.sched.tasks i = some t)
    (hcaller : t.caller = some c) : c < maxTasks

theorem effect_valid (h : m.Valid) (hrun : m.Runs t) (heff : Effect m t ev m₁) : m₁.Valid := by
  have hst := effect_static hrun heff
  refine ⟨fun ht' hcap => ?_, fun ht' hgrant => ?_, fun ht' hcaller => ?_⟩
  · obtain ⟨r, hr, hch⟩ := effect_change hrun heff ht'
    apply Capability.valid_of_static hst
    cases hch.capSource hr hrun hcap with
    | kept hr hcap => exact h.table hr hcap
    | stashed hi hcaller => exact h.caller hrun.task hcaller
    | minted hi hep hr hstate => exact Fin.isLt _
    | carried hi hgrant => exact h.grant hrun.task hgrant
    | granted hi hep hr hstate hgrant => exact h.grant hr hgrant
  · obtain ⟨r, hr, hch⟩ := effect_change hrun heff ht'
    apply Capability.valid_of_static hst
    cases hch.grantSource hr hgrant with
    | kept hr hgrant => exact h.grant hr hgrant
    | queued hi hask hcap hsrc => exact h.table hrun.task hsrc
    | sent hask hcap hsrc hr hstate => exact h.table hrun.task hsrc
  · obtain ⟨r, hr, hch⟩ := effect_change hrun heff ht'
    cases hch.callerSource hr hcaller with
    | kept hr hcaller => exact h.caller hr hcaller
    | bound hep hr hstate => exact Fin.isLt _

theorem switch_valid (h : m.Valid) (hsw : Switch m m') : m'.Valid := by
  have hst := switch_static hsw
  refine ⟨fun ht' hcap => ?_, fun ht' hgrant => ?_, fun ht' hcaller => ?_⟩
  · obtain ⟨r, hr, heq, -⟩ := hsw.task ht'
    rw [heq] at hcap
    exact Capability.valid_of_static hst (h.table hr hcap)
  · obtain ⟨r, hr, heq, -⟩ := hsw.task ht'
    rw [heq] at hgrant
    exact Capability.valid_of_static hst (h.grant hr hgrant)
  · obtain ⟨r, hr, heq, -⟩ := hsw.task ht'
    rw [heq] at hcaller
    exact h.caller hr hcaller

/-- Only the current task is `Running`. -/
def Solo (m : Machine) : Prop :=
  ∀ i t, m.sched.tasks i = some t → t.state = .running → i = m.current

theorem effect_solo (h : m.Solo) (hrun : m.Runs t) (heff : Effect m t ev m₁) : m₁.Solo := by
  intro i t' ht' hstate
  rw [heff.current]
  obtain ⟨r, hr, hch⟩ := effect_change hrun heff ht'
  cases hch with
  | same => exact h i _ hr hstate
  | wait hi => exact hi
  | queue hi => exact hi
  | receive hi => exact hi
  | pickUp hi => exact hi
  | spend hi => exact hi
  | sweep => exact h i r hr hstate
  | @taken _ isCall => cases isCall <;> cases hstate
  | _ => cases hstate

theorem switch_solo (h : m.Solo) (hsw : Switch m m') : m'.Solo := by
  cases hsw with
  | stay => exact h
  | @swap live next u t state ht hne hu hready hstate =>
    intro i t' ht' hrunning
    rw [handOver_tasks] at ht'
    split at ht'
    case isTrue hi => exact hi
    case isFalse hi =>
      exfalso
      split at ht'
      case isTrue hcur =>
        obtain rfl := Option.some.inj ht'
        obtain ⟨rfl, hno⟩ | ⟨-, rfl⟩ := hstate
        · exact hno (.inr hrunning)
        · cases hrunning
      case isFalse hcur => exact hcur (h i t' ht' hrunning)

/-- A kernel task in its own code stays there while it does not use `recv_message` or
`call_message`. -/
theorem effect_body {i : Slot} {r : Task} {ret : Option KernelRet} (hroles : m.Roles)
    (hen : m.enabled ev = true) (heff : Effect m t ev m₁) (hr : m.sched.tasks i = some r)
    (hk : m.konts i = .kernel (.body ret)) (hev : m.current = i → ev.uses = none) :
    m₁.konts i = .kernel (.body ret) := by
  by_cases hi : m.current = i
  · -- The task itself runs: it has trapped or yielded.
    have hsys : ev.isSyscall = true := by
      rw [← hi] at hk
      cases ev with
      | recvMessage => cases hev hi
      | callMessage => cases hev hi
      | park => simp [enabled, hk, parkPoint] at hen
      | finish => simp [enabled, hk] at hen
      | _ => rfl
    subst hi
    have hask {sys : Syscall} {frame : TrapFrame} (hask : ev.asks sys frame) : False := by
      have := kont_user_of_asks hen hask
      rw [hk] at this
      cases this
    have hresume (hev : ev = .resume) : False := by
      subst hev
      simp [enabled, hk] at hen
    cases heff with
    | keep => exact (next_konts_same (m := m) (s := m.sched) _).trans hk
    | deliver hoffer =>
      cases hoffer with
      | send h => exact (hask h).elim
      | call h => exact (hask h).elim
      | grant h => exact (hask h).elim
      | callMessage => cases hsys
    | enqueue hoffer =>
      cases hoffer with
      | send h => exact (hask h).elim
      | call h => exact (hask h).elim
      | grant h => exact (hask h).elim
      | callMessage => cases hsys
    | take h => exact (hask h).elim
    | takeMessage => cases hsys
    | waitRecv h => exact (hask h).elim
    | waitIrq h => exact (hask h).elim
    | toRecvPark => cases hsys
    | park => cases hsys
    | pickUp => exact (hresume rfl).elim
    | callReturn => exact (hresume rfl).elim
    | settle => exact (hresume rfl).elim
    | finish => cases hsys
    | reply h => exact (hask h).elim
    | replyRefused h => exact (hask h).elim
    | revoke h => exact (hask h).elim
    | relaunch h => exact (hask h).elim
    | wakeIrq => exact (next_konts_same _).trans hk
    | exit h => exact (hask h).elim
    | kill => exact hk
    | crash => exact hk
  · -- Another task runs: it writes its own continuation, or that of a U-mode task.
    have hnext {s : Scheduler} {f : TrapFrame} {k : Kont} :
        (m.next s f k).konts i = .kernel (.body ret) := by
      rw [next_konts, if_neg (Ne.symm hi), hk]
    cases heff with
    | @relaunch _ _ _ _ target r' _ _ hr' _ huser =>
      have hne : i ≠ target := by
        rintro rfl
        obtain rfl := Option.some.inj (hr.symm.trans hr')
        have := hroles i r hr
        rw [hk, huser] at this
        cases this
      simpa [Function.update_of_ne hne] using hk
    | keep => exact hnext (s := m.sched)
    | exit => exact hk
    | kill => exact hk
    | crash => exact hk
    | _ => exact hnext

/-- The task in slot `idle` is in its own code, and only the current task is running. -/
structure Turns (idle : Slot) (m : Machine) : Prop where
  idle : ∃ u ret, m.sched.tasks idle = some u ∧ m.konts idle = .kernel (.body ret)
  solo : m.Solo

theorem effect_turns (hsound : m.Sound) (h : m.Turns idle) (hrun : m.Runs t)
    (hen : m.enabled ev = true) (hidle : m.current = idle → ev.uses = none)
    (heff : Effect m t ev m₁) : m₁.Turns idle := by
  obtain ⟨u, ret, hu, hk⟩ := h.idle
  obtain ⟨u', hu', -⟩ := exists_task_of_static (effect_static hrun heff idle).symm hu
  exact ⟨⟨u', ret, hu', effect_body hsound.roles hen heff hu hk hidle⟩,
    effect_solo h.solo hrun heff⟩

theorem switch_turns (h : m.Turns idle) (hsw : Switch m m') : m'.Turns idle := by
  obtain ⟨u, ret, hu, hk⟩ := h.idle
  obtain ⟨u', hu', -⟩ := exists_task_of_static (switch_static hsw idle).symm hu
  have hkonts : m'.konts = m.konts := by cases hsw <;> rfl
  exact ⟨⟨u', ret, hu', by rw [hkonts, hk]⟩, switch_solo h.solo hsw⟩

theorem Turns.runnable (h : m.Turns idle) (hsound : m.Sound) :
    ∃ u, m.sched.tasks idle = some u ∧ u.state.runnable := by
  obtain ⟨u, ret, hu, hk⟩ := h.idle
  have hrunnable := hsound.parked idle u hu
  rw [hk] at hrunnable
  exact ⟨u, hu, hrunnable⟩

theorem Turns.canSwitch (h : m.Turns idle) (hsound : m.Sound) (hne : m.current ≠ idle) :
    m.sched.CanSwitch idle := by
  obtain ⟨t, hrun⟩ := hsound.runs
  obtain ⟨u, hu, hrunnable⟩ := h.runnable hsound
  refine ⟨⟨t, hrun.task⟩, hne.symm, u, hu, hrunnable.resolve_right fun hrunning => ?_⟩
  exact hne (h.solo idle u hu hrunning).symm

theorem Turns.ne_idle (h : m.Turns idle) (hk : (m.konts m.current).isKernel = false) :
    m.current ≠ idle := by
  rintro rfl
  obtain ⟨u, ret, -, hbody⟩ := h.idle
  rw [hbody] at hk
  cases hk

theorem Turns.park_meets (h : m.Turns idle) (hsound : m.Sound) {l : Label}
    (hev : l.event = .park) (hen : m.enabled .park = true) :
    Meets Q (fun _ => True) (m.exec p l) := by
  obtain ⟨⟨state, pc⟩, hpoint⟩ := Option.isSome_iff_exists.mp hen
  have hne : m.current ≠ idle := by
    rintro rfl
    obtain ⟨u, ret, -, hbody⟩ := h.idle
    rw [hbody] at hpoint
    cases hpoint
  rw [exec, hev]
  simp only [hpoint]
  exact (parkCurrent_meets (h.canSwitch hsound hne) ..).bind fun _ _ => trivial

/-- With `idle` to take over, a step stops only where a capability names nothing, a kernel
task lacks the endpoint it uses, or the trap handler itself has no answer. -/
theorem Turns.exec_meets (hsound : m.Sound) (h : m.Turns idle) (hrun : m.Runs t) {l : Label}
    (hen : m.enabled l.event = true) (hidle : m.current = idle → l.event.uses = none)
    (hvalid : ∀ k cap, t.caps.capAt k = some cap →
      cap.valid m.sched ∨ (∃ n, cap = .reply n) ∧ Q .indexOutOfBounds)
    (hcap : ∀ idx, l.event.uses = some idx →
      (∃ ep, t.caps.capLookup idx = some ep) ∨ ∀ text, Q (.expect text))
    (htrap : ∀ frame, l.event = .trap frame →
      m.answers p frame = true ∨ ∀ e, e.ofTrap = true → Q e)
    (hresume : l.event = .resume → (m.frames m.current).sepc + 4 < 2 ^ 64 ∨ Q .overflow) :
    Meets Q (fun _ => True) (m.exec p l) := by
  obtain ⟨ev, input⟩ := l
  have hne {idx : Nat} (huses : ev.uses = some idx) : m.current ≠ idle := by
    intro hcur
    simp [hidle hcur] at huses
  cases ev with
  | trap frame =>
    cases hk : m.konts m.current with
    | user =>
      have hcan := h.canSwitch hsound (h.ne_idle (by rw [hk]; rfl))
      have huser : frame.fromUser = true := by simpa [enabled, hk] using hen
      exact trapHandler_meets hcan hrun hvalid input huser (htrap frame rfl)
    | kernel pc =>
      have hcause : decode frame.scause = .supervisorTimer ∨
          decode frame.scause = .supervisorExternal := by
        simp only [enabled, hk, Bool.and_eq_true, Bool.or_eq_true, beq_iff_eq] at hen
        exact hen.2
      exact interrupt_meets hrun input hcause
    | _ => simp [enabled, hk] at hen
  | resume => exact resumeSyscall_meets hrun (hresume rfl)
  | yieldNow => exact (yieldNow_meets hrun.task _).bind fun _ _ => trivial
  | recvMessage idx =>
    have hmeets : Meets Q (fun _ => True) (m.sched.recvMessage idx) :=
      recvMessage_meets hrun.task (hcap idx rfl)
    exact hmeets.bind fun _ _ => trivial
  | callMessage idx badge =>
    have hcan := h.canSwitch hsound (hne rfl)
    exact (callMessage_meets hcan hrun.task (hcap idx rfl)).bind fun _ _ => trivial
  | park => exact h.park_meets hsound rfl hen
  | finish =>
    refine (task_meets (P := fun _ => True) hrun.task trivial).bind fun t' _ => ?_
    split <;> trivial
  | setHeal heal => trivial
  | setPool inUse => trivial

/-- The task in slot `idle` is in its own code, only the current task is running, and
every capability is valid. -/
structure Steady (idle : Slot) (m : Machine) : Prop where
  idle : ∃ u ret, m.sched.tasks idle = some u ∧ m.konts idle = .kernel (.body ret)
  solo : m.Solo
  valid : m.Valid

theorem Steady.turns (h : m.Steady idle) : m.Turns idle := ⟨h.idle, h.solo⟩

theorem effect_steady (hsound : m.Sound) (h : m.Steady idle) (hrun : m.Runs t)
    (hen : m.enabled ev = true) (hidle : m.current = idle → ev.uses = none)
    (heff : Effect m t ev m₁) : m₁.Steady idle := by
  obtain ⟨hi, hsolo⟩ := effect_turns hsound h.turns hrun hen hidle heff
  exact ⟨hi, hsolo, effect_valid h.valid hrun heff⟩

theorem switch_steady (h : m.Steady idle) (hsw : Switch m m') : m'.Steady idle := by
  obtain ⟨hi, hsolo⟩ := switch_turns h.turns hsw
  exact ⟨hi, hsolo, switch_valid h.valid hsw⟩

/-- A step stops only with a stop of the trap handler itself, once every kernel task
holds the endpoint it uses. -/
theorem exec_meets (hsound : m.Sound) (h : m.Steady idle) (hrun : m.Runs t) {l : Label}
    (hen : m.enabled l.event = true) (hidle : m.current = idle → l.event.uses = none)
    (hcap : ∀ idx, l.event.uses = some idx → ∃ ep, t.caps.capLookup idx = some ep)
    (htrap : ∀ frame, l.event = .trap frame →
      m.answers p frame = true ∨ ∀ e, e.ofTrap = true → Q e)
    (hresume : l.event = .resume → (m.frames m.current).sepc + 4 < 2 ^ 64 ∨ Q .overflow) :
    Meets Q (fun _ => True) (m.exec p l) :=
  h.turns.exec_meets hsound hrun hen hidle (fun _ _ hc => .inl (h.valid.table hrun.task hc))
    (fun idx huses => .inl (hcap idx huses)) htrap hresume

end Machine

end Perenne

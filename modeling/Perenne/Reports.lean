import Perenne.Cage

namespace Perenne

open Scheduler

def Event.ticks : Event → Bool
  | .trap frame => decode frame.scause == .supervisorTimer
  | _ => false

namespace Machine

variable {p : Platform} {m m₁ m' : Machine} {t : Task} {l : Label}

/-- The running task goes on after a device interrupt, a `restart` and the rest of a system
call that had to wait. -/
theorem step_stays (hrun : m.Runs t) (hstep : m.step p l = some m')
    (hev : (∃ frame, l.event = .trap frame ∧ decode frame.scause = .supervisorExternal) ∨
      (∃ frame, l.event.asks .restart frame) ∨ l.event = .resume) : m'.current = m.current := by
  obtain ⟨-, hexec⟩ := step_eq_some.mp hstep
  obtain ⟨frame, hev, hext⟩ | ⟨frame, hask⟩ | hev := hev
  · simp only [exec, hev, trapHandler, hext] at hexec
    split at hexec
    case isTrue =>
      obtain ⟨s', hs', hexec⟩ := Except.bind_eq_ok_iff.mp hexec
      obtain rfl := Except.ok.inj hexec
      unfold wakeIrq at hs'
      split at hs'
      case h_1 =>
        obtain ⟨r, -, rfl⟩ := modify_eq_ok.mp hs'
        rfl
      case h_2 =>
        obtain rfl := Except.ok.inj hs'
        rfl
    case isFalse =>
      obtain rfl := Except.ok.inj hexec
      rfl
  · obtain ⟨hs, -⟩ | ⟨i, r, context, -, -, -, -, hs, -⟩ := restart_step hrun hask hexec
    · rw [current, hs]
      rfl
    · rw [current, hs]
      rfl
  · simp only [exec, hev, resumeSyscall] at hexec
    cases hk : m.konts m.current with
    | recv ep slot =>
      simp only [hk, resumeRecv_eq hrun.task, Except.bind_eq_ok_iff, Except.ok.injEq] at hexec
      obtain ⟨_, rfl, frame', -, hexec⟩ := hexec
      obtain rfl := Except.ok.inj hexec
      rfl
    | call =>
      simp only [hk, Except.bind_eq_ok_iff, Except.pure_eq_ok_iff] at hexec
      obtain ⟨t', -, _, rfl, frame', -, rfl⟩ := hexec
      rfl
    | _ =>
      simp only [hk, Except.bind_eq_ok_iff, Except.pure_eq_ok_iff] at hexec
      obtain ⟨_, rfl, frame', -, rfl⟩ := hexec
      rfl

theorem crash_hands_over (hrun : m.Runs t) (hstep : m.step p l = some m') {frame : TrapFrame}
    {cause : Cause} {h : Slot} (hev : l.event = .trap frame) (hcause : killCause frame = some cause)
    (hnotify : m.notified t cause = some h) : m'.current = h := by
  obtain ⟨hen, hexec⟩ := step_eq_some.mp hstep
  have hkill : m.kill l.input cause = .ok m' := by
    rw [hev] at hen
    simp only [exec, hev] at hexec
    unfold killCause at hcause
    have huser (hint : decode frame.scause ≠ .supervisorTimer ∧
        decode frame.scause ≠ .supervisorExternal) : frame.fromUser = true :=
      (kont_user_of_trap hen hint.1 hint.2).2
    split at hcause
    case h_5 => cases hcause
    all_goals
      rename_i hd
      obtain rfl := Option.some.inj hcause
      simpa only [trapHandler, hd, huser (by simp [hd]), if_true] using hexec
  simp only [kill, exitCurrent, Except.bind_eq_ok_iff, Except.pure_eq_ok_iff] at hkill
  obtain ⟨_, ⟨⟨s₁, prefer⟩, hs₁, s', hs', rfl⟩, rfl⟩ := hkill
  simp only [notifyCrash, Except.bind_eq_ok_iff, task_eq_ok] at hs₁
  obtain ⟨t', ht', hs₁⟩ := hs₁
  obtain rfl := Option.some.inj (hrun.task.symm.trans ht')
  unfold notified at hnotify
  split at hnotify
  case isFalse => cases hnotify
  case isTrue hyes =>
    simp only [hyes, if_true, hnotify, Except.bind_eq_ok_iff, Except.pure_eq_ok_iff,
      Prod.mk.injEq] at hs₁
    obtain ⟨_, -, rfl, rfl⟩ := hs₁
    simp only [abandon, Except.bind_eq_ok_iff, Except.ite_error_eq_ok_iff, Option.getD_some] at hs'
    obtain ⟨s₂, -, hne, hs'⟩ := hs'
    obtain ⟨t₂, u, -, -, rfl⟩ := switchTo_eq_ok hne hs'
    rfl

theorem switch_blocked (hsw : Switch m₁ m') {i : Slot} {r : Task} {ep : EndpointId} {role : IpcRole}
    (hr : m₁.sched.tasks i = some r) (hstate : r.state = .blocked ep role) :
    ∃ r', m'.sched.tasks i = some r' ∧ r'.state = .blocked ep role := by
  obtain ⟨r', hr', -⟩ := exists_task_of_static (switch_static hsw i).symm hr
  refine ⟨r', hr', ?_⟩
  obtain ⟨r₁, hr₁, -, hsame | ⟨hrunnable, -⟩⟩ := hsw.task hr'
  · obtain rfl := Option.some.inj (hr.symm.trans hr₁)
    rw [hsame, hstate]
  · obtain rfl := Option.some.inj (hr.symm.trans hr₁)
    exact absurd (hstate ▸ hrunnable) not_runnable_blocked

/-- The healer runs or waits for the next report. -/
def Attentive (m : Machine) : Prop :=
  m.current = healerSlot ∨
    ∃ r, m.sched.tasks healerSlot = some r ∧ r.state = .blocked crashEp .recv

end Machine

namespace Ward

variable {p : Platform} {w w' : Ward} {caps : Caps} {l : Label} {t : Task}

def preempts (w : Ward) (l : Label) : Bool := w.machine.current == healerSlot && l.event.ticks

section Step

variable (h : w.Caged caps) (hcaps : caps.Healing)

include h

theorem Caged.findBlocked (hatt : w.machine.Attentive) (hne : w.machine.current ≠ healerSlot) :
    w.machine.sched.findBlocked crashEp .recv = some healerSlot := by
  obtain ⟨r, hr, hstate⟩ := hatt.resolve_left hne
  cases hfind : w.machine.sched.findBlocked crashEp .recv with
  | none => exact absurd hstate (findBlocked_none hfind hr)
  | some i =>
    obtain ⟨u, hu, hu'⟩ := findBlocked_some hfind
    rw [h.guarded.blocked hu hu']

include hcaps

theorem Caged.attentive_healer (hcur : w.machine.current = healerSlot)
    (hstep : w.step p l = some w') (hcalm : w.preempts l = false) : w'.machine.Attentive := by
  obtain ⟨hdoes, hm, -⟩ := step_fields hstep
  have hdoes := hdoes hcur
  obtain ⟨t, hrun⟩ := h.sound.runs
  obtain ⟨hen, hexec⟩ := Machine.step_eq_some.mp hm
  obtain ⟨m₁, heff, hsw⟩ := Machine.exec_effect hrun hen hexec
  obtain ⟨hquiet, -⟩ | ⟨ht, -⟩ | ⟨hresume, -⟩ :=
    Machine.healer_acts h.guarded hrun hcur hcaps hdoes hen heff
  · refine .inl ((Machine.step_stays hrun hm ?_).trans hcur)
    obtain hcalls | hask := hquiet
    · -- neither a system call nor a tick: a device interrupt
      have hstands := h.guarded.stands (hcur ▸ hrun.task)
      rw [← hcur] at hstands
      obtain ⟨ev, input⟩ := l
      cases ev with
      | trap frame =>
        have htick : decode frame.scause ≠ .supervisorTimer := by
          simpa [preempts, hcur, Event.ticks] using hcalm
        have hcall : decode frame.scause ≠ .userEcall := by simpa [Event.calls] using hcalls
        refine .inl ⟨frame, rfl, ?_⟩
        simp only [HealerPc.does] at hdoes
        split at hdoes <;> simp_all
      | resume => cases hcalls
      | _ =>
        obtain ⟨hk, -⟩ | ⟨hk, -⟩ := hstands <;> simp [Machine.enabled, Machine.parkPoint, hk] at hen
    · exact .inr (.inl hask)
  · exact .inr (Machine.switch_blocked hsw ht rfl)
  · exact .inl ((Machine.step_stays hrun hm (.inr (.inr hresume))).trans hcur)

theorem Caged.attentive_other (hatt : w.machine.Attentive)
    (hne : w.machine.current ≠ healerSlot) (hstep : w.step p l = some w') :
    w'.machine.Attentive := by
  obtain ⟨-, hm, -⟩ := step_fields hstep
  obtain ⟨t, hrun⟩ := h.sound.runs
  obtain ⟨hen, hexec⟩ := Machine.step_eq_some.mp hm
  obtain ⟨m₁, heff, hsw⟩ := Machine.exec_effect hrun hen hexec
  obtain ⟨r, hr, hblocked⟩ := hatt.resolve_left hne
  obtain ⟨r₁, hr₁, -⟩ := Machine.exists_task_of_static
    (Machine.effect_static hrun heff healerSlot).symm hr
  obtain ⟨r', hr', hcase⟩ := Machine.healer_waits h.guarded hrun hne hcaps heff hr₁
  obtain rfl := Option.some.inj (hr.symm.trans hr')
  obtain rfl | ⟨-, rfl, frame, cause, hev, hcause, hnotify, -⟩ := hcase
  · exact .inr (Machine.switch_blocked hsw hr₁ hblocked)
  · exact .inl (Machine.crash_hands_over hrun hm hev hcause hnotify)

end Step

section Runs

open Transition Machine

/-- In every run of `kmain`'s configuration with the healer in its loop, once the healer has
blocked on the crash endpoint and as long as no tick interrupts it outside that wait: a crash
of a restartable component that is not quarantined finds the healer waiting, and the healer runs
next. -/
theorem crash_finds_healer {heal : Heal} {a : Layout} {d : Devices} {m : Machine}
    {ls₁ ls₂ : List Label} {w₁ : Ward} {r : Task} {frame : TrapFrame} {cause : Cause}
    (hboot : boot p heal (kmain a d) = .ok m) (hrun₁ : run (step p) (start m) ls₁ = some w₁)
    (hr : w₁.machine.sched.tasks healerSlot = some r) (hblocked : r.state = .blocked crashEp .recv)
    (hcalm : StepsMeet (step p) (fun w l => w.preempts l = false) w₁ ls₂)
    (hrun₂ : run (step p) w₁ ls₂ = some w)
    (ht : w.machine.sched.tasks w.machine.current = some t) (hrestartable : t.relaunch.isSome = true)
    (hev : l.event = .trap frame) (hcause : killCause frame = some cause)
    (hchronic : (w.machine.heal.onCrash cause).2 = false) (hstep : w.step p l = some w') :
    w.machine.sched.findBlocked crashEp .recv = some healerSlot ∧
      w'.machine.current = healerSlot := by
  obtain ⟨caps, hcaps, hstart⟩ := start_caged hboot
  have hcaged₁ : w₁.Caged caps := invariant_run (fun w l w' h _ hstep => h.step hcaps hstep) hstart
    (stepsMeet_true ls₁) hrun₁
  have hkeep (w : Ward) (l : Label) (w' : Ward) (h : w.Caged caps ∧ w.machine.Attentive)
      (hcalm : w.preempts l = false) (hstep : w.step p l = some w') :
      w'.Caged caps ∧ w'.machine.Attentive := by
    refine ⟨h.1.step hcaps hstep, ?_⟩
    by_cases hcur : w.machine.current = healerSlot
    · exact h.1.attentive_healer hcaps hcur hstep hcalm
    · exact h.1.attentive_other hcaps h.2 hcur hstep
  obtain ⟨hcaged, hatt⟩ := invariant_run hkeep ⟨hcaged₁, .inr ⟨r, hr, hblocked⟩⟩ hcalm hrun₂
  obtain ⟨hdoes, hm, -⟩ := step_fields hstep
  -- the loop of the healer does not fault
  have hne : w.machine.current ≠ healerSlot := by
    intro hcur
    have hnone := HealerPc.does_not_fault (hev ▸ hdoes hcur)
    rw [hnone] at hcause
    cases hcause
  have hfind := hcaged.findBlocked hatt hne
  have hnotify : w.machine.notified t cause = some healerSlot := by
    rw [notified, hrestartable, hchronic]
    exact hfind
  obtain ⟨t', hrun⟩ := hcaged.sound.runs
  obtain rfl := Option.some.inj (ht.symm.trans hrun.task)
  exact ⟨hfind, crash_hands_over hrun hm hev hcause hnotify⟩

def healerWaits : List Label := List.replicate 9 .tickUser ++ [.ecall 5 [0, 0]]

/-- `transient` executes an illegal instruction, is restarted, and the healer waits again. -/
def healerReturns : List Label :=
  [.of (.trap (.fromU 2)), .resume, .ecall 6 [1], .ecall 5 [0, 0]]

theorem crash_finds_healer_again : ∃ m w₁ w w', boot .sample .empty kmainBare = .ok m ∧
    run (step .sample) (start m) healerWaits = some w₁ ∧
    run (step .sample) w₁ healerReturns = some w ∧
    w.step .sample (.of (.trap (.fromU 2))) = some w' ∧
    w.machine.sched.findBlocked crashEp .recv = some healerSlot ∧
    w'.machine.current = healerSlot := by
  have heval : (boot .sample .empty kmainBare).toOption.any (fun m =>
      (run (step .sample) (start m) healerWaits).any fun w₁ =>
        ((w₁.machine.sched.tasks healerSlot).any fun r => r.state == .blocked crashEp .recv) &&
        decide (StepsMeet (step .sample) (fun w l => w.preempts l = false) w₁ healerReturns) &&
        (run (step .sample) w₁ healerReturns).any fun w =>
          ((w.machine.sched.tasks w.machine.current).any fun t => t.relaunch.isSome) &&
          !(w.machine.heal.onCrash .illegalInstruction).2 &&
          (w.step .sample (.of (.trap (.fromU 2)))).isSome) = true := by
    decide +kernel
  simp only [Option.any_eq_true, Bool.and_eq_true, beq_iff_eq, decide_eq_true_eq,
    Bool.not_eq_true', Option.isSome_iff_exists] at heval
  obtain ⟨m, hm, w₁, hrun₁, ⟨⟨r, hr, hblocked⟩, hcalm⟩, w, hrun₂, ⟨⟨t, ht, hre⟩, hchronic⟩, w',
    hstep⟩ := heval
  have hboot := Except.toOption_eq_some_iff.mp hm
  have hev : (Label.of (.trap (.fromU 2))).event = .trap (.fromU 2) := rfl
  have hfinds := crash_finds_healer hboot hrun₁ hr hblocked hcalm hrun₂ ht
    (Option.isSome_iff_exists.mpr hre) hev rfl hchronic hstep
  exact ⟨m, w₁, w, w', hboot, hrun₁, hrun₂, hstep, hfinds⟩

/-- `transient` executes an illegal instruction, and a tick interrupts the healer as it returns
from `recv`. -/
def healerPreempted : List Label := [.of (.trap (.fromU 2)), .resume, .tickUser]

/-- `flaky` then crashes and is left down. -/
theorem crash_misses_healer : ∃ m w₁ w w', boot .sample .empty kmainBare = .ok m ∧
    run (step .sample) (start m) healerWaits = some w₁ ∧
    (w₁.machine.sched.tasks healerSlot).any (·.state == .blocked crashEp .recv) = true ∧
    run (step .sample) w₁ healerPreempted = some w ∧ w.machine.current = flakySlot ∧
    (w.machine.sched.tasks flakySlot).any (·.relaunch.isSome) = true ∧
    (w.machine.heal.onCrash .illegalInstruction).2 = false ∧
    (w.machine.sched.tasks healerSlot).any (·.state == .ready) = true ∧
    w.machine.sched.findBlocked crashEp .recv = none ∧
    w.step .sample (.of (.trap (.fromU 2))) = some w' ∧
    (w'.machine.sched.tasks flakySlot).any (·.state == .exited) = true := by
  have heval : (boot .sample .empty kmainBare).toOption.any (fun m =>
      (run (step .sample) (start m) healerWaits).any fun w₁ =>
        (w₁.machine.sched.tasks healerSlot).any (·.state == .blocked crashEp .recv) &&
        (run (step .sample) w₁ healerPreempted).any fun w =>
          decide (w.machine.current = flakySlot ∧
            (w.machine.sched.tasks flakySlot).any (·.relaunch.isSome) = true ∧
            (w.machine.heal.onCrash .illegalInstruction).2 = false ∧
            (w.machine.sched.tasks healerSlot).any (·.state == .ready) = true ∧
            w.machine.sched.findBlocked crashEp .recv = none) &&
          (w.step .sample (.of (.trap (.fromU 2)))).any fun w' =>
            (w'.machine.sched.tasks flakySlot).any (·.state == .exited)) = true := by
    decide +kernel
  obtain ⟨m, hm, heval⟩ := (Option.any_eq_true _ _).mp heval
  obtain ⟨w₁, hrun₁, heval⟩ := (Option.any_eq_true _ _).mp heval
  obtain ⟨hblocked, heval⟩ := Bool.and_eq_true_iff.mp heval
  obtain ⟨w, hrun, heval⟩ := (Option.any_eq_true _ _).mp heval
  obtain ⟨hw, heval⟩ := Bool.and_eq_true_iff.mp heval
  obtain ⟨w', hstep, hdown⟩ := (Option.any_eq_true _ _).mp heval
  obtain ⟨hcur, hre, hchronic, hready, hnone⟩ := of_decide_eq_true hw
  exact ⟨m, w₁, w, w', Except.toOption_eq_some_iff.mp hm, hrun₁, hblocked, hrun, hcur, hre, hchronic,
    hready, hnone, hstep, hdown⟩

end Runs

end Ward

end Perenne

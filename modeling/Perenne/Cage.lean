import Perenne.Healer
import Perenne.Rotation

namespace Perenne

open Scheduler

/-- What has happened to a task since it was spawned. -/
inductive Life where
  | exited
  | crashed (quarantined : Bool)
  | relaunched
deriving DecidableEq

theorem Switch.stacks {m m' : Machine} (h : Switch m m') :
    m'.konts = m.konts ∧ m'.frames = m.frames := by
  cases h <;> exact ⟨rfl, rfl⟩

namespace Machine

/-- The task a `restart` that returned 0 names. -/
def restarted (m : Machine) (m' : Machine) : Event → Option Slot
  | .trap frame =>
    if decode frame.scause = .userEcall ∧ decodeSyscall (frame.regs 16) = .restart ∧
        (m'.frames m.current).regs 9 = 0 then
      (m.sched.tasks m.current).bind fun t => (t.caps.restartTarget (frame.regs 9)).bind fun n =>
        if h : n < maxTasks then some ⟨n, h⟩ else none
    else none
  | _ => none

/-- How the running task ends: by `exit`, or by a fault that is diagnosed. -/
def ended (m : Machine) : Event → Option Life
  | .trap frame =>
    match killCause frame with
    | some cause => some (.crashed (m.heal.onCrash cause).2)
    | none =>
      if decode frame.scause = .userEcall ∧ decodeSyscall (frame.regs 16) = .exit then some .exited
      else none
  | _ => none

variable {p : Platform} {m m₁ m' : Machine} {t : Task} {l : Label}

theorem restart_step (hrun : m.Runs t) {frame : TrapFrame} (hask : l.event.asks .restart frame)
    (h : m.exec p l = .ok m') :
    (m'.sched = m.sched ∧ m'.konts = m.konts ∧ (m'.frames m.current).regs 9 = usizeMax) ∨
    ∃ (i : Slot) (r : Task) (context : Context),
      t.caps.restartTarget (frame.regs 9) = some i.val ∧ m.sched.tasks i = some r ∧
      canRestart r.restarts maxRestarts = true ∧ context.s 3 = r.restarts + 1 ∧
      m'.sched = m.sched.set i { r with context, restarts := r.restarts + 1, state := .ready } ∧
      m'.konts = Function.update m.konts i .user ∧ (m'.frames m.current).regs 9 = 0 := by
  rw [exec_of_asks hask] at h
  obtain ⟨out, hout, hfin⟩ := Except.bind_eq_ok_iff.mp h
  have hrefused {s : Scheduler} (hs : out = (s, .resume (frame.setStatus false))) :
      m'.sched = s ∧ m'.konts = m.konts ∧ (m'.frames m.current).regs 9 = usizeMax := by
    rw [hs] at hfin
    obtain ⟨sepc, rfl⟩ := finish_resume hfin
    exact ⟨rfl, Function.update_eq_self _ _, by simp [next, save, TrapFrame.setStatus]⟩
  simp only [dispatch, hask.2.2, Scheduler.restart, Except.bind_eq_ok_iff, task_eq_ok] at hout
  obtain ⟨t', ht', hout⟩ := hout
  obtain rfl : t = t' := Option.some.inj (hrun.task.symm.trans ht')
  cases hcap : t.caps.restartTarget (frame.regs 9) with
  | none =>
    simp only [hcap, Except.pure_eq_ok_iff] at hout
    exact .inl (hrefused hout.symm)
  | some n =>
    simp only [hcap, Except.bind_eq_ok_iff, task_eq_ok] at hout
    obtain ⟨i, hslot, r, hr, hout⟩ := hout
    obtain rfl := slotOf_eq_ok hslot
    by_cases hbound : canRestart r.restarts maxRestarts = true
    · simp only [hbound, Bool.not_true, Bool.false_eq_true, if_false] at hout
      cases hre : r.relaunch with
      | none => simp [hre] at hout
      | some relaunch =>
        simp only [hre, Except.bind_eq_ok_iff, modify_eq_ok, Except.pure_eq_ok_iff] at hout
        obtain ⟨_, ⟨r', hr', rfl⟩, rfl⟩ := hout
        obtain rfl := Option.some.inj (hr.symm.trans hr')
        simp only [finishSyscall, Except.bind_eq_ok_iff, Except.pure_eq_ok_iff] at hfin
        obtain ⟨frame', hframe, rfl⟩ := hfin
        obtain ⟨sepc, rfl⟩ := advance_eq_ok hframe
        refine .inr ⟨i, r, _, rfl, hr, hbound, ?_, rfl, ?_, ?_⟩
        · rfl
        · simp only [save, Function.update_eq_self]
        · simp [save, TrapFrame.setStatus]
    · simp only [hbound, Bool.not_false, if_true, Except.pure_eq_ok_iff] at hout
      exact .inl (hrefused hout.symm)

theorem effect_alive {ev : Event} (hrun : m.Runs t) (hev : ∀ frame, ev ≠ .trap frame)
    (heff : Effect m t ev m₁) {t' : Task} (ht' : m₁.sched.tasks m.current = some t') :
    t'.state ≠ .exited := by
  have hlive : t.state ≠ .exited := by
    intro hst
    have := hrun.runnable
    simp [hst, TaskState.runnable] at this
  have hsame (ht' : m.sched.tasks m.current = some t') : t'.state ≠ .exited := by
    obtain rfl := Option.some.inj (hrun.task.symm.trans ht')
    exact hlive
  have hset {s : Scheduler} {u : Task} (hu : u.state ≠ .exited)
      (ht' : (s.set m.current u).tasks m.current = some t') : t'.state ≠ .exited := by
    rw [set_tasks_self] at ht'
    exact Option.some.inj ht' ▸ hu
  have hasks {sys : Syscall} {frame : TrapFrame} (hask : ev.asks sys frame) : False :=
    hev frame hask.1
  cases heff with
  | keep => exact hsame ht'
  | deliver hoffer =>
    cases hoffer with
    | send hask => exact (hasks hask).elim
    | call hask => exact (hasks hask).elim
    | grant hask => exact (hasks hask).elim
    | callMessage => exact hset (by exact hlive) ht'
  | enqueue hoffer =>
    cases hoffer with
    | send hask => exact (hasks hask).elim
    | call hask => exact (hasks hask).elim
    | grant hask => exact (hasks hask).elim
    | callMessage => exact hset (by exact hlive) ht'
  | takeMessage _ hne =>
    exact hsame ((set_tasks_ne _ hne.symm _).symm.trans ht')
  | toRecvPark => exact hsame ht'
  | park hpoint =>
    refine hset ?_ ht'
    obtain ⟨ep, -, rfl, -⟩ | ⟨-, rfl, -⟩ | ⟨ep, -, rfl, -⟩ := parkPoint_eq_some hpoint <;> simp
  | pickUp => exact hset (by exact hlive) ht'
  | callReturn => exact hsame ht'
  | settle => exact hsame ht'
  | finish => exact hsame ht'
  | take hask => exact (hasks hask).elim
  | waitRecv hask => exact (hasks hask).elim
  | waitIrq hask => exact (hasks hask).elim
  | reply hask => exact (hasks hask).elim
  | replyRefused hask => exact (hasks hask).elim
  | revoke hask => exact (hasks hask).elim
  | relaunch hask => exact (hasks hask).elim
  | exit hask => exact (hasks hask).elim
  | wakeIrq => exact absurd rfl (hev _)
  | kill => exact absurd rfl (hev _)
  | crash => exact absurd rfl (hev _)

theorem ended_isSome {frame : TrapFrame} : (m.ended (.trap frame)).isSome = true ↔ ends frame := by
  cases hcause : killCause frame with
  | some cause => simp [ended, ends, hcause]
  | none =>
    by_cases hexit : decode frame.scause = .userEcall ∧ decodeSyscall (frame.regs 16) = .exit
    · simp [ended, ends, hcause, Event.asks, hexit]
    · simp [ended, ends, hcause, Event.asks, hexit]

/-- A restart apart, a step keeps the count of restarts and the saved context of every task;
the running task dies exactly if its life ends here, and no other task dies or revives. -/
theorem effect_life {ev : Event} (hrun : m.Runs t)
    (hno : ∀ frame, ¬ ev.asks .restart frame) (heff : Effect m t ev m₁) {i : Slot} {t₁ : Task}
    (ht₁ : m₁.sched.tasks i = some t₁) :
    ∃ r, m.sched.tasks i = some r ∧ t₁.restarts = r.restarts ∧ t₁.context = r.context ∧
      (i ≠ m.current → (t₁.state = .exited ↔ r.state = .exited)) ∧
      (i = m.current → (t₁.state = .exited ↔ (m.ended ev).isSome = true)) := by
  obtain ⟨r, hr, hch⟩ := effect_change hrun heff ht₁
  refine ⟨r, hr, ?_, ?_, fun hi => ⟨fun hdead => ?_, fun hdead => ?_⟩, fun hi => ?_⟩
  · cases hch with
    | relaunch _ _ hask => exact absurd hask (hno _)
    | _ => rfl
  · cases hch with
    | relaunch _ _ hask => exact absurd hask (hno _)
    | _ => rfl
  · obtain ⟨r', hr', hdead'⟩ := effect_spared hrun heff hi ht₁ hdead
    obtain rfl := Option.some.inj (hr.symm.trans hr')
    exact hdead'
  · refine (effect_exited hrun heff hr ht₁ hdead).resolve_right fun hrestart => ?_
    obtain ⟨_, frame, -, hask, -⟩ := asks_of_requests hrestart
    exact hno frame hask
  · subst hi
    cases ev with
    | trap frame =>
      obtain ⟨t', ht', hends⟩ := effect_ends hrun heff
      obtain rfl := Option.some.inj (ht'.symm.trans ht₁)
      exact hends.trans ended_isSome.symm
    | _ => exact iff_of_false (effect_alive hrun (by simp) heff ht₁) (by simp [ended])

end Machine

/-- The machine, the healer's position, each task's life so far and whether it has still
to run for the first time since its last launch. -/
structure Ward where
  machine : Machine
  pc : HealerPc
  lives : Slot → List Life
  fresh : Slot → Bool

namespace Ward

/-- After boot no task but the one `enter` starts has run. -/
def start (m : Machine) : Ward := ⟨m, .recv, fun _ => [], fun i => i != m.current⟩

/-- The lives after a step: the running task has ended, or a task was relaunched. -/
def note (w : Ward) (ev : Event) (m' : Machine) : Slot → List Life :=
  match w.machine.ended ev with
  | some life => Function.update w.lives w.machine.current
      (w.lives w.machine.current ++ [life])
  | none =>
    match w.machine.restarted m' ev with
    | some i => Function.update w.lives i (w.lives i ++ [.relaunched])
    | none => w.lives

/-- A step of the machine in which the healer does what its loop says. -/
def step (p : Platform) (w : Ward) (l : Label) : Option Ward :=
  if w.machine.current = healerSlot ∧ w.pc.does l.event = false then none
  else (w.machine.step p l).map fun m' =>
    { machine := m'
      pc := if w.machine.current = healerSlot then w.pc.next m' l.event else w.pc
      lives := w.note l.event m'
      fresh := fun i => i != m'.current &&
        (w.fresh i || w.machine.restarted m' l.event == some i) }

end Ward

/-- `n` crashes, each answered by a relaunch. -/
def Life.rounds (n : Nat) : List Life := (List.replicate n [.crashed false, .relaunched]).flatten

theorem Life.rounds_succ (n : Nat) :
    rounds (n + 1) = rounds n ++ [.crashed false, .relaunched] := by
  simp [rounds, List.replicate_succ']

theorem Life.count_rounds (n : Nat) : (rounds n).count .relaunched = n := by
  induction n with
  | zero => rfl
  | succ n ih => simp [rounds_succ, ih]

/-- The life of a task fits its record: relaunched as often as it counts, each time after one
crash that was not quarantined, and at most once ended since. -/
structure Task.Lived (t : Task) (life : List Life) : Prop where
  bound : t.restarts ≤ maxRestarts
  alive (h : t.state ≠ .exited) : life = Life.rounds t.restarts
  dead (h : t.state = .exited) : ∃ last, life = Life.rounds t.restarts ++ [last] ∧
    last ≠ .relaunched

namespace Ward

variable {p : Platform} {w w' : Ward} {caps : Caps} {l : Label} {m₁ m' : Machine} {t : Task}

/-- The badge is that of a patient that crashed, was not quarantined and is still down. -/
def Due (w : Ward) (badge : Nat) : Prop :=
  ∀ i : Slot, (badge = 1 ∧ i = transientSlot) ∨ (badge = 2 ∧ i = flakySlot) →
    ∃ r, w.machine.sched.tasks i = some r ∧ r.state = .exited ∧
      w.lives i = Life.rounds r.restarts ++ [.crashed false]

/-- The invariant: a report on its way through the healer is due, and no task's life strays
from what its record says. -/
structure Caged (caps : Caps) (w : Ward) : Prop where
  sound : w.machine.Sound
  guarded : w.machine.Guarded caps
  badge {i : Slot} {t : Task} (ht : w.machine.sched.tasks i = some t) :
    t.crashBadge = 0 ∨ (i = transientSlot ∧ t.crashBadge = 1) ∨ (i = flakySlot ∧ t.crashBadge = 2)
  lived {i : Slot} {t : Task} (ht : w.machine.sched.tasks i = some t) : t.Lived (w.lives i)
  waits {ep : EndpointId} {slot : Nat} (hk : w.machine.konts healerSlot = .recv ep slot) :
    w.pc = .recv
  woken {t : Task} {ep : EndpointId} {slot : Nat} (ht : w.machine.sched.tasks healerSlot = some t)
    (hk : w.machine.konts healerSlot = .recv ep slot) (hst : t.state.runnable) :
    w.Due t.message.badge
  due {badge : Nat} (hpc : w.pc = .restart badge) : w.Due badge
  fresh {i : Slot} (h : w.fresh i = true) : i ≠ w.machine.current ∧
    ∀ t, w.machine.sched.tasks i = some t → t.isUser = true → t.context.s 3 = t.restarts

theorem step_fields (h : w.step p l = some w') :
    (w.machine.current = healerSlot → w.pc.does l.event = true) ∧
    w.machine.step p l = some w'.machine ∧
    w'.pc = (if w.machine.current = healerSlot then w.pc.next w'.machine l.event else w.pc) ∧
    w'.lives = w.note l.event w'.machine ∧
    ∀ i, w'.fresh i = (i != w'.machine.current &&
      (w.fresh i || w.machine.restarted w'.machine l.event == some i)) := by
  unfold step at h
  split at h
  case isTrue => cases h
  case isFalse hok =>
    obtain ⟨m', hm', rfl⟩ := Option.map_eq_some_iff.mp h
    refine ⟨fun hcur => ?_, hm', rfl, rfl, fun _ => rfl⟩
    by_contra hno
    exact hok ⟨hcur, by simpa using hno⟩

theorem note_other {ev : Event} (hnone : w.machine.restarted m' ev = none) :
    w.note ev m' = (w.machine.ended ev).elim w.lives fun last =>
      Function.update w.lives w.machine.current (w.lives w.machine.current ++ [last]) := by
  unfold note
  cases w.machine.ended ev with
  | none => simp [hnone]
  | some last => rfl

theorem Due.keep {badge : Nat} (h : w.Due badge)
    (hkeep : ∀ i r, w.machine.sched.tasks i = some r → r.state = .exited →
      ∃ r', w'.machine.sched.tasks i = some r' ∧ r'.state = .exited ∧ r'.restarts = r.restarts ∧
        w'.lives i = w.lives i) : w'.Due badge := by
  intro i hi
  obtain ⟨r, hr, hdead, hlife⟩ := h i hi
  obtain ⟨r', hr', hdead', hrestarts, hlives⟩ := hkeep i r hr hdead
  exact ⟨r', hr', hdead', by rw [hlives, hlife, hrestarts]⟩

section Step

variable (h : w.Caged caps) (hcaps : caps.Healing)

include h hcaps

theorem Caged.step_guarded (hstep : w.step p l = some w') :
    w'.machine.Sound ∧ w'.machine.Guarded caps ∧
    ∀ j, (w'.machine.sched.tasks j).map Task.static = (w.machine.sched.tasks j).map Task.static := by
  obtain ⟨hdoes, hm, -⟩ := step_fields hstep
  obtain ⟨t, hrun⟩ := h.sound.runs
  obtain ⟨hen, hexec⟩ := Machine.step_eq_some.mp hm
  obtain ⟨m₁, heff, hsw⟩ := Machine.exec_effect hrun hen hexec
  refine ⟨Machine.step_sound h.sound hm, Machine.switch_guarded (Machine.effect_guarded h.guarded hrun
    hcaps hen (fun hcur => ⟨_, hdoes hcur⟩) h.sound.roles heff) hsw, fun j => ?_⟩
  exact (Machine.switch_static hsw j).trans (Machine.effect_static hrun heff j)

theorem Caged.step_badge (hstep : w.step p l = some w') {i : Slot} {t : Task}
    (ht : w'.machine.sched.tasks i = some t) :
    t.crashBadge = 0 ∨ (i = transientSlot ∧ t.crashBadge = 1) ∨
      (i = flakySlot ∧ t.crashBadge = 2) := by
  obtain ⟨-, -, hstatic⟩ := h.step_guarded hcaps hstep
  obtain ⟨r, hr, hst⟩ := Machine.exists_task_of_static (hstatic i) ht
  have hbadge : t.crashBadge = r.crashBadge := by
    simp only [Task.static, Prod.mk.injEq] at hst
    exact hst.2.2.2.2
  rw [hbadge]
  exact h.badge hr

theorem Caged.restarts (hstep : w.step p l = some w') {frame : TrapFrame}
    (hask : l.event.asks .restart frame) :
    (w'.machine.sched = w.machine.sched ∧ w'.machine.konts = w.machine.konts ∧
      w'.lives = w.lives ∧ w.machine.restarted w'.machine l.event = none ∧
      (w'.machine.frames w.machine.current).regs 9 ≠ 0) ∨
    ∃ (i : Slot) (r : Task) (context : Context) (t : Task),
      w.machine.sched.tasks w.machine.current = some t ∧
      t.caps.restartTarget (frame.regs 9) = some i.val ∧ w.machine.current = healerSlot ∧
      w.machine.sched.tasks i = some r ∧ r.state = .exited ∧
      canRestart r.restarts maxRestarts = true ∧
      w.lives i = Life.rounds r.restarts ++ [.crashed false] ∧ context.s 3 = r.restarts + 1 ∧
      w'.machine.sched = w.machine.sched.set i
        { r with context, restarts := r.restarts + 1, state := .ready } ∧
      w'.machine.konts = Function.update w.machine.konts i .user ∧
      w'.lives = Function.update w.lives i (w.lives i ++ [.relaunched]) ∧
      w.machine.restarted w'.machine l.event = some i := by
  obtain ⟨hdoes, hm, -, hlives, -⟩ := step_fields hstep
  obtain ⟨t, hrun⟩ := h.sound.runs
  obtain ⟨hen, hexec⟩ := Machine.step_eq_some.mp hm
  obtain ⟨hev, hec, hsys⟩ := hask
  have hended : w.machine.ended l.event = none := by
    simp [hev, Machine.ended, Machine.killCause, hec, hsys]
  obtain ⟨hs, hk, ha0⟩ | ⟨i, r, context, hcap, hr, hbound, hgen, hs, hk, ha0⟩ :=
    Machine.restart_step hrun ⟨hev, hec, hsys⟩ hexec
  · have hnot : w.machine.restarted w'.machine l.event = none := by
      simp [hev, Machine.restarted, ha0, usizeMax]
    exact .inl ⟨hs, hk, by simp [hlives, note, hended, hnot], hnot, by simp [ha0, usizeMax]⟩
  · have hcur := h.guarded.restarts hrun hcap
    have hthis : w.machine.restarted w'.machine l.event = some i := by
      simp [hev, Machine.restarted, hec, hsys, ha0, hrun.task, hcap]
    obtain ⟨-, hsys', -⟩ | ⟨hpc, -⟩ := HealerPc.does_asks (hdoes hcur) ⟨hev, hec, hsys⟩
    · cases hsys'
    have htable := (h.guarded.table (hcur ▸ hrun.task)).1
    have hpatient : (frame.regs 9 = 1 ∧ i = transientSlot) ∨ (frame.regs 9 = 2 ∧ i = flakySlot) := by
      rw [htable] at hcap
      exact (hcaps.restartTarget hcap).imp (fun h => ⟨h.1, Fin.ext h.2⟩) fun h => ⟨h.1, Fin.ext h.2⟩
    obtain ⟨r', hr', hdead, hlife⟩ := h.due hpc i hpatient
    obtain rfl := Option.some.inj (hr.symm.trans hr')
    exact .inr ⟨i, r, context, t, hrun.task, hcap, hcur, hr, hdead, hbound, hlife, hgen, hs, hk,
      by simp [hlives, note, hended, hthis], hthis⟩

theorem Caged.step_of_restart (hstep : w.step p l = some w') {frame : TrapFrame}
    (hask : l.event.asks .restart frame) : w'.Caged caps := by
  obtain ⟨hsound, hguarded, -⟩ := h.step_guarded hcaps hstep
  obtain ⟨hdoes, hm, hpc', -, hfresh⟩ := step_fields hstep
  obtain ⟨hen, -⟩ := Machine.step_eq_some.mp hm
  have huser := Machine.kont_user_of_asks hen hask
  have hcalls : l.event.calls = true := by simp [hask.1, Event.calls, hask.2.1]
  -- The healer's loop goes back to `recv`; another task leaves it where it is.
  have hpc : (w.machine.current = healerSlot ∧ w'.pc = .recv) ∨
      (w.machine.current ≠ healerSlot ∧ w'.pc = w.pc) := by
    by_cases hcur : w.machine.current = healerSlot
    · obtain ⟨-, hsys, -⟩ | ⟨hat, -⟩ := HealerPc.does_asks (hdoes hcur) hask
      · cases hsys
      · exact .inl ⟨hcur, by simp [hpc', hcur, HealerPc.next, hcalls, hat]⟩
    · exact .inr ⟨hcur, by rw [hpc', if_neg hcur]⟩
  obtain ⟨hs, hk, hlives, hnone, -⟩ |
    ⟨i, r, context, t, ht, hcap, hcur, hr, hdead, hbound, hlife, hgen, hs, hk, hlives, hsome⟩ :=
      h.restarts hcaps hstep hask
  · -- Refused: nothing has changed but the registers.
    have hdue {badge : Nat} (hd : w.Due badge) : w'.Due badge :=
      hd.keep fun j r hr hdead => ⟨r, by rw [hs]; exact hr, hdead, rfl, by rw [hlives]⟩
    have hcurrent : w'.machine.current = w.machine.current := by
      rw [Machine.current, hs]
      rfl
    refine ⟨hsound, hguarded, fun ht => h.step_badge hcaps hstep ht, fun ht => ?_, fun hk' => ?_,
      fun ht hk' hst => ?_, fun hat => ?_, fun hf => ?_⟩
    · rw [hlives]
      exact h.lived (hs ▸ ht)
    · obtain ⟨-, hpc⟩ | ⟨-, hpc⟩ := hpc
      · exact hpc
      · rw [hpc]
        exact h.waits (hk ▸ hk')
    · exact hdue (h.woken (hs ▸ ht) (hk ▸ hk') hst)
    · obtain ⟨-, hpc⟩ | ⟨-, hpc⟩ := hpc
      · cases hpc.symm.trans hat
      · exact hdue (h.due (hpc ▸ hat))
    · simp only [hfresh, hnone, Bool.and_eq_true, bne_iff_ne, Bool.or_eq_true] at hf
      obtain ⟨hne, hf | hf⟩ := hf
      · exact ⟨hne, fun t ht => (h.fresh hf).2 t (hs ▸ ht)⟩
      · cases hf
  · -- Relaunched: the patient's crash is answered.
    have hne : i ≠ healerSlot := by
      rintro rfl
      obtain ⟨-, hst⟩ | ⟨-, hst | hst⟩ := h.guarded.stands hr
      · simp [hdead, TaskState.runnable] at hst
      · simp [hdead] at hst
      · simp [hdead, TaskState.runnable] at hst
    have hpc : w'.pc = .recv := (hpc.resolve_right fun h => h.1 hcur).2
    have hkont : w'.machine.konts healerSlot = .user := by
      rw [hk, Function.update_of_ne hne.symm, ← hcur, huser]
    refine ⟨hsound, hguarded, fun ht => h.step_badge hcaps hstep ht, fun {j t'} ht' => ?_, fun _ => hpc,
      fun _ hk' => ?_, fun hat => ?_, fun {j} hf => ?_⟩
    · rw [hs] at ht'
      obtain ⟨rfl, rfl⟩ | ⟨hji, hold⟩ := set_tasks_some ht'
      · rw [hlives, Function.update_self, hlife]
        have hlt : r.restarts < maxRestarts := by simpa [canRestart] using hbound
        exact ⟨hlt, fun _ => by simp [Life.rounds_succ], (by simp)⟩
      · rw [hlives, Function.update_of_ne hji]
        exact h.lived hold
    · cases hkont.symm.trans hk'
    · cases hpc.symm.trans hat
    · simp only [hfresh, hsome, Bool.and_eq_true, bne_iff_ne, Bool.or_eq_true, beq_iff_eq,
        Option.some.injEq] at hf
      refine ⟨hf.1, fun t' ht' huser => ?_⟩
      rw [hs] at ht'
      obtain ⟨rfl, rfl⟩ | ⟨hji, hold⟩ := set_tasks_some ht'
      · exact hgen
      · exact (h.fresh (hf.2.resolve_right fun heq => hji heq.symm)).2 t' hold huser

theorem Caged.step_of_other (hstep : w.step p l = some w')
    (hno : ∀ frame, ¬ l.event.asks .restart frame) : w'.Caged caps := by
  obtain ⟨hsound, hguarded, -⟩ := h.step_guarded hcaps hstep
  obtain ⟨hdoes, hm, hpc, hlives, hfresh⟩ := step_fields hstep
  obtain ⟨t, hrun⟩ := h.sound.runs
  obtain ⟨hen, hexec⟩ := Machine.step_eq_some.mp hm
  obtain ⟨m₁, heff, hsw⟩ := Machine.exec_effect hrun hen hexec
  have hnone : w.machine.restarted w'.machine l.event = none := by
    unfold Machine.restarted
    split
    case h_1 frame hev =>
      exact if_neg fun hyes => hno frame ⟨hev, hyes.1, hyes.2.1⟩
    case h_2 => rfl
  obtain ⟨hkonts, hframes⟩ := hsw.stacks
  rw [note_other hnone] at hlives
  -- The record of a task after the step, against the one before it.
  have hrecord {i : Slot} {t' : Task} (ht' : w'.machine.sched.tasks i = some t') :
      ∃ r, w.machine.sched.tasks i = some r ∧ t'.restarts = r.restarts ∧
        (i ≠ w.machine.current → t'.context = r.context) ∧
        (i ≠ w.machine.current → (t'.state = .exited ↔ r.state = .exited)) ∧
        (i = w.machine.current → (t'.state = .exited ↔ (w.machine.ended l.event).isSome = true)) := by
    obtain ⟨t₁, ht₁, heq, hstate⟩ := hsw.task ht'
    obtain ⟨r, hr, hrestarts, hcontext, hother, hself⟩ := Machine.effect_life hrun hno heff ht₁
    have hdead : t'.state = .exited ↔ t₁.state = .exited := by
      obtain hst | ⟨h₁, h₂⟩ := hstate
      · rw [hst]
      · exact iff_of_false (fun hd => by simp [hd, TaskState.runnable] at h₂)
          fun hd => by simp [hd, TaskState.runnable] at h₁
    refine ⟨r, hr, ?_, fun hi => ?_, fun hi => hdead.trans (hother hi), fun hi => hdead.trans (hself hi)⟩
    · rw [heq]
      exact hrestarts
    · exact (hsw.context ht₁ ht' (heff.current ▸ hi)).trans hcontext
  have halive : t.state ≠ .exited := by
    intro hst
    have := hrun.runnable
    simp [hst, TaskState.runnable] at this
  have hlife {i : Slot} (hi : i ≠ w.machine.current) : w'.lives i = w.lives i := by
    rw [hlives]
    cases w.machine.ended l.event with
    | none => rfl
    | some last => exact Function.update_of_ne hi _ _
  have hkeep (i : Slot) (r : Task) (hr : w.machine.sched.tasks i = some r) (hdead : r.state = .exited) :
      ∃ r', w'.machine.sched.tasks i = some r' ∧ r'.state = .exited ∧ r'.restarts = r.restarts ∧
        w'.lives i = w.lives i := by
    have hi : i ≠ w.machine.current :=
      hrun.ne_of_blocked hr (by simp [hdead, TaskState.runnable])
    obtain ⟨-, -, hstatic⟩ := h.step_guarded hcaps hstep
    obtain ⟨r', hr', -⟩ := Machine.exists_task_of_static (hstatic i).symm hr
    obtain ⟨r₀, hr₀, hrestarts, -, hother, -⟩ := hrecord hr'
    obtain rfl := Option.some.inj (hr.symm.trans hr₀)
    exact ⟨r', hr', (hother hi).mpr hdead, hrestarts, hlife hi⟩
  have hdue {badge : Nat} (hd : w.Due badge) : w'.Due badge := hd.keep hkeep
  -- The healer's own step, if it is one: where it leaves the healer and its loop.
  have hacts (hcur : w.machine.current = healerSlot) :
      (m₁.sched.tasks healerSlot = some t ∧
        w'.machine.konts healerSlot = w.machine.konts healerSlot ∧ w'.pc = w.pc) ∨
      (m₁.sched.tasks healerSlot = some { t with state := .blocked crashEp .recv } ∧
        w'.machine.konts healerSlot = .recv crashEp 0 ∧ w'.pc = .recv) ∨
      (w.machine.konts healerSlot = .recv crashEp 0 ∧ w'.machine.konts healerSlot = .user ∧
        w'.pc = .restart t.message.badge) := by
    rw [if_pos hcur] at hpc
    obtain ⟨hcalls | ⟨frame, hask⟩, hself, hk⟩ | ⟨hself, hk, hat⟩ | ⟨hev, hk, -, hk', hbadge⟩ :=
      Machine.healer_acts h.guarded hrun hcur hcaps (hdoes hcur) hen heff
    · exact .inl ⟨hself, hkonts ▸ hk, by simp [hpc, HealerPc.next, hcalls]⟩
    · exact absurd hask (hno frame)
    · refine .inr (.inl ⟨hself, hkonts ▸ hk, ?_⟩)
      rw [hpc, hat, HealerPc.next, hkonts, hk]
      simp
    · refine .inr (.inr ⟨hk, hkonts ▸ hk', ?_⟩)
      rw [hpc, h.waits hk, HealerPc.next, hkonts, hk', hframes, hbadge, hev]
      rfl
  refine ⟨hsound, hguarded, fun ht => h.step_badge hcaps hstep ht, fun {i t'} ht' => ?_,
    fun {ep slot} hk => ?_, fun {t' ep slot} ht' hk hst => ?_, fun {badge} hat => ?_, fun {i} hf => ?_⟩
  · obtain ⟨r, hr, hrestarts, -, hother, hself⟩ := hrecord ht'
    have hold := h.lived hr
    by_cases hi : i = w.machine.current
    · -- The running task was alive; if it ends here, its life gains its end.
      subst hi
      obtain rfl := Option.some.inj (hr.symm.trans hrun.task)
      have hwas := hold.alive halive
      refine ⟨hrestarts ▸ hold.bound, fun hlive => ?_, fun hdead => ?_⟩
      · have hnot : w.machine.ended l.event = none := by
          simpa using fun hsome => hlive ((hself rfl).mpr hsome)
        rw [hlives, hnot, hrestarts]
        exact hwas
      · obtain ⟨last, hlast⟩ := Option.isSome_iff_exists.mp ((hself rfl).mp hdead)
        refine ⟨last, ?_, ?_⟩
        · rw [hlives, hlast, hrestarts]
          simp [hwas]
        · rintro rfl
          unfold Machine.ended at hlast
          split at hlast
          · split at hlast
            · cases hlast
            · split at hlast <;> cases hlast
          · cases hlast
    · rw [hlife hi]
      refine ⟨hrestarts ▸ hold.bound, fun hlive => ?_, fun hdead => ?_⟩
      · rw [hrestarts]
        exact hold.alive fun hdead => hlive ((hother hi).mpr hdead)
      · rw [hrestarts]
        exact hold.dead ((hother hi).mp hdead)
  · by_cases hcur : w.machine.current = healerSlot
    · obtain ⟨-, hk', hpc⟩ | ⟨-, -, hpc⟩ | ⟨-, hk', -⟩ := hacts hcur
      · exact hpc.trans (h.waits (hk'.symm.trans hk))
      · exact hpc
      · cases hk'.symm.trans hk
    · rw [hpc, if_neg hcur]
      rw [hkonts, Machine.healer_kont h.guarded hrun hcur heff] at hk
      exact h.waits hk
  · obtain ⟨t₁, ht₁, heq, hstate⟩ := hsw.task ht'
    have hmessage : t'.message = t₁.message := by rw [heq]
    have hst₁ : t₁.state.runnable := by
      obtain hst' | ⟨hst', -⟩ := hstate
      · exact hst' ▸ hst
      · exact hst'
    rw [hmessage]
    by_cases hcur : w.machine.current = healerSlot
    · have htask := hcur ▸ hrun.task
      obtain ⟨hself, hk', -⟩ | ⟨hself, -⟩ | ⟨-, hk', -⟩ := hacts hcur
      · obtain rfl := Option.some.inj (hself.symm.trans ht₁)
        exact hdue (h.woken htask (hk'.symm.trans hk) hrun.runnable)
      · obtain rfl := Option.some.inj (hself.symm.trans ht₁)
        exact absurd hst₁ Machine.not_runnable_blocked
      · cases hk'.symm.trans hk
    · rw [hkonts, Machine.healer_kont h.guarded hrun hcur heff] at hk
      obtain ⟨r, hr, rfl | ⟨-, rfl, frame, cause, hev, hcause, hsent⟩⟩ :=
        Machine.healer_waits h.guarded hrun hcur hcaps heff ht₁
      · exact hdue (h.woken hr hk hst₁)
      · -- The report of the crash that this step is.
        intro i hi
        have hended : w.machine.ended l.event = some (.crashed false) := by
          simp [hev, Machine.ended, hcause, hsent]
        have hpatient : i = w.machine.current := by
          have hbadge : (t.crashBadge = 1 ∧ i = transientSlot) ∨ (t.crashBadge = 2 ∧ i = flakySlot) :=
            hi
          obtain ⟨hb, rfl⟩ | ⟨hb, rfl⟩ := hbadge <;>
            obtain hb' | ⟨hc, hb'⟩ | ⟨hc, hb'⟩ := h.badge hrun.task
          · omega
          · exact hc.symm
          · omega
          · omega
          · omega
          · exact hc.symm
        subst hpatient
        obtain ⟨-, -, hstatic⟩ := h.step_guarded hcaps hstep
        obtain ⟨t', ht', -⟩ := Machine.exists_task_of_static (hstatic w.machine.current).symm hrun.task
        obtain ⟨r₀, hr₀, hrestarts, -, -, hself⟩ := hrecord ht'
        obtain rfl := Option.some.inj (hr₀.symm.trans hrun.task)
        refine ⟨t', ht', (hself rfl).mpr (by rw [hended]; rfl), ?_⟩
        rw [hlives, hended, hrestarts, ← (h.lived hrun.task).alive halive]
        simp
  · by_cases hcur : w.machine.current = healerSlot
    · have htask := hcur ▸ hrun.task
      obtain ⟨-, -, hpc⟩ | ⟨-, -, hpc⟩ | ⟨hk, -, hpc⟩ := hacts hcur
      · exact hdue (h.due (hpc ▸ hat))
      · cases hpc.symm.trans hat
      · obtain rfl := HealerPc.restart.inj (hpc.symm.trans hat)
        exact hdue (h.woken htask hk hrun.runnable)
    · rw [hpc, if_neg hcur] at hat
      exact hdue (h.due hat)
  · simp only [hfresh, hnone, Bool.and_eq_true, bne_iff_ne, Bool.or_eq_true] at hf
    obtain ⟨hne, hf | hf⟩ := hf
    · refine ⟨hne, fun t' ht' huser => ?_⟩
      obtain ⟨hi, hgen⟩ := h.fresh hf
      obtain ⟨r, hr, hrestarts, hcontext, -, -⟩ := hrecord ht'
      rw [hcontext hi, hrestarts]
      obtain ⟨-, -, hstatic⟩ := h.step_guarded hcaps hstep
      obtain ⟨r₀, hr₀, hst⟩ := Machine.exists_task_of_static (hstatic i) ht'
      obtain rfl := Option.some.inj (hr.symm.trans hr₀)
      exact hgen r hr (Machine.isUser_of_static hst ▸ huser)
    · cases hf

theorem Caged.step (hstep : w.step p l = some w') : w'.Caged caps := by
  by_cases hask : ∃ frame, l.event.asks .restart frame
  · obtain ⟨frame, hask⟩ := hask
    exact h.step_of_restart hcaps hstep hask
  · exact h.step_of_other hcaps hstep fun frame hf => hask ⟨frame, hf⟩

end Step

theorem start_caged {heal : Heal} {a : Layout} {d : Devices} {m : Machine}
    (hboot : boot p heal (kmain a d) = .ok m) : ∃ caps : Caps, caps.Healing ∧ (start m).Caged caps := by
  obtain ⟨caps, hcaps, hguarded⟩ := kmain_guarded hboot
  have hfresh := boot_fresh hboot
  refine ⟨caps, hcaps, hfresh.sound, hguarded, fun {i t} ht => ?_, fun {i t} ht => ?_, fun _ => rfl,
    fun {t ep slot} ht hk => ?_, nofun, fun {i} hf => ⟨?_, fun t ht huser => ?_⟩⟩
  · obtain hb | hb := boot_badge hboot ht
    · exact .inl hb
    · rw [kmain_badges] at hb
      simp only [List.mem_cons, Prod.mk.injEq, List.not_mem_nil, or_false] at hb
      exact .inr (hb.imp (fun hb => ⟨Fin.ext hb.1, hb.2⟩) fun hb => ⟨Fin.ext hb.1, hb.2⟩)
  · have hrestarts := (hfresh.task ht).restarts
    refine ⟨by simp [hrestarts], fun _ => by simp [hrestarts, start, Life.rounds], fun hdead => ?_⟩
    have := (hfresh.task ht).state
    simp [hdead, TaskState.runnable] at this
  · change m.konts healerSlot = .recv ep slot at hk
    rw [hfresh.kont healerSlot] at hk
    split at hk <;> cases hk
  · simpa [start] using hf
  · rw [boot_generation hboot ht huser, (hfresh.task ht).restarts]

/-- The fix stays in its cage: every task's life so far is a number of rounds of one crash
and its relaunch, at most `MAX_RESTARTS`, and at most one end since; a task that has still
to run is launched with the number of its relaunches; and a `restart` that returns 0 is of
a task that is down after a fault that was not quarantined. -/
structure InCage (p : Platform) (w : Ward) : Prop where
  lives {i : Slot} {t : Task} (ht : w.machine.sched.tasks i = some t) :
    ∃ n rest, n ≤ maxRestarts ∧ w.lives i = Life.rounds n ++ rest ∧
      rest.length ≤ 1 ∧ .relaunched ∉ rest
  generation {i : Slot} {t : Task} (hfresh : w.fresh i = true)
    (ht : w.machine.sched.tasks i = some t) (huser : t.isUser = true) :
    t.context.s 3 = (w.lives i).count .relaunched
  restart {l : Label} {w' : Ward} {frame : TrapFrame} (hstep : w.step p l = some w')
    (hask : l.event.asks .restart frame)
    (hzero : (w'.machine.frames w.machine.current).regs 9 = 0) :
    ∃ (i : Slot) (t r : Task), w.machine.sched.tasks w.machine.current = some t ∧
      t.caps.restartTarget (frame.regs 9) = some i.val ∧ w.machine.sched.tasks i = some r ∧
      r.state = .exited ∧ (w.lives i).getLast? = some (.crashed false) ∧
      w'.lives i = w.lives i ++ [.relaunched] ∧ w'.fresh i = true

theorem Caged.inCage (h : w.Caged caps) (hcaps : caps.Healing) : w.InCage p := by
  refine ⟨fun {i t} ht => ?_, fun {i t} hfresh ht huser => ?_, fun {l w' frame} hstep hask hzero => ?_⟩
  · have hlived := h.lived ht
    by_cases hst : t.state = .exited
    · obtain ⟨last, hlife, hlast⟩ := hlived.dead hst
      exact ⟨t.restarts, [last], hlived.bound, hlife, le_rfl, by simpa using hlast.symm⟩
    · exact ⟨t.restarts, [], hlived.bound, by simpa using hlived.alive hst, by simp, by simp⟩
  · rw [(h.fresh hfresh).2 t ht huser]
    have hlived := h.lived ht
    by_cases hst : t.state = .exited
    · obtain ⟨last, hlife, hlast⟩ := hlived.dead hst
      rw [hlife, List.count_append, Life.count_rounds, List.count_singleton]
      simp [hlast]
    · rw [hlived.alive hst, Life.count_rounds]
  · obtain ⟨-, -, -, -, hno⟩ |
      ⟨i, r, context, t, ht, hcap, hcur, hr, hdead, -, hlife, -, hs, -, hlives, hsome⟩ :=
        h.restarts hcaps hstep hask
    · exact absurd hzero hno
    · refine ⟨i, t, r, ht, hcap, hr, hdead, by simp [hlife], by simp [hlives], ?_⟩
      obtain ⟨-, -, -, -, hfresh⟩ := step_fields hstep
      have hne : i ≠ w'.machine.current := by
        obtain ⟨t₀, hrun⟩ := h.sound.runs
        have hne := hrun.ne_of_blocked hr (by simp [hdead, TaskState.runnable])
        rw [Machine.current, hs]
        exact hne
      simp [hfresh, hsome, hne]

/-- Boot `kmain`, let the healer run its loop and every other task do what it likes, with any
knowledge base at any time: the fix stays in its cage in every state reached. -/
theorem caged_fix {heal : Heal} {a : Layout} {d : Devices} {m : Machine} {ls : List Label}
    (hboot : boot p heal (kmain a d) = .ok m)
    (hrun : Transition.run (step p) (start m) ls = some w) : w.InCage p := by
  obtain ⟨caps, hcaps, hstart⟩ := start_caged hboot
  suffices hcaged : w.Caged caps from hcaged.inCage hcaps
  exact Transition.invariant_run (fun w l w' h _ hstep => h.step hcaps hstep) hstart
    (Transition.stepsMeet_true ls) hrun

/-- The healer waits, `transient` executes an illegal instruction, the healer is told and
restarts it. -/
def healRun : List Label :=
  List.replicate 9 .tickUser ++
    [.ecall 5 [0, 0], .of (.trap (.fromU 2)), .resume, .ecall 6 [1]]

theorem caged_fix_transient : ∃ m w, boot .sample .empty kmainBare = .ok m ∧
    Transition.run (step .sample) (start m) healRun = some w ∧
    w.lives transientSlot = [.crashed false, .relaunched] ∧ w.InCage .sample := by
  have heval : (boot .sample .empty kmainBare).toOption.any (fun m =>
      (Transition.run (step .sample) (start m) healRun).any fun w =>
        w.lives transientSlot == [.crashed false, .relaunched]) = true := by
    decide +kernel
  simp only [Option.any_eq_true, beq_iff_eq] at heval
  obtain ⟨m, hboot, w, hrun, hlives⟩ := heval
  have hboot := Except.toOption_eq_some_iff.mp hboot
  exact ⟨m, w, hboot, hrun, hlives, caged_fix hboot hrun⟩

end Ward

end Perenne

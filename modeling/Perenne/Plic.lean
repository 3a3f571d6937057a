import Perenne.Provenance
import Perenne.Trace

namespace Perenne

/-- A level-sensitive source of the PLIC that stays enabled. -/
structure Source where
  line : Bool
  pending : Bool
  inService : Bool
deriving DecidableEq

namespace Source

def assert (s : Source) : Source :=
  { s with line := true, pending := s.pending || !s.inService }

/-- The driver acknowledges the device. -/
def ack (s : Source) : Source := { s with line := false }

def claim (s : Source) : Source := { s with pending := false, inService := true }

/-- The hart completes the source, and the line is sampled again. -/
def complete (s : Source) : Source :=
  { s with pending := s.pending || s.line, inService := false }

end Source

structure IrqBoard where
  machine : Machine
  plic : Nat → Source

/-- A device asserts its line, a driver acknowledges it, or the hart takes a step. -/
inductive IrqEvent where
  | assert (irq : Nat)
  | ack (irq : Nat)
  | hart (l : Label)

namespace Machine

/-- The source an accepted `wait_irq` completes. -/
def completes (m : Machine) : Event → Option Nat
  | .trap frame =>
    if decode frame.scause = .userEcall ∧ decodeSyscall (frame.regs 16) = .waitIrq then
      (m.sched.tasks m.current).bind fun t => t.caps.interruptIrq (frame.regs 9)
    else none
  | _ => none

/-- The source an external interrupt claims; `claim` returns 0 when there is none. -/
def claims (l : Label) : Option Nat :=
  match l.event with
  | .trap frame =>
    if decode frame.scause = .supervisorExternal ∧ l.input.irq ≠ 0 then some l.input.irq else none
  | _ => none

section Waiting

variable {p : Platform} {m m₁ m' : Machine} {t t' : Task} {ev : Event} {i : Slot} {irq : Nat}

open Scheduler

theorem effect_waiting (hrun : m.Runs t) (heff : Effect m t ev m₁)
    (ht' : m₁.sched.tasks i = some t') (hstate : t'.state = .waitingIrq irq) :
    (∃ r, m.sched.tasks i = some r ∧ r.state = .waitingIrq irq) ∨
      i = m.current ∧ ∃ frame, ev.asks .waitIrq frame ∧
        t.caps.interruptIrq (frame.regs 9) = some irq := by
  -- a task that was written is not waiting
  have hone {j : Slot} {s : Scheduler} {r' : Task} (ht' : (s.set j r').tasks i = some t')
      (hno : r'.state ≠ .waitingIrq irq) : s.tasks i = some t' := by
    obtain ⟨-, rfl⟩ | ⟨-, hold⟩ := set_tasks_some ht'
    · exact absurd hstate hno
    · exact hold
  have hrunning : t.state ≠ .waitingIrq irq := by
    intro h
    have := hrun.runnable
    simp [h, TaskState.runnable] at this
  cases heff with
  | waitIrq hask hcap =>
    obtain ⟨rfl, rfl⟩ | ⟨-, hold⟩ := set_tasks_some ht'
    · cases hstate
      exact .inr ⟨rfl, _, hask, hcap⟩
    · exact .inl ⟨t', hold, hstate⟩
  | keep => exact .inl ⟨t', ht', hstate⟩
  | deliver hoffer =>
    refine .inl ⟨t', hone (hone ht' ?_) (fun h => by cases h), hstate⟩
    cases hoffer with
    | call => exact fun h => by cases h
    | _ => exact hrunning
  | enqueue hoffer =>
    refine .inl ⟨t', hone ht' ?_, hstate⟩
    cases hoffer with
    | callMessage => exact hrunning
    | _ => exact fun h => by cases h
  | @take _ _ _ _ _ _ isCall =>
    refine .inl ⟨t', hone (hone ht' hrunning) ?_, hstate⟩
    cases isCall <;> exact fun h => by cases h
  | takeMessage => exact .inl ⟨t', hone ht' (fun h => by cases h), hstate⟩
  | waitRecv => exact .inl ⟨t', hone ht' (fun h => by cases h), hstate⟩
  | toRecvPark => exact .inl ⟨t', ht', hstate⟩
  | park hpoint =>
    refine .inl ⟨t', hone ht' ?_, hstate⟩
    obtain ⟨ep, -, rfl, -⟩ | ⟨-, rfl, -⟩ | ⟨ep, -, rfl, -⟩ := parkPoint_eq_some hpoint
    all_goals exact fun h => by cases h
  | pickUp => exact .inl ⟨t', hone ht' hrunning, hstate⟩
  | callReturn => exact .inl ⟨t', ht', hstate⟩
  | settle => exact .inl ⟨t', ht', hstate⟩
  | finish => exact .inl ⟨t', ht', hstate⟩
  | reply => exact .inl ⟨t', hone (hone ht' hrunning) (fun h => by cases h), hstate⟩
  | replyRefused => exact .inl ⟨t', hone ht' hrunning, hstate⟩
  | @revoke _ _ ep =>
    change (m.sched.revokeEndpoint ep m.current).1.tasks i = some t' at ht'
    rw [revokeEndpoint_tasks] at ht'
    split at ht'
    case isTrue => exact .inl ⟨t', ht', hstate⟩
    case isFalse =>
      obtain ⟨r, hr, rfl⟩ := Option.map_eq_some_iff.mp ht'
      exact .inl ⟨r, hr, hstate⟩
  | relaunch => exact .inl ⟨t', hone ht' (fun h => by cases h), hstate⟩
  | wakeIrq => exact .inl ⟨t', hone ht' (fun h => by cases h), hstate⟩
  | exit => exact .inl ⟨t', hone ht' (fun h => by cases h), hstate⟩
  | kill => exact .inl ⟨t', hone ht' (fun h => by cases h), hstate⟩
  | crash => exact .inl ⟨t', hone (hone ht' (fun h => by cases h)) (fun h => by cases h), hstate⟩

/-- The capability for `irq` is in no table but that of `d` and not in transit, and nobody else
waits for it. -/
structure Sole (m : Machine) (d : Slot) (irq : Nat) : Prop where
  caps {i : Slot} {r : Task} {k : Nat} (hr : m.sched.tasks i = some r)
    (hcap : r.caps.capAt k = some (.interrupt irq)) : i = d
  grant {i : Slot} {r : Task} (hr : m.sched.tasks i = some r) :
    r.pendingGrant ≠ some (.interrupt irq)
  waits {i : Slot} {r : Task} (hr : m.sched.tasks i = some r) (hstate : r.state = .waitingIrq irq) :
    i = d

variable {d : Slot}

theorem effect_sole (h : m.Sole d irq) (hrun : m.Runs t) (heff : Effect m t ev m₁)
    (hkeep : ∀ ep, ¬ ev.grants t ep (.interrupt irq)) : m₁.Sole d irq where
  caps := by
    intro i t' k ht' hcap
    obtain ⟨r, hr, hch⟩ := effect_change hrun heff ht'
    cases hch.capSource hr hrun hcap with
    | kept hr hold => exact h.caps hr hold
    | carried hi hgrant => exact absurd hgrant (h.grant hrun.task)
    | granted hi hep hu hstate hgrant => exact absurd hgrant (h.grant hu)
  grant := by
    intro i t' ht' hgrant
    obtain ⟨r, hr, hch⟩ := effect_change hrun heff ht'
    cases hch.grantSource hr hgrant with
    | kept hr hold => exact h.grant hr hold
    | queued hi hask hcap hsrc => exact hkeep _ ⟨_, hask, hcap, hsrc⟩
    | sent hask hcap hsrc => exact hkeep _ ⟨_, hask, hcap, hsrc⟩
  waits := by
    intro i t' ht' hstate
    obtain ⟨r, hr, hold⟩ | ⟨rfl, frame, hask, hcap⟩ := effect_waiting hrun heff ht' hstate
    · exact h.waits hr hold
    · exact h.caps hrun.task (Caps.interruptIrq_eq_some.mp hcap)

theorem switch_sole (h : m.Sole d irq) (hsw : Switch m m') : m'.Sole d irq where
  caps := by
    intro i t' k ht' hcap
    obtain ⟨r, hr, heq, -⟩ := hsw.task ht'
    rw [heq] at hcap
    exact h.caps hr hcap
  grant := by
    intro i t' ht' hgrant
    obtain ⟨r, hr, heq, -⟩ := hsw.task ht'
    rw [heq] at hgrant
    exact h.grant hr hgrant
  waits := by
    intro i t' ht' hstate
    obtain ⟨r, hr, -, hsame | ⟨-, hrunnable⟩⟩ := hsw.task ht'
    · exact h.waits hr (hsame ▸ hstate)
    · simp [hstate, TaskState.runnable] at hrunnable

theorem step_waiting (hsound : m.Sound) {l : Label} (hstep : m.step p l = some m')
    (ht' : m'.sched.tasks i = some t') (hstate : t'.state = .waitingIrq irq) :
    (∃ r, m.sched.tasks i = some r ∧ r.state = .waitingIrq irq) ∨
      m.completes l.event = some irq := by
  obtain ⟨t, hrun⟩ := hsound.runs
  obtain ⟨hen, hexec⟩ := step_eq_some.mp hstep
  obtain ⟨m₁, heff, hsw⟩ := exec_effect hrun hen hexec
  obtain ⟨t₁, ht₁, -, hsame | ⟨-, hrunnable⟩⟩ := hsw.task ht'
  · obtain hold | ⟨rfl, frame, hask, hcap⟩ := effect_waiting hrun heff ht₁ (hsame ▸ hstate)
    · exact .inl hold
    · right
      rw [hask.1, completes, if_pos hask.2, hrun.task]
      exact hcap
  · simp [hstate, TaskState.runnable] at hrunnable

theorem claims_eq_some {l : Label} (h : claims l = some irq) :
    ∃ frame, l.event = .trap frame ∧ decode frame.scause = .supervisorExternal ∧
      l.input.irq = irq ∧ irq ≠ 0 := by
  unfold claims at h
  split at h
  case h_1 frame hev =>
    split at h
    case isTrue hcond =>
      obtain rfl := Option.some.inj h
      exact ⟨frame, hev, hcond.1, rfl, hcond.2⟩
    case isFalse => cases h
  case h_2 => cases h

theorem wakeIrq_sole (h : m.Sole d irq) : ∃ s', m.sched.wakeIrq irq = .ok s' ∧
    (∀ t', s'.tasks d = some t' → t'.state ≠ .waitingIrq irq) ∧
    ∀ r, m.sched.tasks d = some r → r.state = .waitingIrq irq →
      s'.tasks d = some { r with state := .ready } := by
  unfold Scheduler.wakeIrq
  split
  case h_1 pos hpos =>
    have hwaiting := List.find?_some hpos
    cases hr : m.sched.tasks pos with
    | none => simp [hr] at hwaiting
    | some r =>
      have hstate : r.state = .waitingIrq irq := by simpa [hr] using hwaiting
      obtain rfl := h.waits hr hstate
      refine ⟨_, modify_eq_ok.mpr ⟨r, hr, rfl⟩, fun t' ht' => ?_, fun r' hr' _ => ?_⟩
      · obtain rfl := Option.some.inj ((set_tasks_self ..).symm.trans ht')
        exact nofun
      · obtain rfl := Option.some.inj (hr.symm.trans hr')
        exact set_tasks_self ..
  case h_2 hnone =>
    have hno (r : Task) (hr : m.sched.tasks d = some r) : r.state ≠ .waitingIrq irq := by
      have := List.find?_eq_none.mp hnone d (List.mem_finRange d)
      simpa [hr] using this
    exact ⟨_, rfl, hno, fun r hr hstate => absurd hstate (hno r hr)⟩

theorem claims_wakes (p : Platform) (h : m.Sole d irq) {l : Label} (hclaim : claims l = some irq)
    (hen : m.enabled l.event = true) : ∃ m', m.step p l = some m' ∧
      (∀ t', m'.sched.tasks d = some t' → t'.state ≠ .waitingIrq irq) ∧
      ∀ r, m.sched.tasks d = some r → r.state = .waitingIrq irq →
        m'.sched.tasks d = some { r with state := .ready } := by
  obtain ⟨ev, input⟩ := l
  obtain ⟨frame, rfl, hext, rfl, hirq⟩ := claims_eq_some hclaim
  obtain ⟨s', hs', hwakes⟩ := wakeIrq_sole h
  refine ⟨{ m.save frame (m.konts m.current) with sched := s' }, step_eq_some.mpr ⟨hen, ?_⟩, hwakes⟩
  simp only [exec, trapHandler, hext, ne_eq, hirq, not_false_eq_true, if_true, hs']
  rfl

end Waiting

end Machine

namespace IrqBoard

open Machine Scheduler Transition

/-- What a step of the hart does to the PLIC; only a pending source is claimed. -/
def plicAfter (b : IrqBoard) (l : Label) : Option (Nat → Source) :=
  match claims l, b.machine.completes l.event with
  | some irq, _ =>
    if (b.plic irq).pending then some (Function.update b.plic irq (b.plic irq).claim) else none
  | none, some irq => some (Function.update b.plic irq (b.plic irq).complete)
  | none, none => some b.plic

def step (p : Platform) (b : IrqBoard) : IrqEvent → Option IrqBoard
  | .assert irq => some { b with plic := Function.update b.plic irq (b.plic irq).assert }
  | .ack irq => some { b with plic := Function.update b.plic irq (b.plic irq).ack }
  | .hart l => do
    let plic ← b.plicAfter l
    let machine ← b.machine.step p l
    return ⟨machine, plic⟩

/-- The step delegates the capability for `irq`. -/
def delegates (b : IrqBoard) (irq : Nat) : IrqEvent → Prop
  | .hart l => ∃ t ep, b.machine.sched.tasks b.machine.current = some t ∧
    l.event.grants t ep (.interrupt irq)
  | _ => False

/-- The source is not in service while its driver waits, and an asserted line is pending unless
the source is in service. -/
structure Guards (b : IrqBoard) (d : Slot) (irq : Nat) : Prop where
  sound : b.machine.Sound
  sole : b.machine.Sole d irq
  sampled : (b.plic irq).line = true → (b.plic irq).inService = false → (b.plic irq).pending = true
  waiting {t : Task} (ht : b.machine.sched.tasks d = some t) (hstate : t.state = .waitingIrq irq) :
    (b.plic irq).inService = false

section Steps

variable {p : Platform} {b b' : IrqBoard} {d : Slot} {irq : Nat}

theorem completes_of_claims {l : Label} {irq' : Nat} (h : claims l = some irq') :
    b.machine.completes l.event = none := by
  obtain ⟨frame, hev, hext, -⟩ := claims_eq_some h
  rw [hev, completes, if_neg]
  rintro ⟨hcall, -⟩
  rw [hext] at hcall
  cases hcall

theorem plicAfter_eq_some (irq : Nat) {l : Label} {plic : Nat → Source}
    (h : b.plicAfter l = some plic) :
    (claims l = some irq ∧ plic irq = (b.plic irq).claim) ∨
    (b.machine.completes l.event = some irq ∧ plic irq = (b.plic irq).complete) ∨
    (b.machine.completes l.event ≠ some irq ∧ plic irq = b.plic irq) := by
  unfold plicAfter at h
  split at h
  case h_1 _ _ irq' hclaim =>
    split at h
    case isFalse => cases h
    case isTrue =>
      obtain rfl := Option.some.inj h
      by_cases heq : irq' = irq
      · subst heq
        exact .inl ⟨hclaim, Function.update_self ..⟩
      · refine .inr (.inr ⟨?_, Function.update_of_ne (Ne.symm heq) ..⟩)
        rw [completes_of_claims hclaim]
        exact nofun
  case h_2 irq' _ hcomplete =>
    obtain rfl := Option.some.inj h
    by_cases heq : irq' = irq
    · subst heq
      exact .inr (.inl ⟨hcomplete, Function.update_self ..⟩)
    · refine .inr (.inr ⟨?_, Function.update_of_ne (Ne.symm heq) ..⟩)
      rw [hcomplete]
      exact fun h => heq (Option.some.inj h)
  case h_3 _ hcomplete =>
    obtain rfl := Option.some.inj h
    refine .inr (.inr ⟨?_, rfl⟩)
    rw [hcomplete]
    exact nofun

theorem Guards.relined (h : b.Guards d irq) {src : Source} {irq' : Nat}
    (hservice : src.inService = (b.plic irq').inService)
    (hsampled : irq' = irq → src.line = true → src.inService = false → src.pending = true) :
    Guards { b with plic := Function.update b.plic irq' src } d irq := by
  by_cases heq : irq = irq'
  · subst heq
    refine ⟨h.sound, h.sole, ?_, fun ht hstate => ?_⟩
    · simpa using hsampled rfl
    · simpa [hservice] using h.waiting ht hstate
  · have hsame : Function.update b.plic irq' src irq = b.plic irq := Function.update_of_ne heq ..
    refine ⟨h.sound, h.sole, ?_, fun ht hstate => ?_⟩
    · simpa only [hsame] using h.sampled
    · simpa only [hsame] using h.waiting ht hstate

theorem step_guards (h : b.Guards d irq) (e : IrqEvent) (hkeep : ¬ b.delegates irq e)
    (hstep : b.step p e = some b') : b'.Guards d irq := by
  cases e with
  | assert irq' =>
    obtain rfl := Option.some.inj hstep
    refine h.relined rfl fun heq _ hservice => ?_
    simp only [Source.assert] at hservice ⊢
    simp [hservice]
  | ack irq' =>
    obtain rfl := Option.some.inj hstep
    exact h.relined rfl fun heq hline => by cases hline
  | hart l =>
    obtain ⟨plic, hplic, hstep⟩ := Option.bind_eq_some_iff.mp hstep
    obtain ⟨m', hm', hstep⟩ := Option.bind_eq_some_iff.mp hstep
    obtain rfl := Option.some.inj hstep
    have hsound := step_sound h.sound hm'
    have hsole : m'.Sole d irq := by
      obtain ⟨t, hrun⟩ := h.sound.runs
      obtain ⟨hen, hexec⟩ := step_eq_some.mp hm'
      obtain ⟨m₁, heff, hsw⟩ := exec_effect hrun hen hexec
      refine switch_sole (effect_sole h.sole hrun heff fun ep hgrants => ?_) hsw
      exact hkeep ⟨t, ep, hrun.task, hgrants⟩
    obtain ⟨hclaim, hsrc⟩ | ⟨hcomplete, hsrc⟩ | ⟨hcomplete, hsrc⟩ := plicAfter_eq_some irq hplic
    · -- claimed: the driver is awake
      refine ⟨hsound, hsole, fun _ hservice => ?_, fun ht hstate => ?_⟩
      · simp only [hsrc, Source.claim, Bool.true_eq_false] at hservice
      · obtain ⟨hen, -⟩ := step_eq_some.mp hm'
        obtain ⟨m'', hm'', hawake, -⟩ := claims_wakes p h.sole hclaim hen
        obtain rfl := Option.some.inj (hm'.symm.trans hm'')
        exact absurd hstate (hawake _ ht)
    · -- completed: nothing is in service
      refine ⟨hsound, hsole, fun hline _ => ?_, fun _ _ => ?_⟩
      · simp only [hsrc, Source.complete] at hline ⊢
        rw [hline, Bool.or_true]
      · simp only [hsrc, Source.complete]
    · -- untouched: the driver was waiting before
      refine ⟨hsound, hsole, ?_, fun ht hstate => ?_⟩
      · simpa only [hsrc] using h.sampled
      · obtain ⟨r, hr, hold⟩ | hnew := step_waiting h.sound hm' ht hstate
        · simpa only [hsrc] using h.waiting hr hold
        · exact absurd hnew hcomplete

end Steps

section Runs

variable {p : Platform} {heal : Heal} {ops : List BootOp} {m₀ : Machine} {plic : Nat → Source}
  {es : List IrqEvent} {b : IrqBoard} {d : Slot} {irq : Nat} {t : Task}

/-- In every run in which the capability for `irq` is never delegated and was given to one task,
whenever that task waits for `irq` the source is not in service: an asserted line is pending,
and the interrupt wakes the task. -/
theorem no_lost_wakeup (hboot : boot p heal ops = .ok m₀)
    (honly : ∀ slot k, .grantCap slot k (.interrupt irq) ∈ ops → slot = d.val)
    (hidle : (plic irq).inService = false)
    (hsampled : (plic irq).line = true → (plic irq).pending = true)
    (hkeep : StepsMeet (step p) (fun b e => ¬ b.delegates irq e) ⟨m₀, plic⟩ es)
    (hrun : run (step p) ⟨m₀, plic⟩ es = some b) (ht : b.machine.sched.tasks d = some t)
    (hwait : t.state = .waitingIrq irq) :
    (b.plic irq).inService = false ∧ ((b.plic irq).line = true → (b.plic irq).pending = true ∧
      ∀ l, claims l = some irq → b.machine.enabled l.event = true →
        ∃ b' t', b.step p (.hart l) = some b' ∧ b'.machine.sched.tasks d = some t' ∧
          t'.state = .ready) := by
  have hfresh := boot_fresh hboot
  have hstart : Guards ⟨m₀, plic⟩ d irq := by
    refine ⟨hfresh.sound, ⟨fun hr hcap => ?_, fun hr => ?_, fun hr hstate => ?_⟩,
      fun hline _ => hsampled hline, fun _ _ => hidle⟩
    · exact Fin.ext (honly _ _ (boot_capAt hboot hr hcap))
    · rw [(hfresh.task hr).pendingGrant]
      exact nofun
    · have hrunnable := (hfresh.task hr).state
      simp [hstate, TaskState.runnable] at hrunnable
  have hguards := invariant_run (fun b e b' h hkeep hstep => step_guards h e hkeep hstep) hstart
    hkeep hrun
  have hservice := hguards.waiting ht hwait
  refine ⟨hservice, fun hline => ?_⟩
  have hpending := hguards.sampled hline hservice
  refine ⟨hpending, fun l hclaim hen => ?_⟩
  obtain ⟨m', hm', -, hready⟩ := claims_wakes p hguards.sole hclaim hen
  refine ⟨⟨m', Function.update b.plic irq (b.plic irq).claim⟩, { t with state := .ready }, ?_,
    hready t ht hwait, rfl⟩
  simp only [step, plicAfter, hclaim, if_pos hpending, hm']
  rfl

/-- A driver with the capability for interrupt 8. -/
def driverOps : List BootOp := BootOp.tasks [[(0, .interrupt 8)]]

/-- The device asserts its line before the driver waits, the interrupt is claimed with nobody
waiting, and the device asserts again. -/
def earlyInterrupt : List IrqEvent :=
  [.assert 8, .hart ⟨.trap (.fromU (interruptBit + 9)), { Input.zero with irq := 8 }⟩, .ack 8,
    .assert 8, .hart (.ecall 10 [0])]

theorem no_lost_wakeup_early : ∃ m₀ b t, boot .sample .empty driverOps = .ok m₀ ∧
    run (step .sample) ⟨m₀, fun _ => ⟨false, false, false⟩⟩ earlyInterrupt = some b ∧
    b.machine.sched.tasks 0 = some t ∧ t.state = .waitingIrq 8 ∧ (b.plic 8).line = true ∧
    (b.plic 8).pending = true := by
  have heval : (boot .sample .empty driverOps).toOption.any (fun m₀ =>
      (run (step .sample) ⟨m₀, fun _ => ⟨false, false, false⟩⟩ earlyInterrupt).any fun b =>
        (b.machine.sched.tasks 0).any (·.state == .waitingIrq 8) && (b.plic 8).line) = true := by
    decide +kernel
  obtain ⟨m₀, hm₀, heval⟩ := (Option.any_eq_true _ _).mp heval
  obtain ⟨b, hrun, heval⟩ := (Option.any_eq_true _ _).mp heval
  obtain ⟨hwaits, hline⟩ := Bool.and_eq_true_iff.mp heval
  obtain ⟨t, ht, hstate⟩ := (Option.any_eq_true _ _).mp hwaits
  have hboot := Except.toOption_eq_some_iff.mp hm₀
  have honly (slot k : Nat) (h : .grantCap slot k (.interrupt 8) ∈ driverOps) :
      slot = (0 : Slot).val := by
    simp [driverOps, BootOp.tasks] at h
    exact h.1
  have hnot (b : IrqBoard) (frame : TrapFrame) (input : Input)
      (h : decodeSyscall (frame.regs 16) ≠ .grant) :
      ¬ b.delegates 8 (.hart ⟨.trap frame, input⟩) := by
    rintro ⟨t, ep, -, frame', hask, -⟩
    obtain rfl := Event.trap.inj hask.1
    exact h hask.2.2
  have hkeep : StepsMeet (step .sample) (fun b e => ¬ b.delegates 8 e)
      ⟨m₀, fun _ => ⟨false, false, false⟩⟩ earlyInterrupt :=
    ⟨id, fun _ _ => ⟨hnot _ _ _ (by decide), fun _ _ => ⟨id, fun _ _ => ⟨id, fun _ _ =>
      ⟨hnot _ _ _ (by decide), fun _ _ => trivial⟩⟩⟩⟩⟩
  have hpending := (no_lost_wakeup hboot honly rfl (fun h => by cases h) hkeep hrun ht
    (beq_iff_eq.mp hstate)).2 hline
  exact ⟨m₀, b, t, hboot, hrun, ht, beq_iff_eq.mp hstate, hline, hpending.1⟩

end Runs

end IrqBoard

end Perenne

import Perenne.Steady
import Perenne.Trace

namespace Perenne

/-- Whether the task is in the middle of a system call. -/
def Kont.inSyscall : Kont → Bool
  | .user | .kernel _ => false
  | _ => true

/-- The state of a task, whoever is on the hart. -/
def TaskState.offHart : TaskState → TaskState
  | .running => .ready
  | st => st

/-- What a rendezvous depends on in one task. -/
structure View where
  state : TaskState
  caps : Caps
  message : Message
  caller : Option Nat
  pendingGrant : Option Capability
  kont : Kont
  frame : Option TrapFrame

/-- A system call from U-mode, with an instruction to return to. -/
structure TrapFrame.Ecall (frame : TrapFrame) (sys : Syscall) : Prop where
  user : frame.fromUser = true
  cause : decode frame.scause = .userEcall
  number : decodeSyscall (frame.regs 16) = sys
  next : frame.sepc + 4 < 2 ^ 64

/-- A message on `ep`: by `send`, by `call`, or with a capability by `grant`. -/
inductive Gives (caps : Caps) (frame : TrapFrame) (ep : EndpointId) :
    Message → Option Capability → Bool → Prop
  | send (hask : frame.Ecall .send) (hcap : caps.capLookup (frame.regs 9) = some ep) :
      Gives caps frame ep frame.message none false
  | call (hask : frame.Ecall .call) (hcap : caps.capLookup (frame.regs 9) = some ep) :
      Gives caps frame ep frame.message none true
  | grant {cap : Capability} (hask : frame.Ecall .grant)
      (hcap : caps.capLookup (frame.regs 9) = some ep)
      (hsrc : caps.capAt (frame.regs 10) = some cap) :
      Gives caps frame ep ⟨frame.regs 11, 0, 0, 0⟩ (some cap) false

theorem Gives.ecall {caps : Caps} {frame : TrapFrame} {ep : EndpointId} {msg : Message}
    {granted : Option Capability} {isCall : Bool} (h : Gives caps frame ep msg granted isCall) :
    ∃ sys, frame.Ecall sys := by
  cases h with
  | send hask => exact ⟨_, hask⟩
  | call hask => exact ⟨_, hask⟩
  | grant hask => exact ⟨_, hask⟩

namespace Machine

variable {p : Platform} {m m₁ m' : Machine} {t : Task} {i : Slot}

open Scheduler Except

/-- A task with what is on its kernel stack. -/
def viewOf (t : Task) (kont : Kont) (frame : TrapFrame) : View where
  state := t.state.offHart
  caps := t.caps
  message := t.message
  caller := t.caller
  pendingGrant := t.pendingGrant
  kont := kont
  frame := if kont.inSyscall then some frame else none

def view (m : Machine) (i : Slot) : Option View :=
  (m.sched.tasks i).map fun t => viewOf t (m.konts i) (m.frames i)

/-- The scheduler has been at work: who is on the hart has changed, and the registers of tasks
that are in their own code. -/
structure Rescheduled (m m' : Machine) : Prop where
  view : m'.view = m.view
  runs : ∃ t, m'.Runs t
  solo : m'.Solo

theorem offHart_blocked {st : TaskState} {ep : EndpointId} {role : IpcRole} :
    (st.offHart == .blocked ep role) = (st == .blocked ep role) := by
  cases st <;> rfl

theorem offHart_of_runnable {st : TaskState} (h : st.runnable) : st.offHart = .ready := by
  obtain rfl | rfl := h
  · rfl
  · rfl

theorem runnable_of_offHart {st : TaskState} (h : st.offHart = .ready) : st.runnable := by
  cases st with
  | ready => exact .inl rfl
  | running => exact .inr rfl
  | exited => cases h
  | blocked ep role => cases h
  | awaitingReply => cases h
  | waitingIrq irq => cases h

theorem view_eq_some {v : View} (h : m.view i = some v) :
    ∃ t, m.sched.tasks i = some t ∧ viewOf t (m.konts i) (m.frames i) = v :=
  Option.map_eq_some_iff.mp h

theorem frames_of_view {v : View} {frame : TrapFrame} (h : m.view i = some v)
    (hframe : v.frame = some frame) : m.frames i = frame := by
  obtain ⟨t, -, rfl⟩ := view_eq_some h
  simp only [viewOf] at hframe
  split at hframe
  · exact Option.some.inj hframe
  · cases hframe

theorem switch_view (h : Switch m m') : m'.view = m.view := by
  cases h with
  | stay => rfl
  | @swap live next u t state ht hne hu hready hstate =>
    funext i
    rw [view, view, handOver_tasks]
    by_cases hi : i = next
    · subst hi
      rw [if_pos rfl, hu]
      simp only [Option.map_some, viewOf, hready]
      rfl
    · rw [if_neg hi]
      by_cases hcur : i = m.sched.current
      · subst hcur
        have hoff : state.offHart = t.state.offHart := by
          obtain ⟨rfl, -⟩ | ⟨hrun, rfl⟩ := hstate
          · rfl
          · exact (offHart_of_runnable hrun).symm
        rw [if_pos rfl, show m.sched.tasks m.sched.current = some t from ht]
        simp only [Option.map_some, viewOf, hoff]
      · rw [if_neg hcur]

theorem modify_of_task {s : Scheduler} (ht : s.tasks i = some t) (f : Task → Task) :
    s.modify i f = .ok (s.set i (f t)) := modify_eq_ok.mpr ⟨t, ht, rfl⟩

theorem findBlocked_view (m : Machine) (ep : EndpointId) (role : IpcRole) :
    m.sched.findBlocked ep role = (List.finRange maxTasks).find? fun i =>
      (m.view i).any (·.state == .blocked ep role) := by
  rw [findBlocked]
  congr 1
  funext i
  rw [view, Option.any_map]
  congr 1
  funext t
  exact offHart_blocked.symm

theorem findBlocked_none_of_view {ep : EndpointId} {role : IpcRole}
    (h : ∀ j v, m.view j = some v → v.state ≠ .blocked ep role) :
    m.sched.findBlocked ep role = none := by
  rw [findBlocked_view, List.find?_eq_none]
  intro j _
  cases hj : m.view j with
  | none => exact Bool.false_ne_true
  | some v => simpa using h j v hj

theorem findBlocked_some_of_view {ep : EndpointId} {role : IpcRole} {v : View}
    (hi : m.view i = some v) (hstate : v.state = .blocked ep role)
    (h : ∀ j v, m.view j = some v → v.state = .blocked ep role → j = i) :
    m.sched.findBlocked ep role = some i := by
  rw [findBlocked_view]
  cases hfind : List.find? _ _ with
  | none =>
    have := List.find?_eq_none.mp hfind i (List.mem_finRange i)
    simp [hi, hstate] at this
  | some j =>
    have hj := List.find?_some hfind
    cases hw : m.view j with
    | none => simp [hw] at hj
    | some w => rw [h j w hw (by simpa [hw] using hj)]

section Update

variable {s : Scheduler} {frame : TrapFrame} {kont : Kont}

theorem view_next_set (t' : Task) : (m.next (m.sched.set m.current t') frame kont).view =
    Function.update m.view m.current (some (viewOf t' kont frame)) := by
  funext j
  by_cases hj : j = m.current
  · subst hj
    simp [view, next, save]
  · simp [view, next, save, hj]

theorem view_next_set_set {j : Slot} (hj : j ≠ m.current) (r' t' : Task) :
    (m.next ((m.sched.set j r').set m.current t') frame kont).view =
      Function.update (Function.update m.view j (some (viewOf r' (m.konts j) (m.frames j))))
        m.current (some (viewOf t' kont frame)) := by
  funext k
  by_cases hk : k = m.current
  · subst hk
    simp [view, next, save]
  · by_cases hkj : k = j
    · subst hkj
      simp [view, next, save, hk]
    · simp [view, next, save, hk, hkj]

theorem view_next_set_other {j : Slot} (hj : j ≠ m.current) (ht : m.sched.tasks m.current = some t)
    (r' : Task) : (m.next (m.sched.set j r') frame kont).view =
      Function.update (Function.update m.view j (some (viewOf r' (m.konts j) (m.frames j))))
        m.current (some (viewOf t kont frame)) := by
  have hkept : (m.sched.set j r').tasks m.current = some t := (set_tasks_ne _ hj.symm _).trans ht
  rw [← view_next_set_set hj, set_self hkept]

end Update

/-- A timer tick, or a kernel task that yields. -/
def preempts : Event → Bool
  | .trap frame => decode frame.scause == .supervisorTimer
  | .yieldNow => true
  | _ => false

theorem Rescheduled.trans {m₂ : Machine} (h : Rescheduled m m₁) (h' : Rescheduled m₁ m₂) :
    Rescheduled m m₂ := ⟨h'.view.trans h.view, h'.runs, h'.solo⟩

theorem rescheduled_of_step {l : Label} (hsolo : m.Solo) (hrun : m.Runs t)
    (hl : preempts l.event = true) (h : m.step p l = some m') : Rescheduled m m' := by
  obtain ⟨hen, hexec⟩ := step_eq_some.mp h
  obtain ⟨ev, input⟩ := l
  cases ev with
  | trap frame =>
    have htimer : decode frame.scause = .supervisorTimer := beq_iff_eq.mp hl
    have hsyscall : (m.konts m.current).inSyscall = false := by
      cases hk : m.konts m.current with
      | user => rfl
      | kernel pc => rfl
      | _ => simp [enabled, hk] at hen
    simp only [exec, trapHandler, htimer, Except.bind_eq_ok_iff, Except.pure_eq_ok_iff] at hexec
    obtain ⟨s', hs', rfl⟩ := hexec
    have hswitch := yield_switch (m.save frame (m.konts m.current)) ⟨hrun.task, hrun.runnable⟩ hs'
    have hsame : (m.save frame (m.konts m.current)).view = m.view := by
      funext i
      by_cases hi : i = m.current
      · subst hi
        simp only [view, save, viewOf, Function.update_self, hsyscall]
        rfl
      · simp only [view, save, Function.update_of_ne hi]
    exact ⟨(switch_view hswitch).trans hsame, hswitch.runs, switch_solo (by exact hsolo) hswitch⟩
  | yieldNow =>
    simp only [exec, Except.bind_eq_ok_iff, Except.pure_eq_ok_iff] at hexec
    obtain ⟨s', hs', rfl⟩ := hexec
    have hswitch := yield_switch m hrun hs'
    exact ⟨switch_view hswitch, hswitch.runs, switch_solo hsolo hswitch⟩
  | _ => cases hl

theorem rescheduled_of_run {ls : List Label} (hsolo : m.Solo) (hrun : m.Runs t)
    (hls : ∀ l ∈ ls, preempts l.event = true) (h : Transition.run (step p) m ls = some m') :
    Rescheduled m m' := by
  induction ls generalizing m t with
  | nil =>
    obtain rfl := Option.some.inj h
    exact ⟨rfl, ⟨t, hrun⟩, hsolo⟩
  | cons l ls ih =>
    obtain ⟨m₁, hstep, hrest⟩ := Transition.run_cons h
    have hfirst := rescheduled_of_step hsolo hrun (hls l (.head _)) hstep
    obtain ⟨t₁, hrun₁⟩ := hfirst.runs
    exact hfirst.trans (ih hfirst.solo hrun₁ (fun l hl => hls l (.tail _ hl)) hrest)

end Machine

end Perenne

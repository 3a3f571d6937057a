import Perenne.LinearRuns
import Mathlib.Algebra.BigOperators.Fin

namespace Perenne

/-- Where a message was sent: on an endpoint, or as the answer to the call of `caller`
that was accepted as message number `request`. -/
inductive Route where
  | endpoint (ep : EndpointId)
  | reply (caller : Slot) (request : Nat)
deriving DecidableEq

/-- An accepted message: its number, who sent it, where, and what it says. -/
structure Item where
  number : Nat
  sender : Slot
  channel : Route
  message : Message
deriving DecidableEq

/-- The log. `buffer i` is the number and the sender of the message last put in task
`i`'s buffer, `request i` the number of the last call of `i`, and `minted i` the number
of the call for which an authority naming `i` was last handed out. -/
structure Log where
  accepted : List Item
  returned : List Item
  buffer : Slot → Nat × Slot
  request : Slot → Nat
  minted : Slot → Nat

def Log.empty : Log := ⟨[], [], fun _ => (0, 0), fun _ => 0, fun _ => 0⟩

/-- The message in `a0`..`a3`, where `write_message` puts it. -/
def TrapFrame.result (frame : TrapFrame) : Message :=
  ⟨frame.regs 9, frame.regs 10, frame.regs 11, frame.regs 12⟩

namespace Log

/-- A message is accepted from `sender` and put in the buffer of `holder`. -/
def accept (log : Log) (sender holder : Slot) (channel : Route) (message : Message) : Log :=
  { log with
    accepted := log.accepted ++ [⟨log.accepted.length, sender, channel, message⟩]
    buffer := Function.update log.buffer holder (log.accepted.length, sender) }

/-- The message in the buffer of `holder` is returned to a task's registers. -/
def handBack (log : Log) (holder : Slot) (channel : Route) (message : Message) : Log :=
  { log with
    returned := log.returned ++
      [⟨(log.buffer holder).1, (log.buffer holder).2, channel, message⟩] }

/-- The messages are numbered in the order they were accepted. -/
def Numbered (log : Log) : Prop :=
  log.accepted.map Item.number = List.range log.accepted.length

theorem Numbered.accept {log : Log} (h : log.Numbered) (sender holder : Slot) (channel : Route)
    (message : Message) : (log.accept sender holder channel message).Numbered := by
  unfold Numbered at h ⊢
  simp [Log.accept, h, List.range_succ]

theorem Numbered.nodup {log : Log} (h : log.Numbered) : log.accepted.Nodup := by
  refine List.Nodup.of_map Item.number ?_
  rw [h]
  exact List.nodup_range

end Log

namespace Machine

/-- Where a message for `ep` goes: to the first receiver waiting there, or to the
sender's own outbox. -/
def holder (m : Machine) (ep : EndpointId) : Slot :=
  (m.sched.findBlocked ep .recv).getD m.current

/-- What the system call `sys`, which left the registers `result`, adds to the log. -/
def noteSyscall (m : Machine) (t : Task) (frame result : TrapFrame) (log : Log) : Syscall → Log
  | .send =>
    (t.caps.capLookup (frame.regs 9)).elim log fun ep =>
      log.accept m.current (m.holder ep) (.endpoint ep) frame.message
  | .grant =>
    (t.caps.capLookup (frame.regs 9)).elim log fun ep =>
      (t.caps.capAt (frame.regs 10)).elim log fun _ =>
        log.accept m.current (m.holder ep) (.endpoint ep) ⟨frame.regs 11, 0, 0, 0⟩
  | .call =>
    (t.caps.capLookup (frame.regs 9)).elim log fun ep =>
      let number := log.accepted.length
      { log.accept m.current (m.holder ep) (.endpoint ep) frame.message with
        request := Function.update log.request m.current number
        minted := if (m.sched.findBlocked ep .recv).isSome
          then Function.update log.minted m.current number else log.minted }
  | .recv =>
    (t.caps.capLookup (frame.regs 9)).elim log fun ep =>
      (m.sched.waitingSender ep).elim log fun (si, isCall) =>
        { log.handBack si (.endpoint ep) result.result with
          minted := if isCall then Function.update log.minted si (log.buffer si).1
            else log.minted }
  | .reply =>
    (t.caps.replyCaller (frame.regs 9)).elim log fun c =>
      if h : c < maxTasks then
        if result.regs 9 = 0 then
          log.accept m.current ⟨c, h⟩ (.reply ⟨c, h⟩ (log.minted ⟨c, h⟩)) frame.message
        else log
      else log
  | _ => log

/-- What a step from `m` to `m'` adds to the log. -/
def note (m : Machine) (ev : Event) (m' : Machine) (log : Log) : Log :=
  match ev, m.sched.tasks m.current with
  | .trap frame, some t =>
    match decode frame.scause with
    | .userEcall =>
      m.noteSyscall t frame (m'.frames m.current) log (decodeSyscall (frame.regs 16))
    | _ =>
      -- A crash that reaches its healer is a message from the task that is killed.
      ((killCause frame).bind (m.notified t)).elim log fun h =>
        log.accept m.current h (.endpoint crashEp) ⟨t.crashBadge, 0, 0, 0⟩
  | .resume, some _ =>
    match m.konts m.current with
    | .recv ep _ => log.handBack m.current (.endpoint ep) (m'.frames m.current).result
    | .call =>
      log.handBack m.current (.reply m.current (log.request m.current))
        (m'.frames m.current).result
    | _ => log
  | _, _ => log

/-- The state of a task and the one message it has room for. -/
def mail (m : Machine) (i : Slot) : Option (TaskState × Message) :=
  (m.sched.tasks i).map fun t => (t.state, t.message)

/-- The message of a task that is blocked as a sender or caller. -/
def outbox (m : Machine) (log : Log) (i : Slot) : Option Item :=
  match m.mail i with
  | some (.blocked ep .send, msg) | some (.blocked ep .call, msg) =>
    some ⟨(log.buffer i).1, i, .endpoint ep, msg⟩
  | _ => none

/-- The message of a receiver or caller that can run but has not resumed. -/
def inbox (m : Machine) (log : Log) (i : Slot) : Option Item :=
  match m.mail i, m.konts i with
  | some (.ready, msg), .recv ep _ | some (.running, msg), .recv ep _ =>
    some ⟨(log.buffer i).1, (log.buffer i).2, .endpoint ep, msg⟩
  | some (.ready, msg), .call | some (.running, msg), .call =>
    some ⟨(log.buffer i).1, (log.buffer i).2, .reply i (log.request i), msg⟩
  | _, _ => none

/-- The messages in flight at task `i`. -/
def inFlightAt (m : Machine) (log : Log) (i : Slot) : Multiset Item :=
  ((m.outbox log i).toList ++ (m.inbox log i).toList : List Item)

def inFlight (m : Machine) (log : Log) : Multiset Item := ∑ i, m.inFlightAt log i

variable {m m₁ m' : Machine} {log : Log} {i : Slot} {st : TaskState} {msg : Message}
  {ep : EndpointId}

/-- Only a blocked sender or caller has an outbox, and only a task inside `recv` or
`call` an inbox. -/
theorem inFlightAt_eq_zero (hmail : m.mail i = some (st, msg))
    (hst : ∀ ep, st ≠ .blocked ep .send ∧ st ≠ .blocked ep .call)
    (hk : ¬ st.runnable ∨ m.konts i = .user ∨ m.konts i = .send ∨ m.konts i = .irq) :
    m.inFlightAt log i = 0 := by
  have hout : m.outbox log i = none := by
    unfold outbox
    rw [hmail]
    split <;> simp_all
  have hin : m.inbox log i = none := by
    unfold inbox
    rw [hmail]
    split <;> simp_all [TaskState.runnable]
  simp [inFlightAt, hout, hin]

theorem inFlightAt_outbox {role : IpcRole} (hmail : m.mail i = some (.blocked ep role, msg))
    (hrole : role ≠ .recv) :
    m.inFlightAt log i = {⟨(log.buffer i).1, i, .endpoint ep, msg⟩} := by
  cases role with
  | recv => exact absurd rfl hrole
  | send => simp [inFlightAt, outbox, inbox, hmail]
  | call => simp [inFlightAt, outbox, inbox, hmail]

theorem inFlightAt_recv {slot : Nat} (hmail : m.mail i = some (st, msg)) (hst : st.runnable)
    (hk : m.konts i = .recv ep slot) :
    m.inFlightAt log i = {⟨(log.buffer i).1, (log.buffer i).2, .endpoint ep, msg⟩} := by
  obtain rfl | rfl := hst <;> simp [inFlightAt, outbox, inbox, hmail, hk]

theorem inFlightAt_call (hmail : m.mail i = some (st, msg)) (hst : st.runnable)
    (hk : m.konts i = .call) :
    m.inFlightAt log i =
      {⟨(log.buffer i).1, (log.buffer i).2, .reply i (log.request i), msg⟩} := by
  obtain rfl | rfl := hst <;> simp [inFlightAt, outbox, inbox, hmail, hk]

section Note

variable {t : Task} {ev : Event} {frame : TrapFrame}

theorem note_congr (hframes : m'.frames = m₁.frames) : m.note ev m' log = m.note ev m₁ log := by
  unfold note
  rw [hframes]

theorem note_of_asks {sys : Syscall} (hrun : m.Runs t) (hask : ev.asks sys frame) :
    m.note ev m' log = m.noteSyscall t frame (m'.frames m.current) log sys := by
  obtain ⟨hev, hec, rfl⟩ := hask
  simp only [note, hev, hrun.task, hec]

theorem note_of_trap (hrun : m.Runs t) (hev : ev = .trap frame)
    (hec : decode frame.scause ≠ .userEcall) :
    m.note ev m' log = ((killCause frame).bind (m.notified t)).elim log fun h =>
      log.accept m.current h (.endpoint crashEp) ⟨t.crashBadge, 0, 0, 0⟩ := by
  simp only [note, hev, hrun.task]

theorem note_of_kill {cause : Cause} (hrun : m.Runs t) (hev : ev = .trap frame)
    (hcause : killCause frame = some cause) :
    m.note ev m' log = (m.notified t cause).elim log fun h =>
      log.accept m.current h (.endpoint crashEp) ⟨t.crashBadge, 0, 0, 0⟩ := by
  rw [note_of_trap hrun hev (fun hec => by simp [killCause, hec] at hcause), hcause]
  rfl

theorem note_of_resume (hrun : m.Runs t) (hev : ev = .resume) :
    m.note ev m' log = match m.konts m.current with
      | .recv ep _ => log.handBack m.current (.endpoint ep) (m'.frames m.current).result
      | .call => log.handBack m.current (.reply m.current (log.request m.current))
          (m'.frames m.current).result
      | _ => log := by
  simp only [note, hev, hrun.task]

theorem noteSyscall_of_refuses {result : TrapFrame} {sys : Syscall}
    (h : t.caps.refuses frame sys) : m.noteSyscall t frame result log sys = log := by
  cases sys with
  | grant =>
    obtain hep | hcap := h
    · simp [noteSyscall, hep]
    · cases hep : t.caps.capLookup (frame.regs 9) <;> simp [noteSyscall, hep, hcap]
  | send => simp [noteSyscall, show t.caps.capLookup (frame.regs 9) = none from h]
  | recv => simp [noteSyscall, show t.caps.capLookup (frame.regs 9) = none from h]
  | call => simp [noteSyscall, show t.caps.capLookup (frame.regs 9) = none from h]
  | reply => simp [noteSyscall, show t.caps.replyCaller (frame.regs 9) = none from h]
  | _ => rfl

theorem note_keep (hrun : m.Runs t) (hev : ev ≠ .resume)
    (hrefuse : ∀ sys frame, ev.asks sys frame → t.caps.refuses frame sys)
    (hkill : ∀ frame, ev = .trap frame → killCause frame = none) :
    m.note ev m' log = log := by
  cases ev with
  | trap frame =>
    by_cases hec : decode frame.scause = .userEcall
    · have hask : Event.asks (.trap frame) (decodeSyscall (frame.regs 16)) frame := ⟨rfl, hec, rfl⟩
      rw [note_of_asks hrun hask]
      exact noteSyscall_of_refuses (hrefuse _ _ hask)
    · rw [note_of_trap hrun rfl hec, hkill frame rfl]
      rfl
  | resume => exact absurd rfl hev
  | _ => rfl

end Note

theorem noteSyscall_numbered {t : Task} {frame result : TrapFrame} (h : log.Numbered)
    (sys : Syscall) : (m.noteSyscall t frame result log sys).Numbered := by
  cases sys with
  | send => cases hep : t.caps.capLookup (frame.regs 9) <;> simp [noteSyscall, hep, h, h.accept]
  | grant =>
    cases hep : t.caps.capLookup (frame.regs 9) <;>
    cases hcap : t.caps.capAt (frame.regs 10) <;> simp [noteSyscall, hep, hcap, h, h.accept]
  | call =>
    cases hep : t.caps.capLookup (frame.regs 9) with
    | none => simpa [noteSyscall, hep] using h
    | some ep =>
      simp only [noteSyscall, hep, Option.elim_some]
      exact h.accept m.current (m.holder ep) (.endpoint ep) frame.message
  | recv =>
    cases hep : t.caps.capLookup (frame.regs 9) with
    | none => simpa [noteSyscall, hep] using h
    | some ep =>
      simp only [noteSyscall, hep, Option.elim_some]
      cases m.sched.waitingSender ep <;> exact h
  | reply =>
    cases hc : t.caps.replyCaller (frame.regs 9) with
    | none => simpa [noteSyscall, hc] using h
    | some c =>
      simp only [noteSyscall, hc, Option.elim_some]
      split
      · split
        · exact h.accept ..
        · exact h
      · exact h
  | _ => exact h

theorem note_numbered {ev : Event} (h : log.Numbered) : (m.note ev m' log).Numbered := by
  unfold note
  split
  · split
    · exact noteSyscall_numbered h _
    · cases (killCause _).bind (m.notified _) <;> simp [h, h.accept]
  · split <;> exact h
  · exact h

end Machine

end Perenne

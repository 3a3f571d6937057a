import Perenne.Syscall
import Perenne.Lib.Transition

/-!
# The machine

`trap_handler` and the runs of the kernel. A state holds the scheduler, the crash path's statics,
whether a kernel task is inside `POOL.with`, and for each task the trap frame on its kernel stack
and the kernel function it is parked in. A run is a list of labels: each names what the hart does
next, and is taken only where the code can take it.
-/

namespace Perenne

structure Machine where
  sched : Scheduler
  heal : Heal
  expectingWxFault : Bool
  poolInUse : Bool
  frames : Slot → TrapFrame
  konts : Slot → Kont

/-- What happens next: a trap with this frame, a parked system call that continues after
`park_current`, or the next thing a kernel task's code does. -/
inductive Event where
  | trap (frame : TrapFrame)
  | resume
  | yieldNow
  | recvMessage (capIdx : Nat)
  | callMessage (capIdx badge : Nat)
  | park
  | finish
  | setHeal (heal : Heal)
  | setPool (inUse : Bool)

structure Label where
  event : Event
  input : Input

/-- `frame.sepc += n`, which a checked build stops on when it wraps. -/
def TrapFrame.advance (frame : TrapFrame) (n : Nat) : Except Panic TrapFrame :=
  if frame.sepc + n < 2 ^ 64 then .ok { frame with sepc := frame.sepc + n } else .error .overflow

/-- `instruction_len_at`: an S-mode load at `addr`, outside any `SUM` window. -/
def Platform.instructionLenAt (p : Platform) (satp addr : Nat) : Except Panic Nat :=
  if p.loads satp false addr then .ok (instructionLen (p.parcel addr))
  else .error (.fatal "load page fault")

namespace Machine

def current (m : Machine) : Slot := m.sched.current

/-- The kernel stack of the current task holds this frame and continuation. -/
def save (m : Machine) (frame : TrapFrame) (kont : Kont) : Machine :=
  { m with
    frames := Function.update m.frames m.current frame
    konts := Function.update m.konts m.current kont }

/-- The `UserEcall` arm of `trap_handler`, after `dispatch`. -/
def finishSyscall (m : Machine) (input : Input) (frame : TrapFrame) :
    Scheduler × Flow → Except Panic Machine
  | (s, .resume frame) => do
    let frame ← frame.advance 4
    return { m.save frame (m.konts m.current) with sched := s }
  | (s, .relaunch target frame) => do
    let frame ← frame.advance 4
    let m := m.save frame (m.konts m.current)
    return { m with sched := s, konts := Function.update m.konts target .user }
  | (s, .park state kont) => do
    let s ← s.parkCurrent input.live state
    return { m.save frame kont with sched := s }
  | (s, .yield) => do
    let frame ← frame.advance 4
    let s ← s.yieldNow input.live
    return { m.save frame (m.konts m.current) with sched := s }
  | (s, .exit code) => do
    let (s, heal) ← s.exitCurrent m.heal input.live (.exited code)
    return { m with sched := s, heal }

/-- `exit_current(Killed(cause))`. -/
def kill (m : Machine) (input : Input) (cause : Cause) : Except Panic Machine := do
  let (sched, heal) ← m.sched.exitCurrent m.heal input.live (.killed cause)
  return { m with sched, heal }

/-- The `satp` the hart translates through: that of the current task. -/
def satp (m : Machine) : Nat := ((m.sched.tasks m.current).map Task.satp).getD 0

/-- `trap_handler`. -/
def trapHandler (p : Platform) (m : Machine) (input : Input) (frame : TrapFrame) :
    Except Panic Machine :=
  match decode frame.scause with
  | .breakpoint => do
    let len ← p.instructionLenAt m.satp frame.sepc
    let frame ← frame.advance len
    return m.save frame (m.konts m.current)
  | .supervisorTimer => do
    let sched ← m.sched.yieldNow input.live
    return { m.save frame (m.konts m.current) with sched }
  | .supervisorExternal =>
    if input.irq ≠ 0 then do
      let sched ← m.sched.wakeIrq input.irq
      return { m.save frame (m.konts m.current) with sched }
    else .ok (m.save frame (m.konts m.current))
  | .userEcall => do
    let out ← dispatch p m.sched m.poolInUse input frame
    m.finishSyscall input frame out
  | .instructionPageFault =>
    if frame.fromUser then m.kill input .instructionPageFault
    else .error (.fatal "instruction page fault")
  | .loadPageFault =>
    if frame.fromUser then m.kill input .loadPageFault else .error (.fatal "load page fault")
  | .illegalInstruction =>
    if frame.fromUser then m.kill input .illegalInstruction
    else .error (.fatal "illegal instruction")
  | .storePageFault =>
    if frame.fromUser then m.kill input .storePageFault
    else if m.expectingWxFault then do
      let len ← p.instructionLenAt m.satp frame.sepc
      let frame ← frame.advance len
      return { m.save frame (m.konts m.current) with expectingWxFault := false }
    else .error (.fatal "store page fault")
  | .unknown _ _ => .error (.fatal "unknown")

/-- A system call that `park_current` has returned to: what is left of it, up to the
return to U-mode. -/
def resumeSyscall (m : Machine) : Except Panic Machine := do
  let frame := m.frames m.current
  let (sched, frame) ← match m.konts m.current with
    | .recv _ replySlot => m.sched.resumeRecv frame replySlot
    | .call => do
      let t ← m.sched.task m.current
      pure (m.sched, writeMessage frame t.message)
    | _ => pure (m.sched, frame.setReg 9 0)
  let frame ← frame.advance 4
  return { m.save frame .user with sched }

/-- The kernel task's code moves on to `pc`. -/
def goto (m : Machine) (sched : Scheduler) (pc : KernelPc) : Machine :=
  { m with sched, konts := Function.update m.konts m.current (.kernel pc) }

/-- The state and position `park_current` is called with between two sections of
`recv_message` or `call_message`. -/
def parkPoint : Kont → Option (TaskState × KernelPc)
  | .kernel (.recvPark ep) => some (.blocked ep .recv, .recvRead)
  | .kernel .callPark => some (.awaitingReply, .callRead)
  | .kernel (.callQueue ep) => some (.blocked ep .call, .callRead)
  | _ => none

/-- The last section of `recv_message` and `call_message`: read the message. -/
def readBack (m : Machine) : Except Panic Machine := do
  let t ← m.sched.task m.current
  match m.konts m.current with
  | .kernel .callRead => return m.goto m.sched (.body (some (.badge t.message.badge)))
  | _ => return m.goto m.sched (.body (some (.message t.message)))

/-- Whether the hart can do this next. In U-mode any trap may come; a kernel task runs
with interrupts on between its critical sections; a parked system call runs on with
interrupts off. -/
def enabled (m : Machine) : Event → Bool
  | .trap frame =>
    match m.konts m.current with
    | .user => frame.fromUser
    | .kernel _ => !frame.fromUser &&
        (decode frame.scause == .supervisorTimer || decode frame.scause == .supervisorExternal)
    | _ => false
  | .resume =>
    match m.konts m.current with
    | .user | .kernel _ => false
    | _ => true
  | .yieldNow | .recvMessage _ | .callMessage _ _ | .setHeal _ | .setPool _ =>
    match m.konts m.current with
    | .kernel (.body _) => true
    | _ => false
  | .park => (parkPoint (m.konts m.current)).isSome
  | .finish =>
    match m.konts m.current with
    | .kernel .recvRead | .kernel .callRead => true
    | _ => false

def exec (p : Platform) (m : Machine) (l : Label) : Except Panic Machine :=
  match l.event with
  | .trap frame => m.trapHandler p l.input frame
  | .resume => m.resumeSyscall
  | .yieldNow => do
    let sched ← m.sched.yieldNow l.input.live
    return { m with sched }
  | .recvMessage capIdx => do
    let (sched, pc) ← m.sched.recvMessage capIdx
    return m.goto sched pc
  | .callMessage capIdx badge => do
    let (sched, pc) ← m.sched.callMessage capIdx badge
    return m.goto sched pc
  | .park =>
    match parkPoint (m.konts m.current) with
    | some (state, pc) => do
      let sched ← m.sched.parkCurrent l.input.live state
      return m.goto sched pc
    | none => .ok m
  | .finish => m.readBack
  | .setHeal heal => .ok { m with heal }
  | .setPool inUse => .ok { m with poolInUse := inUse }

/-- The transition function of a run: `none` where the step is not enabled or panics. -/
def step (p : Platform) (m : Machine) (l : Label) : Option Machine :=
  if m.enabled l.event then (m.exec p l).toOption else none

theorem step_eq_some {p : Platform} {m m' : Machine} {l : Label} :
    m.step p l = some m' ↔ m.enabled l.event = true ∧ m.exec p l = .ok m' := by
  unfold step
  split
  · cases h : m.exec p l <;> simp_all [Except.toOption]
  · simp_all

end Machine

end Perenne

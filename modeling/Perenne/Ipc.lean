import Perenne.Scheduler

namespace Perenne

/-- What a kernel-task operation handed back to the task's own code. -/
inductive KernelRet where
  | badge (b : Nat)
  | message (m : Message)
deriving DecidableEq, Repr

/-- Where a kernel task stands: in its own code, or between two critical sections of
`recv_message` or `call_message`. -/
inductive KernelPc where
  | body (ret : Option KernelRet)
  | recvPark (ep : EndpointId)
  | recvRead
  | callPark
  | callQueue (ep : EndpointId)
  | callRead
deriving DecidableEq, Repr

/-- What is left on a task's kernel stack: nothing but the return to U-mode, the rest of
a blocked system call, or a kernel task's position. -/
inductive Kont where
  | user
  | recv (ep : EndpointId) (replySlot : Nat)
  | send
  | call
  | irq
  | kernel (pc : KernelPc)
deriving DecidableEq, Repr

/-- How a system call leaves its critical section: with its return registers written
(and, for `restart`, the task whose kernel stack it abandoned), waiting, yielding or
ending the task. -/
inductive Flow where
  | resume (frame : TrapFrame)
  | relaunch (target : Slot) (frame : TrapFrame)
  | park (state : TaskState) (kont : Kont)
  | yield
  | exit (code : Nat)

/-- `write_message`: badge and data into `a0`..`a3`. -/
def writeMessage (frame : TrapFrame) (msg : Message) : TrapFrame :=
  (((frame.setReg 9 msg.badge).setReg 10 msg.data.1).setReg 11 msg.data.2.1).setReg 12 msg.data.2.2

/-- The message in the argument registers `a1`..`a4` of `send`, `call` and `reply`. -/
def TrapFrame.message (frame : TrapFrame) : Message :=
  ⟨frame.regs 10, frame.regs 11, frame.regs 12, frame.regs 13⟩

/-- `a0 = 0` or `a0 = usize::MAX`. -/
def TrapFrame.setStatus (frame : TrapFrame) (ok : Bool) : TrapFrame :=
  frame.setReg 9 (if ok then 0 else usizeMax)

namespace Scheduler

/-- The half of a rendezvous `send`, `call`, `grant` and `call_message` share: hand the
message to the first receiver waiting on `ep`, together with the caller to reply to or
the capability granted, or leave it in the current task's outbox. Returns whether a
receiver took it. -/
def offer (s : Scheduler) (ep : EndpointId) (msg : Message) (caller : Option Nat)
    (grant : Option Capability) : Except Panic (Scheduler × Bool) :=
  match s.findBlocked ep .recv with
  | some ri => do
    let s ← s.modify ri fun r =>
      { r with message := msg, caller := caller.or r.caller,
               pendingGrant := grant.or r.pendingGrant, state := .ready }
    return (s, true)
  | none => do
    let s ← s.modify s.current fun t =>
      { t with message := msg, pendingGrant := grant.or t.pendingGrant }
    return (s, false)

/-- `install_cap`. -/
def installCap (s : Scheduler) (task : Slot) (slot : Nat) (cap : Capability) :
    Except Panic Scheduler :=
  if slot < capSlots then s.modify task fun t => { t with caps := t.caps.install slot cap }
  else .ok s

/-- `mint_reply_cap`. -/
def mintReplyCap (s : Scheduler) (server : Slot) (caller slot : Nat) : Except Panic Scheduler :=
  s.installCap server slot (.reply caller)

/-- `ipc_send`. -/
def ipcSend (s : Scheduler) (frame : TrapFrame) : Except Panic (Scheduler × Flow) := do
  let t ← s.task s.current
  match t.caps.capLookup (frame.regs 9) with
  | none => return (s, .resume (frame.setStatus false))
  | some ep =>
    let (s, delivered) ← s.offer ep frame.message none none
    if delivered then return (s, .resume (frame.setStatus true))
    else return (s, .park (.blocked ep .send) .send)

/-- `ipc_call`. -/
def ipcCall (s : Scheduler) (frame : TrapFrame) : Except Panic (Scheduler × Flow) := do
  let t ← s.task s.current
  match t.caps.capLookup (frame.regs 9) with
  | none => return (s, .resume (frame.setStatus false))
  | some ep =>
    let (s, delivered) ← s.offer ep frame.message (some s.current) none
    if delivered then return (s, .park .awaitingReply .call)
    else return (s, .park (.blocked ep .call) .call)

/-- `ipc_grant`. -/
def ipcGrant (s : Scheduler) (frame : TrapFrame) : Except Panic (Scheduler × Flow) := do
  let t ← s.task s.current
  match t.caps.capLookup (frame.regs 9), t.caps.capAt (frame.regs 10) with
  | some ep, some cap =>
    let (s, delivered) ← s.offer ep ⟨frame.regs 11, 0, 0, 0⟩ none (some cap)
    if delivered then return (s, .resume (frame.setStatus true))
    else return (s, .park (.blocked ep .send) .send)
  | _, _ => return (s, .resume (frame.setStatus false))

/-- The sender `ipc_recv` picks: a waiting `Send` first, then a waiting `Call`. -/
def waitingSender (s : Scheduler) (ep : EndpointId) : Option (Slot × Bool) :=
  match s.findBlocked ep .send with
  | some si => some (si, false)
  | none => (s.findBlocked ep .call).map fun si => (si, true)

/-- `ipc_recv` lets the sender it picked go: a caller now waits for the reply, for which
the receiver gets a capability. -/
def releaseSender (s : Scheduler) (si : Slot) (isCall : Bool) (replySlot : Nat) :
    Except Panic Scheduler :=
  if isCall then do
    let s ← s.modify si fun t => { t with state := .awaitingReply }
    s.mintReplyCap s.current si replySlot
  else s.modify si fun t => { t with state := .ready }

/-- `mint_reply_cap` for a stashed caller, if there is one. -/
def mintStashed (s : Scheduler) (server : Slot) (slot : Nat) : Option Nat → Except Panic Scheduler
  | some caller => s.mintReplyCap server caller slot
  | none => .ok s

/-- `install_cap` for a carried capability, if there is one. -/
def installGranted (s : Scheduler) (task : Slot) (slot : Nat) :
    Option Capability → Except Panic Scheduler
  | some cap => s.installCap task slot cap
  | none => .ok s

/-- `ipc_recv`, up to `block_current`. -/
def ipcRecv (s : Scheduler) (frame : TrapFrame) : Except Panic (Scheduler × Flow) := do
  let t ← s.task s.current
  match t.caps.capLookup (frame.regs 9) with
  | none => return (s, .resume (frame.setStatus false))
  | some ep =>
    match s.waitingSender ep with
    | some (si, isCall) =>
      let sender ← s.task si
      let s ← s.modify si fun t => { t with pendingGrant := none }
      let s ← s.releaseSender si isCall (frame.regs 10)
      let s ← s.installGranted s.current (frame.regs 10) sender.pendingGrant
      return (s, .resume (writeMessage frame sender.message))
    | none => return (s, .park (.blocked ep .recv) (.recv ep (frame.regs 10)))

/-- `ipc_recv` after `block_current`: take the stashed caller and the carried grant,
then read the inbox. -/
def resumeRecv (s : Scheduler) (frame : TrapFrame) (replySlot : Nat) :
    Except Panic (Scheduler × TrapFrame) := do
  let t ← s.task s.current
  let s ← s.modify s.current fun t => { t with caller := none }
  let s ← s.mintStashed s.current replySlot t.caller
  let s ← s.modify s.current fun t => { t with pendingGrant := none }
  let s ← s.installGranted s.current replySlot t.pendingGrant
  let t ← s.task s.current
  return (s, writeMessage frame t.message)

/-- `ipc_reply`. -/
def ipcReply (s : Scheduler) (frame : TrapFrame) : Except Panic (Scheduler × Flow) := do
  let t ← s.task s.current
  match t.caps.replyCaller (frame.regs 9) with
  | none => return (s, .resume (frame.setStatus false))
  | some caller =>
    let s ← s.modify s.current fun t => { t with caps := t.caps.clear (frame.regs 9) }
    let caller ← slotOf caller
    if (s.tasks caller).any (·.state == .awaitingReply) then
      let s ← s.modify caller fun t => { t with message := frame.message, state := .ready }
      return (s, .resume (frame.setStatus true))
    else return (s, .resume (frame.setStatus false))

/-- `revoke_endpoint`: sweep every capability table but that of `except`. -/
def revokeEndpoint (s : Scheduler) (ep : EndpointId) (keep : Slot) : Scheduler × Nat :=
  ({ s with tasks := fun i =>
      if i = keep then s.tasks i
      else (s.tasks i).map fun t => { t with caps := (t.caps.revokeInCaps ep).1 } },
    ((List.finRange maxTasks).map fun i =>
      if i = keep then 0
      else ((s.tasks i).map fun t => (t.caps.revokeInCaps ep).2).getD 0).sum)

theorem revokeEndpoint_tasks (s : Scheduler) (ep : EndpointId) (keep i : Slot) :
    (s.revokeEndpoint ep keep).1.tasks i =
      if i = keep then s.tasks i
      else (s.tasks i).map fun t => { t with caps := (t.caps.revokeInCaps ep).1 } := rfl

theorem revokeEndpoint_current (s : Scheduler) (ep : EndpointId) (keep : Slot) :
    (s.revokeEndpoint ep keep).1.current = s.current := rfl

/-- `ipc_revoke`. -/
def ipcRevoke (s : Scheduler) (frame : TrapFrame) : Except Panic (Scheduler × Flow) := do
  let t ← s.task s.current
  match t.caps.capLookup (frame.regs 9) with
  | none => return (s, .resume (frame.setStatus false))
  | some ep =>
    let (s, n) := s.revokeEndpoint ep s.current
    return (s, .resume (frame.setReg 9 n))

/-- `restart`. The forged context is written even when the target is running; the next
switch away from it overwrites it again. -/
def restart (s : Scheduler) (tramp sstatus : Nat) (frame : TrapFrame) :
    Except Panic (Scheduler × Flow) := do
  let t ← s.task s.current
  match t.caps.restartTarget (frame.regs 9) with
  | none => return (s, .resume (frame.setStatus false))
  | some target =>
    let target ← slotOf target
    let p ← s.task target
    if !canRestart p.restarts maxRestarts then
      return (s, .resume (frame.setStatus false))
    else match p.relaunch with
      | none => .error (.expect "restart target must be a restartable U-mode component")
      | some relaunch =>
        let generation := p.restarts + 1
        let s ← s.modify target fun p =>
          { p with
            context := forgeUserContext tramp relaunch.entry relaunch.userSp p.stackTop
              (userSstatus sstatus) generation
            restarts := generation
            state := .ready }
        return (s, .relaunch target (frame.setStatus true))

/-- `wait_irq`, up to `park_current`. -/
def waitIrq (s : Scheduler) (frame : TrapFrame) : Except Panic (Scheduler × Flow) := do
  let t ← s.task s.current
  match t.caps.interruptIrq (frame.regs 9) with
  | none => return (s, .resume (frame.setStatus false))
  | some irq => return (s, .park (.waitingIrq irq) .irq)

/-- The first critical section of `recv_message`, and where it leaves the kernel task. -/
def recvMessage (s : Scheduler) (capIdx : Nat) : Except Panic (Scheduler × KernelPc) := do
  let t ← s.task s.current
  match t.caps.capLookup capIdx with
  | none => .error (.expect "recv_message: caller lacks the endpoint capability")
  | some ep =>
    match s.findBlocked ep .send with
    | some si =>
      let sender ← s.task si
      let s ← s.modify si fun t => { t with state := .ready }
      return (s, .body (some (.message sender.message)))
    | none => return (s, .recvPark ep)

/-- The first critical section of `call_message`. -/
def callMessage (s : Scheduler) (capIdx badge : Nat) : Except Panic (Scheduler × KernelPc) := do
  let t ← s.task s.current
  match t.caps.capLookup capIdx with
  | none => .error (.expect "call_message: caller lacks the endpoint capability")
  | some ep =>
    let (s, delivered) ← s.offer ep ⟨badge, 0, 0, 0⟩ (some s.current) none
    return (s, if delivered then .callPark else .callQueue ep)

end Scheduler

end Perenne

import Perenne.Cap
import Perenne.TrapFrame
import Mathlib.Data.Fintype.Basic

namespace Perenne

/-- The callee-saved registers of a parked task. -/
structure Context where
  ra : Nat
  sp : Nat
  s : Fin 12 → Nat
deriving DecidableEq

instance (priority := 2000) neZero_savedRegs : NeZero 12 := ⟨by decide⟩

def Context.zeroed : Context := ⟨0, 0, fun _ => 0⟩

/-- The side of a rendezvous a blocked task waits on. -/
inductive IpcRole where
  | send
  | recv
  | call
deriving DecidableEq, Repr

inductive TaskState where
  | ready
  | running
  | exited
  | blocked (endpoint : EndpointId) (role : IpcRole)
  | awaitingReply
  | waitingIrq (irq : Nat)
deriving DecidableEq, Repr

/-- A register-only message: a badge and three data words. -/
structure Message where
  badge : Nat
  data : Nat × Nat × Nat
deriving DecidableEq, Repr

/-- `Message::EMPTY`. -/
def Message.empty : Message := ⟨0, 0, 0, 0⟩

/-- What a relaunch from scratch needs. -/
structure Relaunch where
  entry : Nat
  userSp : Nat
deriving DecidableEq, Repr

/-- `can_restart`. -/
def canRestart (restarts bound : Nat) : Bool := restarts < bound

inductive ExitReason where
  | exited (code : Nat)
  | killed (cause : Cause)
deriving DecidableEq, Repr

/-- `x & !0xF`: round a stack pointer down to 16 bytes. -/
def align16 (x : Nat) : Nat := x / 16 * 16

/-- `user_sstatus`: clear SPP (bit 8), set SPIE (bit 5). -/
def userSstatus (current : Nat) : Nat := (current &&& (usizeMax - 2 ^ 8)) ||| 2 ^ 5

/-- `forge_user_context`: the first-run context of a U-mode task. -/
def forgeUserContext (tramp entry userSp kstackTop sstatus generation : Nat) : Context where
  ra := tramp
  sp := align16 kstackTop
  s := fun i =>
    if i = 0 then entry
    else if i = 1 then align16 userSp
    else if i = 2 then sstatus
    else if i = 3 then generation
    else 0

/-- The task record. The task's `name`, which only the log lines read, is kept so that
a configuration can be compared with `kmain`. -/
structure Task where
  context : Context
  state : TaskState
  stackTop : Nat
  name : String
  satp : Nat
  caps : Caps
  message : Message
  relaunch : Option Relaunch
  restarts : Nat
  crashBadge : Nat
  caller : Option Nat
  pendingGrant : Option Capability

/-- A task `spawn_user` registered: it runs in U-mode and can be relaunched. -/
def Task.isUser (t : Task) : Bool := t.relaunch.isSome

end Perenne

import Perenne.Ipc

namespace Perenne

inductive Syscall where
  | print
  | exit
  | yield
  | send
  | recv
  | restart
  | call
  | reply
  | getrandom
  | waitIrq
  | grant
  | revoke
  | seal
  | open
  | unknown (n : Nat)
deriving DecidableEq, Repr

/-- `decode_syscall`. -/
def decodeSyscall (a7 : Nat) : Syscall :=
  match a7 with
  | 1 => .print
  | 2 => .exit
  | 3 => .yield
  | 4 => .send
  | 5 => .recv
  | 6 => .restart
  | 7 => .call
  | 8 => .reply
  | 9 => .getrandom
  | 10 => .waitIrq
  | 11 => .grant
  | 12 => .revoke
  | 13 => .seal
  | 14 => .open
  | n => .unknown n

/-- `validate_user_buffer`: `[ptr, ptr + len)` lies in `[lo, hi)` without wrapping. -/
def validateUserBuffer (lo hi ptr len : Nat) : Bool :=
  ptr + len < 2 ^ 64 && lo ≤ ptr && ptr + len ≤ hi

/-- `PRINT_MAX`. -/
def printMax : Nat := 256

/-- The permission bits of a mapped page. -/
structure PageFlags where
  r : Bool
  w : Bool
  x : Bool
  u : Bool
deriving DecidableEq, Repr

/-- What the code is linked and mapped with: the addresses it takes of its own symbols,
the `.user_data` bounds, the page each address space maps at an address, and the 16-bit
parcel an instruction fetch sees. -/
structure Platform where
  userTrampoline : Nat
  taskTrampoline : Nat
  kernelSatp : Nat
  userDataLo : Nat
  userDataHi : Nat
  page : (satp va : Nat) → Option PageFlags
  parcel : Nat → Nat

/-- Whether an S-mode load at `va` succeeds: a U page needs the `SUM` window. -/
def Platform.loads (p : Platform) (satp : Nat) (sum : Bool) (va : Nat) : Bool :=
  (p.page satp va).any fun f => f.r && (!f.u || sum)

/-- What the hart and the code outside this development supply to one step: the live
callee-saved registers a switch saves, the `sstatus` CSR, the interrupt `plic::claim`
returns, and the results of the entropy pool and of the two AEAD operations. -/
structure Input where
  live : Context
  sstatus : Nat
  irq : Nat
  seed : Nat × Nat × Nat × Nat
  sealed : Nat × Nat × Nat × Nat
  opened : Option Nat

/-- `sys_print`. A byte the current address space does not let the kernel read raises a
page fault in S-mode, which the trap handler does not survive. -/
def sysPrint (p : Platform) (satp ptr len : Nat) : Except Panic Nat :=
  if !validateUserBuffer p.userDataLo p.userDataHi ptr len then .ok usizeMax
  else
    let n := min len printMax
    if (List.range n).all fun i => p.loads satp true (ptr + i) then .ok n
    else .error (.fatal "load page fault")

/-- The four words `getrandom` and `seal` return in `a1`..`a4`, after `a0 = 0`. -/
def TrapFrame.setWords (frame : TrapFrame) (w : Nat × Nat × Nat × Nat) : TrapFrame :=
  ((((frame.setReg 9 0).setReg 10 w.1).setReg 11 w.2.1).setReg 12 w.2.2.1).setReg 13 w.2.2.2

/-- `getrandom`; `POOL.with` is not to be entered while `pqc_consumer` is inside it. -/
def getrandom (t : Task) (poolInUse : Bool) (seed : Nat × Nat × Nat × Nat) (frame : TrapFrame) :
    Except Panic TrapFrame :=
  if t.caps.hasRandomness (frame.regs 9) then
    if poolInUse then .error (.assert "re-entrant access to single-hart cell")
    else .ok (frame.setWords seed)
  else .ok (frame.setStatus false)

/-- `seal`; the session capability is looked up in slot 0. -/
def sealWord (t : Task) (sealed : Nat × Nat × Nat × Nat) (frame : TrapFrame) : TrapFrame :=
  if t.caps.hasSession 0 then frame.setWords sealed else frame.setStatus false

/-- `open`. -/
def openWord (t : Task) (opened : Option Nat) (frame : TrapFrame) : TrapFrame :=
  if t.caps.hasSession 0 then
    match opened with
    | some plain => (frame.setReg 9 0).setReg 10 plain
    | none => frame.setStatus false
  else frame.setStatus false

/-- `dispatch`. -/
def dispatch (p : Platform) (s : Scheduler) (poolInUse : Bool) (input : Input)
    (frame : TrapFrame) : Except Panic (Scheduler × Flow) :=
  match decodeSyscall (frame.regs 16) with
  | .print => do
    let t ← s.task s.current
    let written ← sysPrint p t.satp (frame.regs 9) (frame.regs 10)
    return (s, .resume (frame.setReg 9 written))
  | .exit => .ok (s, .exit (frame.regs 9))
  | .yield => .ok (s, .yield)
  | .send => s.ipcSend frame
  | .recv => s.ipcRecv frame
  | .restart => s.restart p.userTrampoline input.sstatus frame
  | .call => s.ipcCall frame
  | .reply => s.ipcReply frame
  | .getrandom => do
    let t ← s.task s.current
    let frame ← getrandom t poolInUse input.seed frame
    return (s, .resume frame)
  | .waitIrq => s.waitIrq frame
  | .grant => s.ipcGrant frame
  | .revoke => s.ipcRevoke frame
  | .seal => do
    let t ← s.task s.current
    return (s, .resume (sealWord t input.sealed frame))
  | .open => do
    let t ← s.task s.current
    return (s, .resume (openWord t input.opened frame))
  | .unknown _ => .ok (s, .resume (frame.setStatus false))

end Perenne

import Mathlib.Data.Nat.Bitwise

namespace Perenne

/-- The ways the modelled code stops the kernel. -/
inductive Panic where
  | unwrapNone
  | indexOutOfBounds
  | expect (text : String)
  | assert (text : String)
  | assertNe (text : String)
  | overflow
  | fatal (kind : String)
deriving DecidableEq, Repr

/-- `TrapFrame`: `regs n` holds `x(n+1)`, so `a0` is `regs 9` and `a7` is `regs 16`. -/
structure TrapFrame where
  regs : Fin 31 → Nat
  sepc : Nat
  sstatus : Nat
  scause : Nat
  stval : Nat

instance (priority := 2000) neZero_regs : NeZero 31 := ⟨by decide⟩

namespace TrapFrame

/-- The all-zero frame of a kernel stack nothing has trapped onto yet. -/
def zeroed : TrapFrame := ⟨fun _ => 0, 0, 0, 0, 0⟩

/-- `frame.regs[n] = v`. -/
def setReg (frame : TrapFrame) (n : Fin 31) (v : Nat) : TrapFrame :=
  { frame with regs := Function.update frame.regs n v }

/-- `from_user`: `sstatus.SPP` (bit 8) is clear when the trap came from U-mode. -/
def fromUser (frame : TrapFrame) : Bool := !frame.sstatus.testBit 8

@[simp] theorem setReg_regs_self (frame : TrapFrame) (n : Fin 31) (v : Nat) :
    (frame.setReg n v).regs n = v := by simp [setReg]

@[simp] theorem setReg_regs_ne (frame : TrapFrame) {n k : Fin 31} (h : k ≠ n) (v : Nat) :
    (frame.setReg n v).regs k = frame.regs k := by simp [setReg, h]

end TrapFrame

/-- `usize::MAX`, the error value of the system-call ABI. -/
def usizeMax : Nat := 2 ^ 64 - 1

/-- Decoded `scause`. -/
inductive Cause where
  | breakpoint
  | supervisorTimer
  | illegalInstruction
  | instructionPageFault
  | loadPageFault
  | storePageFault
  | userEcall
  | supervisorExternal
  | unknown (interrupt : Bool) (code : Nat)
deriving DecidableEq, Repr

/-- `INTERRUPT_BIT`: the top bit of `scause`. -/
def interruptBit : Nat := 2 ^ 63

/-- `decode`: the interrupt bit and the code without it select the cause. -/
def decode (scause : Nat) : Cause :=
  let interrupt := scause &&& interruptBit != 0
  let code := scause &&& (interruptBit - 1)
  match interrupt, code with
  | false, 2 => .illegalInstruction
  | false, 3 => .breakpoint
  | true, 5 => .supervisorTimer
  | true, 9 => .supervisorExternal
  | false, 12 => .instructionPageFault
  | false, 13 => .loadPageFault
  | false, 15 => .storePageFault
  | false, 8 => .userEcall
  | interrupt, code => .unknown interrupt code

/-- `instruction_len`: an encoding whose two low bits are `11` is four bytes long. -/
def instructionLen (parcel : Nat) : Nat := if parcel &&& 3 = 3 then 4 else 2

example : decode 8 = .userEcall := by decide

example : decode (interruptBit + 13) = .unknown true 13 := by decide

end Perenne

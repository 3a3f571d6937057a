import Perenne.Static

namespace Perenne

/-- One page of user text, one page of user data per address space, and kernel text. -/
def Platform.sample : Platform where
  userTrampoline := 0x80200100
  taskTrampoline := 0x80200200
  kernelSatp := 0
  userDataLo := 0x80600000
  userDataHi := 0x8061B000
  page := fun satp va =>
    if va / 4096 = 0x80400 then some ⟨true, false, true, true⟩
    else if va / 4096 = 0x80600 + satp then some ⟨true, true, false, true⟩
    else if va / 4096 = 0x80200 then some ⟨true, false, true, false⟩
    else none
  parcel := fun _ => 3

def Input.zero : Input := ⟨.zeroed, 0, 0, (0, 0, 0, 0), (0, 0, 0, 0), none⟩

/-- A trap from U-mode with this cause. -/
def TrapFrame.fromU (scause : Nat) : TrapFrame := ⟨fun _ => 0, 0x80400000, 0, scause, 0⟩

/-- An `ecall` with `a7` and the arguments `a0`, `a1`, ... -/
def TrapFrame.ecall (a7 : Nat) (args : List Nat) : TrapFrame :=
  { TrapFrame.fromU 8 with
    regs := fun n => if n = 16 then a7 else if 9 ≤ n.val then args.getD (n.val - 9) 0 else 0 }

namespace Label

def of (ev : Event) : Label := ⟨ev, .zero⟩

def ecall (a7 : Nat) (args : List Nat) : Label := of (.trap (.ecall a7 args))

/-- The timer interrupts a kernel task. -/
def tick : Label := of (.trap { TrapFrame.fromU (interruptBit + 5) with sstatus := 2 ^ 8 })

/-- The timer interrupts a U-mode task. -/
def tickUser : Label := of (.trap (.fromU (interruptBit + 5)))

def resume : Label := of .resume

end Label

/-- A U-mode task for each table of initial capabilities, then the idle task. -/
def BootOp.tasks (caps : List (List (Nat × Capability))) : List BootOp :=
  (caps.zipIdx.flatMap fun (table, slot) =>
    .spawnUser "task" 0x80400000 (0x80601000 + slot * 4096) 0x80300000 slot 0 ::
      table.map fun (k, cap) => .grantCap slot k cap) ++
  [.spawn "idle" 0x80200300 0x80310000]

/-- The machine after booting these tasks and running these labels. -/
def runFrom (ops : List BootOp) (ls : List Label) : Option Machine :=
  (boot .sample .empty ops).toOption.bind fun m => Transition.run (Machine.step .sample) m ls

theorem runFrom_eq_some {ops : List BootOp} {ls : List Label} {m : Machine}
    (h : runFrom ops ls = some m) :
    ∃ m₀, boot .sample .empty ops = .ok m₀ ∧
      Transition.run (Machine.step .sample) m₀ ls = some m := by
  obtain ⟨m₀, hm₀, hrun⟩ := Option.bind_eq_some_iff.mp h
  exact ⟨m₀, Except.toOption_eq_some_iff.mp hm₀, hrun⟩

end Perenne

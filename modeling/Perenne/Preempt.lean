import Perenne.Asm
import Perenne.Task

namespace Perenne.Preempt

open Riscv Asm

/-- The registers that a call gives back as they were. -/
def calleeSaved : List Reg := contextRegs.tail.map Prod.fst

/-- Where the tasks' `Context`s and kernel stacks lie, and what each was spawned with. -/
structure Layout (ι : Type*) where
  context : ι → Word
  stack : ι → Set Word
  user : ι → Bool
  satp : ι → Word
  forged : ι → Context
  /-- The address of `call task_has_returned`. -/
  link : Word

/-- A `Context` in memory. -/
structure Stored (m : Word → Word) (a : Word) (ctx : Context) : Prop where
  ra : m (a + 0#64) = BitVec.ofNat 64 ctx.ra
  sp : m (a + 8#64) = BitVec.ofNat 64 ctx.sp
  s (n : Fin 12) : m (a + BitVec.ofNat 64 (16 + 8 * n)) = BitVec.ofNat 64 (ctx.s n)

/-- A trap, with the core that was interrupted. -/
structure Trap where
  core : Core
  scause : Word
  stval : Word

namespace Trap

def taken (t : Trap) : Core := t.core.takeTrap t.scause t.stval

/-- The core at `call trap_handler`. -/
def entry (t : Trap) : Core := run none trapEntry t.taken

/-- The address of the `TrapFrame`. -/
def base (t : Trap) : Word := frameBase t.taken

def timer (t : Trap) : Prop := decode t.scause.toNat = .supervisorTimer

theorem entered (t : Trap) : Entered t.taken t.entry := trapEntry_entered t.taken

end Trap

/-- What a task is doing. A list of calls holds, for each call of `switch_context` that the
handler has made, the core at the call and the core that came back, and for each `Context` that it
has forged, the core before and after. -/
inductive Status where
  /-- Spawned or restarted, with this `Context`. -/
  | fresh (ctx : Context)
  | outside
  | handling (t : Trap) (calls : List (Core × Core))
  | parked (t : Trap) (calls : List (Core × Core)) (call : Core)
  /-- A kernel task inside its own `yield_now`. -/
  | yielded (call : Core)

def Status.trap : Status → Option Trap
  | .handling t _ => some t
  | .parked t _ _ => some t
  | _ => none

structure State (ι : Type*) where
  core : Core
  current : ι
  status : ι → Status

variable {ι : Type*}

namespace Layout

variable (L : Layout ι)

/-- The stack pointer that a task starts with; for a U-mode task the top of its trap stack. -/
def top (i : ι) : Word := BitVec.ofNat 64 (L.forged i).sp

/-- The doublewords of a `Context`. -/
def contextArea (i : ι) : Set Word := {a | ∃ p ∈ contextRegs, a = L.context i + BitVec.ofNat 64 p.2}

/-- What kernel code on behalf of a task never writes, `switch_context` apart. -/
def foreign (i : ι) : Set Word := {a | (∃ j, j ≠ i ∧ a ∈ L.stack j) ∨ ∃ j, a ∈ L.contextArea j}

def kernel : Set Word := {a | (∃ j, a ∈ L.stack j) ∨ ∃ j, a ∈ L.contextArea j}

/-- A `Context` for the task to start with, on its own trap stack. -/
structure Fits (i : ι) (ctx : Context) : Prop where
  sp : ctx.sp = (L.forged i).sp
  spp (h : L.user i = true) : (BitVec.ofNat 64 (ctx.s 2)).getLsbD 8 = false

/-- Stacks and contexts are apart, and a U-mode task has a trap stack with room for a frame. -/
structure Sound : Prop where
  stack_ne {i j : ι} (h : i ≠ j) : Disjoint (L.stack i) (L.stack j)
  context_ne {i j : ι} (h : i ≠ j) : Disjoint (L.contextArea i) (L.contextArea j)
  stack_context (i j : ι) : Disjoint (L.stack i) (L.contextArea j)
  top_ne_zero {i : ι} (h : L.user i = true) : L.top i ≠ 0
  room {i : ι} (h : L.user i = true) {o : Nat} (ho : o ∈ frameOffsets) :
    L.top i - 288#64 + BitVec.ofNat 64 o ∈ L.stack i
  fits (i : ι) : L.Fits i (L.forged i)

/-- The code of a task outside of a trap. Only kernel code can reach `sstatus`, and only its own
kernel stack. -/
structure Works (i : ι) (c c' : Core) : Prop where
  user : c'.user = c.user
  sscratch : c'.csrs .sscratch = c.csrs .sscratch
  satp : c'.csrs .satp = c.csrs .satp
  sstatus (h : L.user i = true) : c'.csrs .sstatus = c.csrs .sstatus
  kernel (h : L.user i = true) {a : Word} (ha : a ∈ L.kernel) : c'.mem a = c.mem a
  foreign {a : Word} (ha : a ∈ L.foreign i) : c'.mem a = c.mem a

/-- A stretch of the handler between its entry, its calls of `switch_context`, the stores of `restart`
and its return. It never turns interrupts on. -/
structure Within (i : ι) (c c' : Core) : Prop where
  user : c'.user = c.user
  sscratch : c'.csrs .sscratch = c.csrs .sscratch
  satp : c'.csrs .satp = c.csrs .satp
  masked (h : (c.csrs .sstatus).getLsbD 1 = false) : (c'.csrs .sstatus).getLsbD 1 = false
  foreign {a : Word} (ha : a ∈ L.foreign i) : c'.mem a = c.mem a

/-- What a caller of `switch_context` relies on. -/
structure GivenBack (i : ι) (c c' : Core) : Prop where
  reg {r : Reg} (hr : r ∈ calleeSaved) : c'.get r = c.get r
  pc : c'.pc = c.get ra
  stack {a : Word} (ha : a ∈ L.stack i) : c'.mem a = c.mem a

/-- The stores of `restart`: the `Context` of task `j` and nothing else. -/
structure Forged (j : ι) (ctx : Context) (c c' : Core) : Prop where
  core : c' = { c with mem := c'.mem }
  stored : Stored c'.mem (L.context j) ctx
  kept {a : Word} (ha : a ∉ L.contextArea j) : c'.mem a = c.mem a

/-- What the handler relies on where it goes on. -/
def Back (i : ι) (p : Core × Core) : Prop :=
  L.GivenBack i p.1 p.2 ∨ ∃ j ctx, L.Forged j ctx p.1 p.2

end Layout

/-- The core that a stretch of the handler starts from. -/
def last (e : Core) (calls : List (Core × Core)) : Core := (calls.getLast?.map Prod.snd).getD e

/-- The compiled `trap_handler` and what it calls. `calls i e h c`: entered at `e` for task `i`,
and after the calls `h`, it comes to a call of `switch_context` at `c`. `restarts` likewise for the
stores with which `restart` forges the `Context` of a task, and `returns` for its return. The laws
are the calling convention, that nothing but the frame and the own stack is written on kernel
stacks, that interrupts stay off, and that the frame's `sstatus`, and in a timer trap all of the
frame, is only read. -/
structure Handler (L : Layout ι) where
  calls : ι → Core → List (Core × Core) → Core → Prop
  restarts : ι → Core → List (Core × Core) → ι → Context → Core → Prop
  returns : ι → Core → List (Core × Core) → Core → Prop
  calls_within {i : ι} {e c : Core} {h : List (Core × Core)} (hc : calls i e h c) :
    L.Within i (last e h) c
  restarts_within {i j : ι} {ctx : Context} {e c : Core} {h : List (Core × Core)}
    (hc : restarts i e h j ctx c) : L.Within i (last e h) c
  restarts_fits {i j : ι} {ctx : Context} {e c : Core} {h : List (Core × Core)}
    (hc : restarts i e h j ctx c) : L.Fits j ctx
  returns_within {i : ι} {e c : Core} {h : List (Core × Core)} (hc : returns i e h c) :
    L.Within i (last e h) c
  saved {i : ι} {e c : Core} {h : List (Core × Core)} (hc : returns i e h c)
    (hh : ∀ p ∈ h, L.Back i p) {r : Reg} (hr : r ∈ calleeSaved) : c.get r = e.get r
  sstatus {i : ι} {e c : Core} {h : List (Core × Core)} (hc : returns i e h c)
    (hh : ∀ p ∈ h, L.Back i p) : c.mem (e.get sp + 256#64) = e.mem (e.get sp + 256#64)
  timer {i : ι} {e c : Core} {h : List (Core × Core)} (hc : returns i e h c)
    (hh : ∀ p ∈ h, L.Back i p)
    (ht : decode (e.mem (e.get sp + 264#64)).toNat = .supervisorTimer) {o : Nat}
    (ho : o ∈ frameOffsets) :
    c.mem (e.get sp + BitVec.ofNat 64 o) = e.mem (e.get sp + BitVec.ofNat 64 o)

/-- `satp_write(next_satp)` and the arguments of `switch_context(old, new)`. -/
def callSwitch (L : Layout ι) (old : Word) (j : ι) (c : Core) : Core :=
  ((c.setCsr .satp (L.satp j)).set a0 old).set a1 (L.context j)

def switchTo (L : Layout ι) (old : Word) (j : ι) (c : Core) : Core :=
  execAll switchContext (callSwitch L old j c)

def arrive (L : Layout ι) (j : ι) (c : Core) : Core :=
  if L.user j then execAll userTrampoline c else execAll (taskTrampoline L.link) c

/-- How a task goes on when `switch_context` has loaded its `Context`. -/
def resume (L : Layout ι) (j : ι) (c : Core) : Status → Option (Core × Status)
  | .fresh _ => some (arrive L j c, .outside)
  | .parked t calls call => some (c, .handling t (calls ++ [(call, c)]))
  | .yielded _ => some (c, .outside)
  | .outside => none
  | .handling _ _ => none

inductive Label (ι : Type*) where
  | work
  | trap (scause stval : Word)
  | switch
  | restart (j : ι)
  | yield
  | exit
  /-- An interrupt inside the handler. -/
  | nested
  /-- A switch that a kernel task makes with interrupts on. -/
  | unmasked

section

variable [DecidableEq ι] (L : Layout ι) (H : Handler L)

/-- One step of the hart. Of an interrupt inside the handler, and of what comes after a kernel task
has switched with interrupts on, nothing is said. -/
inductive Step (s : State ι) : Label ι → State ι → Prop
  | work {c : Core} (hs : s.status s.current = .outside) (hc : L.Works s.current s.core c) :
    Step s .work { s with core := c }
  /-- A kernel stack has room for the frame. -/
  | trap {scause stval : Word} (hs : s.status s.current = .outside)
    (hroom : L.user s.current = false → ∀ o ∈ frameOffsets,
      Trap.base ⟨s.core, scause, stval⟩ + BitVec.ofNat 64 o ∈ L.stack s.current) :
    Step s (.trap scause stval) { s with
      core := Trap.entry ⟨s.core, scause, stval⟩
      status := Function.update s.status s.current (.handling ⟨s.core, scause, stval⟩ []) }
  | switch {t : Trap} {calls : List (Core × Core)} {c core : Core} {j : ι} {st : Status}
    (hs : s.status s.current = .handling t calls) (hc : H.calls s.current t.entry calls c)
    (hj : j ≠ s.current)
    (hst : resume L j (switchTo L (L.context s.current) j c) (s.status j) = some (core, st)) :
    Step s .switch ⟨core, j,
      Function.update (Function.update s.status s.current (.parked t calls c)) j st⟩
  | restart {t : Trap} {calls : List (Core × Core)} {c c' : Core} {j : ι} {ctx : Context}
    (hs : s.status s.current = .handling t calls) (hc : H.restarts s.current t.entry calls j ctx c)
    (hj : j ≠ s.current) (hc' : L.Forged j ctx c c') :
    Step s (.restart j) { s with
      core := c'
      status := Function.update (Function.update s.status s.current
        (.handling t (calls ++ [(c, c')]))) j (.fresh ctx) }
  | yield {c core : Core} {j : ι} {st : Status} (hs : s.status s.current = .outside)
    (huser : L.user s.current = false) (hc : L.Works s.current s.core c)
    (hmasked : (c.csrs .sstatus).getLsbD 1 = false) (hj : j ≠ s.current)
    (hst : resume L j (switchTo L (L.context s.current) j c) (s.status j) = some (core, st)) :
    Step s .yield ⟨core, j,
      Function.update (Function.update s.status s.current (.yielded c)) j st⟩
  | exit {t : Trap} {calls : List (Core × Core)} {c : Core}
    (hs : s.status s.current = .handling t calls) (hc : H.returns s.current t.entry calls c) :
    Step s .exit { s with
      core := run none trapExit c
      status := Function.update s.status s.current .outside }
  | nested {t : Trap} {calls : List (Core × Core)} {s' : State ι}
    (hs : s.status s.current = .handling t calls)
    (hsie : (s.core.csrs .sstatus).getLsbD 1 = true) : Step s .nested s'
  | unmasked {c : Core} {s' : State ι} (hs : s.status s.current = .outside)
    (huser : L.user s.current = false) (hc : L.Works s.current s.core c)
    (hsie : (c.csrs .sstatus).getLsbD 1 = true) : Step s .unmasked s'

/-- `enter()`: the switch into the first task, from a kernel core that has the forged contexts in
memory, with a throwaway `Context` elsewhere. -/
def Start (s : State ι) : Prop :=
  ∃ (c : Core) (old : Word), c.user = false ∧ c.csrs .sscratch = 0 ∧
    (∀ j, Stored c.mem (L.context j) (L.forged j)) ∧
    (∀ p ∈ contextRegs, old + BitVec.ofNat 64 p.2 ∉ L.kernel) ∧
    s = ⟨arrive L s.current (switchTo L old s.current c), s.current,
      Function.update (fun j => .fresh (L.forged j)) s.current .outside⟩

end

/-- The context of a U-mode task that has not run since it was spawned or restarted, with the
arguments of `set_launch_args`. -/
def launchContext (tramp entry userSp kstackTop sstatus generation a1 a2 : Nat) : Context :=
  let ctx := forgeUserContext tramp entry userSp kstackTop (userSstatus sstatus) generation
  { ctx with s := Function.update (Function.update ctx.s 4 a1) 5 a2 }

end Perenne.Preempt

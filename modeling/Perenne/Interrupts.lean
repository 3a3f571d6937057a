import Perenne.Scheduler
import Perenne.Syscall
import Perenne.Lib.Transition

/-!
# The interrupt discipline of the scheduler

The hart's `sstatus.SIE` bit and the `in_use` flag of `SCHED`, one instruction at a time.
Each task has left to execute a list of the operations that touch the two; what a critical
section decides is left open, so a run here covers every run of the kernel, and a section
may be interrupted wherever `SIE` is set.
-/

namespace Perenne

/-- The operations that touch `SIE`, the `in_use` flag or the running task. -/
inductive HartOp where
  /-- `sstatus_disable_interrupts`, the first thing `yield_now` does. -/
  | disable
  /-- The assertion and the swap at the start of `SCHED.with`. -/
  | acquire
  /-- The end of `SCHED.with`; the section of `restart` has re-forged a task. -/
  | release (forges : Bool)
  /-- `switch_context`, unless `pick_next` found nobody else. -/
  | maySwitch
  | switch
  /-- `if had_interrupts { sstatus_enable_interrupts() }`. -/
  | restore (had : Bool)
  /-- `csrsi sstatus, 0x2`. -/
  | enable
  /-- `csrw sstatus`, of a value with this `SIE` bit. -/
  | loadStatus (sie : Bool)
  /-- `sret`, from a status with this `SPIE` bit. -/
  | sret (spie : Bool)
  /-- `unreachable!`. -/
  | unreachable
deriving DecidableEq

namespace HartOp

/-- `SCHED.with`. -/
def critical : List HartOp := [.acquire, .release false]

/-- What is left of `yield_now` once interrupts are off. -/
def yieldNow (had : Bool) : List HartOp :=
  [.acquire, .release false, .maySwitch, .restore had]

/-- `park_current`, which leaves `SIE` as it is. -/
def parkCurrent : List HartOp := [.acquire, .release false, .switch]

def exitCurrent : List HartOp := [.acquire, .release false, .switch, .unreachable]

/-- `task_trampoline`, up to the task's entry. -/
def taskTrampoline : List HartOp := [.enable]

/-- `user_trampoline`, with the status forged while `SIE` was `sie`. -/
def userTrampoline (sie : Bool) : List HartOp := [.loadStatus sie, .sret true]

/-- The return path of `__trap_entry`: the saved status has `SIE` off, since the hart
cleared it on the way in. -/
def trapReturn (spie : Bool) : List HartOp := [.loadStatus false, .sret spie]

/-- The part of `trap_handler` a system call runs, down its longer path where there are
two: the call blocks, an endpoint is swept, a refusal is logged. -/
def syscall (long : Bool) : Syscall → List HartOp
  | .exit => exitCurrent
  | .yield => [.disable]
  | .send | .grant | .waitIrq => critical ++ cond long parkCurrent []
  | .recv | .call => critical ++ cond long (parkCurrent ++ critical) []
  | .restart => [.acquire, .release true]
  | .revoke | .seal => critical ++ cond long critical []
  | .reply | .getrandom | .open => critical
  | .print | .unknown _ => []

/-- The part of `trap_handler` an interrupt runs: a tick preempts, and an external
interrupt with a pending source wakes its driver. -/
def interrupt (timer pending : Bool) : List HartOp :=
  cond timer [.disable] (cond pending critical [])

/-- What a kernel task's own code calls. -/
inductive KernelFn where
  | yieldNow
  | recvMessage (blocks : Bool)
  | callMessage
deriving DecidableEq

def kernelFn : KernelFn → List HartOp
  | .yieldNow => [.disable]
  | .recvMessage blocks => critical ++ cond blocks (parkCurrent ++ critical) []
  | .callMessage => critical ++ parkCurrent ++ critical

end HartOp

/-- The hart: what each task has left to execute before it is back in its own code. -/
structure Hart where
  sie : Bool
  inUse : Bool
  panicked : Bool
  current : Slot
  isUser : Slot → Bool
  ops : Slot → List HartOp

/-- What happens next: an interrupt, a trap from U-mode, a call by a kernel task, or the
next operation, which for a switch or a restart chooses a task. -/
inductive HartAct where
  | interrupt (timer pending : Bool)
  | ecall (sys : Syscall) (long : Bool)
  | fault
  | enter (fn : HartOp.KernelFn)
  | run (target : Option Slot)
deriving DecidableEq

/-- The act is a call of `recv_message` or `call_message`. -/
def HartAct.receives : HartAct → Bool
  | .enter (.recvMessage _) | .enter .callMessage => true
  | _ => false

namespace Hart

open HartOp Transition

/-- After `enter` has switched to the first task. -/
def start (isUser : Slot → Bool) : Hart where
  sie := false
  inUse := false
  panicked := false
  current := ⟨0, by decide⟩
  isUser := isUser
  ops := fun i => if isUser i then userTrampoline false else taskTrampoline

/-- The running task goes on with these operations. -/
def proceed (h : Hart) (ops : List HartOp) : Hart :=
  { h with ops := Function.update h.ops h.current ops }

/-- `__trap_entry`: the hart saves `SIE` in `SPIE` and clears it. -/
def trap (h : Hart) (handler : List HartOp) : Hart :=
  { h.proceed (handler ++ trapReturn h.sie ++ h.ops h.current) with sie := false }

/-- The running task is in its own code. -/
def inBody (h : Hart) (user : Bool) : Bool :=
  h.ops h.current == [] && h.isUser h.current == user

/-- The next operation of the running task, with `rest` after it. -/
def exec (h : Hart) (op : HartOp) (rest : List HartOp) (target : Option Slot) : Option Hart :=
  match op with
  | .disable => some { h.proceed (yieldNow h.sie ++ rest) with sie := false }
  | .acquire =>
    if h.inUse then some { h with panicked := true }
    else some { h.proceed rest with inUse := true }
  | .release forges =>
    let h' := { h.proceed rest with inUse := false }
    match forges, target with
    | true, some j =>
      -- A task that restarts itself runs on; its forged context is saved over later.
      if h.isUser j && j != h.current then
        some { h' with ops := Function.update h'.ops j (userTrampoline h.sie) }
      else some h'
    | _, _ => some h'
  | .maySwitch =>
    match target with
    | some j => if j = h.current then none else some { h.proceed rest with current := j }
    | none => some (h.proceed rest)
  | .switch =>
    match target with
    | some j => if j = h.current then none else some { h.proceed rest with current := j }
    | none => none
  | .restore had => some { h.proceed rest with sie := had || h.sie }
  | .enable => some { h.proceed rest with sie := true }
  | .loadStatus sie => some { h.proceed rest with sie }
  | .sret spie => some { h.proceed rest with sie := spie }
  | .unreachable => none

/-- One step of the hart, none once the kernel has panicked. -/
def step (h : Hart) (act : HartAct) : Option Hart :=
  if h.panicked then none
  else match act with
    | .interrupt timer pending => if h.sie then some (h.trap (interrupt timer pending)) else none
    | .ecall sys long => if h.inBody true then some (h.trap (syscall long sys)) else none
    | .fault => if h.inBody true then some (h.trap exitCurrent) else none
    | .enter fn => if h.inBody false then some (h.proceed (kernelFn fn)) else none
    | .run target =>
      match h.ops h.current with
      | [] => none
      | op :: rest => h.exec op rest target

/-- The running task executes a trap handler, or the rest of one it was switched back to. -/
def inTrap (h : Hart) : Bool := (h.ops h.current).any fun op => op == .sret true || op == .sret false

end Hart

/-- The operation leaves interrupts off when they are off. -/
def HartOp.masked : HartOp → Bool
  | .restore had => !had
  | .loadStatus sie => !sie
  | .enable | .sret _ => false
  | _ => true

/-- What a task has left to execute while `SIE` is off: masked operations, up to the one
that sets `SIE` again on the way back to the task's own code. -/
inductive HartOp.Masked : List HartOp → Prop
  | cons {op ops} (hop : op.masked = true) (hops : Masked ops) : Masked (op :: ops)
  | fresh : Masked [.enable]
  | yielded : Masked [.restore true]
  | trapped {ops} (hops : ops = [] ∨ ops = [.disable]) : Masked (.sret true :: ops)

/-- Every section that is still to be entered is left again before anything else. -/
def HartOp.Paired : List HartOp → Prop
  | .acquire :: .release _ :: ops => Paired ops
  | .acquire :: _ | .release _ :: _ => False
  | _ :: ops => Paired ops
  | [] => True

namespace HartOp

theorem Masked.append {ops ops' : List HartOp} (h : ∀ op ∈ ops, op.masked = true)
    (h' : Masked ops') : Masked (ops ++ ops') := by
  induction ops with
  | nil => exact h'
  | cons op ops ih =>
    exact .cons (h op (.head _)) (ih fun op' hop' => h op' (.tail _ hop'))

theorem masked_syscall (long : Bool) (sys : Syscall) :
    ∀ op ∈ syscall long sys, op.masked = true := by
  cases sys <;> cases long <;>
    simp [syscall, exitCurrent, critical, parkCurrent, masked]

theorem Masked.tail {op : HartOp} {ops : List HartOp} (h : Masked (op :: ops))
    (hop : op.masked = true) : Masked ops := by
  cases h with
  | cons _ hops => exact hops
  | fresh => cases hop
  | yielded => cases hop
  | trapped => cases hop

theorem masked_userTrampoline : Masked (userTrampoline false) :=
  .cons rfl (.trapped (.inl rfl))

theorem paired_syscall {ops : List HartOp} (h : Paired ops) (long : Bool) (sys : Syscall) :
    Paired (syscall long sys ++ ops) := by
  cases sys <;> cases long <;> exact h

theorem masked_interrupt (timer pending : Bool) :
    ∀ op ∈ interrupt timer pending, op.masked = true := by
  cases timer <;> cases pending <;> simp [interrupt, critical, masked]

theorem paired_interrupt {ops : List HartOp} (h : Paired ops) (timer pending : Bool) :
    Paired (interrupt timer pending ++ ops) := by
  cases timer <;> cases pending <;> exact h

end HartOp

namespace Hart

open HartOp Transition

/-- What the running task may have left to execute: with interrupts on, nothing but the
start of a `yield_now`; inside a section, the end of it first. -/
def Live (sie inUse : Bool) (ops : List HartOp) : Prop :=
  match sie, inUse with
  | true, false => ops = [] ∨ ops = [.disable]
  | true, true => False
  | false, true => Masked ops ∧ ∃ forges rest, ops = .release forges :: rest ∧ Paired rest
  | false, false => Masked ops ∧ Paired ops

/-- The invariant. Whoever is switched to resumes with interrupts off, wherever it was
switched away from. -/
structure Disciplined (h : Hart) : Prop where
  panicked : h.panicked = false
  running : Live h.sie h.inUse (h.ops h.current)
  parked : ∀ j, j ≠ h.current → Masked (h.ops j) ∧ Paired (h.ops j)

variable {h h' : Hart}

theorem Disciplined.proceed (hd : h.Disciplined) {sie inUse : Bool} {ops : List HartOp}
    (hlive : Live sie inUse ops) : { h.proceed ops with sie, inUse }.Disciplined where
  panicked := hd.panicked
  running := by simpa [Hart.proceed] using hlive
  parked j hj := by
    have hj : j ≠ h.current := hj
    simpa [Hart.proceed, Function.update_of_ne hj] using hd.parked j hj

theorem Disciplined.switch (hd : h.Disciplined) {rest : List HartOp} {j : Slot}
    (hj : j ≠ h.current) (hsie : h.sie = false) (huse : h.inUse = false)
    (hrest : Masked rest ∧ Paired rest) : { h.proceed rest with current := j }.Disciplined where
  panicked := hd.panicked
  running := by
    have := hd.parked j hj
    simpa [Hart.proceed, Function.update_of_ne hj, hsie, huse, Live] using this
  parked i hi := by
    by_cases hcur : i = h.current
    · simpa [Hart.proceed, hcur] using hrest
    · simpa [Hart.proceed, Function.update_of_ne hcur] using hd.parked i hcur

theorem Disciplined.forge (hd : h.Disciplined) {j : Slot} (hj : j ≠ h.current) :
    { h with ops := Function.update h.ops j (userTrampoline false) }.Disciplined where
  panicked := hd.panicked
  running := by simpa [Function.update_of_ne hj.symm] using hd.running
  parked i hi := by
    by_cases hij : i = j
    · subst hij
      simpa using ⟨masked_userTrampoline, trivial⟩
    · simpa [Function.update_of_ne hij] using hd.parked i hi

theorem exec_disciplined (hd : h.Disciplined) {op : HartOp} {rest : List HartOp}
    {target : Option Slot} (hops : h.ops h.current = op :: rest)
    (hexec : h.exec op rest target = some h') : h'.Disciplined := by
  have hlive := hd.running
  rw [hops] at hlive
  cases hsie : h.sie with
  | true =>
    -- With interrupts on, the only operation left is the one that turns them off.
    cases huse : h.inUse with
    | true =>
      rw [hsie, huse] at hlive
      exact hlive.elim
    | false =>
      rw [hsie, huse] at hlive
      obtain hnil | hdis := hlive
      · cases hnil
      · obtain ⟨rfl, rfl⟩ := List.cons.inj hdis
        obtain rfl := Option.some.inj hexec
        have hnext : Live false h.inUse (yieldNow h.sie ++ []) := by
          rw [huse, hsie]
          exact ⟨.cons rfl (.cons rfl (.cons rfl .yielded)), trivial⟩
        exact hd.proceed hnext
  | false =>
    cases huse : h.inUse with
    | true =>
      rw [hsie, huse] at hlive
      obtain ⟨hmask, forges, rest', hrel, hpair⟩ := hlive
      obtain ⟨rfl, rfl⟩ := List.cons.inj hrel
      have hnext : Live h.sie false rest := by
        rw [hsie]
        exact ⟨hmask.tail rfl, hpair⟩
      have hdone := hd.proceed hnext
      simp only [exec] at hexec
      split at hexec
      · split at hexec
        · rename_i j hforge
          obtain ⟨-, hj⟩ : h.isUser j = true ∧ j ≠ h.current := by simpa using hforge
          obtain rfl := Option.some.inj hexec
          rw [hsie]
          exact hdone.forge hj
        · obtain rfl := Option.some.inj hexec
          exact hdone
      · obtain rfl := Option.some.inj hexec
        exact hdone
    | false =>
      rw [hsie, huse] at hlive
      obtain ⟨hmask, hpair⟩ := hlive
      have hkeep (hop : op.masked = true) (hpair : Paired rest) : Live h.sie h.inUse rest := by
        rw [hsie, huse]
        exact ⟨hmask.tail hop, hpair⟩
      cases op with
      | disable =>
        obtain rfl := Option.some.inj hexec
        have hnext : Live false h.inUse (yieldNow h.sie ++ rest) := by
          rw [huse, hsie]
          exact ⟨.append (by simp [yieldNow, masked]) (hmask.tail rfl), hpair⟩
        exact hd.proceed hnext
      | acquire =>
        simp only [exec, huse, Bool.false_eq_true, if_false] at hexec
        obtain rfl := Option.some.inj hexec
        have hnext : Live h.sie true rest := by
          rw [hsie]
          refine ⟨hmask.tail rfl, ?_⟩
          match rest, hpair with
          | .release forges :: rest, hpair => exact ⟨forges, rest, rfl, hpair⟩
        exact hd.proceed hnext
      | release => exact absurd hpair id
      | maySwitch =>
        simp only [exec] at hexec
        split at hexec
        · split at hexec
          · cases hexec
          · obtain rfl := Option.some.inj hexec
            exact hd.switch ‹_› hsie huse ⟨hmask.tail rfl, hpair⟩
        · obtain rfl := Option.some.inj hexec
          exact hd.proceed (hkeep rfl hpair)
      | switch =>
        simp only [exec] at hexec
        split at hexec
        · split at hexec
          · cases hexec
          · obtain rfl := Option.some.inj hexec
            exact hd.switch ‹_› hsie huse ⟨hmask.tail rfl, hpair⟩
        · cases hexec
      | restore had =>
        obtain rfl := Option.some.inj hexec
        have hnext : Live (had || h.sie) h.inUse rest := by
          rw [hsie, huse]
          cases hmask with
          | cons hop hrest =>
            obtain rfl : had = false := by simpa [masked] using hop
            exact ⟨hrest, hpair⟩
          | yielded => exact .inl rfl
        exact hd.proceed hnext
      | enable =>
        obtain rfl := Option.some.inj hexec
        have hnext : Live true h.inUse rest := by
          rw [huse]
          cases hmask with
          | cons hop => cases hop
          | fresh => exact .inl rfl
        exact hd.proceed hnext
      | loadStatus sie =>
        obtain rfl := Option.some.inj hexec
        have hnext : Live sie h.inUse rest := by
          rw [huse]
          cases hmask with
          | cons hop hrest =>
            obtain rfl : sie = false := by simpa [masked] using hop
            exact ⟨hrest, hpair⟩
        exact hd.proceed hnext
      | sret spie =>
        obtain rfl := Option.some.inj hexec
        have hnext : Live spie h.inUse rest := by
          rw [huse]
          cases hmask with
          | cons hop => cases hop
          | trapped hrest => exact hrest
        exact hd.proceed hnext
      | unreachable => cases hexec

theorem trap_disciplined (hd : h.Disciplined) (hsie : h.sie = true) {handler : List HartOp}
    (hmask : ∀ op ∈ handler, op.masked = true)
    (hpair : ∀ ops, Paired ops → Paired (handler ++ ops)) : (h.trap handler).Disciplined := by
  have hlive := hd.running
  rw [hsie] at hlive
  cases huse : h.inUse with
  | true =>
    rw [huse] at hlive
    exact hlive.elim
  | false =>
    rw [huse] at hlive
    have hnext : Live false h.inUse (handler ++ trapReturn h.sie ++ h.ops h.current) := by
      rw [huse, hsie, List.append_assoc]
      refine ⟨.append hmask (.cons rfl (.trapped hlive)), hpair _ ?_⟩
      obtain hops | hops := hlive <;> rw [hops] <;> trivial
    exact hd.proceed hnext

theorem Disciplined.sie_of_body (hd : h.Disciplined) {user : Bool} (hbody : h.inBody user = true) :
    h.sie = true ∧ h.inUse = false ∧ h.ops h.current = [] := by
  obtain ⟨hops, -⟩ : h.ops h.current = [] ∧ _ := by simpa [inBody] using hbody
  have hlive := hd.running
  rw [hops] at hlive
  cases hsie : h.sie <;> cases huse : h.inUse <;> rw [hsie, huse] at hlive
  · cases hlive.1
  · cases hlive.1
  · exact ⟨rfl, rfl, hops⟩
  · exact hlive.elim

theorem step_disciplined (hd : h.Disciplined) {act : HartAct} (hact : act.receives = false)
    (hstep : h.step act = some h') : h'.Disciplined := by
  simp only [step, hd.panicked, Bool.false_eq_true, if_false] at hstep
  cases act with
  | interrupt timer pending =>
    simp only [Option.ite_none_right_eq_some, Option.some.injEq] at hstep
    obtain ⟨hsie, rfl⟩ := hstep
    exact trap_disciplined hd hsie (masked_interrupt timer pending)
      fun ops h => paired_interrupt h timer pending
  | ecall sys long =>
    simp only [Option.ite_none_right_eq_some, Option.some.injEq] at hstep
    obtain ⟨hbody, rfl⟩ := hstep
    exact trap_disciplined hd (hd.sie_of_body hbody).1 (masked_syscall long sys)
      fun ops h => paired_syscall h long sys
  | fault =>
    simp only [Option.ite_none_right_eq_some, Option.some.injEq] at hstep
    obtain ⟨hbody, rfl⟩ := hstep
    exact trap_disciplined hd (hd.sie_of_body hbody).1 (masked_syscall false .exit)
      fun ops h => h
  | enter fn =>
    simp only [Option.ite_none_right_eq_some, Option.some.injEq] at hstep
    obtain ⟨hbody, rfl⟩ := hstep
    obtain ⟨hsie, huse, -⟩ := hd.sie_of_body hbody
    cases fn with
    | yieldNow =>
      have hnext : Live h.sie h.inUse [.disable] := by
        rw [hsie, huse]
        exact .inr rfl
      exact hd.proceed hnext
    | _ => cases hact
  | run target =>
    cases hops : h.ops h.current with
    | nil => simp [hops] at hstep
    | cons op rest =>
      rw [hops] at hstep
      exact exec_disciplined hd hops hstep

theorem start_disciplined (isUser : Slot → Bool) : (start isUser).Disciplined := by
  have hfresh (i : Slot) : Masked ((start isUser).ops i) ∧ Paired ((start isUser).ops i) := by
    change Masked (if isUser i then _ else _) ∧ Paired (if isUser i then _ else _)
    split
    · exact ⟨masked_userTrampoline, trivial⟩
    · exact ⟨.fresh, trivial⟩
  exact ⟨rfl, hfresh _, fun j _ => hfresh j⟩

/-- For every mix of user and kernel tasks and every run in which no kernel task enters
`recv_message` or `call_message`: interrupts are off whenever a section of `SCHED` is in
progress and whenever a trap handler runs, also after it was switched back to, and the
re-entrancy assertion never fails. -/
theorem interrupts_off {isUser : Slot → Bool} {acts : List HartAct}
    (hacts : ∀ act ∈ acts, act.receives = false)
    (hrun : run step (start isUser) acts = some h) :
    h.panicked = false ∧ (h.inUse = true → h.sie = false) ∧ (h.inTrap = true → h.sie = false) := by
  have hd : h.Disciplined := invariant_run
    (fun h act h' hd hact hstep => step_disciplined hd hact.2 hstep) (start_disciplined isUser)
    (stepsMeet_and_of_mem (stepsMeet_true acts) hacts) hrun
  have hlive := hd.running
  refine ⟨hd.panicked, fun huse => ?_, fun htrap => ?_⟩ <;>
    refine Bool.eq_false_iff.mpr fun hsie => ?_ <;> rw [hsie] at hlive
  · rw [huse] at hlive
    exact hlive
  · cases huse : h.inUse with
    | true =>
      rw [huse] at hlive
      exact hlive
    | false =>
      rw [huse] at hlive
      obtain hops | hops := hlive <;> simp [inTrap, hops] at htrap

/-- Task 0 is a kernel task, the others run in U-mode. -/
def firstKernel (i : Slot) : Bool := i != ⟨0, by decide⟩

/-- The next operation of the running task, `n` times. -/
def runs (n : Nat) : List HartAct := List.replicate n (.run none)

/-- The kernel task is preempted; task 1 enters U-mode, makes a call that blocks, and the
kernel task runs again. -/
def preemption : List HartAct :=
  runs 1 ++ [.interrupt true false] ++ runs 3 ++ [.run (some ⟨1, by decide⟩)] ++ runs 2 ++
    [.ecall .call true] ++ runs 4 ++ [.run (some ⟨0, by decide⟩)] ++ runs 3

theorem interrupts_off_preemption : ∃ h, run step (start firstKernel) preemption = some h ∧
    h.sie = true ∧ h.panicked = false ∧ (h.inUse = true → h.sie = false) := by
  have heval : (run step (start firstKernel) preemption).any (fun h => h.sie) = true := by
    decide +kernel
  obtain ⟨h, hrun, hsie⟩ := (Option.any_eq_true _ _).mp heval
  obtain ⟨hpanic, huse, -⟩ := interrupts_off (by decide) hrun
  exact ⟨h, hrun, hsie, hpanic, huse⟩

/-- A kernel task in `recv_message` holds `SCHED` with interrupts on, and a tick then fails
the re-entrancy assertion; and if no tick comes, `park_current` switches back into the trap
handler of task 1 with interrupts still on. -/
theorem interrupts_on_in_section :
    (∃ h, run step (start firstKernel) (runs 1 ++ [.enter (.recvMessage true)] ++ runs 1) = some h ∧
      h.inUse = true ∧ h.sie = true) ∧
    (∃ h, run step (start firstKernel) (runs 1 ++ [.enter (.recvMessage true)] ++ runs 1 ++
      [.interrupt true false] ++ runs 2) = some h ∧ h.panicked = true) ∧
    ∃ h, run step (start firstKernel) (preemption ++ [.enter (.recvMessage true)] ++ runs 4 ++
      [.run (some ⟨1, by decide⟩)]) = some h ∧ h.inTrap = true ∧ h.sie = true := by
  refine ⟨?_, ?_, ?_⟩
  · have heval : (run step (start firstKernel)
        (runs 1 ++ [.enter (.recvMessage true)] ++ runs 1)).any
        (fun h => h.inUse && h.sie) = true := by decide +kernel
    simpa [Option.any_eq_true] using heval
  · have heval : (run step (start firstKernel) (runs 1 ++ [.enter (.recvMessage true)] ++ runs 1 ++
        [.interrupt true false] ++ runs 2)).any (fun h => h.panicked) = true := by decide +kernel
    simpa [Option.any_eq_true] using heval
  · have heval : (run step (start firstKernel) (preemption ++ [.enter (.recvMessage true)] ++
        runs 4 ++ [.run (some ⟨1, by decide⟩)])).any (fun h => h.inTrap && h.sie) = true := by
      decide +kernel
    simpa [Option.any_eq_true] using heval

end Hart

end Perenne

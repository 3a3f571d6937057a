import Perenne.Task
import Perenne.Heal
import Perenne.Lib.Except
import Mathlib.Data.List.FinRange

namespace Perenne

/-- `MAX_TASKS`. -/
abbrev maxTasks : Nat := 27

abbrev Slot := Fin maxTasks

instance (priority := 2000) neZero_maxTasks : NeZero maxTasks := ⟨by decide⟩

/-- `CRASH_EP`: the endpoint the kernel reports contained crashes on. -/
def crashEp : EndpointId := 1

/-- `MAX_RESTARTS`. -/
def maxRestarts : Nat := 2

structure Scheduler where
  tasks : Slot → Option Task
  current : Slot

namespace Scheduler

/-- `Scheduler::new`. -/
def new : Scheduler := ⟨fun _ => none, 0⟩

/-- `s.tasks[i].as_ref().unwrap()`. -/
def task (s : Scheduler) (i : Slot) : Except Panic Task :=
  match s.tasks i with
  | some t => .ok t
  | none => .error .unwrapNone

def set (s : Scheduler) (i : Slot) (t : Task) : Scheduler :=
  { s with tasks := Function.update s.tasks i (some t) }

/-- An assignment through `s.tasks[i].as_mut().unwrap()`. -/
def modify (s : Scheduler) (i : Slot) (f : Task → Task) : Except Panic Scheduler := do
  let t ← s.task i
  return s.set i (f t)

/-- A `usize` used as an index into the task array. -/
def slotOf (n : Nat) : Except Panic Slot :=
  if h : n < maxTasks then .ok ⟨n, h⟩ else .error .indexOutOfBounds

/-- `pick_next`: the first `Ready` slot after `current`, wrapping, or `current`. -/
def pickNext (s : Scheduler) : Slot :=
  (((List.range' 1 (maxTasks - 1)).map fun offset =>
      Fin.ofNat maxTasks (s.current + offset)).find? fun i =>
    (s.tasks i).any (·.state == .ready)).getD s.current

/-- `find_blocked`: the first task blocked on `ep` as `role`. -/
def findBlocked (s : Scheduler) (ep : EndpointId) (role : IpcRole) : Option Slot :=
  (List.finRange maxTasks).find? fun i => (s.tasks i).any (·.state == .blocked ep role)

/-- The end of every switching function: `next` runs, and `switch_context` saves the
live callee-saved registers into the task that was current. -/
def switchTo (s : Scheduler) (live : Context) (next : Slot) : Except Panic Scheduler := do
  let s' ← s.modify next fun t => { t with state := .running }
  { s' with current := next }.modify s.current fun t => { t with context := live }

/-- `yield_now`, between disabling interrupts and restoring them. -/
def yieldNow (s : Scheduler) (live : Context) : Except Panic Scheduler :=
  if s.pickNext = s.current then .ok s
  else do
    let next := s.pickNext
    let s ← s.modify s.current fun t => { t with state := .ready }
    s.switchTo live next

/-- `park_current`. -/
def parkCurrent (s : Scheduler) (live : Context) (state : TaskState) : Except Panic Scheduler := do
  let s ← s.modify s.current fun t => { t with state }
  let next := s.pickNext
  if next = s.current then
    .error (.assertNe "park_current: no runnable successor (idle must be Ready)")
  else s.switchTo live next

/-- The crash notification of `exit_current`: hand the badge to a waiting healer. -/
def notifyCrash (s : Scheduler) (quarantined : Bool) : Except Panic (Scheduler × Option Slot) := do
  let t ← s.task s.current
  if t.relaunch.isSome && !quarantined then
    match s.findBlocked crashEp .recv with
    | some h =>
      let s ← s.modify h fun r => { r with message := ⟨t.crashBadge, 0, 0, 0⟩, state := .ready }
      return (s, some h)
    | none => return (s, none)
  else return (s, none)

/-- The end of `exit_current`: the current task is dead, the preferred one or the next
`Ready` one runs. -/
def abandon (s : Scheduler) (live : Context) (prefer : Option Slot) : Except Panic Scheduler := do
  let s ← s.modify s.current fun t => { t with state := .exited }
  let next := prefer.getD s.pickNext
  if next = s.current then
    .error (.assertNe "exit_current: no runnable successor (idle must be Ready)")
  else s.switchTo live next

/-- `exit_current`. -/
def exitCurrent (s : Scheduler) (heal : Heal) (live : Context) :
    ExitReason → Except Panic (Scheduler × Heal)
  | .exited _ => do
    let s ← s.abandon live none
    return (s, heal)
  | .killed cause => do
    let (heal, quarantined) := heal.onCrash cause
    let (s, prefer) ← s.notifyCrash quarantined
    let s ← s.abandon live prefer
    return (s, heal)

/-- `wake_irq`: ready the first task waiting for `irq`. -/
def wakeIrq (s : Scheduler) (irq : Nat) : Except Panic Scheduler :=
  match (List.finRange maxTasks).find? fun i => (s.tasks i).any (·.state == .waitingIrq irq) with
  | some pos => s.modify pos fun t => { t with state := .ready }
  | none => .ok s

@[simp] theorem set_tasks_self (s : Scheduler) (i : Slot) (t : Task) :
    (s.set i t).tasks i = some t := by simp [set]

@[simp] theorem set_tasks_ne (s : Scheduler) {i j : Slot} (h : j ≠ i) (t : Task) :
    (s.set i t).tasks j = s.tasks j := by simp [set, h]

theorem set_tasks (s : Scheduler) (i j : Slot) (t : Task) :
    (s.set i t).tasks j = if j = i then some t else s.tasks j := by
  by_cases h : j = i <;> simp [set, h]

theorem set_tasks_some {s : Scheduler} {i j : Slot} {t t' : Task}
    (h : (s.set i t').tasks j = some t) : (j = i ∧ t = t') ∨ (j ≠ i ∧ s.tasks j = some t) := by
  rw [set_tasks] at h
  split at h
  case isTrue hj => exact .inl ⟨hj, (Option.some.inj h).symm⟩
  case isFalse hj => exact .inr ⟨hj, h⟩

@[simp] theorem set_current (s : Scheduler) (i : Slot) (t : Task) :
    (s.set i t).current = s.current := rfl

theorem task_eq_ok {s : Scheduler} {i : Slot} {t : Task} :
    s.task i = .ok t ↔ s.tasks i = some t := by
  unfold task
  split <;> simp_all

theorem modify_eq_ok {s s' : Scheduler} {i : Slot} {f : Task → Task} :
    s.modify i f = .ok s' ↔ ∃ t, s.tasks i = some t ∧ s' = s.set i (f t) := by
  simp only [modify, Except.bind_eq_ok_iff, Except.pure_eq_ok_iff, task_eq_ok]
  simp only [eq_comm]

theorem findBlocked_some {s : Scheduler} {ep : EndpointId} {role : IpcRole} {i : Slot}
    (h : s.findBlocked ep role = some i) :
    ∃ t, s.tasks i = some t ∧ t.state = .blocked ep role := by
  have := List.find?_some h
  simpa [Option.any_eq_true] using this

theorem findBlocked_none {s : Scheduler} {ep : EndpointId} {role : IpcRole}
    (h : s.findBlocked ep role = none) {i : Slot} {t : Task} (ht : s.tasks i = some t) :
    t.state ≠ .blocked ep role := by
  have := List.find?_eq_none.mp h i (List.mem_finRange i)
  simpa [ht] using this

theorem pickNext_cases (s : Scheduler) :
    s.pickNext = s.current ∨ ∃ t, s.tasks s.pickNext = some t ∧ t.state = .ready := by
  unfold pickNext
  cases h : List.find? _ _ with
  | none => exact .inl rfl
  | some i =>
    have := List.find?_some h
    exact .inr (by simpa [Option.any_eq_true] using this)

theorem pickNext_ready {s : Scheduler} (h : s.pickNext ≠ s.current) :
    ∃ t, s.tasks s.pickNext = some t ∧ t.state = .ready :=
  s.pickNext_cases.resolve_left h

/-- The scheduler after a switch: `t` was current and is left in `state`, `u` runs. -/
def handOver (s : Scheduler) (live : Context) (t : Task) (next : Slot) (u : Task) : Scheduler :=
  { (s.set s.current { t with context := live }).set next { u with state := .running } with
    current := next }

@[simp] theorem handOver_current (s : Scheduler) (live : Context) (t : Task) (next : Slot)
    (u : Task) : (s.handOver live t next u).current = next := rfl

theorem handOver_tasks (s : Scheduler) (live : Context) (t : Task) (next : Slot) (u : Task)
    (j : Slot) :
    (s.handOver live t next u).tasks j =
      if j = next then some { u with state := .running }
      else if j = s.current then some { t with context := live } else s.tasks j := by
  change ((s.set s.current { t with context := live }).set next { u with state := .running }).tasks j = _
  rw [set_tasks, set_tasks]

theorem switchTo_eq_ok {s s' : Scheduler} {live : Context} {next : Slot} (hne : next ≠ s.current)
    (h : s.switchTo live next = .ok s') :
    ∃ t u, s.tasks s.current = some t ∧ s.tasks next = some u ∧
      s' = s.handOver live t next u := by
  simp only [switchTo, Except.bind_eq_ok_iff, modify_eq_ok] at h
  obtain ⟨_, ⟨u, hu, rfl⟩, t, ht, rfl⟩ := h
  have ht' : s.tasks s.current = some t := by simpa [set, hne.symm] using ht
  refine ⟨t, u, ht', hu, ?_⟩
  simp only [handOver, set, Scheduler.mk.injEq, and_true]
  exact Function.update_comm hne _ _ _

theorem parkCurrent_eq_ok {s s' : Scheduler} {live : Context} {state : TaskState}
    (h : s.parkCurrent live state = .ok s') :
    ∃ t next u, s.tasks s.current = some t ∧ next ≠ s.current ∧ s.tasks next = some u ∧
      u.state = .ready ∧ s' = s.handOver live { t with state } next u := by
  simp only [parkCurrent, Except.bind_eq_ok_iff, modify_eq_ok, Except.ite_error_eq_ok_iff] at h
  obtain ⟨_, ⟨t, ht, rfl⟩, hne, h⟩ := h
  obtain ⟨u, hu, hready⟩ := pickNext_ready hne
  obtain ⟨t', u', ht', hu', rfl⟩ := switchTo_eq_ok hne h
  obtain rfl : u = u' := Option.some.inj (hu.symm.trans hu')
  rw [set_current] at hne ht'
  rw [set_tasks_ne _ hne] at hu
  obtain rfl := Option.some.inj ((set_tasks_self _ _ _).symm.trans ht')
  refine ⟨t, _, u, ht, hne, hu, hready, ?_⟩
  simp [handOver, set]

theorem yieldNow_eq_ok {s s' : Scheduler} {live : Context} (h : s.yieldNow live = .ok s') :
    s' = s ∨ ∃ t next u, s.tasks s.current = some t ∧ next ≠ s.current ∧
      s.tasks next = some u ∧ u.state = .ready ∧
      s' = s.handOver live { t with state := .ready } next u := by
  unfold yieldNow at h
  by_cases hne : s.pickNext = s.current
  · rw [if_pos hne] at h
    exact .inl (Except.ok.inj h).symm
  · right
    obtain ⟨u, hu, hready⟩ := pickNext_ready hne
    simp only [if_neg hne, Except.bind_eq_ok_iff, modify_eq_ok] at h
    obtain ⟨_, ⟨t, ht, rfl⟩, h⟩ := h
    obtain ⟨t', u', ht', hu', rfl⟩ := switchTo_eq_ok (by simpa using hne) h
    rw [set_tasks_ne _ hne] at hu'
    obtain rfl : u = u' := Option.some.inj (hu.symm.trans hu')
    rw [set_current] at ht'
    obtain rfl := Option.some.inj ((set_tasks_self _ _ _).symm.trans ht')
    refine ⟨t, _, u, ht, hne, hu, hready, ?_⟩
    simp [handOver, set]

end Scheduler

end Perenne

import Perenne.Sweeps

namespace Perenne

open Except Scheduler

/-- A system call parked in `park_current`. -/
def Kont.parked : Kont → Bool
  | .user | .kernel _ => false
  | _ => true

namespace Machine

variable {p : Platform} {m₀ m m₁ m' : Machine} {t : Task} {ev : Event} {d : Devices}

/-- Every parked system call stands at an `ecall` that is not the last instruction of the
address space. -/
def Resumable (m : Machine) : Prop :=
  ∀ i, (m.konts i).parked = true → (m.frames i).sepc + 4 < 2 ^ 64

theorem Resumable.save (h : m.Resumable) {f : TrapFrame} {k : Kont}
    (hk : k.parked = true → f.sepc + 4 < 2 ^ 64) : (m.save f k).Resumable := by
  intro i hi
  simp only [Machine.save, Function.update_apply] at hi ⊢
  split at hi
  case isTrue hcur =>
    rw [if_pos hcur]
    exact hk hi
  case isFalse hcur =>
    rw [if_neg hcur]
    exact h i hi

theorem Resumable.goto (h : m.Resumable) (s : Scheduler) (pc : KernelPc) :
    (m.goto s pc).Resumable := by
  intro i hi
  simp only [Machine.goto, Function.update_apply] at hi ⊢
  split at hi
  case isTrue => cases hi
  case isFalse => exact h i hi

/-- The handler has an answer, if the event is a trap from U-mode. -/
def trapAnswered (p : Platform) (m : Machine) : Event → Bool
  | .trap frame => !frame.fromUser || m.answers p frame
  | _ => true

theorem Switch.other {m m' : Machine} (h : Switch m m') {i : Slot} {r' : Task} (hi : i ≠ m.current)
    (hr' : m'.sched.tasks i = some r') :
    ∃ r, m.sched.tasks i = some r ∧ (r' = r ∨ r.state = .ready ∧ r' = { r with state := .running }) := by
  cases h with
  | stay => exact ⟨r', hr', .inl rfl⟩
  | @swap live next u t state ht hne hu hready hstate =>
    rw [handOver_tasks] at hr'
    split at hr'
    case isTrue hnext => exact ⟨u, hnext ▸ hu, .inr ⟨hready, (Option.some.inj hr').symm⟩⟩
    case isFalse =>
      rw [if_neg (by exact hi)] at hr'
      exact ⟨r', hr', .inl rfl⟩

/-- The trap ends the running task: a fault, or an `exit`. -/
def ends (frame : TrapFrame) : Prop :=
  (killCause frame).isSome ∨ (Event.trap frame).asks .exit frame

theorem effect_spared (hrun : m.Runs t) (heff : Effect m t ev m₁) {i : Slot} {r' : Task}
    (hi : i ≠ m.current) (hr' : m₁.sched.tasks i = some r') (hexited : r'.state = .exited) :
    ∃ r, m.sched.tasks i = some r ∧ r.state = .exited := by
  obtain ⟨r, hr, hch⟩ := effect_change hrun heff hr'
  refine ⟨r, hr, ?_⟩
  cases hch with
  | same => exact hexited
  | wait hi' => exact absurd hi' hi
  | queue hi' => exact absurd hi' hi
  | receive hi' => exact absurd hi' hi
  | pickUp hi' => exact absurd hi' hi
  | spend hi' => exact absurd hi' hi
  | sweep => exact hexited
  | @taken _ isCall => cases isCall <;> cases hexited
  | _ => cases hexited

theorem not_ends {frame frame' : TrapFrame} {sys : Syscall}
    (hask : (Event.trap frame).asks sys frame') (hsys : sys ≠ .exit) : ¬ ends frame := by
  obtain ⟨heq, hec, hsys'⟩ := hask
  obtain rfl := Event.trap.inj heq
  rintro (hkill | ⟨-, -, hexit⟩)
  · simp [killCause, hec] at hkill
  · exact hsys (hsys'.symm.trans hexit)

theorem effect_ends {frame : TrapFrame} (hrun : m.Runs t) (heff : Effect m t (.trap frame) m₁) :
    ∃ t', m₁.sched.tasks m.current = some t' ∧ (t'.state = .exited ↔ ends frame) := by
  have hlive {st : TaskState} (h : st.runnable) : st ≠ .exited := by
    rintro rfl
    simp [TaskState.runnable] at h
  have halive {frame' : TrapFrame} {sys : Syscall} {st : TaskState} (hst : st ≠ .exited)
      (hask : (Event.trap frame).asks sys frame') (hsys : sys ≠ .exit) :
      st = .exited ↔ ends frame :=
    ⟨fun h => absurd h hst, fun h => absurd h (not_ends hask hsys)⟩
  have hother {i : Slot} {r : Task} (hne : i ≠ m.current) :
      (m.sched.set i r).tasks m.current = some t :=
    (set_tasks_ne _ hne.symm _).trans hrun.task
  cases heff with
  | keep hev hsys hrefuse hkill =>
    refine ⟨t, hrun.task, fun h => absurd h (hlive hrun.runnable), ?_⟩
    rintro (h | h)
    · simp [hkill frame rfl] at h
    · exact (hrefuse .exit frame h).elim
  | deliver hoffer =>
    refine ⟨_, set_tasks_self .., ?_⟩
    cases hoffer with
    | send hask => exact halive (hlive hrun.runnable) hask (by simp)
    | call hask => exact halive (by simp) hask (by simp)
    | grant hask => exact halive (hlive hrun.runnable) hask (by simp)
  | enqueue hoffer =>
    refine ⟨_, set_tasks_self .., ?_⟩
    cases hoffer with
    | send hask => exact halive (by simp) hask (by simp)
    | call hask => exact halive (by simp) hask (by simp)
    | grant hask => exact halive (by simp) hask (by simp)
  | take hask =>
    exact ⟨_, set_tasks_self .., halive (hlive hrun.runnable) hask (by simp)⟩
  | waitRecv hask => exact ⟨_, set_tasks_self .., halive (by simp) hask (by simp)⟩
  | waitIrq hask => exact ⟨_, set_tasks_self .., halive (by simp) hask (by simp)⟩
  | reply hask => exact ⟨_, set_tasks_self .., halive (hlive hrun.runnable) hask (by simp)⟩
  | replyRefused hask =>
    exact ⟨_, set_tasks_self .., halive (hlive hrun.runnable) hask (by simp)⟩
  | @revoke _ _ ep _ hask hcap =>
    refine ⟨t, ?_, halive (hlive hrun.runnable) hask (by simp)⟩
    exact (revokeEndpoint_tasks ..).trans ((if_pos rfl).trans hrun.task)
  | @relaunch _ _ _ _ target r hask hcap hr =>
    by_cases htarget : target = m.current
    · subst htarget
      exact ⟨_, set_tasks_self .., halive (by simp) hask (by simp)⟩
    · exact ⟨t, hother htarget, halive (hlive hrun.runnable) hask (by simp)⟩
  | wakeIrq hd hr hstate =>
    have hne := hrun.ne_of_blocked hr (by simp [hstate, TaskState.runnable])
    refine ⟨t, hother hne, fun h => absurd h (hlive hrun.runnable), ?_⟩
    rintro (h | ⟨-, hec, -⟩)
    · simp [killCause, hd] at h
    · simp [hd] at hec
  | exit hask =>
    obtain ⟨heq, hec, hsys⟩ := hask
    obtain rfl := Event.trap.inj heq
    exact ⟨_, set_tasks_self .., fun _ => .inr ⟨rfl, hec, hsys⟩, fun _ => rfl⟩
  | kill hcause => exact ⟨_, set_tasks_self .., fun _ => .inl (by simp [hcause]), fun _ => rfl⟩
  | crash hcause => exact ⟨_, set_tasks_self .., fun _ => .inl (by simp [hcause]), fun _ => rfl⟩

/-- Kernel tasks follow their code, and the handler has an answer to every trap. -/
def Answered (p : Platform) (d : Devices) (m : Machine) (l : Label) : Prop :=
  m.follows d l.event = true ∧ m.trapAnswered p l.event = true

instance (p : Platform) (d : Devices) (m : Machine) (l : Label) : Decidable (Answered p d m l) :=
  inferInstanceAs (Decidable (_ ∧ _))

end Machine

end Perenne

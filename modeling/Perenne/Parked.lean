import Perenne.Boot

namespace Perenne

/-- The states in which a task can be while this is left on its kernel stack. -/
def Kont.fits : Kont → TaskState → Prop
  | .user, st => st.runnable ∨ st = .exited
  | .recv ep _, st => st.runnable ∨ st = .blocked ep .recv
  | .send, st => st.runnable ∨ ∃ ep, st = .blocked ep .send
  | .call, st => st.runnable ∨ st = .awaitingReply ∨ ∃ ep, st = .blocked ep .call
  | .irq, st => st.runnable ∨ ∃ irq, st = .waitingIrq irq
  | .kernel .recvRead, st => st.runnable ∨ ∃ ep, st = .blocked ep .recv
  | .kernel .callRead, st => st.runnable ∨ st = .awaitingReply ∨ ∃ ep, st = .blocked ep .call
  | .kernel _, st => st.runnable

theorem Kont.fits_of_runnable {k : Kont} {st : TaskState} (h : st.runnable) : k.fits st := by
  unfold fits
  split <;> first | exact .inl h | exact h

namespace Machine

open Scheduler

/-- The event is the system call `sys` and the current task, with these registers,
passes `check`. -/
def requests (m : Machine) (sys : Syscall) (check : Task → TrapFrame → Bool) : Event → Bool
  | .trap frame => decode frame.scause == .userEcall && decodeSyscall (frame.regs 16) == sys &&
      (m.sched.tasks m.current).any fun t => check t frame
  | _ => false

/-- Every task's state fits what is left on its kernel stack. -/
def Parked (m : Machine) : Prop :=
  ∀ i t, m.sched.tasks i = some t → (m.konts i).fits t.state

variable {m m₁ m' : Machine} {t : Task} {ev : Event}

theorem requests_of_asks {sys : Syscall} {check : Task → TrapFrame → Bool} {frame : TrapFrame}
    (hrun : m.Runs t) (hask : ev.asks sys frame) : m.requests sys check ev = check t frame := by
  obtain ⟨rfl, hec, hsys⟩ := hask
  simp [requests, hec, hsys, hrun.task]

theorem asks_of_requests {sys : Syscall} {check : Task → TrapFrame → Bool}
    (h : m.requests sys check ev = true) :
    ∃ t frame, m.sched.tasks m.current = some t ∧ ev.asks sys frame ∧ check t frame = true := by
  cases ev with
  | trap frame =>
    simp only [requests, Bool.and_eq_true, Option.any_eq_true, beq_iff_eq] at h
    obtain ⟨⟨hec, hsys⟩, t, ht, hcheck⟩ := h
    exact ⟨t, frame, ht, ⟨rfl, hec, hsys⟩, hcheck⟩
  | _ => cases h

theorem requests_of_imp {sys : Syscall} {check check' : Task → TrapFrame → Bool}
    (himp : ∀ t frame, check t frame = true → check' t frame = true)
    (h : m.requests sys check' ev = false) : m.requests sys check ev = false := by
  refine Bool.eq_false_iff.mpr fun hyes => Bool.eq_false_iff.mp h ?_
  cases ev with
  | trap frame =>
    simp only [requests, Bool.and_eq_true, Option.any_eq_true] at hyes ⊢
    obtain ⟨hsys, t, ht, hcheck⟩ := hyes
    exact ⟨hsys, t, ht, himp t frame hcheck⟩
  | _ => cases hyes

theorem exec_of_asks {p : Platform} {l : Label} {sys : Syscall} {frame : TrapFrame}
    (hask : l.event.asks sys frame) : m.exec p l =
      (dispatch p m.sched m.poolInUse l.input frame >>= m.finishSyscall l.input frame) := by
  obtain ⟨hev, hec, -⟩ := hask
  rw [exec, hev]
  simp only [trapHandler, hec]

theorem kont_user_of_asks {sys : Syscall} {frame : TrapFrame} (hen : m.enabled ev = true)
    (hask : ev.asks sys frame) : m.konts m.current = .user := by
  obtain ⟨rfl, hec, -⟩ := hask
  exact (kont_user_of_trap hen (by simp [hec]) (by simp [hec])).1

theorem next_konts (s : Scheduler) (f : TrapFrame) (k : Kont) (i : Slot) :
    (m.next s f k).konts i = if i = m.current then k else m.konts i := by
  simp only [next, save, Function.update_apply]

theorem next_konts_same {s : Scheduler} {f : TrapFrame} (i : Slot) :
    (m.next s f (m.konts m.current)).konts i = m.konts i := by
  rw [next_konts]
  split
  case isTrue hi => rw [hi]
  case isFalse => rfl

theorem kont_body_of_recvMessage {idx : Nat} (hen : m.enabled (.recvMessage idx) = true) :
    ∃ ret, m.konts m.current = .kernel (.body ret) := by
  cases hk : m.konts m.current with
  | kernel pc => cases pc <;> simp_all [enabled]
  | _ => simp [enabled, hk] at hen

theorem kont_body_of_callMessage {idx badge : Nat}
    (hen : m.enabled (.callMessage idx badge) = true) :
    ∃ ret, m.konts m.current = .kernel (.body ret) :=
  kont_body_of_recvMessage (show m.enabled (.recvMessage idx) = true from hen)

theorem kont_user_of_kill {frame : TrapFrame} {cause : Cause}
    (hen : m.enabled (.trap frame) = true) (hcause : killCause frame = some cause) :
    m.konts m.current = .user := by
  refine (kont_user_of_trap hen ?_ ?_).1 <;>
  · intro hd
    simp [killCause, hd] at hcause

/-- The current task moves to a continuation that fits it; every other task became
runnable or kept its state. -/
theorem Parked.next (h : m.Parked) {s₁ : Scheduler} {f : TrapFrame} {k : Kont}
    (hcur : ∀ t', s₁.tasks m.current = some t' → k.fits t'.state)
    (hrest : ∀ i t', i ≠ m.current → s₁.tasks i = some t' →
      t'.state.runnable ∨ (m.konts i).fits t'.state ∨ m.sched.tasks i = some t') :
    (m.next s₁ f k).Parked := by
  intro i t' ht'
  rw [next_konts]
  split
  case isTrue hi => exact hcur t' (hi ▸ ht')
  case isFalse hi =>
    obtain hrun | hfits | hsame := hrest i t' hi ht'
    · exact Kont.fits_of_runnable hrun
    · exact hfits
    · exact h i t' hsame

theorem Parked.next_set (h : m.Parked) {f : TrapFrame} {k : Kont} {t' : Task}
    (hfits : k.fits t'.state) : (m.next (m.sched.set m.current t') f k).Parked := by
  refine h.next (fun u hu => ?_) (fun i u hi hu => .inr (.inr ?_))
  · rw [set_tasks_self] at hu
    exact Option.some.inj hu ▸ hfits
  · rwa [set_tasks_ne _ hi] at hu

theorem Parked.next_set_set (h : m.Parked) {f : TrapFrame} {k : Kont} {i : Slot} {r' t' : Task}
    (hr : r'.state.runnable ∨ (m.konts i).fits r'.state) (hfits : k.fits t'.state) :
    (m.next ((m.sched.set i r').set m.current t') f k).Parked := by
  refine h.next (fun u hu => ?_) (fun j u hj hu => ?_)
  · rw [set_tasks_self] at hu
    exact Option.some.inj hu ▸ hfits
  · rw [set_tasks_ne _ hj, set_tasks] at hu
    split at hu
    case isTrue hji =>
      obtain rfl := Option.some.inj hu
      obtain rfl := hji
      exact hr.imp_right .inl
    case isFalse => exact .inr (.inr hu)

theorem Parked.next_same (h : m.Parked) (hrun : m.Runs t) {f : TrapFrame} {k : Kont} :
    (m.next m.sched f k).Parked := by
  have : (m.next (m.sched.set m.current t) f k).Parked :=
    h.next_set (Kont.fits_of_runnable hrun.runnable)
  rwa [set_self (by exact hrun.task)] at this

theorem Parked.next_wake (h : m.Parked) (hrun : m.Runs t) {f : TrapFrame} {k : Kont} {i : Slot}
    {r' : Task} (hne : i ≠ m.current) (hr : r'.state.runnable) :
    (m.next (m.sched.set i r') f k).Parked := by
  have : (m.next ((m.sched.set i r').set m.current t) f k).Parked :=
    h.next_set_set (.inl hr) (Kont.fits_of_runnable hrun.runnable)
  rwa [set_self ((set_tasks_ne _ hne.symm _).trans hrun.task)] at this

theorem Parked.of_next {s₁ : Scheduler} {f : TrapFrame} {heal : Heal}
    (h : (m.next s₁ f (m.konts m.current)).Parked) : { m with sched := s₁, heal }.Parked := by
  have hk : (m.next s₁ f (m.konts m.current)).konts = m.konts := Function.update_eq_self _ _
  unfold Parked at h ⊢
  rw [hk] at h
  exact h

theorem fits_awaiting_of_call {k : Kont} {ep : EndpointId} (h : k.fits (.blocked ep .call)) :
    k.fits .awaitingReply := by
  unfold Kont.fits at h ⊢
  split at h <;> simp_all [TaskState.runnable]

theorem effect_parked (h : m.Parked) (hrun : m.Runs t) (hen : m.enabled ev = true)
    (heff : Effect m t ev m₁) : m₁.Parked := by
  have hfits (k : Kont) : k.fits t.state := Kont.fits_of_runnable hrun.runnable
  cases heff with
  | keep => exact h.next_same hrun
  | deliver hoffer hfind hne hr hstate =>
    refine h.next_set_set (.inl (.inl rfl)) ?_
    cases hoffer with
    | send => exact hfits _
    | call => exact .inr (.inl rfl)
    | grant => exact hfits _
    | callMessage => exact hrun.runnable
  | enqueue hoffer hfind =>
    refine h.next_set ?_
    cases hoffer with
    | send => exact .inr ⟨_, rfl⟩
    | call => exact .inr (.inr ⟨_, rfl⟩)
    | grant => exact .inr ⟨_, rfl⟩
    | callMessage => exact hrun.runnable
  | @take _ _ _ _ si r isCall hask hcap hfind hne hr hstate =>
    refine h.next_set_set ?_ (hfits _)
    cases isCall with
    | true =>
      have := h si r hr
      rw [hstate] at this
      exact .inr (fits_awaiting_of_call this)
    | false => exact .inl (.inl rfl)
  | takeMessage hcap hne hr hstate => exact h.next_wake hrun hne (.inl rfl)
  | waitRecv hask hcap hfind => exact h.next_set (.inr rfl)
  | waitIrq hask hcap => exact h.next_set (.inr ⟨_, rfl⟩)
  | toRecvPark hcap => exact h.next_same hrun
  | park hpoint =>
    refine h.next_set ?_
    obtain ⟨ep, -, rfl, rfl⟩ | ⟨-, rfl, rfl⟩ | ⟨ep, -, rfl, rfl⟩ := parkPoint_eq_some hpoint
    · exact .inr ⟨ep, rfl⟩
    · exact .inr (.inl rfl)
    · exact .inr (.inr ⟨ep, rfl⟩)
  | pickUp hkont => exact h.next_set (hfits _)
  | callReturn hkont => exact h.next_same hrun
  | settle hkont => exact h.next_same hrun
  | finish => exact h.next_same hrun
  | reply hask hcap hne hr hstate => exact h.next_set_set (.inl (.inl rfl)) (hfits _)
  | replyRefused hask hcap hstate => exact h.next_set (hfits _)
  | @revoke _ _ ep _ hask hcap =>
    refine h.next (fun t' ht' => ?_) (fun i t' hi ht' => .inr (.inl ?_)) <;>
      rw [revokeEndpoint_tasks] at ht'
    · rw [if_pos rfl] at ht'
      exact h _ t' ht'
    · rw [if_neg hi] at ht'
      obtain ⟨u, hu, rfl⟩ := Option.map_eq_some_iff.mp ht'
      exact h i u hu
  | @relaunch _ _ _ _ target r hask hcap hr hbound huser =>
    intro i t' ht'
    change (m.sched.set target _).tasks i = some t' at ht'
    simp only [Function.update_apply]
    rw [set_tasks] at ht'
    split at ht'
    case isTrue hi =>
      obtain rfl := Option.some.inj ht'
      exact Kont.fits_of_runnable (.inl rfl)
    case isFalse hi =>
      rw [if_neg hi]
      exact h i t' ht'
  | wakeIrq hev hr hstate =>
    exact h.next_wake hrun (hrun.ne_of_blocked hr (by simp [hstate, TaskState.runnable])) (.inl rfl)
  | exit hask =>
    refine (h.next_set (f := m.frames m.current) ?_).of_next
    rw [kont_user_of_asks hen hask]
    exact .inr rfl
  | kill hcause hquiet =>
    refine (h.next_set (f := m.frames m.current) ?_).of_next
    rw [kont_user_of_kill hen hcause]
    exact .inr rfl
  | crash hcause hnotify hne hr hstate =>
    refine (h.next_set_set (f := m.frames m.current) (.inl (.inl rfl)) ?_).of_next
    rw [kont_user_of_kill hen hcause]
    exact .inr rfl

theorem switch_parked (h : m.Parked) (hsw : Switch m m') : m'.Parked := by
  intro i t' ht'
  obtain ⟨t, ht, -, hstate⟩ := hsw.task ht'
  have hk : m'.konts = m.konts := by cases hsw <;> rfl
  rw [hk]
  obtain heq | ⟨-, hrun⟩ := hstate
  · exact heq ▸ h i t ht
  · exact Kont.fits_of_runnable hrun

theorem Fresh.parked (h : m.Fresh) : m.Parked := fun _ _ ht =>
  Kont.fits_of_runnable (h.task ht).state

end Machine

end Perenne

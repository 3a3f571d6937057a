import Perenne.Views

namespace Perenne

namespace Machine

variable {p : Platform} {m m₁ m' : Machine} {t : Task} {i : Slot}

open Scheduler Except

section Steps

variable {frame : TrapFrame} {input : Input} {ep : EndpointId} {s₁ : Scheduler} {msg : Message}
  {granted : Option Capability} {isCall : Bool}

theorem step_of_dispatch {sys : Syscall} {out : Scheduler × Flow}
    (hkont : m.konts m.current = .user) (hask : frame.Ecall sys)
    (h : dispatch p m.sched m.poolInUse input frame = .ok out) :
    m.step p ⟨.trap frame, input⟩ = (m.finishSyscall input frame out).toOption := by
  have hen : m.enabled (.trap frame) = true := by
    simp only [enabled, hkont, hask.user]
  have hexec : m.exec p ⟨.trap frame, input⟩ = m.finishSyscall input frame out := by
    simp only [exec, trapHandler, hask.cause, h]
    rfl
  rw [step, if_pos hen, hexec]

theorem step_returns {sys : Syscall} {f : TrapFrame} (hkont : m.konts m.current = .user)
    (hask : frame.Ecall sys) (h : dispatch p m.sched m.poolInUse input frame = .ok (s₁, .resume f))
    (hf : f.sepc = frame.sepc) : m.step p ⟨.trap frame, input⟩ =
      some (m.next s₁ { f with sepc := frame.sepc + 4 } .user) := by
  have hadvance : f.advance 4 = .ok { f with sepc := frame.sepc + 4 } := by
    rw [TrapFrame.advance, hf, if_pos hask.next]
  rw [step_of_dispatch hkont hask h, finishSyscall, hadvance, hkont]
  rfl

theorem step_waits {sys : Syscall} {state : TaskState} {kont : Kont} {t₁ : Task}
    (hkont : m.konts m.current = .user) (hask : frame.Ecall sys)
    (h : dispatch p m.sched m.poolInUse input frame = .ok (s₁, .park state kont))
    (hcur : s₁.current = m.current) (ht₁ : s₁.tasks m.current = some t₁)
    (hstate : ¬ state.runnable) (hcan : s₁.CanSwitch i) :
    ∃ m', m.step p ⟨.trap frame, input⟩ = some m' ∧ (∃ t', m'.Runs t') ∧
      m'.view = (m.next (s₁.set m.current { t₁ with state }) frame kont).view := by
  obtain ⟨s', hs', -⟩ := (parkCurrent_meets (Q := fun _ => False) hcan input.live state).exists_ok
  have hfin : m.finishSyscall input frame (s₁, .park state kont) =
      .ok { m.save frame kont with sched := s' } := by
    rw [finishSyscall, hs']
    rfl
  have hswitch := finish_park hcur ht₁ hstate hfin
  refine ⟨_, ?_, hswitch.runs, switch_view hswitch⟩
  rw [step_of_dispatch hkont hask h, hfin]
  rfl

/-- The continuation and state of an asker while nobody takes its message. -/
def queuedAs (ep : EndpointId) (isCall : Bool) : TaskState × Kont :=
  if isCall then (.blocked ep .call, .call) else (.blocked ep .send, .send)

theorem dispatch_gives (p : Platform) (input : Input) (hrun : m.Runs t)
    (hgive : Gives t.caps frame ep msg granted isCall) :
    dispatch p m.sched m.poolInUse input frame =
      m.sched.offer ep msg (cond isCall (some m.current.val) none) granted >>= fun out =>
        .ok (out.1, if out.2 then
          if isCall then .park .awaitingReply .call else .resume (frame.setStatus true)
          else .park (queuedAs ep isCall).1 (queuedAs ep isCall).2) := by
  have ht : m.sched.task m.sched.current = .ok t := task_eq_ok.mpr hrun.task
  have hbind (f : Task → Except Panic (Scheduler × Flow)) : (Except.ok t >>= f) = f t := rfl
  cases hgive with
  | send hask hcap =>
    rw [dispatch, hask.number]
    simp only [ipcSend, ht, hbind, hcap]
    change (m.sched.offer ep frame.message none none >>= _) = _
    congr 1
    funext out
    obtain ⟨s', b⟩ := out
    cases b <;> rfl
  | call hask hcap =>
    rw [dispatch, hask.number]
    simp only [ipcCall, ht, hbind, hcap]
    change (m.sched.offer ep frame.message (some m.current.val) none >>= _) = _
    congr 1
    funext out
    obtain ⟨s', b⟩ := out
    cases b <;> rfl
  | @grant cap hask hcap hsrc =>
    rw [dispatch, hask.number]
    simp only [ipcGrant, ht, hbind, hcap, hsrc]
    change (m.sched.offer ep ⟨frame.regs 11, 0, 0, 0⟩ none (some cap) >>= _) = _
    congr 1
    funext out
    obtain ⟨s', b⟩ := out
    cases b <;> rfl

/-- The sender's registers when its message has been taken; a caller's stay as they are until
the reply. -/
def sentFrame (frame : TrapFrame) (isCall : Bool) : TrapFrame :=
  if isCall then frame else { frame.setStatus true with sepc := frame.sepc + 4 }

theorem gives_waiting (p : Platform) (input : Input) {ri : Slot} {r : Task} (hrun : m.Runs t)
    (hkont : m.konts m.current = .user) (hgive : Gives t.caps frame ep msg granted isCall)
    (hne : ri ≠ m.current) (hfind : m.sched.findBlocked ep .recv = some ri)
    (hr : m.sched.tasks ri = some r) :
    ∃ m', m.step p ⟨.trap frame, input⟩ = some m' ∧ m'.frames m.current = sentFrame frame isCall ∧
      (∃ t', m'.Runs t') ∧ m'.view = Function.update (Function.update m.view ri
        (some (viewOf (r.accept msg (cond isCall (some m.current.val) none) granted) (m.konts ri)
          (m.frames ri)))) m.current
        (some (if isCall then viewOf { t with state := .awaitingReply } .call frame
          else viewOf t .user frame)) := by
  have hoffer : m.sched.offer ep msg (cond isCall (some m.current.val) none) granted = .ok
      (m.sched.set ri (r.accept msg (cond isCall (some m.current.val) none) granted), true) := by
    simp only [offer, hfind, modify_of_task hr]
    rfl
  obtain ⟨sys, hask⟩ := hgive.ecall
  have hdispatch := dispatch_gives p input hrun hgive
  rw [hoffer] at hdispatch
  have hcur : (m.sched.set ri (r.accept msg (cond isCall (some m.current.val) none) granted)).tasks
      m.current = some t := (set_tasks_ne _ hne.symm _).trans hrun.task
  cases isCall with
  | true =>
    have hcan : (m.sched.set ri (r.accept msg (some m.current.val) granted)).CanSwitch ri :=
      ⟨⟨t, hcur⟩, hne, _, set_tasks_self .., rfl⟩
    obtain ⟨m', hstep, hruns, hview⟩ := step_waits hkont hask hdispatch rfl hcur
      (by simp [TaskState.runnable]) hcan
    rw [view_next_set_set hne] at hview
    have hframe : m'.frames m.current = frame := by
      have := congrFun hview m.current
      rw [Function.update_self] at this
      exact frames_of_view this rfl
    exact ⟨m', hstep, hframe, hruns, hview⟩
  | false =>
    refine ⟨_, step_returns hkont hask hdispatch rfl, ?_, ⟨t, hcur, hrun.runnable⟩, ?_⟩
    · exact Function.update_self ..
    · exact view_next_set_other hne hrun.task _

theorem gives_first (p : Platform) (input : Input)
    (hrun : m.Runs t) (hkont : m.konts m.current = .user)
    (hgive : Gives t.caps frame ep msg granted isCall)
    (hfind : m.sched.findBlocked ep .recv = none) (hcan : m.sched.CanSwitch i) :
    ∃ m', m.step p ⟨.trap frame, input⟩ = some m' ∧ (∃ t', m'.Runs t') ∧
      m'.view = Function.update m.view m.current (some (viewOf
        { t with message := msg, pendingGrant := granted.or t.pendingGrant,
                 state := (queuedAs ep isCall).1 } (queuedAs ep isCall).2 frame)) := by
  have hoffer : m.sched.offer ep msg (cond isCall (some m.current.val) none) granted =
      .ok (m.sched.set m.current
        { t with message := msg, pendingGrant := granted.or t.pendingGrant }, false) := by
    have ht : m.sched.tasks m.sched.current = some t := hrun.task
    simp only [offer, hfind, modify_of_task ht]
    rfl
  obtain ⟨sys, hask⟩ := hgive.ecall
  have hdispatch := dispatch_gives p input hrun hgive
  rw [hoffer] at hdispatch
  have hwaits : ¬ (queuedAs ep isCall).1.runnable := by
    cases isCall <;> simp [queuedAs, TaskState.runnable]
  have hcan' : (m.sched.set m.current { t with
      message := msg, pendingGrant := granted.or t.pendingGrant }).CanSwitch i :=
    hcan.set fun h => absurd h.symm hcan.ne
  obtain ⟨m', hstep, hruns, hview⟩ := step_waits hkont hask hdispatch rfl (set_tasks_self ..)
    hwaits hcan'
  rw [set_set, view_next_set] at hview
  exact ⟨m', hstep, hruns, hview⟩

theorem recv_first (p : Platform) (input : Input) (hrun : m.Runs t)
    (hkont : m.konts m.current = .user) (hask : frame.Ecall .recv)
    (hcap : t.caps.capLookup (frame.regs 9) = some ep)
    (hfind : m.sched.waitingSender ep = none) (hcan : m.sched.CanSwitch i) :
    ∃ m', m.step p ⟨.trap frame, input⟩ = some m' ∧ (∃ t', m'.Runs t') ∧
      m'.view = Function.update m.view m.current
        (some (viewOf { t with state := .blocked ep .recv } (.recv ep (frame.regs 10)) frame)) := by
  have hdispatch : dispatch p m.sched m.poolInUse input frame =
      .ok (m.sched, .park (.blocked ep .recv) (.recv ep (frame.regs 10))) := by
    rw [dispatch, hask.number]
    simp only [ipcRecv, Except.bind_eq_ok_iff, task_eq_ok]
    refine ⟨t, hrun.task, ?_⟩
    simp only [hcap, hfind]
    rfl
  obtain ⟨m', hstep, hruns, hview⟩ := step_waits hkont hask hdispatch rfl hrun.task
    not_runnable_blocked hcan
  rw [view_next_set] at hview
  exact ⟨m', hstep, hruns, hview⟩

/-- The receiver's registers when it has the message. -/
def gotFrame (frame : TrapFrame) (msg : Message) : TrapFrame :=
  { writeMessage frame msg with sepc := frame.sepc + 4 }

theorem recv_waiting (p : Platform) (input : Input) {si : Slot} {r : Task}
    (hrun : m.Runs t) (hkont : m.konts m.current = .user) (hask : frame.Ecall .recv)
    (hcap : t.caps.capLookup (frame.regs 9) = some ep) (hne : si ≠ m.current)
    (hfind : m.sched.waitingSender ep = some (si, isCall)) (hr : m.sched.tasks si = some r) :
    ∃ m', m.step p ⟨.trap frame, input⟩ = some m' ∧
      m'.frames m.current = gotFrame frame r.message ∧ (∃ t', m'.Runs t') ∧
      m'.view = Function.update (Function.update m.view si (some (viewOf
          { r with pendingGrant := none, state := cond isCall .awaitingReply .ready } (m.konts si)
          (m.frames si)))) m.current
        (some (viewOf
          { t with caps :=
              t.caps.receive (frame.regs 10) (cond isCall (some si.val) none) r.pendingGrant }
          .user frame)) := by
  have hcur (r' : Task) : (m.sched.set si r').tasks m.sched.current = some t :=
    (set_tasks_ne _ hne.symm _).trans hrun.task
  have hdispatch : dispatch p m.sched m.poolInUse input frame = .ok ((m.sched.set si
      { r with pendingGrant := none, state := cond isCall .awaitingReply .ready }).set m.current
        { t with caps :=
            t.caps.receive (frame.regs 10) (cond isCall (some si.val) none) r.pendingGrant },
      .resume (writeMessage frame r.message)) := by
    rw [dispatch, hask.number]
    simp only [ipcRecv, Except.bind_eq_ok_iff, task_eq_ok]
    refine ⟨t, hrun.task, ?_⟩
    simp only [hcap, hfind, Except.bind_eq_ok_iff, task_eq_ok, modify_eq_ok, Except.pure_eq_ok_iff]
    refine ⟨r, hr, _, ⟨r, hr, rfl⟩, _,
      releaseSender_eq (by exact hne) (hcur _) (set_tasks_self ..) _ _, _,
      installGranted_eq (set_tasks_self ..) _ _, ?_⟩
    simp only [set_set, set_current]
    rfl
  refine ⟨_, step_returns hkont hask hdispatch rfl, ?_, ⟨_, set_tasks_self .., hrun.runnable⟩, ?_⟩
  · exact Function.update_self ..
  · rw [view_next_set_set hne]
    rfl

theorem recv_resumes (p : Platform) (input : Input) {slot : Nat} (hrun : m.Runs t)
    (hkont : m.konts m.current = .recv ep slot) (hsepc : (m.frames m.current).sepc + 4 < 2 ^ 64) :
    ∃ m', m.step p ⟨.resume, input⟩ = some m' ∧
      m'.frames m.current = gotFrame (m.frames m.current) t.message ∧ (∃ t', m'.Runs t') ∧
      m'.view = Function.update m.view m.current (some (viewOf
        { t with caps := t.caps.receive slot t.caller t.pendingGrant, caller := none,
                 pendingGrant := none } .user (m.frames m.current))) := by
  have hen : m.enabled .resume = true := by simp only [enabled, hkont]
  have hexec : m.exec p ⟨.resume, input⟩ = .ok (m.next (m.sched.set m.current
      { t with caps := t.caps.receive slot t.caller t.pendingGrant, caller := none,
               pendingGrant := none }) (gotFrame (m.frames m.current) t.message) .user) := by
    have hadvance : (writeMessage (m.frames m.current) t.message).advance 4 =
        .ok (gotFrame (m.frames m.current) t.message) := if_pos hsepc
    simp only [exec, resumeSyscall, hkont, resumeRecv_eq hrun.task]
    change ((writeMessage (m.frames m.current) t.message).advance 4 >>= _) = _
    rw [hadvance]
    rfl
  refine ⟨_, step_eq_some.mpr ⟨hen, hexec⟩, Function.update_self ..,
    ⟨_, set_tasks_self .., hrun.runnable⟩, ?_⟩
  rw [view_next_set]
  rfl

theorem send_resumes (p : Platform) (input : Input) (hrun : m.Runs t)
    (hkont : m.konts m.current = .send) (hsepc : (m.frames m.current).sepc + 4 < 2 ^ 64) :
    ∃ m', m.step p ⟨.resume, input⟩ = some m' ∧
      m'.frames m.current = sentFrame (m.frames m.current) false ∧ (∃ t', m'.Runs t') ∧
      m'.view = Function.update m.view m.current (some (viewOf t .user (m.frames m.current))) := by
  have hen : m.enabled .resume = true := by simp only [enabled, hkont]
  have hexec : m.exec p ⟨.resume, input⟩ =
      .ok (m.next m.sched (sentFrame (m.frames m.current) false) .user) := by
    have hadvance : ((m.frames m.current).setReg 9 0).advance 4 =
        .ok (sentFrame (m.frames m.current) false) := if_pos hsepc
    simp only [exec, resumeSyscall, hkont]
    change (((m.frames m.current).setReg 9 0).advance 4 >>= _) = _
    rw [hadvance]
    rfl
  refine ⟨_, step_eq_some.mpr ⟨hen, hexec⟩, Function.update_self ..,
    ⟨t, hrun.task, hrun.runnable⟩, ?_⟩
  rw [← set_self (show m.sched.tasks m.current = some t from hrun.task), view_next_set]
  rfl

end Steps

end Machine

end Perenne

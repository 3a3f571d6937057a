import Perenne.Exchange

namespace Perenne

namespace Machine

variable {p : Platform} {m m₁ m' : Machine} {t : Task} {i : Slot}

open Scheduler Except

/-- The task is in its own code, with nothing pending. -/
structure InUserCode (m : Machine) (i : Slot) (t : Task) : Prop where
  task : m.sched.tasks i = some t
  runnable : t.state.runnable
  kont : m.konts i = .user
  caller : t.caller = none
  pendingGrant : t.pendingGrant = none

/-- Two tasks in their own code that can meet on `ep`, where nobody waits. -/
structure Meeting (m : Machine) (ep : EndpointId) (si ri : Slot) (s r : Task) : Prop where
  ne : si ≠ ri
  free {i : Slot} {t : Task} {role : IpcRole} (ht : m.sched.tasks i = some t) :
    t.state ≠ .blocked ep role
  sender : m.InUserCode si s
  receiver : m.InUserCode ri r

/-- Whenever the task is on the hart next, it takes this step, and then `Q` holds. -/
def Turn (p : Platform) (m : Machine) (i : Slot) (l : Label) (Q : Machine → Prop) : Prop :=
  ∀ m₁, Rescheduled m m₁ → m₁.current = i → ∃ m', m₁.step p l = some m' ∧ Q m'

/-- After any run of preemptions the task takes its step, once it is on the hart. -/
theorem Turn.after_preemptions {i : Slot} {l : Label} {Q : Machine → Prop} {ls : List Label}
    (h : Turn p m i l Q) (hsolo : m.Solo) (hrun : m.Runs t)
    (hls : ∀ l ∈ ls, preempts l.event = true) (hpre : Transition.run (step p) m ls = some m')
    (hcur : m'.current = i) : ∃ m'', m'.step p l = some m'' ∧ Q m'' :=
  h m' (rescheduled_of_run hsolo hrun hls hpre) hcur

/-- State, capabilities and continuation of a task. -/
def standing (m : Machine) (i : Slot) : Option (TaskState × Caps × Kont) :=
  (m.sched.tasks i).map fun t => (t.state.offHart, t.caps, m.konts i)

/-- What both tasks have in their registers, and how all tasks stand. -/
structure Outcome where
  sender : TrapFrame
  receiver : TrapFrame
  tasks : Slot → Option (TaskState × Caps × Kont)

def met (m : Machine) (si ri : Slot) (s r : Task) (sent asked : TrapFrame) (msg : Message)
    (granted : Option Capability) (isCall : Bool) : Outcome where
  sender := sentFrame sent isCall
  receiver := gotFrame asked msg
  tasks := Function.update (Function.update m.standing si
    (some (if isCall then (.awaitingReply, s.caps, .call) else (.ready, s.caps, .user)))) ri
    (some (.ready, r.caps.receive (asked.regs 10) (cond isCall (some si.val) none) granted, .user))

/-- The sender was done in `mS`, the receiver in `mR`, and the tasks stand as in `m`. -/
structure Ends (out : Outcome) (si ri : Slot) (mS mR m : Machine) : Prop where
  sender : mS.frames si = out.sender
  receiver : mR.frames ri = out.receiver
  tasks : m.standing = out.tasks

section Turns

variable {v : View} {j : Slot}

theorem standing_view (m : Machine) (i : Slot) :
    m.standing i = (m.view i).map fun v => (v.state, v.caps, v.kont) := by
  rw [standing, view, Option.map_map]
  rfl

/-- The task is as the view has it. -/
structure Seen (m : Machine) (i : Slot) (t : Task) (v : View) : Prop where
  task : m.sched.tasks i = some t
  caps : t.caps = v.caps
  message : t.message = v.message
  caller : t.caller = v.caller
  pendingGrant : t.pendingGrant = v.pendingGrant
  kont : m.konts i = v.kont

theorem seen_of_view (hv : m.view i = some v) : ∃ t, m.Seen i t v := by
  obtain ⟨t, ht, rfl⟩ := view_eq_some hv
  exact ⟨t, ht, rfl, rfl, rfl, rfl, rfl⟩

theorem Rescheduled.on (h : Rescheduled m m₁) (hcur : m₁.current = i) (hv : m.view i = some v) :
    ∃ t, m₁.Runs t ∧ m₁.Seen m₁.current t v := by
  obtain ⟨t, hrun⟩ := h.runs
  subst hcur
  rw [← h.view] at hv
  obtain ⟨t', hseen⟩ := seen_of_view hv
  obtain rfl := Option.some.inj (hrun.task.symm.trans hseen.task)
  exact ⟨t, hrun, hseen⟩

theorem Rescheduled.canSwitch (h : Rescheduled m m₁) (hj : j ≠ m₁.current)
    (hv : m.view j = some v) (hready : v.state = .ready) : m₁.sched.CanSwitch j := by
  obtain ⟨t, hrun⟩ := h.runs
  rw [← h.view] at hv
  obtain ⟨u, hu, rfl⟩ := view_eq_some hv
  refine ⟨⟨t, hrun.task⟩, hj, u, hu, ?_⟩
  obtain hstate | hstate := runnable_of_offHart hready
  · exact hstate
  · exact absurd (h.solo j u hu hstate) hj

def ownCode (caps : Caps) (msg : Message) : View := ⟨.ready, caps, msg, none, none, .user, none⟩

theorem InUserCode.view (h : m.InUserCode i t) : m.view i = some (ownCode t.caps t.message) := by
  rw [Machine.view, h.task, Option.map_some, h.kont]
  simp only [viewOf, offHart_of_runnable h.runnable, h.caller, h.pendingGrant, ownCode]
  rfl

theorem Meeting.free_view {ep : EndpointId} {si ri : Slot} {s r : Task} (h : m.Meeting ep si ri s r)
    {role : IpcRole} (hv : m.view i = some v) : v.state ≠ .blocked ep role := by
  obtain ⟨t, ht, rfl⟩ := view_eq_some hv
  intro hstate
  have hblocked := beq_iff_eq.mpr hstate
  simp only [viewOf, offHart_blocked, beq_iff_eq] at hblocked
  exact h.free ht hblocked

end Turns

section Orders

variable {ep : EndpointId} {si ri : Slot} {s r : Task} {sent asked : TrapFrame} {msg : Message}
  {granted : Option Capability} {isCall : Bool}

theorem standing_met {m' : Machine} {v w : View} (hne : si ≠ ri)
    (hsv : m'.view si = some v) (hrw : m'.view ri = some w)
    (hother : ∀ i, i ≠ si → i ≠ ri → m'.view i = m.view i)
    (hv : (v.state, v.caps, v.kont) =
      if isCall then (.awaitingReply, s.caps, .call) else (.ready, s.caps, .user))
    (hw : (w.state, w.caps, w.kont) = (.ready, r.caps.receive (asked.regs 10)
      (cond isCall (some si.val) none) granted, .user)) :
    m'.standing = (met m si ri s r sent asked msg granted isCall).tasks := by
  funext i
  rw [standing_view, met]
  dsimp only
  by_cases hi : i = ri
  · subst hi
    rw [hrw, Function.update_self, Option.map_some, hw]
  · rw [Function.update_of_ne hi]
    by_cases hi' : i = si
    · subst hi'
      rw [hsv, Function.update_self, Option.map_some, hv]
    · rw [hother i hi' hi, Function.update_of_ne hi', standing_view]

theorem Meeting.recv_then_give (h : m.Meeting ep si ri s r)
    (hgive : Gives s.caps sent ep msg granted isCall) (hask : asked.Ecall .recv)
    (hcap : r.caps.capLookup (asked.regs 9) = some ep) (in₁ in₂ in₃ : Input) :
    m.Turn p ri ⟨.trap asked, in₁⟩ fun m₂ => m₂.Turn p si ⟨.trap sent, in₂⟩ fun m₄ =>
      m₄.Turn p ri ⟨.resume, in₃⟩ fun m₆ =>
        Ends (met m si ri s r sent asked msg granted isCall) si ri m₄ m₆ m₆ := by
  have hs := h.sender.view
  have hr := h.receiver.view
  -- the receiver blocks
  intro m₁ hm₁ hcur₁
  obtain ⟨t₁, hrun₁, hseen₁⟩ := hm₁.on hcur₁ hr
  have hnone (role : IpcRole) : m₁.sched.findBlocked ep role = none :=
    findBlocked_none_of_view fun j v hv => h.free_view (hm₁.view ▸ hv)
  have hwait : m₁.sched.waitingSender ep = none := by
    simp only [waitingSender, hnone, Option.map_none]
  obtain ⟨m₂, hstep₂, -, hview₂⟩ := recv_first p in₁ hrun₁ hseen₁.kont hask
    (hseen₁.caps ▸ hcap) hwait (hm₁.canSwitch (hcur₁ ▸ h.ne) hs rfl)
  refine ⟨m₂, hstep₂, ?_⟩
  rw [hcur₁, hm₁.view] at hview₂
  -- the sender hands it the message
  intro m₃ hm₃ hcur₃
  have hview₃ := hm₃.view.trans hview₂
  obtain ⟨t₃, hrun₃, hseen₃⟩ := hm₃.on hcur₃ (by rw [hview₂, Function.update_of_ne h.ne, hs])
  have hblocked := congrFun hview₃ ri
  rw [Function.update_self] at hblocked
  obtain ⟨r₃, hseenR⟩ := seen_of_view hblocked
  have hframe₃ : m₃.frames ri = asked := frames_of_view hblocked rfl
  have hfind : m₃.sched.findBlocked ep .recv = some ri := by
    refine findBlocked_some_of_view hblocked rfl fun j v hv hstate => ?_
    by_contra hj
    rw [hview₃, Function.update_of_ne hj] at hv
    exact h.free_view hv hstate
  have hcaps₃ : t₃.caps = s.caps := hseen₃.caps
  obtain ⟨m₄, hstep₄, hframe₄, -, hview₄⟩ := gives_waiting p in₂ hrun₃
    hseen₃.kont (hcaps₃ ▸ hgive) (hcur₃ ▸ h.ne.symm) hfind hseenR.task
  refine ⟨m₄, hstep₄, ?_⟩
  rw [hcur₃, hview₃, Function.update_idem] at hview₄
  rw [hcur₃] at hframe₄
  -- the receiver goes on
  intro m₅ hm₅ hcur₅
  have hready := congrFun hview₄ ri
  rw [Function.update_of_ne h.ne.symm, Function.update_self] at hready
  obtain ⟨t₅, hrun₅, hseen₅⟩ := hm₅.on hcur₅ hready
  have hkont₅ : m₅.konts m₅.current = .recv ep (asked.regs 10) := hseen₅.kont.trans hseenR.kont
  have hframe₅ : m₅.frames m₅.current = asked := by
    rw [hcur₅]
    refine frames_of_view ((congrFun hm₅.view ri).trans hready) ?_
    simp only [viewOf, hseenR.kont, hframe₃]
    rfl
  obtain ⟨m₆, hstep₆, hframe₆, -, hview₆⟩ := recv_resumes p in₃
    hrun₅ hkont₅ (hframe₅ ▸ hask.next)
  refine ⟨m₆, hstep₆, hframe₄, ?_, ?_⟩
  · rw [← hcur₅, hframe₆, hframe₅, hseen₅.message]
    rfl
  · have hcaps₅ : t₅.caps = r.caps := hseen₅.caps.trans (hseenR.caps.trans hseen₁.caps)
    have hcaller₅ : t₅.caller = cond isCall (some si.val) none := by
      rw [hseen₅.caller]
      change Option.or _ r₃.caller = _
      rw [hseenR.caller.trans hseen₁.caller]
      exact Option.or_none
    have hgrant₅ : t₅.pendingGrant = granted := by
      rw [hseen₅.pendingGrant]
      change Option.or _ r₃.pendingGrant = _
      rw [hseenR.pendingGrant.trans hseen₁.pendingGrant]
      exact Option.or_none
    rw [hcur₅, hm₅.view, hview₄] at hview₆
    refine standing_met h.ne (by rw [hview₆, Function.update_of_ne h.ne, Function.update_self])
      (by rw [hview₆, Function.update_self]) (fun i hs hr => ?_) ?_ ?_
    · rw [hview₆, Function.update_of_ne hr, Function.update_of_ne hs, Function.update_of_ne hr]
    · cases isCall with
      | true => simp only [viewOf, hcaps₃, if_true, TaskState.offHart]
      | false =>
        simp only [viewOf, hcaps₃, Bool.false_eq_true, if_false,
          offHart_of_runnable hrun₃.runnable]
    · simp only [viewOf, hcaps₅, hcaller₅, hgrant₅, offHart_of_runnable hrun₅.runnable]

theorem Meeting.give_then_recv (h : m.Meeting ep si ri s r)
    (hgive : Gives s.caps sent ep msg granted isCall) (hask : asked.Ecall .recv)
    (hcap : r.caps.capLookup (asked.regs 9) = some ep) (in₁ in₂ in₃ : Input) :
    m.Turn p si ⟨.trap sent, in₁⟩ fun m₂ => m₂.Turn p ri ⟨.trap asked, in₂⟩ fun m₄ =>
      if isCall then Ends (met m si ri s r sent asked msg granted isCall) si ri m₄ m₄ m₄
      else m₄.Turn p si ⟨.resume, in₃⟩ fun m₆ =>
        Ends (met m si ri s r sent asked msg granted isCall) si ri m₆ m₄ m₆ := by
  have hs := h.sender.view
  have hr := h.receiver.view
  -- the sender blocks
  intro m₁ hm₁ hcur₁
  obtain ⟨t₁, hrun₁, hseen₁⟩ := hm₁.on hcur₁ hs
  have hcaps₁ : t₁.caps = s.caps := hseen₁.caps
  have hnone : m₁.sched.findBlocked ep .recv = none :=
    findBlocked_none_of_view fun j v hv => h.free_view (hm₁.view ▸ hv)
  obtain ⟨m₂, hstep₂, -, hview₂⟩ := gives_first p in₁ hrun₁ hseen₁.kont
    (hcaps₁ ▸ hgive) hnone (hm₁.canSwitch (hcur₁ ▸ h.ne.symm) hr rfl)
  refine ⟨m₂, hstep₂, ?_⟩
  rw [hcur₁, hm₁.view] at hview₂
  -- the receiver takes the message
  intro m₃ hm₃ hcur₃
  have hview₃ := hm₃.view.trans hview₂
  obtain ⟨t₃, hrun₃, hseen₃⟩ := hm₃.on hcur₃ (by rw [hview₂, Function.update_of_ne h.ne.symm, hr])
  have hblocked := congrFun hview₃ si
  rw [Function.update_self] at hblocked
  obtain ⟨s₃, hseenS⟩ := seen_of_view hblocked
  have hfree (role : IpcRole) (j : Slot) (v : View) (hv : m₃.view j = some v)
      (hstate : v.state = .blocked ep role) : j = si := by
    by_contra hj
    rw [hview₃, Function.update_of_ne hj] at hv
    exact h.free_view hv hstate
  have hfind : m₃.sched.waitingSender ep = some (si, isCall) := by
    cases isCall with
    | false => rw [waitingSender, findBlocked_some_of_view hblocked rfl (hfree _)]
    | true =>
      have hsend : m₃.sched.findBlocked ep .send = none := by
        refine findBlocked_none_of_view fun j v hv hstate => ?_
        obtain rfl := hfree _ j v hv hstate
        obtain rfl := Option.some.inj (hblocked.symm.trans hv)
        cases hstate
      rw [waitingSender, hsend, findBlocked_some_of_view hblocked rfl (hfree _)]
      rfl
  have hcaps₃ : t₃.caps = r.caps := hseen₃.caps
  obtain ⟨m₄, hstep₄, hframe₄, -, hview₄⟩ := recv_waiting p in₂ hrun₃ hseen₃.kont
    hask (hcaps₃ ▸ hcap) (hcur₃ ▸ h.ne) hfind hseenS.task
  refine ⟨m₄, hstep₄, ?_⟩
  have hmsg : s₃.message = msg := hseenS.message
  have hgrant : s₃.pendingGrant = granted := by
    rw [hseenS.pendingGrant]
    change Option.or _ t₁.pendingGrant = _
    rw [hseen₁.pendingGrant]
    exact Option.or_none
  have hframe₃ : m₃.frames si = sent := by
    refine frames_of_view hblocked ?_
    cases isCall <;> rfl
  have hkont₃ : m₃.konts si = (queuedAs ep isCall).2 := hseenS.kont
  have hcapsS : s₃.caps = s.caps := hseenS.caps.trans hcaps₁
  rw [hcur₃, hview₃, Function.update_idem, hgrant, hkont₃, hframe₃, hcaps₃] at hview₄
  rw [hcur₃, hmsg] at hframe₄
  have hsender := congrFun hview₄ si
  rw [Function.update_of_ne h.ne, Function.update_self] at hsender
  cases isCall with
  | true =>
    refine ⟨frames_of_view hsender rfl, hframe₄, ?_⟩
    refine standing_met h.ne hsender (by rw [hview₄, Function.update_self])
      (fun i hs hr => ?_) ?_ ?_
    · rw [hview₄, Function.update_of_ne hr, Function.update_of_ne hs]
    · simp only [viewOf, hcapsS]
      rfl
    · simp only [viewOf, offHart_of_runnable hrun₃.runnable]
  | false =>
    -- the sender goes on
    intro m₅ hm₅ hcur₅
    obtain ⟨t₅, hrun₅, hseen₅⟩ := hm₅.on hcur₅ hsender
    have hframe₅ : m₅.frames m₅.current = sent := by
      rw [hcur₅]
      exact frames_of_view ((congrFun hm₅.view si).trans hsender) rfl
    obtain ⟨sys, hsent⟩ := hgive.ecall
    obtain ⟨m₆, hstep₆, hframe₆, -, hview₆⟩ := send_resumes p in₃
      hrun₅ hseen₅.kont (hframe₅ ▸ hsent.next)
    refine ⟨m₆, hstep₆, ?_, hframe₄, ?_⟩
    · rw [← hcur₅, hframe₆, hframe₅]
      rfl
    · have hcaps₅ : t₅.caps = s.caps := hseen₅.caps.trans hcapsS
      rw [hcur₅, hm₅.view, hview₄] at hview₆
      refine standing_met h.ne (by rw [hview₆, Function.update_self])
        (by rw [hview₆, Function.update_of_ne h.ne.symm, Function.update_self])
        (fun i hs hr => ?_) ?_ ?_
      · rw [hview₆, Function.update_of_ne hs, Function.update_of_ne hr, Function.update_of_ne hs]
      · simp only [viewOf, hcaps₅, offHart_of_runnable hrun₅.runnable, Bool.false_eq_true, if_false]
      · simp only [viewOf, offHart_of_runnable hrun₃.runnable]

/-- Whoever comes first, the rendezvous has one outcome: once both are done, the registers of
the two tasks are the same in either order, and so are the capabilities, states and
continuations of all tasks. -/
theorem rendezvous_order_independent (h : m.Meeting ep si ri s r)
    (hgive : Gives s.caps sent ep msg granted isCall) (hask : asked.Ecall .recv)
    (hcap : r.caps.capLookup (asked.regs 9) = some ep) (in₁ in₂ in₃ : Input) :
    (m.Turn p ri ⟨.trap asked, in₁⟩ fun m₂ => m₂.Turn p si ⟨.trap sent, in₂⟩ fun m₄ =>
      m₄.Turn p ri ⟨.resume, in₃⟩ fun m₆ =>
        Ends (met m si ri s r sent asked msg granted isCall) si ri m₄ m₆ m₆) ∧
    (m.Turn p si ⟨.trap sent, in₁⟩ fun m₂ => m₂.Turn p ri ⟨.trap asked, in₂⟩ fun m₄ =>
      if isCall then Ends (met m si ri s r sent asked msg granted isCall) si ri m₄ m₄ m₄
      else m₄.Turn p si ⟨.resume, in₃⟩ fun m₆ =>
        Ends (met m si ri s r sent asked msg granted isCall) si ri m₆ m₄ m₆) :=
  ⟨h.recv_then_give hgive hask hcap in₁ in₂ in₃, h.give_then_recv hgive hask hcap in₁ in₂ in₃⟩

/-- A task with the capability for endpoint 0. -/
def endpointTask (state : TaskState) : Task where
  context := .zeroed
  state := state
  stackTop := 0x80300000
  name := "task"
  satp := 0
  caps := Caps.empty.install 0 (.endpoint 0)
  message := .empty
  relaunch := some ⟨0x80400000, 0x80601000⟩
  restarts := 0
  crashBadge := 0
  caller := none
  pendingGrant := none

def twoTasks : Machine where
  sched := ⟨fun i => if i = 0 then some (endpointTask .running)
    else if i = 1 then some (endpointTask .ready) else none, 0⟩
  heal := .empty
  expectingWxFault := false
  poolInUse := false
  frames := fun _ => .zeroed
  konts := fun _ => .user

/-- The first task receives, and the second one calls it. -/
theorem rendezvous_two_tasks : ∃ m₂, twoTasks.step .sample (.ecall 5 [0, 1]) = some m₂ ∧
    m₂.Turn .sample 1 (.ecall 7 [0, 7]) fun m₄ => m₄.Turn .sample 0 .resume fun m₆ =>
      Ends (met twoTasks 1 0 (endpointTask .ready) (endpointTask .running) (.ecall 7 [0, 7])
        (.ecall 5 [0, 1]) ⟨7, 0, 0, 0⟩ none true) 1 0 m₄ m₆ m₆ := by
  have hgive : Gives (endpointTask .ready).caps (.ecall 7 [0, 7]) 0 ⟨7, 0, 0, 0⟩ none true :=
    .call ⟨by decide, by decide, by decide, by decide⟩ (by decide)
  have hask : (TrapFrame.ecall 5 [0, 1]).Ecall .recv :=
    ⟨by decide, by decide, by decide, by decide⟩
  have htasks {i : Slot} {t : Task} (ht : twoTasks.sched.tasks i = some t) :
      i = 0 ∧ t = endpointTask .running ∨ t = endpointTask .ready := by
    simp only [twoTasks] at ht
    split at ht
    · exact .inl ⟨‹_›, (Option.some.inj ht).symm⟩
    · split at ht
      · exact .inr (Option.some.inj ht).symm
      · cases ht
  have hmeet : twoTasks.Meeting 0 1 0 (endpointTask .ready) (endpointTask .running) := by
    refine ⟨by decide, fun ht => ?_, ⟨rfl, .inl rfl, rfl, rfl, rfl⟩,
      ⟨rfl, .inr rfl, rfl, rfl, rfl⟩⟩
    obtain ⟨-, rfl⟩ | rfl := htasks ht
    · exact nofun
    · exact nofun
  have hsolo : twoTasks.Solo := by
    intro i t ht hstate
    obtain ⟨rfl, -⟩ | rfl := htasks ht
    · rfl
    · cases hstate
  have hsame : Rescheduled twoTasks twoTasks := ⟨rfl, ⟨_, rfl, .inr rfl⟩, hsolo⟩
  exact (rendezvous_order_independent hmeet hgive hask (by decide) .zero .zero .zero).1 twoTasks
    hsame rfl

end Orders

end Machine

end Perenne

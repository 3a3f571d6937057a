import Perenne.Effect

namespace Perenne

namespace Scheduler

theorem set_set (s : Scheduler) (i : Slot) (t t' : Task) : (s.set i t).set i t' = s.set i t' := by
  simp [set]

theorem set_comm (s : Scheduler) {i j : Slot} (h : i ≠ j) (t u : Task) :
    (s.set i t).set j u = (s.set j u).set i t := by
  simp only [set, mk.injEq, and_true]
  exact Function.update_comm h _ _ _

theorem set_self {s : Scheduler} {i : Slot} {t : Task} (h : s.tasks i = some t) :
    s.set i t = s := by
  cases s
  simp only [set, mk.injEq, and_true]
  exact Function.update_eq_self_iff.mpr h.symm

theorem handOver_set_current (s : Scheduler) (live : Context) (t t' : Task) (next : Slot)
    (u : Task) : (s.set s.current t').handOver live t next u = s.handOver live t next u := by
  simp [handOver, set]

theorem installCap_eq {s : Scheduler} {i : Slot} {t : Task} (ht : s.tasks i = some t) (slot : Nat)
    (cap : Capability) :
    s.installCap i slot cap = .ok (s.set i { t with caps := t.caps.install slot cap }) := by
  unfold installCap
  split
  · exact modify_eq_ok.mpr ⟨t, ht, rfl⟩
  · have hsame : t.caps.install slot cap = t.caps := by
      simp only [Caps.install]
      exact Vector.setIfInBounds_eq_of_size_le (by omega)
    rw [hsame, set_self ht]

end Scheduler

namespace Machine

variable {p : Platform} {m m' : Machine} {t : Task} {input : Input} {frame : TrapFrame}

open Scheduler

theorem advance_eq_ok {frame frame' : TrapFrame} {n : Nat} (h : frame.advance n = .ok frame') :
    ∃ sepc, frame' = { frame with sepc } := by
  unfold TrapFrame.advance at h
  split at h
  · exact ⟨_, (Except.ok.inj h).symm⟩
  · cases h

theorem finish_resume {s₁ : Scheduler} {f : TrapFrame}
    (h : m.finishSyscall input frame (s₁, .resume f) = .ok m') :
    ∃ sepc, m' = m.next s₁ { f with sepc } (m.konts m.current) := by
  simp only [finishSyscall, Except.bind_eq_ok_iff, Except.pure_eq_ok_iff] at h
  obtain ⟨f', hf', rfl⟩ := h
  obtain ⟨sepc, rfl⟩ := advance_eq_ok hf'
  exact ⟨sepc, rfl⟩

theorem not_runnable_blocked {ep : EndpointId} {role : IpcRole} :
    ¬ (TaskState.blocked ep role).runnable := by simp [TaskState.runnable]

theorem switch_of_park (m₁ : Machine) {s₁ s' : Scheduler} {live : Context} {state : TaskState}
    {t₁ : Task} (ht₁ : s₁.tasks s₁.current = some t₁) (hstate : ¬ state.runnable)
    (h : s₁.parkCurrent live state = .ok s') :
    Switch { m₁ with sched := s₁.set s₁.current { t₁ with state } } { m₁ with sched := s' } := by
  obtain ⟨t', next, u, ht', hne, hu, hready, rfl⟩ := parkCurrent_eq_ok h
  obtain rfl := Option.some.inj (ht₁.symm.trans ht')
  rw [← handOver_set_current s₁ live { t₁ with state } { t₁ with state }]
  exact .swap (m := { m₁ with sched := s₁.set s₁.current { t₁ with state } })
    (t := { t₁ with state }) (set_tasks_self _ _ _) hne ((set_tasks_ne _ hne _).trans hu) hready
    (.inl ⟨rfl, hstate⟩)

theorem finish_park {s₁ : Scheduler} {state : TaskState} {kont : Kont} {t₁ : Task}
    (hcur : s₁.current = m.current) (ht₁ : s₁.tasks m.current = some t₁)
    (hstate : ¬ state.runnable)
    (h : m.finishSyscall input frame (s₁, .park state kont) = .ok m') :
    Switch (m.next (s₁.set m.current { t₁ with state }) frame kont) m' := by
  simp only [finishSyscall, Except.bind_eq_ok_iff, Except.pure_eq_ok_iff] at h
  obtain ⟨s', hs', rfl⟩ := h
  rw [← hcur] at ht₁ ⊢
  exact switch_of_park (m.save frame kont) ht₁ hstate hs'

theorem yield_switch (m₁ : Machine) {s' : Scheduler} {live : Context} {t₁ : Task}
    (ht₁ : m₁.Runs t₁) (h : m₁.sched.yieldNow live = .ok s') :
    Switch m₁ { m₁ with sched := s' } := by
  obtain rfl | ⟨t', next, u, ht', hne, hu, hready, rfl⟩ := yieldNow_eq_ok h
  · exact .stay ht₁
  · obtain rfl := Option.some.inj (ht₁.task.symm.trans ht')
    exact .swap ht₁.task hne hu hready (.inr ⟨ht₁.runnable, rfl⟩)

theorem Runs.ne_of_blocked (hrun : m.Runs t) {i : Slot} {r : Task}
    (hr : m.sched.tasks i = some r) (h : ¬ r.state.runnable) : i ≠ m.current := by
  rintro rfl
  obtain rfl := Option.some.inj (hrun.task.symm.trans hr)
  exact h hrun.runnable

theorem offer_eq_ok {s s' : Scheduler} {ep : EndpointId} {msg : Message} {caller : Option Nat}
    {granted : Option Capability} {taken : Bool}
    (h : s.offer ep msg caller granted = .ok (s', taken)) :
    (∃ ri r, taken = true ∧ s.findBlocked ep .recv = some ri ∧ s.tasks ri = some r ∧
      r.state = .blocked ep .recv ∧
      s' = s.set ri { r with message := msg, caller := caller.or r.caller,
                             pendingGrant := granted.or r.pendingGrant, state := .ready }) ∨
    (∃ t, taken = false ∧ s.findBlocked ep .recv = none ∧ s.tasks s.current = some t ∧
      s' = s.set s.current { t with message := msg,
                                    pendingGrant := granted.or t.pendingGrant }) := by
  unfold offer at h
  split at h
  case h_1 ri hfind =>
    left
    simp only [Except.bind_eq_ok_iff, Except.pure_eq_ok_iff, modify_eq_ok, Prod.mk.injEq] at h
    obtain ⟨_, ⟨r, hr, rfl⟩, rfl, rfl⟩ := h
    obtain ⟨r', hr', hstate⟩ := findBlocked_some hfind
    obtain rfl := Option.some.inj (hr.symm.trans hr')
    exact ⟨ri, r, rfl, hfind, hr, hstate, rfl⟩
  case h_2 hfind =>
    right
    simp only [Except.bind_eq_ok_iff, Except.pure_eq_ok_iff, modify_eq_ok, Prod.mk.injEq] at h
    obtain ⟨_, ⟨t, ht, rfl⟩, rfl, rfl⟩ := h
    exact ⟨t, rfl, hfind, ht, rfl⟩

theorem offer_effect (hrun : m.Runs t) {ev : Event} {ep : EndpointId} {msg : Message}
    {caller : Option Nat} {granted : Option Capability} {taken queued : TaskState × Kont}
    (hoffer : Offer m t ev ep msg caller granted taken queued)
    {s' : Scheduler} {b : Bool} (h : m.sched.offer ep msg caller granted = .ok (s', b)) :
    (b = true ∧ ∀ frame, Effect m t ev
      (m.next (s'.set m.current { t with state := taken.1 }) frame taken.2) ∧
      s'.tasks m.current = some t ∧ s'.current = m.current) ∨
    (b = false ∧ s'.current = m.current ∧ s'.tasks m.current =
        some { t with message := msg, pendingGrant := granted.or t.pendingGrant } ∧
      ∀ frame, Effect m t ev (m.next (s'.set m.current
        { t with message := msg, pendingGrant := granted.or t.pendingGrant,
                 state := queued.1 }) frame queued.2)) := by
  obtain ⟨ri, r, rfl, hfind, hr, hstate, rfl⟩ | ⟨t', rfl, hfind, ht', rfl⟩ := offer_eq_ok h
  · have hne : ri ≠ m.current := hrun.ne_of_blocked hr (hstate ▸ not_runnable_blocked)
    refine .inl ⟨rfl, fun frame => ⟨.deliver hoffer hfind hne hr hstate, ?_, rfl⟩⟩
    rw [set_tasks_ne _ hne.symm, hrun.task]
  · obtain rfl : t = t' := Option.some.inj (hrun.task.symm.trans ht')
    refine .inr ⟨rfl, rfl, set_tasks_self _ _ _, fun frame => ?_⟩
    have heffect := Effect.enqueue (f := frame) hoffer hfind
    rwa [← set_set] at heffect

section Syscalls

variable {ev : Event} {out : Scheduler × Flow}

theorem refused_effect (hrun : m.Runs t) {sys : Syscall} {f : TrapFrame} (hask : ev.asks sys frame)
    (hrefuse : t.caps.refuses frame sys)
    (h : m.finishSyscall input frame (m.sched, .resume f) = .ok m') : Stepped m t ev m' := by
  obtain ⟨sepc, rfl⟩ := finish_resume h
  refine ⟨_, .keep_next ?_ (hask.1 ▸ rfl) ?_ ?_, .stay (t := t) ⟨hrun.task, hrun.runnable⟩⟩
  · rintro rfl
    cases hask.1
  · intro sys' frame' hask'
    obtain rfl := Event.trap.inj (hask.1.symm.trans hask'.1)
    rwa [← hask'.2.2, hask.2.2]
  · intro frame' hframe
    obtain rfl := Event.trap.inj (hask.1.symm.trans hframe)
    simp [killCause, hask.2.1]

theorem ipcSend_effect (hrun : m.Runs t) (hask : ev.asks .send frame)
    (h : m.sched.ipcSend frame = .ok out) (hfin : m.finishSyscall input frame out = .ok m') :
    Stepped m t ev m' := by
  simp only [ipcSend, Except.bind_eq_ok_iff, task_eq_ok] at h
  obtain ⟨t', ht', h⟩ := h
  obtain rfl : t = t' := Option.some.inj (hrun.task.symm.trans ht')
  cases hcap : t.caps.capLookup (frame.regs 9) with
  | none =>
    simp only [hcap, Except.pure_eq_ok_iff] at h
    subst h
    exact refused_effect hrun hask hcap hfin
  | some ep =>
    simp only [hcap, Except.bind_eq_ok_iff] at h
    obtain ⟨⟨s', b⟩, hoffer, h⟩ := h
    obtain ⟨rfl, heff⟩ | ⟨rfl, hcur, ht₁, heff⟩ :=
      offer_effect hrun (.send hask hcap) hoffer
    · obtain rfl := Except.pure_eq_ok_iff.mp h
      obtain ⟨sepc, rfl⟩ := finish_resume hfin
      obtain ⟨heff, hsame, hcur⟩ := heff { frame.setStatus true with sepc }
      rw [set_self hsame] at heff
      exact ⟨_, heff, .stay (t := t) ⟨by rwa [← hcur] at hsame, hrun.runnable⟩⟩
    · obtain rfl := Except.pure_eq_ok_iff.mp h
      exact ⟨_, heff frame, finish_park hcur ht₁ not_runnable_blocked hfin⟩

theorem ipcCall_effect (hrun : m.Runs t) (hask : ev.asks .call frame)
    (h : m.sched.ipcCall frame = .ok out) (hfin : m.finishSyscall input frame out = .ok m') :
    Stepped m t ev m' := by
  simp only [ipcCall, Except.bind_eq_ok_iff, task_eq_ok] at h
  obtain ⟨t', ht', h⟩ := h
  obtain rfl : t = t' := Option.some.inj (hrun.task.symm.trans ht')
  cases hcap : t.caps.capLookup (frame.regs 9) with
  | none =>
    simp only [hcap, Except.pure_eq_ok_iff] at h
    subst h
    exact refused_effect hrun hask hcap hfin
  | some ep =>
    simp only [hcap, Except.bind_eq_ok_iff] at h
    obtain ⟨⟨s', b⟩, hoffer, h⟩ := h
    obtain ⟨rfl, heff⟩ | ⟨rfl, hcur, ht₁, heff⟩ :=
      offer_effect hrun (.call hask hcap) hoffer
    · obtain rfl := Except.pure_eq_ok_iff.mp h
      exact ⟨_, (heff frame).1, finish_park (heff frame).2.2 (heff frame).2.1
        (by simp [TaskState.runnable]) hfin⟩
    · obtain rfl := Except.pure_eq_ok_iff.mp h
      exact ⟨_, heff frame, finish_park hcur ht₁ not_runnable_blocked hfin⟩

theorem ipcGrant_effect (hrun : m.Runs t) (hask : ev.asks .grant frame)
    (h : m.sched.ipcGrant frame = .ok out) (hfin : m.finishSyscall input frame out = .ok m') :
    Stepped m t ev m' := by
  simp only [ipcGrant, Except.bind_eq_ok_iff, task_eq_ok] at h
  obtain ⟨t', ht', h⟩ := h
  obtain rfl : t = t' := Option.some.inj (hrun.task.symm.trans ht')
  cases hcap : t.caps.capLookup (frame.regs 9) with
  | none =>
    simp only [hcap, Except.pure_eq_ok_iff] at h
    subst h
    exact refused_effect hrun hask (.inl hcap) hfin
  | some ep =>
    cases hsrc : t.caps.capAt (frame.regs 10) with
    | none =>
      simp only [hcap, hsrc, Except.pure_eq_ok_iff] at h
      subst h
      exact refused_effect hrun hask (.inr hsrc) hfin
    | some cap =>
      simp only [hcap, hsrc, Except.bind_eq_ok_iff] at h
      obtain ⟨⟨s', b⟩, hoffer, h⟩ := h
      obtain ⟨rfl, heff⟩ | ⟨rfl, hcur, ht₁, heff⟩ :=
        offer_effect hrun (.grant hask hcap hsrc) hoffer
      · obtain rfl := Except.pure_eq_ok_iff.mp h
        obtain ⟨sepc, rfl⟩ := finish_resume hfin
        obtain ⟨heff, hsame, hcur⟩ := heff { frame.setStatus true with sepc }
        rw [set_self hsame] at heff
        exact ⟨_, heff, .stay (t := t) ⟨by rwa [← hcur] at hsame, hrun.runnable⟩⟩
      · obtain rfl := Except.pure_eq_ok_iff.mp h
        exact ⟨_, heff frame, finish_park hcur ht₁ not_runnable_blocked hfin⟩

theorem waitingSender_some {s : Scheduler} {ep : EndpointId} {si : Slot} {isCall : Bool}
    (h : s.waitingSender ep = some (si, isCall)) :
    ∃ r, s.tasks si = some r ∧ r.state = .blocked ep (cond isCall .call .send) := by
  unfold waitingSender at h
  split at h
  case h_1 hfind =>
    obtain ⟨rfl, rfl⟩ := Prod.mk.inj (Option.some.inj h)
    exact findBlocked_some hfind
  case h_2 =>
    obtain ⟨_, hfind, heq⟩ := Option.map_eq_some_iff.mp h
    obtain ⟨rfl, rfl⟩ := Prod.mk.inj heq
    exact findBlocked_some hfind

theorem receive_none (caps : Caps) (slot : Nat) : caps.receive slot none none = caps := rfl

theorem installGranted_eq {s : Scheduler} {i : Slot} {t : Task} (ht : s.tasks i = some t)
    (slot : Nat) (granted : Option Capability) :
    s.installGranted i slot granted =
      .ok (s.set i { t with caps := t.caps.receive slot none granted }) := by
  cases granted with
  | none => simp only [receive_none, set_self ht]; rfl
  | some cap => exact installCap_eq ht slot cap

theorem mintStashed_eq {s : Scheduler} {i : Slot} {t : Task} (ht : s.tasks i = some t)
    (slot : Nat) (caller : Option Nat) :
    s.mintStashed i slot caller =
      .ok (s.set i { t with caps := t.caps.receive slot caller none }) := by
  cases caller with
  | none => simp only [receive_none, set_self ht]; rfl
  | some c => exact installCap_eq ht slot (.reply c)

theorem releaseSender_eq {s : Scheduler} {t r : Task} {si : Slot} (hne : si ≠ s.current)
    (ht : s.tasks s.current = some t) (hr : s.tasks si = some r) (isCall : Bool) (slot : Nat) :
    s.releaseSender si isCall slot =
      .ok ((s.set si { r with state := cond isCall .awaitingReply .ready }).set s.current
        { t with caps := t.caps.receive slot (cond isCall (some si.val) none) none }) := by
  have ht' (r' : Task) : (s.set si r').tasks s.current = some t :=
    (set_tasks_ne _ hne.symm _).trans ht
  cases isCall with
  | true =>
    simp only [releaseSender, if_true, Except.bind_eq_ok_iff, modify_eq_ok]
    exact ⟨_, ⟨r, hr, rfl⟩, installCap_eq (ht' _) slot (.reply si)⟩
  | false =>
    simp only [releaseSender, Bool.false_eq_true, if_false, modify_eq_ok]
    exact ⟨r, hr, set_self (ht' _)⟩

theorem ipcRecv_effect (hrun : m.Runs t) (hask : ev.asks .recv frame)
    (h : m.sched.ipcRecv frame = .ok out) (hfin : m.finishSyscall input frame out = .ok m') :
    Stepped m t ev m' := by
  simp only [ipcRecv, Except.bind_eq_ok_iff, task_eq_ok] at h
  obtain ⟨t', ht', h⟩ := h
  obtain rfl : t = t' := Option.some.inj (hrun.task.symm.trans ht')
  cases hcap : t.caps.capLookup (frame.regs 9) with
  | none =>
    simp only [hcap, Except.pure_eq_ok_iff] at h
    subst h
    exact refused_effect hrun hask hcap hfin
  | some ep =>
    cases hwait : m.sched.waitingSender ep with
    | none =>
      simp only [hcap, hwait, Except.pure_eq_ok_iff] at h
      subst h
      exact ⟨_, .waitRecv hask hcap hwait,
        finish_park rfl hrun.task not_runnable_blocked hfin⟩
    | some w =>
      obtain ⟨si, isCall⟩ := w
      obtain ⟨r, hr, hstate⟩ := waitingSender_some hwait
      have hne : si ≠ m.current := hrun.ne_of_blocked hr (hstate ▸ not_runnable_blocked)
      simp only [hcap, hwait, Except.bind_eq_ok_iff, task_eq_ok, modify_eq_ok,
        Except.pure_eq_ok_iff] at h
      obtain ⟨r', hr', _, ⟨r'', hr'', rfl⟩, s₂, h₂, s₃, h₃, rfl⟩ := h
      obtain rfl := Option.some.inj (hr.symm.trans hr')
      obtain rfl := Option.some.inj (hr.symm.trans hr'')
      have hcur : (m.sched.set si { r with pendingGrant := none }).tasks m.sched.current = some t :=
        (set_tasks_ne _ hne.symm _).trans hrun.task
      obtain rfl := Except.ok.inj
        ((releaseSender_eq (by exact hne) hcur (set_tasks_self _ _ _) _ _).symm.trans h₂)
      obtain rfl := Except.ok.inj ((installGranted_eq (set_tasks_self _ _ _) _ _).symm.trans h₃)
      obtain ⟨sepc, rfl⟩ := finish_resume hfin
      refine ⟨_, .take (n := sepc) hask hcap hwait hne hr hstate, ?_⟩
      simp only [set_set, set_current]
      exact .stay ⟨set_tasks_self _ _ _, hrun.runnable⟩

theorem slotOf_eq_ok {n : Nat} {c : Slot} (h : slotOf n = .ok c) : n = c.val := by
  unfold slotOf at h
  split at h
  · exact congrArg Fin.val (Except.ok.inj h)
  · cases h

theorem ipcReply_effect (hrun : m.Runs t) (hask : ev.asks .reply frame)
    (h : m.sched.ipcReply frame = .ok out) (hfin : m.finishSyscall input frame out = .ok m') :
    Stepped m t ev m' := by
  simp only [ipcReply, Except.bind_eq_ok_iff, task_eq_ok] at h
  obtain ⟨t', ht', h⟩ := h
  obtain rfl : t = t' := Option.some.inj (hrun.task.symm.trans ht')
  cases hcap : t.caps.replyCaller (frame.regs 9) with
  | none =>
    simp only [hcap, Except.pure_eq_ok_iff] at h
    subst h
    exact refused_effect hrun hask hcap hfin
  | some n =>
    simp only [hcap, Except.bind_eq_ok_iff, modify_eq_ok] at h
    obtain ⟨_, ⟨t', ht', rfl⟩, c, hslot, h⟩ := h
    obtain rfl : t = t' := Option.some.inj (hrun.task.symm.trans ht')
    obtain rfl := slotOf_eq_ok hslot
    split at h
    case isTrue hawait =>
      simp only [Except.bind_eq_ok_iff, modify_eq_ok, Except.pure_eq_ok_iff] at h
      obtain ⟨_, ⟨r, hr, rfl⟩, rfl⟩ := h
      have hstate : r.state = .awaitingReply := by simpa [hr] using hawait
      have hne : c ≠ m.current := by
        rintro rfl
        obtain rfl := Option.some.inj ((set_tasks_self _ _ _).symm.trans hr)
        exact absurd hrun.runnable (by rw [show t.state = _ from hstate]; simp [TaskState.runnable])
      have hr' : m.sched.tasks c = some r := (set_tasks_ne _ hne _).symm.trans hr
      obtain ⟨sepc, rfl⟩ := finish_resume hfin
      refine ⟨_, .reply (n := sepc) hask hcap hne hr' hstate, ?_⟩
      rw [set_comm _ hne]
      exact .stay ⟨(set_tasks_ne _ hne.symm _).trans (set_tasks_self _ _ _), hrun.runnable⟩
    case isFalse hawait =>
      obtain rfl := Except.pure_eq_ok_iff.mp h
      obtain ⟨sepc, rfl⟩ := finish_resume hfin
      refine ⟨_, .replyRefused (n := sepc) hask hcap ?_,
        .stay ⟨set_tasks_self _ _ _, hrun.runnable⟩⟩
      intro r hr hstate
      have hne : c ≠ m.current := hrun.ne_of_blocked hr (by simp [hstate, TaskState.runnable])
      rw [set_tasks_ne _ (show c ≠ m.sched.current from hne), hr] at hawait
      exact hawait (by simp [hstate])

theorem ipcRevoke_effect (hrun : m.Runs t) (hask : ev.asks .revoke frame)
    (h : m.sched.ipcRevoke frame = .ok out) (hfin : m.finishSyscall input frame out = .ok m') :
    Stepped m t ev m' := by
  simp only [ipcRevoke, Except.bind_eq_ok_iff, task_eq_ok] at h
  obtain ⟨t', ht', h⟩ := h
  obtain rfl : t = t' := Option.some.inj (hrun.task.symm.trans ht')
  cases hcap : t.caps.capLookup (frame.regs 9) with
  | none =>
    simp only [hcap, Except.pure_eq_ok_iff] at h
    subst h
    exact refused_effect hrun hask hcap hfin
  | some ep =>
    simp only [hcap, Except.pure_eq_ok_iff] at h
    subst h
    obtain ⟨sepc, rfl⟩ := finish_resume hfin
    exact ⟨_, .revoke (n := sepc) hask hcap,
      .stay (t := t) ⟨(if_pos rfl).trans hrun.task, hrun.runnable⟩⟩

theorem waitIrq_effect (hrun : m.Runs t) (hask : ev.asks .waitIrq frame)
    (h : m.sched.waitIrq frame = .ok out) (hfin : m.finishSyscall input frame out = .ok m') :
    Stepped m t ev m' := by
  simp only [Scheduler.waitIrq, Except.bind_eq_ok_iff, task_eq_ok] at h
  obtain ⟨t', ht', h⟩ := h
  obtain rfl : t = t' := Option.some.inj (hrun.task.symm.trans ht')
  cases hcap : t.caps.interruptIrq (frame.regs 9) with
  | none =>
    simp only [hcap, Except.pure_eq_ok_iff] at h
    subst h
    exact refused_effect hrun hask trivial hfin
  | some irq =>
    simp only [hcap, Except.pure_eq_ok_iff] at h
    subst h
    exact ⟨_, .waitIrq hask hcap,
      finish_park rfl hrun.task (by simp [TaskState.runnable]) hfin⟩

theorem restart_effect {tramp sstatus : Nat} (hrun : m.Runs t) (hask : ev.asks .restart frame)
    (h : m.sched.restart tramp sstatus frame = .ok out)
    (hfin : m.finishSyscall input frame out = .ok m') : Stepped m t ev m' := by
  simp only [Scheduler.restart, Except.bind_eq_ok_iff, task_eq_ok] at h
  obtain ⟨t', ht', h⟩ := h
  obtain rfl : t = t' := Option.some.inj (hrun.task.symm.trans ht')
  cases hcap : t.caps.restartTarget (frame.regs 9) with
  | none =>
    simp only [hcap, Except.pure_eq_ok_iff] at h
    subst h
    exact refused_effect hrun hask trivial hfin
  | some n =>
    simp only [hcap, Except.bind_eq_ok_iff, task_eq_ok] at h
    obtain ⟨target, hslot, r, hr, h⟩ := h
    obtain rfl := slotOf_eq_ok hslot
    by_cases hbound : canRestart r.restarts maxRestarts = true
    · simp only [hbound, Bool.not_true, Bool.false_eq_true, if_false] at h
      cases hre : r.relaunch with
      | none => simp [hre] at h
      | some relaunch =>
        simp only [hre, Except.bind_eq_ok_iff, modify_eq_ok, Except.pure_eq_ok_iff] at h
        obtain ⟨_, ⟨r', hr', rfl⟩, rfl⟩ := h
        obtain rfl := Option.some.inj (hr.symm.trans hr')
        simp only [finishSyscall, Except.bind_eq_ok_iff, Except.pure_eq_ok_iff] at hfin
        obtain ⟨frame', -, rfl⟩ := hfin
        have hkont : (m.save frame' (m.konts m.current)).konts = m.konts :=
          Function.update_eq_self _ _
        have huser : r.isUser = true := by rw [Task.isUser, hre]; rfl
        rw [hkont]
        by_cases hself : target = m.current
        · subst hself
          exact ⟨_, .relaunch hask hcap hr hbound huser,
            .stay ⟨set_tasks_self _ _ _, .inl rfl⟩⟩
        · exact ⟨_, .relaunch hask hcap hr hbound huser,
            .stay ⟨(set_tasks_ne _ (Ne.symm hself) _).trans hrun.task, hrun.runnable⟩⟩
    · simp only [hbound, Bool.not_false, if_true, Except.pure_eq_ok_iff] at h
      subst h
      exact refused_effect hrun hask trivial hfin

end Syscalls

end Machine

end Perenne

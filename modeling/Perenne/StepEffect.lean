import Perenne.SyscallEffect

namespace Perenne

namespace Machine

open Scheduler

variable {p : Platform} {m m' : Machine} {t : Task} {input : Input} {frame : TrapFrame}

theorem keep_effect {ev : Event} {heal : Heal} {wx pool : Bool} {f : TrapFrame}
    (hev : ev ≠ .resume) (hsys : ev.isSyscall = true) (hask : ∀ sys frame, ¬ ev.asks sys frame)
    (hkill : ∀ frame, ev = .trap frame → killCause frame = none) :
    Effect m t ev { m.next m.sched f (m.konts m.current) with
      heal, expectingWxFault := wx, poolInUse := pool } :=
  .keep hev hsys (fun sys frame h => absurd h (hask sys frame)) hkill

theorem not_asks (h : decode frame.scause ≠ .userEcall) (sys : Syscall) (frame' : TrapFrame) :
    ¬ (Event.trap frame).asks sys frame' := by
  rintro ⟨heq, hec, -⟩
  obtain rfl := Event.trap.inj heq
  exact h hec

theorem abandon_switch (m₁ : Machine) {s₁ s' : Scheduler} {live : Context} {t₁ : Task}
    {prefer : Option Slot} (ht₁ : s₁.tasks s₁.current = some t₁)
    (hprefer : ∀ h, prefer = some h → h ≠ s₁.current ∧
      ∃ u, s₁.tasks h = some u ∧ u.state = .ready)
    (h : s₁.abandon live prefer = .ok s') :
    Switch { m₁ with sched := s₁.set s₁.current { t₁ with state := .exited } }
      { m₁ with sched := s' } := by
  simp only [abandon, Except.bind_eq_ok_iff, modify_eq_ok, Except.ite_error_eq_ok_iff] at h
  obtain ⟨_, ⟨t', ht', rfl⟩, hne, h⟩ := h
  obtain rfl := Option.some.inj (ht₁.symm.trans ht')
  have hnext : ∃ u, (s₁.set s₁.current { t₁ with state := .exited }).tasks (prefer.getD
      (s₁.set s₁.current { t₁ with state := .exited }).pickNext) = some u ∧ u.state = .ready := by
    cases prefer with
    | none => exact pickNext_ready hne
    | some healer =>
      obtain ⟨hh, u, hu, hready⟩ := hprefer healer rfl
      exact ⟨u, (set_tasks_ne _ hh _).trans hu, hready⟩
  obtain ⟨u, hu, hready⟩ := hnext
  obtain ⟨t', u', ht', hu', rfl⟩ := switchTo_eq_ok hne h
  obtain rfl := Option.some.inj (hu.symm.trans hu')
  obtain rfl := Option.some.inj ((set_tasks_self _ _ _).symm.trans ht')
  exact .swap (m := { m₁ with sched := s₁.set s₁.current { t₁ with state := .exited } })
    (t := { t₁ with state := .exited }) (set_tasks_self _ _ _) hne hu hready
    (.inl ⟨rfl, by simp [TaskState.runnable]⟩)

theorem exit_effect (hrun : m.Runs t) {code : Nat} {ev : Event} (hask : ev.asks .exit frame)
    (h : m.finishSyscall input frame (m.sched, .exit code) = .ok m') : Stepped m t ev m' := by
  simp only [finishSyscall, exitCurrent, Except.bind_eq_ok_iff, Except.pure_eq_ok_iff] at h
  obtain ⟨_, ⟨s', hs', rfl⟩, rfl⟩ := h
  exact ⟨{ m with sched := m.sched.set m.current { t with state := .exited } }, .exit hask,
    abandon_switch m hrun.task (by simp) hs'⟩

theorem kill_effect (hrun : m.Runs t) {cause : Cause} (hcause : killCause frame = some cause)
    (h : m.kill input cause = .ok m') : Stepped m t (.trap frame) m' := by
  simp only [kill, exitCurrent, Except.bind_eq_ok_iff, Except.pure_eq_ok_iff] at h
  obtain ⟨_, ⟨⟨s₁, prefer⟩, hs₁, s', hs', rfl⟩, rfl⟩ := h
  simp only [notifyCrash, Except.bind_eq_ok_iff, task_eq_ok] at hs₁
  obtain ⟨t', ht', hs₁⟩ := hs₁
  obtain rfl : t = t' := Option.some.inj (hrun.task.symm.trans ht')
  have hquiet (hn : m.notified t cause = none) (heq : (m.sched, none) = (s₁, prefer)) :
      Stepped m t (.trap frame) { m with sched := s', heal := (m.heal.onCrash cause).1 } := by
    obtain ⟨rfl, rfl⟩ := Prod.mk.inj heq
    exact ⟨_, .kill hcause hn,
      abandon_switch { m with heal := (m.heal.onCrash cause).1 } hrun.task (by simp) hs'⟩
  split at hs₁
  case isFalse hno =>
    exact hquiet (if_neg hno) (Except.pure_eq_ok_iff.mp hs₁)
  case isTrue hyes =>
    have hn : m.notified t cause = m.sched.findBlocked crashEp .recv := if_pos hyes
    cases hfind : m.sched.findBlocked crashEp .recv with
    | none =>
      rw [hfind] at hs₁ hn
      exact hquiet hn (Except.pure_eq_ok_iff.mp hs₁)
    | some h =>
      obtain ⟨r, hr, hstate⟩ := findBlocked_some hfind
      have hne : h ≠ m.current := hrun.ne_of_blocked hr (hstate ▸ not_runnable_blocked)
      simp only [hfind, Except.bind_eq_ok_iff, modify_eq_ok, Except.pure_eq_ok_iff,
        Prod.mk.injEq] at hs₁
      obtain ⟨_, ⟨r', hr', rfl⟩, rfl, rfl⟩ := hs₁
      obtain rfl := Option.some.inj (hr.symm.trans hr')
      have hsw := abandon_switch { m with heal := (m.heal.onCrash cause).1 }
        ((set_tasks_ne _ hne.symm _).trans hrun.task)
        (by rintro _ ⟨⟩; exact ⟨hne, _, set_tasks_self _ _ _, rfl⟩) hs'
      exact ⟨_, .crash hcause (hn.trans hfind) hne hr hstate, hsw⟩

theorem dispatch_effect (hrun : m.Runs t) (hec : decode frame.scause = .userEcall)
    {out : Scheduler × Flow} (h : dispatch p m.sched m.poolInUse input frame = .ok out)
    (hfin : m.finishSyscall input frame out = .ok m') : Stepped m t (.trap frame) m' := by
  unfold dispatch at h
  split at h
  case h_1 hsys =>
    simp only [Except.bind_eq_ok_iff, Except.pure_eq_ok_iff] at h
    obtain ⟨_, -, _, -, rfl⟩ := h
    exact refused_effect hrun ⟨rfl, hec, hsys⟩ trivial hfin
  case h_2 hsys =>
    obtain rfl := Except.ok.inj h
    exact exit_effect hrun ⟨rfl, hec, hsys⟩ hfin
  case h_3 hsys =>
    obtain rfl := Except.ok.inj h
    simp only [finishSyscall, Except.bind_eq_ok_iff, Except.pure_eq_ok_iff] at hfin
    obtain ⟨f, -, s', hs', rfl⟩ := hfin
    refine ⟨m.next m.sched f (m.konts m.current), ?_, ?_⟩
    · refine .keep (by simp) rfl ?_ ?_
      · rintro sys frame' ⟨heq, -, hsys'⟩
        obtain rfl := Event.trap.inj heq
        rw [← hsys', hsys]
        trivial
      · intro frame' hframe
        obtain rfl := Event.trap.inj hframe
        simp [killCause, hec]
    · exact yield_switch (m.next m.sched f (m.konts m.current)) ⟨hrun.task, hrun.runnable⟩ hs'
  case h_4 hsys => exact ipcSend_effect hrun ⟨rfl, hec, hsys⟩ h hfin
  case h_5 hsys => exact ipcRecv_effect hrun ⟨rfl, hec, hsys⟩ h hfin
  case h_6 hsys => exact restart_effect hrun ⟨rfl, hec, hsys⟩ h hfin
  case h_7 hsys => exact ipcCall_effect hrun ⟨rfl, hec, hsys⟩ h hfin
  case h_8 hsys => exact ipcReply_effect hrun ⟨rfl, hec, hsys⟩ h hfin
  case h_9 hsys =>
    simp only [Except.bind_eq_ok_iff, Except.pure_eq_ok_iff] at h
    obtain ⟨_, -, _, -, rfl⟩ := h
    exact refused_effect hrun ⟨rfl, hec, hsys⟩ trivial hfin
  case h_10 hsys => exact waitIrq_effect hrun ⟨rfl, hec, hsys⟩ h hfin
  case h_11 hsys => exact ipcGrant_effect hrun ⟨rfl, hec, hsys⟩ h hfin
  case h_12 hsys => exact ipcRevoke_effect hrun ⟨rfl, hec, hsys⟩ h hfin
  case h_13 hsys =>
    simp only [Except.bind_eq_ok_iff, Except.pure_eq_ok_iff] at h
    obtain ⟨_, -, rfl⟩ := h
    exact refused_effect hrun ⟨rfl, hec, hsys⟩ trivial hfin
  case h_14 hsys =>
    simp only [Except.bind_eq_ok_iff, Except.pure_eq_ok_iff] at h
    obtain ⟨_, -, rfl⟩ := h
    exact refused_effect hrun ⟨rfl, hec, hsys⟩ trivial hfin
  case h_15 hsys =>
    obtain rfl := Except.ok.inj h
    exact refused_effect hrun ⟨rfl, hec, hsys⟩ trivial hfin

theorem wakeIrq_effect (hrun : m.Runs t) {irq : Nat} {s' : Scheduler}
    (hev : decode frame.scause = .supervisorExternal) (h : m.sched.wakeIrq irq = .ok s') :
    Stepped m t (.trap frame) (m.next s' frame (m.konts m.current)) := by
  unfold Scheduler.wakeIrq at h
  split at h
  case h_1 pos hpos =>
    obtain ⟨r, hr, rfl⟩ := modify_eq_ok.mp h
    have hwant : r.state = .waitingIrq irq := by simpa [hr] using List.find?_some hpos
    have hne : pos ≠ m.current := hrun.ne_of_blocked hr (by simp [hwant, TaskState.runnable])
    exact ⟨_, .wakeIrq hev hr hwant,
      .stay ⟨(set_tasks_ne _ hne.symm _).trans hrun.task, hrun.runnable⟩⟩
  case h_2 =>
    obtain rfl := Except.ok.inj h
    refine ⟨_, keep_effect (by simp) rfl
      (not_asks (by simp [hev])) fun frame' hframe => ?_,
      .stay (t := t) ⟨hrun.task, hrun.runnable⟩⟩
    obtain rfl := Event.trap.inj hframe
    simp [killCause, hev]

theorem kont_user_of_trap (hen : m.enabled (.trap frame) = true)
    (htimer : decode frame.scause ≠ .supervisorTimer)
    (hext : decode frame.scause ≠ .supervisorExternal) :
    m.konts m.current = .user ∧ frame.fromUser = true := by
  cases hk : m.konts m.current with
  | user => exact ⟨rfl, by simpa [enabled, hk] using hen⟩
  | _ => simp [enabled, hk, htimer, hext] at hen

theorem trapHandler_effect (hrun : m.Runs t) (hen : m.enabled (.trap frame) = true)
    (h : m.trapHandler p input frame = .ok m') : Stepped m t (.trap frame) m' := by
  have hquiet (hcause : killCause frame = none) (hne : decode frame.scause ≠ .userEcall)
      (f : TrapFrame) (wx : Bool) : Effect m t (.trap frame)
        { m.next m.sched f (m.konts m.current) with heal := m.heal, expectingWxFault := wx } := by
    refine keep_effect (by simp) rfl (not_asks hne) fun frame' hframe => ?_
    obtain rfl := Event.trap.inj hframe
    exact hcause
  unfold trapHandler at h
  split at h
  case h_1 hd =>
    simp only [Except.bind_eq_ok_iff, Except.pure_eq_ok_iff] at h
    obtain ⟨_, -, f, -, rfl⟩ := h
    exact ⟨_, hquiet (by simp [killCause, hd]) (by simp [hd]) f m.expectingWxFault,
      .stay (t := t) ⟨hrun.task, hrun.runnable⟩⟩
  case h_2 hd =>
    simp only [Except.bind_eq_ok_iff, Except.pure_eq_ok_iff] at h
    obtain ⟨s', hs', rfl⟩ := h
    exact ⟨_, hquiet (by simp [killCause, hd]) (by simp [hd]) frame m.expectingWxFault,
      yield_switch (m.next m.sched frame (m.konts m.current)) ⟨hrun.task, hrun.runnable⟩ hs'⟩
  case h_3 hd =>
    split at h
    · simp only [Except.bind_eq_ok_iff, Except.pure_eq_ok_iff] at h
      obtain ⟨s', hs', rfl⟩ := h
      exact wakeIrq_effect hrun hd hs'
    · obtain rfl := Except.ok.inj h
      exact ⟨_, hquiet (by simp [killCause, hd]) (by simp [hd]) frame m.expectingWxFault,
        .stay (t := t) ⟨hrun.task, hrun.runnable⟩⟩
  case h_4 hd =>
    simp only [Except.bind_eq_ok_iff] at h
    obtain ⟨out, hout, hfin⟩ := h
    exact dispatch_effect hrun hd hout hfin
  case h_5 hd =>
    split at h
    · exact kill_effect hrun (by simp [killCause, hd]) h
    · cases h
  case h_6 hd =>
    split at h
    · exact kill_effect hrun (by simp [killCause, hd]) h
    · cases h
  case h_7 hd =>
    split at h
    · exact kill_effect hrun (by simp [killCause, hd]) h
    · cases h
  case h_8 hd =>
    split at h
    · exact kill_effect hrun (by simp [killCause, hd]) h
    · exact absurd (kont_user_of_trap hen (by simp [hd]) (by simp [hd])).2 ‹_›
  case h_9 => cases h

theorem resumeRecv_eq {s : Scheduler} (ht : s.tasks s.current = some t) (slot : Nat) :
    s.resumeRecv frame slot = .ok (s.set s.current
      { t with caps := t.caps.receive slot t.caller t.pendingGrant,
               caller := none, pendingGrant := none }, writeMessage frame t.message) := by
  simp only [resumeRecv, Except.bind_eq_ok_iff, task_eq_ok, modify_eq_ok, Except.pure_eq_ok_iff]
  refine ⟨t, ht, _, ⟨t, ht, rfl⟩, _, mintStashed_eq (set_tasks_self _ _ _) _ _, _,
    ⟨_, set_tasks_self _ _ _, rfl⟩, _, installGranted_eq (set_tasks_self _ _ _) _ _, _,
    set_tasks_self _ _ _, ?_⟩
  simp only [set_set, set_current]
  rfl

theorem resumeSyscall_effect (hrun : m.Runs t) (hen : m.enabled .resume = true)
    (h : m.resumeSyscall = .ok m') : Stepped m t .resume m' := by
  unfold resumeSyscall at h
  cases hk : m.konts m.current with
  | user => simp [enabled, hk] at hen
  | kernel pc => simp [enabled, hk] at hen
  | recv ep slot =>
    simp only [hk, resumeRecv_eq hrun.task, Except.bind_eq_ok_iff, Except.pure_eq_ok_iff,
      Except.ok.injEq] at h
    obtain ⟨_, rfl, f, hf, rfl⟩ := h
    obtain ⟨sepc, rfl⟩ := advance_eq_ok hf
    exact ⟨_, .pickUp hk, .stay ⟨set_tasks_self _ _ _, hrun.runnable⟩⟩
  | call =>
    simp only [hk, Except.bind_eq_ok_iff, Except.pure_eq_ok_iff, task_eq_ok] at h
    obtain ⟨t', ht', _, rfl, f, hf, rfl⟩ := h
    obtain rfl : t = t' := Option.some.inj (hrun.task.symm.trans ht')
    obtain ⟨sepc, rfl⟩ := advance_eq_ok hf
    exact ⟨_, .callReturn hk, .stay (t := t) ⟨hrun.task, hrun.runnable⟩⟩
  | send =>
    simp only [hk, Except.bind_eq_ok_iff, Except.pure_eq_ok_iff] at h
    obtain ⟨_, rfl, f, hf, rfl⟩ := h
    exact ⟨_, .settle (.inl hk), .stay (t := t) ⟨hrun.task, hrun.runnable⟩⟩
  | irq =>
    simp only [hk, Except.bind_eq_ok_iff, Except.pure_eq_ok_iff] at h
    obtain ⟨_, rfl, f, hf, rfl⟩ := h
    exact ⟨_, .settle (.inr hk), .stay (t := t) ⟨hrun.task, hrun.runnable⟩⟩

theorem goto_eq_next (sched : Scheduler) (pc : KernelPc) :
    m.goto sched pc = m.next sched (m.frames m.current) (.kernel pc) := by
  simp only [goto, next, save, Function.update_eq_self]

theorem recvMessage_effect (hrun : m.Runs t) {idx : Nat} {s' : Scheduler} {pc : KernelPc}
    (h : m.sched.recvMessage idx = .ok (s', pc)) :
    Stepped m t (.recvMessage idx) (m.goto s' pc) := by
  simp only [recvMessage, Except.bind_eq_ok_iff, task_eq_ok] at h
  obtain ⟨t', ht', h⟩ := h
  obtain rfl : t = t' := Option.some.inj (hrun.task.symm.trans ht')
  cases hcap : t.caps.capLookup idx with
  | none => simp [hcap] at h
  | some ep =>
    cases hfind : m.sched.findBlocked ep .send with
    | none =>
      simp only [hcap, hfind, Except.pure_eq_ok_iff, Prod.mk.injEq] at h
      obtain ⟨rfl, rfl⟩ := h
      rw [goto_eq_next]
      exact ⟨_, .toRecvPark hcap, .stay (t := t) ⟨hrun.task, hrun.runnable⟩⟩
    | some si =>
      obtain ⟨r, hr, hstate⟩ := findBlocked_some hfind
      simp only [hcap, hfind, Except.bind_eq_ok_iff, task_eq_ok, modify_eq_ok,
        Except.pure_eq_ok_iff, Prod.mk.injEq] at h
      obtain ⟨r', hr', _, ⟨r'', hr'', rfl⟩, rfl, rfl⟩ := h
      obtain rfl := Option.some.inj (hr.symm.trans hr')
      obtain rfl := Option.some.inj (hr.symm.trans hr'')
      rw [goto_eq_next]
      have hne : si ≠ m.current := hrun.ne_of_blocked hr (hstate ▸ not_runnable_blocked)
      exact ⟨_, .takeMessage hcap hne hr hstate hfind,
        .stay ⟨(set_tasks_ne _ hne.symm _).trans hrun.task, hrun.runnable⟩⟩

theorem callMessage_effect (hrun : m.Runs t) {idx badge : Nat} {s' : Scheduler} {pc : KernelPc}
    (h : m.sched.callMessage idx badge = .ok (s', pc)) :
    Stepped m t (.callMessage idx badge) (m.goto s' pc) := by
  simp only [callMessage, Except.bind_eq_ok_iff, task_eq_ok] at h
  obtain ⟨t', ht', h⟩ := h
  obtain rfl : t = t' := Option.some.inj (hrun.task.symm.trans ht')
  cases hcap : t.caps.capLookup idx with
  | none => simp [hcap] at h
  | some ep =>
    simp only [hcap, Except.bind_eq_ok_iff, Except.pure_eq_ok_iff, Prod.mk.injEq] at h
    obtain ⟨⟨s₁, b⟩, hoffer, rfl, rfl⟩ := h
    rw [goto_eq_next]
    obtain ⟨rfl, heff⟩ | ⟨rfl, hcur, ht₁, heff⟩ :=
      offer_effect hrun (.callMessage hcap) hoffer
    · obtain ⟨heff, hsame, hcur⟩ := heff (m.frames m.current)
      rw [set_self hsame] at heff
      exact ⟨_, heff, .stay (t := t) ⟨by rwa [← hcur] at hsame, hrun.runnable⟩⟩
    · have heff := heff (m.frames m.current)
      rw [set_self ht₁] at heff
      rw [← hcur] at ht₁
      exact ⟨_, heff, .stay ⟨ht₁, hrun.runnable⟩⟩

theorem readBack_effect (hrun : m.Runs t) (h : m.readBack = .ok m') : Stepped m t .finish m' := by
  have heffect : Effect m t .finish _ := .finish (f := m.frames m.current)
  rw [← goto_eq_next] at heffect
  simp only [readBack, Except.bind_eq_ok_iff, task_eq_ok] at h
  obtain ⟨t', ht', h⟩ := h
  obtain rfl : t = t' := Option.some.inj (hrun.task.symm.trans ht')
  refine ⟨_, heffect, ?_⟩
  split at h
  case h_1 hk =>
    rw [if_pos hk, ← Except.pure_eq_ok_iff.mp h]
    exact .stay (t := t) ⟨hrun.task, hrun.runnable⟩
  case h_2 hk =>
    rw [if_neg hk, ← Except.pure_eq_ok_iff.mp h]
    exact .stay (t := t) ⟨hrun.task, hrun.runnable⟩

theorem keep_kernel {ev : Event} (heal : Heal) (poolInUse : Bool)
    (htrap : ∀ frame, ev ≠ .trap frame) (hresume : ev ≠ .resume) (hsys : ev.isSyscall = true) :
    Effect m t ev { m with heal, poolInUse } := by
  have heffect : Effect m t ev { m.next m.sched (m.frames m.current) (m.konts m.current) with
      heal, poolInUse } := keep_effect hresume hsys (fun _ frame h => htrap frame h.1)
    (fun frame h => absurd h (htrap frame))
  simpa only [next, save, Function.update_eq_self] using heffect

theorem parkPoint_eq_some {k : Kont} {state : TaskState} {pc : KernelPc}
    (h : parkPoint k = some (state, pc)) :
    (∃ ep, k = .kernel (.recvPark ep) ∧ state = .blocked ep .recv ∧ pc = .recvRead) ∨
    (k = .kernel .callPark ∧ state = .awaitingReply ∧ pc = .callRead) ∨
    (∃ ep, k = .kernel (.callQueue ep) ∧ state = .blocked ep .call ∧ pc = .callRead) := by
  unfold parkPoint at h
  split at h
  all_goals simp_all [eq_comm]

theorem exec_effect (hrun : m.Runs t) {l : Label} (hen : m.enabled l.event = true)
    (h : m.exec p l = .ok m') : Stepped m t l.event m' := by
  obtain ⟨ev, input⟩ := l
  cases ev with
  | trap frame => exact trapHandler_effect hrun hen h
  | resume => exact resumeSyscall_effect hrun hen h
  | yieldNow =>
    simp only [exec, Except.bind_eq_ok_iff, Except.pure_eq_ok_iff] at h
    obtain ⟨s', hs', rfl⟩ := h
    exact ⟨m, keep_kernel m.heal m.poolInUse (by simp) (by simp) rfl, yield_switch m hrun hs'⟩
  | recvMessage idx =>
    simp only [exec, Except.bind_eq_ok_iff, Except.pure_eq_ok_iff] at h
    obtain ⟨⟨s', pc⟩, hs', rfl⟩ := h
    exact recvMessage_effect hrun hs'
  | callMessage idx badge =>
    simp only [exec, Except.bind_eq_ok_iff, Except.pure_eq_ok_iff] at h
    obtain ⟨⟨s', pc⟩, hs', rfl⟩ := h
    exact callMessage_effect hrun hs'
  | park =>
    cases hpoint : parkPoint (m.konts m.current) with
    | none => simp [enabled, hpoint] at hen
    | some point =>
      obtain ⟨state, pc⟩ := point
      simp only [exec, hpoint, Except.bind_eq_ok_iff, Except.pure_eq_ok_iff] at h
      obtain ⟨s', hs', rfl⟩ := h
      rw [goto_eq_next]
      have hblocked : ¬ state.runnable := by
        obtain ⟨_, _, rfl, _⟩ | ⟨_, rfl, _⟩ | ⟨_, _, rfl, _⟩ := parkPoint_eq_some hpoint <;>
        simp [TaskState.runnable]
      exact ⟨_, .park hpoint, switch_of_park (m.save _ _) hrun.task hblocked hs'⟩
  | finish => exact readBack_effect hrun h
  | setHeal heal =>
    obtain rfl := Except.ok.inj h
    exact ⟨_, keep_kernel heal m.poolInUse (by simp) (by simp) rfl,
      .stay (t := t) ⟨hrun.task, hrun.runnable⟩⟩
  | setPool inUse =>
    obtain rfl := Except.ok.inj h
    exact ⟨_, keep_kernel m.heal inUse (by simp) (by simp) rfl,
      .stay (t := t) ⟨hrun.task, hrun.runnable⟩⟩

end Machine

end Perenne

import Perenne.Containment
import Perenne.Confinement

namespace Perenne

open Scheduler

/-- `CRASH_CAP`: the healer's slot for the crash endpoint. -/
def crashCap : Nat := 0

/-- The slots `kmain` spawns the healer and its two patients in. -/
abbrev healerSlot : Slot := 9

abbrev transientSlot : Slot := 10

abbrev flakySlot : Slot := 11

/-- Where the loop of `healer_task` stands: before `sys_recv(CRASH_CAP, 0)`, or before
`sys_restart(cap_idx)`. -/
inductive HealerPc where
  | recv
  | restart (capIdx : Nat)
deriving DecidableEq

/-- The event is a system call or the rest of one that had to wait. -/
def Event.calls : Event → Bool
  | .trap frame => decode frame.scause == .userEcall
  | .resume => true
  | _ => false

namespace HealerPc

/-- What the healer does next in U-mode: its next system call, or it is interrupted. -/
def does (pc : HealerPc) : Event → Bool
  | .trap frame =>
    match decode frame.scause with
    | .supervisorTimer | .supervisorExternal => true
    | .userEcall =>
      match pc with
      | .recv => decodeSyscall (frame.regs 16) == .recv && frame.regs 9 == crashCap &&
          frame.regs 10 == 0
      | .restart capIdx => decodeSyscall (frame.regs 16) == .restart && frame.regs 9 == capIdx
    | _ => false
  | _ => true

/-- The loop moves on when its system call has returned: `a0` of `recv` is the badge. -/
def next (pc : HealerPc) (m' : Machine) (ev : Event) : HealerPc :=
  if ev.calls then
    match pc with
    | .recv =>
      if m'.konts healerSlot = .user then .restart ((m'.frames healerSlot).regs 9) else .recv
    | .restart _ => .recv
  else pc

end HealerPc

/-- The crash endpoint, or the right to restart a task. -/
def Capability.caged : Capability → Bool
  | .endpoint ep => ep == crashEp
  | .restart _ => true
  | _ => false

/-- The healer's table: the crash endpoint where its loop looks it up, and a patient's
`Restart` capability in the slot of the patient's badge. -/
structure Caps.Healing (caps : Caps) : Prop where
  crash : caps.capLookup crashCap = some crashEp
  only {k : Nat} {cap : Capability} (h : caps.capAt k = some cap) :
    cap = .endpoint crashEp ∨ (k = 1 ∧ cap = .restart transientSlot.val) ∨
      (k = 2 ∧ cap = .restart flakySlot.val)

theorem Caps.Healing.restartTarget {caps : Caps} (h : caps.Healing) {k n : Nat}
    (hn : caps.restartTarget k = some n) :
    (k = 1 ∧ n = transientSlot.val) ∨ (k = 2 ∧ n = flakySlot.val) := by
  obtain hcap | ⟨hk, hcap⟩ | ⟨hk, hcap⟩ := h.only (Caps.restartTarget_eq_some.mp hn)
  · cases hcap
  · exact .inl ⟨hk, Capability.restart.inj hcap⟩
  · exact .inr ⟨hk, Capability.restart.inj hcap⟩

namespace HealerPc

variable {pc : HealerPc} {ev : Event}

theorem does_asks (h : pc.does ev = true) {sys : Syscall} {frame : TrapFrame}
    (hask : ev.asks sys frame) :
    (pc = .recv ∧ sys = .recv ∧ frame.regs 9 = crashCap ∧ frame.regs 10 = 0) ∨
    (pc = .restart (frame.regs 9) ∧ sys = .restart) := by
  obtain ⟨rfl, hec, rfl⟩ := hask
  cases pc <;> simp_all [does]

theorem does_not_fault {frame : TrapFrame} (h : pc.does (.trap frame) = true) :
    Machine.killCause frame = none := by
  unfold does at h
  unfold Machine.killCause
  split <;> simp_all

end HealerPc

namespace Machine

variable {p : Platform} {m m₁ m' : Machine} {t : Task} {ev : Event} {caps : Caps}

/-- The healer's authority stays with it: no other task owns a capability of the cage or
waits on the crash endpoint, and the healer is in its own code or in the `recv` of its loop. -/
structure Guarded (caps : Caps) (m : Machine) : Prop where
  others {i : Slot} {t : Task} {cap : Capability} (hi : i ≠ healerSlot)
    (ht : m.sched.tasks i = some t) (hcap : t.owns cap) : cap.caged = false
  table {t : Task} (ht : m.sched.tasks healerSlot = some t) :
    t.caps = caps ∧ t.pendingGrant = none ∧ t.caller = none
  blocked {i : Slot} {t : Task} {role : IpcRole} (ht : m.sched.tasks i = some t)
    (hst : t.state = .blocked crashEp role) : i = healerSlot
  parking (i : Slot) : m.konts i ≠ .kernel (.recvPark crashEp) ∧
    m.konts i ≠ .kernel (.callQueue crashEp)
  stands {t : Task} (ht : m.sched.tasks healerSlot = some t) :
    (m.konts healerSlot = .user ∧ t.state.runnable) ∨
    (m.konts healerSlot = .recv crashEp 0 ∧
      (t.state = .blocked crashEp .recv ∨ t.state.runnable))

theorem effect_parking {i : Slot} {ep : EndpointId} {pc : KernelPc}
    (hpc : pc = .recvPark ep ∨ pc = .callQueue ep) (heff : Effect m t ev m₁)
    (hk : m₁.konts i = .kernel pc) : m.konts i = .kernel pc ∨ i = m.current ∧ t.holds ep := by
  have hsame {s : Scheduler} {f : TrapFrame}
      (hk : (m.next s f (m.konts m.current)).konts i = .kernel pc) :
      m.konts i = .kernel pc ∨ i = m.current ∧ t.holds ep := by
    rw [next_konts_same] at hk
    exact .inl hk
  have hmoved {s : Scheduler} {f : TrapFrame} {k : Kont} (hno : k = .kernel pc → t.holds ep)
      (hk : (m.next s f k).konts i = .kernel pc) :
      m.konts i = .kernel pc ∨ i = m.current ∧ t.holds ep := by
    rw [next_konts] at hk
    split at hk
    case isTrue hi => exact .inr ⟨hi, hno hk⟩
    case isFalse => exact .inl hk
  cases heff with
  | keep => exact hsame (s := m.sched) hk
  | deliver hoffer =>
    cases hoffer with
    | send => exact hsame hk
    | grant => exact hsame hk
    | call => exact hmoved (by exact nofun) hk
    | callMessage =>
      refine hmoved (fun h => ?_) hk
      obtain rfl | rfl := hpc <;> cases h
  | enqueue hoffer =>
    cases hoffer with
    | callMessage hcap =>
      refine hmoved (fun h => ?_) hk
      obtain rfl | rfl := hpc <;> cases h
      exact ⟨_, hcap⟩
    | _ => exact hmoved (by exact nofun) hk
  | toRecvPark hcap =>
    refine hmoved (fun h => ?_) hk
    obtain rfl | rfl := hpc <;> cases h
    exact ⟨_, hcap⟩
  | park hpoint =>
    refine hmoved (fun h => ?_) hk
    obtain ⟨_, -, -, rfl⟩ | ⟨-, -, rfl⟩ | ⟨_, -, -, rfl⟩ := parkPoint_eq_some hpoint <;>
      obtain rfl | rfl := hpc <;> cases h
  | takeMessage =>
    refine hmoved (fun h => ?_) hk
    obtain rfl | rfl := hpc <;> cases h
  | finish =>
    refine hmoved (fun h => ?_) hk
    obtain rfl | rfl := hpc <;> cases h
  | take => exact hsame hk
  | reply => exact hsame hk
  | replyRefused => exact hsame hk
  | revoke => exact hsame hk
  | wakeIrq => exact hsame hk
  | waitRecv => exact hmoved (by exact nofun) hk
  | waitIrq => exact hmoved (by exact nofun) hk
  | pickUp => exact hmoved (by exact nofun) hk
  | callReturn => exact hmoved (by exact nofun) hk
  | settle => exact hmoved (by exact nofun) hk
  | @relaunch _ _ _ _ target =>
    by_cases hi : i = target
    · subst hi
      simp at hk
    · exact .inl ((Function.update_of_ne hi _ _).symm.trans hk)
  | exit => exact .inl hk
  | kill => exact .inl hk
  | crash => exact .inl hk

theorem effect_of_park (heff : Effect m t .park m₁) : ∃ state pc frame,
    parkPoint (m.konts m.current) = some (state, pc) ∧
    m₁ = m.next (m.sched.set m.current { t with state }) frame (.kernel pc) := by
  have hoffered {ep msg caller granted taken queued}
      (hoffer : Offer m t .park ep msg caller granted taken queued) : False := by
    cases hoffer with
    | send hask => cases hask.1
    | call hask => cases hask.1
    | grant hask => cases hask.1
  cases heff with
  | park hpoint => exact ⟨_, _, _, hpoint, rfl⟩
  | keep _ hsys => cases hsys
  | deliver hoffer => exact (hoffered hoffer).elim
  | enqueue hoffer => exact (hoffered hoffer).elim
  | take hask => cases hask.1
  | waitRecv hask => cases hask.1
  | waitIrq hask => cases hask.1
  | reply hask => cases hask.1
  | replyRefused hask => cases hask.1
  | revoke hask => cases hask.1
  | relaunch hask => cases hask.1
  | exit hask => cases hask.1

section Guarded

variable (h : m.Guarded caps) (hrun : m.Runs t)

include h hrun

theorem Guarded.holds (hep : t.holds crashEp) : m.current = healerSlot := by
  by_contra hne
  obtain ⟨k, hk⟩ := hep
  have := h.others hne hrun.task (.inl ⟨k, Caps.capLookup_eq_some.mp hk⟩)
  simp [Capability.caged] at this

theorem Guarded.restarts {k n : Nat} (hcap : t.caps.restartTarget k = some n) :
    m.current = healerSlot := by
  by_contra hne
  have := h.others hne hrun.task (.inl ⟨k, Caps.restartTarget_eq_some.mp hcap⟩)
  simp [Capability.caged] at this

theorem healer_kont (hne : m.current ≠ healerSlot) (heff : Effect m t ev m₁) :
    m₁.konts healerSlot = m.konts healerSlot := by
  have hnext {s : Scheduler} {f : TrapFrame} {k : Kont} :
      (m.next s f k).konts healerSlot = m.konts healerSlot :=
    (next_konts ..).trans (if_neg hne.symm)
  cases heff with
  | keep => exact hnext (s := m.sched)
  | relaunch _ hcap => exact absurd (h.restarts hrun hcap) hne
  | exit => rfl
  | kill => rfl
  | crash => rfl
  | _ => exact hnext

theorem healer_waits (hne : m.current ≠ healerSlot) (hcaps : caps.Healing)
    (heff : Effect m t ev m₁) {r' : Task} (hr' : m₁.sched.tasks healerSlot = some r') :
    ∃ r, m.sched.tasks healerSlot = some r ∧ (r' = r ∨
      r.state = .blocked crashEp .recv ∧
        r' = { r with message := ⟨t.crashBadge, 0, 0, 0⟩, state := .ready } ∧
        ∃ frame cause, ev = .trap frame ∧ killCause frame = some cause ∧
          m.notified t cause = some healerSlot ∧ (m.heal.onCrash cause).2 = false) := by
  obtain ⟨r, hr, hch⟩ := effect_change hrun heff hr'
  refine ⟨r, hr, ?_⟩
  obtain ⟨htable, hgrant, hcaller⟩ := h.table hr
  -- The healer waits on the crash endpoint or not at all.
  have hstate {st : TaskState} (hst : r.state = st) (hno : ¬ st.runnable) :
      st = .blocked crashEp .recv := by
    obtain ⟨-, hrunnable⟩ | ⟨-, hblocked | hrunnable⟩ := h.stands hr
    · exact absurd (hst ▸ hrunnable) hno
    · exact hst.symm.trans hblocked
    · exact absurd (hst ▸ hrunnable) hno
  have hself {P : Prop} (hi : healerSlot = m.current) : P := absurd hi.symm hne
  cases hch with
  | same => exact .inl rfl
  | wait hi => exact hself hi
  | queue hi => exact hself hi
  | receive hi => exact hself hi
  | pickUp hi => exact hself hi
  | spend hi => exact hself hi
  | @accept ep msg caller granted _ hep hst =>
    obtain ⟨rfl, -⟩ := TaskState.blocked.inj (hstate hst not_runnable_blocked)
    exact absurd (h.holds hrun hep) hne
  | @taken ep isCall _ _ _ hst =>
    have := hstate hst not_runnable_blocked
    cases isCall <;> simp at this
  | read _ _ hst => cases hstate hst not_runnable_blocked
  | answer _ _ _ hst => cases hstate hst (by simp [TaskState.runnable])
  | @sweep ep frame _ hep =>
    have hkeep : (r.caps.revokeInCaps ep).1 = r.caps := by
      refine Caps.revokeInCaps_eq_self fun k hk => ?_
      rw [htable] at hk
      obtain hcap | ⟨-, hcap⟩ | ⟨-, hcap⟩ := hcaps.only hk
      · obtain rfl := Capability.endpoint.inj hcap
        exact absurd (h.holds hrun hep) hne
      · cases hcap
      · cases hcap
    exact .inl (by rw [hkeep])
  | relaunch hcap => exact absurd (h.restarts hrun hcap) hne
  | interrupt _ _ hst => cases hstate hst (by simp [TaskState.runnable])
  | @notify frame cause hev hcause hst hnotify =>
    refine .inr ⟨hst, rfl, frame, cause, hev, hcause, hnotify, ?_⟩
    unfold notified at hnotify
    split at hnotify
    case isTrue hsent => simpa using (Bool.and_eq_true_iff.mp hsent).2
    case isFalse => cases hnotify

/-- The healer's own step: it is interrupted or restarts a task, it waits for the next
report, or it resumes with the badge of the one it was woken by. -/
theorem healer_acts (hcur : m.current = healerSlot) (hcaps : caps.Healing) {pc : HealerPc}
    (hdoes : pc.does ev = true) (hen : m.enabled ev = true) (heff : Effect m t ev m₁) :
    ((ev.calls = false ∨ ∃ frame, ev.asks .restart frame) ∧
      m₁.sched.tasks healerSlot = some t ∧ m₁.konts healerSlot = m.konts healerSlot) ∨
    (m₁.sched.tasks healerSlot = some { t with state := .blocked crashEp .recv } ∧
      m₁.konts healerSlot = .recv crashEp 0 ∧ pc = .recv) ∨
    (ev = .resume ∧ m.konts healerSlot = .recv crashEp 0 ∧
      m₁.sched.tasks healerSlot = some t ∧ m₁.konts healerSlot = .user ∧
      (m₁.frames healerSlot).regs 9 = t.message.badge) := by
  have htask := hcur ▸ hrun.task
  obtain ⟨htable, hgrant, hcaller⟩ := h.table htask
  have hask {sys : Syscall} {frame : TrapFrame} (hask : ev.asks sys frame)
      (hrecv : sys ≠ .recv) (hrestart : sys ≠ .restart) : False := by
    obtain ⟨-, hsys, -⟩ | ⟨-, hsys⟩ := HealerPc.does_asks hdoes hask
    · exact hrecv hsys
    · exact hrestart hsys
  -- Its kernel stack holds nothing, or the rest of a `recv`.
  have hkont : m.konts m.current = .user ∨ m.konts m.current = .recv crashEp 0 := by
    rw [hcur]
    exact (h.stands htask).imp And.left And.left
  have hkernel {pc : KernelPc} (hk : m.konts m.current = .kernel pc) : False := by
    obtain hu | hr := hkont
    · cases hk.symm.trans hu
    · cases hk.symm.trans hr
  have hoffered {ep msg caller granted taken queued}
      (hoffer : Offer m t ev ep msg caller granted taken queued) : False := by
    cases hoffer with
    | send h => exact hask h (by simp) (by simp)
    | call h => exact hask h (by simp) (by simp)
    | grant h => exact hask h (by simp) (by simp)
    | callMessage =>
      obtain ⟨ret, hk⟩ := kont_body_of_callMessage hen
      exact hkernel hk
  have hother {i : Slot} {r : Task} (hne : i ≠ m.current) :
      (m.sched.set i r).tasks healerSlot = some t :=
    (set_tasks_ne _ (hcur ▸ hne.symm) _).trans htask
  cases heff with
  | keep hev hsys hrefuse hkill =>
    refine .inl ⟨?_, htask, next_konts_same (s := m.sched) _⟩
    cases ev with
    | trap frame =>
      by_cases hec : decode frame.scause = .userEcall
      · have hself : Event.asks (.trap frame) (decodeSyscall (frame.regs 16)) frame := ⟨rfl, hec, rfl⟩
        obtain ⟨-, hrecv, hidx, -⟩ | ⟨-, hrestart⟩ := HealerPc.does_asks hdoes hself
        · have hno := hrefuse _ frame hself
          rw [hrecv] at hno
          have : t.caps.capLookup (frame.regs 9) = none := hno
          rw [hidx, htable, hcaps.crash] at this
          cases this
        · exact .inr ⟨frame, hrestart ▸ hself⟩
      · exact .inl (by simpa [Event.calls] using hec)
    | resume => exact absurd rfl hev
    | _ => exact .inl rfl
  | deliver hoffer => exact (hoffered hoffer).elim
  | enqueue hoffer => exact (hoffered hoffer).elim
  | @take _ frame ep _ si r isCall hask' hcap hfind hne hr hstate =>
    obtain ⟨-, -, hidx, -⟩ | ⟨-, hsys⟩ := HealerPc.does_asks hdoes hask'
    · rw [hidx, htable, hcaps.crash] at hcap
      obtain rfl := Option.some.inj hcap
      exact absurd (hcur ▸ h.blocked hr hstate) hne
    · cases hsys
  | takeMessage =>
    obtain ⟨ret, hk⟩ := kont_body_of_recvMessage hen
    exact (hkernel hk).elim
  | toRecvPark =>
    obtain ⟨ret, hk⟩ := kont_body_of_recvMessage hen
    exact (hkernel hk).elim
  | @waitRecv _ frame ep hask' hcap hfind =>
    obtain ⟨hpc, -, hidx, hslot⟩ | ⟨-, hsys⟩ := HealerPc.does_asks hdoes hask'
    · rw [hidx, htable, hcaps.crash] at hcap
      obtain rfl := Option.some.inj hcap
      refine .inr (.inl ⟨?_, ?_, hpc⟩)
      · rw [← hcur]
        exact set_tasks_self ..
      · rw [next_konts, if_pos hcur.symm, hslot]
    · cases hsys
  | waitIrq hask' => exact (hask hask' (by simp) (by simp)).elim
  | park hpoint =>
    obtain ⟨ep, hk, -⟩ | ⟨hk, -⟩ | ⟨ep, hk, -⟩ := parkPoint_eq_some hpoint <;>
      exact (hkernel hk).elim
  | @pickUp ep slot sepc hk =>
    obtain hu | hr := hkont
    · cases hk.symm.trans hu
    · refine .inr (.inr ⟨rfl, hcur ▸ hr, ?_, ?_, ?_⟩)
      · rw [← hcur, next, set_tasks_self, hcaller, hgrant, receive_none]
        have : t = { t with caller := none, pendingGrant := none } := by
          rw [← hcaller, ← hgrant]
        exact congrArg some this.symm
      · rw [next_konts, if_pos hcur.symm]
      · simp [next, save, hcur, writeMessage]
  | callReturn hk =>
    obtain hu | hr := hkont
    · cases hk.symm.trans hu
    · cases hk.symm.trans hr
  | settle hk =>
    obtain hk | hk := hk <;> obtain hu | hr := hkont
    · cases hk.symm.trans hu
    · cases hk.symm.trans hr
    · cases hk.symm.trans hu
    · cases hk.symm.trans hr
  | finish =>
    obtain hu | hr := hkont
    · simp [enabled, hu] at hen
    · simp [enabled, hr] at hen
  | reply hask' => exact (hask hask' (by simp) (by simp)).elim
  | replyRefused hask' => exact (hask hask' (by simp) (by simp)).elim
  | revoke hask' => exact (hask hask' (by simp) (by simp)).elim
  | @relaunch _ frame _ _ target r hask' hcap hr hbound huser =>
    have hne : target ≠ m.current := by
      rw [htable] at hcap
      rw [hcur]
      rintro rfl
      obtain ⟨-, hn⟩ | ⟨-, hn⟩ := hcaps.restartTarget hcap <;>
        exact absurd hn (by decide)
    refine .inl ⟨.inr ⟨frame, hask'⟩, hother hne, ?_⟩
    exact Function.update_of_ne (hcur ▸ hne.symm) _ _
  | wakeIrq hd hr hstate =>
    have hne := hrun.ne_of_blocked hr (by simp [hstate, TaskState.runnable])
    exact .inl ⟨.inl (by simp [Event.calls, hd]), hother hne, next_konts_same _⟩
  | exit hask' => exact (hask hask' (by simp) (by simp)).elim
  | kill hcause =>
    rw [HealerPc.does_not_fault hdoes] at hcause
    cases hcause
  | crash hcause =>
    rw [HealerPc.does_not_fault hdoes] at hcause
    cases hcause

theorem effect_guarded (hcaps : caps.Healing) (hen : m.enabled ev = true)
    (hdoes : m.current = healerSlot → ∃ pc : HealerPc, pc.does ev = true)
    (hroles : m.Roles) (heff : Effect m t ev m₁) : m₁.Guarded caps := by
  -- The healer is a U-mode task, so it never stands inside a kernel task's IPC.
  have huser {pc : KernelPc} (hcur : m.current = healerSlot)
      (hk : m₁.konts m.current = .kernel pc) : False := by
    obtain ⟨t', ht', hst⟩ := exists_task_of_static (effect_static hrun heff m.current).symm hrun.task
    have hrole₁ := effect_roles hroles hrun hen heff _ t' ht'
    have hrole := hroles _ t hrun.task
    rw [hk, ← isUser_of_static hst, ← hrole, hcur] at hrole₁
    obtain ⟨hu, -⟩ | ⟨hr, -⟩ := h.stands (hcur ▸ hrun.task)
    · rw [hu] at hrole₁
      cases hrole₁
    · rw [hr] at hrole₁
      cases hrole₁
  refine ⟨fun {i t' cap} hi ht' hown => ?_, fun {t'} ht' => ?_, fun {i t' role} ht' hst => ?_,
    fun i => ⟨fun hk => ?_, fun hk => ?_⟩, fun {t'} ht' => ?_⟩
  · -- What another task owns it owned before, or got from a task that is not the healer.
    obtain ⟨r, hr, hch⟩ := effect_change hrun heff ht'
    obtain ⟨k, hcap⟩ | hgrant := hown
    · cases hch.capSource hr hrun hcap with
      | kept hr hcap => exact h.others hi hr (.inl ⟨_, hcap⟩)
      | stashed => rfl
      | minted => rfl
      | carried hcur hgrant => exact h.others (hcur ▸ hi) hrun.task (.inr hgrant)
      | @granted ep role r cap si _ _ hr hst hgrant =>
        refine h.others (fun hsi => ?_) hr (.inr hgrant)
        cases hgrant.symm.trans (h.table (hsi ▸ hr)).2.1
    · have hgive {frame : TrapFrame} (hask : ev.asks .grant frame) : m.current ≠ healerSlot := by
        intro hcur
        obtain ⟨pc, hpc⟩ := hdoes hcur
        obtain ⟨-, hsys, -⟩ | ⟨-, hsys⟩ := HealerPc.does_asks hpc hask <;> cases hsys
      cases hch.grantSource hr hgrant with
      | kept hr hgrant => exact h.others hi hr (.inr hgrant)
      | queued _ hask _ hsrc => exact h.others (hgive hask) hrun.task (.inl ⟨_, hsrc⟩)
      | sent hask _ hsrc => exact h.others (hgive hask) hrun.task (.inl ⟨_, hsrc⟩)
  · by_cases hcur : m.current = healerSlot
    · obtain ⟨pc, hpc⟩ := hdoes hcur
      have htable := h.table (hcur ▸ hrun.task)
      obtain ⟨-, ht, -⟩ | ⟨ht, -⟩ | ⟨-, -, ht, -⟩ := healer_acts h hrun hcur hcaps hpc hen heff <;>
        obtain rfl := Option.some.inj (ht.symm.trans ht') <;> exact htable
    · obtain ⟨r, hr, hcase⟩ := healer_waits h hrun hcur hcaps heff ht'
      have htable := h.table hr
      obtain rfl | ⟨-, rfl, -⟩ := hcase <;> exact htable
  · obtain ⟨r, hr, hch⟩ := effect_change hrun heff ht'
    cases hch.blockSource hr hst with
    | kept hr hst => exact h.blocked hr hst
    | asked hcur hep => exact hcur ▸ h.holds hrun hep
    | parked hev =>
      subst hev
      obtain ⟨state, pc, f, hpoint, rfl⟩ := effect_of_park heff
      obtain ⟨rfl, rfl⟩ | ⟨-, hold⟩ := set_tasks_some ht'
      · -- It waits where it was about to wait.
        obtain ⟨ep, hk, rfl, -⟩ | ⟨-, rfl, -⟩ | ⟨ep, hk, rfl, -⟩ := parkPoint_eq_some hpoint <;>
          cases hst
        · exact absurd hk (h.parking _).1
        · exact absurd hk (h.parking _).2
      · exact h.blocked hold hst
  · obtain hold | ⟨hi, hep⟩ := effect_parking (.inl rfl) heff hk
    · exact (h.parking i).1 hold
    · exact huser (h.holds hrun hep) (hi ▸ hk)
  · obtain hold | ⟨hi, hep⟩ := effect_parking (.inr rfl) heff hk
    · exact (h.parking i).2 hold
    · exact huser (h.holds hrun hep) (hi ▸ hk)
  · by_cases hcur : m.current = healerSlot
    · obtain ⟨pc, hpc⟩ := hdoes hcur
      have hstands := h.stands (hcur ▸ hrun.task)
      obtain ⟨-, ht, hk⟩ | ⟨ht, hk, -⟩ | ⟨-, -, ht, hk, -⟩ :=
          healer_acts h hrun hcur hcaps hpc hen heff <;>
        obtain rfl := Option.some.inj (ht.symm.trans ht') <;> rw [hk]
      · exact hstands
      · exact .inr ⟨rfl, .inl rfl⟩
      · exact .inl ⟨rfl, hrun.runnable⟩
    · rw [healer_kont h hrun hcur heff]
      obtain ⟨r, hr, rfl | ⟨hst, rfl, -⟩⟩ := healer_waits h hrun hcur hcaps heff ht'
      · exact h.stands hr
      · obtain ⟨-, hrunnable⟩ | ⟨hkont, -⟩ := h.stands hr
        · exact absurd (hst ▸ hrunnable) not_runnable_blocked
        · exact .inr ⟨hkont, .inr (.inl rfl)⟩

end Guarded

theorem switch_guarded (h : m.Guarded caps) (hsw : Switch m m') : m'.Guarded caps := by
  have hkonts : m'.konts = m.konts := by cases hsw <;> rfl
  refine ⟨fun hi ht' hown => ?_, fun ht' => ?_, fun ht' hst => ?_, fun i => ?_, fun ht' => ?_⟩
  · obtain ⟨r, hr, heq, -⟩ := hsw.task ht'
    rw [heq] at hown
    exact h.others hi hr hown
  · obtain ⟨r, hr, heq, -⟩ := hsw.task ht'
    have htable := h.table hr
    rw [heq]
    exact htable
  · obtain ⟨r, hr, -, hstate | ⟨-, hrunnable⟩⟩ := hsw.task ht'
    · exact h.blocked hr (hstate.symm.trans hst)
    · exact absurd (hst ▸ hrunnable) not_runnable_blocked
  · rw [hkonts]
    exact h.parking i
  · obtain ⟨r, hr, -, hstate⟩ := hsw.task ht'
    rw [hkonts]
    obtain hstate | ⟨hr₁, hr₂⟩ := hstate
    · rw [hstate]
      exact h.stands hr
    · refine (h.stands hr).imp (fun hs => ⟨hs.1, hr₂⟩) fun hs => ⟨hs.1, .inr hr₂⟩

end Machine

/-- The capabilities of the cage go to the healer, and it gets no others. -/
def cagedOnly (x : (Nat × Nat) × Capability) : Bool :=
  (!x.2.caged || x.1.1 == healerSlot.val) &&
  (x.1.1 != healerSlot.val || x.2 == .endpoint crashEp ||
    (x.1.2 == 1 && x.2 == .restart transientSlot.val) ||
    (x.1.2 == 2 && x.2 == .restart flakySlot.val))

theorem outline_caged (rng blk net : Bool) :
    ∀ x ∈ grants (kmain .zero (.present rng blk net)), cagedOnly x = true := by
  revert rng blk net
  decide +kernel

theorem outline_healer (rng blk net : Bool) :
    (roster (kmain .zero (.present rng blk net)))[healerSlot.val]? = some ("healer", true) ∧
    ((healerSlot.val, crashCap), .endpoint crashEp) ∈ grants (kmain .zero (.present rng blk net)) := by
  revert rng blk net
  decide +kernel

def badges (ops : List BootOp) : List (Nat × Nat) :=
  ops.filterMap fun
    | .setCrashBadge slot badge => some (slot, badge)
    | _ => none

theorem kmain_badges (l : Layout) (d : Devices) :
    badges (kmain l d) = [(transientSlot.val, 1), (flakySlot.val, 2)] := by
  obtain ⟨_ | rng, _ | blk, _ | net⟩ := d <;> rfl

section Booted

open Machine

variable {p : Platform} {heal : Heal} {ops : List BootOp} {m : Machine}

theorem boot_badge (h : boot p heal ops = .ok m) {i : Slot} {t : Task}
    (ht : m.sched.tasks i = some t) : t.crashBadge = 0 ∨ (i.val, t.crashBadge) ∈ badges ops := by
  refine boot_slots (P := fun i t => t.crashBadge = 0 ∨ (i.val, t.crashBadge) ∈ badges ops) h
    (fun s hs => bootOps_slots ?_ ?_ ?_ ?_ ?_ (by simp [Scheduler.new]) hs) (fun _ _ _ hb => hb) ht
  · exact fun _ _ _ _ => .inl rfl
  · exact fun _ _ _ _ _ _ _ => .inl rfl
  · exact fun _ _ _ _ _ hb => hb
  · exact fun i t badge hmem _ => .inr (List.mem_filterMap.mpr ⟨_, hmem, rfl⟩)
  · exact fun _ _ _ _ hb => hb

theorem boot_generation (h : boot p heal ops = .ok m) {i : Slot} {t : Task}
    (ht : m.sched.tasks i = some t) (huser : t.isUser = true) : t.context.s 3 = 0 := by
  refine boot_slots (P := fun _ t => t.isUser = true → t.context.s 3 = 0) h
    (fun s hs => bootOps_slots ?_ ?_ ?_ ?_ ?_ (by simp [Scheduler.new]) hs) (fun _ _ _ hb => hb) ht
    huser
  · exact fun _ _ _ _ hkernel => by cases hkernel
  · exact fun _ _ _ _ _ _ _ _ => rfl
  · exact fun _ _ _ _ _ hb => hb
  · exact fun _ _ _ _ hb => hb
  · intro i t a1 a2 hb huser
    simpa using hb huser

theorem kmain_guarded {a : Layout} {d : Devices} (h : boot p heal (kmain a d) = .ok m) :
    ∃ caps : Caps, caps.Healing ∧ m.Guarded caps := by
  obtain ⟨hroster, hgrants⟩ := kmain_outline a d
  have hfresh := boot_fresh h
  obtain ⟨hkind, hcrash⟩ := outline_healer d.rng.isSome d.blk.isSome d.net.isSome
  rw [← hgrants] at hcrash
  obtain ⟨i, t, hi, ht, hcap⟩ := boot_grants h (exists_of_mem_grants hcrash)
    (hgrants ▸ outline_once ..)
  obtain rfl : healerSlot = i := Fin.ext hi
  rw [← hroster, ← boot_kind h healerSlot, ht] at hkind
  have huser : t.isUser = true := congrArg Prod.snd (Option.some.inj hkind)
  -- A table entry is one of those the outline lists.
  have hlisted {j : Slot} {r : Task} {k : Nat} {cap : Capability} (hr : m.sched.tasks j = some r)
      (hcap : r.caps.capAt k = some cap) : cagedOnly ((j.val, k), cap.blank) = true := by
    have hmem := mem_grants (boot_capAt h hr hcap)
    rw [hgrants] at hmem
    exact outline_caged _ _ _ _ hmem
  refine ⟨t.caps, ⟨Caps.capLookup_eq_some.mpr hcap, fun {k cap} hk => ?_⟩,
    ⟨fun {j r cap} hj hr hown => ?_, fun {r} hr => ?_, fun {j r role} hr hst => ?_, fun j => ?_,
      fun {r} hr => ?_⟩⟩
  · have := hlisted ht hk
    cases cap <;> simp_all [cagedOnly, Capability.blank]
  · obtain ⟨k, hk⟩ | hgrant := hown
    · have := hlisted hr hk
      have hj' : j.val ≠ healerSlot.val := fun heq => hj (Fin.ext heq)
      cases cap <;> simp_all [cagedOnly, Capability.blank, Capability.caged]
    · rw [(hfresh.task hr).pendingGrant] at hgrant
      cases hgrant
  · obtain rfl := Option.some.inj (ht.symm.trans hr)
    exact ⟨rfl, (hfresh.task hr).pendingGrant, (hfresh.task hr).caller⟩
  · exact absurd (hst ▸ (hfresh.task hr).state) not_runnable_blocked
  · rw [hfresh.kont j]
    split <;> simp
  · refine .inl ⟨?_, (hfresh.task hr).state⟩
    rw [hfresh.kont healerSlot, ht]
    simp [huser]

end Booted

end Perenne

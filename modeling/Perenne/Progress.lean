import Perenne.Provenance

namespace Perenne

open Except

namespace Scheduler

variable {Q : Panic → Prop} {s : Scheduler} {t : Task} {i : Slot}

/-- The current slot is occupied, and the task in slot `i` is ready to take over. -/
structure CanSwitch (s : Scheduler) (i : Slot) : Prop where
  running : ∃ t, s.tasks s.current = some t
  ne : i ≠ s.current
  ready : ∃ u, s.tasks i = some u ∧ u.state = .ready

theorem task_meets {P : Task → Prop} (ht : s.tasks i = some t) (hP : P t) :
    Meets Q P (s.task i) :=
  .of_eq_ok (task_eq_ok.mpr ht) hP

theorem modify_meets {P : Scheduler → Prop} {f : Task → Task} (ht : s.tasks i = some t)
    (hP : P (s.set i (f t))) : Meets Q P (s.modify i f) :=
  .of_eq_ok (modify_eq_ok.mpr ⟨t, ht, rfl⟩) hP

theorem CanSwitch.set (h : s.CanSwitch i) {j : Slot} {t' : Task}
    (hstate : j = i → t'.state = .ready) : (s.set j t').CanSwitch i := by
  obtain ⟨t, ht⟩ := h.running
  obtain ⟨u, hu, hready⟩ := h.ready
  refine ⟨?_, h.ne, ?_⟩
  · by_cases hj : s.current = j
    · exact ⟨t', hj ▸ set_tasks_self ..⟩
    · exact ⟨t, (set_tasks_ne _ hj _).trans ht⟩
  · by_cases hj : i = j
    · exact ⟨t', hj ▸ set_tasks_self .., hstate hj.symm⟩
    · exact ⟨u, (set_tasks_ne _ hj _).trans hu, hready⟩

theorem CanSwitch.ne_of_state (h : s.CanSwitch i) {j : Slot} {r : Task}
    (hr : s.tasks j = some r) (hstate : r.state ≠ .ready) : j ≠ i := by
  rintro rfl
  obtain ⟨u, hu, hready⟩ := h.ready
  obtain rfl := Option.some.inj (hr.symm.trans hu)
  exact hstate hready

theorem pickNext_ne (hi : i ≠ s.current) (ht : s.tasks i = some t) (hready : t.state = .ready) :
    s.pickNext ≠ s.current := by
  have hcur := s.current.isLt
  have hother (j : Slot) (hj : j ∈ (List.range' 1 (maxTasks - 1)).map fun offset =>
      Fin.ofNat maxTasks (s.current + offset)) : j ≠ s.current := by
    obtain ⟨offset, hoff, rfl⟩ := List.mem_map.mp hj
    rw [List.mem_range'_1] at hoff
    intro h
    have := congrArg Fin.val h
    simp only [Fin.ofNat, maxTasks] at this hoff hcur
    omega
  have hmem : i ∈ (List.range' 1 (maxTasks - 1)).map fun offset =>
      Fin.ofNat maxTasks (s.current + offset) := by
    have hlt := i.isLt
    have hval : i.val ≠ s.current.val := fun h => hi (Fin.ext h)
    refine List.mem_map.mpr ⟨(i.val + maxTasks - s.current.val) % maxTasks, ?_, ?_⟩
    · rw [List.mem_range'_1]
      simp only [maxTasks] at hlt hcur ⊢
      omega
    · apply Fin.ext
      simp only [Fin.ofNat, maxTasks] at hlt hcur ⊢
      omega
  unfold pickNext
  cases hfind : List.find? _ _ with
  | none =>
    have := List.find?_eq_none.mp hfind i hmem
    simp [ht, hready] at this
  | some j => exact hother j (List.mem_of_find?_eq_some hfind)

theorem switchTo_meets {live : Context} {next : Slot} {u : Task}
    (ht : s.tasks s.current = some t) (hu : s.tasks next = some u) :
    Meets Q (fun _ => True) (s.switchTo live next) := by
  refine (modify_meets (P := fun s' => s' = s.set next { u with state := .running }) hu rfl).bind ?_
  rintro _ rfl
  by_cases h : s.current = next
  · exact modify_meets (t := { u with state := .running }) (by simp [set, h]) trivial
  · exact modify_meets (t := t) (by simpa [set, h] using ht) trivial

theorem yieldNow_meets (ht : s.tasks s.current = some t) (live : Context) :
    Meets Q (fun _ => True) (s.yieldNow live) := by
  unfold yieldNow
  split
  case isTrue => trivial
  case isFalse hne =>
    obtain ⟨u, hu, -⟩ := pickNext_ready hne
    refine (modify_meets (P := fun s' => s' = s.set s.current { t with state := .ready })
      ht rfl).bind ?_
    rintro _ rfl
    exact switchTo_meets (set_tasks_self ..) ((set_tasks_ne _ hne _).trans hu)

theorem parkCurrent_meets (h : s.CanSwitch i) (live : Context) (state : TaskState) :
    Meets Q (fun _ => True) (s.parkCurrent live state) := by
  obtain ⟨t, ht⟩ := h.running
  obtain ⟨u, hu, hready⟩ := h.ready
  refine (modify_meets (P := fun s' => s' = s.set s.current { t with state }) ht rfl).bind ?_
  rintro _ rfl
  have hne : (s.set s.current { t with state }).pickNext ≠ s.current :=
    pickNext_ne h.ne ((set_tasks_ne _ h.ne _).trans hu) hready
  obtain ⟨v, hv, -⟩ := pickNext_ready hne
  rw [set_current, if_neg hne]
  exact switchTo_meets (set_tasks_self ..) hv

theorem abandon_meets (h : s.CanSwitch i) (live : Context) {prefer : Option Slot}
    (hprefer : ∀ j, prefer = some j → j ≠ s.current ∧ ∃ u, s.tasks j = some u) :
    Meets Q (fun _ => True) (s.abandon live prefer) := by
  obtain ⟨t, ht⟩ := h.running
  obtain ⟨u, hu, hready⟩ := h.ready
  refine (modify_meets (P := fun s' => s' = s.set s.current { t with state := .exited })
    ht rfl).bind ?_
  rintro _ rfl
  cases prefer with
  | none =>
    have hne : (s.set s.current { t with state := .exited }).pickNext ≠ s.current :=
      pickNext_ne h.ne ((set_tasks_ne _ h.ne _).trans hu) hready
    obtain ⟨v, hv, -⟩ := pickNext_ready hne
    rw [set_current, Option.getD_none, if_neg hne]
    exact switchTo_meets (set_tasks_self ..) hv
  | some j =>
    obtain ⟨hj, v, hv⟩ := hprefer j rfl
    rw [set_current, Option.getD_some, if_neg hj]
    exact switchTo_meets (set_tasks_self ..) ((set_tasks_ne _ hj _).trans hv)

theorem exitCurrent_meets (h : s.CanSwitch i) (heal : Heal) (live : Context) {reason : ExitReason}
    (hcur : ∀ cause, reason = .killed cause → ∀ ep role t, s.tasks s.current = some t →
      t.state ≠ .blocked ep role) :
    Meets Q (fun _ => True) (s.exitCurrent heal live reason) := by
  obtain ⟨t, ht⟩ := h.running
  cases reason with
  | exited => exact (abandon_meets h live (by simp)).bind fun _ _ => trivial
  | killed cause =>
    have hnotify : Meets Q (fun out : Scheduler × Option Slot => out.1.CanSwitch i ∧
        ∀ j, out.2 = some j → j ≠ out.1.current ∧ ∃ u, out.1.tasks j = some u)
        (s.notifyCrash (heal.onCrash cause).2) := by
      refine (task_meets (P := fun _ => True) ht trivial).bind fun t' _ => ?_
      split
      · cases hfind : s.findBlocked crashEp .recv with
        | none => exact ⟨h, by simp⟩
        | some j =>
          obtain ⟨r, hr, hstate⟩ := findBlocked_some hfind
          refine (modify_meets (P := fun s' => s' = s.set j _) hr rfl).bind ?_
          rintro _ rfl
          refine ⟨h.set fun hj => rfl, fun k hk => ?_⟩
          obtain rfl := Option.some.inj hk
          refine ⟨?_, _, set_tasks_self ..⟩
          intro (hj : j = s.current)
          exact hcur cause rfl _ _ r (hj ▸ hr) hstate
      · exact ⟨h, by simp⟩
    refine hnotify.bind fun out hout => ?_
    exact (abandon_meets hout.1 live hout.2).bind fun _ _ => trivial

theorem wakeIrq_meets (s : Scheduler) (irq : Nat) : Meets Q (fun _ => True) (s.wakeIrq irq) := by
  unfold wakeIrq
  split
  case h_1 pos hpos =>
    have := List.find?_some hpos
    obtain ⟨r, hr, -⟩ := (Option.any_eq_true _ _).mp this
    exact modify_meets hr trivial
  case h_2 => trivial

/-- What a system call leaves behind: somebody can take over, and a caller that runs on
does so where it trapped. -/
def Proceeds (i : Slot) (frame : TrapFrame) (out : Scheduler × Flow) : Prop :=
  out.1.CanSwitch i ∧
  match out.2 with
  | .resume f | .relaunch _ f => f.sepc = frame.sepc
  | _ => True

theorem offer_meets (h : s.CanSwitch i) (ep : EndpointId) (msg : Message) (caller : Option Nat)
    (granted : Option Capability) :
    Meets Q (fun out => out.1.CanSwitch i) (s.offer ep msg caller granted) := by
  obtain ⟨t, ht⟩ := h.running
  unfold offer
  cases hfind : s.findBlocked ep .recv with
  | some ri =>
    obtain ⟨r, hr, hstate⟩ := findBlocked_some hfind
    exact (modify_meets (P := fun s' => s'.CanSwitch i) hr (h.set fun _ => rfl)).bind
      fun _ h' => h'
  | none =>
    exact (modify_meets (P := fun s' => s'.CanSwitch i) ht
      (h.set fun hi => absurd hi.symm h.ne)).bind fun _ h' => h'

theorem CanSwitch.revoke (h : s.CanSwitch i) (ep : EndpointId) :
    (s.revokeEndpoint ep s.current).1.CanSwitch i := by
  obtain ⟨t, ht⟩ := h.running
  obtain ⟨u, hu, hready⟩ := h.ready
  refine ⟨⟨t, ?_⟩, h.ne, { u with caps := (u.caps.revokeInCaps ep).1 }, ?_, hready⟩
  · rw [revokeEndpoint_tasks, revokeEndpoint_current, if_pos rfl, ht]
  · rw [revokeEndpoint_tasks, if_neg h.ne, hu]
    rfl

section Syscalls

variable (h : s.CanSwitch i) (frame : TrapFrame)

include h

theorem ipcSend_meets : Meets Q (Proceeds i frame) (s.ipcSend frame) := by
  obtain ⟨t, ht⟩ := h.running
  refine (task_meets (P := fun _ => True) ht trivial).bind fun t' _ => ?_
  split
  · exact ⟨h, rfl⟩
  · refine (offer_meets h ..).bind fun (s', delivered) h' => ?_
    cases delivered with
    | true => exact ⟨h', rfl⟩
    | false => exact ⟨h', trivial⟩

theorem ipcCall_meets : Meets Q (Proceeds i frame) (s.ipcCall frame) := by
  obtain ⟨t, ht⟩ := h.running
  refine (task_meets (P := fun _ => True) ht trivial).bind fun t' _ => ?_
  split
  · exact ⟨h, rfl⟩
  · refine (offer_meets h ..).bind fun (s', delivered) h' => ?_
    cases delivered <;> exact ⟨h', trivial⟩

theorem ipcGrant_meets : Meets Q (Proceeds i frame) (s.ipcGrant frame) := by
  obtain ⟨t, ht⟩ := h.running
  refine (task_meets (P := fun _ => True) ht trivial).bind fun t' _ => ?_
  split
  · refine (offer_meets h ..).bind fun (s', delivered) h' => ?_
    cases delivered with
    | true => exact ⟨h', rfl⟩
    | false => exact ⟨h', trivial⟩
  · exact ⟨h, rfl⟩

theorem waitIrq_meets : Meets Q (Proceeds i frame) (s.waitIrq frame) := by
  obtain ⟨t, ht⟩ := h.running
  refine (task_meets (P := fun _ => True) ht trivial).bind fun t' _ => ?_
  split
  · exact ⟨h, rfl⟩
  · exact ⟨h, trivial⟩

theorem ipcRevoke_meets : Meets Q (Proceeds i frame) (s.ipcRevoke frame) := by
  obtain ⟨t, ht⟩ := h.running
  refine (task_meets (P := fun _ => True) ht trivial).bind fun t' _ => ?_
  split
  · exact ⟨h, rfl⟩
  · rename_i ep _
    exact ⟨h.revoke ep, rfl⟩

theorem ipcRecv_meets (hcur : ∀ ep role t, s.tasks s.current = some t → t.state ≠ .blocked ep role) :
    Meets Q (Proceeds i frame) (s.ipcRecv frame) := by
  obtain ⟨t, ht⟩ := h.running
  refine (task_meets (P := fun _ => True) ht trivial).bind fun t' _ => ?_
  split
  case h_1 => exact ⟨h, rfl⟩
  case h_2 ep hcap =>
    split
    case h_2 => exact ⟨h, trivial⟩
    case h_1 si isCall hwait =>
      obtain ⟨r, hr, hstate⟩ := Machine.waitingSender_some hwait
      have hne : si ≠ s.current := fun hsi => hcur _ _ r (hsi ▸ hr) hstate
      refine (task_meets (P := fun _ => True) hr trivial).bind fun sender _ => ?_
      refine (modify_meets (P := fun s' => s' = s.set si _) hr rfl).bind ?_
      rintro _ rfl
      -- The sender was blocked, so it is neither the receiver nor the task that takes over.
      have ht' : (s.set si { r with pendingGrant := none }).tasks s.current = some t :=
        (set_tasks_ne _ hne.symm _).trans ht
      have hsi := h.ne_of_state hr (by simp [hstate])
      refine (Meets.of_eq_ok (P := fun s' => s'.CanSwitch i)
        (Machine.releaseSender_eq (by exact hne) ht' (set_tasks_self ..) _ _) ?_).bind ?_
      · exact ((h.set fun hi => absurd hi hsi).set fun hi => absurd hi hsi).set
          fun hi => absurd hi.symm h.ne
      · intro s' h'
        obtain ⟨u, hu⟩ := h'.running
        refine (Meets.of_eq_ok (P := fun s' => s'.CanSwitch i)
          (Machine.installGranted_eq hu _ _) ?_).bind fun s'' h'' => ⟨h'', rfl⟩
        exact h'.set fun hi => absurd hi.symm h'.ne

theorem ipcReply_meets (hreply : ∀ t k n, s.tasks s.current = some t →
    t.caps.capAt k = some (.reply n) → n < maxTasks ∨ Q .indexOutOfBounds) :
    Meets Q (Proceeds i frame) (s.ipcReply frame) := by
  obtain ⟨t, ht⟩ := h.running
  refine (task_meets (P := fun t' => t' = t) ht rfl).bind ?_
  rintro _ rfl
  split
  case h_1 => exact ⟨h, rfl⟩
  case h_2 n hcap =>
    refine (modify_meets (P := fun s' => s'.CanSwitch i) ht
      (h.set fun hi => absurd hi.symm h.ne)).bind fun s' h' => ?_
    have hslot : Meets Q (fun _ => True) (slotOf n) := by
      unfold slotOf
      split
      case isTrue => trivial
      case isFalse hge =>
        exact (hreply _ _ n ht (Caps.replyCaller_eq_some.mp hcap)).resolve_left hge
    refine hslot.bind fun c _ => ?_
    split
    case isTrue hawait =>
      obtain ⟨r, hr, hstate⟩ := (Option.any_eq_true _ _).mp hawait
      exact (modify_meets (P := fun s' => s'.CanSwitch i) hr (h'.set fun _ => rfl)).bind
        fun s'' h'' => ⟨h'', rfl⟩
    case isFalse => exact ⟨h', rfl⟩

theorem restart_meets (hrestart : ∀ t k n, s.tasks s.current = some t →
    t.caps.capAt k = some (.restart n) →
      ∃ c : Slot, c.val = n ∧ ∃ r, s.tasks c = some r ∧ r.isUser = true) (tramp sstatus : Nat) :
    Meets Q (Proceeds i frame) (s.restart tramp sstatus frame) := by
  obtain ⟨t, ht⟩ := h.running
  refine (task_meets (P := fun t' => t' = t) ht rfl).bind ?_
  rintro _ rfl
  split
  case h_1 => exact ⟨h, rfl⟩
  case h_2 n hcap =>
    obtain ⟨c, rfl, r, hr, huser⟩ := hrestart _ _ n ht (Caps.restartTarget_eq_some.mp hcap)
    refine (Meets.of_eq_ok (P := fun c' => c' = c) (dif_pos c.isLt) rfl).bind ?_
    rintro _ rfl
    refine (task_meets (P := fun r' => r' = r) hr rfl).bind ?_
    rintro _ rfl
    split
    case isTrue => exact ⟨h, rfl⟩
    case isFalse =>
      obtain ⟨relaunch, hrelaunch⟩ := Option.isSome_iff_exists.mp huser
      simp only [hrelaunch]
      exact (modify_meets (P := fun s' => s'.CanSwitch i) hr (h.set fun _ => rfl)).bind
        fun s' h' => ⟨h', rfl⟩

end Syscalls

section KernelTasks

theorem recvMessage_meets {idx : Nat} (ht : s.tasks s.current = some t)
    (hcap : (∃ ep, t.caps.capLookup idx = some ep) ∨ ∀ text, Q (.expect text)) :
    Meets Q (fun _ => True) (s.recvMessage idx) := by
  refine (task_meets (P := fun t' => t' = t) ht rfl).bind ?_
  rintro _ rfl
  split
  case h_1 hnone => exact hcap.resolve_left (by simp [hnone]) _
  case h_2 ep hep =>
    split
    case h_1 si hfind =>
      obtain ⟨r, hr, hstate⟩ := findBlocked_some hfind
      refine (task_meets (P := fun _ => True) hr trivial).bind fun sender _ => ?_
      exact (modify_meets (P := fun _ => True) hr trivial).bind fun _ _ => trivial
    case h_2 => trivial

theorem callMessage_meets {idx badge : Nat} (h : s.CanSwitch i) (ht : s.tasks s.current = some t)
    (hcap : (∃ ep, t.caps.capLookup idx = some ep) ∨ ∀ text, Q (.expect text)) :
    Meets Q (fun _ => True) (s.callMessage idx badge) := by
  refine (task_meets (P := fun t' => t' = t) ht rfl).bind ?_
  rintro _ rfl
  split
  case h_1 hnone => exact hcap.resolve_left (by simp [hnone]) _
  case h_2 ep hep => exact (offer_meets h ..).bind fun _ _ => trivial

end KernelTasks

end Scheduler

/-- The assertion of `SingleHartCell::with`. -/
def Panic.reentrant : Panic := .assert "re-entrant access to single-hart cell"

/-- A stop of the trap handler itself, or of the entropy pool's cell: a trap there is no answer
to, or an address that wraps. -/
def Panic.ofTrap : Panic → Bool
  | .overflow | .fatal _ => true
  | e => e == .reentrant

/-- A capability names what its kind calls for: a U-mode task, or a slot. -/
def Capability.valid (s : Scheduler) : Capability → Prop
  | .restart n => ∃ c : Slot, c.val = n ∧ ∃ r, s.tasks c = some r ∧ r.isUser = true
  | .reply n => n < maxTasks
  | _ => True

/-- The bytes `print` copies are readable in the current address space. -/
def Platform.prints (p : Platform) (satp ptr len : Nat) : Bool :=
  !validateUserBuffer p.userDataLo p.userDataHi ptr len ||
    (List.range (min len printMax)).all fun k => p.loads satp true (ptr + k)

namespace Machine

open Scheduler

variable {p : Platform} {Q : Panic → Prop} {m : Machine} {t : Task} {i : Slot}

/-- The current task may draw from the entropy pool, and a kernel task is inside `POOL.with`. -/
def drawsInUse (m : Machine) (frame : TrapFrame) : Bool :=
  m.poolInUse && (m.sched.tasks m.current).any fun t => t.caps.hasRandomness (frame.regs 9)

/-- The trap handler has an answer to this trap: the cause is one it knows, the parcel a
breakpoint makes it read is readable, the bytes to print are mapped, the entropy pool is free for
a draw, and the address it continues at does not wrap. -/
def answers (p : Platform) (m : Machine) (frame : TrapFrame) : Bool :=
  match decode frame.scause with
  | .breakpoint => p.loads m.satp false frame.sepc &&
      frame.sepc + instructionLen (p.parcel frame.sepc) < 2 ^ 64
  | .userEcall =>
    match decodeSyscall (frame.regs 16) with
    | .exit => true
    | .print => p.prints m.satp (frame.regs 9) (frame.regs 10) && frame.sepc + 4 < 2 ^ 64
    | .getrandom => !m.drawsInUse frame && frame.sepc + 4 < 2 ^ 64
    | _ => frame.sepc + 4 < 2 ^ 64
  | .unknown _ _ => false
  | _ => true

theorem advance_meets {frame : TrapFrame} {n : Nat} (h : frame.sepc + n < 2 ^ 64 ∨ Q .overflow) :
    Meets Q (fun _ => True) (frame.advance n) := by
  unfold TrapFrame.advance
  split
  · trivial
  · exact h.resolve_left ‹_›

theorem sysPrint_meets {satp ptr len : Nat}
    (h : p.prints satp ptr len = true ∨ Q (.fatal "load page fault")) :
    Meets Q (fun _ => True) (sysPrint p satp ptr len) := by
  unfold sysPrint
  split
  · trivial
  · dsimp only
    split
    · trivial
    · refine h.resolve_left ?_
      simp_all [Platform.prints]

theorem getrandom_meets (t : Task) (poolInUse : Bool) (seed : Nat × Nat × Nat × Nat)
    (frame : TrapFrame)
    (h : (poolInUse && t.caps.hasRandomness (frame.regs 9)) = false ∨ Q .reentrant) :
    Meets Q (fun f => f.sepc = frame.sepc) (getrandom t poolInUse seed frame) := by
  unfold getrandom
  split
  case isTrue hcap =>
    split
    case isTrue huse => exact h.resolve_left (by simp [huse, hcap])
    case isFalse => exact (rfl : (frame.setWords seed).sepc = frame.sepc)
  case isFalse => exact (rfl : (frame.setStatus false).sepc = frame.sepc)

theorem sealWord_sepc (t : Task) (sealed : Nat × Nat × Nat × Nat) (frame : TrapFrame) :
    (sealWord t sealed frame).sepc = frame.sepc := by
  unfold sealWord
  split <;> rfl

theorem openWord_sepc (t : Task) (opened : Option Nat) (frame : TrapFrame) :
    (openWord t opened frame).sepc = frame.sepc := by
  unfold openWord
  split
  · split <;> rfl
  · rfl

theorem dispatch_meets (h : m.sched.CanSwitch i) (hrun : m.Runs t)
    (hvalid : ∀ k cap, t.caps.capAt k = some cap →
      cap.valid m.sched ∨ (∃ n, cap = .reply n) ∧ Q .indexOutOfBounds) (input : Input)
    (frame : TrapFrame)
    (hprint : decodeSyscall (frame.regs 16) = .print →
      p.prints t.satp (frame.regs 9) (frame.regs 10) = true ∨ Q (.fatal "load page fault"))
    (hpool : decodeSyscall (frame.regs 16) = .getrandom →
      (m.poolInUse && t.caps.hasRandomness (frame.regs 9)) = false ∨ Q .reentrant) :
    Meets Q (Proceeds i frame) (dispatch p m.sched m.poolInUse input frame) := by
  have htask (t' : Task) (ht' : m.sched.tasks m.sched.current = some t') : t' = t :=
    Option.some.inj (ht'.symm.trans hrun.task)
  have hread : Meets Q (fun t' => t' = t) (m.sched.task m.sched.current) :=
    task_meets hrun.task rfl
  unfold dispatch
  split
  case h_1 hsys =>
    refine hread.bind ?_
    rintro _ rfl
    exact (sysPrint_meets (hprint hsys)).bind fun _ _ => ⟨h, rfl⟩
  case h_2 => exact ⟨h, trivial⟩
  case h_3 => exact ⟨h, trivial⟩
  case h_4 => exact ipcSend_meets h frame
  case h_5 =>
    refine ipcRecv_meets h frame fun ep role t' ht' hst => ?_
    have := hrun.runnable
    rw [← htask t' ht', hst] at this
    exact not_runnable_blocked this
  case h_6 =>
    refine restart_meets h frame (fun t' k n ht' hcap => ?_) _ _
    obtain rfl := htask t' ht'
    exact (hvalid k _ hcap).resolve_right fun ⟨⟨_, hno⟩, _⟩ => by cases hno
  case h_7 => exact ipcCall_meets h frame
  case h_8 =>
    refine ipcReply_meets h frame fun t' k n ht' hcap => ?_
    obtain rfl := htask t' ht'
    exact (hvalid k _ hcap).imp_right And.right
  case h_9 hsys =>
    refine hread.bind ?_
    rintro _ rfl
    exact (getrandom_meets _ _ _ _ (hpool hsys)).bind fun _ hf => ⟨h, hf⟩
  case h_10 => exact waitIrq_meets h frame
  case h_11 => exact ipcGrant_meets h frame
  case h_12 => exact ipcRevoke_meets h frame
  case h_13 => exact hread.bind fun t' _ => ⟨h, sealWord_sepc ..⟩
  case h_14 => exact hread.bind fun t' _ => ⟨h, openWord_sepc ..⟩
  case h_15 => exact ⟨h, rfl⟩

theorem finishSyscall_meets {input : Input} {frame : TrapFrame} {out : Scheduler × Flow}
    (h : Proceeds i frame out)
    (hstep : (∃ code, out.2 = .exit code) ∨ frame.sepc + 4 < 2 ^ 64 ∨ Q .overflow) :
    Meets Q (fun _ => True) (m.finishSyscall input frame out) := by
  obtain ⟨s, flow⟩ := out
  obtain ⟨hcan, hsepc⟩ := h
  have hadvance {f : TrapFrame} (hf : f.sepc = frame.sepc) (hno : ∀ code, flow ≠ .exit code) :
      Meets Q (fun _ => True) (f.advance 4) := by
    apply advance_meets
    rw [hf]
    exact hstep.resolve_left fun ⟨code, hcode⟩ => hno code hcode
  cases flow with
  | resume f => exact (hadvance hsepc (by simp)).bind fun _ _ => trivial
  | relaunch target f => exact (hadvance hsepc (by simp)).bind fun _ _ => trivial
  | park state kont => exact (parkCurrent_meets hcan ..).bind fun _ _ => trivial
  | yield =>
    obtain ⟨u, hu⟩ := hcan.running
    exact (hadvance rfl (by simp)).bind fun _ _ =>
      (yieldNow_meets hu _).bind fun _ _ => trivial
  | exit code => exact (exitCurrent_meets hcan _ _ (by simp)).bind fun _ _ => trivial

theorem kill_meets (h : m.sched.CanSwitch i) (hrun : m.Runs t) (input : Input) (cause : Cause) :
    Meets Q (fun _ => True) (m.kill input cause) := by
  refine (exitCurrent_meets h _ _ fun _ _ ep role t' ht' hst => ?_).bind fun _ _ => trivial
  obtain rfl := Option.some.inj (ht'.symm.trans hrun.task)
  exact not_runnable_blocked (hst ▸ hrun.runnable)

theorem satp_eq (hrun : m.Runs t) : m.satp = t.satp := by
  unfold satp
  rw [show m.sched.tasks m.current = some t from hrun.task]
  rfl

/-- An interrupt panics nowhere: `yield_now` always has somebody to run, and `wake_irq`
writes a task it has just found. -/
theorem interrupt_meets (hrun : m.Runs t) {frame : TrapFrame} (input : Input)
    (hcause : decode frame.scause = .supervisorTimer ∨
      decode frame.scause = .supervisorExternal) :
    Meets Q (fun _ => True) (m.trapHandler p input frame) := by
  unfold trapHandler
  obtain hd | hd := hcause
  · rw [hd]
    exact (yieldNow_meets hrun.task _).bind fun _ _ => trivial
  · rw [hd]
    dsimp only
    split
    · exact (wakeIrq_meets ..).bind fun _ _ => trivial
    · trivial

/-- A trap from U-mode: the scheduler gets through it, and what stops the handler is a
trap it has no answer to. -/
theorem trapHandler_meets (h : m.sched.CanSwitch i) (hrun : m.Runs t)
    (hvalid : ∀ k cap, t.caps.capAt k = some cap →
      cap.valid m.sched ∨ (∃ n, cap = .reply n) ∧ Q .indexOutOfBounds) (input : Input)
    {frame : TrapFrame} (huser : frame.fromUser = true)
    (hanswers : m.answers p frame = true ∨ ∀ e, e.ofTrap = true → Q e) :
    Meets Q (fun _ => True) (m.trapHandler p input frame) := by
  unfold answers at hanswers
  unfold trapHandler
  split
  case h_1 hd =>
    simp only [hd, Bool.and_eq_true, decide_eq_true_eq] at hanswers
    have hlen : Meets Q (fun n => n = instructionLen (p.parcel frame.sepc))
        (p.instructionLenAt m.satp frame.sepc) := by
      unfold Platform.instructionLenAt
      split
      case isTrue => exact rfl
      case isFalse hno => exact (hanswers.resolve_left fun hyes => hno hyes.1) _ rfl
    refine hlen.bind ?_
    rintro _ rfl
    exact (advance_meets (hanswers.imp And.right fun hQ => hQ _ rfl)).bind fun _ _ => trivial
  case h_2 hd => exact (yieldNow_meets hrun.task _).bind fun _ _ => trivial
  case h_3 hd =>
    split
    · exact (wakeIrq_meets ..).bind fun _ _ => trivial
    · trivial
  case h_4 hd =>
    simp only [hd] at hanswers
    by_cases hexit : decodeSyscall (frame.regs 16) = .exit
    · have hdispatch : dispatch p m.sched m.poolInUse input frame = .ok (m.sched, .exit (frame.regs 9)) := by
        unfold dispatch
        rw [hexit]
      rw [hdispatch]
      change Meets Q _ (m.finishSyscall input frame (m.sched, .exit (frame.regs 9)))
      exact finishSyscall_meets ⟨h, trivial⟩ (.inl ⟨_, rfl⟩)
    · have hsepc : frame.sepc + 4 < 2 ^ 64 ∨ Q .overflow := by
        refine hanswers.imp (fun hyes => ?_) fun hQ => hQ _ rfl
        split at hyes
        case h_1 hsys => exact absurd hsys hexit
        case h_2 => exact of_decide_eq_true (Bool.and_eq_true_iff.mp hyes).2
        case h_3 => exact of_decide_eq_true (Bool.and_eq_true_iff.mp hyes).2
        case h_4 => exact of_decide_eq_true hyes
      refine (dispatch_meets h hrun hvalid input frame (fun hsys => ?_) fun hsys => ?_).bind
        fun out hout => finishSyscall_meets hout (.inr hsepc)
      · simp only [hsys, Bool.and_eq_true, satp_eq hrun] at hanswers
        exact hanswers.imp And.left fun hQ => hQ _ rfl
      · simp only [hsys, Bool.and_eq_true, Bool.not_eq_true', drawsInUse,
          show m.sched.tasks m.current = some t from hrun.task, Option.any_some] at hanswers
        exact hanswers.imp And.left fun hQ => hQ _ rfl
  case h_5 =>
    rw [if_pos huser]
    exact kill_meets h hrun ..
  case h_6 =>
    rw [if_pos huser]
    exact kill_meets h hrun ..
  case h_7 =>
    rw [if_pos huser]
    exact kill_meets h hrun ..
  case h_8 =>
    rw [if_pos huser]
    exact kill_meets h hrun ..
  case h_9 hd =>
    simp only [hd] at hanswers
    exact (hanswers.resolve_left (by simp)) _ rfl

theorem resumeSyscall_meets (hrun : m.Runs t)
    (hsepc : (m.frames m.current).sepc + 4 < 2 ^ 64 ∨ Q .overflow) :
    Meets Q (fun _ => True) m.resumeSyscall := by
  have hadvance {f : TrapFrame} (hf : f.sepc = (m.frames m.current).sepc) :
      Meets Q (fun _ => True) (f.advance 4) := by
    apply advance_meets
    rwa [hf]
  unfold resumeSyscall
  cases hk : m.konts m.current with
  | recv ep slot =>
    simp only [resumeRecv_eq hrun.task]
    exact (hadvance (f := writeMessage _ _) rfl).bind fun _ _ => trivial
  | call =>
    refine (task_meets (P := fun _ => True) hrun.task trivial).bind fun t' _ => ?_
    exact (hadvance (f := writeMessage _ _) rfl).bind fun _ _ => trivial
  | _ => exact (hadvance (f := TrapFrame.setReg _ _ _) rfl).bind fun _ _ => trivial

end Machine

end Perenne

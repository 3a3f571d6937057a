import Perenne.Kmain
import Perenne.Trace

namespace Perenne

open Except Scheduler

/-- The configuration of `kmain` on a machine without virtio devices. -/
def kmainBare : List BootOp := kmain .zero (.present false false false)

namespace Machine

variable {p : Platform} {m₀ m m₁ m' : Machine} {t : Task} {ev : Event} {d : Devices}

/-- A kernel task that runs does what its code says. -/
def follows (d : Devices) (m : Machine) (ev : Event) : Bool :=
  (m.sched.tasks m.current).all fun t => published d.blk.isSome t.name ev

/-- Some kernel task's table names the endpoint. -/
def kernelHolds (m : Machine) (ep : EndpointId) : Bool :=
  (List.finRange maxTasks).any fun i => (m.sched.tasks i).any fun r =>
    !r.isUser && (List.range capSlots).any fun k => r.caps.capLookup k == some ep

/-- A `revoke` that passes its check, of an endpoint a kernel task holds. -/
def sweepsKernel (m : Machine) : Event → Bool :=
  m.requests .revoke fun t frame => (t.caps.capLookup (frame.regs 9)).any m.kernelHolds

/-- The kernel tasks still have the tables they were booted with. -/
def KernelTables (m₀ m : Machine) : Prop :=
  ∀ i t, m.sched.tasks i = some t → t.isUser = false →
    ∃ t₀, m₀.sched.tasks i = some t₀ ∧ t₀.name = t.name ∧ t₀.caps = t.caps

theorem kernelHolds_of_capAt {i : Slot} {r : Task} {k : Nat} {ep : EndpointId}
    (hr : m.sched.tasks i = some r) (hkernel : r.isUser = false)
    (hk : r.caps.capAt k = some (.endpoint ep)) : m.kernelHolds ep = true := by
  simp only [kernelHolds, List.any_eq_true, Option.any_eq_true, Bool.and_eq_true,
    Bool.not_eq_true', beq_iff_eq]
  exact ⟨i, List.mem_finRange i, r, hr, hkernel, k, List.mem_range.mpr (Caps.capAt_lt hk),
    Caps.capLookup_eq_some.mpr hk⟩

theorem effect_kernelCaps (hroles : m.Roles) (hrun : m.Runs t) (hen : m.enabled ev = true)
    (hsweep : m.sweepsKernel ev = false) (heff : Effect m t ev m₁) {i : Slot} {t' : Task}
    (ht' : m₁.sched.tasks i = some t') (hkernel : t'.isUser = false) :
    ∃ r, m.sched.tasks i = some r ∧ r.static = t'.static ∧ r.caps = t'.caps := by
  obtain ⟨r, hr, hch⟩ := effect_change hrun heff ht'
  have hst : t'.static = r.static := by
    have := effect_static hrun heff i
    rw [ht', hr] at this
    exact Option.some.inj this
  have hrk : r.isUser = false := by rwa [← isUser_of_static hst]
  have hask (hi : i = m.current) {sys : Syscall} {frame : TrapFrame}
      (hask : ev.asks sys frame) : False := by
    have := hroles i r hr
    rw [hi, kont_user_of_asks hen hask, hrk] at this
    cases this
  refine ⟨r, hr, hst.symm, ?_⟩
  cases hch with
  | receive hi _ _ _ _ h => exact (hask hi h).elim
  | spend hi h => exact (hask hi h).elim
  | pickUp hi hev =>
    subst hev
    have := hroles i r hr
    rw [hi, hrk] at this
    cases hk : m.konts m.current with
    | kernel => simp [enabled, hk] at hen
    | _ => simp [hk, Kont.isKernel] at this
  | @sweep ep frame hne hep h hcap =>
    refine (Caps.revokeInCaps_eq_self fun k hk => ?_).symm
    have hheld := kernelHolds_of_capAt hr hrk hk
    rw [sweepsKernel, requests_of_asks hrun h, hcap] at hsweep
    simp [hheld] at hsweep
  | _ => rfl

theorem effect_kernelTables (h : KernelTables m₀ m) (hroles : m.Roles) (hrun : m.Runs t)
    (hen : m.enabled ev = true) (hsweep : m.sweepsKernel ev = false)
    (heff : Effect m t ev m₁) : KernelTables m₀ m₁ := by
  intro i t' ht' hkernel
  obtain ⟨r, hr, hst, hcaps⟩ := effect_kernelCaps hroles hrun hen hsweep heff ht' hkernel
  obtain ⟨t₀, ht₀, hname, hcaps₀⟩ := h i r hr (by rwa [isUser_of_static hst])
  exact ⟨t₀, ht₀, hname.trans (congrArg (fun x => x.2.1) hst), hcaps₀.trans hcaps⟩

theorem switch_kernelTables (h : KernelTables m₀ m) (hsw : Switch m m') :
    KernelTables m₀ m' := by
  intro i t' ht' hkernel
  obtain ⟨r, hr, heq, -⟩ := hsw.task ht'
  rw [heq] at hkernel ⊢
  exact h i r hr hkernel

/-- Every step follows the code of the kernel tasks and sweeps no endpoint of theirs. -/
def Sparing (d : Devices) (m : Machine) (l : Label) : Prop :=
  m.follows d l.event = true ∧ m.sweepsKernel l.event = false

instance (d : Devices) (m : Machine) (l : Label) : Decidable (Sparing d m l) :=
  inferInstanceAs (Decidable (_ ∧ _))

theorem follows_task (hrun : m.Runs t) (h : m.follows d ev = true) :
    published d.blk.isSome t.name ev = true := by
  unfold follows at h
  rw [show m.sched.tasks m.current = some t from hrun.task] at h
  exact h

theorem uses_of_idle {disk : Bool} (h : published disk "idle" ev = true) : ev.uses = none := by
  cases ev with
  | recvMessage => simp [published] at h
  | callMessage => simp [published] at h
  | _ => rfl

/-- The task in slot `i` is `idle`. -/
def IdleAt (i : Slot) (m : Machine) : Prop :=
  ∃ u, m.sched.tasks i = some u ∧ u.name = "idle"

theorem IdleAt.of_static {i : Slot} (h : m.IdleAt i)
    (hst : (m'.sched.tasks i).map Task.static = (m.sched.tasks i).map Task.static) :
    m'.IdleAt i := by
  obtain ⟨u, hu, hname⟩ := h
  obtain ⟨u', hu', hst'⟩ := exists_task_of_static hst.symm hu
  exact ⟨u', hu', (congrArg (fun x => x.2.1) hst').symm.trans hname⟩

theorem IdleAt.uses {i : Slot} (h : m.IdleAt i) (hrun : m.Runs t) (hfollows : m.follows d ev = true)
    (hcur : m.current = i) : ev.uses = none := by
  obtain ⟨u, hu, hname⟩ := h
  obtain rfl := Option.some.inj (hrun.task.symm.trans (hcur ▸ hu))
  have hpub := follows_task hrun hfollows
  rw [hname] at hpub
  exact uses_of_idle hpub

theorem reachable_steady {heal : Heal} {a : Layout} {ls : List Label}
    (hboot : boot p heal (kmain a d) = .ok m₀)
    (hgood : Transition.StepsMeet (step p) (fun m l => m.follows d l.event = true) m₀ ls)
    (hrun : Transition.run (step p) m₀ ls = some m) :
    m.Sound ∧ ∃ idle, m.Steady idle ∧ m.IdleAt idle := by
  obtain ⟨idle, hsteady, u, hu, hname⟩ := kmain_steady hboot
  have hinv := run_rule (p := p) (fun m => m.Steady idle ∧ m.IdleAt idle)
    (fun m l => m.follows d l.event = true) ?_ ?_ (boot_fresh hboot).sound
    ⟨hsteady, u, hu, congrArg Prod.fst hname⟩ hgood hrun
  · exact ⟨hinv.1, idle, hinv.2⟩
  · rintro m t l m₁ hsound ⟨hs, hi⟩ hrun hen hfollows heff
    exact ⟨effect_steady hsound hs hrun hen (hi.uses hrun hfollows) heff,
      hi.of_static (effect_static hrun heff idle)⟩
  · rintro m m' ⟨hs, hi⟩ hsw
    exact ⟨switch_steady hs hsw, hi.of_static (switch_static hsw idle)⟩

theorem reachable_kernelTables {heal : Heal} {a : Layout} {ls : List Label}
    (hboot : boot p heal (kmain a d) = .ok m₀)
    (hgood : Transition.StepsMeet (step p) (Sparing d) m₀ ls)
    (hrun : Transition.run (step p) m₀ ls = some m) : KernelTables m₀ m := by
  refine (run_rule (p := p) (KernelTables m₀) (Sparing d) ?_ ?_ (boot_fresh hboot).sound
    (fun i t ht _ => ⟨t, ht, rfl, rfl⟩) hgood hrun).2
  · exact fun m t l m₁ hsound h hrun hen hgood heff =>
      effect_kernelTables h hsound.roles hrun hen hgood.2 heff
  · exact fun m m' => switch_kernelTables

/-- In every run of the kernel `kmain` boots in which no U-mode task revokes an endpoint
that a kernel task holds, nothing in `sched.rs` panics: what stops the kernel is a trap
the handler has no answer to. -/
theorem scheduler_does_not_panic {heal : Heal} {a : Layout} {ls : List Label} {l : Label}
    (hboot : boot p heal (kmain a d) = .ok m₀)
    (hgood : Transition.StepsMeet (step p) (Sparing d) m₀ ls)
    (hrun : Transition.run (step p) m₀ ls = some m) (hen : m.enabled l.event = true)
    (hfollows : m.follows d l.event = true) :
    (∃ m', m.exec p l = .ok m') ∨ ∃ e, m.exec p l = .error e ∧ e.ofTrap = true := by
  obtain ⟨hsound, idle, hsteady, hidle⟩ := reachable_steady hboot
    (Transition.stepsMeet_mono (fun _ _ h => h.1) hgood) hrun
  have htables := reachable_kernelTables hboot hgood hrun
  obtain ⟨t, ht⟩ := hsound.runs
  have hmeets : Meets (fun e => e.ofTrap = true) (fun _ => True) (m.exec p l) := by
    refine exec_meets hsound hsteady ht hen (hidle.uses ht hfollows) (fun idx huses => ?_)
      (fun frame _ => .inr fun e he => he) (fun _ => .inr rfl)
    -- Only a kernel task uses an endpoint this way, and its table is that of the boot.
    have hkernel : t.isUser = false := by
      have hrole := hsound.roles m.current t ht.task
      have hbody : ∃ ret, m.konts m.current = .kernel (.body ret) := by
        generalize l.event = ev at *
        cases ev with
        | recvMessage => exact kont_body_of_recvMessage hen
        | callMessage => exact kont_body_of_callMessage hen
        | _ => cases huses
      obtain ⟨ret, hk⟩ := hbody
      rw [hk] at hrole
      simpa [Kont.isKernel] using hrole.symm
    obtain ⟨t₀, ht₀, hname, hcaps⟩ := htables m.current t ht.task hkernel
    have hpub := follows_task ht hfollows
    rw [← hname] at hpub
    rw [← hcaps]
    exact kmain_published hboot ht₀ huses hpub
  cases hexec : m.exec p l with
  | ok m' => exact .inl ⟨m', rfl⟩
  | error e =>
    rw [hexec] at hmeets
    exact .inr ⟨e, rfl, hmeets⟩

/-- The timer takes every task of a kernel without devices to `kb`, which then calls on
the gate. -/
theorem scheduler_does_not_panic_call : ∃ m₀ m, boot .sample .empty kmainBare = .ok m₀ ∧
    Transition.run (step .sample) m₀ (List.replicate 17 .tickUser) = some m ∧
    ((∃ m', m.exec .sample (.of (.callMessage gateLoaderCap 0)) = .ok m') ∨
      ∃ e, m.exec .sample (.of (.callMessage gateLoaderCap 0)) = .error e ∧
        e.ofTrap = true) := by
  have heval : (boot .sample .empty kmainBare).toOption.any (fun m₀ =>
      decide (Transition.StepsMeet (step .sample) (Sparing (.present false false false)) m₀
        (List.replicate 17 .tickUser)) &&
      (Transition.run (step .sample) m₀ (List.replicate 17 .tickUser)).any fun m =>
        m.enabled (.callMessage gateLoaderCap 0) &&
        m.follows (.present false false false) (.callMessage gateLoaderCap 0)) = true := by
    decide +kernel
  simp only [Option.any_eq_true, Bool.and_eq_true, decide_eq_true_eq] at heval
  obtain ⟨m₀, hboot, hgood, m, hrun, hen, hfollows⟩ := heval
  have hboot := Except.toOption_eq_some_iff.mp hboot
  exact ⟨m₀, m, hboot, hrun,
    scheduler_does_not_panic (l := .of _) hboot hgood hrun hen hfollows⟩

/-- `transient` revokes the gate endpoint, which clears the table of `kb` too; the next
`call_message` of `kb` panics. -/
theorem revoked_kernel_task_panics : ∃ m₀ ls m, boot .sample .empty kmainBare = .ok m₀ ∧
    Transition.StepsMeet (step .sample)
      (fun m l => m.follows (.present false false false) l.event = true) m₀ ls ∧
    Transition.run (step .sample) m₀ ls = some m ∧
    m.enabled (.callMessage gateLoaderCap 0) = true ∧
    m.follows (.present false false false) (.callMessage gateLoaderCap 0) = true ∧
    m.exec .sample (.of (.callMessage gateLoaderCap 0)) =
      .error (.expect "call_message: caller lacks the endpoint capability") := by
  let ls : List Label :=
    List.replicate 10 .tickUser ++ [.ecall 12 [0]] ++ List.replicate 7 .tickUser
  have heval : (boot .sample .empty kmainBare).toOption.any (fun m₀ =>
      decide (Transition.StepsMeet (step .sample)
        (fun m l => m.follows (.present false false false) l.event = true) m₀ ls) &&
      (Transition.run (step .sample) m₀ ls).any fun m =>
        m.enabled (.callMessage gateLoaderCap 0) &&
        m.follows (.present false false false) (.callMessage gateLoaderCap 0) &&
        (m.exec .sample (.of (.callMessage gateLoaderCap 0))).stopsWith
          (.expect "call_message: caller lacks the endpoint capability")) = true := by
    decide +kernel
  simp only [Option.any_eq_true, Bool.and_eq_true, decide_eq_true_eq,
    Except.stopsWith_iff] at heval
  obtain ⟨m₀, hboot, hgood, m, hrun, ⟨hen, hfollows⟩, hexec⟩ := heval
  exact ⟨m₀, ls, m, Except.toOption_eq_some_iff.mp hboot, hgood, hrun, hen, hfollows, hexec⟩

end Machine

end Perenne

import Perenne.Linearity
import Perenne.Trace

namespace Perenne

namespace Machine

open Scheduler Transition

variable {p : Platform} {m₀ m : Machine} {ls : List Label}

/-- The step keeps reply authorities linear: it grants none onward and restarts no caller
somebody may still answer. -/
def keepsReplies (m : Machine) (l : Label) : Prop :=
  ∀ c, m.grantsReply c l.event = false ∧ m.restartsAwaited c l.event = false

instance (m : Machine) (l : Label) : Decidable (m.keepsReplies l) :=
  inferInstanceAs (Decidable (∀ _, _ ∧ _))

/-- The invariant: every caller's authorities are linear, and no kernel task is inside an
IPC of its own. -/
def Answerable (m : Machine) : Prop := m.Quiet ∧ ∀ c, m.LinearAt c

theorem Fresh.answerable (h : m.Fresh)
    (hcaps : ∀ i t k c, m.sched.tasks i = some t → t.caps.capAt k ≠ some (.reply c)) :
    m.Answerable := by
  have hnamed (x : Slot × Place) : m.sched.named x = none := by
    obtain ⟨i, pl⟩ := x
    cases ht : m.sched.tasks i with
    | none => simp [named, ht]
    | some t =>
      rw [named_of_task ht]
      cases pl with
      | cap k =>
        cases hc : t.caps.replyCaller k with
        | none => exact hc
        | some c => exact absurd (Caps.replyCaller_eq_some.mp hc) (hcaps i t k c ht)
      | grant => simp [Task.named, (h.task ht).pendingGrant]
      | caller => exact (h.task ht).caller
  refine ⟨h.quiet, fun c => ⟨?_, ?_, ?_⟩⟩
  · intro x y hx
    simp [hnamed] at hx
  · intro x hx
    simp [hnamed] at hx
  · intro i
    simp [hnamed]

theorem run_answerable (hsound : m₀.Sound) (h : m₀.Answerable)
    (hsys : ∀ l ∈ ls, l.event.isSyscall = true) (hgood : StepsMeet (step p) keepsReplies m₀ ls)
    (hrun : run (step p) m₀ ls = some m) : m.Sound ∧ m.Answerable := by
  refine run_rule Answerable (fun m l => m.keepsReplies l ∧ l.event.isSyscall = true) ?_ ?_
    hsound h (stepsMeet_and_of_mem hgood hsys) hrun
  · intro m t l m₁ hsound h hrun hen hgood heff
    refine ⟨effect_quiet h.1 hgood.2 heff, fun c => ?_⟩
    obtain ⟨hgrant, hrestart⟩ := hgood.1 c
    exact effect_linear (h.2 c) hsound.parked hsound.roles hrun hen hgrant hrestart heff
  · intro m m' h hsw
    exact ⟨switch_quiet h.1 hsw, fun c => switch_linear (h.2 c) hsw⟩

theorem Answerable.authorities (h : m.Answerable) (c : Slot) :
    (m.sched.authorities c).card ≤ 1 ∧ (¬ m.sched.awaits c → m.sched.authorities c = ∅) := by
  constructor
  · refine Finset.card_le_one.mpr fun x hx y hy => ?_
    exact (h.2 c).unique (Finset.mem_filter.mp hx).2 (Finset.mem_filter.mp hy).2
  · intro hc
    refine Finset.filter_eq_empty_iff.mpr fun x _ hx => ?_
    exact ((h.2 c).awaited hx).elim h.1.not_handsOff hc

/-- From any boot configuration that hands out no reply capability, along any run of
system calls: at most one authority names a caller, none unless it waits for its reply,
and none names the task that runs. -/
theorem reply_linear {heal : Heal} {ops : List BootOp} (hboot : boot p heal ops = .ok m₀)
    (hops : ∀ slot k c, .grantCap slot k (.reply c) ∉ ops)
    (hsys : ∀ l ∈ ls, l.event.isSyscall = true) (hgood : StepsMeet (step p) keepsReplies m₀ ls)
    (hrun : run (step p) m₀ ls = some m) :
    (∀ c, (m.sched.authorities c).card ≤ 1 ∧
      (¬ m.sched.awaits c → m.sched.authorities c = ∅)) ∧
    m.sched.authorities m.current = ∅ := by
  have hfresh := boot_fresh hboot
  obtain ⟨hsound, h⟩ := run_answerable hfresh.sound (hfresh.answerable fun i t k c ht hc => by
    obtain ⟨slot, j, hmem⟩ := boot_caps hboot ht hc
    exact hops slot j c hmem) hsys hgood hrun
  refine ⟨h.authorities, (h.authorities m.current).2 ?_⟩
  rintro ⟨t, ht, hawait⟩
  obtain ⟨t', hrun⟩ := hsound.runs
  obtain rfl := Option.some.inj (ht.symm.trans hrun.task)
  exact hrun.not_awaiting hawait

/-- A server, its client and a third task the server can reach on endpoint 1. -/
def serverOps : List BootOp :=
  BootOp.tasks [[(0, .endpoint 0), (2, .endpoint 1)], [(0, .endpoint 0)], [(0, .endpoint 1)]]

/-- The server receives the client's call and answers it. -/
def roundTrip : List Label :=
  [.ecall 5 [0, 1], .ecall 7 [0, 7], .tickUser, .tick, .resume, .ecall 8 [1, 9]]

theorem reply_linear_roundTrip : ∃ m₀ m, boot .sample .empty serverOps = .ok m₀ ∧
    run (step .sample) m₀ roundTrip = some m ∧
    (∀ c, (m.sched.authorities c).card ≤ 1 ∧
      (¬ m.sched.awaits c → m.sched.authorities c = ∅)) ∧
    m.sched.authorities m.current = ∅ := by
  obtain ⟨m, hm⟩ := Option.isSome_iff_exists.mp
    (show (runFrom serverOps roundTrip).isSome = true by decide +kernel)
  obtain ⟨m₀, hboot, hrun⟩ := runFrom_eq_some hm
  have hgood : (boot .sample .empty serverOps).toOption.all (fun m₀ =>
      decide (StepsMeet (step .sample) keepsReplies m₀ roundTrip)) = true := by decide +kernel
  rw [hboot] at hgood
  exact ⟨m₀, m, hboot, hrun, reply_linear hboot (by simp [serverOps, BootOp.tasks])
    (by decide) (of_decide_eq_true hgood) hrun⟩

/-- A granted reply capability is a copy: the server keeps its own, and the third task
carries another authority naming the same caller. -/
theorem reply_not_linear : ∃ m₀ ls m, boot .sample .empty serverOps = .ok m₀ ∧
    (∀ slot k c, .grantCap slot k (.reply c) ∉ serverOps) ∧
    (∀ l ∈ ls, l.event.isSyscall = true) ∧ run (step .sample) m₀ ls = some m ∧
    ¬ (m.sched.authorities 1).card ≤ 1 := by
  let ls : List Label :=
    [.ecall 5 [0, 1], .ecall 7 [0, 7], .ecall 5 [0, 1], .tick, .resume, .ecall 11 [2, 1]]
  have heval : (runFrom serverOps ls).any
      (fun m => decide ((m.sched.authorities 1).card = 2)) = true := by decide +kernel
  obtain ⟨m, hm, hcard⟩ := (Option.any_eq_true _ _).mp heval
  obtain ⟨m₀, hboot, hrun⟩ := runFrom_eq_some hm
  refine ⟨m₀, ls, m, hboot, by simp [serverOps, BootOp.tasks], by decide, hrun, ?_⟩
  rw [of_decide_eq_true hcard]
  decide

end Machine

end Perenne

import Perenne.Provenance
import Perenne.Trace
import Mathlib.Algebra.BigOperators.Fin

namespace Perenne

theorem count_eq_sum_get {α : Type*} [BEq α] (l : List α) (a : α) :
    l.count a = ∑ k : Fin l.length, if l.get k == a then 1 else 0 := by
  induction l with
  | nil => simp
  | cons b l ih =>
    rw [List.count_cons, ih]
    simp only [List.length_cons, Fin.sum_univ_succ, List.get_eq_getElem]
    exact add_comm _ _

theorem Caps.count_eq_sum (caps : Caps) (cap : Option Capability) :
    caps.count cap = ∑ k : Fin capSlots, if caps[k] == cap then 1 else 0 := by
  rw [← Vector.count_toList, count_eq_sum_get]
  refine Fintype.sum_equiv (finCongr (by simp)) _ _ fun k => ?_
  simp

namespace Scheduler

/-- The table slots a revocation of `ep` by `owner` has to clear. -/
def revocable (s : Scheduler) (ep : EndpointId) (owner : Slot) : Finset (Slot × Fin capSlots) :=
  Finset.univ.filter fun x => x.1 ≠ owner ∧
    (s.tasks x.1).any (fun t => t.caps.capAt x.2 == some (.endpoint ep)) = true

theorem revokeEndpoint_count (s : Scheduler) (ep : EndpointId) (owner : Slot) :
    (s.revokeEndpoint ep owner).2 = (s.revocable ep owner).card := by
  unfold revokeEndpoint
  dsimp only
  rw [revocable, Finset.card_filter, Fintype.sum_prod_type, ← Fin.sum_univ_def]
  refine Finset.sum_congr rfl fun i _ => ?_
  by_cases hi : i = owner
  · simp [hi]
  · cases hs : s.tasks i with
    | none => simp [hs]
    | some t =>
      simp only [hi, if_false, Option.map_some, Option.getD_some, Caps.revokeInCaps,
        Caps.count_eq_sum, ne_eq, not_false_eq_true, true_and]
      refine Finset.sum_congr rfl fun k _ => ?_
      simp [Caps.capAt, hs]

end Scheduler

namespace Machine

open Scheduler Transition

variable {p : Platform} {m₀ m m₁ m' : Machine} {t : Task} {ls ls' : List Label}
  {owner : Slot} {ep : EndpointId}

/-- `owner` makes a `grant` whose source slot holds the endpoint. -/
def regrants (m : Machine) (owner : Slot) (ep : EndpointId) (l : Label) : Bool :=
  m.current == owner && m.requests .grant (fun t frame =>
    (t.caps.capLookup (frame.regs 9)).isSome &&
    t.caps.capAt (frame.regs 10) == some (.endpoint ep)) l.event

/-- Nobody but `owner` holds the endpoint, and nobody carries it. -/
structure Revoked (m : Machine) (owner : Slot) (ep : EndpointId) : Prop where
  caps {i t k} (ht : m.sched.tasks i = some t) (hi : i ≠ owner) :
    t.caps.capAt k ≠ some (.endpoint ep)
  transit {i t} (ht : m.sched.tasks i = some t) : t.pendingGrant ≠ some (.endpoint ep)

theorem effect_revoked (h : m.Revoked owner ep) (hrun : m.Runs t) {l : Label}
    (hgood : m.regrants owner ep l = false) (heff : Effect m t l.event m₁) :
    m₁.Revoked owner ep := by
  have hgrants {frame : TrapFrame} {ep' : EndpointId} (hask : l.event.asks .grant frame)
      (hcap : t.caps.capLookup (frame.regs 9) = some ep') :
      t.caps.capAt (frame.regs 10) ≠ some (.endpoint ep) := by
    intro hsrc
    by_cases hcur : m.current = owner
    · rw [regrants, requests_of_asks hrun hask, hcap, hsrc, hcur] at hgood
      simp at hgood
    · exact h.caps hrun.task hcur hsrc
  refine ⟨fun {i t' k} ht' hi hcap => ?_, fun {i t'} ht' hgrant => ?_⟩
  · obtain ⟨r, hr, hch⟩ := effect_change hrun heff ht'
    cases hch.capSource hr hrun hcap with
    | kept hr hcap => exact h.caps hr hi hcap
    | carried _ hgrant => exact h.transit hrun.task hgrant
    | granted _ _ hr _ hgrant => exact h.transit hr hgrant
  · obtain ⟨r, hr, hch⟩ := effect_change hrun heff ht'
    cases hch.grantSource hr hgrant with
    | kept hr hgrant => exact h.transit hr hgrant
    | queued _ hask hcap hsrc => exact hgrants hask hcap hsrc
    | sent hask hcap hsrc => exact hgrants hask hcap hsrc

theorem switch_revoked (h : m.Revoked owner ep) (hsw : Switch m m') : m'.Revoked owner ep where
  caps ht' hi := by
    obtain ⟨t, ht, heq, -⟩ := hsw.task ht'
    rw [heq]
    exact h.caps (t := t) ht hi
  transit ht' := by
    obtain ⟨t, ht, heq, -⟩ := hsw.task ht'
    rw [heq]
    exact h.transit (t := t) ht

theorem revoke_step (hrun : m.Runs t) {l : Label} {frame : TrapFrame}
    (hask : l.event.asks .revoke frame) (hstep : m.step p l = some m₁) :
    (t.caps.capLookup (frame.regs 9) = none ∧
      ∃ f, m₁ = m.next m.sched f (m.konts m.current)) ∨
    ∃ ep sepc, t.caps.capLookup (frame.regs 9) = some ep ∧
      m₁ = m.next (m.sched.revokeEndpoint ep m.current).1
        { frame.setReg 9 (m.sched.revokeEndpoint ep m.current).2 with sepc }
        (m.konts m.current) := by
  obtain ⟨-, hexec⟩ := step_eq_some.mp hstep
  rw [exec_of_asks hask, dispatch, hask.2.2] at hexec
  simp only [ipcRevoke, Except.bind_eq_ok_iff, task_eq_ok] at hexec
  obtain ⟨out, ⟨t', ht', hout⟩, hfin⟩ := hexec
  obtain rfl : t = t' := Option.some.inj (hrun.task.symm.trans ht')
  cases hcap : t.caps.capLookup (frame.regs 9) with
  | none =>
    simp only [hcap, Except.pure_eq_ok_iff] at hout
    subst hout
    obtain ⟨sepc, rfl⟩ := finish_resume hfin
    exact .inl ⟨rfl, _, rfl⟩
  | some ep =>
    simp only [hcap, Except.pure_eq_ok_iff] at hout
    subst hout
    obtain ⟨sepc, rfl⟩ := finish_resume hfin
    exact .inr ⟨ep, sepc, rfl, rfl⟩

theorem revoked_of_sweep (hclean : ∀ i u, m.sched.tasks i = some u →
      u.pendingGrant ≠ some (.endpoint ep)) {f : TrapFrame} {k : Kont} :
    (m.next (m.sched.revokeEndpoint ep owner).1 f k).Revoked owner ep where
  caps {i t k} ht hi hcap := by
    change (m.sched.revokeEndpoint ep owner).1.tasks i = some t at ht
    rw [revokeEndpoint_tasks, if_neg hi] at ht
    obtain ⟨u, -, rfl⟩ := Option.map_eq_some_iff.mp ht
    rw [Caps.capAt_revokeInCaps] at hcap
    split at hcap
    · cases hcap
    · contradiction
  transit {i t} ht := by
    change (m.sched.revokeEndpoint ep owner).1.tasks i = some t at ht
    rw [revokeEndpoint_tasks] at ht
    split at ht
    · exact hclean i t ht
    · obtain ⟨u, hu, rfl⟩ := Option.map_eq_some_iff.mp ht
      exact hclean i u hu

/-- In every reachable state, a `revoke` by a task without the endpoint changes no task.
By a task that holds it, it clears exactly the slots of the other tasks that hold it,
returns their number and changes nothing else; and where no task carried the endpoint in
a grant, nobody else holds it again until the revoking task grants it. -/
theorem revoke_complete {heal : Heal} {ops : List BootOp} (hboot : boot p heal ops = .ok m₀)
    (hreach : run (step p) m₀ ls = some m) {l : Label} {frame : TrapFrame}
    (hask : l.event.asks .revoke frame) (hstep : m.step p l = some m₁) :
    ∃ t, m.sched.tasks m.current = some t ∧
      (t.caps.capLookup (frame.regs 9) = none → m₁.sched = m.sched) ∧
      ∀ ep, t.caps.capLookup (frame.regs 9) = some ep →
        m₁.current = m.current ∧ m₁.sched.tasks m.current = some t ∧
        (∀ i, m.sched.tasks i = none → m₁.sched.tasks i = none) ∧
        (∀ i u, i ≠ m.current → m.sched.tasks i = some u →
          ∃ caps, m₁.sched.tasks i = some { u with caps } ∧
            ∀ k, caps.capAt k =
              if u.caps.capAt k = some (.endpoint ep) then none else u.caps.capAt k) ∧
        (m₁.frames m.current).regs 9 = (m.sched.revocable ep m.current).card ∧
        ((∀ i u, m.sched.tasks i = some u → u.pendingGrant ≠ some (.endpoint ep)) →
          ∀ ls' m', StepsMeet (step p) (fun n l => n.regrants m.current ep l = false) m₁ ls' →
            run (step p) m₁ ls' = some m' →
            ∀ i u k, i ≠ m.current → m'.sched.tasks i = some u →
              u.caps.capAt k ≠ some (.endpoint ep)) := by
  have hsound := reachable_sound hboot hreach
  obtain ⟨t, hrun⟩ := hsound.runs
  have hsound₁ := step_sound hsound hstep
  refine ⟨t, hrun.task, fun hnone => ?_, fun ep hcap => ?_⟩
  · obtain ⟨-, f, rfl⟩ | ⟨ep, sepc, hsome, -⟩ := revoke_step hrun hask hstep
    · rfl
    · cases hnone.symm.trans hsome
  · obtain ⟨hnone, -⟩ | ⟨ep', sepc, hsome, rfl⟩ := revoke_step hrun hask hstep
    · cases hnone.symm.trans hcap
    obtain rfl : ep = ep' := Option.some.inj (hcap.symm.trans hsome)
    refine ⟨rfl, (if_pos rfl).trans hrun.task, fun i hi => ?_, fun i u hi hu => ?_, ?_, ?_⟩
    · change (m.sched.revokeEndpoint ep m.current).1.tasks i = none
      rw [revokeEndpoint_tasks, hi]
      split <;> rfl
    · refine ⟨(u.caps.revokeInCaps ep).1, ?_, u.caps.capAt_revokeInCaps ep⟩
      change (m.sched.revokeEndpoint ep m.current).1.tasks i = _
      rw [revokeEndpoint_tasks, if_neg hi, hu]
      rfl
    · rw [← revokeEndpoint_count]
      simp [next, save]
    · intro hclean ls' m' hgood hrun' i u k hi hu
      have hrev := (run_rule (fun n => n.Revoked m.current ep) _
        (fun n t l n₁ _ h hrun _ hgood heff => effect_revoked h hrun hgood heff)
        (fun _ _ h hsw => switch_revoked h hsw) hsound₁ (revoked_of_sweep hclean) hgood hrun').2
      exact hrev.caps hu hi

/-- Tasks 0 and 1 hold endpoint 5; task 1 can reach task 2 on endpoint 1. -/
def leaseOps : List BootOp :=
  BootOp.tasks [[(0, .endpoint 5)], [(0, .endpoint 5), (1, .endpoint 1)], [(0, .endpoint 1)]]

/-- Task 1 is blocked in a grant of endpoint 1 while task 0 revokes endpoint 5; task 2 then takes the
message. -/
theorem revoke_complete_lease : ∃ m₀ ls m m₁ t ls' m', boot .sample .empty leaseOps = .ok m₀ ∧
    run (step .sample) m₀ ls = some m ∧ m.step .sample (.ecall 12 [0]) = some m₁ ∧
    m.sched.tasks m.current = some t ∧ t.caps.capLookup 0 = some 5 ∧
    (m.sched.tasks 1).any (fun u => u.pendingGrant == some (.endpoint 1)) ∧
    (m₁.frames m.current).regs 9 = (m.sched.revocable 5 m.current).card ∧
    run (step .sample) m₁ ls' = some m' ∧
    (m'.sched.tasks 2).any (fun u => u.caps.capAt 1 == some (.endpoint 1)) ∧
    ∀ i u k, i ≠ m.current → m'.sched.tasks i = some u → u.caps.capAt k ≠ some (.endpoint 5) := by
  let ls : List Label := [.tickUser, .ecall 11 [1, 1], .tickUser, .tick]
  let ls' : List Label := [.tickUser, .ecall 5 [0, 1]]
  have heval : (runFrom leaseOps ls).any (fun m =>
      (m.sched.tasks m.current).any (fun t => t.caps.capLookup 0 == some 5) &&
      (m.sched.tasks 1).any (fun u => u.pendingGrant == some (.endpoint 1)) &&
      decide (∀ i : Slot, (m.sched.tasks i).all fun u => u.pendingGrant != some (.endpoint 5)) &&
      (m.step .sample (.ecall 12 [0])).any fun m₁ =>
        decide (StepsMeet (step .sample) (fun n l => n.regrants m.current 5 l = false) m₁ ls') &&
        (run (step .sample) m₁ ls').any fun m' =>
          (m'.sched.tasks 2).any fun u => u.caps.capAt 1 == some (.endpoint 1)) = true := by
    decide +kernel
  obtain ⟨m, hm, heval⟩ := (Option.any_eq_true _ _).mp heval
  rw [Bool.and_eq_true, Bool.and_eq_true, Bool.and_eq_true] at heval
  obtain ⟨⟨⟨hcap, hgrant⟩, hclean⟩, heval⟩ := heval
  obtain ⟨t, ht, hcap⟩ := (Option.any_eq_true _ _).mp hcap
  obtain ⟨m₁, hstep, heval⟩ := (Option.any_eq_true _ _).mp heval
  rw [Bool.and_eq_true, decide_eq_true_eq] at heval
  obtain ⟨hgood, heval⟩ := heval
  obtain ⟨m', hm', htaken⟩ := (Option.any_eq_true _ _).mp heval
  obtain ⟨m₀, hboot, hrun⟩ := runFrom_eq_some hm
  obtain ⟨t', ht', -, hsweep⟩ := revoke_complete hboot hrun
    (show Event.asks (.trap (.ecall 12 [0])) .revoke (.ecall 12 [0]) from
      ⟨rfl, by decide, by decide⟩) hstep
  obtain rfl := Option.some.inj (ht.symm.trans ht')
  obtain ⟨-, -, -, -, hcount, hlater⟩ := hsweep 5 (beq_iff_eq.mp hcap)
  refine ⟨m₀, ls, m, m₁, t, ls', m', hboot, hrun, hstep, ht, beq_iff_eq.mp hcap, hgrant, hcount, hm',
    htaken, hlater (fun i u hu => ?_) ls' m' hgood hm'⟩
  have hi := of_decide_eq_true hclean i
  rw [hu] at hi
  exact bne_iff_ne.mp hi

/-- Task 1 is blocked in a grant of endpoint 5 while task 0 revokes it; task 2 then takes
the message and holds the revoked endpoint. -/
theorem revoke_incomplete : ∃ m₀ ls m l frame m₁ ls' m',
    boot .sample .empty leaseOps = .ok m₀ ∧ run (step .sample) m₀ ls = some m ∧
    l.event.asks .revoke frame ∧ m.step .sample l = some m₁ ∧
    (∃ t, m.sched.tasks m.current = some t ∧ t.caps.capLookup (frame.regs 9) = some 5) ∧
    StepsMeet (step .sample) (fun n l => n.regrants m.current 5 l = false) m₁ ls' ∧
    run (step .sample) m₁ ls' = some m' ∧
    ¬ ∀ i u k, i ≠ m.current → m'.sched.tasks i = some u →
      u.caps.capAt k ≠ some (.endpoint 5) := by
  let ls : List Label := [.tickUser, .ecall 11 [1, 0], .tickUser, .tick]
  let ls' : List Label := [.tickUser, .ecall 5 [0, 1]]
  have heval : (runFrom leaseOps ls).any (fun m =>
      (m.sched.tasks m.current).any (fun t => t.caps.capLookup 0 == some 5) &&
      decide (m.current ≠ 2) &&
      (m.step .sample (.ecall 12 [0])).any fun m₁ =>
        decide (StepsMeet (step .sample) (fun n l => n.regrants m.current 5 l = false) m₁ ls') &&
        (run (step .sample) m₁ ls').any fun m' =>
          (m'.sched.tasks 2).any fun u => u.caps.capAt 1 == some (.endpoint 5)) = true := by
    decide +kernel
  simp only [Option.any_eq_true, Bool.and_eq_true, decide_eq_true_eq, beq_iff_eq] at heval
  obtain ⟨m, hm, ⟨htask, hcur⟩, m₁, hstep, hgood, m', hm', u, hu, hcap⟩ := heval
  obtain ⟨m₀, hboot, hrun⟩ := runFrom_eq_some hm
  exact ⟨m₀, ls, m, .ecall 12 [0], .ecall 12 [0], m₁, ls', m', hboot, hrun,
    ⟨rfl, by decide, by decide⟩, hstep, htask, hgood, hm',
    fun h => h 2 u 1 (Ne.symm hcur) hu hcap⟩

end Machine

end Perenne

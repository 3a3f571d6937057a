import Perenne.Parked

namespace Perenne

/-- The fields of a task record no step writes. -/
def Task.static (t : Task) : Nat × String × Nat × Option Relaunch × Nat :=
  (t.stackTop, t.name, t.satp, t.relaunch, t.crashBadge)

def Kont.isKernel : Kont → Bool
  | .kernel _ => true
  | _ => false

namespace Scheduler

theorem static_set {s : Scheduler} {i : Slot} {t t' : Task} (ht : s.tasks i = some t)
    (h : t'.static = t.static) (j : Slot) :
    ((s.set i t').tasks j).map Task.static = (s.tasks j).map Task.static := by
  rw [set_tasks]
  split
  case isTrue hj => rw [hj, ht, Option.map_some, Option.map_some, h]
  case isFalse => rfl

end Scheduler

namespace Machine

open Scheduler

variable {m m₁ m' : Machine} {t : Task} {ev : Event}

theorem effect_static (hrun : m.Runs t) (heff : Effect m t ev m₁) (j : Slot) :
    (m₁.sched.tasks j).map Task.static = (m.sched.tasks j).map Task.static := by
  have hcur {t' : Task} (h : t'.static = t.static) := static_set hrun.task h j
  have htwo {i : Slot} {r r' t' : Task} (hne : i ≠ m.current) (hr : m.sched.tasks i = some r)
      (h : r'.static = r.static) (h' : t'.static = t.static) :
      (((m.sched.set i r').set m.current t').tasks j).map Task.static =
        (m.sched.tasks j).map Task.static :=
    (static_set ((set_tasks_ne _ hne.symm _).trans hrun.task) h' j).trans (static_set hr h j)
  cases heff with
  | keep => rfl
  | deliver hoffer hfind hne hr hstate => exact htwo hne hr rfl rfl
  | enqueue hoffer hfind => exact hcur rfl
  | take hask hcap hfind hne hr hstate => exact htwo hne hr rfl rfl
  | takeMessage hcap hne hr hstate => exact static_set hr (by rfl) j
  | waitRecv hask hcap hfind => exact hcur rfl
  | waitIrq hask hcap => exact hcur rfl
  | toRecvPark hcap => rfl
  | park hpoint => exact hcur rfl
  | pickUp hkont => exact hcur rfl
  | callReturn hkont => rfl
  | settle hkont => rfl
  | finish => rfl
  | reply hask hcap hne hr hstate => exact htwo hne hr rfl rfl
  | replyRefused hask hcap hstate => exact hcur rfl
  | @revoke _ _ ep _ hask hcap =>
    change ((m.sched.revokeEndpoint ep m.current).1.tasks j).map _ = _
    rw [revokeEndpoint_tasks]
    split
    · rfl
    · rw [Option.map_map]
      rfl
  | relaunch hask hcap hr hbound huser => exact static_set hr (by rfl) j
  | wakeIrq hev hr hstate => exact static_set hr (by rfl) j
  | exit hask => exact hcur rfl
  | kill hcause hquiet => exact hcur rfl
  | crash hcause hnotify hne hr hstate => exact htwo hne hr rfl rfl

theorem switch_static (hsw : Switch m m') (j : Slot) :
    (m'.sched.tasks j).map Task.static = (m.sched.tasks j).map Task.static := by
  cases hsw with
  | stay => rfl
  | @swap live next u t state ht hne hu hready hstate =>
    rw [handOver_tasks]
    split
    case isTrue hj =>
      rw [hj, hu]
      rfl
    case isFalse =>
      split
      case isTrue hj =>
        rw [show m.sched.tasks j = some t from hj ▸ ht]
        rfl
      case isFalse => rfl

theorem effect_isKernel (hen : m.enabled ev = true) (heff : Effect m t ev m₁) {i : Slot} {r : Task}
    (hr : m.sched.tasks i = some r) (h : (m.konts i).isKernel = !r.isUser) :
    (m₁.konts i).isKernel = !r.isUser := by
  have hnext {s : Scheduler} {f : TrapFrame} {k : Kont}
      (hk : k.isKernel = (m.konts m.current).isKernel) :
      ((m.next s f k).konts i).isKernel = !r.isUser := by
    rw [next_konts]
    split
    case isTrue hi => rw [hk, ← hi, h]
    case isFalse => exact h
  have hask' {sys frame} (hask : ev.asks sys frame) : (m.konts m.current).isKernel = false := by
    rw [kont_user_of_asks hen hask]
    rfl
  cases heff with
  | keep => exact hnext (s := m.sched) rfl
  | deliver hoffer hfind hne hr hstate =>
    refine hnext ?_
    cases hoffer with
    | send => rfl
    | call hask => exact (hask' hask).symm
    | grant => rfl
    | callMessage =>
      obtain ⟨ret, hk⟩ := kont_body_of_callMessage hen
      rw [hk]
      rfl
  | enqueue hoffer hfind =>
    refine hnext ?_
    cases hoffer with
    | send hask => exact (hask' hask).symm
    | call hask => exact (hask' hask).symm
    | grant hask => exact (hask' hask).symm
    | callMessage =>
      obtain ⟨ret, hk⟩ := kont_body_of_callMessage hen
      rw [hk]
      rfl
  | take => exact hnext rfl
  | takeMessage hcap hne hr hstate =>
    obtain ⟨ret, hk⟩ := kont_body_of_recvMessage hen
    exact hnext (by rw [hk]; rfl)
  | waitRecv hask hcap hfind => exact hnext (hask' hask).symm
  | waitIrq hask hcap => exact hnext (hask' hask).symm
  | toRecvPark hcap =>
    obtain ⟨ret, hk⟩ := kont_body_of_recvMessage hen
    exact hnext (by rw [hk]; rfl)
  | park hpoint =>
    refine hnext ?_
    obtain ⟨ep, hk, -⟩ | ⟨hk, -⟩ | ⟨ep, hk, -⟩ := parkPoint_eq_some hpoint <;> rw [hk] <;> rfl
  | pickUp hkont => exact hnext (by rw [hkont]; rfl)
  | callReturn hkont => exact hnext (by rw [hkont]; rfl)
  | settle hkont => exact hnext (by obtain hk | hk := hkont <;> rw [hk] <;> rfl)
  | finish =>
    refine hnext ?_
    cases hk : m.konts m.current with
    | kernel => rfl
    | _ => simp [enabled, hk] at hen
  | reply => exact hnext rfl
  | replyRefused => exact hnext rfl
  | revoke => exact hnext rfl
  | @relaunch _ _ _ _ target r' hask hcap hr' hbound huser =>
    simp only [Function.update_apply]
    split
    case isTrue hi =>
      obtain rfl := hi
      obtain rfl := Option.some.inj (hr.symm.trans hr')
      rw [huser]
      rfl
    case isFalse => exact h
  | wakeIrq => exact hnext rfl
  | exit => exact h
  | kill => exact h
  | crash => exact h

/-- The kinds of the tasks are those of their continuations. -/
def Roles (m : Machine) : Prop :=
  ∀ i t, m.sched.tasks i = some t → (m.konts i).isKernel = !t.isUser

theorem isUser_of_static {t t' : Task} (h : t'.static = t.static) : t'.isUser = t.isUser := by
  unfold Task.isUser
  rw [show t'.relaunch = t.relaunch from congrArg (fun x => x.2.2.2.1) h]

theorem exists_task_of_static {i : Slot} {t' : Task} {s s' : Scheduler}
    (h : (s'.tasks i).map Task.static = (s.tasks i).map Task.static) (ht' : s'.tasks i = some t') :
    ∃ t, s.tasks i = some t ∧ t'.static = t.static := by
  rw [ht', Option.map_some] at h
  obtain ⟨t, ht, hst⟩ := Option.map_eq_some_iff.mp h.symm
  exact ⟨t, ht, hst.symm⟩

theorem effect_roles (h : m.Roles) (hrun : m.Runs t) (hen : m.enabled ev = true)
    (heff : Effect m t ev m₁) : m₁.Roles := by
  intro i t' ht'
  obtain ⟨r, hr, hst⟩ := exists_task_of_static (effect_static hrun heff i) ht'
  rw [isUser_of_static hst]
  exact effect_isKernel hen heff hr (h i r hr)

theorem switch_roles (h : m.Roles) (hsw : Switch m m') : m'.Roles := by
  intro i t' ht'
  obtain ⟨r, hr, hst⟩ := exists_task_of_static (switch_static hsw i) ht'
  have hk : m'.konts = m.konts := by cases hsw <;> rfl
  rw [isUser_of_static hst, hk]
  exact h i r hr

theorem Fresh.roles (h : m.Fresh) : m.Roles := by
  intro i t ht
  rw [h.kont, ht, Option.any_some]
  cases t.isUser <;> rfl

/-- No kernel task is inside `recv_message` or `call_message`. -/
def Quiet (m : Machine) : Prop := ∀ i pc, m.konts i = .kernel pc → ∃ ret, pc = .body ret

theorem effect_quiet (h : m.Quiet) (hsys : ev.isSyscall = true) (heff : Effect m t ev m₁) :
    m₁.Quiet := by
  have hnext {s : Scheduler} {f : TrapFrame} {k : Kont}
      (hk : k = m.konts m.current ∨ k.isKernel = false) : (m.next s f k).Quiet := by
    intro i pc hi
    rw [next_konts] at hi
    split at hi
    case isTrue hc =>
      obtain rfl | hk := hk
      · exact h _ pc hi
      · simp [hi, Kont.isKernel] at hk
    case isFalse => exact h i pc hi
  cases heff with
  | keep => exact hnext (s := m.sched) (.inl rfl)
  | deliver hoffer =>
    cases hoffer with
    | send => exact hnext (.inl rfl)
    | call => exact hnext (.inr rfl)
    | grant => exact hnext (.inl rfl)
    | callMessage => cases hsys
  | enqueue hoffer =>
    cases hoffer with
    | callMessage => cases hsys
    | _ => exact hnext (.inr rfl)
  | take => exact hnext (.inl rfl)
  | takeMessage => cases hsys
  | toRecvPark => cases hsys
  | park => cases hsys
  | finish => cases hsys
  | reply => exact hnext (.inl rfl)
  | replyRefused => exact hnext (.inl rfl)
  | revoke => exact hnext (.inl rfl)
  | @relaunch _ _ _ _ target =>
    intro i pc hi
    by_cases htarget : i = target
    · subst htarget
      simp at hi
    · exact h i pc (by simpa [Function.update_of_ne htarget] using hi)
  | wakeIrq => exact hnext (.inl rfl)
  | exit => exact h
  | kill => exact h
  | crash => exact h
  | _ => exact hnext (.inr rfl)

theorem switch_quiet (h : m.Quiet) (hsw : Switch m m') : m'.Quiet := by
  cases hsw <;> exact h

theorem Fresh.quiet (h : m.Fresh) : m.Quiet := by
  intro i pc hi
  rw [h.kont] at hi
  split at hi <;> cases hi
  exact ⟨_, rfl⟩

/-- What every reachable state satisfies. -/
structure Sound (m : Machine) : Prop where
  runs : ∃ t, m.Runs t
  parked : m.Parked
  roles : m.Roles

theorem Fresh.sound (h : m.Fresh) : m.Sound := ⟨h.runs, h.parked, h.roles⟩

section Rules

variable {p : Platform} (Inv : Machine → Prop) (Good : Machine → Label → Prop)
  (heffect : ∀ m t l m₁, m.Sound → Inv m → m.Runs t → m.enabled l.event = true → Good m l →
    Effect m t l.event m₁ → Inv m₁)
  (hswitch : ∀ m m', Inv m → Switch m m' → Inv m')

include heffect hswitch

theorem step_rule (m : Machine) (l : Label) (m' : Machine) (h : m.Sound ∧ Inv m)
    (hgood : Good m l) (hstep : m.step p l = some m') : m'.Sound ∧ Inv m' := by
  obtain ⟨hsound, hinv⟩ := h
  obtain ⟨t, hrun⟩ := hsound.runs
  obtain ⟨hen, hexec⟩ := step_eq_some.mp hstep
  obtain ⟨m₁, heff, hsw⟩ := exec_effect hrun hen hexec
  refine ⟨⟨hsw.runs, ?_, ?_⟩, ?_⟩
  · exact switch_parked (effect_parked hsound.parked hrun hen heff) hsw
  · exact switch_roles (effect_roles hsound.roles hrun hen heff) hsw
  · exact hswitch m₁ m' (heffect m t l m₁ hsound hinv hrun hen hgood heff) hsw

/-- What holds of a machine and survives every effect and every switch holds wherever a
run leads. -/
theorem run_rule {m₀ m : Machine} {ls : List Label} (hsound : m₀.Sound) (hinv : Inv m₀)
    (hgood : Transition.StepsMeet (step p) Good m₀ ls)
    (hrun : Transition.run (step p) m₀ ls = some m) : m.Sound ∧ Inv m :=
  Transition.invariant_run (step_rule Inv Good heffect hswitch) ⟨hsound, hinv⟩ hgood hrun

end Rules

theorem step_sound {p : Platform} {l : Label} (h : m.Sound) (hstep : m.step p l = some m') :
    m'.Sound :=
  (step_rule (fun _ => True) (fun _ _ => True) (by simp) (by simp) m l m'
    ⟨h, trivial⟩ trivial hstep).1

theorem reachable_sound {p : Platform} {heal : Heal} {ops : List BootOp} {m₀ : Machine}
    {ls : List Label} (hboot : boot p heal ops = .ok m₀)
    (hrun : Transition.run (step p) m₀ ls = some m) : m.Sound :=
  (run_rule (fun _ => True) (fun _ _ => True) (by simp) (by simp)
    (boot_fresh hboot).sound trivial (Transition.stepsMeet_true ls) hrun).1

end Machine

end Perenne

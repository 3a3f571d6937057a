import Perenne.StepEffect

namespace Perenne

/-- A configuration call. -/
inductive BootOp where
  | spawn (name : String) (entry stackTop : Nat)
  | spawnUser (name : String) (entry userSp kstackTop satp sstatus : Nat)
  | grantCap (slot capSlot : Nat) (cap : Capability)
  | setCrashBadge (slot badge : Nat)
  | setLaunchArgs (slot a1 a2 : Nat)

/-- `spawn`: the task record of a kernel task. -/
def kernelTask (p : Platform) (name : String) (entry stackTop : Nat) : Task where
  context := ⟨p.taskTrampoline, align16 stackTop, fun i => if i = 0 then entry else 0⟩
  state := .ready
  stackTop := stackTop
  name := name
  satp := p.kernelSatp
  caps := .empty
  message := .empty
  relaunch := none
  restarts := 0
  crashBadge := 0
  caller := none
  pendingGrant := none

/-- `spawn_user`: the task record of a U-mode task. -/
def userTask (p : Platform) (name : String) (entry userSp kstackTop satp sstatus : Nat) : Task where
  context := forgeUserContext p.userTrampoline entry userSp kstackTop (userSstatus sstatus) 0
  state := .ready
  stackTop := kstackTop
  name := name
  satp := satp
  caps := .empty
  message := .empty
  relaunch := some ⟨entry, userSp⟩
  restarts := 0
  crashBadge := 0
  caller := none
  pendingGrant := none

namespace Scheduler

/-- Put a task into the first free slot. -/
def place (s : Scheduler) (t : Task) : Except Panic Scheduler :=
  match (List.finRange maxTasks).find? fun i => (s.tasks i).isNone with
  | some slot => .ok (s.set slot t)
  | none => .error (.expect "scheduler full")

/-- `s.tasks[slot].as_mut().expect(text)`, updated. -/
def configure (s : Scheduler) (slot : Nat) (text : String) (f : Task → Except Panic Task) :
    Except Panic Scheduler := do
  let slot ← slotOf slot
  match s.tasks slot with
  | none => .error (.expect text)
  | some t => do
    let t ← f t
    return s.set slot t

/-- `grant_cap`. -/
def grantCap (s : Scheduler) (slot capSlot : Nat) (cap : Capability) : Except Panic Scheduler :=
  s.configure slot "grant_cap: empty task slot" fun t =>
    if capSlot < capSlots then .ok { t with caps := t.caps.install capSlot cap }
    else .error .indexOutOfBounds

/-- `set_crash_badge`. -/
def setCrashBadge (s : Scheduler) (slot badge : Nat) : Except Panic Scheduler :=
  s.configure slot "set_crash_badge: empty task slot" fun t => .ok { t with crashBadge := badge }

/-- `set_launch_args`. -/
def setLaunchArgs (s : Scheduler) (slot a1 a2 : Nat) : Except Panic Scheduler :=
  s.configure slot "set_launch_args: empty task slot" fun t =>
    .ok { t with context := { t.context with
      s := Function.update (Function.update t.context.s 4 a1) 5 a2 } }

def bootOp (p : Platform) (s : Scheduler) : BootOp → Except Panic Scheduler
  | .spawn name entry stackTop => s.place (kernelTask p name entry stackTop)
  | .spawnUser name entry userSp kstackTop satp sstatus =>
    s.place (userTask p name entry userSp kstackTop satp sstatus)
  | .grantCap slot capSlot cap => s.grantCap slot capSlot cap
  | .setCrashBadge slot badge => s.setCrashBadge slot badge
  | .setLaunchArgs slot a1 a2 => s.setLaunchArgs slot a1 a2

def bootOps (p : Platform) (s : Scheduler) : List BootOp → Except Panic Scheduler
  | [] => .ok s
  | op :: ops => do
    let s ← s.bootOp p op
    s.bootOps p ops

/-- `enter`: the first spawned task runs. -/
def enter (s : Scheduler) : Except Panic Scheduler :=
  match s.tasks 0 with
  | none => .error (.expect "enter() with no spawned task")
  | some t => .ok { s.set 0 { t with state := .running } with current := 0 }

end Scheduler

/-- A machine no task of which has run. -/
def Machine.start (heal : Heal) (s : Scheduler) : Machine where
  sched := s
  heal := heal
  expectingWxFault := false
  poolInUse := false
  frames := fun _ => .zeroed
  konts := fun i =>
    if (s.tasks i).any Task.isUser then .user else .kernel (.body none)

/-- The machine a list of configuration calls and `enter` leave behind. -/
def boot (p : Platform) (heal : Heal) (ops : List BootOp) : Except Panic Machine := do
  let s ← Scheduler.new.bootOps p ops
  let s ← s.enter
  return .start heal s

/-- A task no system call has touched. -/
structure Task.Fresh (t : Task) : Prop where
  state : t.state.runnable
  message : t.message = .empty
  caller : t.caller = none
  pendingGrant : t.pendingGrant = none
  restarts : t.restarts = 0

/-- Every task is fresh and stands at its start. -/
structure Machine.Fresh (m : Machine) : Prop where
  task {i : Slot} {t : Task} (h : m.sched.tasks i = some t) : t.Fresh
  kont (i : Slot) :
    m.konts i = if (m.sched.tasks i).any Task.isUser then .user else .kernel (.body none)
  runs : ∃ t, m.Runs t
  solo {i : Slot} {t : Task} (h : m.sched.tasks i = some t) (hrun : t.state = .running) :
    i = m.current

namespace Scheduler

variable {p : Platform} {s s' : Scheduler}

theorem place_eq_ok {t : Task} (h : s.place t = .ok s') :
    ∃ i, s.tasks i = none ∧ s' = s.set i t := by
  unfold place at h
  split at h
  case h_1 i hi =>
    obtain rfl := Except.ok.inj h
    exact ⟨i, by simpa using List.find?_some hi, rfl⟩
  case h_2 => cases h

theorem configure_eq_ok {slot : Nat} {text : String} {f : Task → Except Panic Task}
    (h : s.configure slot text f = .ok s') :
    ∃ i t t', slot = i.val ∧ s.tasks i = some t ∧ f t = .ok t' ∧ s' = s.set i t' := by
  simp only [configure, Except.bind_eq_ok_iff] at h
  obtain ⟨i, hslot, h⟩ := h
  split at h
  case h_1 => cases h
  case h_2 t ht =>
    simp only [Except.bind_eq_ok_iff, Except.pure_eq_ok_iff] at h
    obtain ⟨t', ht', rfl⟩ := h
    exact ⟨i, t, t', Machine.slotOf_eq_ok hslot, ht, ht', rfl⟩

section Slots

variable {P : Slot → Task → Prop} {ops : List BootOp}
  (hkernel : ∀ i name entry stackTop, P i (kernelTask p name entry stackTop))
  (huser : ∀ i name entry userSp kstackTop satp sstatus,
    P i (userTask p name entry userSp kstackTop satp sstatus))
  (hgrant : ∀ (i : Slot) t k cap, .grantCap i k cap ∈ ops → P i t →
    P i { t with caps := t.caps.install k cap })
  (hbadge : ∀ (i : Slot) t crashBadge, .setCrashBadge i crashBadge ∈ ops → P i t →
    P i { t with crashBadge })
  (hargs : ∀ i t a1 a2, P i t → P i { t with context := { t.context with
    s := Function.update (Function.update t.context.s 4 a1) 5 a2 } })

include hkernel huser hgrant hbadge hargs

/-- A configuration call writes one task: a new one, or its table, badge or launch
arguments. -/
theorem bootOp_slots {op : BootOp} (hop : op ∈ ops) (hs : ∀ i t, s.tasks i = some t → P i t)
    (h : s.bootOp p op = .ok s') : ∀ i t, s'.tasks i = some t → P i t := by
  have hwrite (j : Slot) (u : Task) (hu : P j u) : ∀ i t, (s.set j u).tasks i = some t → P i t := by
    intro i t ht
    obtain ⟨rfl, rfl⟩ | ⟨-, hold⟩ := set_tasks_some ht
    · exact hu
    · exact hs i t hold
  cases op with
  | spawn =>
    obtain ⟨j, -, rfl⟩ := place_eq_ok h
    exact hwrite j _ (hkernel ..)
  | spawnUser =>
    obtain ⟨j, -, rfl⟩ := place_eq_ok h
    exact hwrite j _ (huser ..)
  | grantCap slot capSlot cap =>
    obtain ⟨j, u, u', rfl, hu, hu', rfl⟩ := configure_eq_ok h
    split at hu'
    · obtain rfl := Except.ok.inj hu'
      exact hwrite j _ (hgrant j u _ _ hop (hs j u hu))
    · cases hu'
  | setCrashBadge =>
    obtain ⟨j, u, u', rfl, hu, hu', rfl⟩ := configure_eq_ok h
    obtain rfl := Except.ok.inj hu'
    exact hwrite j _ (hbadge j u _ hop (hs j u hu))
  | setLaunchArgs =>
    obtain ⟨j, u, u', -, hu, hu', rfl⟩ := configure_eq_ok h
    obtain rfl := Except.ok.inj hu'
    exact hwrite j _ (hargs j u _ _ (hs j u hu))

theorem bootOps_slots (hs : ∀ i t, s.tasks i = some t → P i t) (h : s.bootOps p ops = .ok s') :
    ∀ i t, s'.tasks i = some t → P i t := by
  suffices hgen : ∀ done : List BootOp, done ⊆ ops → ∀ s : Scheduler, (∀ i t, s.tasks i = some t → P i t) →
      s.bootOps p done = .ok s' → ∀ i t, s'.tasks i = some t → P i t from
    hgen ops (List.Subset.refl _) s hs h
  intro done
  induction done with
  | nil => exact fun _ s hs h => Except.ok.inj h ▸ hs
  | cons op done ih =>
    intro hsub s hs h
    simp only [bootOps, Except.bind_eq_ok_iff] at h
    obtain ⟨s₁, h₁, h⟩ := h
    refine ih (fun x hx => hsub (.tail _ hx)) s₁ ?_ h
    exact bootOp_slots hkernel huser hgrant hbadge hargs (hsub (.head _)) hs h₁

end Slots

theorem bootOps_fresh {ops : List BootOp} (h : Scheduler.new.bootOps p ops = .ok s) (i : Slot)
    (t : Task) (ht : s.tasks i = some t) : t.Fresh ∧ t.state = .ready := by
  refine bootOps_slots (P := fun _ t => t.Fresh ∧ t.state = .ready) ?_ ?_ ?_ ?_ ?_
    (by simp [Scheduler.new]) h i t ht
  · exact fun _ _ _ _ => ⟨⟨.inl rfl, rfl, rfl, rfl, rfl⟩, rfl⟩
  · exact fun _ _ _ _ _ _ _ => ⟨⟨.inl rfl, rfl, rfl, rfl, rfl⟩, rfl⟩
  · rintro i t k cap - ⟨⟨h1, h2, h3, h4, h5⟩, hready⟩
    exact ⟨⟨h1, h2, h3, h4, h5⟩, hready⟩
  · rintro i t crashBadge - ⟨⟨h1, h2, h3, h4, h5⟩, hready⟩
    exact ⟨⟨h1, h2, h3, h4, h5⟩, hready⟩
  · rintro i t a1 a2 ⟨⟨h1, h2, h3, h4, h5⟩, hready⟩
    exact ⟨⟨h1, h2, h3, h4, h5⟩, hready⟩

theorem bootOps_caps {ops : List BootOp} (h : Scheduler.new.bootOps p ops = .ok s) (i : Slot)
    (t : Task) (ht : s.tasks i = some t) (k : Nat) (cap : Capability)
    (hcap : t.caps.capAt k = some cap) : .grantCap i k cap ∈ ops := by
  refine bootOps_slots (P := fun i t => ∀ k cap, t.caps.capAt k = some cap →
    .grantCap i.val k cap ∈ ops) ?_ ?_ ?_ ?_ ?_ (by simp [Scheduler.new]) h i t ht k cap hcap
  · exact fun _ _ _ _ k cap hcap => by simp [kernelTask, Caps.capAt_empty] at hcap
  · exact fun _ _ _ _ _ _ _ k cap hcap => by simp [userTask, Caps.capAt_empty] at hcap
  · intro i t j c hop hold k cap hcap
    rw [Caps.capAt_install] at hcap
    split at hcap
    case isTrue hk =>
      obtain rfl := Option.some.inj hcap
      exact hk.1 ▸ hop
    case isFalse => exact hold k cap hcap
  · exact fun _ _ _ _ hold => hold
  · exact fun _ _ _ _ hold => hold

theorem enter_eq_ok (h : s.enter = .ok s') :
    ∃ t, s.tasks 0 = some t ∧ s' = { s.set 0 { t with state := .running } with current := 0 } := by
  unfold enter at h
  split at h
  case h_1 => cases h
  case h_2 t ht => exact ⟨t, ht, (Except.ok.inj h).symm⟩

end Scheduler

open Scheduler

theorem boot_slots {p : Platform} {heal : Heal} {ops : List BootOp} {m : Machine}
    {P : Slot → Task → Prop} (h : boot p heal ops = .ok m)
    (hP : ∀ s, Scheduler.new.bootOps p ops = .ok s → ∀ i t, s.tasks i = some t → P i t)
    (hstate : ∀ i t state, P i t → P i { t with state }) {i : Slot} {t : Task}
    (ht : m.sched.tasks i = some t) : P i t := by
  simp only [boot, Except.bind_eq_ok_iff, Except.pure_eq_ok_iff] at h
  obtain ⟨s, hs, s', hs', rfl⟩ := h
  obtain ⟨t₀, ht₀, rfl⟩ := enter_eq_ok hs'
  change (s.set 0 { t₀ with state := .running }).tasks i = some t at ht
  obtain ⟨rfl, rfl⟩ | ⟨-, hold⟩ := set_tasks_some ht
  · exact hstate 0 t₀ _ (hP s hs 0 t₀ ht₀)
  · exact hP s hs i t hold

theorem boot_capAt {p : Platform} {heal : Heal} {ops : List BootOp} {m : Machine}
    (h : boot p heal ops = .ok m) {i : Slot} {t : Task} {k : Nat} {cap : Capability}
    (ht : m.sched.tasks i = some t) (hcap : t.caps.capAt k = some cap) : .grantCap i k cap ∈ ops :=
  boot_slots (P := fun i t => ∀ k cap, t.caps.capAt k = some cap → .grantCap i.val k cap ∈ ops) h
    (fun _ hs => bootOps_caps hs) (fun _ _ _ hold => hold) ht k cap hcap

theorem boot_caps {p : Platform} {heal : Heal} {ops : List BootOp} {m : Machine}
    (h : boot p heal ops = .ok m) {i : Slot} {t : Task} {k : Nat} {cap : Capability}
    (ht : m.sched.tasks i = some t) (hcap : t.caps.capAt k = some cap) :
    ∃ slot j, .grantCap slot j cap ∈ ops := ⟨i, k, boot_capAt h ht hcap⟩

theorem boot_fresh {p : Platform} {heal : Heal} {ops : List BootOp} {m : Machine}
    (h : boot p heal ops = .ok m) : m.Fresh := by
  simp only [boot, Except.bind_eq_ok_iff, Except.pure_eq_ok_iff] at h
  obtain ⟨s, hs, s', hs', rfl⟩ := h
  have hfresh := bootOps_fresh hs
  obtain ⟨t₀, ht₀, rfl⟩ := enter_eq_ok hs'
  -- All tasks are ready until `enter` lets the first one run.
  have htask (i : Slot) (t : Task) (ht : (s.set 0 { t₀ with state := .running }).tasks i = some t) :
      t.Fresh ∧ (t.state = .running → i = 0) := by
    obtain ⟨rfl, rfl⟩ | ⟨-, hold⟩ := set_tasks_some ht
    · obtain ⟨-, h2, h3, h4, h5⟩ := (hfresh 0 t₀ ht₀).1
      exact ⟨⟨.inr rfl, h2, h3, h4, h5⟩, fun _ => rfl⟩
    · obtain ⟨hf, hready⟩ := hfresh i t hold
      exact ⟨hf, fun hrun => by simp [hready] at hrun⟩
  refine ⟨fun ht => (htask _ _ ht).1, fun i => rfl, ⟨_, set_tasks_self s 0 _, .inr rfl⟩, ?_⟩
  exact fun ht => (htask _ _ ht).2

end Perenne

import Perenne.Steady

/-!
# The configuration `kmain` boots

Which tasks `kmain` spawns, which capabilities it gives them, and the IPC the kernel
tasks among them are written to do.
-/

namespace Perenne

/-- A device `kmain` found: its registers, its DMA frame and its interrupt. -/
structure Device where
  base : Nat
  dma : Nat
  irq : Nat

/-- The devices that decide which tasks there are. -/
structure Devices where
  rng : Option Device
  blk : Option Device
  net : Option Device

/-- The symbols and address spaces the tasks are spawned with, by task name. -/
structure Layout where
  entry : String → Nat
  userSp : String → Nat
  kstackTop : String → Nat
  satp : String → Nat
  sstatus : Nat

/-- `EP0`, `ENTROPY_EP`, `DEFER_EP`, `BLK_EP`, `GATE_EP`, `GRANT_EP`, `LEASE_EP`,
`CHAN_EP` and `NET_EP`, in the order of their numbers. -/
def ep0 : EndpointId := 0

def entropyEp : EndpointId := 2

def deferEp : EndpointId := 3

def blkEp : EndpointId := 4

def gateEp : EndpointId := 5

def grantEp : EndpointId := 6

def leaseEp : EndpointId := 7

def chanEp : EndpointId := 8

def netEp : EndpointId := 9

/-- `ENTROPY_CAP`, `GATE_LOADER_CAP`, `BLK_EP_CAP` and `NET_EP_CAP`: the table slots the
kernel tasks use. -/
def entropyCap : Nat := 0

def gateLoaderCap : Nat := 1

def blkEpCap : Nat := 0

def netEpCap : Nat := 0

/-- The slots `spawn` and `spawn_user` return to `kmain`: they are handed out in order, so
the later ones depend on the devices found. -/
def Devices.rnguser (d : Devices) : Nat := if d.rng.isSome then 15 else 13

def Devices.kbLoader (d : Devices) : Nat := d.rnguser + 4

def Devices.netdev (d : Devices) : Nat := if d.blk.isSome then d.kbLoader + 3 else d.kbLoader + 1

/-- The scheduler calls of `kmain`, from the RTC server to `idle`. -/
def kmain (l : Layout) (d : Devices) : List BootOp :=
  let spawn (name : String) : BootOp := .spawn name (l.entry name) (l.kstackTop name)
  let spawnUser (name : String) : BootOp :=
    .spawnUser name (l.entry name) (l.userSp name) (l.kstackTop name) (l.satp name) l.sstatus
  [spawnUser "rtc", .grantCap 0 0 (.endpoint ep0),
    spawnUser "needy", .grantCap 1 0 (.endpoint grantEp),
    spawnUser "broker", .grantCap 2 0 (.endpoint grantEp), .grantCap 2 1 (.endpoint ep0),
    spawnUser "lease", .grantCap 3 0 (.endpoint leaseEp),
    spawnUser "tenant", .grantCap 4 0 (.endpoint leaseEp),
    spawnUser "opener", .grantCap 5 0 .session, .grantCap 5 1 (.endpoint chanEp),
    spawnUser "sealer", .grantCap 6 0 .session, .grantCap 6 1 (.endpoint chanEp),
    spawnUser "nocap",
    spawnUser "rogue",
    spawnUser "healer", .grantCap 9 0 (.endpoint crashEp),
    spawnUser "transient", .grantCap 9 1 (.restart 10), .setCrashBadge 10 1,
    .grantCap 10 0 (.endpoint gateEp),
    spawnUser "flaky", .grantCap 9 2 (.restart 11), .setCrashBadge 11 2,
    .grantCap 11 0 (.endpoint gateEp),
    spawnUser "novel", .grantCap 12 0 (.endpoint gateEp)] ++
  d.rng.elim [] (fun rng =>
    [spawn "pqc", .grantCap 13 entropyCap (.endpoint entropyEp),
      spawnUser "entropy", .grantCap 14 entropyCap (.endpoint entropyEp),
      .setLaunchArgs 14 rng.base rng.dma, .grantCap 14 1 (.interrupt rng.irq)]) ++
  [spawnUser "rnguser", .grantCap d.rnguser 0 .randomness,
    spawnUser "deferrer", .grantCap (d.rnguser + 1) 0 (.endpoint deferEp),
    spawnUser "dclientA", .grantCap (d.rnguser + 2) 0 (.endpoint deferEp),
    spawnUser "dclientB", .grantCap (d.rnguser + 3) 0 (.endpoint deferEp),
    spawn "kb", .grantCap d.kbLoader gateLoaderCap (.endpoint gateEp)] ++
  d.blk.elim [] (fun blk =>
    [spawnUser "blk", .grantCap (d.kbLoader + 1) blkEpCap (.endpoint blkEp),
      .grantCap (d.kbLoader + 1) 1 (.interrupt blk.irq),
      .setLaunchArgs (d.kbLoader + 1) blk.base blk.dma,
      .grantCap d.kbLoader blkEpCap (.endpoint blkEp),
      spawn "kbw", .grantCap (d.kbLoader + 2) blkEpCap (.endpoint blkEp)]) ++
  d.net.elim [] (fun net =>
    [spawnUser "net", .grantCap d.netdev netEpCap (.endpoint netEp),
      .grantCap d.netdev 1 (.interrupt net.irq), .setLaunchArgs d.netdev net.base net.dma,
      spawn "netcli", .grantCap (d.netdev + 1) netEpCap (.endpoint netEp)]) ++
  [spawn "shell", spawn "idle"]

/-- The endpoint slots the code of a kernel task passes to `recv_message` and
`call_message`: `pqc_consumer`, which alone uses the entropy pool, `kb_loader_task` (which reads
the disk only if there is one), `kb_writer_task` and `net_client`. -/
def published (disk : Bool) (name : String) : Event → Bool
  | .recvMessage idx => name == "pqc" && idx == entropyCap
  | .callMessage idx _ =>
    name == "kb" && (idx == gateLoaderCap || disk && idx == blkEpCap) ||
      name == "kbw" && idx == blkEpCap || name == "netcli" && idx == netEpCap
  | .setPool _ => name == "pqc"
  | _ => true

/-- The capability without the interrupt number, which the device tree decides. -/
def Capability.blank : Capability → Capability
  | .interrupt _ => .interrupt 0
  | cap => cap

/-- A task's name, and whether it runs in U-mode. -/
def Task.kind (t : Task) : String × Bool := (t.name, t.isUser)

/-- The tasks the calls spawn, in order. -/
def roster (ops : List BootOp) : List (String × Bool) :=
  ops.filterMap fun
    | .spawn name .. => some (name, false)
    | .spawnUser name .. => some (name, true)
    | _ => none

def grants (ops : List BootOp) : List ((Nat × Nat) × Capability) :=
  ops.filterMap fun
    | .grantCap slot k cap => some ((slot, k), cap.blank)
    | _ => none

namespace Scheduler

variable {p : Platform} {s s' : Scheduler}

theorem place_kind {t : Task} {r : List (String × Bool)}
    (hs : ∀ i : Slot, (s.tasks i).map Task.kind = r[i.val]?) (h : s.place t = .ok s') (i : Slot) :
    (s'.tasks i).map Task.kind = (r ++ [t.kind])[i.val]? := by
  have hfree (k : Slot) : s.tasks k = none ↔ r.length ≤ k.val := by
    rw [← List.getElem?_eq_none_iff, ← hs k, Option.map_eq_none_iff]
  unfold place at h
  split at h
  case h_2 => cases h
  case h_1 j hj =>
    obtain rfl := Except.ok.inj h
    obtain ⟨hnone, before, after, hsplit, hbefore⟩ := List.find?_eq_some_iff_append.mp hj
    have hle : r.length ≤ j.val := (hfree j).mp (by simpa using hnone)
    -- A free slot before `j` would have been found first.
    have hge : j.val ≤ r.length := by
      by_contra hlt
      have hslot : r.length < maxTasks := lt_of_le_of_lt hle j.isLt
      have hmem : (⟨r.length, hslot⟩ : Slot) ∈ before := by
        have hall : (⟨r.length, hslot⟩ : Slot) ∈ before ++ j :: after := hsplit ▸ List.mem_finRange _
        have hsorted := List.pairwise_lt_finRange maxTasks
        rw [hsplit, List.pairwise_append] at hsorted
        rcases List.mem_append.mp hall with hb | hja
        · exact hb
        · rcases List.mem_cons.mp hja with heq | ha
          · exact absurd (congrArg Fin.val heq) (by simp; omega)
          · have := (List.pairwise_cons.mp hsorted.2.1).1 _ ha
            simp only [Fin.lt_def] at this
            omega
      have := hbefore _ hmem
      rw [(hfree ⟨r.length, hslot⟩).mpr le_rfl] at this
      simp at this
    have hj' : j.val = r.length := le_antisymm hge hle
    rw [set_tasks]
    split
    case isTrue hi => simp [hi, hj']
    case isFalse hi =>
      have hne : i.val ≠ r.length := fun heq => hi (Fin.ext (heq.trans hj'.symm))
      rw [hs i, List.getElem?_append]
      split
      · rfl
      · rw [List.getElem?_eq_none (by omega), List.getElem?_eq_none (by simp; omega)]

theorem configure_kind {slot : Nat} {text : String} {f : Task → Except Panic Task}
    (hf : ∀ t t', f t = .ok t' → t'.kind = t.kind) (h : s.configure slot text f = .ok s')
    (i : Slot) : (s'.tasks i).map Task.kind = (s.tasks i).map Task.kind := by
  obtain ⟨j, t, t', -, ht, ht', rfl⟩ := configure_eq_ok h
  rw [set_tasks]
  split
  case isTrue hi => rw [hi, ht, Option.map_some, Option.map_some, hf t t' ht']
  case isFalse => rfl

theorem bootOp_kind {op : BootOp} {r : List (String × Bool)}
    (hs : ∀ i : Slot, (s.tasks i).map Task.kind = r[i.val]?) (h : s.bootOp p op = .ok s')
    (i : Slot) : (s'.tasks i).map Task.kind = (r ++ roster [op])[i.val]? := by
  have hsame {slot : Nat} {text : String} {f : Task → Except Panic Task}
      (hf : ∀ t t', f t = .ok t' → t'.kind = t.kind) (h : s.configure slot text f = .ok s') :
      (s'.tasks i).map Task.kind = (r ++ [])[i.val]? := by
    rw [configure_kind hf h, hs, List.append_nil]
  cases op with
  | spawn => exact place_kind hs h i
  | spawnUser => exact place_kind hs h i
  | grantCap =>
    refine hsame (fun t t' ht' => ?_) h
    split at ht'
    · obtain rfl := Except.ok.inj ht'
      rfl
    · cases ht'
  | setCrashBadge =>
    refine hsame (fun t t' ht' => ?_) h
    obtain rfl := Except.ok.inj ht'
    rfl
  | setLaunchArgs =>
    refine hsame (fun t t' ht' => ?_) h
    obtain rfl := Except.ok.inj ht'
    rfl

theorem bootOps_kind {ops : List BootOp} {r : List (String × Bool)}
    (hs : ∀ i : Slot, (s.tasks i).map Task.kind = r[i.val]?) (h : s.bootOps p ops = .ok s')
    (i : Slot) : (s'.tasks i).map Task.kind = (r ++ roster ops)[i.val]? := by
  induction ops generalizing s r with
  | nil =>
    obtain rfl := Except.ok.inj h
    simpa [roster] using hs i
  | cons op ops ih =>
    simp only [bootOps, Except.bind_eq_ok_iff] at h
    obtain ⟨s₁, h₁, h⟩ := h
    have hroster : roster (op :: ops) = roster [op] ++ roster ops := by
      rw [roster, roster, roster, ← List.filterMap_append, List.singleton_append]
    rw [ih (fun i => bootOp_kind hs h₁ i) h, List.append_assoc, hroster]

theorem bootOp_keeps {op : BootOp} {i : Slot} {t : Task} {k : Nat} {cap : Capability}
    (ht : s.tasks i = some t) (hcap : t.caps.capAt k = some cap)
    (hop : ∀ cap', op ≠ .grantCap i k cap') (h : s.bootOp p op = .ok s') :
    ∃ t', s'.tasks i = some t' ∧ t'.caps.capAt k = some cap := by
  have hother {j : Slot} {u : Task} (hne : i ≠ j) :
      ∃ t', (s.set j u).tasks i = some t' ∧ t'.caps.capAt k = some cap :=
    ⟨t, (set_tasks_ne _ hne _).trans ht, hcap⟩
  have hplace {u : Task} (h : s.place u = .ok s') :
      ∃ t', s'.tasks i = some t' ∧ t'.caps.capAt k = some cap := by
    obtain ⟨j, hj, rfl⟩ := place_eq_ok h
    refine hother ?_
    rintro rfl
    cases hj.symm.trans ht
  have hwrite {j : Slot} {u u' : Task} (hu : s.tasks j = some u)
      (hu' : i = j → u.caps.capAt k = some cap → u'.caps.capAt k = some cap) :
      ∃ t', (s.set j u').tasks i = some t' ∧ t'.caps.capAt k = some cap := by
    by_cases hij : i = j
    · subst hij
      obtain rfl := Option.some.inj (ht.symm.trans hu)
      exact ⟨u', set_tasks_self .., hu' rfl hcap⟩
    · exact hother hij
  cases op with
  | spawn => exact hplace h
  | spawnUser => exact hplace h
  | grantCap slot capSlot cap' =>
    obtain ⟨j, u, u', rfl, hu, hu', rfl⟩ := configure_eq_ok h
    split at hu'
    · obtain rfl := Except.ok.inj hu'
      refine hwrite hu fun hij hold => ?_
      have hslot : capSlot ≠ k := by
        rintro rfl
        exact hop cap' (hij ▸ rfl)
      simp [Caps.capAt_install, hslot, hold]
    · cases hu'
  | setCrashBadge =>
    obtain ⟨j, u, u', -, hu, hu', rfl⟩ := configure_eq_ok h
    obtain rfl := Except.ok.inj hu'
    exact hwrite hu fun _ hold => hold
  | setLaunchArgs =>
    obtain ⟨j, u, u', -, hu, hu', rfl⟩ := configure_eq_ok h
    obtain rfl := Except.ok.inj hu'
    exact hwrite hu fun _ hold => hold

theorem bootOps_keeps {ops : List BootOp} {i : Slot} {t : Task} {k : Nat} {cap : Capability}
    (ht : s.tasks i = some t) (hcap : t.caps.capAt k = some cap)
    (hkey : (i.val, k) ∉ (grants ops).map Prod.fst) (h : s.bootOps p ops = .ok s') :
    ∃ t', s'.tasks i = some t' ∧ t'.caps.capAt k = some cap := by
  induction ops generalizing s t with
  | nil =>
    obtain rfl := Except.ok.inj h
    exact ⟨t, ht, hcap⟩
  | cons op ops ih =>
    simp only [bootOps, Except.bind_eq_ok_iff] at h
    obtain ⟨s₁, h₁, h⟩ := h
    have hop (cap' : Capability) : op ≠ .grantCap i k cap' := by
      rintro rfl
      simp [grants] at hkey
    obtain ⟨t₁, ht₁, hcap₁⟩ := bootOp_keeps ht hcap hop h₁
    refine ih ht₁ hcap₁ (fun hmem => hkey ?_) h
    rw [grants, List.filterMap_cons]
    split
    · exact hmem
    · exact .tail _ hmem

theorem bootOps_grants {ops : List BootOp} {slot k : Nat} {cap : Capability}
    (hmem : .grantCap slot k cap ∈ ops) (honce : ((grants ops).map Prod.fst).Nodup)
    (h : s.bootOps p ops = .ok s') :
    ∃ (i : Slot) (t : Task), slot = i.val ∧ s'.tasks i = some t ∧ t.caps.capAt k = some cap := by
  induction ops generalizing s with
  | nil => cases hmem
  | cons op ops ih =>
    simp only [bootOps, Except.bind_eq_ok_iff] at h
    obtain ⟨s₁, h₁, h⟩ := h
    have honce' : ((grants ops).map Prod.fst).Nodup := by
      rw [grants, List.filterMap_cons] at honce
      split at honce
      · exact honce
      · exact (List.nodup_cons.mp honce).2
    cases hmem with
    | tail _ hmem => exact ih hmem honce' h
    | head =>
      obtain ⟨i, u, u', rfl, hu, hu', rfl⟩ := configure_eq_ok h₁
      split at hu'
      case isFalse => cases hu'
      case isTrue hlt =>
        obtain rfl := Except.ok.inj hu'
        have hkey : (i.val, k) ∉ (grants ops).map Prod.fst := by
          simp only [grants, List.filterMap_cons, List.map_cons, List.nodup_cons] at honce
          exact honce.1
        obtain ⟨t, ht, hcap⟩ := bootOps_keeps (set_tasks_self ..)
          (show (u.caps.install k cap).capAt k = some cap by simp [Caps.capAt_install, hlt])
          hkey h
        exact ⟨i, t, rfl, ht, hcap⟩

end Scheduler

/-- What does not depend on addresses and interrupt numbers is decided by the devices
that are there. -/
def Devices.present (rng blk net : Bool) : Devices :=
  let device (there : Bool) : Option Device := if there then some ⟨0, 0, 0⟩ else none
  ⟨device rng, device blk, device net⟩

def Layout.zero : Layout := ⟨fun _ => 0, fun _ => 0, fun _ => 0, fun _ => 0, 0⟩

theorem kmain_outline (l : Layout) (d : Devices) :
    roster (kmain l d) =
      roster (kmain .zero (.present d.rng.isSome d.blk.isSome d.net.isSome)) ∧
    grants (kmain l d) =
      grants (kmain .zero (.present d.rng.isSome d.blk.isSome d.net.isSome)) := by
  obtain ⟨_ | rng, _ | blk, _ | net⟩ := d <;> exact ⟨rfl, rfl⟩

/-- A `Restart` capability names a U-mode task, and there is no `Reply` capability. -/
def Capability.namesUser (r : List (String × Bool)) : Capability → Bool
  | .restart n => n < maxTasks && r[n]?.any Prod.snd
  | .reply _ => false
  | _ => true

section Outline

variable (rng blk net : Bool)

theorem outline_once :
    ((grants (kmain .zero (.present rng blk net))).map Prod.fst).Nodup := by
  revert rng blk net
  decide +kernel

theorem outline_idle : ∃ n < maxTasks,
    (roster (kmain .zero (.present rng blk net)))[n]? = some ("idle", false) := by
  revert rng blk net
  decide +kernel

theorem outline_valid : ∀ x ∈ grants (kmain .zero (.present rng blk net)),
    x.2.namesUser (roster (kmain .zero (.present rng blk net))) = true := by
  revert rng blk net
  decide +kernel

theorem outline_published : ∀ n < maxTasks, ∀ idx < 2,
    ∀ x ∈ (roster (kmain .zero (.present rng blk net)))[n]?,
      (published blk x.1 (.recvMessage idx) || published blk x.1 (.callMessage idx 0)) = true →
      ∃ y ∈ grants (kmain .zero (.present rng blk net)), y.1 = (n, idx) ∧
        ∃ ep < 10, y.2 = .endpoint ep := by
  revert rng blk net
  decide +kernel

end Outline

section Booted

open Scheduler

variable {p : Platform} {heal : Heal} {ops : List BootOp} {m : Machine}

theorem boot_kind (h : boot p heal ops = .ok m) (i : Slot) :
    (m.sched.tasks i).map Task.kind = (roster ops)[i.val]? := by
  simp only [boot, Except.bind_eq_ok_iff, Except.pure_eq_ok_iff] at h
  obtain ⟨s, hs, s', hs', rfl⟩ := h
  obtain ⟨t₀, ht₀, rfl⟩ := enter_eq_ok hs'
  have hkind := bootOps_kind (r := []) (by simp [Scheduler.new]) hs i
  change ((s.set 0 { t₀ with state := .running }).tasks i).map Task.kind = _
  rw [set_tasks]
  split
  case isTrue hi =>
    rw [hi, ht₀] at hkind
    rw [hi]
    exact hkind
  case isFalse => exact hkind

theorem boot_grants {slot k : Nat} {cap : Capability} (h : boot p heal ops = .ok m)
    (hmem : .grantCap slot k cap ∈ ops) (honce : ((grants ops).map Prod.fst).Nodup) :
    ∃ (i : Slot) (t : Task), slot = i.val ∧ m.sched.tasks i = some t ∧
      t.caps.capAt k = some cap := by
  simp only [boot, Except.bind_eq_ok_iff, Except.pure_eq_ok_iff] at h
  obtain ⟨s, hs, s', hs', rfl⟩ := h
  obtain ⟨t₀, ht₀, rfl⟩ := enter_eq_ok hs'
  obtain ⟨i, t, rfl, ht, hcap⟩ := bootOps_grants hmem honce hs
  by_cases hi : i = 0
  · subst hi
    obtain rfl := Option.some.inj (ht₀.symm.trans ht)
    exact ⟨0, _, rfl, set_tasks_self s 0 _, hcap⟩
  · exact ⟨i, t, rfl, (set_tasks_ne s hi _).trans ht, hcap⟩

theorem mem_grants {slot k : Nat} {cap : Capability} (h : .grantCap slot k cap ∈ ops) :
    ((slot, k), cap.blank) ∈ grants ops :=
  List.mem_filterMap.mpr ⟨_, h, rfl⟩

theorem exists_of_mem_grants {slot k : Nat} {ep : EndpointId}
    (h : ((slot, k), .endpoint ep) ∈ grants ops) : .grantCap slot k (.endpoint ep) ∈ ops := by
  obtain ⟨op, hop, heq⟩ := List.mem_filterMap.mp h
  cases op with
  | grantCap slot' k' cap =>
    simp only [Option.some.injEq, Prod.mk.injEq] at heq
    obtain ⟨⟨rfl, rfl⟩, hblank⟩ := heq
    cases cap <;> cases hblank
    exact hop
  | _ => cases heq

variable {l : Layout} {d : Devices} (h : boot p heal (kmain l d) = .ok m)

include h

theorem kmain_steady : ∃ idle, m.Steady idle ∧
    ∃ u, m.sched.tasks idle = some u ∧ u.kind = ("idle", false) := by
  obtain ⟨hroster, hgrants⟩ := kmain_outline l d
  have hfresh := boot_fresh h
  obtain ⟨n, hn, hidle⟩ := outline_idle d.rng.isSome d.blk.isSome d.net.isSome
  have hkind := boot_kind h ⟨n, hn⟩
  rw [hroster, hidle] at hkind
  obtain ⟨u, hu, hname⟩ := Option.map_eq_some_iff.mp hkind
  have huser : u.isUser = false := congrArg Prod.snd hname
  refine ⟨⟨n, hn⟩, ⟨⟨u, none, hu, ?_⟩, fun i t ht hrun => hfresh.solo ht hrun, ?_⟩, u, hu, hname⟩
  · rw [hfresh.kont, hu, Option.any_some, huser]
    rfl
  · refine ⟨fun {i t k cap} ht hcap => ?_, fun ht hgrant => ?_, fun ht hcaller => ?_⟩
    · obtain ⟨slot, j, hmem⟩ := boot_caps h ht hcap
      have hvalid := outline_valid d.rng.isSome d.blk.isSome d.net.isSome _
        (hgrants ▸ mem_grants hmem)
      cases cap with
      | restart c =>
        simp only [Capability.blank, Capability.namesUser, Bool.and_eq_true,
          decide_eq_true_eq] at hvalid
        obtain ⟨hc, hany⟩ := hvalid
        rw [← hroster, ← boot_kind h ⟨c, hc⟩] at hany
        obtain ⟨x, hx, huser⟩ := (Option.any_eq_true _ _).mp hany
        obtain ⟨r, hr, rfl⟩ := Option.map_eq_some_iff.mp hx
        exact ⟨⟨c, hc⟩, rfl, r, hr, huser⟩
      | reply c => cases hvalid
      | _ => trivial
    · rw [(hfresh.task ht).pendingGrant] at hgrant
      cases hgrant
    · rw [(hfresh.task ht).caller] at hcaller
      cases hcaller

theorem kmain_published {i : Slot} {t : Task} {idx : Nat} {ev : Event}
    (ht : m.sched.tasks i = some t) (huses : ev.uses = some idx)
    (hpub : published d.blk.isSome t.name ev = true) :
    ∃ ep, t.caps.capLookup idx = some ep := by
  obtain ⟨hroster, hgrants⟩ := kmain_outline l d
  have hidx : idx < 2 ∧ (published d.blk.isSome t.name (.recvMessage idx) ||
      published d.blk.isSome t.name (.callMessage idx 0)) = true := by
    cases ev with
    | recvMessage j =>
      obtain rfl := Option.some.inj huses
      refine ⟨?_, by simp [hpub]⟩
      simp only [published, Bool.and_eq_true, beq_iff_eq, entropyCap] at hpub
      omega
    | callMessage j badge =>
      obtain rfl := Option.some.inj huses
      refine ⟨?_, by rw [Bool.or_eq_true]; exact .inr hpub⟩
      simp only [published, Bool.or_eq_true, Bool.and_eq_true, beq_iff_eq, gateLoaderCap,
        blkEpCap, netEpCap] at hpub
      omega
    | _ => cases huses
  have hmem : t.kind ∈ (roster (kmain .zero
      (.present d.rng.isSome d.blk.isSome d.net.isSome)))[i.val]? := by
    rw [← hroster, ← boot_kind h i, ht]
    rfl
  obtain ⟨⟨⟨slot, k⟩, cap⟩, hy, hkey, ep, -, hep⟩ :=
    outline_published d.rng.isSome d.blk.isSome d.net.isSome i i.isLt idx hidx.1 t.kind hmem hidx.2
  obtain ⟨rfl, rfl⟩ := Prod.mk.inj hkey
  obtain rfl := hep
  rw [← hgrants] at hy
  obtain ⟨j, t', hj, ht', hcap⟩ := boot_grants h (exists_of_mem_grants hy)
    (hgrants ▸ outline_once ..)
  obtain rfl := Fin.ext hj
  obtain rfl := Option.some.inj (ht.symm.trans ht')
  exact ⟨ep, Caps.capLookup_eq_some.mpr hcap⟩

end Booted

end Perenne

import Perenne.DtTree

namespace Perenne

namespace Dt

namespace NodeState

/-- The slot of a virtio node with a base. -/
def virtio? (n : NodeState) : Option (Nat × UInt32) :=
  if n.isVirtio then n.reg.map fun b => (b, n.virtioIrq.getD 0) else none

/-- Base, shift and interrupt of a UART node with a base. -/
def uart? (n : NodeState) : Option (Nat × UInt32 × UInt32) :=
  if n.isUart then n.reg.map fun b => (b, n.shift, n.virtioIrq.getD 0) else none

def rtc? (n : NodeState) : Option Nat := if n.isRtc then n.reg else none

def plic? (n : NodeState) : Option Nat := if n.isPlic then n.reg else none

end NodeState

/-- The devices the kernel is told of. -/
@[ext]
structure Devices where
  virtio : List (Nat × UInt32)
  uart : Option (Nat × UInt32 × UInt32)
  rtc : Option Nat
  plic : Nat
deriving DecidableEq

/-- The first eight virtio slots, the first UART, the first RTC and the last PLIC. -/
def devicesOf (ns : List NodeState) : Devices where
  virtio := (ns.filterMap NodeState.virtio?).take 8
  uart := (ns.filterMap NodeState.uart?).head?
  rtc := (ns.filterMap NodeState.rtc?).head?
  plic := (ns.filterMap NodeState.plic?).getLast?.getD 0

def MachineInfo.devices (mi : MachineInfo) : Devices where
  virtio := (mi.virtioMmio.toList.zip mi.virtioMmioIrq.toList).take mi.virtioMmioCount
  uart := some (mi.uartBase, mi.uartRegShift, mi.uartIrq)
  rtc := some mi.rtcBase
  plic := mi.plicBase

namespace Found

variable {d : Found} {n : NodeState}

def slots (d : Found) : List (Nat × UInt32) :=
  (d.virtioMmio.toList.zip d.virtioMmioIrq.toList).take d.virtioCount

def devices (d : Found) : Devices where
  virtio := d.slots
  uart := d.uart.map fun u => (u.1, u.2, d.uartIrq)
  rtc := d.rtc
  plic := d.plicBase

theorem commitUart_uart : (d.commitUart n).devices.uart = d.devices.uart.or n.uart? := by
  obtain ⟨u, ui, r, v, c, vi, p⟩ := d
  rw [commitUart, NodeState.uart?]
  cases n.isUart <;> cases n.reg <;> cases u <;> rfl

theorem commitUart_rest : d.commitUart n =
    { d with uart := (d.commitUart n).uart, uartIrq := (d.commitUart n).uartIrq } := by
  rw [commitUart]
  split
  · rfl
  · rfl

theorem commitRtc_eq : d.commitRtc n = { d with rtc := d.rtc.or n.rtc? } := by
  obtain ⟨u, ui, r, v, c, vi, p⟩ := d
  rw [commitRtc, NodeState.rtc?]
  cases n.isRtc <;> cases n.reg <;> cases r <;> rfl

theorem commitPlic_eq : d.commitPlic n = { d with plicBase := n.plic?.getD d.plicBase } := by
  rw [commitPlic, NodeState.plic?]
  cases n.isPlic <;> cases n.reg <;> rfl

theorem length_slots (h : d.virtioCount ≤ 8) : d.slots.length = d.virtioCount := by
  simp [slots, h]

theorem slots_set {a : Vector Nat 8} {b : Vector UInt32 8} {c : Nat} (h : c < 8) (x : Nat)
    (y : UInt32) : ((a.set c x h).toList.zip (b.set c y h).toList).take (c + 1) =
      (a.toList.zip b.toList).take c ++ [(x, y)] := by
  apply List.ext_getElem
  · simp
    omega
  · intro i h₁ h₂
    simp [List.getElem_append, Vector.getElem_set]
    grind

theorem commitVirtio_slots (h : d.virtioCount ≤ 8) : (d.commitVirtio n).virtioCount ≤ 8 ∧
    (d.commitVirtio n).slots = (d.slots ++ n.virtio?.toList).take 8 := by
  have hlen := length_slots h
  have hkept : d.slots.take 8 = d.slots := List.take_of_length_le (by omega)
  rw [commitVirtio, NodeState.virtio?]
  cases n.isVirtio with
  | false => simpa [h] using hkept.symm
  | true =>
  cases n.reg with
  | none => simpa [h] using hkept.symm
  | some b =>
    by_cases hroom : d.virtioCount < 8
    · simp only [hroom, dite_true, if_true, Option.map_some, Option.toList_some]
      refine ⟨hroom, ?_⟩
      rw [List.take_of_length_le (by simp; omega)]
      exact slots_set hroom _ _
    · simp only [hroom, dite_false, if_true, Option.map_some, Option.toList_some]
      refine ⟨h, ?_⟩
      rw [List.take_append_of_le_length (by omega), hkept]

theorem commitVirtio_rest : d.commitVirtio n = { d with
    virtioMmio := (d.commitVirtio n).virtioMmio
    virtioCount := (d.commitVirtio n).virtioCount
    virtioMmioIrq := (d.commitVirtio n).virtioMmioIrq } := by
  rw [commitVirtio]
  split
  · split
    · rfl
    · rfl
  · rfl

theorem commit_devices (h : d.virtioCount ≤ 8) : (d.commit n).virtioCount ≤ 8 ∧
    (d.commit n).devices = ⟨(d.slots ++ n.virtio?.toList).take 8, d.devices.uart.or n.uart?,
      d.rtc.or n.rtc?, n.plic?.getD d.plicBase⟩ := by
  have huart := @commitUart_uart d n
  have hrest := @commitUart_rest d n
  rw [commit, commitPlic_eq, commitRtc_eq]
  generalize d.commitUart n = d₁ at *
  obtain ⟨u, ui, r, v, c, vi, p⟩ := d
  rw [hrest] at huart ⊢
  obtain ⟨hcount, hslots⟩ := commitVirtio_slots (d := ⟨d₁.uart, d₁.uartIrq, r.or n.rtc?, v, c, vi, p⟩)
    (n := n) h
  have hvirtio := @commitVirtio_rest ⟨d₁.uart, d₁.uartIrq, r.or n.rtc?, v, c, vi, p⟩ n
  dsimp only at hvirtio ⊢
  generalize commitVirtio ⟨d₁.uart, d₁.uartIrq, r.or n.rtc?, v, c, vi, p⟩ n = d₂ at *
  refine ⟨hcount, ?_⟩
  rw [hvirtio] at hslots ⊢
  exact Devices.ext hslots huart rfl rfl

theorem foldl_commit (ns : List NodeState) : (ns.foldl commit .init).virtioCount ≤ 8 ∧
    (ns.foldl commit .init).devices = devicesOf ns := by
  induction ns using List.reverseRecOn with
  | nil => exact ⟨Nat.zero_le 8, rfl⟩
  | append_singleton ns n ih =>
    obtain ⟨hcount, hdevices⟩ := ih
    obtain ⟨hcount', hdevices'⟩ := commit_devices (n := n) hcount
    rw [List.foldl_append]
    refine ⟨hcount', hdevices'.trans ?_⟩
    have hv : (ns.foldl commit .init).slots = (devicesOf ns).virtio := congrArg (·.virtio) hdevices
    have hr : (ns.foldl commit .init).rtc = (devicesOf ns).rtc := congrArg (·.rtc) hdevices
    have hp : (ns.foldl commit .init).plicBase = (devicesOf ns).plic := congrArg (·.plic) hdevices
    rw [hv, hr, hp, hdevices]
    have hone {α : Type} (f : NodeState → Option α) : [n].filterMap f = (f n).toList := by
      rw [List.filterMap_cons]
      cases f n with
      | none => rfl
      | some a => rfl
    simp only [devicesOf, List.filterMap_append, hone]
    apply Devices.ext
    · dsimp only
      generalize ns.filterMap NodeState.virtio? = l
      by_cases hl : 8 ≤ l.length
      · rw [List.take_append_of_le_length (by simp; omega), List.take_take,
          List.take_append_of_le_length hl]
        rfl
      · rw [List.take_of_length_le (l := l) (by omega)]
    · dsimp only
      rw [List.head?_append]
      cases NodeState.uart? n with
      | none => rfl
      | some u => rfl
    · dsimp only
      rw [List.head?_append]
      cases NodeState.rtc? n with
      | none => rfl
      | some b => rfl
    · dsimp only
      rw [List.getLast?_append]
      cases NodeState.plic? n with
      | none => rfl
      | some b => rfl

end Found

namespace Nodes

/-- The nodes in the order in which they close, each by its own properties. -/
def nodes (addrCells : UInt32) : Nodes → List NodeState
  | .none => []
  | .node _ props children rest =>
    children.nodes addrCells ++ describe addrCells props :: rest.nodes addrCells

def isNone : Nodes → Bool
  | .none => true
  | .node .. => false

/-- The nodes without children, each with the number of nodes that end with it, if `k` nodes
around these end with the last of them. -/
def leaves (addrCells : UInt32) : Nodes → Nat → List (NodeState × Nat)
  | .none, _ => []
  | .node _ props children rest, k =>
    let ending := if rest.isNone then k + 1 else 1
    (if children.isNone then [(describe addrCells props, ending)]
      else children.leaves addrCells ending) ++ rest.leaves addrCells k

end Nodes

namespace Tree

/-- The nodes in the order in which they close, the root last. -/
def nodes (t : Tree) : List NodeState :=
  t.children.nodes t.addrCells ++ [describe t.addrCells t.props]

/-- The nodes without children, each with the number of nodes that end with it. A root without
children is read in the cells it has declared so far. -/
def leaves (t : Tree) : List (NodeState × Nat) :=
  if t.children.isNone then [(readRoot t.props, 1)] else t.children.leaves t.addrCells 1

/-- The devices of the tree are those of its leaves, the virtio slots even if each leaf is
counted for every node that ends with it. -/
structure InLeaves (t : Tree) : Prop where
  virtio : ((t.leaves.flatMap fun l => List.replicate l.2 l.1).filterMap NodeState.virtio?).take 8 =
    (t.nodes.filterMap NodeState.virtio?).take 8
  uart : (t.leaves.filterMap fun l => l.1.uart?).head? = (t.nodes.filterMap NodeState.uart?).head?
  rtc : (t.leaves.filterMap fun l => l.1.rtc?).head? = (t.nodes.filterMap NodeState.rtc?).head?
  plic : (t.leaves.filterMap fun l => l.1.plic?).getLast?.getD 0 =
    (t.nodes.filterMap NodeState.plic?).getLast?.getD 0

end Tree

section Leaves

variable {addrCells : UInt32} {k : Nat}

/-- Each leaf as often as it is committed. -/
def repeated (ls : List (NodeState × Nat)) : List NodeState :=
  ls.flatMap fun l => List.replicate l.2 l.1

theorem Nodes.leaves_pos {ns : Nodes} : ∀ l ∈ ns.leaves addrCells k, 0 < l.2 := by
  induction ns generalizing k with
  | none => exact nofun
  | node name props children rest ihc ihr =>
    intro l hl
    rw [Nodes.leaves] at hl
    obtain hl | hl := List.mem_append.mp hl
    · split at hl
      · obtain rfl := List.mem_singleton.mp hl
        dsimp only
        split
        · exact Nat.succ_pos k
        · exact Nat.one_pos
      · exact ihc l hl
    · exact ihr l hl

theorem Nodes.committed_eq {ns : Nodes} (hns : ns.isNone = false) (n : NodeState) :
    repeated (ns.leaves addrCells k) =
      ns.committed addrCells ++ List.replicate k (ns.buffered addrCells n) := by
  induction ns generalizing k n with
  | none => cases hns
  | node name props children rest ihc ihr =>
    have hfirst (ending : Nat) : repeated (if children.isNone then
        [(describe addrCells props, ending + 1)] else children.leaves addrCells (ending + 1)) =
        children.committed addrCells ++
          List.replicate (ending + 1) (children.buffered addrCells (describe addrCells props)) := by
      cases children with
      | none => exact List.flatMap_singleton _ _
      | node name' props' inner next => exact ihc rfl _
    rw [Nodes.leaves, repeated, List.flatMap_append, ← repeated, ← repeated, Nodes.committed,
      Nodes.buffered]
    cases rest with
    | none =>
      rw [Nodes.isNone, if_pos rfl, hfirst]
      simp only [Nodes.leaves, repeated, List.flatMap_nil, Nodes.committed, Nodes.buffered,
        List.replicate_succ, List.append_nil, List.append_assoc, List.cons_append,
        List.nil_append]
    | node name' props' inner next =>
      have hother : (if (Nodes.node name' props' inner next).isNone then k + 1 else 1) = 0 + 1 := rfl
      rw [ihr rfl (children.buffered addrCells (describe addrCells props)), hother, hfirst]
      simp only [List.replicate_succ, List.replicate_zero, List.append_assoc, List.cons_append,
        List.nil_append]

theorem Tree.committed_eq (t : Tree) : t.committed = repeated t.leaves := by
  rw [Tree.committed, Tree.leaves]
  cases hc : t.children with
  | none => rfl
  | node name props inner next =>
    rw [Nodes.isNone, if_neg (by simp), Nodes.committed_eq rfl (readRoot t.props)]
    rfl

theorem Tree.leaves_pos {t : Tree} : ∀ l ∈ t.leaves, 0 < l.2 := by
  intro l hl
  rw [Tree.leaves] at hl
  split at hl
  · obtain rfl := List.mem_singleton.mp hl
    exact Nat.one_pos
  · exact Nodes.leaves_pos l hl

variable {α : Type} (f : NodeState → Option α)

theorem head?_repeated {ls : List (NodeState × Nat)} (h : ∀ l ∈ ls, 0 < l.2) :
    ((repeated ls).filterMap f).head? = (ls.filterMap fun l => f l.1).head? := by
  induction ls with
  | nil => rfl
  | cons l ls ih =>
    have ih := ih fun l hl => h l (.tail _ hl)
    obtain ⟨k, hk⟩ := Nat.exists_eq_succ_of_ne_zero (h l (.head _)).ne'
    rw [repeated, List.flatMap_cons, ← repeated, hk, List.replicate_succ, List.cons_append,
      List.filterMap_cons, List.filterMap_cons]
    cases hf : f l.1 with
    | some a => rfl
    | none =>
      dsimp only
      rw [List.filterMap_append, List.filterMap_replicate_of_none hf, List.nil_append, ih]

theorem getLast?_repeated {ls : List (NodeState × Nat)} (h : ∀ l ∈ ls, 0 < l.2) :
    ((repeated ls).filterMap f).getLast? = (ls.filterMap fun l => f l.1).getLast? := by
  induction ls with
  | nil => rfl
  | cons l ls ih =>
    have ih := ih fun l hl => h l (.tail _ hl)
    obtain ⟨k, hk⟩ := Nat.exists_eq_succ_of_ne_zero (h l (.head _)).ne'
    rw [repeated, List.flatMap_cons, ← repeated, List.filterMap_append, List.getLast?_append, ih,
      List.filterMap_cons]
    cases hf : f l.1 with
    | none => rw [List.filterMap_replicate_of_none hf, List.getLast?_nil, Option.or_none]
    | some a =>
      have hlast : (List.replicate (k + 1) a).getLast? = some a := by
        rw [List.replicate_succ', List.getLast?_concat]
      dsimp only
      rw [List.filterMap_replicate_of_some hf, hk, hlast, List.getLast?_cons]
      cases (ls.filterMap fun l => f l.1).getLast? with
      | none => rfl
      | some b => rfl

end Leaves

theorem State.devices_of_finish {s : State} {mi : MachineInfo} (h : s.finish = some mi) :
    mi.devices = s.found.devices := by
  obtain ⟨u, hu, h⟩ := Option.bind_eq_some_iff.mp h
  obtain ⟨ram, -, h⟩ := Option.bind_eq_some_iff.mp h
  obtain ⟨hz, -, h⟩ := Option.bind_eq_some_iff.mp h
  obtain ⟨rtc, hrtc, h⟩ := Option.bind_eq_some_iff.mp h
  cases h
  rw [Found.devices, hu, hrtc]
  rfl

/-- A device with a `compatible` string, a base and an interrupt. -/
def device (name compatible : String) (base irq : UInt32) (children rest : Nodes) : Nodes :=
  .node (utf8 name) [(utf8 "compatible", utf8 compatible ++ [0]),
    (utf8 "reg", toBeBytes base ++ toBeBytes 0x1000), (utf8 "interrupts", toBeBytes irq)]
    children rest

/-- 128 MiB of RAM at `0x80000000`, a UART, an RTC, and more. -/
def board (more : Nodes) : Tree where
  name := []
  props := [(utf8 "#address-cells", toBeBytes 1), (utf8 "#size-cells", toBeBytes 1)]
  children :=
    .node (utf8 "memory@80000000") [(utf8 "reg", toBeBytes 0x80000000 ++ toBeBytes 0x8000000)] .none <|
    .node (utf8 "cpus") [(utf8 "timebase-frequency", toBeBytes 10000000)] .none <|
    device "serial@10000000" "ns16550a" 0x10000000 10 .none <|
    device "rtc@101000" "google,goldfish-rtc" 0x101000 11 .none more

/-- A bus with one virtio slot, and what stands behind it. -/
def virtioBus (rest : Nodes) : Nodes :=
  .node (utf8 "soc") [] (device "virtio_mmio@10001000" "virtio,mmio" 0x10001000 1 .none rest) .none

/-- On every blob that is a tree flattened and has all that is asked for, the devices found are
those of the tree exactly if they are those of its leaves. -/
theorem devices_exact_iff {dtb : Blob} {t : Tree} {mi : MachineInfo} (h : Serialises dtb.bytes t)
    (hp : parse dtb = some (.some mi)) : mi.devices = devicesOf t.nodes ↔ t.InLeaves := by
  have hwalk : (t.tokens.foldl State.after .init).found = t.committed.foldl Found.commit .init :=
    t.walked.1
  have hread : mi.devices = devicesOf (repeated t.leaves) := by
    rw [State.devices_of_finish (h.finish_eq hp), hwalk, Tree.committed_eq]
    exact (Found.foldl_commit _).2
  have huart := head?_repeated NodeState.uart? t.leaves_pos
  have hrtc := head?_repeated NodeState.rtc? t.leaves_pos
  have hplic := getLast?_repeated NodeState.plic? t.leaves_pos
  rw [hread, Devices.ext_iff]
  simp only [devicesOf, huart, hrtc, hplic]
  exact ⟨fun ⟨hv, hu, hr, hp⟩ => ⟨hv, hu, hr, hp⟩, fun h => ⟨h.virtio, h.uart, h.rtc, h.plic⟩⟩

def clockBoard : Tree := board (virtioBus (.node (utf8 "clock") [] .none .none))

def clockBlob : Blob := ⟨clockBoard.flatten, by decide +kernel⟩

def clockInfo : MachineInfo where
  ramBase := 0x80000000
  ramSize := 0x8000000
  timebaseHz := 10000000
  uartBase := 0x10000000
  uartRegShift := 0
  uartIrq := 10
  rtcBase := 0x101000
  virtioMmio := #v[0x10001000, 0, 0, 0, 0, 0, 0, 0]
  virtioMmioCount := 1
  virtioMmioIrq := #v[1, 0, 0, 0, 0, 0, 0, 0]
  plicBase := 0

theorem clock_serialises : Serialises clockBlob.bytes clockBoard :=
  serialises_of_check (by decide +kernel)

theorem clock_parses : parse clockBlob = some (.some clockInfo) := by decide +kernel

theorem devices_exact_clock : parse clockBlob = some (.some clockInfo) ∧
    clockInfo.devices = devicesOf clockBoard.nodes := by
  refine ⟨clock_parses, (devices_exact_iff clock_serialises clock_parses).mpr ?_⟩
  exact ⟨by decide +kernel, by decide +kernel, by decide +kernel, by decide +kernel⟩

/-- The virtio slot is the last node, so the bus and the root close after it. -/
def lastBlob : Blob := ⟨(board (virtioBus .none)).flatten, by decide +kernel⟩

/-- One virtio node is found three times. -/
theorem devices_repeated : ∃ mi : MachineInfo, Serialises lastBlob.bytes (board (virtioBus .none)) ∧
    parse lastBlob = some (.some mi) ∧ mi.devices ≠ devicesOf (board (virtioBus .none)).nodes :=
  ⟨{ clockInfo with
      virtioMmio := #v[0x10001000, 0x10001000, 0x10001000, 0, 0, 0, 0, 0]
      virtioMmioCount := 3
      virtioMmioIrq := #v[1, 1, 1, 0, 0, 0, 0, 0] },
    serialises_of_check (by decide +kernel), by decide +kernel, by decide +kernel⟩

namespace Nodes

/-- Names and properties of the nodes side by side. -/
def heads : Nodes → List (Text × Props)
  | .none => []
  | .node name props _ rest => (name, props) :: rest.heads

end Nodes

/-- `memory`, or `memory@` and a unit. -/
def isMemoryName (name : Text) : Bool := name = utf8 "memory" ∨ (utf8 "memory@").isPrefixOf name

/-- The first base and size of the last node below the root, less than 32 deep, whose name begins
with `memory` and whose `reg` has room for both. -/
def Tree.lastMemory (t : Tree) : Option (Nat × Nat) :=
  (t.children.memories t.addrCells t.sizeCells 2).getLast?

theorem isPrefixOf_of_isMemoryName {name : Text} (h : isMemoryName name = true) :
    (utf8 "memory").isPrefixOf name = true := by
  obtain rfl | hat := of_decide_eq_true h
  · decide
  · rw [List.isPrefixOf_iff_prefix] at hat ⊢
    exact List.IsPrefix.trans (by decide) hat

theorem Nodes.mem_memories {ns : Nodes} {ac sc : UInt32} {d : Nat} {c : Text × Props}
    {pair : Nat × Nat} (hc : c ∈ ns.heads) (hname : isMemoryName c.1 = true)
    (hpair : pairOf ac sc c.2 = some pair) (hd : d < 32) : pair ∈ ns.memories ac sc d := by
  induction ns with
  | none => cases hc
  | node name props children rest _ ih =>
    rw [Nodes.memories]
    obtain rfl | hc := List.mem_cons.mp hc
    · apply List.mem_append_left
      apply List.mem_append_left
      rw [if_pos ⟨hd, isPrefixOf_of_isMemoryName hname⟩, hpair]
      exact List.mem_singleton_self pair
    · exact List.mem_append_right _ (ih hc)

theorem State.ram_of_finish {s : State} {mi : MachineInfo} (h : s.finish = some mi) :
    s.ram = some (mi.ramBase, mi.ramSize) := by
  obtain ⟨u, -, h⟩ := Option.bind_eq_some_iff.mp h
  obtain ⟨ram, hram, h⟩ := Option.bind_eq_some_iff.mp h
  obtain ⟨hz, -, h⟩ := Option.bind_eq_some_iff.mp h
  obtain ⟨rtc, -, h⟩ := Option.bind_eq_some_iff.mp h
  cases h
  exact hram

/-- On every blob that is a tree flattened, with one child of the root named `memory` and a `reg`
in it, RAM is taken from that `reg` exactly if the last node named `memory*` says the same. -/
theorem ram_of_memory_iff {dtb : Blob} {t : Tree} {mi : MachineInfo} {name : Text} {props : Props}
    {reg : List UInt8} (h : Serialises dtb.bytes t) (hp : parse dtb = some (.some mi))
    (honly : t.children.heads.filter (fun c => isMemoryName c.1) = [(name, props)])
    (hreg : lastValue props (utf8 "reg") ((t.addrCells.toNat + t.sizeCells.toNat) * 4) = some reg) :
    (mi.ramBase, mi.ramSize) = firstPair t.addrCells t.sizeCells reg ↔
      t.lastMemory = some (firstPair t.addrCells t.sizeCells reg) := by
  have hram := State.ram_of_finish (h.finish_eq hp)
  obtain ⟨-, root, hwalk⟩ := t.walked
  obtain ⟨hchild, hname⟩ := List.mem_filter.mp (honly ▸ List.mem_singleton_self (name, props))
  have hpair : pairOf t.addrCells t.sizeCells props =
      some (firstPair t.addrCells t.sizeCells reg) := by rw [pairOf, hreg, Option.map_some]
  have hmem := Nodes.mem_memories hchild hname hpair (show 2 < 32 by decide)
  rw [hram] at hwalk
  cases hlast : (t.children.memories t.addrCells t.sizeCells 2).getLast? with
  | none =>
    rw [List.getLast?_eq_none_iff.mp hlast] at hmem
    cases hmem
  | some pair =>
    rw [hlast, Option.some_or] at hwalk
    rw [Tree.lastMemory, hlast, ← hwalk, Option.some_inj]

theorem ram_of_memory_clock : parse clockBlob = some (.some clockInfo) ∧
    (clockInfo.ramBase, clockInfo.ramSize) = (0x80000000, 0x8000000) := by
  have honly : (clockBoard.children.heads.filter fun c => isMemoryName c.1) =
      [(utf8 "memory@80000000", [(utf8 "reg", toBeBytes 0x80000000 ++ toBeBytes 0x8000000)])] := by
    decide +kernel
  have hpair : firstPair clockBoard.addrCells clockBoard.sizeCells
      (toBeBytes 0x80000000 ++ toBeBytes 0x8000000) = (0x80000000, 0x8000000) := by decide +kernel
  refine ⟨clock_parses, ?_⟩
  rw [← hpair]
  exact (ram_of_memory_iff clock_serialises clock_parses honly (by decide +kernel)).mpr
    (by decide +kernel)

/-- A memory controller, with its registers, behind the memory. -/
def controllerBoard : Tree :=
  board (device "memory-controller@20000000" "sifive,ccache0" 0x20000000 2 .none .none)

def controllerBlob : Blob := ⟨controllerBoard.flatten, by decide +kernel⟩

/-- The registers of the memory controller are taken for RAM. -/
theorem ram_of_controller : ∃ mi : MachineInfo, Serialises controllerBlob.bytes controllerBoard ∧
    parse controllerBlob = some (.some mi) ∧
    (controllerBoard.children.heads.filter fun c => isMemoryName c.1) =
      [(utf8 "memory@80000000", [(utf8 "reg", toBeBytes 0x80000000 ++ toBeBytes 0x8000000)])] ∧
    (mi.ramBase, mi.ramSize) = (0x20000000, 0x1000) :=
  ⟨{ clockInfo with
      ramBase := 0x20000000
      ramSize := 0x1000
      virtioMmio := .replicate 8 0
      virtioMmioCount := 0
      virtioMmioIrq := .replicate 8 0 },
    serialises_of_check (by decide +kernel), by decide +kernel, by decide +kernel, rfl⟩

end Dt

end Perenne

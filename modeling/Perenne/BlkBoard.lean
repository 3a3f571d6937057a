import Perenne.Rings
import Perenne.Blk
import Perenne.Lib.Virtqueue

namespace Perenne

/-- The registers that were written, whether VERSION_1 was accepted, the number of requests
taken, the interrupt, and the sectors. -/
structure BlkDevice where
  regs : Nat → Nat
  accepted : Bool
  seen : Nat
  raised : Bool
  disk : Nat → Block

namespace BlkDevice

def reset (disk : Nat → Block) : BlkDevice := ⟨fun _ => 0, false, 0, false, disk⟩

/-- The registers of the selected queue; there is only number 0. -/
def queueRegs : List Nat := [0x038, 0x044, 0x080, 0x084, 0x090, 0x094, 0x0a0, 0x0a4]

/-- A register is written: the status, where 0 is a reset, the interrupt acknowledgement, the
features that the driver takes, or another one. -/
def write (d : BlkDevice) (reg value : Nat) : BlkDevice :=
  if reg = 0x070 ∧ value = 0 then reset d.disk
  else if reg ∈ queueRegs ∧ d.regs 0x030 ≠ 0 then d
  else if reg = 0x064 then { d with raised := d.raised && !value.testBit 0 }
  else if reg = 0x020 ∧ d.regs 0x024 = 1 then { d with accepted := value.testBit 0 }
  else { d with regs := Function.update d.regs reg value }

/-- What a register may read as: the interrupt status, and features with VERSION_1 in the high
word. -/
def Reads (d : BlkDevice) (reg value : Nat) : Prop :=
  (reg = 0x060 → value = if d.raised then 1 else 0) ∧
    (reg = 0x010 → d.regs 0x014 = 1 → value.testBit 0 = true)

/-- The driver is done with the handshake, and the queue is in use. -/
def live (d : BlkDevice) : Bool :=
  d.accepted && (d.regs 0x070).testBit 2 && (d.regs 0x070).testBit 3 && d.regs 0x044 == 1

def rings (d : BlkDevice) : Virtqueue.Rings where
  num := d.regs 0x038
  desc := d.regs 0x080 + 2 ^ 32 * d.regs 0x084
  avail := d.regs 0x090 + 2 ^ 32 * d.regs 0x094
  used := d.regs 0x0a0 + 2 ^ 32 * d.regs 0x0a4

end BlkDevice

/-- The memory and the device, with what was asked of the driver so far (the data page and the
badge), how the device met each request, and what was replied. -/
structure BlkBoard where
  ram : Ram
  dev : BlkDevice
  asked : List (Block × Nat)
  fates : List Fate
  replies : List Nat

namespace BlkBoard

/-- One sector between the disk and the memory at `addr`: what becomes of both, and the status
byte. -/
def perform (fate : Fate) (write : Bool) (addr sector : Nat) (ram : Ram) (disk : Nat → Block) :
    Option (Ram × (Nat → Block) × Nat) :=
  let stored := Function.update disk sector (.pad blockSize (ram.bytes addr blockSize))
  match fate with
  | .done => some (if write then (ram, stored, 0) else (ram.put addr (disk sector).list, disk, 0))
  | .failed status kept page =>
    if status = 0 ∨ 256 ≤ status then none
    else some (if write then (ram, if kept then stored else disk, status)
      else (ram.put addr page.list, disk, status))

/-- The device carries out the request in a chain; a chain that is none makes it stop. -/
def carryOut (fate : Fate) (b : BlkBoard) : Option (Ram × (Nat → Block)) :=
  match Virtqueue.chainFrom b.ram b.dev.rings b.dev.rings.num
      (Virtqueue.headOf b.ram b.dev.rings b.dev.seen) with
  | some [hdr, data, status] =>
    let type := b.ram.load hdr.addr 4
    if hdr.len = 16 ∧ hdr.writable = false ∧ data.len = blockSize ∧ status.len = 1 ∧
        status.writable = true ∧
        (type = 1 ∧ data.writable = false ∨ type = 0 ∧ data.writable = true) then
      (perform fate (type == 1) data.addr (b.ram.load (hdr.addr + 8) 8) b.ram b.dev.disk).map
        fun r => (r.1.store status.addr 1 r.2.2, r.2.1)
    else none
  | _ => none

/-- The device takes the next published request, hands it back and raises its interrupt. -/
def work (fate : Fate) (b : BlkBoard) : Option BlkBoard :=
  if b.dev.live ∧ Virtqueue.availIndex b.ram b.dev.rings ≠ b.dev.seen then
    (carryOut fate b).map fun r =>
      { b with
        ram := Virtqueue.handBack r.1 b.dev.rings b.dev.seen (blockSize + 1)
        dev := { b.dev with seen := (b.dev.seen + 1) % 2 ^ 16, raised := true, disk := r.2 }
        fates := b.fates ++ [fate] }
  else none

def Moves (b b' : BlkBoard) : Prop := ∃ fate, work fate b = some b'

/-- How an access of the driver is answered. The accesses take effect in the order of the program,
a caller fills the data page before it calls, and the driver sleeps until the interrupt. -/
def Answers (m : Mapped) (b : BlkBoard) : Access → Nat → BlkBoard → Prop
  | .write bits off value, _, b' =>
    b' = { b with ram := b.ram.store (m.dma + off) (bits / 8) value }
  | .read bits off, o, b' => o = b.ram.load (m.dma + off) (bits / 8) ∧ b' = b
  | .fence, _, b' => b' = b
  | .mmioWrite reg value, _, b' => b' = { b with dev := b.dev.write reg value }
  | .mmioRead reg, o, b' => b.dev.Reads reg o ∧ b' = b
  | .recv _ _, o, b' => o < 2 ^ 64 ∧ ∃ page : Block,
    b' = { b with ram := b.ram.put (m.dma + 512) page.list, asked := b.asked ++ [(page, o)] }
  | .reply _ status, _, b' => b' = { b with replies := b.replies ++ [status] }
  | .waitIrq _, _, b' => b.dev.raised = true ∧ b' = b
  | .exit _, _, _ => False

/-- The program returns with `Q` in every order of its accesses and the device's moves. -/
abbrev Surely {α : Type} (m : Mapped) (Q : α → BlkBoard → Prop) (p : Driver α) (b : BlkBoard) :
    Prop :=
  Prog.Surely (Answers m) Moves Q p b

def Quiet (b : BlkBoard) : Prop :=
  b.dev.live = false ∨ Virtqueue.availIndex b.ram b.dev.rings = b.dev.seen

theorem Quiet.still {b b' : BlkBoard} (h : b.Quiet) : ¬ Moves b b' := by
  rintro ⟨fate, hwork⟩
  unfold work at hwork
  rw [if_neg] at hwork
  · cases hwork
  · rintro ⟨hlive, hne⟩
    rcases h with h | h
    · rw [h] at hlive
      cases hlive
    · exact hne h

theorem Quiet.call {m : Mapped} {α : Type} {Q : α → BlkBoard → Prop} {b : BlkBoard} {i : Access}
    {p : Nat → Driver α} (h : b.Quiet) (hgo : ∃ o b', Answers m b i o b')
    (hcall : ∀ o b', Answers m b i o b' → Surely m Q (p o) b') : Surely m Q (.call i p) b := by
  apply Prog.Surely.still
  · intro b'
    exact h.still
  · exact hgo
  · exact hcall

/-- Each request as the block server meets it. -/
inductive Served (w₀ : World) : List (Block × Nat) → List Fate → List Nat → World → Prop where
  | start : Served w₀ [] [] [] w₀
  | request {asked : List (Block × Nat)} {fates : List Fate} {replies : List Nat} {w w' : World}
    {page : Block} {badge status : Nat} {fate : Fate} (h : Served w₀ asked fates replies w)
    (hserve : World.serve fate { w with page } badge = some (status, w')) :
    Served w₀ (asked ++ [(page, badge)]) (fates ++ [fate]) (replies ++ [status]) w'

/-- The board before the driver starts: the device after power-on. -/
def start (disk : Nat → Block) (ram : Ram) : BlkBoard := ⟨ram, .reset disk, [], [], []⟩

/-- Nothing but the DMA frame has changed. -/
def Outside (m : Mapped) (ram₀ ram : Ram) : Prop :=
  ∀ x, x < m.dma ∨ m.dma + 4096 ≤ x → ram x = ram₀ x

/-- Where the block driver puts its rings. -/
def ringsOf (m : Mapped) : Virtqueue.Rings := ⟨8, m.dma, m.dma + 128, m.dma + 160⟩

/-- The device is up: the requests it has taken, the index in the ring, and the interrupt. -/
structure Up (m : Mapped) (seen index : Nat) (raised : Bool) (b : BlkBoard) : Prop where
  live : b.dev.live = true
  rings : b.dev.rings = ringsOf m
  seen : b.dev.seen = seen
  index : b.ram.load (m.dma + 130) 2 = index
  raised : b.dev.raised = raised

section Up

variable {m : Mapped} {b : BlkBoard} {seen index k off n v : Nat} {raised : Bool}

theorem Up.quiet (h : Up m k k raised b) : b.Quiet := by
  right
  rw [Virtqueue.availIndex, h.rings, h.seen]
  exact h.index

theorem Up.store (h : Up m seen index raised b) (hoff : off + n ≤ 130 ∨ 132 ≤ off) :
    Up m seen index raised { b with ram := b.ram.store (m.dma + off) n v } :=
  ⟨h.live, h.rings, h.seen, (Ram.load_store_apart (by omega)).trans h.index, h.raised⟩

theorem Up.notify (h : Up m seen index raised b) :
    Up m seen index raised { b with dev := b.dev.write 0x050 0 } :=
  ⟨h.live, h.rings, h.seen, h.index, h.raised⟩

/-- Writes to the DMA frame, each with its width, its offset and its value, before `p`. -/
def puts {α : Type} (ws : List (Nat × Nat × Nat)) (p : Driver α) : Driver α :=
  ws.foldr (fun w p => .call (.write w.1 w.2.1 w.2.2) fun _ => p) p

def putAll (m : Mapped) (ram : Ram) (ws : List (Nat × Nat × Nat)) : Ram :=
  ws.foldl (fun ram w => ram.store (m.dma + w.2.1) (w.1 / 8) w.2.2) ram

theorem outside_putAll {ram₀ ram : Ram} {ws : List (Nat × Nat × Nat)} (h : Outside m ram₀ ram)
    (hws : ∀ w ∈ ws, w.2.1 + w.1 / 8 ≤ 4096) : Outside m ram₀ (putAll m ram ws) := by
  induction ws generalizing ram with
  | nil => exact h
  | cons w ws ih =>
    apply ih
    · intro x hx
      have hw := hws w (.head _)
      exact (Ram.store_apart (by omega)).trans (h x hx)
    · intro w' hw'
      exact hws w' (.tail _ hw')

theorem Up.putAll {ws : List (Nat × Nat × Nat)} (h : Up m seen index raised b)
    (hws : ∀ w ∈ ws, w.2.1 + w.1 / 8 ≤ 130 ∨ 132 ≤ w.2.1) :
    Up m seen index raised { b with ram := putAll m b.ram ws } := by
  induction ws generalizing b with
  | nil => exact h
  | cons w ws ih => exact ih (h.store (hws w (.head _))) fun w' hw' => hws w' (.tail _ hw')

theorem surely_puts {α : Type} {Q : α → BlkBoard → Prop} {ws : List (Nat × Nat × Nat)}
    {p : Driver α} (h : Up m k k raised b) (hws : ∀ w ∈ ws, w.2.1 + w.1 / 8 ≤ 130 ∨ 132 ≤ w.2.1)
    (hp : Surely m Q p { b with ram := putAll m b.ram ws }) : Surely m Q (puts ws p) b := by
  induction ws generalizing b with
  | nil => exact hp
  | cons w ws ih =>
    apply h.quiet.call
    · exact ⟨0, _, rfl⟩
    · rintro o b' rfl
      exact ih (h.store (hws w (.head _))) (fun w' hw' => hws w' (.tail _ hw')) hp

end Up

/-- What `blk_req` writes before it publishes. -/
def blkWrites (m : Mapped) (write : Bool) (k sector : Nat) : List (Nat × Nat × Nat) :=
  [(32, 256, if write then 1 else 0), (32, 260, 0), (64, 264, sector), (8, 1024, 0xff),
    (64, 0, m.dma + 256), (32, 8, 16), (16, 12, 1), (16, 14, 1),
    (64, 16, m.dma + 512), (32, 24, 512), (16, 28, 1 ||| if write then 0 else 2), (16, 30, 2),
    (64, 32, m.dma + 1024), (32, 40, 1), (16, 44, 2), (16, 46, 0),
    (16, 128 + 4 + k % 8 * 2, 0)]

/-- The request as the device finds it in the memory. -/
structure Posted (m : Mapped) (write : Bool) (k sector : Nat) (page : Block) (ram : Ram) :
    Prop where
  chain : Virtqueue.chainFrom ram (ringsOf m) 8 0 = some [⟨m.dma + 256, 16, false⟩,
    ⟨m.dma + 512, blockSize, !write⟩, ⟨m.dma + 1024, 1, true⟩]
  head : Virtqueue.headOf ram (ringsOf m) k = 0
  type : ram.load (m.dma + 256) 4 = if write then 1 else 0
  sector : ram.load (m.dma + 264) 8 = sector
  page : ram.bytes (m.dma + 512) blockSize = page.list

theorem chain_of_loads {m : Mapped} {ram : Ram} {write : Bool}
    (h₀ : ram.load (m.dma + 0) 8 = m.dma + 256 ∧ ram.load (m.dma + 8) 4 = 16 ∧
      ram.load (m.dma + 12) 2 = 1 ∧ ram.load (m.dma + 14) 2 = 1)
    (h₁ : ram.load (m.dma + 16) 8 = m.dma + 512 ∧ ram.load (m.dma + 24) 4 = 512 ∧
      ram.load (m.dma + 28) 2 = (1 ||| if write then 0 else 2) ∧ ram.load (m.dma + 30) 2 = 2)
    (h₂ : ram.load (m.dma + 32) 8 = m.dma + 1024 ∧ ram.load (m.dma + 40) 4 = 1 ∧
      ram.load (m.dma + 44) 2 = 2) :
    Virtqueue.chainFrom ram (ringsOf m) 8 0 = some [⟨m.dma + 256, 16, false⟩,
      ⟨m.dma + 512, blockSize, !write⟩, ⟨m.dma + 1024, 1, true⟩] := by
  obtain ⟨addr₀, len₀, flags₀, next₀⟩ := h₀
  obtain ⟨addr₁, len₁, flags₁, next₁⟩ := h₁
  obtain ⟨addr₂, len₂, flags₂⟩ := h₂
  have hlast : Virtqueue.chainFrom ram (ringsOf m) 6 2 = some [⟨m.dma + 1024, 1, true⟩] := by
    apply (Virtqueue.chainFrom_last (show 2 < 8 by decide) _).trans
    · change some [(⟨ram.load (m.dma + 32) 8, ram.load (m.dma + 40) 4,
        (ram.load (m.dma + 44) 2).testBit 1⟩ : Virtqueue.Segment)] = _
      rw [addr₂, len₂, flags₂]
      rfl
    · exact congrArg (Nat.testBit · 0) flags₂
  have hdata : Virtqueue.chainFrom ram (ringsOf m) 7 1 =
      some [⟨m.dma + 512, blockSize, !write⟩, ⟨m.dma + 1024, 1, true⟩] := by
    apply (Virtqueue.chainFrom_next (show 1 < 8 by decide) _
      ((congrArg (Virtqueue.chainFrom ram (ringsOf m) 6) next₁).trans hlast)).trans
    · change some [(⟨ram.load (m.dma + 16) 8, ram.load (m.dma + 24) 4,
        (ram.load (m.dma + 28) 2).testBit 1⟩ : Virtqueue.Segment), _] = _
      rw [addr₁, len₁, flags₁]
      cases write with
      | true => rfl
      | false => rfl
    · refine (congrArg (Nat.testBit · 0) flags₁).trans ?_
      cases write with
      | true => rfl
      | false => rfl
  apply (Virtqueue.chainFrom_next (show 0 < 8 by decide) _
    ((congrArg (Virtqueue.chainFrom ram (ringsOf m) 7) next₀).trans hdata)).trans
  · change some [(⟨ram.load (m.dma + 0) 8, ram.load (m.dma + 8) 4,
      (ram.load (m.dma + 12) 2).testBit 1⟩ : Virtqueue.Segment), _, _] = _
    rw [addr₀, len₀, flags₀]
    rfl
  · exact congrArg (Nat.testBit · 0) flags₀

theorem posted_blkWrites (m : Mapped) (write : Bool) (k : Nat) {sector : Nat} {page : Block}
    {ram : Ram} (hsector : sector < 2 ^ 64) (hpage : ram.bytes (m.dma + 512) 512 = page.list)
    (index : Nat) : Posted m write k sector page
      ((putAll m ram (blkWrites m write k sector)).store (m.dma + 130) 2 index) := by
  have hfits := m.dma_fits
  have hslot : k % 8 < 8 := Nat.mod_lt k (by decide)
  simp only [putAll, blkWrites, List.foldl_cons, List.foldl_nil, Nat.reduceDiv]
  have hword {n v : Nat} (h : v < 256 ^ n) : v % 256 ^ n = v := Nat.mod_eq_of_lt h
  refine ⟨chain_of_loads ⟨?_, ?_, ?_, ?_⟩ ⟨?_, ?_, ?_, ?_⟩ ⟨?_, ?_, ?_⟩, ?_, ?_, ?_, ?_⟩
  · simp (disch := omega) only [Ram.load_store_apart, Ram.load_store_self]
    exact hword (by omega)
  · simp (disch := omega) only [Ram.load_store_apart, Ram.load_store_self]
    rfl
  · simp (disch := omega) only [Ram.load_store_apart, Ram.load_store_self]
    rfl
  · simp (disch := omega) only [Ram.load_store_apart, Ram.load_store_self]
    rfl
  · simp (disch := omega) only [Ram.load_store_apart, Ram.load_store_self]
    exact hword (by omega)
  · simp (disch := omega) only [Ram.load_store_apart, Ram.load_store_self]
    rfl
  · simp (disch := omega) only [Ram.load_store_apart, Ram.load_store_self]
    cases write with
    | true => rfl
    | false => rfl
  · simp (disch := omega) only [Ram.load_store_apart, Ram.load_store_self]
    rfl
  · simp (disch := omega) only [Ram.load_store_apart, Ram.load_store_self]
    exact hword (by omega)
  · simp (disch := omega) only [Ram.load_store_apart, Ram.load_store_self]
    rfl
  · simp (disch := omega) only [Ram.load_store_apart, Ram.load_store_self]
    rfl
  · change Ram.load _ (m.dma + 128 + 4 + 2 * (k % 8)) 2 = 0
    have haddr : m.dma + 128 + 4 + 2 * (k % 8) = m.dma + (128 + 4 + k % 8 * 2) := by omega
    rw [haddr]
    simp (disch := omega) only [Ram.load_store_apart, Ram.load_store_self]
    rfl
  · simp (disch := omega) only [Ram.load_store_apart, Ram.load_store_self]
    cases write with
    | true => rfl
    | false => rfl
  · simp (disch := omega) only [Ram.load_store_apart, Ram.load_store_self]
    exact hword (by omega)
  · change Ram.bytes _ (m.dma + 512) 512 = _
    simp (disch := omega) only [Ram.bytes_store_apart]
    exact hpage

theorem blkWrites_apart (m : Mapped) (write : Bool) (k sector : Nat) :
    ∀ w ∈ blkWrites m write k sector,
      (w.2.1 + w.1 / 8 ≤ 130 ∨ 132 ≤ w.2.1) ∧ w.2.1 + w.1 / 8 ≤ 4096 := by
  have hslot : k % 8 < 8 := Nat.mod_lt k (by decide)
  simp only [blkWrites, List.forall_mem_cons, List.not_mem_nil, false_imp_iff, implies_true,
    and_true]
  omega

theorem carryOut_posted {m : Mapped} {b : BlkBoard} {write : Bool} {k sector : Nat} {page : Block}
    (h : Posted m write k sector page b.ram) (hrings : b.dev.rings = ringsOf m)
    (hseen : b.dev.seen = k) (fate : Fate) :
    carryOut fate b = (perform fate write (m.dma + 512) sector b.ram b.dev.disk).map
      fun r => (r.1.store (m.dma + 1024) 1 r.2.2, r.2.1) := by
  have htype : (b.ram.load (m.dma + 256) 4 == 1) = write := by
    rw [h.type]
    cases write with
    | true => rfl
    | false => rfl
  have hkind : b.ram.load (m.dma + 256) 4 = 1 ∧ (!write) = false ∨
      b.ram.load (m.dma + 256) 4 = 0 ∧ (!write) = true := by
    rw [h.type]
    cases write with
    | true => exact .inl ⟨rfl, rfl⟩
    | false => exact .inr ⟨rfl, rfl⟩
  have hnum : (ringsOf m).num = 8 := rfl
  unfold carryOut
  rw [hrings, hseen, h.head, hnum, h.chain]
  dsimp only
  rw [if_pos ⟨rfl, rfl, rfl, rfl, rfl, hkind⟩, htype]
  change (perform fate write (m.dma + 512) (b.ram.load (m.dma + 264) 8) b.ram b.dev.disk).map _ = _
  rw [h.sector]

theorem perform_serve {fate : Fate} {w : World} {page : Block} {badge addr : Nat} {ram ram' : Ram}
    {disk disk' : Nat → Block} {status : Nat} (hdisk : disk = w.disk)
    (hpage : ram.bytes addr blockSize = page.list)
    (h : perform fate (badge &&& blkWriteFlag != 0) addr (badge - (badge &&& blkWriteFlag)) ram
      disk = some (ram', disk', status)) :
    ∃ w', World.serve fate { w with page } badge = some (status, w') ∧ disk' = w'.disk ∧
      ram'.bytes addr blockSize = w'.page.list ∧ status < 256 ∧
      ∀ x, x < addr ∨ addr + blockSize ≤ x → ram' x = ram x := by
  have hput (p : Block) : (ram.put addr p.list).bytes addr blockSize = p.list := by
    have h := Ram.bytes_put_self ram addr p.list
    rwa [p.size] at h
  have hkept (p : Block) (x : Nat) (hx : x < addr ∨ addr + blockSize ≤ x) :
      ram.put addr p.list x = ram x := Ram.put_apart (by rwa [p.size])
  have hpad : Bytes.pad blockSize (ram.bytes addr blockSize) = page := by
    rw [hpage]
    exact Bytes.pad_self page
  subst hdisk
  unfold perform at h
  rw [hpad] at h
  unfold World.serve
  cases fate with
  | done =>
    obtain hw | hw := Bool.eq_false_or_eq_true (badge &&& blkWriteFlag != 0)
    · rw [hw] at h ⊢
      cases h
      exact ⟨_, rfl, rfl, hpage, by decide, fun x _ => rfl⟩
    · rw [hw] at h ⊢
      cases h
      exact ⟨_, rfl, rfl, hput _, by decide, hkept _⟩
  | failed code kept left =>
    dsimp only at h ⊢
    obtain ⟨hcode, h⟩ := Option.ite_none_left_eq_some.mp h
    rw [if_neg fun hzero => hcode (.inl hzero)]
    have hbyte : code < 256 := by omega
    obtain hw | hw := Bool.eq_false_or_eq_true (badge &&& blkWriteFlag != 0)
    · rw [hw] at h ⊢
      cases kept with
      | true =>
        cases h
        exact ⟨_, rfl, rfl, hpage, hbyte, fun x _ => rfl⟩
      | false =>
        cases h
        exact ⟨_, rfl, rfl, hpage, hbyte, fun x _ => rfl⟩
    · rw [hw] at h ⊢
      cases h
      exact ⟨_, rfl, rfl, hput _, hbyte, hkept _⟩

end BlkBoard

end Perenne

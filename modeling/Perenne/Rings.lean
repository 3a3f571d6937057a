import Perenne.TrapFrame
import Perenne.Lib.Play

/-!
# The virtio drivers and their rings

`blk_component` and `net_component`: user-space drivers that share a page of rings with
their device. Each access outside the driver's own registers and stack is a call; what the
device and the callers put there is up to them.
-/

namespace Perenne

/-- An access to the DMA frame or the registers of the device, by its offset, or a system
call. -/
inductive Access where
  | write (bits off value : Nat)
  | read (bits off : Nat)
  | fence
  | mmioWrite (reg value : Nat)
  | mmioRead (reg : Nat)
  | recv (cap slot : Nat)
  | reply (slot badge : Nat)
  | waitIrq (cap : Nat)
  | exit (code : Nat)

abbrev Driver := Prog Panic Access Nat Unit

/-- The launch arguments: one mapped page of registers and one DMA frame. -/
structure Mapped where
  mmio : Nat
  dma : Nat
  mmio_fits : mmio + 4096 ≤ 2 ^ 64
  dma_fits : dma + 4096 ≤ 2 ^ 64

namespace Driver

/-- `usize` addition. -/
def addUsize (x y : Nat) : Driver Nat := if x + y < 2 ^ 64 then .ret (x + y) else .stop .overflow

/-- `u16` addition. -/
def addU16 (x y : UInt16) : Driver UInt16 :=
  if x.toNat + y.toNat < 2 ^ 16 then .ret (x + y) else .stop .overflow

/-- `dma_w8` to `dma_w64`. -/
def dmaWrite (m : Mapped) (bits off value : Nat) : Driver Unit := do
  let _ ← addUsize m.dma off
  let _ ← Prog.request (.write bits off value)
  return ()

/-- `dma_r8` to `dma_r64`. -/
def dmaRead (m : Mapped) (bits off : Nat) : Driver Nat := do
  let _ ← addUsize m.dma off
  let value ← Prog.request (.read bits off)
  return value % 2 ^ bits

/-- `dma_fence`. -/
def dmaFence : Driver Unit := do
  let _ ← Prog.request .fence
  return ()

/-- `mmio_w`. -/
def mmioW (m : Mapped) (off value : Nat) : Driver Unit := do
  let _ ← addUsize m.mmio off
  let _ ← Prog.request (.mmioWrite off value)
  return ()

/-- `mmio_r`. -/
def mmioR (m : Mapped) (off : Nat) : Driver Nat := do
  let _ ← addUsize m.mmio off
  let value ← Prog.request (.mmioRead off)
  return value % 2 ^ 32

/-- `virtio_queue_setup`, and the same writes in `virtio_queue_init`. -/
def virtioQueueSetup (m : Mapped) (q desc avail used : Nat) : Driver Unit := do
  let desc ← addUsize m.dma desc
  let avail ← addUsize m.dma avail
  let used ← addUsize m.dma used
  mmioW m 0x030 q
  mmioW m 0x038 8
  mmioW m 0x080 (desc % 2 ^ 32)
  mmioW m 0x084 (desc / 2 ^ 32)
  mmioW m 0x090 (avail % 2 ^ 32)
  mmioW m 0x094 (avail / 2 ^ 32)
  mmioW m 0x0a0 (used % 2 ^ 32)
  mmioW m 0x0a4 (used / 2 ^ 32)
  mmioW m 0x044 1

/-- The status handshake around the setup of the queues. -/
def bringUp (m : Mapped) (queues : Driver Unit) : Driver UInt16 := do
  mmioW m 0x070 0
  mmioW m 0x070 1
  mmioW m 0x070 3
  mmioW m 0x014 1
  let fhi ← mmioR m 0x010
  mmioW m 0x024 1
  mmioW m 0x020 (fhi &&& 1)
  mmioW m 0x024 0
  mmioW m 0x020 0
  mmioW m 0x070 11
  queues
  mmioW m 0x070 15
  return 0

/-- `blk_req`. -/
def blkReq (m : Mapped) (write : Bool) (availIdx : UInt16) (sector : Nat) : Driver Nat := do
  let hdr ← addUsize m.dma 256
  let data ← addUsize m.dma 512
  let status ← addUsize m.dma 1024
  dmaWrite m 32 256 (if write then 1 else 0)
  dmaWrite m 32 260 0
  dmaWrite m 64 264 sector
  dmaWrite m 8 1024 0xff
  -- The chain: header, data, status.
  dmaWrite m 64 0 hdr
  dmaWrite m 32 8 16
  dmaWrite m 16 12 1
  dmaWrite m 16 14 1
  dmaWrite m 64 16 data
  dmaWrite m 32 24 512
  dmaWrite m 16 28 (1 ||| if write then 0 else 2)
  dmaWrite m 16 30 2
  dmaWrite m 64 32 status
  dmaWrite m 32 40 1
  dmaWrite m 16 44 2
  dmaWrite m 16 46 0
  dmaWrite m 16 (128 + 4 + availIdx.toNat % 8 * 2) 0
  dmaFence
  let next ← addU16 availIdx 1
  dmaWrite m 16 (128 + 2) next.toNat
  dmaFence
  mmioW m 0x050 0
  let _ ← Prog.request (.waitIrq 1)
  let is ← mmioR m 0x060
  mmioW m 0x064 is
  dmaRead m 8 1024

/-- The bring-up in `blk_component`. -/
def blkStart (m : Mapped) : Driver UInt16 := bringUp m (virtioQueueSetup m 0 0 128 160)

/-- The loop body of `blk_component`: the available index for the next round. -/
def blkRound (m : Mapped) (availIdx : UInt16) : Driver (Option UInt16) := do
  let badge ← Prog.request (.recv 0 2)
  let write := badge &&& 2 ^ 31 != 0
  let block := badge - (badge &&& 2 ^ 31)
  let status ← blkReq m write availIdx block
  let _ ← Prog.request (.reply 2 status)
  return some (availIdx + 1)

/-- The wait of `net_component` for the RX used ring, with so many attempts left. -/
def netWait (m : Mapped) (seq : UInt16) (slot : Nat) : Nat → Driver Nat
  | 0 => return 0
  | attempts + 1 => do
    let _ ← Prog.request (.waitIrq 1)
    let is ← mmioR m 0x060
    if is ≠ 0 then mmioW m 0x064 is
    let used ← dmaRead m 16 (0x100 + 2)
    let next ← addU16 seq 1
    if used = next.toNat then dmaRead m 32 (0x100 + 8 + slot * 8)
    else netWait m seq slot attempts

/-- The bring-up in `net_component`: RX is queue 0, TX is queue 1. -/
def netStart (m : Mapped) : Driver UInt16 := bringUp m do
  virtioQueueSetup m 0 0x000 0x080 0x100
  virtioQueueSetup m 1 0x200 0x280 0x300

/-- The loop body of `net_component`; after `NET_DONE` there is no next round. -/
def netRound (m : Mapped) (seq : UInt16) : Driver (Option UInt16) := do
  let badge ← Prog.request (.recv 0 2)
  if badge = 0 then
    let _ ← Prog.request (.reply 2 0)
    let _ ← Prog.request (.exit 0)
    return none
  else
    let slot := seq.toNat % 8
    let rxBuf ← addUsize m.dma 0x400
    let txBuf ← addUsize m.dma 0xC00
    dmaWrite m 64 0x000 rxBuf
    dmaWrite m 32 0x008 2048
    dmaWrite m 16 0x00c 2
    dmaWrite m 16 0x00e 0
    dmaWrite m 16 (0x080 + 4 + slot * 2) 0
    dmaFence
    let next ← addU16 seq 1
    dmaWrite m 16 (0x080 + 2) next.toNat
    dmaFence
    dmaWrite m 64 0x200 txBuf
    dmaWrite m 32 0x208 (badge % 2 ^ 32)
    dmaWrite m 16 0x20c 0
    dmaWrite m 16 0x20e 0
    dmaWrite m 16 (0x280 + 4 + slot * 2) 0
    dmaFence
    let next ← addU16 seq 1
    dmaWrite m 16 (0x280 + 2) next.toNat
    dmaFence
    mmioW m 0x050 1
    let rxLen ← netWait m seq slot 16
    let _ ← Prog.request (.reply 2 rxLen)
    return some (seq + 1)

/-- A write that touches the available ring at `avail`: flags, index and eight slots. -/
def ringWrite (avail : Nat) : Access × Nat → Option (Nat × Nat × Nat)
  | (.write bits off value, _) =>
    if off < avail + 20 ∧ avail < off + bits / 8 then some (bits, off, value) else none
  | _ => none

/-- A read of the DMA frame, with what it returned. -/
def frameRead : Access × Nat → Option (Nat × Nat × Nat)
  | (.read bits off, value) => some (bits, off, value % 2 ^ bits)
  | _ => none

def replied : Access × Nat → Option Nat
  | (.reply _ badge, _) => some badge
  | _ => none

/-- Request number `k` puts the head descriptor, 0, in its slot and then publishes the next
index; nothing else is written to the ring. -/
def Publishes (avail k : Nat) (events : List (Access × Nat)) : Prop :=
  events.filterMap (ringWrite avail) =
    [(16, avail + 4 + k % 8 * 2, 0), (16, avail + 2, (k + 1) % 2 ^ 16)]

/-- Exchange number `k` is complete when the RX used index reads `k + 1`: then the length is
read from its used element and replied. After sixteen other readings the reply is 0. -/
def Recognises (k : Nat) (events : List (Access × Nat)) : Prop :=
  ∃ others : List Nat, (∀ v ∈ others, v ≠ (k + 1) % 2 ^ 16) ∧
    (others.length < 16 ∧ (∃ len, events.filterMap replied = [len] ∧
        events.filterMap frameRead = others.map (fun v => (16, 0x100 + 2, v)) ++
          [(16, 0x100 + 2, (k + 1) % 2 ^ 16), (32, 0x100 + 8 + k % 8 * 8, len)]) ∨
      others.length = 16 ∧ events.filterMap replied = [0] ∧
        events.filterMap frameRead = others.map fun v => (16, 0x100 + 2, v))

/-- The block driver gets to request number `k`, serves it, and publishes it right. -/
def BlkServes (m : Mapped) (answers : Nat → Nat) (k : Nat) : Prop :=
  ∃ idx n, Prog.reach answers (blkStart m) (blkRound m) k = .ok (some (idx, n)) ∧
    (∃ idx', ((blkRound m idx).play answers n).1 = .ok (some idx')) ∧
    Publishes 128 k ((blkRound m idx).play answers n).2

/-- The network driver gets to exchange number `k`, unless it was told to exit, and serves it
with both rings published right and its completion recognised. -/
def NetServes (m : Mapped) (answers : Nat → Nat) (k : Nat) : Prop :=
  Prog.reach answers (netStart m) (netRound m) k = .ok none ∨
    ∃ seq n, Prog.reach answers (netStart m) (netRound m) k = .ok (some (seq, n)) ∧
      (answers n = 0 ∧ ((netRound m seq).play answers n).1 = .ok none ∨
        (∃ seq', ((netRound m seq).play answers n).1 = .ok (some seq')) ∧
          Publishes 0x080 k ((netRound m seq).play answers n).2 ∧
          Publishes 0x280 k ((netRound m seq).play answers n).2 ∧
          Recognises k ((netRound m seq).play answers n).2)

section Accesses

variable {m : Mapped} {bits off value : Nat}

theorem addUsize_dma (h : off < 4096) : addUsize m.dma off = .ret (m.dma + off) := by
  have := m.dma_fits
  exact if_pos (by omega)

theorem addUsize_mmio (h : off < 4096) : addUsize m.mmio off = .ret (m.mmio + off) := by
  have := m.mmio_fits
  exact if_pos (by omega)

theorem dmaWrite_eq (h : off < 4096) :
    dmaWrite m bits off value = .call (.write bits off value) fun _ => .ret () := by
  rw [dmaWrite, addUsize_dma h]
  rfl

theorem dmaRead_eq (h : off < 4096) :
    dmaRead m bits off = .call (.read bits off) fun v => .ret (v % 2 ^ bits) := by
  rw [dmaRead, addUsize_dma h]
  rfl

theorem mmioW_eq (h : off < 4096) :
    mmioW m off value = .call (.mmioWrite off value) fun _ => .ret () := by
  rw [mmioW, addUsize_mmio h]
  rfl

theorem mmioR_eq (h : off < 4096) :
    mmioR m off = .call (.mmioRead off) fun v => .ret (v % 2 ^ 32) := by
  rw [mmioR, addUsize_mmio h]
  rfl

theorem dmaFence_eq : dmaFence = .call .fence fun _ => .ret () := rfl

theorem addU16_one {x : UInt16} (h : x.toNat + 1 < 2 ^ 16) : addU16 x 1 = .ret (x + 1) := if_pos h

theorem addU16_overflow {x : UInt16} (h : ¬ x.toNat + 1 < 2 ^ 16) :
    addU16 x 1 = .stop .overflow := if_neg h

theorem ret_bind {α β : Type} (a : α) (f : α → Driver β) : ((Prog.ret a : Driver α) >>= f) = f a :=
  rfl

theorem pure_eq {α : Type} (a : α) : (pure a : Driver α) = .ret a := rfl

theorem stop_bind {α β : Type} (e : Panic) (f : α → Driver β) :
    ((Prog.stop e : Driver α) >>= f) = .stop e := rfl

theorem call_bind {α β : Type} (i : Access) (k : Nat → Driver α) (f : α → Driver β) :
    (Prog.call i k >>= f) = .call i fun o => k o >>= f := rfl

theorem request_bind {α : Type} (i : Access) (f : Nat → Driver α) :
    (Prog.request i >>= f) = .call i f := rfl

end Accesses

section Events

variable {avail bits off value o : Nat} {events : List (Access × Nat)}

theorem ringWrite_hit (h : off < avail + 20 ∧ avail < off + bits / 8) :
    ((Access.write bits off value, o) :: events).filterMap (ringWrite avail) =
      (bits, off, value) :: events.filterMap (ringWrite avail) :=
  List.filterMap_cons_some (if_pos h)

theorem ringWrite_miss (h : ¬ (off < avail + 20 ∧ avail < off + bits / 8)) :
    ((Access.write bits off value, o) :: events).filterMap (ringWrite avail) =
      events.filterMap (ringWrite avail) :=
  List.filterMap_cons_none (if_neg h)

theorem ringWrite_none {i : Access} (h : ∀ bits off value, i ≠ .write bits off value) :
    ((i, o) :: events).filterMap (ringWrite avail) = events.filterMap (ringWrite avail) := by
  refine List.filterMap_cons_none ?_
  cases i with
  | write bits off value => exact absurd rfl (h bits off value)
  | _ => rfl

end Events

theorem blkStart_ok (m : Mapped) (answers : Nat → Nat) :
    ((blkStart m).play answers 0).1 = .ok 0 := by
  simp (disch := omega) only [blkStart, bringUp, virtioQueueSetup, mmioW_eq, mmioR_eq,
    addUsize_dma, ret_bind, call_bind, pure_eq, Prog.play]

theorem blkRound_ok (m : Mapped) (idx : UInt16) (answers : Nat → Nat) (n : Nat)
    (h : idx.toNat + 1 < 2 ^ 16) :
    ((blkRound m idx).play answers n).1 = .ok (some (idx + 1)) ∧
      Publishes 128 idx.toNat ((blkRound m idx).play answers n).2 := by
  have hslot : idx.toNat % 8 < 8 := Nat.mod_lt _ (by decide)
  have hnext : (idx + 1).toNat = (idx.toNat + 1) % 2 ^ 16 := UInt16.toNat_add idx 1
  simp (disch := first | omega | simp) only [blkRound, blkReq, mmioW_eq, mmioR_eq, dmaWrite_eq,
    dmaRead_eq, dmaFence_eq, addUsize_dma, addU16_one h, request_bind, ret_bind, call_bind, pure_eq,
    Prog.play, true_and, Publishes, ringWrite_hit, ringWrite_miss, ringWrite_none,
    List.filterMap_nil, hnext]

theorem netStart_ok (m : Mapped) (answers : Nat → Nat) :
    ((netStart m).play answers 0).1 = .ok 0 := by
  simp (disch := omega) only [netStart, bringUp, virtioQueueSetup, mmioW_eq, mmioR_eq,
    addUsize_dma, ret_bind, call_bind, pure_eq, Prog.play]

/-- The readings of the used index up to the one that was waited for. -/
structure Waited (next elem attempts : Nat) (r : Except Panic Nat × List (Access × Nat)) (len : Nat) :
    Prop where
  ok : r.1 = .ok len
  ring (avail : Nat) : r.2.filterMap (ringWrite avail) = []
  silent : r.2.filterMap replied = []
  reads : ∃ others : List Nat, (∀ v ∈ others, v ≠ next) ∧
    (others.length < attempts ∧ r.2.filterMap frameRead =
        others.map (fun v => (16, 0x100 + 2, v)) ++ [(16, 0x100 + 2, next), (32, elem, len)] ∨
      others.length = attempts ∧ len = 0 ∧
        r.2.filterMap frameRead = others.map fun v => (16, 0x100 + 2, v))

/-- What neither writes a ring, reads the frame nor replies. -/
def Aside (i : Access) : Prop :=
  ∀ o, frameRead (i, o) = none ∧ replied (i, o) = none ∧ ∀ avail, ringWrite avail (i, o) = none

theorem Waited.aside {next elem attempts len o : Nat} {i : Access}
    {r : Except Panic Nat × List (Access × Nat)} (h : Waited next elem attempts r len)
    (hi : Aside i) : Waited next elem attempts (r.1, (i, o) :: r.2) len where
  ok := h.ok
  ring avail := by rw [List.filterMap_cons_none ((hi o).2.2 avail), h.ring avail]
  silent := by rw [List.filterMap_cons_none (hi o).2.1, h.silent]
  reads := by rw [List.filterMap_cons_none (hi o).1]; exact h.reads

theorem Waited.miss {next elem attempts len o : Nat} {r : Except Panic Nat × List (Access × Nat)}
    (h : Waited next elem attempts r len) (ho : o % 2 ^ 16 ≠ next) :
    Waited next elem (attempts + 1) (r.1, (.read 16 (0x100 + 2), o) :: r.2) len where
  ok := h.ok
  ring avail := h.ring avail
  silent := h.silent
  reads := by
    obtain ⟨others, hne, hreads⟩ := h.reads
    refine ⟨o % 2 ^ 16 :: others, List.forall_mem_cons.mpr ⟨ho, hne⟩, ?_⟩
    have hcons : ((Access.read 16 (0x100 + 2), o) :: r.2).filterMap frameRead =
        (16, 0x100 + 2, o % 2 ^ 16) :: r.2.filterMap frameRead := rfl
    rw [hcons]
    rcases hreads with ⟨hlt, hr⟩ | ⟨heq, hlen, hr⟩
    · exact .inl ⟨Nat.succ_lt_succ hlt, by rw [hr]; rfl⟩
    · exact .inr ⟨congrArg Nat.succ heq, hlen, by rw [hr]; rfl⟩

theorem netWait_ok {m : Mapped} {seq : UInt16} {slot : Nat} (answers : Nat → Nat)
    (h : seq.toNat + 1 < 2 ^ 16) (hslot : slot < 8) (attempts n : Nat) :
    ∃ len, Waited (seq.toNat + 1) (0x100 + 8 + slot * 8) attempts
      ((netWait m seq slot attempts).play answers n) len := by
  have hnext : (seq + 1).toNat = seq.toNat + 1 := by
    rw [UInt16.toNat_add]
    exact Nat.mod_eq_of_lt h
  induction attempts generalizing n with
  | zero => exact ⟨0, rfl, fun _ => rfl, rfl, [], fun v hv => (by cases hv), .inr ⟨rfl, rfl, rfl⟩⟩
  | succ attempts ih =>
    have hrest (n : Nat) : ∃ len, Waited (seq.toNat + 1) (0x100 + 8 + slot * 8) (attempts + 1)
        (Prog.play answers (dmaRead m 16 (0x100 + 2) >>= fun used => addU16 seq 1 >>= fun next =>
          if used = next.toNat then dmaRead m 32 (0x100 + 8 + slot * 8)
          else netWait m seq slot attempts) n) len := by
      simp (disch := omega) only [dmaRead_eq, call_bind, ret_bind, addU16_one h, Prog.play, hnext]
      by_cases hused : answers n % 2 ^ 16 = seq.toNat + 1
      · rw [if_pos hused]
        refine ⟨answers (n + 1) % 2 ^ 32, rfl, fun _ => rfl, rfl, [], fun v hv => (by cases hv),
          .inl ⟨Nat.succ_pos _, ?_⟩⟩
        rw [← hused]
        rfl
      · rw [if_neg hused]
        obtain ⟨len, hlen⟩ := ih (n + 1)
        exact ⟨len, hlen.miss hused⟩
    have haside (i : Access) (hi : Aside i) (f : Nat → Driver Nat) (n : Nat)
        (hf : ∀ o n, ∃ len, Waited (seq.toNat + 1) (0x100 + 8 + slot * 8) (attempts + 1)
          ((f o).play answers n) len) :
        ∃ len, Waited (seq.toNat + 1) (0x100 + 8 + slot * 8) (attempts + 1)
          ((Prog.call i f).play answers n) len := by
      obtain ⟨len, hlen⟩ := hf (answers n) (n + 1)
      exact ⟨len, hlen.aside hi⟩
    have hquiet : Aside (.waitIrq 1) ∧ Aside (.mmioRead 0x060) ∧
        ∀ is, Aside (.mmioWrite 0x064 is) := by
      refine ⟨?_, ?_, ?_⟩
      · exact fun o => ⟨rfl, rfl, fun _ => rfl⟩
      · exact fun o => ⟨rfl, rfl, fun _ => rfl⟩
      · exact fun is o => ⟨rfl, rfl, fun _ => rfl⟩
    rw [netWait, request_bind]
    refine haside _ hquiet.1 _ n fun _ n => ?_
    rw [mmioR_eq (by decide), call_bind]
    refine haside _ hquiet.2.1 _ n fun is n => ?_
    rw [ret_bind]
    by_cases his : is % 2 ^ 32 ≠ 0
    · rw [if_pos his, mmioW_eq (by decide), call_bind]
      exact haside _ (hquiet.2.2 _) _ n fun _ n => hrest n
    · rw [if_neg his]
      exact hrest n

theorem netRound_done {m : Mapped} {seq : UInt16} {answers : Nat → Nat} {n : Nat}
    (h : answers n = 0) : ((netRound m seq).play answers n).1 = .ok none := by
  simp only [netRound, request_bind, Prog.play, h, if_true, pure_eq]

theorem netRound_ok (m : Mapped) (seq : UInt16) {answers : Nat → Nat} {n : Nat}
    (h : seq.toNat + 1 < 2 ^ 16) (hbadge : answers n ≠ 0) :
    ((netRound m seq).play answers n).1 = .ok (some (seq + 1)) ∧
      Publishes 0x080 seq.toNat ((netRound m seq).play answers n).2 ∧
      Publishes 0x280 seq.toNat ((netRound m seq).play answers n).2 ∧
      Recognises seq.toNat ((netRound m seq).play answers n).2 := by
  have hslot : seq.toNat % 8 < 8 := Nat.mod_lt _ (by decide)
  have hnext : (seq + 1).toNat = (seq.toNat + 1) % 2 ^ 16 := UInt16.toNat_add seq 1
  -- The wait and the reply, from whichever access on.
  have hwait (n : Nat) : ∃ len events, Prog.play answers (netWait m seq (seq.toNat % 8) 16 >>=
      fun rxLen => Prog.call (.reply 2 rxLen) fun _ => .ret (some (seq + 1))) n =
        (.ok (some (seq + 1)), events ++ [(.reply 2 len, answers (n + events.length))]) ∧
      Waited (seq.toNat + 1) (0x100 + 8 + seq.toNat % 8 * 8) 16 (.ok len, events) len := by
    obtain ⟨len, hlen⟩ := netWait_ok (m := m) answers h hslot 16 n
    refine ⟨len, _, ?_, ⟨rfl, hlen.ring, hlen.silent, hlen.reads⟩⟩
    rw [Prog.play_bind_ok hlen.ok]
    rfl
  simp (disch := first | omega | simp) only [netRound, hbadge, if_false, mmioW_eq, dmaWrite_eq,
    dmaFence_eq, addUsize_dma, addU16_one h, request_bind, ret_bind, call_bind, pure_eq,
    Prog.play, Nat.add_assoc n, Nat.reduceAdd]
  obtain ⟨len, events, hplay, hlen⟩ := hwait (n + 18)
  rw [hplay]
  refine ⟨rfl, ?_, ?_, ?_⟩
  · simp (disch := first | omega | simp) only [Publishes, ringWrite_hit, ringWrite_miss,
      ringWrite_none, List.filterMap_append, hlen.ring, List.filterMap_nil, List.nil_append, hnext]
  · simp (disch := first | omega | simp) only [Publishes, ringWrite_hit, ringWrite_miss,
      ringWrite_none, List.filterMap_append, hlen.ring, List.filterMap_nil, List.nil_append, hnext]
  · obtain ⟨others, hne, hreads⟩ := hlen.reads
    simp only [Recognises, List.filterMap_cons, frameRead, replied, List.filterMap_append,
      hlen.silent, List.filterMap_nil, List.nil_append, List.append_nil, Nat.mod_eq_of_lt h]
    refine ⟨others, hne, ?_⟩
    rcases hreads with ⟨hlt, hr⟩ | ⟨heq, rfl, hr⟩
    · exact .inl ⟨hlt, len, rfl, hr⟩
    · exact .inr ⟨heq, rfl, hr⟩

theorem toNat_ofNat_lt {k : Nat} (h : k < 2 ^ 16) : (UInt16.ofNat k).toNat = k := by
  rw [UInt16.toNat_ofNat']
  exact Nat.mod_eq_of_lt h

theorem ofNat_add_one (k : Nat) : UInt16.ofNat k + 1 = .ofNat (k + 1) := by
  simp

theorem blk_reach (m : Mapped) (answers : Nat → Nat) {k : Nat} (h : k < 2 ^ 16) :
    ∃ n, Prog.reach answers (blkStart m) (blkRound m) k = .ok (some (.ofNat k, n)) := by
  have hround (k n : Nat) (hk : k < 2 ^ 16 - 1) :
      ((blkRound m (.ofNat k)).play answers n).1 = .ok (some (.ofNat (k + 1))) := by
    have hval := toNat_ofNat_lt (k := k) (by omega)
    rw [← ofNat_add_one]
    exact (blkRound_ok m (.ofNat k) answers n (by omega)).1
  have hreach := Prog.reach_val (blkRound m) UInt16.ofNat False (blkStart_ok m answers)
    (fun k n hk => .inl (hround k n hk)) (k := k) (by omega)
  exact hreach.elim id fun h => h.1.elim

theorem net_reach (m : Mapped) (answers : Nat → Nat) {k : Nat} (h : k < 2 ^ 16) :
    (∃ n, Prog.reach answers (netStart m) (netRound m) k = .ok (some (.ofNat k, n))) ∨
      (∃ n, answers n = 0) ∧ Prog.reach answers (netStart m) (netRound m) k = .ok none := by
  refine Prog.reach_val (netRound m) UInt16.ofNat _ (K := 2 ^ 16 - 1) (netStart_ok m answers)
    (fun k n hk => ?_) (by omega)
  by_cases hbadge : answers n = 0
  · exact .inr ⟨⟨n, hbadge⟩, netRound_done hbadge⟩
  · left
    have hval := toNat_ofNat_lt (k := k) (by omega)
    rw [← ofNat_add_one]
    exact (netRound_ok m (.ofNat k) (by omega) hbadge).1

theorem blkRound_overflow (m : Mapped) (idx : UInt16) (answers : Nat → Nat) (n : Nat)
    (h : ¬ idx.toNat + 1 < 2 ^ 16) : ((blkRound m idx).play answers n).1 = .error .overflow := by
  have hslot : idx.toNat % 8 < 8 := Nat.mod_lt _ (by decide)
  simp (disch := omega) only [blkRound, blkReq, mmioW_eq, mmioR_eq, dmaWrite_eq,
    dmaRead_eq, dmaFence_eq, addUsize_dma, addU16_overflow h, request_bind, ret_bind, call_bind,
    stop_bind, Prog.play]

theorem netRound_overflow (m : Mapped) (seq : UInt16) {answers : Nat → Nat} {n : Nat}
    (h : ¬ seq.toNat + 1 < 2 ^ 16) (hbadge : answers n ≠ 0) :
    ((netRound m seq).play answers n).1 = .error .overflow := by
  have hslot : seq.toNat % 8 < 8 := Nat.mod_lt _ (by decide)
  simp (disch := omega) only [netRound, hbadge, if_false, dmaWrite_eq, dmaFence_eq, addUsize_dma,
    addU16_overflow h, request_bind, ret_bind, call_bind, stop_bind, Prog.play]

theorem blkServes_iff (m : Mapped) (answers : Nat → Nat) (k : Nat) :
    BlkServes m answers k ↔ k < 65535 := by
  constructor
  · rintro ⟨idx, n, hreach, ⟨idx', hround⟩, -⟩
    by_contra hk
    obtain ⟨n', hlast⟩ := blk_reach m answers (k := 65535) (by decide)
    have hover := blkRound_overflow m (.ofNat 65535) answers n' (by decide)
    rcases Nat.lt_or_ge 65535 k with hlt | hge
    · rw [Prog.reach_fails hlast hover hlt] at hreach
      cases hreach
    · obtain rfl : k = 65535 := by omega
      rw [hlast] at hreach
      cases hreach
      rw [hover] at hround
      cases hround
  · intro hk
    obtain ⟨n, hn⟩ := blk_reach m answers (k := k) (by omega)
    have hval := toNat_ofNat_lt (k := k) (by omega)
    obtain ⟨hok, hpub⟩ := blkRound_ok m (.ofNat k) answers n (by omega)
    rw [hval] at hpub
    exact ⟨_, n, hn, ⟨_, hok⟩, hpub⟩

theorem netServes_of_lt (m : Mapped) (answers : Nat → Nat) {k : Nat} (hk : k < 65535) :
    NetServes m answers k := by
  rcases net_reach m answers (k := k) (by omega) with ⟨n, hn⟩ | ⟨-, hn⟩
  · refine .inr ⟨_, n, hn, ?_⟩
    by_cases hbadge : answers n = 0
    · exact .inl ⟨hbadge, netRound_done hbadge⟩
    · have hval := toNat_ofNat_lt (k := k) (by omega)
      obtain ⟨hok, hrx, htx, hrec⟩ := netRound_ok m (.ofNat k) (by omega) hbadge
      rw [hval] at hrx htx hrec
      exact .inr ⟨⟨_, hok⟩, hrx, htx, hrec⟩
  · exact .inl hn

theorem not_netServes (m : Mapped) {answers : Nat → Nat} (hbadge : ∀ n, answers n ≠ 0) {k : Nat}
    (hk : 65535 ≤ k) : ¬ NetServes m answers k := by
  have hlast : ∃ n, Prog.reach answers (netStart m) (netRound m) 65535 =
      .ok (some (.ofNat 65535, n)) :=
    (net_reach m answers (k := 65535) (by decide)).elim id fun h =>
      absurd h.1.choose_spec (hbadge _)
  obtain ⟨n', hlast⟩ := hlast
  have hover := netRound_overflow m (.ofNat 65535) (by decide) (hbadge n')
  rcases Nat.lt_or_ge 65535 k with hlt | hge
  · -- The driver is gone, in an error.
    have herror := Prog.reach_fails hlast hover hlt
    rintro (hreach | ⟨seq, n, hreach, -⟩)
    · rw [herror] at hreach
      cases hreach
    · rw [herror] at hreach
      cases hreach
  · obtain rfl : k = 65535 := by omega
    rintro (hreach | ⟨seq, n, hreach, hround⟩)
    · rw [hlast] at hreach
      cases hreach
    · rw [hlast] at hreach
      cases hreach
      rcases hround with ⟨-, hround⟩ | ⟨⟨seq', hround⟩, -⟩
      · rw [hover] at hround
        cases hround
      · rw [hover] at hround
        cases hround

/-- Both drivers handle request number `k`, whatever devices and callers do, for exactly the
first 65535 requests. -/
theorem ring_indices_iff (blk net : Mapped) (k : Nat) :
    ((∀ answers, BlkServes blk answers k) ↔ k < 65535) ∧
      ((∀ answers, NetServes net answers k) ↔ k < 65535) := by
  refine ⟨⟨fun h => ?_, fun hk answers => ?_⟩, ⟨fun h => ?_, fun hk answers => ?_⟩⟩
  · exact (blkServes_iff blk (fun _ => 0) k).mp (h _)
  · exact (blkServes_iff blk answers k).mpr hk
  · by_contra hk
    exact not_netServes net (fun _ => Nat.one_ne_zero) (by omega) (h fun _ => 1)
  · exact netServes_of_lt net answers hk

/-- The 65536th request of a driver whose device answers 0 to everything. -/
theorem ring_index_overflow : ∃ (m : Mapped) (answers : Nat → Nat) (k : Nat),
    ¬ BlkServes m answers k := by
  refine ⟨⟨0x10008000, 0x80600000, by decide, by decide⟩, fun _ => 0, 65535, ?_⟩
  rw [blkServes_iff]
  decide

end Driver

end Perenne

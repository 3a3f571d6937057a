import Perenne.BlkBoard

namespace Perenne

namespace BlkBoard

section Round

variable (m : Mapped) (w₀ : World) (ram₀ : Ram)

/-- Between two requests: the board agrees with the block server. -/
structure Ready (k : Nat) (w : World) (b : BlkBoard) : Prop where
  up : Up m k k false b
  disk : b.dev.disk = w.disk
  page : b.ram.bytes (m.dma + 512) blockSize = w.page.list
  served : Served w₀ b.asked b.fates b.replies w
  count : b.asked.length = k
  outside : Outside m ram₀ b.ram

/-- A request is in the ring, and the device has not looked yet. -/
structure Pending (k : Nat) (b : BlkBoard) : Prop where
  up : Up m k (k + 1) false b
  work : ∃ w page badge asked, b.asked = asked ++ [(page, badge)] ∧ asked.length = k ∧
    Served w₀ asked b.fates b.replies w ∧ b.dev.disk = w.disk ∧
    Posted m (badge &&& blkWriteFlag != 0) k (badge - (badge &&& blkWriteFlag)) page b.ram
  outside : Outside m ram₀ b.ram

/-- The device is done with it, and it is not replied yet. -/
structure Finished (k : Nat) (b : BlkBoard) : Prop where
  up : Up m (k + 1) (k + 1) true b
  work : ∃ w status, b.ram.load (m.dma + 1024) 1 = status ∧ status < 256 ∧
    Served w₀ b.asked b.fates (b.replies ++ [status]) w ∧ b.dev.disk = w.disk ∧
    b.ram.bytes (m.dma + 512) blockSize = w.page.list
  count : b.asked.length = k + 1
  outside : Outside m ram₀ b.ram

variable {m w₀ ram₀} {k : Nat} {b b' : BlkBoard}

theorem Pending.notify (h : Pending m w₀ ram₀ k b) :
    Pending m w₀ ram₀ k { b with dev := b.dev.write 0x050 0 } :=
  ⟨h.up.notify, h.work, h.outside⟩

theorem Finished.notify (h : Finished m w₀ ram₀ k b) :
    Finished m w₀ ram₀ k { b with dev := b.dev.write 0x050 0 } :=
  ⟨h.up.notify, h.work, h.count, h.outside⟩

theorem handBack_apart {m : Mapped} {ram : Ram} {seen written x : Nat}
    (h : x < m.dma + 160 ∨ m.dma + 256 ≤ x) :
    Virtqueue.handBack ram (ringsOf m) seen written x = ram x :=
  Virtqueue.handBack_apart (show 0 < 8 by decide) (show _ < m.dma + 160 + 2 ∨
    m.dma + 160 + 4 + 8 * 8 ≤ _ by omega)

theorem Pending.works (h : Pending m w₀ ram₀ k b) : ∃ b', Moves b b' := by
  obtain ⟨w, page, badge, asked, -, -, -, -, hposted⟩ := h.work
  have hne : Virtqueue.availIndex b.ram b.dev.rings ≠ b.dev.seen := by
    rw [h.up.rings, h.up.seen]
    have hindex : Virtqueue.availIndex b.ram (ringsOf m) = k + 1 := h.up.index
    omega
  have hcarry := carryOut_posted hposted h.up.rings h.up.seen .done
  have hsome : (BlkBoard.work .done b).isSome = true := by
    unfold BlkBoard.work
    rw [if_pos ⟨h.up.live, hne⟩, hcarry]
    rfl
  obtain ⟨b', hb'⟩ := Option.isSome_iff_exists.mp hsome
  exact ⟨b', .done, hb'⟩

theorem Pending.worked (hk : k + 1 < 2 ^ 16) (h : Pending m w₀ ram₀ k b) (hmove : Moves b b') :
    Finished m w₀ ram₀ k b' := by
  obtain ⟨w, page, badge, asked, hasked, hcount, hserved, hdisk, hposted⟩ := h.work
  obtain ⟨fate, hwork⟩ := hmove
  unfold BlkBoard.work at hwork
  obtain ⟨-, hwork⟩ := Option.ite_none_right_eq_some.mp hwork
  rw [carryOut_posted hposted h.up.rings h.up.seen fate, Option.map_map,
    Option.map_eq_some_iff] at hwork
  obtain ⟨⟨ram', disk', status⟩, hperform, rfl⟩ := hwork
  have hsize : blockSize = 512 := rfl
  obtain ⟨w', hserve, hdisk', hpage', hbyte, hkept⟩ :=
    perform_serve hdisk hposted.page hperform
  have hindex : b.ram.load (m.dma + 130) 2 = k + 1 := h.up.index
  dsimp only [Function.comp]
  rw [h.up.rings]
  refine ⟨⟨h.up.live, h.up.rings, ?_, ?_, rfl⟩, ⟨w', status, ?_, hbyte, ?_, hdisk', ?_⟩, ?_, ?_⟩
  · rw [h.up.seen]
    exact Nat.mod_eq_of_lt hk
  · -- Neither the data, the status byte nor the used ring is in the available ring.
    rw [← hindex]
    apply Ram.load_congr
    intro i hi
    dsimp only
    rw [handBack_apart (by omega), Ram.store_apart (by omega), hkept _ (by omega)]
  · have hload : (ram'.store (m.dma + 1024) 1 status).load (m.dma + 1024) 1 = status :=
      (Ram.load_store_self ..).trans (Nat.mod_eq_of_lt hbyte)
    refine Eq.trans ?_ hload
    apply Ram.load_congr
    intro i hi
    exact handBack_apart (by omega)
  · dsimp only
    rw [hasked]
    exact hserved.request hserve
  · rw [← hpage']
    apply Ram.bytes_congr
    intro i hi
    dsimp only
    rw [handBack_apart (by omega), Ram.store_apart (by omega)]
  · dsimp only
    rw [hasked, List.length_append, hcount]
    rfl
  · intro x hx
    rw [← h.outside x hx]
    dsimp only
    rw [handBack_apart (by omega), Ram.store_apart (by omega), hkept x (by omega)]

/-- A request is in the ring, and its reply is not sent. -/
def InFlight (m : Mapped) (w₀ : World) (ram₀ : Ram) (k : Nat) (b : BlkBoard) : Prop :=
  Pending m w₀ ram₀ k b ∨ Finished m w₀ ram₀ k b

theorem InFlight.notify (h : InFlight m w₀ ram₀ k b) :
    InFlight m w₀ ram₀ k { b with dev := b.dev.write 0x050 0 } :=
  h.imp Pending.notify Finished.notify

theorem surely_inFlight {α : Type} {Q : α → BlkBoard → Prop} {i : Access} {p : Nat → Driver α}
    (hk : k + 1 < 2 ^ 16) (h : InFlight m w₀ ram₀ k b)
    (hgo : ∀ b, Finished m w₀ ram₀ k b → ∃ o b', Answers m b i o b')
    (hcall : ∀ b, InFlight m w₀ ram₀ k b → ∀ o b', Answers m b i o b' → Surely m Q (p o) b') :
    Surely m Q (.call i p) b := by
  have hfinished (b : BlkBoard) (h : Finished m w₀ ram₀ k b) : Surely m Q (.call i p) b :=
    h.up.quiet.call (hgo b h) (hcall b (.inr h))
  rcases h with h | h
  · exact .call (.inr h.works) (hcall b (.inl h)) fun b' hmove => hfinished b' (h.worked hk hmove)
  · exact hfinished b h

theorem surely_finish {Q : Option UInt16 → BlkBoard → Prop} {idx : UInt16}
    (h : Finished m w₀ ram₀ k b)
    (hQ : ∀ b w, Ready m w₀ ram₀ (k + 1) w b → Q (some (idx + 1)) b) :
    Surely m Q (.call (.mmioRead 0x060) fun is => .call (.mmioWrite 0x064 (is % 2 ^ 32)) fun _ =>
      .call (.read 8 1024) fun status => .call (.reply 2 (status % 2 ^ 8)) fun _ =>
        .ret (some (idx + 1))) b := by
  obtain ⟨w, status, hstatus, hbyte, hserved, hdisk, hpage⟩ := h.work
  apply h.up.quiet.call
  · exact ⟨1, b, ⟨fun _ => by rw [h.up.raised]; rfl, fun hreg => (by cases hreg)⟩, rfl⟩
  rintro is b' ⟨⟨his, -⟩, hb'⟩
  rw [hb']
  obtain rfl : is = 1 := by rw [his rfl, h.up.raised]; rfl
  apply h.up.quiet.call
  · exact ⟨0, _, rfl⟩
  rintro _ b' rfl
  have hdev : b.dev.write 0x064 (1 % 2 ^ 32) = { b.dev with raised := false } := by
    have hraised : (b.dev.raised && !(1 % 2 ^ 32).testBit 0) = false := by
      rw [h.up.raised]
      rfl
    rw [← hraised]
    rfl
  have hup : Up m (k + 1) (k + 1) false { b with dev := b.dev.write 0x064 (1 % 2 ^ 32) } := by
    rw [hdev]
    exact ⟨h.up.live, h.up.rings, h.up.seen, h.up.index, rfl⟩
  apply hup.quiet.call
  · exact ⟨_, _, rfl, rfl⟩
  rintro o b' ⟨rfl, rfl⟩
  have hread : b.ram.load (m.dma + 1024) (8 / 8) % 2 ^ 8 = status := by
    change b.ram.load (m.dma + 1024) 1 % 2 ^ 8 = status
    rw [hstatus]
    exact Nat.mod_eq_of_lt hbyte
  dsimp only
  rw [hread]
  apply hup.quiet.call
  · exact ⟨0, _, rfl⟩
  rintro _ b' rfl
  refine .ret (hQ _ w ⟨⟨hup.live, hup.rings, hup.seen, hup.index, hup.raised⟩, ?_, hpage, hserved,
    h.count, h.outside⟩)
  rw [hdev]
  exact hdisk

open Driver in
theorem blkRound_eq (m : Mapped) {idx : UInt16} (hidx : idx.toNat = k) (hk : k + 1 < 2 ^ 16) :
    blkRound m idx = .call (.recv 0 2) fun badge =>
      puts (blkWrites m (badge &&& 2 ^ 31 != 0) k (badge - (badge &&& 2 ^ 31)))
        (.call .fence fun _ => .call (.write 16 130 (k + 1)) fun _ => .call .fence fun _ =>
          .call (.mmioWrite 0x050 0) fun _ => .call (.waitIrq 1) fun _ =>
          .call (.mmioRead 0x060) fun is => .call (.mmioWrite 0x064 (is % 2 ^ 32)) fun _ =>
          .call (.read 8 1024) fun status => .call (.reply 2 (status % 2 ^ 8)) fun _ =>
          .ret (some (idx + 1))) := by
  subst hidx
  have hslot : idx.toNat % 8 < 8 := Nat.mod_lt _ (by decide)
  have hnext : (idx + 1).toNat = idx.toNat + 1 := by
    rw [UInt16.toNat_add]
    exact Nat.mod_eq_of_lt hk
  simp (disch := omega) only [blkRound, blkReq, mmioW_eq, mmioR_eq, dmaWrite_eq, dmaRead_eq,
    dmaFence_eq, addUsize_dma, addU16_one hk, request_bind, ret_bind, call_bind, pure_eq, hnext,
    puts, blkWrites, List.foldr_cons, List.foldr_nil]

theorem surely_blkRound {idx : UInt16} {w : World} (hidx : idx.toNat = k) (hk : k + 1 < 2 ^ 16)
    (h : Ready m w₀ ram₀ k w b) :
    Surely m (fun next b' => next = some (idx + 1) ∧ ∃ w', Ready m w₀ ram₀ (k + 1) w' b')
      (Driver.blkRound m idx) b := by
  have hsize : blockSize = 512 := rfl
  rw [blkRound_eq m hidx hk]
  apply h.up.quiet.call
  · exact ⟨0, _, by decide, w.page, rfl⟩
  rintro badge b' ⟨hbadge, page, rfl⟩
  have hup : Up m k k false { b with
      ram := b.ram.put (m.dma + 512) page.list, asked := b.asked ++ [(page, badge)] } :=
    ⟨h.up.live, h.up.rings, h.up.seen,
      (Ram.load_put_apart (by rw [page.size]; omega)).trans h.up.index, h.up.raised⟩
  have hwrites := blkWrites_apart m (badge &&& 2 ^ 31 != 0) k (badge - (badge &&& 2 ^ 31))
  apply surely_puts hup fun w' hw' => (hwrites w' hw').1
  have hup := hup.putAll fun w' hw' => (hwrites w' hw').1
  apply hup.quiet.call
  · exact ⟨0, _, rfl⟩
  rintro _ _ rfl
  apply hup.quiet.call
  · exact ⟨0, _, rfl⟩
  rintro _ _ rfl
  have houtside : Outside m ram₀ (b.ram.put (m.dma + 512) page.list) := by
    intro x hx
    exact (Ram.put_apart (by rw [page.size]; omega)).trans (h.outside x hx)
  have hpage : (b.ram.put (m.dma + 512) page.list).bytes (m.dma + 512) 512 = page.list := by
    have hput := Ram.bytes_put_self b.ram (m.dma + 512) page.list
    rwa [page.size] at hput
  have hflight : InFlight m w₀ ram₀ k { b with
      ram := (putAll m (b.ram.put (m.dma + 512) page.list)
        (blkWrites m (badge &&& 2 ^ 31 != 0) k (badge - (badge &&& 2 ^ 31)))).store (m.dma + 130) 2
          (k + 1)
      asked := b.asked ++ [(page, badge)] } := by
    left
    refine ⟨⟨hup.live, hup.rings, hup.seen, ?_, hup.raised⟩, ⟨w, page, badge, b.asked, rfl, h.count,
      h.served, h.disk, posted_blkWrites m _ k (by omega) hpage _⟩, ?_⟩
    · exact (Ram.load_store_self ..).trans (Nat.mod_eq_of_lt hk)
    · intro x hx
      exact (Ram.store_apart (by omega)).trans
        (outside_putAll houtside (fun w' hw' => (hwrites w' hw').2) x hx)
  apply surely_inFlight hk hflight
  · exact fun b _ => ⟨0, b, rfl⟩
  rintro b hflight _ _ hb
  rw [hb]
  apply surely_inFlight hk hflight
  · exact fun b _ => ⟨0, _, rfl⟩
  rintro b hflight _ _ rfl
  apply surely_inFlight hk hflight.notify
  · exact fun b hfinished => ⟨0, b, hfinished.up.raised, rfl⟩
  rintro b hflight _ _ ⟨hraised, hb⟩
  rw [hb]
  -- The driver wakes up: the device is done.
  rcases hflight with hpending | hfinished
  · rw [hpending.up.raised] at hraised
    cases hraised
  · exact surely_finish hfinished fun b w hready => ⟨rfl, w, hready⟩

end Round

section BringUp

variable {m : Mapped} {b : BlkBoard}

/-- Writes to the device's registers before `p`. -/
def sets {α : Type} (ws : List (Nat × Nat)) (p : Driver α) : Driver α :=
  ws.foldr (fun w p => .call (.mmioWrite w.1 w.2) fun _ => p) p

def setAll (d : BlkDevice) (ws : List (Nat × Nat)) : BlkDevice :=
  ws.foldl (fun d w => d.write w.1 w.2) d

/-- The driver has not finished the handshake. -/
def Idle (d : BlkDevice) : Prop := (d.regs 0x070).testBit 2 = false

theorem Idle.quiet (h : Idle b.dev) : b.Quiet := by
  left
  rw [BlkDevice.live, h, Bool.and_false, Bool.false_and, Bool.false_and]

theorem Idle.write {d : BlkDevice} {reg value : Nat} (h : Idle d)
    (hvalue : reg = 0x070 → value.testBit 2 = false) : Idle (d.write reg value) := by
  unfold BlkDevice.write
  split_ifs with hreset
  · exact Nat.zero_testBit 2
  · exact h
  · exact h
  · exact h
  · by_cases hreg : reg = 0x070
    · subst hreg
      change (Function.update d.regs 0x070 value 0x070).testBit 2 = false
      rw [Function.update_self]
      exact hvalue rfl
    · change (Function.update d.regs reg value 0x070).testBit 2 = false
      rw [Function.update_of_ne (Ne.symm hreg)]
      exact h

theorem Idle.setAll {d : BlkDevice} {ws : List (Nat × Nat)} (h : Idle d)
    (hws : ∀ w ∈ ws, w.1 = 0x070 → w.2.testBit 2 = false) : Idle (setAll d ws) := by
  induction ws generalizing d with
  | nil => exact h
  | cons w ws ih => exact ih (h.write (hws w (.head _))) fun w' hw' => hws w' (.tail _ hw')

theorem surely_sets {α : Type} {Q : α → BlkBoard → Prop} {ws : List (Nat × Nat)} {p : Driver α}
    (h : Idle b.dev) (hws : ∀ w ∈ ws, w.1 = 0x070 → w.2.testBit 2 = false)
    (hp : Surely m Q p { b with dev := setAll b.dev ws }) : Surely m Q (sets ws p) b := by
  induction ws generalizing b with
  | nil => exact hp
  | cons w ws ih =>
    apply h.quiet.call
    · exact ⟨0, _, rfl⟩
    rintro o b' rfl
    exact ih (h.write (hws w (.head _))) (fun w' hw' => hws w' (.tail _ hw')) hp

/-- What is written up to the choice of features. -/
def resetWrites : List (Nat × Nat) := [(0x070, 0), (0x070, 1), (0x070, 3), (0x014, 1)]

/-- What is written then, but for DRIVER_OK. -/
def setupWrites (m : Mapped) (fhi : Nat) : List (Nat × Nat) :=
  [(0x024, 1), (0x020, fhi &&& 1), (0x024, 0), (0x020, 0), (0x070, 11), (0x030, 0), (0x038, 8),
    (0x080, (m.dma + 0) % 2 ^ 32), (0x084, (m.dma + 0) / 2 ^ 32),
    (0x090, (m.dma + 128) % 2 ^ 32), (0x094, (m.dma + 128) / 2 ^ 32),
    (0x0a0, (m.dma + 160) % 2 ^ 32), (0x0a4, (m.dma + 160) / 2 ^ 32), (0x044, 1)]

open Driver in
theorem blkStart_eq (m : Mapped) : blkStart m = sets resetWrites (.call (.mmioRead 0x010) fun fhi =>
    sets (setupWrites m (fhi % 2 ^ 32)) (.call (.mmioWrite 0x070 15) fun _ => .ret 0)) := by
  simp (disch := omega) only [blkStart, bringUp, virtioQueueSetup, mmioW_eq, mmioR_eq, addUsize_dma,
    ret_bind, call_bind, pure_eq, sets, resetWrites, setupWrites, List.foldr_cons, List.foldr_nil]

/-- Nothing was asked of the device yet. -/
structure Fresh (disk : Nat → Block) (d : BlkDevice) : Prop where
  seen : d.seen = 0
  raised : d.raised = false
  disk : d.disk = disk

theorem Fresh.write {disk : Nat → Block} {d : BlkDevice} (h : Fresh disk d) (reg value : Nat) :
    Fresh disk (d.write reg value) := by
  unfold BlkDevice.write
  split_ifs
  · exact ⟨rfl, rfl, h.disk⟩
  · exact h
  · refine ⟨h.seen, ?_, h.disk⟩
    change (d.raised && !value.testBit 0) = false
    rw [h.raised, Bool.false_and]
  · exact ⟨h.seen, h.raised, h.disk⟩
  · exact ⟨h.seen, h.raised, h.disk⟩

theorem Fresh.setAll {disk : Nat → Block} {d : BlkDevice} (h : Fresh disk d)
    (ws : List (Nat × Nat)) : Fresh disk (setAll d ws) := by
  induction ws generalizing d with
  | nil => exact h
  | cons w ws ih => exact ih (h.write w.1 w.2)

theorem live_setAll (m : Mapped) (disk : Nat → Block) {fhi : Nat}
    (hfhi : (fhi &&& 1).testBit 0 = true) :
    ((setAll (setAll (.reset disk) resetWrites) (setupWrites m fhi)).write 0x070 15).live = true ∧
      ((setAll (setAll (.reset disk) resetWrites) (setupWrites m fhi)).write 0x070 15).rings =
        ringsOf m := by
  have hodd : fhi % 2 = 1 := by simpa using hfhi
  have hreset : setAll (.reset disk) resetWrites =
      ⟨Function.update (Function.update (fun _ => 0) 0x070 3) 0x014 1, false, 0, false, disk⟩ := by
    simp [setAll, resetWrites, BlkDevice.write, BlkDevice.queueRegs, BlkDevice.reset]
  rw [hreset]
  constructor
  · simp [setAll, setupWrites, BlkDevice.write, BlkDevice.queueRegs, BlkDevice.live, hodd,
      Nat.testBit]
  · simp [setAll, setupWrites, BlkDevice.write, BlkDevice.queueRegs, BlkDevice.rings, ringsOf]
    omega

theorem surely_driverOk {w₀ : World} {ram : Ram} {d : BlkDevice} (hidle : Idle d)
    (hfresh : Fresh w₀.disk d) (hlive : (d.write 0x070 15).live = true)
    (hrings : (d.write 0x070 15).rings = ringsOf m) (hindex : ram.load (m.dma + 130) 2 = 0)
    (hpage : ram.bytes (m.dma + 512) blockSize = w₀.page.list) :
    Surely m (fun (idx : UInt16) b => idx = 0 ∧ Ready m w₀ ram 0 w₀ b)
      (.call (.mmioWrite 0x070 15) fun _ => .ret 0) ⟨ram, d, [], [], []⟩ := by
  have hquiet : Quiet ⟨ram, d, [], [], []⟩ := Idle.quiet hidle
  apply hquiet.call
  · exact ⟨0, _, rfl⟩
  rintro _ _ rfl
  have hfresh := hfresh.write 0x070 15
  exact .ret ⟨rfl, ⟨hlive, hrings, hfresh.seen, hindex, hfresh.raised⟩, hfresh.disk, hpage, .start,
    rfl, fun _ _ => rfl⟩

theorem surely_blkStart {w₀ : World} {ram : Ram} (hindex : ram.load (m.dma + 130) 2 = 0)
    (hpage : ram.bytes (m.dma + 512) blockSize = w₀.page.list) :
    Surely m (fun idx b => idx = 0 ∧ Ready m w₀ ram 0 w₀ b) (Driver.blkStart m)
      (start w₀.disk ram) := by
  have hfresh : Fresh w₀.disk (.reset w₀.disk) := ⟨rfl, rfl, rfl⟩
  have hidle : Idle (.reset w₀.disk) := Nat.zero_testBit 2
  have hreset : ∀ w ∈ resetWrites, w.1 = 0x070 → w.2.testBit 2 = false := by decide
  have hsel : (setAll (.reset w₀.disk) resetWrites).regs 0x014 = 1 := by
    simp [setAll, resetWrites, BlkDevice.write, BlkDevice.queueRegs, BlkDevice.reset]
  rw [blkStart_eq]
  refine surely_sets (b := start w₀.disk ram) hidle hreset ?_
  have hidle' := hidle.setAll hreset
  have hquiet : Quiet { start w₀.disk ram with dev := setAll (.reset w₀.disk) resetWrites } :=
    hidle'.quiet
  apply hquiet.call
  · exact ⟨1, _, ⟨fun hreg => (by cases hreg), fun _ _ => rfl⟩, rfl⟩
  rintro fhi b ⟨⟨-, hreads⟩, hb⟩
  rw [hb]
  have hbit : (fhi % 2 ^ 32 &&& 1).testBit 0 = true := by
    have hv := hreads rfl hsel
    rw [Nat.testBit_and, Nat.testBit_mod_two_pow, hv]
    rfl
  have hsetup : ∀ w ∈ setupWrites m (fhi % 2 ^ 32), w.1 = 0x070 → w.2.testBit 2 = false := by
    simp [setupWrites, Nat.testBit]
  obtain ⟨hlive, hrings⟩ := live_setAll m w₀.disk hbit
  refine surely_sets (b := { start w₀.disk ram with dev := setAll (.reset w₀.disk) resetWrites })
    hidle' hsetup ?_
  exact surely_driverOk (hidle'.setAll hsetup) ((hfresh.setAll _).setAll _) hlive hrings hindex
    hpage

end BringUp

end BlkBoard

/-- The block driver and its device serve requests as the block server does: in every order of
their steps, the driver gets through `n` requests without a panic and without waiting forever,
and then the board is as the block server leaves it. -/
theorem blk_driver_serves (m : Mapped) (w₀ : World) (ram : Ram) {n : Nat} (hn : n ≤ 65535)
    (hindex : ram.load (m.dma + 130) 2 = 0)
    (hpage : ram.bytes (m.dma + 512) blockSize = w₀.page.list) :
    BlkBoard.Surely m
      (fun idx b => idx = some (.ofNat n) ∧ ∃ w, BlkBoard.Ready m w₀ ram n w b)
      (Driver.blkStart m >>= Prog.rounds (Driver.blkRound m) n) (.start w₀.disk ram) := by
  have hround (k : Nat) (b : BlkBoard) (hk : k < 65535) (h : ∃ w, BlkBoard.Ready m w₀ ram k w b) :
      BlkBoard.Surely m
        (fun idx b' => idx = some (.ofNat (k + 1)) ∧ ∃ w, BlkBoard.Ready m w₀ ram (k + 1) w b')
        (Driver.blkRound m (.ofNat k)) b := by
    obtain ⟨w, h⟩ := h
    have hidx : (UInt16.ofNat k).toNat = k :=
      (UInt16.toNat_ofNat' ..).trans (Nat.mod_eq_of_lt (by omega))
    rw [UInt16.ofNat_add]
    exact BlkBoard.surely_blkRound hidx (by omega) h
  apply (BlkBoard.surely_blkStart hindex hpage).bind
  rintro _ b ⟨rfl, hready⟩
  have hrounds := Prog.Surely.rounds hround (show 0 + n ≤ 65535 by omega) ⟨w₀, hready⟩
  rwa [Nat.zero_add] at hrounds

/-- Two requests, with a frame and a disk of zeroes. -/
theorem blk_driver_serves_zeroed :
    BlkBoard.Surely ⟨0x10001000, 0x80200000, by decide, by decide⟩
      (fun idx b => idx = some 2 ∧ ∃ w, BlkBoard.Ready
        ⟨0x10001000, 0x80200000, by decide, by decide⟩
        ⟨fun _ => .pad blockSize [], .pad blockSize [], -1, .empty⟩ (fun _ => 0) 2 w b)
      (Driver.blkStart ⟨0x10001000, 0x80200000, by decide, by decide⟩ >>=
        Prog.rounds (Driver.blkRound ⟨0x10001000, 0x80200000, by decide, by decide⟩) 2)
      (.start (fun _ => .pad blockSize []) fun _ => 0) := by
  have hpage : Ram.bytes (fun _ => 0) (0x80200000 + 512) blockSize =
      (Bytes.pad blockSize []).list := by
    apply List.ext_getElem
    · rw [Ram.length_bytes, Bytes.size]
    · intro i hi hi'
      simp [Ram.bytes, Bytes.pad]
  exact blk_driver_serves ⟨0x10001000, 0x80200000, by decide, by decide⟩
    ⟨fun _ => .pad blockSize [], .pad blockSize [], -1, .empty⟩ (fun _ => 0) (by decide) rfl hpage

end Perenne

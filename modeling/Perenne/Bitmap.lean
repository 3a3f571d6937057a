import Perenne.Frame
import Mathlib.Data.Finset.Card

namespace Perenne

/-- `BitmapAllocator`, with its `bitmap: [u64; MAX_FRAMES / 64]`. -/
structure WordAllocator where
  bitmap : Nat → BitVec 64
  base : Nat
  count : Nat
  free : Nat

namespace WordAllocator

/-- The length of `bitmap`. -/
def words : Nat := maxFrames / 64

def new : WordAllocator := ⟨fun _ => 0, 0, 0, 0⟩

/-- `init`. -/
def init (a : WordAllocator) (startAddr endAddr : UInt64) : Except Panic WordAllocator :=
  let (startAddr, endAddr) := (startAddr.toNat, endAddr.toNat)
  if startAddr % frameSize ≠ 0 then .error (.assert "unaligned start")
  else if endAddr % frameSize ≠ 0 then .error (.assert "unaligned end")
  else if ¬ startAddr < endAddr then .error (.assert "empty range")
  else
    let count := (endAddr - startAddr) / frameSize
    if ¬ count ≤ maxFrames then .error (.assert "range exceeds bitmap capacity")
    else .ok { a with base := startAddr / frameSize, count, free := count }

/-- `self.bitmap[word] & (1 << bit) != 0`. -/
def test (a : WordAllocator) (word bit : Nat) : Bool := a.bitmap word &&& 1#64 <<< bit != 0

/-- `self.bitmap[word] = w`. -/
def setWord (a : WordAllocator) (word : Nat) (w : BitVec 64) : WordAllocator :=
  { a with bitmap := Function.update a.bitmap word w }

/-- The loop of `alloc`, from frame `i` on. -/
def allocFrom (a : WordAllocator) : (i n : Nat) → Except Panic (Option Nat) × WordAllocator
  | _, 0 => (.ok none, a)
  | i, n + 1 =>
    if words ≤ i / 64 then (.error .indexOutOfBounds, a)
    else if a.test (i / 64) (i % 64) then a.allocFrom (i + 1) n
    else
      let a := a.setWord (i / 64) (a.bitmap (i / 64) ||| 1#64 <<< (i % 64))
      if a.free = 0 then (.error .overflow, a)
      else
        let a := { a with free := a.free - 1 }
        if 2 ^ 64 ≤ (a.base + i) * frameSize then (.error .overflow, a)
        else (.ok (some ((a.base + i) * frameSize)), a)

/-- `alloc`. -/
def alloc (a : WordAllocator) : Except Panic (Option Nat) × WordAllocator := a.allocFrom 0 a.count

/-- `free`. -/
def release (a : WordAllocator) (frame : UInt64) : Except Panic Unit × WordAllocator :=
  let n := frame.toNat / frameSize
  if frame.toNat % frameSize ≠ 0 then (.error (.assert "free of unaligned address"), a)
  else if ¬ (n ≥ a.base ∧ n < a.base + a.count) then
    (.error (.assert "free of unmanaged frame"), a)
  else
    let i := n - a.base
    if words ≤ i / 64 then (.error .indexOutOfBounds, a)
    else if ¬ a.test (i / 64) (i % 64) then (.error (.assert "double free of frame"), a)
    else
      let a := a.setWord (i / 64) (a.bitmap (i / 64) &&& ~~~(1#64 <<< (i % 64)))
      if 2 ^ 64 ≤ a.free + 1 then (.error .overflow, a)
      else (.ok (), { a with free := a.free + 1 })

/-- `free_frames`. -/
def freeFrames (a : WordAllocator) : Nat := a.free

/-- `total_frames`. -/
def totalFrames (a : WordAllocator) : Nat := a.count

/-- Frame `base + i` is marked. -/
def bit (a : WordAllocator) (i : Nat) : Bool := (a.bitmap (i / 64)).getLsbD (i % 64)

theorem test_eq (a : WordAllocator) (i : Nat) : a.test (i / 64) (i % 64) = a.bit i := by
  have hlt : i % 64 < 64 := Nat.mod_lt _ (by decide)
  rw [test, bit, ← BitVec.twoPow_eq, BitVec.and_twoPow]
  split
  case isTrue hset =>
    rw [hset, bne_iff_ne]
    intro hzero
    have hbit := congrArg (BitVec.getLsbD · (i % 64)) hzero
    simp [hlt] at hbit
  case isFalse hclear => simpa using hclear

theorem bit_setWord (a : WordAllocator) (i j : Nat) (w : BitVec 64) :
    (a.setWord (i / 64) w).bit j = if j / 64 = i / 64 then w.getLsbD (j % 64) else a.bit j := by
  simp only [bit, setWord, Function.update_apply]
  split <;> rfl

theorem bit_mark (a : WordAllocator) (i j : Nat) :
    (a.setWord (i / 64) (a.bitmap (i / 64) ||| 1#64 <<< (i % 64))).bit j =
      (decide (j = i) || a.bit j) := by
  rw [bit_setWord, ← BitVec.twoPow_eq]
  have hi : i % 64 < 64 := Nat.mod_lt _ (by decide)
  split
  case isTrue hword =>
    have heq : (i % 64 = j % 64) ↔ j = i := by omega
    simp only [BitVec.getLsbD_or, BitVec.getLsbD_twoPow, hi, decide_true, Bool.true_and, heq, bit,
      hword]
    exact Bool.or_comm ..
  case isFalse hword =>
    have hne : j ≠ i := fun heq => hword (by rw [heq])
    simp [hne]

theorem bit_clear (a : WordAllocator) (i j : Nat) :
    (a.setWord (i / 64) (a.bitmap (i / 64) &&& ~~~(1#64 <<< (i % 64)))).bit j =
      (!decide (j = i) && a.bit j) := by
  rw [bit_setWord, ← BitVec.twoPow_eq]
  have hi : i % 64 < 64 := Nat.mod_lt _ (by decide)
  have hj : j % 64 < 64 := Nat.mod_lt _ (by decide)
  split
  case isTrue hword =>
    have heq : (i % 64 = j % 64) ↔ j = i := by omega
    simp only [BitVec.getLsbD_and, BitVec.getLsbD_not, BitVec.getLsbD_twoPow, hi, hj, decide_true,
      Bool.true_and, heq, bit, hword]
    exact Bool.and_comm ..
  case isFalse hword =>
    have hne : j ≠ i := fun heq => hword (by rw [heq])
    simp [hne]

/-- The address of frame `base + i`. -/
def addr (a : WordAllocator) (i : Nat) : Nat := (a.base + i) * frameSize

def marked (a : WordAllocator) : Finset Nat := (Finset.range a.count).filter fun i => a.bit i

def owned (a : WordAllocator) : Finset Nat := a.marked.image a.addr

def inRange (startAddr endAddr : UInt64) (f : Nat) : Prop :=
  f % frameSize = 0 ∧ startAddr.toNat ≤ f ∧ f < endAddr.toNat

/-- The allocator manages the range, and its counter agrees with the bitmap. -/
structure Manages (a : WordAllocator) (startAddr endAddr : UInt64) : Prop where
  low : a.addr 0 = startAddr.toNat
  high : a.addr a.count = endAddr.toNat
  fits : a.count ≤ maxFrames
  counted : a.free + a.marked.card = a.count

variable {a a' : WordAllocator} {startAddr endAddr : UInt64}

theorem addr_injective (a : WordAllocator) : Function.Injective a.addr := by
  intro i j h
  have := Nat.eq_of_mul_eq_mul_right (by decide) h
  omega

theorem addr_mem_owned {i : Nat} : a.addr i ∈ a.owned ↔ i < a.count ∧ a.bit i = true := by
  simp [owned, marked, (addr_injective a).eq_iff]

theorem Manages.word_lt (h : a.Manages startAddr endAddr) {i : Nat} (hi : i < a.count) :
    ¬ words ≤ i / 64 := by
  have hfits := h.fits
  simp only [words, maxFrames, frameSize] at hfits ⊢
  omega

theorem Manages.inRange_iff (h : a.Manages startAddr endAddr) {f : Nat} :
    inRange startAddr endAddr f ↔ ∃ i < a.count, f = a.addr i := by
  have hlow := h.low
  have hhigh := h.high
  simp only [addr, inRange, frameSize] at hlow hhigh ⊢
  constructor
  · rintro ⟨haligned, hge, hlt⟩
    exact ⟨f / 4096 - a.base, by omega, by omega⟩
  · rintro ⟨i, hi, rfl⟩
    omega

theorem Manages.addr_lt (h : a.Manages startAddr endAddr) {i : Nat} (hi : i < a.count) :
    a.addr i < 2 ^ 64 := by
  have hin := h.inRange_iff.mpr ⟨i, hi, rfl⟩
  exact hin.2.2.trans endAddr.toNat_lt

theorem init_manages (h : new.init startAddr endAddr = .ok a) :
    a.Manages startAddr endAddr ∧ a.owned = ∅ := by
  simp only [init, Except.ite_error_eq_ok_iff, not_not] at h
  obtain ⟨hstart, hend, hlt, hcount, h⟩ := h
  obtain rfl := Except.ok.inj h
  have hnone : marked { new with
      base := startAddr.toNat / frameSize
      count := (endAddr.toNat - startAddr.toNat) / frameSize
      free := (endAddr.toNat - startAddr.toNat) / frameSize } = ∅ := by
    simp [marked, bit, new]
  simp only [frameSize] at hstart hend
  refine ⟨⟨?_, ?_, hcount, ?_⟩, ?_⟩
  · simp only [addr, frameSize]
    omega
  · simp only [addr, frameSize]
    omega
  · rw [hnone]
    rfl
  · rw [owned, hnone]
    rfl

/-- Frame `base + i` marked, and one less free. -/
def mark (a : WordAllocator) (i : Nat) : WordAllocator :=
  { a.setWord (i / 64) (a.bitmap (i / 64) ||| 1#64 <<< (i % 64)) with free := a.free - 1 }

/-- Frame `base + i` cleared, and one more free. -/
def unmark (a : WordAllocator) (i : Nat) : WordAllocator :=
  { a.setWord (i / 64) (a.bitmap (i / 64) &&& ~~~(1#64 <<< (i % 64))) with free := a.free + 1 }

theorem marked_mark {i : Nat} (hi : i < a.count) : (a.mark i).marked = insert i a.marked := by
  have hbit (j : Nat) : (a.mark i).bit j = (decide (j = i) || a.bit j) := bit_mark a i j
  ext j
  rw [Finset.mem_insert, marked, marked, Finset.mem_filter, Finset.mem_filter, hbit,
    Finset.mem_range, Finset.mem_range, Bool.or_eq_true, decide_eq_true_eq]
  change j < a.count ∧ _ ↔ _
  constructor
  · rintro ⟨hj, rfl | hset⟩
    · exact .inl rfl
    · exact .inr ⟨hj, hset⟩
  · rintro (rfl | ⟨hj, hset⟩)
    · exact ⟨hi, .inl rfl⟩
    · exact ⟨hj, .inr hset⟩

theorem marked_unmark (i : Nat) : (a.unmark i).marked = a.marked.erase i := by
  have hbit (j : Nat) : (a.unmark i).bit j = (!decide (j = i) && a.bit j) := bit_clear a i j
  ext j
  rw [Finset.mem_erase, marked, marked, Finset.mem_filter, Finset.mem_filter, hbit,
    Finset.mem_range, Finset.mem_range, Bool.and_eq_true, Bool.not_eq_true', decide_eq_false_iff_not]
  change j < a.count ∧ _ ↔ _
  exact and_left_comm

theorem owned_mark {i : Nat} (hi : i < a.count) :
    (a.mark i).owned = insert (a.addr i) a.owned := by
  rw [owned, marked_mark hi, Finset.image_insert]
  rfl

theorem owned_unmark (i : Nat) : (a.unmark i).owned = a.owned.erase (a.addr i) := by
  rw [owned, marked_unmark, Finset.image_erase (addr_injective _)]
  rfl

section Manages

variable (h : a.Manages startAddr endAddr) {i : Nat} (hi : i < a.count)

include h hi

theorem Manages.free_pos (hclear : a.bit i = false) : 0 < a.free := by
  have hlt : a.marked.card < (Finset.range a.count).card := by
    apply Finset.card_lt_card
    refine ⟨Finset.filter_subset .., fun hsub => ?_⟩
    have hmem := hsub (Finset.mem_range.mpr hi)
    rw [marked, Finset.mem_filter, hclear] at hmem
    cases hmem.2
  rw [Finset.card_range] at hlt
  have := h.counted
  omega

theorem Manages.mark (hclear : a.bit i = false) : (a.mark i).Manages startAddr endAddr := by
  have hfree := h.free_pos hi hclear
  refine ⟨h.low, h.high, h.fits, ?_⟩
  rw [marked_mark hi, Finset.card_insert_of_notMem (by simp [marked, hclear])]
  have hcount := h.counted
  change a.free - 1 + (a.marked.card + 1) = a.count
  omega

theorem Manages.unmark (hset : a.bit i = true) : (a.unmark i).Manages startAddr endAddr := by
  have hmem : i ∈ a.marked := Finset.mem_filter.mpr ⟨Finset.mem_range.mpr hi, hset⟩
  refine ⟨h.low, h.high, h.fits, ?_⟩
  have hcard := Finset.card_erase_add_one hmem
  have hcount := h.counted
  rw [marked_unmark]
  change a.free + 1 + (a.marked.erase i).card = a.count
  omega

end Manages

theorem allocFrom_eq (h : a.Manages startAddr endAddr) {i n : Nat} (hin : i + n = a.count)
    (hbefore : ∀ j < i, a.bit j = true) :
    (∀ j < a.count, a.bit j = true) ∧ a.allocFrom i n = (.ok none, a) ∨
    ∃ k < a.count, a.bit k = false ∧ (∀ j < k, a.bit j = true) ∧
      a.allocFrom i n = (.ok (some (a.addr k)), a.mark k) := by
  induction n generalizing i with
  | zero =>
    obtain rfl : i = a.count := by omega
    exact .inl ⟨hbefore, rfl⟩
  | succ n ih =>
    rw [allocFrom, if_neg (h.word_lt (by omega)), test_eq]
    cases hbit : a.bit i with
    | true =>
      rw [if_pos rfl]
      refine ih (by omega) fun j hj => ?_
      by_cases heq : j = i
      · rw [heq, hbit]
      · exact hbefore j (by omega)
    | false =>
      have hi : i < a.count := by omega
      have hfree := h.free_pos hi hbit
      have haddr := h.addr_lt hi
      right
      refine ⟨i, hi, hbit, hbefore, ?_⟩
      rw [if_neg (by simp)]
      dsimp only
      rw [if_neg (by exact Nat.pos_iff_ne_zero.mp hfree), if_neg (by exact Nat.not_le.mpr haddr)]
      rfl

theorem release_eq (h : a.Manages startAddr endAddr) (frame : UInt64) :
    (∃ i < a.count, a.bit i = true ∧ frame.toNat = a.addr i ∧
      a.release frame = (.ok (), a.unmark i)) ∨
    frame.toNat ∉ a.owned ∧ ∃ e, a.release frame = (.error e, a) := by
  have hmem : frame.toNat ∈ a.owned ↔ ∃ i < a.count, a.bit i = true ∧ frame.toNat = a.addr i := by
    simp only [owned, marked, Finset.mem_image, Finset.mem_filter, Finset.mem_range, and_assoc,
      eq_comm (b := a.addr _)]
  unfold release
  dsimp only
  by_cases haligned : frame.toNat % frameSize ≠ 0
  · rw [if_pos haligned]
    refine .inr ⟨fun hin => ?_, _, rfl⟩
    obtain ⟨i, -, -, hi⟩ := hmem.mp hin
    exact haligned (hi ▸ Nat.mul_mod_left ..)
  rw [if_neg haligned]
  by_cases hmanaged : ¬ (frame.toNat / frameSize ≥ a.base ∧
      frame.toNat / frameSize < a.base + a.count)
  · rw [if_pos hmanaged]
    refine .inr ⟨fun hin => hmanaged ?_, _, rfl⟩
    obtain ⟨i, hlt, -, hi⟩ := hmem.mp hin
    rw [hi, addr, Nat.mul_div_cancel _ (by decide)]
    omega
  rw [if_neg hmanaged]
  simp only [not_not] at haligned hmanaged
  -- The frame is managed: its number, and its address from it.
  have hlt : frame.toNat / frameSize - a.base < a.count := by omega
  have haddr : frame.toNat = a.addr (frame.toNat / frameSize - a.base) := by
    simp only [addr, frameSize] at haligned hmanaged ⊢
    omega
  generalize frame.toNat / frameSize - a.base = i at hlt haddr
  rw [if_neg (h.word_lt hlt), test_eq]
  cases hbit : a.bit i with
  | true =>
    have hcount := h.counted
    have hfits := h.fits
    simp only [maxFrames, frameSize] at hfits
    rw [if_neg (by simp), if_neg (by change ¬ 2 ^ 64 ≤ a.free + 1; omega)]
    exact .inl ⟨i, hlt, hbit, haddr, rfl⟩
  | false =>
    rw [if_pos (by simp)]
    refine .inr ⟨?_, _, rfl⟩
    rw [haddr, addr_mem_owned, hbit]
    simp

/-- A call. -/
inductive Call where
  | alloc
  | free (frame : UInt64)

/-- The call's answer, and the allocator after it. -/
def call (a : WordAllocator) : Call → Except Panic (Option Nat) × WordAllocator
  | .alloc => a.alloc
  | .free frame => ((a.release frame).1.map fun _ => none, (a.release frame).2)

/-- The frames allocated and not yet freed, after one more call and its answer. -/
def outstanding (frames : Finset Nat) : Call → Except Panic (Option Nat) → Finset Nat
  | .alloc, .ok (some f) => insert f frames
  | .free f, .ok _ => frames.erase f.toNat
  | _, _ => frames

/-- The allocator after some calls, and the frames that are outstanding by their answers. -/
def history : WordAllocator × Finset Nat → List Call → WordAllocator × Finset Nat
  | s, [] => s
  | (a, frames), c :: cs => history ((a.call c).2, outstanding frames c (a.call c).1) cs

theorem call_manages (h : a.Manages startAddr endAddr) (c : Call) :
    (a.call c).2.Manages startAddr endAddr ∧
      (a.call c).2.owned = outstanding a.owned c (a.call c).1 := by
  cases c with
  | alloc =>
    rcases allocFrom_eq h (Nat.zero_add _) (by simp) with ⟨-, heq⟩ | ⟨k, hk, hclear, -, heq⟩
    · rw [call, alloc, heq]
      exact ⟨h, rfl⟩
    · rw [call, alloc, heq]
      exact ⟨h.mark hk hclear, owned_mark hk⟩
  | free frame =>
    rcases release_eq h frame with ⟨i, hi, hset, haddr, heq⟩ | ⟨-, e, heq⟩
    · rw [call, heq]
      refine ⟨h.unmark hi hset, ?_⟩
      change _ = a.owned.erase frame.toNat
      rw [haddr]
      exact owned_unmark i
    · rw [call, heq]
      exact ⟨h, rfl⟩

theorem history_manages (h : a.Manages startAddr endAddr) (cs : List Call) :
    (history (a, a.owned) cs).1.Manages startAddr endAddr ∧
      (history (a, a.owned) cs).1.owned = (history (a, a.owned) cs).2 := by
  induction cs generalizing a with
  | nil => exact ⟨h, rfl⟩
  | cons c cs ih =>
    obtain ⟨h', howned⟩ := call_manages h c
    rw [history, ← howned]
    exact ih h'

/-- After `new` and an `init` that returns, and any calls since: the outstanding frames are
aligned and inside the range, the counter is what they leave, `alloc` hands out the lowest frame
of the range that is not outstanding, or none exactly when all are, and `free` succeeds exactly on
an outstanding frame and otherwise panics without a change. -/
theorem frames_handed_out_once (startAddr endAddr : UInt64)
    (h : new.init startAddr endAddr = .ok a) (cs : List Call) :
    let s := history (a, ∅) cs
    (∀ f ∈ s.2, inRange startAddr endAddr f) ∧
    s.2.card ≤ s.1.totalFrames ∧ s.1.freeFrames = s.1.totalFrames - s.2.card ∧
    s.1.totalFrames * frameSize = endAddr.toNat - startAddr.toNat ∧
    ((s.1.alloc.1 = .ok none ∧ ∀ f, inRange startAddr endAddr f → f ∈ s.2) ∨
      ∃ f, s.1.alloc.1 = .ok (some f) ∧ inRange startAddr endAddr f ∧ f ∉ s.2 ∧
        (∀ g, inRange startAddr endAddr g → g ∉ s.2 → f ≤ g) ∧ s.1.alloc.2.owned = insert f s.2) ∧
    ∀ f : UInt64,
      (f.toNat ∈ s.2 ∧ (s.1.release f).1 = .ok () ∧ (s.1.release f).2.owned = s.2.erase f.toNat) ∨
      (f.toNat ∉ s.2 ∧ ∃ e, s.1.release f = (.error e, s.1)) := by
  obtain ⟨hinit, hempty⟩ := init_manages h
  have hrun := history_manages hinit cs
  rw [hempty] at hrun
  generalize history (a, ∅) cs = s at hrun ⊢
  obtain ⟨hs, howned⟩ := hrun
  dsimp only
  have hcard : s.2.card = s.1.marked.card := by
    rw [← howned, owned, Finset.card_image_of_injective _ (addr_injective _)]
  have hcount := hs.counted
  refine ⟨fun f hf => ?_, ?_, ?_, ?_, ?_, fun f => ?_⟩
  · rw [← howned, owned, Finset.mem_image] at hf
    obtain ⟨i, hi, rfl⟩ := hf
    exact hs.inRange_iff.mpr ⟨i, Finset.mem_range.mp (Finset.mem_filter.mp hi).1, rfl⟩
  · rw [hcard, totalFrames]
    omega
  · rw [hcard, freeFrames, totalFrames]
    omega
  · rw [← hs.low, ← hs.high, addr, addr, ← Nat.sub_mul, totalFrames]
    congr 1
    omega
  · rcases allocFrom_eq hs (Nat.zero_add _) (by simp) with ⟨hfull, heq⟩ | ⟨k, hk, hclear, hlow, heq⟩
    · left
      refine ⟨by rw [alloc, heq], fun f hf => ?_⟩
      obtain ⟨i, hi, rfl⟩ := hs.inRange_iff.mp hf
      rw [← howned]
      exact addr_mem_owned.mpr ⟨hi, hfull i hi⟩
    · right
      refine ⟨s.1.addr k, by rw [alloc, heq], hs.inRange_iff.mpr ⟨k, hk, rfl⟩, ?_, ?_, ?_⟩
      · rw [← howned, addr_mem_owned, hclear]
        simp
      · intro g hg hfree
        obtain ⟨i, hi, rfl⟩ := hs.inRange_iff.mp hg
        rw [← howned, addr_mem_owned] at hfree
        apply Nat.mul_le_mul_right
        by_contra hlt
        exact hfree ⟨hi, hlow i (by omega)⟩
      · rw [alloc, heq, ← howned]
        exact owned_mark hk
  · rcases release_eq hs f with ⟨i, hi, hset, haddr, heq⟩ | ⟨hnot, e, heq⟩
    · left
      refine ⟨?_, by rw [heq], ?_⟩
      · rw [← howned, haddr]
        exact addr_mem_owned.mpr ⟨hi, hset⟩
      · rw [heq, haddr, ← howned]
        exact owned_unmark i
    · exact .inr ⟨howned ▸ hnot, e, heq⟩

/-- The range of the tests, after two allocations and the return of the first frame. -/
theorem frames_handed_out_once_again : ∃ a, new.init 0x80300000 0x80400000 = .ok a ∧
    ∀ f ∈ (history (a, ∅) [.alloc, .alloc, .free 0x80300000]).2,
      inRange 0x80300000 0x80400000 f := by
  have hsome : (new.init 0x80300000 0x80400000).toOption.isSome = true := by decide +kernel
  obtain ⟨a, ha⟩ := Option.isSome_iff_exists.mp hsome
  have ha := Except.toOption_eq_some_iff.mp ha
  exact ⟨a, ha, (frames_handed_out_once _ _ ha _).1⟩

/-- The allocator of `Frame`, whose bitmap is a function of the frame. -/
def bits (a : WordAllocator) : BitmapAllocator := ⟨a.bit, a.base, a.count, a.free⟩

theorem alloc_bits (h : a.Manages startAddr endAddr) :
    ∃ f, a.alloc.1 = .ok f ∧ a.bits.alloc = .ok (f, a.alloc.2.bits) := by
  rcases allocFrom_eq h (Nat.zero_add _) (by simp) with ⟨hfull, heq⟩ | ⟨k, hk, hclear, hlow, heq⟩
  · have hfind : (List.range a.count).find? (fun i => !a.bit i) = none := by
      apply List.find?_eq_none.mpr
      intro i hi
      simp [hfull i (List.mem_range.mp hi)]
    refine ⟨none, by rw [alloc, heq], ?_⟩
    rw [BitmapAllocator.alloc, alloc, heq]
    simp only [bits, hfind]
  · have hfind : (List.range a.count).find? (fun i => !a.bit i) = some k := by
      apply List.find?_range_eq_some.mpr
      exact ⟨by simp [hclear], List.mem_range.mpr hk, fun j hj => by simp [hlow j hj]⟩
    have hbits : (a.mark k).bit = Function.update a.bit k true := by
      funext j
      rw [show (a.mark k).bit j = (decide (j = k) || a.bit j) from bit_mark a k j,
        Function.update_apply]
      by_cases hj : j = k <;> simp [hj]
    have hfree := h.free_pos hk hclear
    refine ⟨some (a.addr k), by rw [alloc, heq], ?_⟩
    have hnot : ¬ a.bits.free = 0 := Nat.pos_iff_ne_zero.mp hfree
    rw [BitmapAllocator.alloc, alloc, heq,
      show (List.range a.bits.count).find? (fun i => !a.bits.bitmap i) = some k from hfind]
    dsimp only
    rw [if_neg hnot, bits, bits, hbits]
    rfl

end WordAllocator

end Perenne

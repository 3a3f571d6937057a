import Perenne.TrapFrame
import Perenne.Lib.Except

namespace Perenne

/-- `FRAME_SIZE`. -/
abbrev frameSize : Nat := 4096

/-- `MAX_FRAMES`: 4 GiB worth of frames. -/
def maxFrames : Nat := 4 * 1024 * 1024 * 1024 / frameSize

/-- `BitmapAllocator`. `bitmap i` is bit `i % 64` of word `i / 64`: set, the frame
`base + i` is allocated. -/
structure BitmapAllocator where
  bitmap : Nat → Bool
  base : Nat
  count : Nat
  free : Nat

namespace BitmapAllocator

/-- `BitmapAllocator::new`. -/
def new : BitmapAllocator := ⟨fun _ => false, 0, 0, 0⟩

/-- `init`: manage the frames in `[startAddr, endAddr)`. -/
def init (a : BitmapAllocator) (startAddr endAddr : Nat) : Except Panic BitmapAllocator :=
  if startAddr % frameSize ≠ 0 then .error (.assert "unaligned start")
  else if endAddr % frameSize ≠ 0 then .error (.assert "unaligned end")
  else if ¬ startAddr < endAddr then .error (.assert "empty range")
  else
    let count := (endAddr - startAddr) / frameSize
    if ¬ count ≤ maxFrames then .error (.assert "range exceeds bitmap capacity")
    else .ok { a with base := startAddr / frameSize, count := count, free := count }

/-- `alloc`: hand out the lowest free frame. -/
def alloc (a : BitmapAllocator) : Except Panic (Option Nat × BitmapAllocator) :=
  match (List.range a.count).find? fun i => !a.bitmap i with
  | none => .ok (none, a)
  | some i =>
    if a.free = 0 then .error .overflow
    else .ok (some ((a.base + i) * frameSize),
      { a with bitmap := Function.update a.bitmap i true, free := a.free - 1 })

/-- The frame at this address is managed and allocated. -/
def Allocated (a : BitmapAllocator) (f : Nat) : Prop :=
  ∃ i < a.count, a.bitmap i = true ∧ f = (a.base + i) * frameSize

variable {a a' : BitmapAllocator} {f : Nat}

/-- What an allocation hands out: a managed frame that was free, and is not any more. -/
structure Hands (a : BitmapAllocator) (f : Nat) (a' : BitmapAllocator) : Prop where
  fresh : ¬ a.Allocated f
  aligned : f % frameSize = 0
  low : a.base * frameSize ≤ f
  high : f + frameSize ≤ (a.base + a.count) * frameSize
  allocated (g : Nat) : a'.Allocated g ↔ g = f ∨ a.Allocated g
  base : a'.base = a.base
  count : a'.count = a.count

theorem alloc_some (h : a.alloc = .ok (some f, a')) : a.Hands f a' := by
  unfold alloc at h
  split at h
  case h_1 => cases h
  case h_2 i hfind =>
    have hi : i < a.count := List.mem_range.mp (List.mem_of_find?_eq_some hfind)
    have hclear : a.bitmap i = false := by simpa using List.find?_some hfind
    split at h
    case isTrue => cases h
    case isFalse =>
      obtain ⟨hf, rfl⟩ := Prod.mk.inj (Except.ok.inj h)
      obtain rfl := Option.some.inj hf
      refine ⟨?_, Nat.mul_mod_left .., Nat.mul_le_mul_right _ (by omega), ?_, fun g => ?_, rfl, rfl⟩
      · rintro ⟨j, hj, hset, heq⟩
        obtain rfl : i = j := by
          have := Nat.eq_of_mul_eq_mul_right (by decide) heq
          omega
        simp [hclear] at hset
      · calc (a.base + i) * frameSize + frameSize = (a.base + i + 1) * frameSize :=
            (Nat.succ_mul ..).symm
          _ ≤ (a.base + a.count) * frameSize := Nat.mul_le_mul_right _ (by omega)
      · constructor
        · rintro ⟨j, hj, hset, rfl⟩
          by_cases hij : j = i
          · exact .inl (by rw [hij])
          · exact .inr ⟨j, hj, by simpa [Function.update_of_ne hij] using hset, rfl⟩
        · rintro (rfl | ⟨j, hj, hset, rfl⟩)
          · exact ⟨i, hi, by simp, rfl⟩
          · refine ⟨j, hj, ?_, rfl⟩
            by_cases hij : j = i
            · simp [hij]
            · simpa [Function.update_of_ne hij] using hset

end BitmapAllocator

end Perenne

import Mathlib.Data.List.Basic
import Mathlib.Algebra.Order.Ring.Nat

/-!
Memory as bytes, with little-endian words, and the split virtqueues that a driver and a device
share in it.
-/

abbrev Ram := Nat → UInt8

namespace Ram

/-- The bytes of `[a, a + n)`. -/
def bytes (m : Ram) (a n : Nat) : List UInt8 := (List.range n).map fun i => m (a + i)

/-- The memory with `bs` from `a` on. -/
def put (m : Ram) (a : Nat) (bs : List UInt8) : Ram :=
  fun x => if a ≤ x then (bs[x - a]?).getD (m x) else m x

/-- The number that bytes stand for, the least significant one first. -/
def value (bs : List UInt8) : Nat := bs.foldr (fun b n => b.toNat + 256 * n) 0

/-- The last `n` bytes of a number. -/
def digits : Nat → Nat → List UInt8
  | 0, _ => []
  | n + 1, v => .ofNat v :: digits n (v / 256)

def load (m : Ram) (a n : Nat) : Nat := value (m.bytes a n)

def store (m : Ram) (a n v : Nat) : Ram := m.put a (digits n v)

variable {m : Ram} {a b n k v x : Nat} {bs : List UInt8}

@[simp] theorem length_bytes (m : Ram) (a n : Nat) : (m.bytes a n).length = n := by simp [bytes]

@[simp] theorem length_digits (n v : Nat) : (digits n v).length = n := by
  induction n generalizing v with
  | zero => rfl
  | succ n ih => rw [digits, List.length_cons, ih]

theorem value_digits (n v : Nat) : value (digits n v) = v % 256 ^ n := by
  induction n generalizing v with
  | zero => rw [pow_zero, Nat.mod_one]; rfl
  | succ n ih =>
    change (UInt8.ofNat v).toNat + 256 * value (digits n (v / 256)) = _
    have hlast : (UInt8.ofNat v).toNat = v % 256 := UInt8.toNat_ofNat'
    rw [ih, hlast, pow_succ', Nat.mod_mul]

theorem put_apart (h : x < a ∨ a + bs.length ≤ x) : m.put a bs x = m x := by
  unfold put
  split
  · rw [List.getElem?_eq_none (by omega)]
    rfl
  · rfl

theorem bytes_put_self (m : Ram) (a : Nat) (bs : List UInt8) :
    (m.put a bs).bytes a bs.length = bs := by
  apply List.ext_getElem
  · simp
  · intro i hi hi'
    simp [bytes, put, hi']

theorem bytes_congr {m' : Ram} (h : ∀ i, i < n → m' (a + i) = m (a + i)) :
    m'.bytes a n = m.bytes a n := by
  apply List.map_congr_left
  intro i hi
  exact h i (List.mem_range.mp hi)

theorem load_congr {m' : Ram} (h : ∀ i, i < n → m' (a + i) = m (a + i)) :
    m'.load a n = m.load a n := congrArg value (bytes_congr h)

theorem bytes_put_apart (h : b + n ≤ a ∨ a + bs.length ≤ b) :
    (m.put a bs).bytes b n = m.bytes b n := by
  apply bytes_congr
  intro i hi
  exact put_apart (by omega)

theorem load_put_apart (h : b + n ≤ a ∨ a + bs.length ≤ b) :
    (m.put a bs).load b n = m.load b n := by rw [load, bytes_put_apart h, load]

theorem load_store_self (m : Ram) (a n v : Nat) : (m.store a n v).load a n = v % 256 ^ n := by
  have hbytes : (m.store a n v).bytes a n = digits n v := by
    have h := bytes_put_self m a (digits n v)
    rwa [length_digits] at h
  rw [load, hbytes, value_digits]

theorem load_store_apart (h : b + k ≤ a ∨ a + n ≤ b) : (m.store a n v).load b k = m.load b k :=
  load_put_apart (by rwa [length_digits])

theorem bytes_store_apart (h : b + k ≤ a ∨ a + n ≤ b) :
    (m.store a n v).bytes b k = m.bytes b k :=
  bytes_put_apart (by rwa [length_digits])

theorem store_apart (h : x < a ∨ a + n ≤ x) : m.store a n v x = m x :=
  put_apart (by rwa [length_digits])

end Ram

namespace Virtqueue

/-- What one descriptor describes. -/
structure Segment where
  addr : Nat
  len : Nat
  writable : Bool
deriving DecidableEq

/-- Where a queue lies, and how many descriptors it has. -/
structure Rings where
  num : Nat
  desc : Nat
  avail : Nat
  used : Nat

variable (m : Ram) (q : Rings)

/-- The chain of descriptors from number `i` on, if it is no longer than `fuel`. -/
def chainFrom : Nat → Nat → Option (List Segment)
  | 0, _ => none
  | fuel + 1, i =>
    if i < q.num then
      let slot := q.desc + 16 * i
      let flags := m.load (slot + 12) 2
      let seg : Segment := ⟨m.load slot 8, m.load (slot + 8) 4, flags.testBit 1⟩
      if flags.testBit 0 then (chainFrom fuel (m.load (slot + 14) 2)).map (seg :: ·) else some [seg]
    else none

/-- The index that the driver publishes. -/
def availIndex : Nat := m.load (q.avail + 2) 2

/-- The head of the chain that the driver has put in the slot of entry number `seen`. -/
def headOf (seen : Nat) : Nat := m.load (q.avail + 4 + 2 * (seen % q.num)) 2

/-- The device hands entry number `seen` back, with the number of bytes it wrote. -/
def handBack (seen written : Nat) : Ram :=
  let m := m.store (q.used + 4 + 8 * (seen % q.num)) 4 (headOf m q seen)
  let m := m.store (q.used + 8 + 8 * (seen % q.num)) 4 written
  m.store (q.used + 2) 2 (seen + 1)

variable {m q} {seen written x i fuel : Nat} {rest : List Segment}

theorem chainFrom_next (hi : i < q.num) (hnext : (m.load (q.desc + 16 * i + 12) 2).testBit 0 = true)
    (hrest : chainFrom m q fuel (m.load (q.desc + 16 * i + 14) 2) = some rest) :
    chainFrom m q (fuel + 1) i = some (⟨m.load (q.desc + 16 * i) 8,
      m.load (q.desc + 16 * i + 8) 4, (m.load (q.desc + 16 * i + 12) 2).testBit 1⟩ :: rest) := by
  rw [chainFrom, if_pos hi]
  dsimp only
  rw [if_pos hnext, hrest]
  rfl

theorem chainFrom_last (hi : i < q.num)
    (hnext : (m.load (q.desc + 16 * i + 12) 2).testBit 0 = false) :
    chainFrom m q (fuel + 1) i = some [⟨m.load (q.desc + 16 * i) 8,
      m.load (q.desc + 16 * i + 8) 4, (m.load (q.desc + 16 * i + 12) 2).testBit 1⟩] := by
  rw [chainFrom, if_pos hi]
  dsimp only
  rw [if_neg (by rw [hnext]; decide)]

theorem handBack_apart (hnum : 0 < q.num) (h : x < q.used + 2 ∨ q.used + 4 + 8 * q.num ≤ x) :
    handBack m q seen written x = m x := by
  have hslot := Nat.mod_lt seen hnum
  rw [handBack, Ram.store_apart (by omega), Ram.store_apart (by omega), Ram.store_apart (by omega)]

end Virtqueue

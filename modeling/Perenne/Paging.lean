import Perenne.Frame
import Perenne.Lib.Radix

namespace Perenne

/-- `PAGE_SIZE`. -/
abbrev pageSize : Nat := 4096

/-- `PTE_V`, `PTE_R`, `PTE_W`, `PTE_X`, `PTE_U`, `PTE_G`, `PTE_A` and `PTE_D`. -/
def pteV : Nat := 1 <<< 0

def pteR : Nat := 1 <<< 1

def pteW : Nat := 1 <<< 2

def pteX : Nat := 1 <<< 3

def pteU : Nat := 1 <<< 4

def pteG : Nat := 1 <<< 5

def pteA : Nat := 1 <<< 6

def pteD : Nat := 1 <<< 7

/-- `make_satp`: mode Sv39 and the number of the root table's frame. -/
def makeSatp (rootPa : Nat) : Nat := (8 <<< 60) ||| (rootPa >>> 12)

/-- `vpn`: the 9-bit index at `level`, 2 for the root. -/
def vpn (va level : Nat) : Nat := (va >>> (12 + 9 * level)) &&& 0x1ff

/-- `pte_for`. -/
def pteFor (pa flags : Nat) : Nat := ((pa >>> 12) <<< 10) ||| flags ||| pteV

/-- `pte_to_pa`: the 44-bit frame number, as an address. -/
def pteToPa (pte : Nat) : Nat := ((pte >>> 10) &&& 0xFFFFFFFFFFF) <<< 12

/-- `pte_is_valid`. -/
def pteIsValid (pte : Nat) : Bool := pte &&& pteV != 0

/-- Physical memory as the page-table code uses it: `tables f i` is the 64-bit word `i`
of the frame at address `f`. -/
structure Mem where
  tables : Nat → Nat → Nat
  allocator : BitmapAllocator

namespace Mem

/-- `alloc_zeroed`. -/
def allocZeroed (m : Mem) : Except Panic (Option Nat × Mem) := do
  let (frame, allocator) ← m.allocator.alloc
  match frame with
  | none => return (none, { m with allocator })
  | some f => return (some f, { tables := Function.update m.tables f fun _ => 0, allocator })

/-- `alloc_zeroed().expect(text)`. -/
def expectFrame (m : Mem) (text : String) : Except Panic (Nat × Mem) := do
  let (frame, m) ← m.allocZeroed
  match frame with
  | none => .error (.expect text)
  | some f => return (f, m)

/-- `(*table).entries[idx] = pte`. -/
def setEntry (m : Mem) (table idx pte : Nat) : Mem :=
  { m with tables := Radix.write m.tables table idx pte }

/-- The loop of `map_page` over the levels above the leaves. -/
def leafTable (m : Mem) (va : Nat) : (table : Nat) → List Nat → Except Panic (Nat × Mem)
  | table, [] => .ok (table, m)
  | table, level :: levels =>
    let pte := m.tables table (vpn va level)
    if pteIsValid pte then m.leafTable va (pteToPa pte) levels
    else do
      let (frame, m) ← m.expectFrame "out of frames for page table"
      (m.setEntry table (vpn va level) (pteFor frame 0)).leafTable va frame levels

/-- `map_page`. -/
def mapPage (m : Mem) (root va pa flags : Nat) : Except Panic Mem :=
  if va % pageSize ≠ 0 ∨ pa % pageSize ≠ 0 then .error (.assert "map_page: unaligned")
  else do
    let (table, m) ← m.leafTable va root [2, 1]
    if pteIsValid (m.tables table (vpn va 0)) then .error (.assert "remap of va")
    else
      let dirty := if flags &&& pteW ≠ 0 then pteD else 0
      return m.setEntry table (vpn va 0) (pteFor pa (flags ||| pteA ||| dirty))

/-- The next `n` pages from `addr` on are mapped to themselves. -/
def mapPages (m : Mem) (root flags : Nat) : (addr n : Nat) → Except Panic Mem
  | _, 0 => .ok m
  | addr, n + 1 => do
    let m ← m.mapPage root addr addr flags
    m.mapPages root flags (addr + pageSize) n

/-- `map_range`: the loop runs once for every page that starts below `stop`. -/
def mapRange (m : Mem) (root start stop flags : Nat) : Except Panic Mem :=
  m.mapPages root flags start ((stop - start + (pageSize - 1)) / pageSize)

end Mem

/-- Where an address translates to, with the permission bits of its page. -/
structure Translation where
  pa : Nat
  r : Bool
  w : Bool
  x : Bool
  u : Bool
deriving DecidableEq, Repr

/-- Bits 63 to 39 of an Sv39 address equal bit 38. -/
def canonical (va : Nat) : Prop := va < 2 ^ 38 ∨ 2 ^ 64 - 2 ^ 38 ≤ va ∧ va < 2 ^ 64

instance (va : Nat) : Decidable (canonical va) := inferInstanceAs (Decidable (_ ∨ _))

/-- The walk from `level` down. An entry that is not valid, writable but not readable, or
has a reserved bit set is a fault; one that is readable or executable is a leaf, which
must have been accessed and, above level 0, be aligned; any other points to the next
table and has `A`, `D` and `U` clear. -/
def walk (tables : Nat → Nat → Nat) (va : Nat) : (level table : Nat) → Option Translation
  | level, table =>
    let pte := tables table (va / 2 ^ (12 + 9 * level) % 512)
    let ppn := pte / 2 ^ 10
    let size := 2 ^ (12 + 9 * level)
    if !pte.testBit 0 || !pte.testBit 1 && pte.testBit 2 || decide (2 ^ 54 ≤ pte) then none
    else if pte.testBit 1 || pte.testBit 3 then
      if pte.testBit 6 && ppn * 4096 % size == 0 then
        some ⟨ppn * 4096 + va % size, pte.testBit 1, pte.testBit 2, pte.testBit 3, pte.testBit 4⟩
      else none
    else if pte.testBit 4 || pte.testBit 6 || pte.testBit 7 then none
    else match level with
      | 0 => none
      | level + 1 => walk tables va level (ppn * 4096)

/-- The translation of `va` under a `satp`. -/
def translate (tables : Nat → Nat → Nat) (satp va : Nat) : Option Translation :=
  if satp / 2 ^ 60 = 8 ∧ canonical va then walk tables va 2 (satp % 2 ^ 44 * 4096) else none

end Perenne

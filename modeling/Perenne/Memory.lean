import Perenne.Paging
import Perenne.Lib.Transition

/-!
# Address spaces

`mem/mod.rs`: the linker's image, `init`, and the two builders of per-task address
spaces. A state also remembers the frames `alloc_zeroed` handed to a caller and what each
`satp` was built from.
-/

namespace Perenne

/-- A half-open range of addresses and the flags it is mapped with. -/
structure Region where
  start : Nat
  stop : Nat
  flags : Nat

def Region.has (g : Region) (va : Nat) : Prop := g.start ≤ va ∧ va < g.stop

/-- The symbols of `kernel.ld`, which aligns every section and lays them out in order. -/
structure Image where
  textStart : Nat
  textEnd : Nat
  rodataStart : Nat
  rodataEnd : Nat
  dataStart : Nat
  dataEnd : Nat
  stackStart : Nat
  stackTop : Nat
  userTextStart : Nat
  userTextEnd : Nat
  userDataStart : Nat
  userDataEnd : Nat
  kernelEnd : Nat
  aligned : ∀ x ∈ [textStart, textEnd, rodataStart, rodataEnd, dataStart, dataEnd, stackStart,
    stackTop, userTextStart, userTextEnd, userDataStart, userDataEnd, kernelEnd], x % pageSize = 0
  ordered : [textStart, textEnd, rodataStart, rodataEnd, dataStart, dataEnd, stackStart,
    stackTop, userTextStart, userTextEnd, userDataStart, userDataEnd, kernelEnd].Pairwise (· ≤ ·)
  below : kernelEnd ≤ 2 ^ 38

/-- What the device tree says: the end of RAM, the UART and the PLIC. -/
structure Board where
  ramEnd : Nat
  uartBase : Nat
  plicBase : Nat
  ramBelow : ramEnd ≤ 2 ^ 38
  uartAligned : uartBase % pageSize = 0
  uartBelow : uartBase + pageSize ≤ 2 ^ 38
  plicAligned : plicBase % pageSize = 0
  plicBelow : plicBase + 0x202000 ≤ 2 ^ 38

/-- The ranges `map_kernel_sections` maps. -/
def kernelSections (img : Image) (b : Board) : List Region :=
  [⟨img.textStart, img.textEnd, pteR ||| pteX ||| pteG⟩,
    ⟨img.rodataStart, img.rodataEnd, pteR ||| pteG⟩,
    ⟨img.dataStart, img.dataEnd, pteR ||| pteW ||| pteG⟩,
    ⟨img.stackStart, img.stackTop, pteR ||| pteW ||| pteG⟩] ++
  (if b.uartBase ≠ 0 then
    [⟨b.uartBase, b.uartBase + pageSize, pteR ||| pteW ||| pteG⟩] else []) ++
  (if b.plicBase ≠ 0 then
    [⟨b.plicBase, b.plicBase + 0x3000, pteR ||| pteW ||| pteG⟩,
      ⟨b.plicBase + 0x201000, b.plicBase + 0x202000, pteR ||| pteW ||| pteG⟩] else [])

/-- What an address space is built from: the master table of `init`, or the regions passed
to `build_user_space` and `build_virtio_space`. -/
inductive Space where
  | kernel
  | user (stack device : Nat × Nat)
  | virtio (stack mmio dma : Nat × Nat)
deriving DecidableEq

/-- The ranges mapped into the tree, in order. -/
def Space.regions (img : Image) (b : Board) : Space → List Region
  | .kernel => kernelSections img b ++ [⟨img.kernelEnd, b.ramEnd, pteR ||| pteW ||| pteG⟩]
  | .user stack device => kernelSections img b ++
    [⟨img.userTextStart, img.userTextEnd, pteR ||| pteX ||| pteU⟩,
      ⟨stack.1, stack.2, pteR ||| pteW ||| pteU⟩,
      ⟨device.1, device.2, pteR ||| pteU⟩]
  | .virtio stack mmio dma => kernelSections img b ++
    [⟨img.userTextStart, img.userTextEnd, pteR ||| pteX ||| pteU⟩,
      ⟨stack.1, stack.2, pteR ||| pteW ||| pteU⟩,
      ⟨mmio.1, mmio.2, pteR ||| pteW ||| pteU⟩,
      ⟨dma.1, dma.2, pteR ||| pteW ||| pteU⟩]

namespace Mem

/-- One `map_range` after the other. -/
def mapRegions (m : Mem) (root : Nat) : List Region → Except Panic Mem
  | [] => .ok m
  | g :: gs => do
    let m ← m.mapRange root g.start g.stop g.flags
    m.mapRegions root gs

/-- A fresh root table with these ranges mapped, and its `satp`. -/
def buildTree (m : Mem) (text : String) (gs : List Region) : Except Panic (Nat × Mem) := do
  let (root, m) ← m.expectFrame text
  let m ← m.mapRegions root gs
  return (makeSatp root, m)

end Mem

/-- The memory of the booting kernel. -/
structure Memory where
  mem : Mem
  handed : List Nat
  built : List (Nat × Space)

namespace Memory

/-- `mem::init`, on a RAM with arbitrary contents. -/
def init (img : Image) (b : Board) (ram : Nat → Nat → Nat) : Except Panic Memory := do
  let allocator ← BitmapAllocator.new.init img.kernelEnd b.ramEnd
  let (satp, mem) ← Mem.buildTree ⟨ram, allocator⟩ "no frame for root page table"
    (Space.kernel.regions img b)
  return ⟨mem, [], [(satp, .kernel)]⟩

/-- `build_user_space`. -/
def buildUserSpace (img : Image) (b : Board) (s : Memory) (stack device : Nat × Nat) :
    Except Panic Memory := do
  let (satp, mem) ← s.mem.buildTree "no frame for user root page table"
    ((Space.user stack device).regions img b)
  return { s with mem, built := (satp, .user stack device) :: s.built }

/-- `build_virtio_space`. -/
def buildVirtioSpace (img : Image) (b : Board) (s : Memory) (stack mmio dma : Nat × Nat) :
    Except Panic Memory := do
  let (satp, mem) ← s.mem.buildTree "no frame for virtio component root page table"
    ((Space.virtio stack mmio dma).regions img b)
  return { s with mem, built := (satp, .virtio stack mmio dma) :: s.built }

/-- `frame::alloc_zeroed`, called for a DMA frame. -/
def allocZeroed (s : Memory) : Except Panic Memory := do
  let (frame, mem) ← s.mem.allocZeroed
  match frame with
  | none => return { s with mem }
  | some f => return { s with mem, handed := f :: s.handed }

/-- A call `kmain` makes after `init`. -/
inductive Op where
  | allocZeroed
  | buildUserSpace (stack device : Nat × Nat)
  | buildVirtioSpace (stack mmio dma : Nat × Nat)

def exec (img : Image) (b : Board) (s : Memory) : Op → Except Panic Memory
  | .allocZeroed => s.allocZeroed
  | .buildUserSpace stack device => s.buildUserSpace img b stack device
  | .buildVirtioSpace stack mmio dma => s.buildVirtioSpace img b stack mmio dma

def step (img : Image) (b : Board) (s : Memory) (op : Op) : Option Memory :=
  (s.exec img b op).toOption

end Memory

end Perenne

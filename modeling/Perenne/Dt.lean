import Perenne.Fs
import Perenne.Lib.Outcome

namespace Perenne

namespace Dt

/-- `MachineInfo`. -/
structure MachineInfo where
  ramBase : Nat
  ramSize : Nat
  timebaseHz : Nat
  uartBase : Nat
  uartRegShift : UInt32
  uartIrq : UInt32
  rtcBase : Nat
  virtioMmio : Vector Nat 8
  virtioMmioCount : Nat
  virtioMmioIrq : Vector UInt32 8
  plicBase : Nat
deriving DecidableEq, Repr

/-- A slice of bytes, which is never longer than `isize::MAX`. -/
structure Blob where
  bytes : List UInt8
  size : bytes.length < 2 ^ 63

/-- A function that returns an option and may panic. -/
abbrev Fallible := Outcome Panic

/-- `usize` addition. -/
def addUsize (x y : Nat) : Fallible Nat := if x + y < 2 ^ 64 then .some (x + y) else .stop .overflow

/-- `usize` multiplication. -/
def mulUsize (x y : Nat) : Fallible Nat := if x * y < 2 ^ 64 then .some (x * y) else .stop .overflow

/-- `u32` addition. -/
def addCells (x y : UInt32) : Fallible UInt32 :=
  if x.toNat + y.toNat < 2 ^ 32 then .some (x + y) else .stop .overflow

/-- `buf.get(start..stop)`. -/
def subslice (buf : List UInt8) (start stop : Nat) : Option (List UInt8) :=
  if start ≤ stop ∧ stop ≤ buf.length then some (slice buf start (stop - start)) else none

/-- `u32::from_be_bytes`. -/
def fromBeBytes (bs : List UInt8) : UInt32 := .ofNat (bs.foldl (fun n b => 256 * n + b.toNat) 0)

/-- `be_u32`. -/
def beU32 (buf : List UInt8) (off : Nat) : Fallible UInt32 := do
  let stop ← addUsize off 4
  let b ← .ofOption (subslice buf off stop)
  return fromBeBytes b

/-- `cstr_len`. -/
def cstrLen (buf : List UInt8) (off : Nat) : Option Nat := (buf.drop off).findIdx? (· == 0)

/-- The loop of `read_cells`, with `k` cells to go. -/
def readCellsFrom (val : List UInt8) (off : Nat) : (k i : Nat) → UInt64 → Fallible UInt64
  | 0, _, n => return n
  | k + 1, i, n => do
    let skip ← mulUsize i 4
    let start ← addUsize off skip
    let cell ← beU32 val start
    readCellsFrom val off k (i + 1) (n <<< 32 ||| cell.toUInt64)

/-- `read_cells`. -/
def readCells (val : List UInt8) (off cells : Nat) : Fallible UInt64 :=
  readCellsFrom val off cells 0 0

/-- `val.windows(pat.len()).any(|w| w == pat)`. -/
def hasWindow (val pat : List UInt8) : Bool := val.tails.any fun t => pat.isPrefixOf t

/-- What is buffered of a node until it closes. -/
structure NodeState where
  isUart : Bool
  reg : Option Nat
  shift : UInt32
  isRtc : Bool
  isVirtio : Bool
  virtioIrq : Option UInt32
  isPlic : Bool
deriving DecidableEq, Repr

def NodeState.fresh : NodeState := ⟨false, none, 0, false, false, none, false⟩

/-- The devices found so far. -/
structure Found where
  uart : Option (Nat × UInt32)
  uartIrq : UInt32
  rtc : Option Nat
  virtioMmio : Vector Nat 8
  virtioCount : Nat
  virtioMmioIrq : Vector UInt32 8
  plicBase : Nat

namespace Found

def init : Found := ⟨none, 0, none, .replicate 8 0, 0, .replicate 8 0, 0⟩

def commitUart (d : Found) (node : NodeState) : Found :=
  match node.isUart && d.uart.isNone, node.reg with
  | true, some b => { d with uart := some (b, node.shift), uartIrq := node.virtioIrq.getD 0 }
  | _, _ => d

def commitRtc (d : Found) (node : NodeState) : Found :=
  match node.isRtc && d.rtc.isNone, node.reg with
  | true, some b => { d with rtc := some b }
  | _, _ => d

/-- A virtio slot, while there is room. -/
def commitVirtio (d : Found) (node : NodeState) : Found :=
  match node.isVirtio, node.reg with
  | true, some b =>
    if h : d.virtioCount < 8 then
      { d with
        virtioMmio := d.virtioMmio.set d.virtioCount b h
        virtioMmioIrq := d.virtioMmioIrq.set d.virtioCount (node.virtioIrq.getD 0) h
        virtioCount := d.virtioCount + 1 }
    else d
  | _, _ => d

def commitPlic (d : Found) (node : NodeState) : Found :=
  match node.isPlic, node.reg with
  | true, some b => { d with plicBase := b }
  | _, _ => d

/-- What `FDT_END_NODE` commits. -/
def commit (d : Found) (node : NodeState) : Found :=
  (((d.commitUart node).commitRtc node).commitVirtio node).commitPlic node

end Found

/-- The variables of `parse`. -/
structure State where
  depth : Nat
  isMem : Vector Bool 32
  addrCells : UInt32
  sizeCells : UInt32
  ram : Option (Nat × Nat)
  timebase : Option Nat
  node : NodeState
  found : Found

namespace State

def init : State := ⟨0, .replicate 32 false, 2, 2, none, none, .fresh, .init⟩

/-- `FDT_BEGIN_NODE`. -/
def beginNode (s : State) (name : Text) : Fallible State := do
  let depth ← addUsize s.depth 1
  let isMem := if h : depth < 32 then s.isMem.set depth ((utf8 "memory").isPrefixOf name) h
    else s.isMem
  return { s with depth, isMem, node := .fresh }

/-- `FDT_END_NODE`. -/
def endNode (s : State) : Fallible State :=
  let found := s.found.commit s.node
  if s.depth = 0 then .none else return { s with found, depth := s.depth - 1 }

/-- The open node is named `memory*`. -/
def inMemory (s : State) : Bool := if h : s.depth < 32 then s.isMem[s.depth] else false

/-- `#address-cells` and `#size-cells`, which count on the root only. -/
def cellsProp (s : State) (pname : Text) (val : List UInt8) : Fallible State :=
  if s.depth = 1 ∧ val.length ≥ 4 then
    if pname = utf8 "#address-cells" then do
      let cells ← beU32 val 0
      return { s with addrCells := cells }
    else if pname = utf8 "#size-cells" then do
      let cells ← beU32 val 0
      return { s with sizeCells := cells }
    else return s
  else return s

/-- `timebase-frequency`. -/
def timebaseProp (s : State) (pname : Text) (val : List UInt8) : Fallible State :=
  if pname = utf8 "timebase-frequency" ∧ val.length ≥ 4 then do
    let hz ← beU32 val 0
    return { s with timebase := some hz.toNat }
  else return s

/-- The `reg` of a node named `memory*`, with the base already read. -/
def ramProp (s : State) (val : List UInt8) (base : UInt64) : Fallible State :=
  if s.inMemory then do
    let cells ← addCells s.addrCells s.sizeCells
    let need ← mulUsize cells.toNat 4
    if val.length ≥ need then do
      let off ← mulUsize s.addrCells.toNat 4
      let sz ← readCells val off s.sizeCells.toNat
      return { s with ram := some (base.toNat, sz.toNat) }
    else return s
  else return s

/-- `reg`. -/
def regProp (s : State) (pname : Text) (val : List UInt8) : Fallible State :=
  if pname = utf8 "reg" then do
    let need ← mulUsize s.addrCells.toNat 4
    if val.length ≥ need then do
      let base ← readCells val 0 s.addrCells.toNat
      let s ← s.ramProp val base
      return { s with node.reg := some base.toNat }
    else return s
  else return s

/-- `compatible`. -/
def compatibleProp (s : State) (pname : Text) (val : List UInt8) : State :=
  if pname = utf8 "compatible" then
    { s with
      node.isUart := s.node.isUart || hasWindow val (utf8 "ns16550")
      node.isRtc := s.node.isRtc || hasWindow val (utf8 "goldfish")
      node.isVirtio := s.node.isVirtio || hasWindow val (utf8 "virtio,mmio")
      node.isPlic := s.node.isPlic || hasWindow val (utf8 "riscv,plic0") }
  else s

/-- `interrupts`. -/
def interruptsProp (s : State) (pname : Text) (val : List UInt8) : Fallible State :=
  if pname = utf8 "interrupts" ∧ val.length ≥ 4 then do
    let irq ← beU32 val 0
    return { s with node.virtioIrq := some irq }
  else return s

/-- `reg-shift`. -/
def regShiftProp (s : State) (pname : Text) (val : List UInt8) : Fallible State :=
  if pname = utf8 "reg-shift" ∧ val.length ≥ 4 then do
    let shift ← beU32 val 0
    return { s with node.shift := shift }
  else return s

/-- `FDT_PROP`, once its name and value have been read. -/
def prop (s : State) (pname : Text) (val : List UInt8) : Fallible State := do
  let s ← s.cellsProp pname val
  let s ← s.timebaseProp pname val
  let s ← s.regProp pname val
  let s := s.compatibleProp pname val
  let s ← s.interruptsProp pname val
  s.regShiftProp pname val

/-- The fields of the result, in the order in which a missing one is noticed. -/
def finish (s : State) : Option MachineInfo := do
  let (uartBase, uartRegShift) ← s.found.uart
  let ram ← s.ram
  let timebaseHz ← s.timebase
  let rtcBase ← s.found.rtc
  return ⟨ram.1, ram.2, timebaseHz, uartBase, uartRegShift, s.found.uartIrq, rtcBase,
    s.found.virtioMmio, s.found.virtioCount, s.found.virtioMmioIrq, s.found.plicBase⟩

end State

/-- How a round of the loop ends. -/
inductive Round where
  | next (pos : Nat) (s : State)
  | done (s : State)

/-- `x & !3`. -/
def align4 (x : Nat) : Nat := x / 4 * 4

/-- The string at `off`, and where it ends. -/
def readCstr (dtb : List UInt8) (off : Nat) : Fallible (Text × Nat) := do
  let len ← .ofOption (cstrLen dtb off)
  let stop ← addUsize off len
  let str ← .ofOption (subslice dtb off stop)
  return (str, stop)

/-- The name and the value of the property at `pos`, and where the value ends. -/
def readProp (dtb : List UInt8) (offStrings pos : Nat) : Fallible (Text × List UInt8 × Nat) := do
  let len ← beU32 dtb pos
  let nameAt ← addUsize pos 4
  let nameoff ← beU32 dtb nameAt
  let valOff ← addUsize pos 8
  let stop ← addUsize valOff len.toNat
  let val ← .ofOption (subslice dtb valOff stop)
  let pnameAt ← addUsize offStrings nameoff.toNat
  let (pname, _) ← readCstr dtb pnameAt
  return (pname, val, stop)

/-- One round of the loop of `parse`. -/
def round (dtb : List UInt8) (offStrings pos : Nat) (s : State) : Fallible Round := do
  let tok ← beU32 dtb pos
  let pos ← addUsize pos 4
  match tok with
  | 1 =>
    let (name, stop) ← readCstr dtb pos
    let s ← s.beginNode name
    let stop ← addUsize stop 1
    let stop ← addUsize stop 3
    return .next (align4 stop) s
  | 2 =>
    let s ← s.endNode
    return .next pos s
  | 3 =>
    let (pname, val, stop) ← readProp dtb offStrings pos
    let s ← s.prop pname val
    let stop ← addUsize stop 3
    return .next (align4 stop) s
  | 4 => return .next pos s
  | 9 => return .done s
  | _ => .none

/-- The loop of `parse`; `none` if it is still running after so many rounds. -/
def rounds (dtb : List UInt8) (offStrings : Nat) : Nat → Nat → State → Option (Fallible State)
  | 0, _, _ => none
  | n + 1, pos, s =>
    match round dtb offStrings pos s with
    | .some (.next pos s) => rounds dtb offStrings n pos s
    | .some (.done s) => some (.some s)
    | .none => some .none
    | .stop e => some (.stop e)

/-- The offsets of the two blocks, behind the magic number. -/
def header (dtb : List UInt8) : Fallible (Nat × Nat) := do
  let magic ← beU32 dtb 0
  if magic ≠ 0xd00dfeed then .none
  else
    let offStruct ← beU32 dtb 8
    let offStrings ← beU32 dtb 12
    return (offStruct.toNat, offStrings.toNat)

/-- `parse`; `none` if the loop is still running after a round for each byte. -/
def parse (dtb : Blob) : Option (Fallible MachineInfo) :=
  match header dtb.bytes with
  | .none => some .none
  | .stop e => some (.stop e)
  | .some (offStruct, offStrings) =>
    (rounds dtb.bytes offStrings (dtb.bytes.length + 1) offStruct .init).map fun r =>
      r >>= fun s => .ofOption s.finish

end Dt

end Perenne

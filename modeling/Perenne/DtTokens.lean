import Perenne.Dt
import Mathlib.Data.Nat.Bitwise
import Mathlib.Tactic.Ring

namespace Perenne

namespace Dt

/-- Bytes as a number, the first one highest. -/
def bigEndian (bs : List UInt8) : Nat := bs.foldl (fun n b => 256 * n + b.toNat) 0

/-- `u32::to_be_bytes`. -/
def toBeBytes (x : UInt32) : List UInt8 :=
  [.ofNat (x.toNat / 2 ^ 24), .ofNat (x.toNat / 2 ^ 16), .ofNat (x.toNat / 2 ^ 8), .ofNat x.toNat]

/-- The word at `off`. -/
def cell (bs : List UInt8) (off : Nat) : UInt32 := fromBeBytes (slice bs off 4)

/-- The number in the cells at `off`, as far as a word holds it. -/
def cellsAt (bs : List UInt8) (off cells : Nat) : Nat :=
  bigEndian (slice bs off (4 * cells)) % 2 ^ 64

theorem bigEndian_append (a b : List UInt8) :
    bigEndian (a ++ b) = bigEndian a * 256 ^ b.length + bigEndian b := by
  have hfold (b : List UInt8) (n : Nat) : b.foldl (fun n b => 256 * n + b.toNat) n =
      n * 256 ^ b.length + bigEndian b := by
    induction b generalizing n with
    | nil => simp [bigEndian]
    | cons x b ih =>
      rw [bigEndian, List.foldl_cons, List.foldl_cons, ih, ih, List.length_cons, Nat.pow_succ]
      ring
  rw [bigEndian, List.foldl_append, hfold]
  rfl

theorem bigEndian_lt (bs : List UInt8) : bigEndian bs < 256 ^ bs.length := by
  induction bs with
  | nil => simp [bigEndian]
  | cons b bs ih =>
    have hb := b.toNat_lt
    have hone : bigEndian [b] = b.toNat := by simp [bigEndian]
    have hle : (b.toNat + 1) * 256 ^ bs.length ≤ 256 * 256 ^ bs.length :=
      Nat.mul_le_mul_right _ hb
    rw [← List.singleton_append, bigEndian_append, hone, List.length_append, List.length_singleton,
      Nat.pow_add, Nat.pow_one]
    rw [Nat.add_mul] at hle
    omega

theorem toNat_fromBeBytes {bs : List UInt8} (h : bs.length = 4) :
    (fromBeBytes bs).toNat = bigEndian bs := by
  have hlt := bigEndian_lt bs
  rw [h] at hlt
  rw [fromBeBytes, UInt32.toNat_ofNat']
  exact Nat.mod_eq_of_lt hlt

theorem addUsize_of_lt {x y : Nat} (h : x + y < 2 ^ 64) : addUsize x y = .some (x + y) := if_pos h

theorem mulUsize_of_lt {x y : Nat} (h : x * y < 2 ^ 64) : mulUsize x y = .some (x * y) := if_pos h

theorem beU32_eq {buf : List UInt8} {off : Nat} (h : off + 4 < 2 ^ 64) :
    beU32 buf off = if off + 4 ≤ buf.length then .some (cell buf off) else .none := by
  rw [beU32, addUsize_of_lt h, Outcome.some_bind, subslice]
  by_cases hin : off + 4 ≤ buf.length
  · rw [if_pos ⟨Nat.le_add_right .., hin⟩, if_pos hin, Nat.add_sub_cancel_left]
    rfl
  · rw [if_neg fun hand => hin hand.2, if_neg hin]
    rfl

theorem shiftLeft_or (x : Nat) (c : UInt32) :
    UInt64.ofNat x <<< 32 ||| c.toUInt64 = UInt64.ofNat (x * 2 ^ 32 + c.toNat) := by
  have hc := c.toNat_lt
  apply UInt64.toNat_inj.mp
  rw [UInt64.toNat_or, UInt64.toNat_shiftLeft, UInt64.toNat_ofNat', UInt64.toNat_ofNat']
  have hsmall : (32 : UInt64).toNat % 64 = 32 := rfl
  have hword : c.toUInt64.toNat = c.toNat := rfl
  rw [hsmall, hword, Nat.shiftLeft_eq]
  have hmod : x % 2 ^ 64 * 2 ^ 32 % 2 ^ 64 = 2 ^ 32 * (x % 2 ^ 32) := by omega
  rw [hmod, ← Nat.two_pow_add_eq_or_of_lt hc]
  omega

theorem readCells_eq {val : List UInt8} {off cells : Nat} (hsize : val.length < 2 ^ 63)
    (hin : off + cells * 4 ≤ val.length) :
    readCells val off cells = .some (.ofNat (bigEndian (slice val off (4 * cells)))) := by
  have hloop (k i : Nat) (hk : off + (i + k) * 4 ≤ val.length) :
      readCellsFrom val off k i (.ofNat (bigEndian (slice val off (4 * i)))) =
        .some (.ofNat (bigEndian (slice val off (4 * (i + k))))) := by
    induction k generalizing i with
    | zero => rfl
    | succ k ih =>
      have hnext : slice val off (4 * (i + 1)) =
          slice val off (4 * i) ++ slice val (off + i * 4) 4 := by
        rw [slice, slice, slice, Nat.mul_add, Nat.mul_one, List.take_add, List.drop_drop,
          Nat.mul_comm i 4]
      have hlen : (slice val (off + i * 4) 4).length = 4 := length_slice (by omega)
      have hcell : (cell val (off + i * 4)).toNat = bigEndian (slice val (off + i * 4) 4) :=
        toNat_fromBeBytes hlen
      have hword : bigEndian (slice val off (4 * (i + 1))) =
          bigEndian (slice val off (4 * i)) * 2 ^ 32 + (cell val (off + i * 4)).toNat := by
        have hpow : 256 ^ 4 = 2 ^ 32 := rfl
        rw [hnext, bigEndian_append, hlen, hcell, hpow]
      rw [readCellsFrom, mulUsize_of_lt (by omega), Outcome.some_bind, addUsize_of_lt (by omega),
        Outcome.some_bind, beU32_eq (by omega), if_pos (by omega), Outcome.some_bind, shiftLeft_or,
        ← hword, ih (i + 1) (by omega), Nat.add_right_comm, Nat.add_assoc]
  have hstart := hloop cells 0 (by omega)
  rwa [Nat.zero_add] at hstart

/-- The node after one of its properties. -/
def NodeState.withProp (addrCells : UInt32) (n : NodeState) (pname : Text) (val : List UInt8) :
    NodeState where
  isUart := n.isUart || decide (pname = utf8 "compatible") && hasWindow val (utf8 "ns16550")
  reg := if pname = utf8 "reg" ∧ addrCells.toNat * 4 ≤ val.length then
    some (cellsAt val 0 addrCells.toNat) else n.reg
  shift := if pname = utf8 "reg-shift" ∧ 4 ≤ val.length then cell val 0 else n.shift
  isRtc := n.isRtc || decide (pname = utf8 "compatible") && hasWindow val (utf8 "goldfish")
  isVirtio := n.isVirtio || decide (pname = utf8 "compatible") && hasWindow val (utf8 "virtio,mmio")
  virtioIrq := if pname = utf8 "interrupts" ∧ 4 ≤ val.length then some (cell val 0) else n.virtioIrq
  isPlic := n.isPlic || decide (pname = utf8 "compatible") && hasWindow val (utf8 "riscv,plic0")

namespace State

variable {s : State} {pname : Text} {val : List UInt8}

def cellsAfter (s : State) (pname : Text) (val : List UInt8) : UInt32 × UInt32 :=
  if s.depth = 1 ∧ 4 ≤ val.length then
    (if pname = utf8 "#address-cells" then cell val 0 else s.addrCells,
      if pname = utf8 "#size-cells" then cell val 0 else s.sizeCells)
  else (s.addrCells, s.sizeCells)

/-- A `reg` with room for a base and a size, in a node named `memory*`. -/
def RamReg (s : State) (pname : Text) (val : List UInt8) : Prop :=
  pname = utf8 "reg" ∧ s.inMemory = true ∧
    (s.addrCells.toNat + s.sizeCells.toNat) * 4 ≤ val.length

/-- The sum of the cells is computed, and does not fit in a `u32`. -/
def Overflows (s : State) (pname : Text) (val : List UInt8) : Prop :=
  pname = utf8 "reg" ∧ s.inMemory = true ∧ s.addrCells.toNat * 4 ≤ val.length ∧
    2 ^ 32 ≤ s.addrCells.toNat + s.sizeCells.toNat

instance : Decidable (s.RamReg pname val) := inferInstanceAs (Decidable (_ ∧ _ ∧ _))

instance : Decidable (s.Overflows pname val) := inferInstanceAs (Decidable (_ ∧ _ ∧ _ ∧ _))

def withProp (s : State) (pname : Text) (val : List UInt8) : State :=
  { s with
    addrCells := (s.cellsAfter pname val).1
    sizeCells := (s.cellsAfter pname val).2
    timebase := if pname = utf8 "timebase-frequency" ∧ 4 ≤ val.length then
      some (cell val 0).toNat else s.timebase
    ram := if s.RamReg pname val then some (cellsAt val 0 s.addrCells.toNat,
      cellsAt val (s.addrCells.toNat * 4) s.sizeCells.toNat) else s.ram
    node := s.node.withProp (s.cellsAfter pname val).1 pname val }

theorem beU32_zero (h : 4 ≤ val.length) : beU32 val 0 = .some (cell val 0) := by
  rw [beU32_eq (by decide), if_pos (by omega)]

/-- The variables before `reg` is looked at. -/
def beforeReg (s : State) (pname : Text) (val : List UInt8) : State :=
  { s with
    addrCells := (s.cellsAfter pname val).1
    sizeCells := (s.cellsAfter pname val).2
    timebase := if pname = utf8 "timebase-frequency" ∧ 4 ≤ val.length then
      some (cell val 0).toNat else s.timebase }

theorem cellsProp_eq : s.cellsProp pname val = .some { s with
    addrCells := (s.cellsAfter pname val).1, sizeCells := (s.cellsAfter pname val).2 } := by
  rw [cellsProp, cellsAfter]
  split
  case isFalse => rfl
  case isTrue hroot =>
    rw [beU32_zero hroot.2]
    by_cases haddr : pname = utf8 "#address-cells"
    · have hsize : pname ≠ utf8 "#size-cells" := by
        rw [haddr]
        decide
      rw [if_pos haddr, if_pos haddr, if_neg hsize]
      rfl
    · rw [if_neg haddr, if_neg haddr]
      split
      · rfl
      · rfl

theorem timebaseProp_eq : s.timebaseProp pname val = .some { s with
    timebase := if pname = utf8 "timebase-frequency" ∧ 4 ≤ val.length then
      some (cell val 0).toNat else s.timebase } := by
  rw [timebaseProp]
  split
  case isTrue h =>
    rw [beU32_zero h.2]
    rfl
  case isFalse => rfl

theorem interruptsProp_eq : s.interruptsProp pname val = .some { s with
    node.virtioIrq := if pname = utf8 "interrupts" ∧ 4 ≤ val.length then
      some (cell val 0) else s.node.virtioIrq } := by
  rw [interruptsProp]
  split
  case isTrue h =>
    rw [beU32_zero h.2]
    rfl
  case isFalse => rfl

theorem regShiftProp_eq : s.regShiftProp pname val = .some { s with
    node.shift := if pname = utf8 "reg-shift" ∧ 4 ≤ val.length then
      cell val 0 else s.node.shift } := by
  rw [regShiftProp]
  split
  case isTrue h =>
    rw [beU32_zero h.2]
    rfl
  case isFalse => rfl

theorem compatibleProp_eq : s.compatibleProp pname val = { s with node := { s.node with
    isUart := s.node.isUart || decide (pname = utf8 "compatible") && hasWindow val (utf8 "ns16550")
    isRtc := s.node.isRtc || decide (pname = utf8 "compatible") && hasWindow val (utf8 "goldfish")
    isVirtio := s.node.isVirtio ||
      decide (pname = utf8 "compatible") && hasWindow val (utf8 "virtio,mmio")
    isPlic := s.node.isPlic ||
      decide (pname = utf8 "compatible") && hasWindow val (utf8 "riscv,plic0") } } := by
  rw [compatibleProp]
  split
  case isTrue h => simp only [h, decide_true, Bool.true_and]
  case isFalse h => simp only [h, decide_false, Bool.false_and, Bool.or_false]

theorem regProp_eq (hsize : val.length < 2 ^ 63) : s.regProp pname val =
    if s.Overflows pname val then .stop .overflow else .some { s with
      ram := if s.RamReg pname val then some (cellsAt val 0 s.addrCells.toNat,
        cellsAt val (s.addrCells.toNat * 4) s.sizeCells.toNat) else s.ram
      node.reg := if pname = utf8 "reg" ∧ s.addrCells.toNat * 4 ≤ val.length then
        some (cellsAt val 0 s.addrCells.toNat) else s.node.reg } := by
  have hac := s.addrCells.toNat_lt
  have hsc := s.sizeCells.toNat_lt
  rw [regProp]
  by_cases hreg : pname = utf8 "reg"
  case neg =>
    simp only [hreg, RamReg, Overflows, false_and, if_false]
    rfl
  rw [if_pos hreg, mulUsize_of_lt (by omega), Outcome.some_bind]
  by_cases hbase : s.addrCells.toNat * 4 ≤ val.length
  case neg =>
    have hpair : ¬ (s.addrCells.toNat + s.sizeCells.toNat) * 4 ≤ val.length := by omega
    simp only [RamReg, Overflows, hbase, hpair, false_and, and_false, if_false]
    rfl
  rw [if_pos hbase, readCells_eq hsize (by omega), Outcome.some_bind, ramProp]
  by_cases hmem : s.inMemory = true
  case neg =>
    simp only [hmem, hreg, hbase, RamReg, Overflows, true_and, false_and, and_false, if_false,
      Bool.false_eq_true, and_self, if_true, cellsAt]
    rfl
  rw [if_pos hmem, addCells]
  by_cases hover : s.addrCells.toNat + s.sizeCells.toNat < 2 ^ 32
  case neg =>
    rw [if_neg hover, if_pos ⟨hreg, hmem, hbase, Nat.le_of_not_lt hover⟩]
    rfl
  have hsum : (s.addrCells + s.sizeCells).toNat = s.addrCells.toNat + s.sizeCells.toNat := by
    rw [UInt32.toNat_add, Nat.mod_eq_of_lt hover]
  have hno : ¬ s.Overflows pname val := fun h => Nat.not_le.mpr hover h.2.2.2
  rw [if_pos hover, if_neg hno, Outcome.some_bind, mulUsize_of_lt (by omega), Outcome.some_bind,
    hsum]
  by_cases hpair : (s.addrCells.toNat + s.sizeCells.toNat) * 4 ≤ val.length
  · rw [if_pos hpair, mulUsize_of_lt (by omega), Outcome.some_bind,
      readCells_eq hsize (by omega), Outcome.some_bind]
    simp only [hreg, hmem, hbase, hpair, RamReg, and_self, if_true, cellsAt]
    rfl
  · rw [if_neg hpair]
    simp only [hreg, hmem, hbase, hpair, RamReg, and_self, and_false, if_false, if_true, cellsAt]
    rfl

theorem beforeReg_cells (h : pname = utf8 "reg") :
    (s.beforeReg pname val).addrCells = s.addrCells ∧
      (s.beforeReg pname val).sizeCells = s.sizeCells := by
  have haddr : pname ≠ utf8 "#address-cells" := by rw [h]; decide
  have hsize : pname ≠ utf8 "#size-cells" := by rw [h]; decide
  simp only [beforeReg, cellsAfter, haddr, hsize, if_false, ite_self, and_self]

theorem beforeReg_overflows :
    (s.beforeReg pname val).Overflows pname val ↔ s.Overflows pname val := by
  have hmem : (s.beforeReg pname val).inMemory = s.inMemory := rfl
  rw [Overflows, Overflows, hmem]
  refine and_congr_right fun hreg => ?_
  rw [(beforeReg_cells hreg).1, (beforeReg_cells hreg).2]

theorem beforeReg_ram :
    (if (s.beforeReg pname val).RamReg pname val then
      some (cellsAt val 0 (s.beforeReg pname val).addrCells.toNat,
        cellsAt val ((s.beforeReg pname val).addrCells.toNat * 4)
          (s.beforeReg pname val).sizeCells.toNat) else (s.beforeReg pname val).ram) =
      (s.withProp pname val).ram := by
  have hmem : (s.beforeReg pname val).inMemory = s.inMemory := rfl
  by_cases hreg : pname = utf8 "reg"
  · simp only [RamReg, hmem, (beforeReg_cells hreg).1, (beforeReg_cells hreg).2]
    rfl
  · have hno (s : State) : ¬ s.RamReg pname val := fun h => hreg h.1
    rw [if_neg (hno _), withProp]
    dsimp only
    rw [if_neg (hno _)]
    rfl

theorem prop_eq (hsize : val.length < 2 ^ 63) : s.prop pname val =
    if s.Overflows pname val then .stop .overflow else .some (s.withProp pname val) := by
  have hstart : s.prop pname val = (s.beforeReg pname val).regProp pname val >>= fun s =>
      (s.compatibleProp pname val).interruptsProp pname val >>= fun s =>
        s.regShiftProp pname val := by
    rw [prop, cellsProp_eq, Outcome.some_bind, timebaseProp_eq]
    rfl
  rw [hstart, regProp_eq hsize]
  by_cases hover : s.Overflows pname val
  · rw [if_pos (beforeReg_overflows.mpr hover), if_pos hover]
    rfl
  · rw [if_neg (mt beforeReg_overflows.mp hover), if_neg hover, Outcome.some_bind,
      compatibleProp_eq, interruptsProp_eq, Outcome.some_bind, regShiftProp_eq, beforeReg_ram]
    rfl

end State

/-- What a round reads. -/
inductive Token where
  | beginNode (name : Text)
  | endNode
  | prop (pname : Text) (val : List UInt8)
  | nop
  | stop
deriving DecidableEq

def State.apply (s : State) : Token → Fallible State
  | .beginNode name => s.beginNode name
  | .endNode => s.endNode
  | .prop pname val => s.prop pname val
  | .nop => .some s
  | .stop => .some s

/-- The string at `off`. -/
def cstrAt (dtb : List UInt8) (off : Nat) : Option Text :=
  (cstrLen dtb off).map fun n => slice dtb off n

/-- The name and the value of the property at `pos`. -/
def propAt (dtb : List UInt8) (offStrings pos : Nat) : Option (Text × List UInt8) :=
  if pos + 8 + (cell dtb pos).toNat ≤ dtb.length then
    (cstrAt dtb (offStrings + (cell dtb (pos + 4)).toNat)).map fun pname =>
      (pname, slice dtb (pos + 8) (cell dtb pos).toNat)
  else none

/-- The token at `pos`, and where the next one starts. -/
def tokenAt (dtb : List UInt8) (offStrings pos : Nat) : Option (Token × Nat) :=
  if pos + 4 ≤ dtb.length then
    match cell dtb pos with
    | 1 => (cstrAt dtb (pos + 4)).map fun name =>
      (.beginNode name, align4 (pos + 4 + name.length + 1 + 3))
    | 2 => some (.endNode, pos + 4)
    | 3 => (propAt dtb offStrings (pos + 4)).map fun p =>
      (.prop p.1 p.2, align4 (pos + 12 + p.2.length + 3))
    | 4 => some (.nop, pos + 4)
    | 9 => some (.stop, pos + 4)
    | _ => none
  else none

section Lex

variable {dtb : List UInt8} {offStrings pos pos' off : Nat} {t : Token}

theorem cstrAt_lt {str : Text} (h : cstrAt dtb off = some str) : off + str.length < dtb.length := by
  obtain ⟨n, hn, rfl⟩ := Option.map_eq_some_iff.mp h
  obtain ⟨hlt, -⟩ := List.findIdx?_eq_some_iff_getElem.mp hn
  rw [List.length_drop] at hlt
  rw [length_slice (by omega)]
  omega

theorem readCstr_eq (hsize : dtb.length < 2 ^ 63) :
    readCstr dtb off = .ofOption ((cstrAt dtb off).map fun str => (str, off + str.length)) := by
  rw [readCstr, cstrAt]
  cases hlen : cstrLen dtb off with
  | none => rfl
  | some n =>
    obtain ⟨hlt, -⟩ := List.findIdx?_eq_some_iff_getElem.mp hlen
    rw [List.length_drop] at hlt
    have hin : subslice dtb off (off + n) = some (slice dtb off n) := by
      rw [subslice, if_pos ⟨Nat.le_add_right .., by omega⟩, Nat.add_sub_cancel_left]
    change (addUsize off n >>= _) = _
    rw [addUsize_of_lt (by omega), Outcome.some_bind, hin]
    simp only [Option.map_some, length_slice (show off + n ≤ dtb.length by omega)]
    rfl

theorem propAt_le {p : Text × List UInt8} (h : propAt dtb offStrings pos = some p) :
    pos + 8 + p.2.length ≤ dtb.length ∧ p.2.length < 2 ^ 32 := by
  unfold propAt at h
  split at h
  case isFalse => cases h
  case isTrue hval =>
    obtain ⟨pname, -, rfl⟩ := Option.map_eq_some_iff.mp h
    have hlen := (cell dtb pos).toNat_lt
    dsimp only
    rw [length_slice hval]
    omega

theorem readProp_eq (hsize : dtb.length < 2 ^ 63) (hstrings : offStrings < 2 ^ 32)
    (hpos : pos < 2 ^ 63 + 2 ^ 33) :
    readProp dtb offStrings pos =
      .ofOption ((propAt dtb offStrings pos).map fun p => (p.1, p.2, pos + 8 + p.2.length)) := by
  have hlen := (cell dtb pos).toNat_lt
  have hoff := (cell dtb (pos + 4)).toNat_lt
  rw [readProp, beU32_eq (by omega), propAt]
  by_cases hval : pos + 8 + (cell dtb pos).toNat ≤ dtb.length
  case neg =>
    rw [if_neg hval]
    by_cases hfour : pos + 4 ≤ dtb.length
    case neg =>
      rw [if_neg hfour]
      rfl
    rw [if_pos hfour, Outcome.some_bind, addUsize_of_lt (by omega), Outcome.some_bind,
      beU32_eq (by omega)]
    by_cases height : pos + 4 + 4 ≤ dtb.length
    case neg =>
      rw [if_neg height]
      rfl
    rw [if_pos height, Outcome.some_bind, addUsize_of_lt (by omega), Outcome.some_bind,
      addUsize_of_lt (by omega), Outcome.some_bind, subslice, if_neg (by omega)]
    rfl
  rw [if_pos hval, if_pos (by omega), Outcome.some_bind, addUsize_of_lt (by omega),
    Outcome.some_bind, beU32_eq (by omega), if_pos (by omega), Outcome.some_bind,
    addUsize_of_lt (by omega), Outcome.some_bind, addUsize_of_lt (by omega), Outcome.some_bind,
    subslice, if_pos (by omega), Nat.add_sub_cancel_left]
  change (addUsize offStrings _ >>= _) = _
  rw [addUsize_of_lt (by omega), Outcome.some_bind, readCstr_eq hsize]
  cases cstrAt dtb (offStrings + (cell dtb (pos + 4)).toNat) with
  | none => rfl
  | some pname =>
    simp only [Option.map_some, length_slice hval]
    rfl

theorem tokenAt_bounds (h : tokenAt dtb offStrings pos = some (t, pos')) :
    pos + 4 ≤ dtb.length ∧ pos + 4 ≤ pos' ∧ pos' ≤ dtb.length + 3 := by
  unfold tokenAt at h
  split at h
  case isFalse => cases h
  case isTrue hin =>
    refine ⟨hin, ?_⟩
    split at h
    case h_1 =>
      obtain ⟨name, hname, heq⟩ := Option.map_eq_some_iff.mp h
      have hlt := cstrAt_lt hname
      obtain ⟨-, rfl⟩ := Prod.mk.inj heq
      rw [align4]
      omega
    case h_3 =>
      obtain ⟨p, hp, heq⟩ := Option.map_eq_some_iff.mp h
      have hle := (propAt_le hp).1
      obtain ⟨-, rfl⟩ := Prod.mk.inj heq
      rw [align4]
      omega
    case h_6 => cases h
    all_goals
      obtain ⟨-, rfl⟩ := Prod.mk.inj (Option.some.inj h)
      omega

theorem tokenAt_val {pname : Text} {val : List UInt8}
    (h : tokenAt dtb offStrings pos = some (.prop pname val, pos')) : val.length < 2 ^ 32 := by
  unfold tokenAt at h
  split at h
  case isFalse => cases h
  case isTrue =>
    split at h
    case h_1 =>
      obtain ⟨name, -, heq⟩ := Option.map_eq_some_iff.mp h
      cases (Prod.mk.inj heq).1
    case h_3 =>
      obtain ⟨p, hp, heq⟩ := Option.map_eq_some_iff.mp h
      obtain ⟨-, rfl⟩ := Token.prop.inj (Prod.mk.inj heq).1
      exact (propAt_le hp).2
    case h_6 => cases h
    all_goals cases (Prod.mk.inj (Option.some.inj h)).1

/-- What a round does, by the token it finds. -/
def roundOf (s : State) : Option (Token × Nat) → Fallible Round
  | none => .none
  | some (.stop, _) => .some (.done s)
  | some (t, pos) => s.apply t >>= fun s => .some (.next pos s)

theorem round_eq (hsize : dtb.length < 2 ^ 63) (hstrings : offStrings < 2 ^ 32)
    (hpos : pos < 2 ^ 63 + 2 ^ 32) (s : State) :
    round dtb offStrings pos s = roundOf s (tokenAt dtb offStrings pos) := by
  rw [round, beU32_eq (by omega), tokenAt]
  by_cases hin : pos + 4 ≤ dtb.length
  case neg =>
    rw [if_neg hin, if_neg hin]
    rfl
  rw [if_pos hin, if_pos hin, Outcome.some_bind, addUsize_of_lt (by omega), Outcome.some_bind]
  generalize cell dtb pos = tok
  split
  case h_1 =>
    rw [readCstr_eq hsize]
    cases hname : cstrAt dtb (pos + 4) with
    | none => rfl
    | some name =>
      have hlt := cstrAt_lt hname
      change (s.beginNode name >>= fun s => addUsize (pos + 4 + name.length) 1 >>= fun stop => _) = _
      rw [addUsize_of_lt (by omega)]
      change (s.beginNode name >>= fun s => addUsize (pos + 4 + name.length + 1) 3 >>= fun stop => _)
        = _
      rw [addUsize_of_lt (by omega)]
      rfl
  case h_3 =>
    rw [readProp_eq hsize hstrings (by omega)]
    cases hprop : propAt dtb offStrings (pos + 4) with
    | none => rfl
    | some p =>
      have hle := (propAt_le hprop).1
      change (s.prop p.1 p.2 >>= fun s => addUsize (pos + 4 + 8 + p.2.length) 3 >>= fun stop => _) = _
      rw [addUsize_of_lt (by omega)]
      rfl
  -- an unknown token: the last branch of both matches
  case h_6 => simp_all [roundOf]
  all_goals rfl

end Lex

end Dt

end Perenne

import Perenne.Heal
import Perenne.Lib.Except

namespace Perenne

/-- An array of `n` bytes. -/
structure Bytes (n : Nat) where
  list : List UInt8
  size : list.length = n
deriving DecidableEq

/-- The first `n` bytes, zero-padded. -/
def Bytes.pad (n : Nat) (bs : List UInt8) : Bytes n where
  list := bs.take n ++ List.replicate (n - bs.length) 0
  size := by
    rw [List.length_append, List.length_take, List.length_replicate]
    omega

/-- `BLOCK_SIZE`. -/
abbrev blockSize : Nat := 512

abbrev Block := Bytes blockSize

/-- `FS_MAGIC`. -/
def fsMagic : UInt32 := 0x53464236

/-- `FS_VERSION`. -/
def fsVersion : UInt32 := 1

/-- `DIR_BLOCK`. -/
def dirBlockNumber : UInt32 := 1

/-- `DATA_START_BLOCK`. -/
def dataStartBlock : UInt32 := 2

/-- `NAME_LEN`. -/
abbrev nameLen : Nat := 48

/-- `DIRENT_SIZE`. -/
abbrev direntSize : Nat := 64

/-- `DIRENTS_PER_BLOCK`. -/
abbrev direntsPerBlock : Nat := blockSize / direntSize

/-- `SPARE_BLOCKS`. -/
def spareBlocks : UInt32 := 8

/-- `bs[off..off + len]`. -/
def slice (bs : List UInt8) (off len : Nat) : List UInt8 := (bs.drop off).take len

/-- `bs[off..off + part.len()].copy_from_slice(part)`. -/
def splice (bs : List UInt8) (off : Nat) (part : List UInt8) : List UInt8 :=
  bs.take off ++ part ++ bs.drop (off + part.length)

/-- `u32::to_le_bytes`. -/
def toLeBytes (x : UInt32) : List UInt8 :=
  [.ofNat x.toNat, .ofNat (x.toNat / 2 ^ 8), .ofNat (x.toNat / 2 ^ 16), .ofNat (x.toNat / 2 ^ 24)]

/-- `u32::from_le_bytes`, of the four bytes at `off`. -/
def fromLeBytes (bs : List UInt8) (off : Nat) : UInt32 :=
  .ofNat ((bs.getD off 0).toNat + 2 ^ 8 * (bs.getD (off + 1) 0).toNat +
    2 ^ 16 * (bs.getD (off + 2) 0).toNat + 2 ^ 24 * (bs.getD (off + 3) 0).toNat)

/-- `u32` addition, which stops the debug build where it overflows. -/
def addU32 (x y : UInt32) : Except Panic UInt32 :=
  if x.toNat + y.toNat < 2 ^ 32 then .ok (x + y) else .error .overflow

structure Superblock where
  magic : UInt32
  version : UInt32
  blockSize : UInt32
  dirBlock : UInt32
  dirEntries : UInt32
  totalBlocks : UInt32
deriving DecidableEq

namespace Superblock

def bytes (sb : Superblock) : List UInt8 :=
  toLeBytes sb.magic ++ toLeBytes sb.version ++ toLeBytes sb.blockSize ++
    toLeBytes sb.dirBlock ++ toLeBytes sb.dirEntries ++ toLeBytes sb.totalBlocks

/-- `Superblock::encode`: the first 24 bytes, the rest untouched. -/
def encode (sb : Superblock) (block : List UInt8) : List UInt8 := splice block 0 sb.bytes

/-- `Superblock::decode`. -/
def decode (block : List UInt8) : Option Superblock :=
  if block.length < 24 then none
  else
    let sb : Superblock := ⟨fromLeBytes block 0, fromLeBytes block 4, fromLeBytes block 8,
      fromLeBytes block 12, fromLeBytes block 16, fromLeBytes block 20⟩
    if sb.magic ≠ fsMagic ∨ sb.version ≠ fsVersion then none else some sb

end Superblock

structure DirEntry where
  name : Bytes nameLen
  startBlock : UInt32
  byteLen : UInt32
deriving DecidableEq

namespace DirEntry

/-- `DirEntry::new`: the name cut to `NAME_LEN` bytes, or padded. -/
def new (name : Text) (startBlock byteLen : UInt32) : DirEntry :=
  ⟨.pad nameLen name, startBlock, byteLen⟩

def bytes (e : DirEntry) : List UInt8 :=
  e.name.list ++ toLeBytes e.startBlock ++ toLeBytes e.byteLen

/-- `DirEntry::encode`: 56 bytes of the slot, the rest untouched. -/
def encode (e : DirEntry) (slot : List UInt8) : List UInt8 := splice slot 0 e.bytes

/-- `DirEntry::decode`. -/
def decode (slot : List UInt8) : DirEntry :=
  ⟨.pad nameLen slot, fromLeBytes slot nameLen, fromLeBytes slot (nameLen + 4)⟩

def trimmed (e : DirEntry) : Text := e.name.list.takeWhile (· ≠ 0)

/-- `DirEntry::name_is`. -/
def nameIs (e : DirEntry) (want : Text) : Bool :=
  if want.length > nameLen then false else e.trimmed == want

end DirEntry

/-- `block_count`: the sum comes before the subtraction. -/
def blockCount (byteLen : UInt32) : Except Panic UInt32 := do
  let sum ← addU32 byteLen 512
  return .ofNat ((sum.toNat - 1) / blockSize)

/-- `dir_entry_at`. -/
def dirEntryAt (dir : List UInt8) (i : Nat) : Option DirEntry :=
  if i ≥ direntsPerBlock ∨ i * direntSize + direntSize > dir.length then none
  else some (.decode (slice dir (i * direntSize) direntSize))

/-- `lookup`: the loop breaks at the end of the directory bytes. -/
def lookup (dir : List UInt8) (count : UInt32) (name : Text) : Option DirEntry :=
  (((List.range (min count.toNat direntsPerBlock)).takeWhile fun i =>
    decide (i * direntSize + direntSize ≤ dir.length)).map fun i =>
    DirEntry.decode (slice dir (i * direntSize) direntSize)).find? (·.nameIs name)

structure AppendPlan where
  startBlock : UInt32
  newSuperblock : Superblock
  dirBlock : Block

/-- `append_plan`. -/
def appendPlan (sb : Superblock) (dir : List UInt8) (name : Text) (byteLen : UInt32) :
    Except Panic (Option AppendPlan) :=
  if sb.dirEntries.toNat ≥ direntsPerBlock then .ok none
  else do
    let nblocks ← blockCount byteLen
    let off := sb.dirEntries.toNat * direntSize
    let block := (Bytes.pad blockSize dir).list
    let dirBlock := splice block off
      ((DirEntry.new name sb.totalBlocks byteLen).encode (slice block off direntSize))
    let dirEntries ← addU32 sb.dirEntries 1
    let totalBlocks ← addU32 sb.totalBlocks nblocks
    return some ⟨sb.totalBlocks, { sb with dirEntries, totalBlocks }, .pad blockSize dirBlock⟩

theorem Bytes.pad_list {n : Nat} {bs : List UInt8} (h : bs.length = n) :
    (Bytes.pad n bs).list = bs := by
  simp only [Bytes.pad, h, Nat.sub_self, List.replicate_zero, List.append_nil]
  rw [← h, List.take_length]

@[simp] theorem Bytes.pad_self {n : Nat} (b : Bytes n) : Bytes.pad n b.list = b := by
  obtain ⟨bs, h⟩ := b
  rw [Bytes.mk.injEq]
  exact Bytes.pad_list h

theorem Bytes.pad_append {n : Nat} {bs : List UInt8} (h : bs.length = n) (rest : List UInt8) :
    Bytes.pad n (bs ++ rest) = Bytes.pad n bs := by
  simp only [Bytes.pad, Bytes.mk.injEq, List.length_append, h, Nat.sub_self]
  rw [List.take_left' h, ← h, List.take_length, Nat.sub_eq_zero_of_le (Nat.le_add_right ..)]

section Slices

variable {bs part : List UInt8} {off : Nat}

theorem length_splice (h : off + part.length ≤ bs.length) :
    (splice bs off part).length = bs.length := by
  simp only [splice, List.length_append, List.length_take, List.length_drop]
  omega

theorem length_slice {len : Nat} (h : off + len ≤ bs.length) : (slice bs off len).length = len := by
  simp only [slice, List.length_take, List.length_drop]
  omega

theorem slice_splice {len : Nat} (h : off ≤ bs.length) (hlen : part.length = len) :
    slice (splice bs off part) off len = part := by
  have htake : (bs.take off).length = off := List.length_take_of_le h
  rw [slice, splice, List.append_assoc, List.drop_left' htake, List.take_left' hlen]

theorem slice_splice_before {off' len : Nat} (h : off' + len ≤ off) (hoff : off ≤ bs.length) :
    slice (splice bs off part) off' len = slice bs off' len := by
  have htake : (bs.take off).length = off := List.length_take_of_le hoff
  rw [slice, splice, List.append_assoc, List.drop_append_of_le_length (by omega),
    List.take_append_of_le_length (by rw [List.length_drop]; omega), slice, List.drop_take,
    List.take_take, Nat.min_eq_left (by omega)]

theorem slice_splice_after {off' len : Nat} (h : off + part.length ≤ off')
    (hoff : off ≤ bs.length) : slice (splice bs off part) off' len = slice bs off' len := by
  have htake : (bs.take off ++ part).length = off + part.length := by
    rw [List.length_append, List.length_take_of_le hoff]
  rw [slice, splice, List.drop_append, htake, List.drop_eq_nil_of_le (by omega), List.nil_append,
    List.drop_drop, slice]
  congr 2
  omega

theorem splice_slice {len : Nat} (h : off + len ≤ bs.length) (hpart : part.length ≤ len) :
    splice bs off (splice (slice bs off len) 0 part) = splice bs off part := by
  have hslice : (slice bs off len).length = len := length_slice h
  have hlen : (splice (slice bs off len) 0 part).length = len := by
    rw [length_splice (by omega), hslice]
  rw [splice, hlen, splice, splice]
  simp only [List.take_zero, List.nil_append, Nat.zero_add, List.append_assoc]
  congr 2
  rw [slice, List.drop_take, List.drop_drop]
  have hrest : off + len = off + part.length + (len - part.length) := by omega
  have htail := List.take_append_drop (len - part.length) (bs.drop (off + part.length))
  rw [List.drop_drop] at htail
  rw [hrest, htail]

end Slices

theorem fromLeBytes_toLeBytes (x : UInt32) (rest : List UInt8) :
    fromLeBytes (toLeBytes x ++ rest) 0 = x := by
  have hx := x.toNat_lt
  apply UInt32.toNat_inj.mp
  simp only [fromLeBytes, toLeBytes, List.cons_append, List.nil_append, List.getD_cons_zero,
    List.getD_cons_succ, Nat.zero_add, UInt8.toNat_ofNat', UInt32.toNat_ofNat']
  omega

theorem fromLeBytes_append (bs rest : List UInt8) (k : Nat) :
    fromLeBytes (bs ++ rest) (bs.length + k) = fromLeBytes rest k := by
  simp only [fromLeBytes, Nat.add_assoc, List.getD_append_right, Nat.le_add_right,
    Nat.add_sub_cancel_left]

theorem length_toLeBytes (x : UInt32) : (toLeBytes x).length = 4 := rfl

theorem fromLeBytes_after {bs : List UInt8} {n : Nat} (h : bs.length = n) (x : UInt32)
    (rest : List UInt8) : fromLeBytes (bs ++ (toLeBytes x ++ rest)) n = x := by
  subst h
  exact (fromLeBytes_append bs (toLeBytes x ++ rest) 0).trans (fromLeBytes_toLeBytes x rest)

namespace Superblock

theorem length_bytes (sb : Superblock) : sb.bytes.length = 24 := rfl

theorem length_encode {block : List UInt8} (sb : Superblock) (h : 24 ≤ block.length) :
    (sb.encode block).length = block.length :=
  length_splice (by rw [length_bytes]; omega)

theorem decode_bytes (sb : Superblock) (rest : List UInt8) (hmagic : sb.magic = fsMagic)
    (hversion : sb.version = fsVersion) : decode (sb.bytes ++ rest) = some sb := by
  have hsplit : sb.bytes ++ rest = toLeBytes sb.magic ++ (toLeBytes sb.version ++
      (toLeBytes sb.blockSize ++ (toLeBytes sb.dirBlock ++ (toLeBytes sb.dirEntries ++
        (toLeBytes sb.totalBlocks ++ rest))))) := by
    simp only [bytes, List.append_assoc]
  have h0 : fromLeBytes (sb.bytes ++ rest) 0 = sb.magic := by
    rw [hsplit]
    exact fromLeBytes_toLeBytes ..
  have h4 : fromLeBytes (sb.bytes ++ rest) 4 = sb.version := by
    rw [hsplit]
    exact fromLeBytes_after rfl ..
  have h8 : fromLeBytes (sb.bytes ++ rest) 8 = sb.blockSize := by
    rw [hsplit, ← List.append_assoc]
    exact fromLeBytes_after rfl ..
  have h12 : fromLeBytes (sb.bytes ++ rest) 12 = sb.dirBlock := by
    rw [hsplit, ← List.append_assoc, ← List.append_assoc]
    exact fromLeBytes_after rfl ..
  have h16 : fromLeBytes (sb.bytes ++ rest) 16 = sb.dirEntries := by
    rw [hsplit, ← List.append_assoc, ← List.append_assoc, ← List.append_assoc]
    exact fromLeBytes_after rfl ..
  have h20 : fromLeBytes (sb.bytes ++ rest) 20 = sb.totalBlocks := by
    rw [hsplit, ← List.append_assoc, ← List.append_assoc, ← List.append_assoc,
      ← List.append_assoc]
    exact fromLeBytes_after rfl ..
  rw [decode, if_neg (by rw [List.length_append, length_bytes]; omega)]
  simp only [h0, h4, h8, h12, h16, h20, hmagic, hversion]
  rw [if_neg (by simp), ← hmagic, ← hversion]

theorem decode_encode {block : List UInt8} (sb : Superblock) (hmagic : sb.magic = fsMagic)
    (hversion : sb.version = fsVersion) : decode (sb.encode block) = some sb := by
  rw [encode, splice, List.take_zero, List.nil_append]
  exact decode_bytes sb _ hmagic hversion

theorem decode_some {block : List UInt8} {sb : Superblock} (h : decode block = some sb) :
    sb.magic = fsMagic ∧ sb.version = fsVersion := by
  unfold decode at h
  split at h
  case isTrue => cases h
  case isFalse =>
    dsimp only at h
    split at h
    case isTrue => cases h
    case isFalse hok =>
      rw [not_or, not_not, not_not] at hok
      obtain rfl := Option.some.inj h
      exact hok

end Superblock

namespace DirEntry

theorem length_bytes (e : DirEntry) : e.bytes.length = 56 := by
  simp only [bytes, List.length_append, e.name.size, length_toLeBytes]

theorem length_encode {slot : List UInt8} (e : DirEntry) (h : slot.length = direntSize) :
    (e.encode slot).length = direntSize := by
  rw [encode, length_splice, h]
  rw [length_bytes, h]
  decide

theorem decode_bytes (e : DirEntry) (rest : List UInt8) : decode (e.bytes ++ rest) = e := by
  have hsplit : e.bytes ++ rest = e.name.list ++ (toLeBytes e.startBlock ++
      (toLeBytes e.byteLen ++ rest)) := by
    simp only [bytes, List.append_assoc]
  have hname : Bytes.pad nameLen (e.bytes ++ rest) = e.name := by
    rw [hsplit, Bytes.pad_append e.name.size, Bytes.pad_self]
  have hstart : fromLeBytes (e.bytes ++ rest) nameLen = e.startBlock := by
    rw [hsplit]
    exact fromLeBytes_after e.name.size ..
  have hlen : fromLeBytes (e.bytes ++ rest) (nameLen + 4) = e.byteLen := by
    rw [hsplit, ← List.append_assoc]
    exact fromLeBytes_after (by simp [e.name.size, length_toLeBytes]) ..
  rw [decode, hname, hstart, hlen]

theorem decode_encode (e : DirEntry) (slot : List UInt8) : decode (e.encode slot) = e := by
  rw [encode, splice, List.take_zero, List.nil_append]
  exact decode_bytes e _

end DirEntry

theorem blockCount_ok {n : UInt32} (h : n.toNat + 512 < 2 ^ 32) :
    ∃ c, blockCount n = .ok c ∧ c.toNat = (n.toNat + 511) / 512 := by
  have hsum : addU32 n 512 = .ok (n + 512) := if_pos h
  refine ⟨_, by rw [blockCount, hsum]; rfl, ?_⟩
  rw [UInt32.toNat_add, UInt32.toNat_ofNat]
  change (((n.toNat + 512) % 2 ^ 32 - 1) / 512) % 2 ^ 32 = _
  omega

theorem addU32_ok {x y : UInt32} (h : x.toNat + y.toNat < 2 ^ 32) :
    ∃ z, addU32 x y = .ok z ∧ z.toNat = x.toNat + y.toNat :=
  ⟨x + y, if_pos h, by rw [UInt32.toNat_add, Nat.mod_eq_of_lt h]⟩

/-- What a planned append holds: the directory with one entry more, and the superblock
that counts it. -/
structure AppendPlan.Extends (plan : AppendPlan) (sb : Superblock) (dir : List UInt8)
    (name : Text) (byteLen : UInt32) : Prop where
  start : plan.startBlock = sb.totalBlocks
  old (i : Nat) (hi : i < sb.dirEntries.toNat) :
    dirEntryAt plan.dirBlock.list i = dirEntryAt dir i
  new : dirEntryAt plan.dirBlock.list sb.dirEntries.toNat =
    some (.new name sb.totalBlocks byteLen)
  superblock : ∃ d t : UInt32, plan.newSuperblock = { sb with dirEntries := d, totalBlocks := t } ∧
    d.toNat = sb.dirEntries.toNat + 1 ∧
    t.toNat = sb.totalBlocks.toNat + (byteLen.toNat + 511) / 512

theorem appendPlan_spec (sb : Superblock) {dir : List UInt8} (name : Text) (byteLen : UInt32)
    (hdir : dir.length = blockSize) (hcount : sb.dirEntries.toNat < direntsPerBlock)
    (hlen : byteLen.toNat + 512 < 2 ^ 32)
    (htotal : sb.totalBlocks.toNat + (byteLen.toNat + 511) / 512 < 2 ^ 32) :
    ∃ plan, appendPlan sb dir name byteLen = .ok (some plan) ∧
      plan.Extends sb dir name byteLen := by
  obtain ⟨nblocks, hblocks, hn⟩ := blockCount_ok hlen
  have hone : (1 : UInt32).toNat = 1 := rfl
  simp only [direntsPerBlock, blockSize, direntSize] at hcount
  obtain ⟨d, hd, hd'⟩ := addU32_ok (x := sb.dirEntries) (y := 1) (by rw [hone]; omega)
  obtain ⟨t, ht, ht'⟩ := addU32_ok (x := sb.totalBlocks) (y := nblocks) (by omega)
  have hslot : (slice dir (sb.dirEntries.toNat * direntSize) direntSize).length = direntSize :=
    length_slice (by rw [hdir]; simp only [direntSize, blockSize]; omega)
  -- The new slot, and the directory block with it.
  have hpart : ((DirEntry.new name sb.totalBlocks byteLen).encode
      (slice dir (sb.dirEntries.toNat * direntSize) direntSize)).length = direntSize :=
    DirEntry.length_encode _ hslot
  have hblock : (splice dir (sb.dirEntries.toNat * direntSize)
      ((DirEntry.new name sb.totalBlocks byteLen).encode
        (slice dir (sb.dirEntries.toNat * direntSize) direntSize))).length = blockSize := by
    rw [length_splice, hdir]
    rw [hpart, hdir]
    simp only [direntSize, blockSize]
    omega
  refine ⟨⟨sb.totalBlocks, { sb with dirEntries := d, totalBlocks := t }, .pad blockSize (splice dir
    (sb.dirEntries.toNat * direntSize) ((DirEntry.new name sb.totalBlocks byteLen).encode
      (slice dir (sb.dirEntries.toNat * direntSize) direntSize)))⟩, ?_, rfl, fun i hi => ?_, ?_,
    d, t, rfl, by rw [hd', hone], by rw [ht', hn]⟩
  · rw [appendPlan, if_neg (by simp only [direntsPerBlock, blockSize, direntSize]; omega), hblocks,
      Bytes.pad_list hdir]
    simp only [bind, Except.bind, hd, ht, pure, Except.pure]
  · dsimp only
    rw [Bytes.pad_list hblock, dirEntryAt, dirEntryAt, hblock, hdir, slice_splice_before]
    · simp only [direntSize]
      omega
    · rw [hdir]
      simp only [direntSize, blockSize]
      omega
  · dsimp only
    rw [Bytes.pad_list hblock, dirEntryAt, hblock, if_neg]
    · rw [slice_splice _ hpart, DirEntry.decode_encode]
      rw [hdir]
      simp only [direntSize, blockSize]
      omega
    · simp only [direntsPerBlock, direntSize, blockSize]
      omega

end Perenne

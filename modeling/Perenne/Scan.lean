import Perenne.Badges
import Perenne.Lib.Bounds

namespace Perenne

namespace Scan

def addUsize (x y : Nat) : Except Panic Nat :=
  if x + y < 2 ^ 64 then .ok (x + y) else .error .overflow

def subUsize (x y : Nat) : Except Panic Nat :=
  if y ≤ x then .ok (x - y) else .error .overflow

def mulUsize (x y : Nat) : Except Panic Nat :=
  if x * y < 2 ^ 64 then .ok (x * y) else .error .overflow

/-- `bs[start..stop]`. -/
def range (bs : List UInt8) (start stop : Nat) : Except Panic (List UInt8) :=
  if start ≤ stop ∧ stop ≤ bs.length then .ok (slice bs start (stop - start))
  else .error .indexOutOfBounds

/-- `dst[start..stop].copy_from_slice(part)`, which also wants equal lengths. -/
def copy (dst : List UInt8) (start stop : Nat) (part : List UInt8) : Except Panic (List UInt8) :=
  if start ≤ stop ∧ stop ≤ dst.length ∧ part.length = stop - start then .ok (splice dst start part)
  else .error .indexOutOfBounds

/-- `u32::from_le_bytes` of four bytes by their indices. -/
def readU32 (bs : List UInt8) (off : Nat) : Except Panic UInt32 :=
  if off + 4 ≤ bs.length then .ok (fromLeBytes bs off) else .error .indexOutOfBounds

/-- `Superblock::decode`. -/
def decodeSuperblock (block : List UInt8) : Except Panic (Option Superblock) :=
  if block.length < 24 then .ok none
  else do
    let magic ← readU32 block 0
    let version ← readU32 block 4
    let size ← readU32 block 8
    let dirBlock ← readU32 block 12
    let dirEntries ← readU32 block 16
    let totalBlocks ← readU32 block 20
    if magic ≠ fsMagic ∨ version ≠ fsVersion then return none
    else return some ⟨magic, version, size, dirBlock, dirEntries, totalBlocks⟩

/-- `DirEntry::decode`. -/
def decodeEntry (e : List UInt8) : Except Panic DirEntry := do
  let name ← range e 0 nameLen
  let name ← copy (List.replicate nameLen 0) 0 nameLen name
  let startBlock ← readU32 e nameLen
  let byteLen ← readU32 e (nameLen + 4)
  return ⟨.pad nameLen name, startBlock, byteLen⟩

/-- `dir_entry_at`. -/
def entryAt (dir : List UInt8) (i : Nat) : Except Panic (Option DirEntry) := do
  let off ← mulUsize i direntSize
  let stop ← addUsize off direntSize
  if i ≥ direntsPerBlock ∨ stop > dir.length then return none
  else
    let slot ← range dir off stop
    let e ← decodeEntry slot
    return some e

/-- The loop of `fs_read_extent_head`, into `FS_FILEBUF`. -/
def readBlocks (start : UInt32) (len : Nat) : (i n : Nat) → Text → Io (Option Text)
  | _, 0, filebuf => do
    let head ← Prog.lift (range filebuf 0 len)
    return some head
  | i, n + 1, filebuf => do
    let block ← Prog.lift (addU32 start (.ofNat i))
    match ← fsCopyBlock block with
    | none => return none
    | some blk => do
      let filebuf ← Prog.lift do
        let off ← mulUsize i blockSize
        let rest ← subUsize len off
        let stop ← addUsize off (min blockSize rest)
        let part ← range blk.list 0 (min blockSize rest)
        copy filebuf off stop part
      readBlocks start len (i + 1) n filebuf

/-- `fs_read_extent_head`, whatever `FS_FILEBUF` holds. -/
def readExtentHead (filebuf : Bytes fsFilebufLen) (start byteLen : UInt32) : Io (Option Text) := do
  let count ← Prog.lift (blockCount byteLen)
  let nblocks := min count.toNat kbHeadBlocks
  let size ← Prog.lift (mulUsize nblocks blockSize)
  readBlocks start (min (min byteLen.toNat size) fsFilebufLen) 0 nblocks filebuf.list

/-- `Buf::from_str`: the bytes that are copied, and looked at by `as_str`. -/
def fromStr (N : Nat) (s : Text) : Except Panic Text := do
  let k := boundaryBelow s (min s.length N)
  let src ← range s 0 k
  let bytes ← copy (List.replicate N 0) 0 k src
  range bytes 0 k

/-- `heal::install` of a parsed record that names a cause. -/
def install (rec : KbRecord) (start : UInt32) : Io Bool :=
  if rec.matchCause.isSome then do
    let _ ← Prog.lift do
      let _ ← fromStr 16 rec.id
      let _ ← fromStr 96 rec.title
      let _ ← fromStr 256 rec.playbook
      fromStr 24 (rec.matchCause.getD [])
    installRecord rec start
  else return false

/-- The loop of `kb_loader_task`, with the numbers of entries it has scanned and loaded. -/
def entries (filebuf : Nat → Bytes fsFilebufLen) (dir : List UInt8) :
    List Nat → Nat → Nat → Io (Nat × Nat)
  | [], scanned, loaded => return (scanned, loaded)
  | i :: rest, scanned, loaded => do
    match ← Prog.lift (entryAt dir i) with
    | none => return (scanned, loaded)
    | some ent =>
      let scanned ← Prog.lift (addUsize scanned 1)
      match ← readExtentHead (filebuf i) ent.startBlock ent.byteLen with
      | none => entries filebuf dir rest scanned loaded
      | some bytes =>
        match Kb.parse bytes with
        | none => entries filebuf dir rest scanned loaded
        | some rec =>
          let installed ← install rec ent.startBlock
          let loaded ← Prog.lift (if installed then addUsize loaded 1 else .ok loaded)
          entries filebuf dir rest scanned loaded

/-- The scan of `kb_loader_task` with a disk; `filebuf i` is what `FS_FILEBUF` holds when
entry `i` is read. -/
def kbScan (filebuf : Nat → Bytes fsFilebufLen) : Io (Nat × Nat) := do
  match ← fsCopyBlock 0 with
  | none => return (0, 0)
  | some sbBuf =>
    match ← Prog.lift (decodeSuperblock sbBuf.list) with
    | none => return (0, 0)
    | some sb =>
      match ← fsCopyBlock sb.dirBlock with
      | none => return (0, 0)
      | some b =>
        let dir ← Prog.lift (copy (List.replicate blockSize 0) 0 blockSize b.list)
        entries filebuf dir (List.range sb.dirEntries.toNat) 0 0

theorem range_ok {bs : List UInt8} {start stop : Nat} (h : start ≤ stop ∧ stop ≤ bs.length) :
    range bs start stop = .ok (slice bs start (stop - start)) := if_pos h

theorem range_zero {bs : List UInt8} {k : Nat} (h : k ≤ bs.length) :
    range bs 0 k = .ok (bs.take k) := by
  rw [range_ok ⟨Nat.zero_le _, h⟩, slice, List.drop_zero, Nat.sub_zero]

theorem copy_ok {dst part : List UInt8} {start stop : Nat}
    (h : start ≤ stop ∧ stop ≤ dst.length ∧ part.length = stop - start) :
    copy dst start stop part = .ok (splice dst start part) := if_pos h

theorem copy_zero {dst part : List UInt8} {k : Nat} (hk : k ≤ dst.length)
    (hpart : part.length = k) : copy dst 0 k part = .ok (part ++ dst.drop k) := by
  rw [copy_ok ⟨Nat.zero_le _, hk, by rw [hpart, Nat.sub_zero]⟩, splice, List.take_zero,
    List.nil_append, Nat.zero_add, hpart]

theorem readU32_ok {bs : List UInt8} {off : Nat} (h : off + 4 ≤ bs.length) :
    readU32 bs off = .ok (fromLeBytes bs off) := if_pos h

theorem addUsize_ok {x y : Nat} (h : x + y < 2 ^ 64) : addUsize x y = .ok (x + y) := if_pos h

theorem subUsize_ok {x y : Nat} (h : y ≤ x) : subUsize x y = .ok (x - y) := if_pos h

theorem mulUsize_ok {x y : Nat} (h : x * y < 2 ^ 64) : mulUsize x y = .ok (x * y) := if_pos h

theorem ok_bind {α β : Type} (a : α) (f : α → Except Panic β) : (Except.ok a >>= f) = f a := rfl

theorem decodeSuperblock_eq (block : List UInt8) :
    decodeSuperblock block = .ok (Superblock.decode block) := by
  rw [decodeSuperblock, Superblock.decode]
  split
  · rfl
  · simp (disch := omega) only [readU32_ok, ok_bind]
    split
    · rfl
    · rfl

theorem decodeEntry_eq {e : List UInt8} (h : e.length = direntSize) :
    decodeEntry e = .ok (DirEntry.decode e) := by
  rw [direntSize] at h
  have hlen : (e.take nameLen).length = nameLen := by
    rw [List.length_take, h]
    decide
  have hpad : Bytes.pad nameLen (e.take nameLen ++ (List.replicate nameLen 0).drop nameLen) =
      .pad nameLen e := by
    rw [List.drop_of_length_le (by rw [List.length_replicate]), List.append_nil,
      ← Bytes.pad_append hlen (e.drop nameLen), List.take_append_drop]
  rw [decodeEntry, range_zero (by rw [h]; decide), ok_bind,
    copy_zero (by rw [List.length_replicate]) hlen, ok_bind, readU32_ok (by rw [h]; decide),
    ok_bind, readU32_ok (by rw [h]; decide), ok_bind, hpad]
  rfl

theorem entryAt_eq (dir : List UInt8) {i : Nat} (hi : i < 2 ^ 32) :
    entryAt dir i = .ok (dirEntryAt dir i) := by
  have hmul : i * direntSize < 2 ^ 63 := by
    simp only [direntSize]
    omega
  have hstop : i * direntSize + direntSize < 2 ^ 64 := by
    simp only [direntSize] at hmul ⊢
    omega
  rw [entryAt, mulUsize_ok (by omega), ok_bind, addUsize_ok hstop, ok_bind, dirEntryAt]
  split
  case isTrue => rfl
  case isFalse hin =>
    have hslot : i * direntSize + direntSize ≤ dir.length := by omega
    rw [range_ok ⟨Nat.le_add_right _ _, hslot⟩, ok_bind, Nat.add_sub_cancel_left,
      decodeEntry_eq (length_slice hslot)]
    rfl

theorem fromStr_eq (N : Nat) (s : Text) : fromStr N s = .ok (Buf.fromStr N s).text := by
  have hk := boundaryBelow_le s (min s.length N)
  generalize hb : boundaryBelow s (min s.length N) = k at hk
  have hlen : (s.take k).length = k := by
    rw [List.length_take]
    omega
  have hsame : (Buf.fromStr N s).text = s.take k := by rw [← hb]; rfl
  simp only [fromStr, hb]
  rw [range_zero (by omega), ok_bind, copy_zero (by rw [List.length_replicate]; omega) hlen,
    ok_bind, range_zero (by rw [List.length_append, hlen]; omega), List.take_left' hlen, hsame]

theorem install_eq (rec : KbRecord) (start : UInt32) :
    install rec start = installRecord rec start := by
  rw [install, fromStr_eq, ok_bind, fromStr_eq, ok_bind, fromStr_eq, ok_bind, fromStr_eq,
    Prog.lift_ok_bind, installRecord]
  split
  · rfl
  · rfl

theorem length_take_block (blk : Block) (k : Nat) :
    (blk.list.take (min blockSize k)).length = min blockSize k := by
  rw [List.length_take, blk.size, Nat.min_eq_left (Nat.min_le_left ..)]

theorem copy_block_ok {filebuf : Text} {i off len : Nat} (blk : Block) (hfb : len ≤ filebuf.length)
    (hlen : len < 2 ^ 64) (hi : i * blockSize = off) (hoff : off ≤ len) :
    (do
      let off ← mulUsize i blockSize
      let rest ← subUsize len off
      let stop ← addUsize off (min blockSize rest)
      let part ← range blk.list 0 (min blockSize rest)
      copy filebuf off stop part) =
      .ok (splice filebuf off (blk.list.take (min blockSize (len - off)))) := by
  have hpart := length_take_block blk (len - off)
  have hsize : min blockSize (len - off) ≤ blk.list.length := by
    rw [blk.size]
    exact Nat.min_le_left ..
  have hstop : off + min blockSize (len - off) ≤ len := by
    have := Nat.min_le_right blockSize (len - off)
    omega
  rw [mulUsize_ok (by omega), hi, ok_bind, subUsize_ok hoff, ok_bind, addUsize_ok (by omega),
    ok_bind, range_zero hsize, ok_bind,
    copy_ok ⟨Nat.le_add_right _ _, by omega, by rw [hpart, Nat.add_sub_cancel_left]⟩]

theorem take_splice {bs part : List UInt8} {off : Nat} (h : off ≤ bs.length) :
    (splice bs off part).take (off + part.length) = bs.take off ++ part := by
  have hlen : (bs.take off ++ part).length = off + part.length := by
    rw [List.length_append, List.length_take_of_le h]
  rw [splice, List.take_left' hlen]

/-- The buffer holds what the loop has read of the extent, and no slice of it is out of
bounds. -/
theorem readBlocks_eq {start : UInt32} {len : Nat} (hlen : len < 2 ^ 64) (n i : Nat)
    (filebuf : Text) (hfb : len ≤ filebuf.length) (hend : len ≤ (i + n) * blockSize)
    (hlast : (i + n) * blockSize < len + blockSize) :
    readBlocks start len i n filebuf =
      fsReadBlocks start len i n (filebuf.take (min (i * blockSize) len)) := by
  induction n generalizing i filebuf with
  | zero =>
    have hend : len ≤ i * blockSize := hend
    rw [readBlocks, fsReadBlocks, range_zero hfb, Prog.lift_ok_bind, Nat.min_eq_right hend]
  | succ n ih =>
    have hoff : i * blockSize ≤ len := by
      rw [show i + (n + 1) = i + n + 1 by omega, Nat.succ_mul] at hlast
      have := Nat.mul_le_mul_right blockSize (Nat.le_add_right i n)
      omega
    rw [readBlocks, fsReadBlocks]
    congr 1
    funext block
    congr 1
    funext b
    cases b with
    | none => rfl
    | some blk =>
      have hpart := length_take_block blk (len - i * blockSize)
      have hread : min ((i + 1) * blockSize) len =
          i * blockSize + min blockSize (len - i * blockSize) := by
        rw [Nat.succ_mul]
        omega
      have hlong : (splice filebuf (i * blockSize)
          (blk.list.take (min blockSize (len - i * blockSize)))).length = filebuf.length := by
        apply length_splice
        rw [hpart, ← hread]
        exact (Nat.min_le_right ..).trans hfb
      have hround : i + 1 + n = i + (n + 1) := by omega
      dsimp only
      rw [copy_block_ok blk hfb hlen rfl hoff, Prog.lift_ok_bind, ih (i + 1) _ (hlong ▸ hfb)
        (hround ▸ hend) (hround ▸ hlast), hread, Nat.min_eq_left hoff]
      congr 1
      rw [← take_splice (hoff.trans hfb), hpart]

theorem head_len (byteLen : Nat) :
    let n := min ((byteLen + 511) / 512) kbHeadBlocks
    let len := min (min byteLen (n * blockSize)) fsFilebufLen
    len ≤ n * blockSize ∧ n * blockSize < len + blockSize ∧ n * blockSize < 2 ^ 64 := by
  dsimp only [kbHeadBlocks, blockSize, fsFilebufLen]
  omega

theorem readExtentHead_eq (filebuf : Bytes fsFilebufLen) (start byteLen : UInt32) :
    readExtentHead filebuf start byteLen = fsReadExtentHead start byteLen := by
  have hover := blockCount_overflow (n := byteLen)
  have hblocks := blockCount_ok (n := byteLen)
  unfold readExtentHead fsReadExtentHead
  generalize blockCount byteLen = b at hblocks hover ⊢
  by_cases hlen : byteLen.toNat + 512 < 2 ^ 32
  · obtain ⟨count, rfl, hcount⟩ := hblocks hlen
    obtain ⟨hend, hlast, hsize⟩ := head_len byteLen.toNat
    rw [Prog.lift_ok_bind, Prog.lift_ok_bind, hcount]
    dsimp only
    rw [mulUsize_ok hsize, Prog.lift_ok_bind, readBlocks_eq (hend.trans_lt hsize)]
    · rw [Nat.zero_mul, Nat.zero_min, List.take_zero]
    · rw [filebuf.size]
      exact Nat.min_le_right ..
    · rwa [Nat.zero_add]
    · rwa [Nat.zero_add]
  · rw [hover hlen]
    rfl

theorem entries_eq {filebuf : Nat → Bytes fsFilebufLen} {dir : List UInt8} (idx : List Nat)
    (scanned loaded : Nat) (hidx : ∀ i ∈ idx, i < 2 ^ 32) (hscanned : scanned + idx.length < 2 ^ 64)
    (hloaded : loaded + idx.length < 2 ^ 64) :
    (entries filebuf dir idx scanned loaded >>= fun _ => .ret ()) = loadEntries dir idx := by
  induction idx generalizing scanned loaded with
  | nil => rfl
  | cons i idx ih =>
    rw [List.length_cons] at hscanned hloaded
    have ih (scanned' loaded' : Nat) (hs : scanned' ≤ scanned + 1) (hl : loaded' ≤ loaded + 1) :=
      ih scanned' loaded' (fun j hj => hidx j (List.mem_cons_of_mem _ hj)) (by omega) (by omega)
    unfold entries loadEntries
    rw [entryAt_eq dir (hidx i List.mem_cons_self), Prog.lift_ok_bind]
    cases dirEntryAt dir i with
    | none => rfl
    | some ent =>
      dsimp only
      rw [addUsize_ok (by omega), Prog.lift_ok_bind, readExtentHead_eq, Prog.bind_assoc]
      congr 1
      funext r
      cases r with
      | none => exact ih _ _ (Nat.le_refl _) (Nat.le_succ _)
      | some bytes =>
        dsimp only
        cases Kb.parse bytes with
        | none => exact ih _ _ (Nat.le_refl _) (Nat.le_succ _)
        | some rec =>
          dsimp only
          rw [install_eq, Prog.bind_assoc]
          congr 1
          funext installed
          cases installed with
          | false => exact ih _ _ (Nat.le_refl _) (Nat.le_succ _)
          | true =>
            rw [if_pos rfl, addUsize_ok (by omega), Prog.lift_ok_bind]
            exact ih _ _ (Nat.le_refl _) (Nat.le_refl _)

theorem kbScan_eq (filebuf : Nat → Bytes fsFilebufLen) :
    (kbScan filebuf >>= fun _ => .ret ()) = kbLoader := by
  rw [kbScan, kbLoader, Prog.bind_assoc]
  congr 1
  funext sbBuf
  cases sbBuf with
  | none => rfl
  | some sbBuf =>
    dsimp only
    rw [decodeSuperblock_eq, Prog.lift_ok_bind]
    cases Superblock.decode sbBuf.list with
    | none => rfl
    | some sb =>
      dsimp only
      rw [Prog.bind_assoc]
      congr 1
      funext dir
      cases dir with
      | none => rfl
      | some dir =>
        have hcopy : copy (List.replicate blockSize 0) 0 blockSize dir.list = .ok dir.list := by
          rw [copy_zero (by rw [List.length_replicate]) dir.size,
            List.drop_of_length_le (by rw [List.length_replicate]), List.append_nil]
        have hcount := sb.dirEntries.toNat_lt
        dsimp only
        rw [hcopy, Prog.lift_ok_bind]
        refine entries_eq _ 0 0 (fun i hi => ?_) ?_ ?_
        · exact (List.mem_range.mp hi).trans hcount
        · rw [List.length_range]
          omega
        · rw [List.length_range]
          omega

end Scan

end Perenne

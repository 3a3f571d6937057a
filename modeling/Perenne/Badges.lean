import Perenne.Recognition

namespace Perenne

/-- What `blk_component` makes of a badge: whether it is a write, and of which block. -/
def decodeBadge (badge : Nat) : Bool × Nat :=
  (badge &&& blkWriteFlag != 0, badge - (badge &&& blkWriteFlag))

theorem serve_decodeBadge (w : World) (badge : Nat) :
    w.serve .done badge = some (0, w.transfer (decodeBadge badge).1 (decodeBadge badge).2) :=
  rfl

theorem decodeBadge_read {n : Nat} (hn : n < 2 ^ 31) : decodeBadge n = (false, n) := by
  rw [decodeBadge, and_blkWriteFlag hn]
  rfl

theorem decodeBadge_write {n : Nat} (hn : n < 2 ^ 31) :
    decodeBadge (n ||| blkWriteFlag) = (true, n) := by
  obtain ⟨hflag, hblock⟩ := or_blkWriteFlag hn
  rw [decodeBadge, hflag, hblock]
  rfl

theorem decodeBadge_high {n : Nat} (hlow : 2 ^ 31 ≤ n) (hhigh : n < 2 ^ 32) :
    (decodeBadge n).1 = true := by
  have hbit : n.testBit 31 = true := Nat.testBit_of_two_pow_le_and_two_pow_add_one_gt hlow hhigh
  have hflag : n &&& blkWriteFlag = 2 ^ 31 := by
    rw [blkWriteFlag, Nat.and_two_pow, hbit]
    rfl
  rw [decodeBadge, hflag]
  rfl

theorem sends_fsReadBlock {n : UInt32} {badge : Nat} :
    Prog.Sends (fsReadBlock n) badge ↔ badge = n.toNat := by
  constructor
  · intro h
    obtain _ | _ | ⟨w, h⟩ := h
    change Prog.Sends (if w.cached = n.toNat then _ else _) badge at h
    split at h
    case isTrue => cases h
    case isFalse =>
      obtain _ | ⟨status, h⟩ := h
      case here => rfl
      case answered =>
        change Prog.Sends (if status ≠ 0 then _ else _) badge at h
        split at h
        · obtain _ | _ | ⟨_, h⟩ := h
          cases h
        · obtain _ | _ | ⟨_, h⟩ := h
          cases h
  · rintro rfl
    let w : World := ⟨fun _ => .pad blockSize [], .pad blockSize [], -1, .empty⟩
    have hmiss : ¬ w.cached = n.toNat := by
      change ¬ (-1 : Int) = n.toNat
      omega
    refine .acted w ?_
    dsimp only [Prog.bind]
    rw [if_neg hmiss]
    exact .here

theorem sends_fsWriteBlock {n : UInt32} {bytes : List UInt8} {badge : Nat} :
    Prog.Sends (fsWriteBlock n bytes) badge ↔ badge = n.toNat ||| blkWriteFlag := by
  let w : World := ⟨fun _ => .pad blockSize [], .pad blockSize [], -1, .empty⟩
  constructor
  · intro h
    obtain _ | _ | ⟨_, h⟩ := h
    obtain _ | _ | ⟨_, h⟩ := h
    obtain _ | _ | ⟨_, h⟩ := h
    obtain _ | ⟨_, h⟩ := h
    case here => rfl
    case answered => cases h
  · rintro rfl
    exact .acted w (.acted w (.acted w .here))

/-- The block numbers the loader takes from the disk are below `BLK_WRITE_FLAG`. -/
structure SmallBlocks (disk : Nat → Block) : Prop where
  directory (sb : Superblock) (hsb : Superblock.decode (disk 0).list = some sb) :
    sb.dirBlock.toNat < 2 ^ 31
  extents (sb : Superblock) (hsb : Superblock.decode (disk 0).list = some sb) (i : Nat)
    (hi : i < sb.dirEntries.toNat) (ent : DirEntry)
    (hent : dirEntryAt (disk sb.dirBlock.toNat).list i = some ent)
    (hbytes : 0 < ent.byteLen.toNat) (hlen : ent.byteLen.toNat + 512 < 2 ^ 32) :
    ent.startBlock.toNat + min ((ent.byteLen.toNat + 511) / 512) kbHeadBlocks ≤ 2 ^ 31

section Reads

variable {disk : Nat → Block} {w : World}

/-- What is said of a part of the loader: the disk stays, and the cache is true after it. -/
abbrev ReadsOnly (disk : Nat → Block) {α : Type} (Post : α → World → Prop) (p : Io α)
    (w : World) : Prop :=
  FsSound World.serve Crashed (fun _ _ => True) (fun w' => w'.disk = disk) (fun _ => True)
    (fun a w' => w'.disk = disk ∧ w'.Coherent ∧ Post a w') p w

theorem readsOnly_ret {α : Type} {Post : α → World → Prop} {a : α} (hd : w.disk = disk)
    (hw : w.Coherent) (hpost : ∀ w', Post a w') : ReadsOnly disk Post (.ret a) w :=
  fun w' h => ⟨h.disk.trans hd, h.disk.trans hd, hw.others h, hpost w'⟩

theorem fsCopyBlock_reads {n : UInt32} (hn : n.toNat < 2 ^ 31) (hd : w.disk = disk)
    (hw : w.Coherent) :
    ReadsOnly disk (fun b _ => ∀ page, b = some page → page = disk n.toNat) (fsCopyBlock n) w := by
  apply (fsCopyBlock_sound crashed_client hn hw fun w' h _ => h.trans hd).mono
  rintro b w' ⟨hd', -, hco, hpage, -⟩
  exact ⟨hd'.trans hd, hco, fun page hp => hd ▸ hpage page hp⟩

theorem blockCount_overflow {n : UInt32} (h : ¬ n.toNat + 512 < 2 ^ 32) :
    blockCount n = .error .overflow := by
  have hsum : addU32 n 512 = .error .overflow := if_neg h
  rw [blockCount, hsum]
  rfl

theorem fsReadExtentHead_reads {start byteLen : UInt32} (hd : w.disk = disk) (hw : w.Coherent)
    (hend : 0 < byteLen.toNat → byteLen.toNat + 512 < 2 ^ 32 →
      start.toNat + min ((byteLen.toNat + 511) / 512) kbHeadBlocks ≤ 2 ^ 31) :
    ReadsOnly disk (fun _ _ => True) (fsReadExtentHead start byteLen) w := by
  have hover := blockCount_overflow (n := byteLen)
  have hblocks := blockCount_ok (n := byteLen)
  unfold fsReadExtentHead
  -- The count stays symbolic, or the goal would compute with it.
  generalize blockCount byteLen = b at hblocks hover ⊢
  by_cases hlen : byteLen.toNat + 512 < 2 ^ 32
  · obtain ⟨count, rfl, hcount⟩ := hblocks hlen
    rw [Prog.lift_ok_bind, hcount]
    obtain hempty | hbytes := Nat.eq_zero_or_pos byteLen.toNat
    · rw [hempty]
      exact readsOnly_ret hd hw fun _ => trivial
    have hend := hend hbytes hlen
    refine (fsReadBlocks_sound crashed_client _ 0 _ [] (by omega) hw fun w' h _ => h.trans hd).mono ?_
    rintro r w' ⟨hd', -, hco, -⟩
    exact ⟨hd'.trans hd, hco, trivial⟩
  · -- `block_count` overflows before anything is read.
    rw [hover hlen]
    exact fun w' h => ⟨h.disk.trans hd, trivial⟩

theorem loadEntries_reads {dir : List UInt8} {idx : List Nat}
    (hdir : ∀ i ∈ idx, ∀ ent, dirEntryAt dir i = some ent → 0 < ent.byteLen.toNat →
      ent.byteLen.toNat + 512 < 2 ^ 32 →
      ent.startBlock.toNat + min ((ent.byteLen.toNat + 511) / 512) kbHeadBlocks ≤ 2 ^ 31)
    (hd : w.disk = disk) (hw : w.Coherent) :
    ReadsOnly disk (fun _ _ => True) (loadEntries dir idx) w := by
  induction idx generalizing w with
  | nil => exact readsOnly_ret hd hw fun _ => trivial
  | cons i idx ih =>
    have ih {w : World} (hd : w.disk = disk) (hw : w.Coherent) :=
      ih (fun j hj => hdir j (.tail _ hj)) hd hw
    unfold loadEntries
    cases hent : dirEntryAt dir i with
    | none => exact readsOnly_ret hd hw fun _ => trivial
    | some ent =>
      apply Prog.Sound.bind crashed_client.lawful
      apply (fsReadExtentHead_reads hd hw (hdir i (.head _) ent hent)).mono
      rintro r w₁ ⟨hd₁, hco₁, -⟩
      cases r with
      | none => exact ih hd₁ hco₁
      | some bytes =>
      dsimp only
      cases Kb.parse bytes with
      | none => exact ih hd₁ hco₁
      | some rec =>
      dsimp only
      unfold installRecord
      split
      case isFalse => exact ih hd₁ hco₁
      case isTrue =>
        intro w₂ h₂
        refine ⟨h₂.disk.trans hd₁, trivial, ?_⟩
        exact ih (h₂.disk.trans hd₁) ((hco₁.others h₂).withHeal _)

theorem kbLoader_reads (hsmall : SmallBlocks w.disk) (hw : w.Coherent) :
    ReadsOnly w.disk (fun _ _ => True) kbLoader w := by
  unfold kbLoader
  apply Prog.Sound.bind crashed_client.lawful
  apply (fsCopyBlock_reads (by decide) rfl hw).mono
  rintro sbBuf w₁ ⟨hd₁, hco₁, hbuf⟩
  cases sbBuf with
  | none => exact readsOnly_ret hd₁ hco₁ fun _ => trivial
  | some sbBuf =>
  obtain rfl := hbuf _ rfl
  dsimp only
  cases hsb : Superblock.decode (w.disk (UInt32.toNat 0)).list with
  | none => exact readsOnly_ret hd₁ hco₁ fun _ => trivial
  | some sb =>
  dsimp only
  apply Prog.Sound.bind crashed_client.lawful
  apply (fsCopyBlock_reads (hsmall.directory sb hsb) hd₁ hco₁).mono
  rintro dir w₂ ⟨hd₂, hco₂, hbuf⟩
  cases dir with
  | none => exact readsOnly_ret hd₂ hco₂ fun _ => trivial
  | some dir =>
  obtain rfl := hbuf _ rfl
  exact loadEntries_reads (fun i hi => hsmall.extents sb hsb i (List.mem_range.mp hi)) hd₂ hco₂

end Reads

/-- The badge of a request says what the caller asked for exactly for block numbers below
`BLK_WRITE_FLAG`; where the disk has no others, the loader leaves it as it is, whatever the
device answers and whenever components crash. -/
theorem block_requests_decoded (n : UInt32) (disk : Nat → Block) (page : Block) :
    (((∀ badge, Prog.Sends (fsReadBlock n) badge → decodeBadge badge = (false, n.toNat)) ∧
      ∀ bytes badge, Prog.Sends (fsWriteBlock n bytes) badge →
        decodeBadge badge = (true, n.toNat)) ↔ n.toNat < 2 ^ 31) ∧
    (SmallBlocks disk → ∀ ms p w,
      loaderRun World.serve ⟨disk, page, -1, .empty⟩ ms = some (p, w) → w.disk = disk) := by
  refine ⟨⟨fun h => ?_, fun hn => ⟨?_, ?_⟩⟩, fun hsmall ms p w hrun => ?_⟩
  · by_contra hhigh
    have hread := h.1 n.toNat (sends_fsReadBlock.mpr rfl)
    have hwrite := decodeBadge_high (Nat.le_of_not_lt hhigh) n.toNat_lt
    rw [hread] at hwrite
    cases hwrite
  · intro badge hsend
    rw [sends_fsReadBlock.mp hsend]
    exact decodeBadge_read hn
  · intro bytes badge hsend
    rw [sends_fsWriteBlock.mp hsend]
    exact decodeBadge_write hn
  · have hsound := kbLoader_reads (w := ⟨disk, page, -1, .empty⟩) hsmall
      (World.coherent_of_reboot _ _ _)
    exact (hsound.run crashed_client.lawful crash_others hrun).inv (crashed_client.others_refl w)

/-- A volume with one file, of 600 zero bytes in blocks 2 and 3. -/
def oneFileDisk : Nat → Block :=
  Function.update (Function.update (fun _ => .pad blockSize [])
    0 (.pad blockSize (Superblock.bytes ⟨fsMagic, fsVersion, 512, 1, 1, 4⟩)))
    1 (.pad blockSize (DirEntry.bytes (.new (utf8 "KB-0001.md") 2 600)))

theorem smallBlocks_oneFile : SmallBlocks oneFileDisk := by
  have hone : Superblock.decode (oneFileDisk 0).list =
      some ⟨fsMagic, fsVersion, 512, 1, 1, 4⟩ := by
    decide +kernel
  have hslot : dirEntryAt (oneFileDisk 1).list 0 = some (.new (utf8 "KB-0001.md") 2 600) := by
    decide +kernel
  refine ⟨fun sb hsb => ?_, fun sb hsb i hi ent hent _ _ => ?_⟩
  · obtain rfl := Option.some.inj (hone.symm.trans hsb)
    decide
  · obtain rfl := Option.some.inj (hone.symm.trans hsb)
    obtain rfl := Nat.lt_one_iff.mp hi
    obtain rfl := Option.some.inj (hslot.symm.trans hent)
    decide

/-- The loader on that volume gets block 2, and the device fails to read block 3. -/
theorem block_requests_decoded_file : ∃ p w,
    loaderRun World.serve ⟨oneFileDisk, .pad blockSize [], -1, .empty⟩ [.run, .serve .done, .run,
      .run, .run, .serve .done, .run, .run, .run, .serve .done, .run, .run, .run,
      .serve (.failed 1 false (.pad blockSize [])), .run] = some (p, w) ∧
    w.disk = oneFileDisk := by
  have heval : (loaderRun World.serve ⟨oneFileDisk, .pad blockSize [], -1, .empty⟩ [.run,
      .serve .done, .run, .run, .run, .serve .done, .run, .run, .run, .serve .done, .run, .run, .run,
      .serve (.failed 1 false (.pad blockSize [])), .run]).isSome := by
    decide +kernel
  obtain ⟨⟨p, w⟩, hrun⟩ := Option.isSome_iff_exists.mp heval
  exact ⟨p, w, hrun, (block_requests_decoded 0 _ _).2 smallBlocks_oneFile _ p w hrun⟩

/-- A superblock that names a directory block with the high bit set. -/
def hostileDisk : Nat → Block :=
  Function.update (fun _ => .pad blockSize []) 0 (.pad blockSize (Superblock.encode
    ⟨fsMagic, fsVersion, 512, 0x80000005, 0, dataStartBlock⟩ (List.replicate blockSize 0)))

/-- Reading block `0x80000005` writes block 5, and a disk that names it as its directory
makes the loader overwrite block 5 with the superblock. -/
theorem block_read_writes :
    (Prog.Sends (fsReadBlock 0x80000005) 0x80000005 ∧ decodeBadge 0x80000005 = (true, 5)) ∧
    ∃ p w, loaderRun World.serve ⟨hostileDisk, .pad blockSize [], -1, .empty⟩
        [.run, .serve .done, .run, .run, .run, .serve .done] = some (p, w) ∧
      w.disk 5 = hostileDisk 0 ∧ w.disk 5 ≠ hostileDisk 5 := by
  refine ⟨⟨sends_fsReadBlock.mpr rfl, by decide⟩, ?_⟩
  have heval : (loaderRun World.serve ⟨hostileDisk, .pad blockSize [], -1, .empty⟩
      [.run, .serve .done, .run, .run, .run, .serve .done]).any fun r =>
        r.2.disk 5 == hostileDisk 0 && r.2.disk 5 != hostileDisk 5 := by
    decide +kernel
  obtain ⟨⟨p, w⟩, hrun, hdisk⟩ := Option.any_eq_true _ _ |>.mp heval
  rw [Bool.and_eq_true, beq_iff_eq, bne_iff_ne] at hdisk
  exact ⟨p, w, hrun, hdisk.1, hdisk.2⟩

end Perenne

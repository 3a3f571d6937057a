import Perenne.Requests

namespace Perenne

/-- `byte_len` bytes from the blocks at `start`. -/
def extent (disk : Nat → Block) (start len : Nat) : List UInt8 :=
  ((List.range ((len + 511) / 512)).flatMap fun i => (disk (start + i)).list).take len

/-- The superblock, and the files in directory order. -/
structure Volume where
  superblock : Superblock
  files : List (DirEntry × List UInt8)
deriving DecidableEq

def readVolume (disk : Nat → Block) : Option Volume := do
  let sb ← Superblock.decode (disk 0).list
  let entries ← (List.range sb.dirEntries.toNat).mapM (dirEntryAt (disk sb.dirBlock.toNat).list)
  return ⟨sb, entries.map fun e => (e, extent disk e.startBlock.toNat e.byteLen.toNat)⟩

/-- The volume with one more file, at its end. -/
def Volume.appended (v : Volume) (name : Text) (contents : List UInt8) : Volume where
  superblock := { v.superblock with
    dirEntries := v.superblock.dirEntries + 1
    totalBlocks := v.superblock.totalBlocks + .ofNat ((contents.length + 511) / 512) }
  files := v.files ++ [(.new name v.superblock.totalBlocks (.ofNat contents.length), contents)]

/-- One directory block, extents after it and inside the volume, and block numbers that
stay below `BLK_WRITE_FLAG` until the directory is full. -/
structure Volume.WellFormed (v : Volume) : Prop where
  directory : v.superblock.dirBlock = dirBlockNumber
  count : v.superblock.dirEntries.toNat ≤ direntsPerBlock
  data : dataStartBlock.toNat ≤ v.superblock.totalBlocks.toNat
  room : v.superblock.totalBlocks.toNat + (direntsPerBlock - v.superblock.dirEntries.toNat) < 2 ^ 31
  inside (f : DirEntry × List UInt8) (hf : f ∈ v.files) :
    dataStartBlock.toNat ≤ f.1.startBlock.toNat ∧
      f.1.startBlock.toNat + (f.1.byteLen.toNat + 511) / 512 ≤ v.superblock.totalBlocks.toNat

/-- The volume has a free directory slot, and the contents fit in a block. -/
structure Volume.Takes (v : Volume) (contents : List UInt8) : Prop where
  fits : contents.length ≤ blockSize
  slot : v.superblock.dirEntries.toNat < direntsPerBlock

theorem mapM_eq_some_iff {α β : Type} {f : α → Option β} {l : List α} {r : List β} :
    l.mapM f = some r ↔ l.map f = r.map some := by
  induction l generalizing r with
  | nil => cases r <;> simp
  | cons a l ih =>
    rw [List.mapM_cons, List.map_cons]
    cases hf : f a with
    | none => cases r <;> simp
    | some b =>
      cases r with
      | nil => simp [Option.bind_eq_some_iff]
      | cons b' r =>
        simp only [Option.bind_eq_bind, Option.bind_some, Option.bind_eq_some_iff, ih,
          Option.pure_def, Option.some.injEq, List.cons.injEq, List.map_cons]
        constructor
        · rintro ⟨r', hr', rfl, rfl⟩
          exact ⟨rfl, hr'⟩
        · rintro ⟨rfl, hr'⟩
          exact ⟨r, hr', rfl, rfl⟩

theorem readVolume_eq_some {disk : Nat → Block} {v : Volume} :
    readVolume disk = some v ↔ Superblock.decode (disk 0).list = some v.superblock ∧
      (List.range v.superblock.dirEntries.toNat).map
        (dirEntryAt (disk v.superblock.dirBlock.toNat).list) = v.files.map (fun f => some f.1) ∧
      ∀ f ∈ v.files, f.2 = extent disk f.1.startBlock.toNat f.1.byteLen.toNat := by
  obtain ⟨sb, files⟩ := v
  simp only [readVolume, Option.bind_eq_bind, Option.bind_eq_some_iff, Option.pure_def,
    Option.some.injEq, Volume.mk.injEq, mapM_eq_some_iff]
  constructor
  · rintro ⟨sb', hsb, entries, hentries, rfl, rfl⟩
    refine ⟨hsb, ?_, ?_⟩
    · rw [hentries, List.map_map]
      rfl
    · intro f hf
      obtain ⟨e, -, rfl⟩ := List.mem_map.mp hf
      rfl
  · rintro ⟨hsb, hentries, hdata⟩
    refine ⟨sb, hsb, files.map Prod.fst, ?_, rfl, ?_⟩
    · rw [hentries, List.map_map]
      rfl
    · rw [List.map_map]
      refine (List.map_congr_left fun f hf => ?_).trans (List.map_id files)
      exact Prod.ext rfl (hdata f hf).symm

theorem extent_congr {disk disk' : Nat → Block} {start len : Nat}
    (h : ∀ i < (len + 511) / 512, disk' (start + i) = disk (start + i)) :
    extent disk' start len = extent disk start len := by
  have hblocks : (List.range ((len + 511) / 512)).map (fun i => (disk' (start + i)).list) =
      (List.range ((len + 511) / 512)).map fun i => (disk (start + i)).list :=
    List.map_congr_left fun i hi => by rw [h i (List.mem_range.mp hi)]
  rw [extent, extent, List.flatMap_def, List.flatMap_def, hblocks]

theorem extent_block {disk : Nat → Block} {start : Nat} {contents : List UInt8}
    (hlen : contents.length ≤ blockSize) (h : disk start = .pad blockSize contents) :
    extent disk start contents.length = contents := by
  cases hc : contents with
  | nil => rfl
  | cons b bs =>
    have hone : (contents.length + 511) / 512 = 1 := by
      have : contents.length = bs.length + 1 := by rw [hc]; rfl
      simp only [blockSize] at hlen
      omega
    rw [← hc, extent, hone]
    simp only [List.range_one, List.flatMap_singleton, Nat.add_zero, h, Bytes.pad]
    rw [List.take_of_length_le hlen, List.take_left' rfl]

namespace Volume

variable {v : Volume} {disk : Nat → Block}

theorem files_length (h : readVolume disk = some v) :
    v.files.length = v.superblock.dirEntries.toNat := by
  obtain ⟨-, hentries, -⟩ := readVolume_eq_some.mp h
  have := congrArg List.length hentries
  rw [List.length_map, List.length_map, List.length_range] at this
  exact this.symm

theorem WellFormed.readVolume_past (hv : v.WellFormed) (h : readVolume disk = some v)
    (block : Block) :
    readVolume (Function.update disk v.superblock.totalBlocks.toNat block) = some v := by
  obtain ⟨hsb, hentries, hdata⟩ := readVolume_eq_some.mp h
  have hpast := hv.data
  have htwo : dataStartBlock.toNat = 2 := rfl
  have hdir : v.superblock.dirBlock.toNat = 1 := by rw [hv.directory]; rfl
  refine readVolume_eq_some.mpr ⟨?_, ?_, fun f hf => ?_⟩
  · rwa [Function.update_of_ne (by omega)]
  · rwa [Function.update_of_ne (by omega)]
  · rw [hdata f hf]
    refine (extent_congr fun i hi => ?_).symm
    have hin := (hv.inside f hf).2
    rw [Function.update_of_ne (by omega)]

theorem WellFormed.readVolume_dir (hv : v.WellFormed) (h : readVolume disk = some v)
    {block : Block} (hold : ∀ i < v.superblock.dirEntries.toNat,
      dirEntryAt block.list i = dirEntryAt (disk 1).list i) :
    readVolume (Function.update disk 1 block) = some v := by
  obtain ⟨hsb, hentries, hdata⟩ := readVolume_eq_some.mp h
  have htwo : dataStartBlock.toNat = 2 := rfl
  have hdir : v.superblock.dirBlock.toNat = 1 := by rw [hv.directory]; rfl
  refine readVolume_eq_some.mpr ⟨?_, ?_, fun f hf => ?_⟩
  · rwa [Function.update_of_ne (by omega)]
  · rw [hdir] at hentries ⊢
    rw [Function.update_self, ← hentries]
    exact List.map_congr_left fun i hi => hold i (List.mem_range.mp hi)
  · rw [hdata f hf]
    refine (extent_congr fun i hi => ?_).symm
    have hin := (hv.inside f hf).1
    rw [Function.update_of_ne (by omega)]

theorem dirEntries_succ (h : v.superblock.dirEntries.toNat < direntsPerBlock) :
    (v.superblock.dirEntries + 1).toNat = v.superblock.dirEntries.toNat + 1 := by
  have hone : (1 : UInt32).toNat = 1 := rfl
  simp only [direntsPerBlock, blockSize, direntSize] at h
  rw [UInt32.toNat_add]
  exact Nat.mod_eq_of_lt (by omega)

theorem toNat_ofNat_length {contents : List UInt8} (h : contents.length ≤ blockSize) :
    (UInt32.ofNat contents.length).toNat = contents.length := by
  rw [UInt32.toNat_ofNat']
  simp only [blockSize] at h
  exact Nat.mod_eq_of_lt (by omega)

theorem WellFormed.totalBlocks_appended (hv : v.WellFormed) {contents : List UInt8}
    (h : v.Takes contents) :
    (v.superblock.totalBlocks + .ofNat ((contents.length + 511) / 512)).toNat =
      v.superblock.totalBlocks.toNat + (contents.length + 511) / 512 := by
  have hroom := hv.room
  have hfits := h.fits
  simp only [blockSize] at hfits
  rw [UInt32.toNat_add, UInt32.toNat_ofNat']
  omega

theorem WellFormed.appended (hv : v.WellFormed) (name : Text) {contents : List UInt8}
    (h : v.Takes contents) : (v.appended name contents).WellFormed := by
  have hroom := hv.room
  have hdata := hv.data
  have hone := dirEntries_succ h.slot
  have hlen := toNat_ofNat_length h.fits
  have hfits := h.fits
  have hslot := h.slot
  simp only [blockSize, direntsPerBlock, direntSize] at hfits hslot hroom
  have htotal := hv.totalBlocks_appended h
  refine ⟨hv.directory, ?_, ?_, ?_, fun f hf => ?_⟩
  · change (v.superblock.dirEntries + 1).toNat ≤ direntsPerBlock
    rw [hone]
    exact h.slot
  · change dataStartBlock.toNat ≤ (v.superblock.totalBlocks + _).toNat
    rw [htotal]
    exact Nat.le_add_right_of_le hdata
  · change (v.superblock.totalBlocks + _).toNat +
      (direntsPerBlock - (v.superblock.dirEntries + 1).toNat) < 2 ^ 31
    simp only [htotal, hone, direntsPerBlock, blockSize, direntSize]
    omega
  · change _ ∧ _ ≤ (v.superblock.totalBlocks + _).toNat
    rw [htotal]
    obtain hf | hf := List.mem_append.mp hf
    · obtain ⟨hlow, hhigh⟩ := hv.inside f hf
      exact ⟨hlow, Nat.le_add_right_of_le hhigh⟩
    · obtain rfl := List.mem_singleton.mp hf
      exact ⟨hdata, by simp only [DirEntry.new, hlen]; exact Nat.le_refl _⟩

section Commit

variable {name : Text} {contents : List UInt8} {plan : AppendPlan}

theorem superblock_appended {dir : List UInt8} (hlen : contents.length ≤ blockSize)
    (hplan : plan.Extends v.superblock dir name (.ofNat contents.length)) :
    plan.newSuperblock = (v.appended name contents).superblock := by
  obtain ⟨d, t, hsb, hd, ht⟩ := hplan.superblock
  have hlt := d.toNat_lt
  have hlt' := t.toNat_lt
  have hd' : d = v.superblock.dirEntries + 1 := by
    apply UInt32.toNat_inj.mp
    rw [UInt32.toNat_add, hd]
    exact (Nat.mod_eq_of_lt (by omega)).symm
  have ht' : t = v.superblock.totalBlocks + .ofNat ((contents.length + 511) / 512) := by
    apply UInt32.toNat_inj.mp
    simp only [blockSize] at hlen
    rw [UInt32.toNat_ofNat'] at ht
    rw [UInt32.toNat_add, UInt32.toNat_ofNat']
    omega
  rw [hsb, hd', ht']
  rfl

theorem WellFormed.readVolume_commit (hv : v.WellFormed) (h : readVolume disk = some v)
    {dir : List UInt8} (htakes : v.Takes contents)
    (hplan : plan.Extends v.superblock dir name (.ofNat contents.length))
    (hdirectory : disk 1 = plan.dirBlock)
    (hcontents : disk v.superblock.totalBlocks.toNat = .pad blockSize contents) :
    readVolume (Function.update disk 0 (.pad blockSize
      (plan.newSuperblock.encode (List.replicate blockSize 0)))) =
        some (v.appended name contents) := by
  obtain ⟨hsb, hentries, hdata⟩ := readVolume_eq_some.mp h
  obtain ⟨hlen, hcount⟩ := htakes
  obtain ⟨hmagic, hversion⟩ := Superblock.decode_some hsb
  have hnew := superblock_appended hlen hplan
  have htwo : dataStartBlock.toNat = 2 := rfl
  have hdir : v.superblock.dirBlock.toNat = 1 := by rw [hv.directory]; rfl
  have hfull : 24 ≤ (List.replicate blockSize (0 : UInt8)).length := by
    rw [List.length_replicate]
    decide
  have hsize : (plan.newSuperblock.encode (List.replicate blockSize 0)).length = blockSize := by
    rw [Superblock.length_encode _ hfull, List.length_replicate]
  have hone := dirEntries_succ hcount
  have hsmall := toNat_ofNat_length hlen
  refine readVolume_eq_some.mpr ⟨?_, ?_, fun f hf => ?_⟩
  · rw [Function.update_self, Bytes.pad_list hsize, ← hnew]
    apply Superblock.decode_encode
    · rw [hnew]
      exact hmagic
    · rw [hnew]
      exact hversion
  · change (List.range (v.superblock.dirEntries + 1).toNat).map (dirEntryAt (Function.update disk 0 _
      v.superblock.dirBlock.toNat).list) = _
    rw [hdir, hdirectory] at hentries
    rw [hone, hdir, Function.update_of_ne (by omega), hdirectory, List.range_succ, List.map_append,
      List.map_singleton, hplan.new, hentries]
    simp only [Volume.appended, List.map_append, List.map_cons, List.map_nil]
  · obtain hf | hf := List.mem_append.mp hf
    · rw [hdata f hf]
      refine (extent_congr fun i hi => ?_).symm
      have hin := (hv.inside f hf).1
      rw [Function.update_of_ne (by omega)]
    · obtain rfl := List.mem_singleton.mp hf
      have hpast := hv.data
      dsimp only [DirEntry.new]
      rw [hsmall]
      refine (extent_block hlen ?_).symm
      rw [Function.update_of_ne (by omega), hcontents]

end Commit

end Volume

section Append

variable {φ : Type} {serve : φ → World → Nat → Option (Nat × World)} {Ok : Fate → Prop}
  {H : Heal → Heal → Prop} {G : World → World → Prop} (hC : Client serve Ok H G)
  {Inv : World → Prop} {Stop : Panic → Prop} {w : World} {v : Volume}

/-- The disk shows the volume, or the volume with the file if that takes it. -/
def OneOf (v : Volume) (name : Text) (contents : List UInt8) (disk : Nat → Block) : Prop :=
  readVolume disk = some v ∨
    v.Takes contents ∧ readVolume disk = some (v.appended name contents)

include hC

theorem fsWriteBlock_guard {n : UInt32} {bytes : List UInt8} {β : Type}
    {Post : Option β → World → Prop} {k : Io (Option β)} (hn : n.toNat < 2 ^ 31)
    (hinv : ∀ w', w'.disk = w.disk ∨
      w'.disk = Function.update w.disk n.toNat (.pad blockSize bytes) →
      H w.heal w'.heal → Inv w' ∧ (w'.Coherent → Post none w'))
    (hG : ∀ w₁ w₂, w₁.disk = w.disk →
      w₂.disk = Function.update w.disk n.toNat (.pad blockSize bytes) → G w₁ w₂)
    (hk : ∀ w', w'.disk = Function.update w.disk n.toNat (.pad blockSize bytes) →
      H w.heal w'.heal → w'.Coherent → FsSound serve H G Inv Stop Post k w') :
    FsSound serve H G Inv Stop Post (do if ← fsWriteBlock n bytes then k else return none) w := by
  apply Prog.Sound.bind hC.lawful
  apply (fsWriteBlock_sound hC hn bytes (fun w' hd hheal => (hinv w' hd hheal).1) hG).mono
  rintro ok w₁ ⟨hheal, hco, hd, -⟩
  cases ok with
  | false =>
    intro w₂ h₂
    have hd₂ := (hd.symm.imp_left And.right).imp h₂.disk.trans h₂.disk.trans
    obtain ⟨hInv, hpost⟩ := hinv w₂ hd₂ (hC.trans _ _ _ hheal h₂.heal)
    exact ⟨hInv, hpost (hco.others h₂)⟩
  | true =>
    obtain hd | ⟨hfalse, -⟩ := hd
    · exact hk w₁ hd hheal hco
    · cases hfalse

theorem fsCommit_sound {name : Text} {contents : List UInt8} {plan : AppendPlan}
    (hv : v.WellFormed) (hread : readVolume w.disk = some v) (htakes : v.Takes contents)
    (hplan : plan.Extends v.superblock (w.disk 1).list name (.ofNat contents.length))
    (hinv : ∀ w', OneOf v name contents w'.disk → H w.heal w'.heal → Inv w')
    (hG : ∀ w₁ w₂, readVolume w₁.disk = some v → OneOf v name contents w₂.disk → G w₁ w₂) :
    FsSound serve H G Inv Stop (fun r w' => H w.heal w'.heal ∧ w'.Coherent ∧
      OneOf v name contents w'.disk ∧
      ∀ start, r = some start → start = v.superblock.totalBlocks ∧
        readVolume w'.disk = some (v.appended name contents))
      (fsCommit plan v.superblock.dirBlock contents) w := by
  have htwo : dataStartBlock.toNat = 2 := rfl
  have hdata := hv.data
  have hroom := hv.room
  have hdir : v.superblock.dirBlock.toNat = 1 := by rw [hv.directory]; rfl
  have hzero : (0 : UInt32).toNat = 0 := rfl
  -- The three disks after the one at the start.
  have hread₁ := hv.readVolume_past hread (.pad blockSize contents)
  have hread₂ : readVolume (Function.update (Function.update w.disk
      v.superblock.totalBlocks.toNat (.pad blockSize contents)) 1 plan.dirBlock) = some v := by
    refine hv.readVolume_dir hread₁ fun i hi => ?_
    rw [Function.update_of_ne (by omega), hplan.old i hi]
  have hread₃ := hv.readVolume_commit hread₂ htakes hplan (Function.update_self ..) (by
    rw [Function.update_of_ne (by omega), Function.update_self])
  have hgiveUp {w' : World} (hone : OneOf v name contents w'.disk) (hheal : H w.heal w'.heal) :
      Inv w' ∧ (w'.Coherent → H w.heal w'.heal ∧ w'.Coherent ∧ OneOf v name contents w'.disk ∧
        ∀ start : UInt32, none = some start → start = v.superblock.totalBlocks ∧
          readVolume w'.disk = some (v.appended name contents)) :=
    ⟨hinv _ hone hheal, fun hco => ⟨hheal, hco, hone, nofun⟩⟩
  apply fsWriteBlock_guard hC (by rw [hplan.start]; omega)
  · rintro w' hd hheal
    rw [hplan.start] at hd
    refine hgiveUp (.inl ?_) hheal
    obtain hd | hd := hd
    · rw [hd, hread]
    · rw [hd, hread₁]
  · intro w₁ w₂ hd₁ hd₂
    rw [hplan.start] at hd₂
    exact hG _ _ (by rw [hd₁, hread]) (.inl (by rw [hd₂, hread₁]))
  rintro w₁ hd₁ hheal₁ -
  rw [hplan.start] at hd₁
  apply fsWriteBlock_guard hC (by omega)
  · rintro w' hd hheal
    rw [hdir, Bytes.pad_self, hd₁] at hd
    refine hgiveUp (.inl ?_) (hC.trans _ _ _ hheal₁ hheal)
    obtain hd | hd := hd
    · rw [hd, hread₁]
    · rw [hd, hread₂]
  · intro w₂ w₃ hd₂ hd₃
    rw [hdir, Bytes.pad_self, hd₁] at hd₃
    exact hG _ _ (by rw [hd₂, hd₁, hread₁]) (.inl (by rw [hd₃, hread₂]))
  rintro w₂ hd₂ hheal₂ -
  rw [hdir, Bytes.pad_self, hd₁] at hd₂
  have hheal₂ := hC.trans _ _ _ hheal₁ hheal₂
  apply fsWriteBlock_guard hC (by omega)
  · rintro w' hd hheal
    rw [hd₂, hzero] at hd
    refine hgiveUp ?_ (hC.trans _ _ _ hheal₂ hheal)
    obtain hd | hd := hd
    · exact .inl (by rw [hd, hread₂])
    · exact .inr ⟨htakes, by rw [hd, hread₃]⟩
  · intro w₃ w₄ hd₃ hd₄
    rw [hd₂, hzero] at hd₄
    exact hG _ _ (by rw [hd₃, hd₂, hread₂]) (.inr ⟨htakes, by rw [hd₄, hread₃]⟩)
  rintro w₃ hd₃ hheal₃ hco₃
  rw [hd₂, hzero] at hd₃
  intro w₄ h₄
  have hheal₄ := hC.trans _ _ _ (hC.trans _ _ _ hheal₂ hheal₃) h₄.heal
  have hdone : readVolume w₄.disk = some (v.appended name contents) := by
    rw [h₄.disk, hd₃, hread₃]
  refine ⟨hinv _ (.inr ⟨htakes, hdone⟩) hheal₄, hheal₄, hco₃.others h₄, .inr ⟨htakes, hdone⟩,
    fun start hstart => ⟨?_, hdone⟩⟩
  exact (Option.some.inj hstart).symm.trans hplan.start

/-- `fs_append_file`: at every moment the disk shows the volume before or after, and
after when it returns a start block. -/
theorem fsAppendFile_sound (name : Text) (contents : List UInt8)
    (hv : v.WellFormed) (hread : readVolume w.disk = some v) (hw : w.Coherent)
    (hinv : ∀ w', OneOf v name contents w'.disk → H w.heal w'.heal → Inv w')
    (hG : ∀ w₁ w₂, readVolume w₁.disk = some v → OneOf v name contents w₂.disk → G w₁ w₂) :
    FsSound serve H G Inv Stop (fun r w' => H w.heal w'.heal ∧ w'.Coherent ∧
      OneOf v name contents w'.disk ∧
      ∀ start, r = some start → v.Takes contents ∧ start = v.superblock.totalBlocks ∧
        readVolume w'.disk = some (v.appended name contents))
      (fsAppendFile name contents) w := by
  have hone {w' : World} (hd : w'.disk = w.disk) : OneOf v name contents w'.disk :=
    .inl (by rw [hd, hread])
  have hgiveUp {w' : World} (hd : w'.disk = w.disk) (hheal : H w.heal w'.heal)
      (hco : w'.Coherent) : FsSound serve H G Inv Stop (fun r w' => H w.heal w'.heal ∧ w'.Coherent ∧
        OneOf v name contents w'.disk ∧ ∀ start : UInt32, r = some start →
          v.Takes contents ∧ start = v.superblock.totalBlocks ∧
          readVolume w'.disk = some (v.appended name contents)) (.ret none) w' := by
    intro w'' h
    have hd := h.disk.trans hd
    have hheal := hC.trans _ _ _ hheal h.heal
    exact ⟨hinv _ (hone hd) hheal, hheal, hco.others h, hone hd, (by simp)⟩
  obtain ⟨hsb, -, -⟩ := readVolume_eq_some.mp hread
  have hdir : v.superblock.dirBlock.toNat = 1 := by rw [hv.directory]; rfl
  unfold fsAppendFile
  split
  case isTrue => exact hgiveUp rfl (hC.refl _) hw
  case isFalse hlong =>
  have hfits : contents.length ≤ blockSize := Nat.le_of_not_lt hlong
  apply Prog.Sound.bind hC.lawful
  apply (fsCopyBlock_sound hC (by decide) hw fun w' hd hheal => hinv _ (hone hd) hheal).mono
  rintro sbBuf w₁ ⟨hd₁, hheal₁, hco₁, hbuf, -⟩
  cases sbBuf with
  | none => exact hgiveUp hd₁ hheal₁ hco₁
  | some sbBuf =>
  obtain rfl := hbuf _ rfl
  dsimp only
  rw [show (0 : UInt32).toNat = 0 from rfl, hsb]
  apply Prog.Sound.bind hC.lawful
  apply (fsCopyBlock_sound hC (by omega) hco₁ fun w' hd hheal =>
    hinv _ (hone (hd.trans hd₁)) (hC.trans _ _ _ hheal₁ hheal)).mono
  rintro dirBuf w₂ ⟨hd₂, hheal₂, hco₂, hbuf, -⟩
  have hd₂ := hd₂.trans hd₁
  have hheal₂ := hC.trans _ _ _ hheal₁ hheal₂
  cases dirBuf with
  | none => exact hgiveUp hd₂ hheal₂ hco₂
  | some dirBuf =>
  obtain rfl := hbuf _ rfl
  rw [hd₁, hdir]
  -- The plan is refused, or it is the one with the file.
  by_cases hslot : v.superblock.dirEntries.toNat < direntsPerBlock
  case neg =>
    have hfull : appendPlan v.superblock (w.disk 1).list name (.ofNat contents.length) = .ok none :=
      if_pos (Nat.le_of_not_lt hslot)
    dsimp only
    rw [hfull]
    exact hgiveUp hd₂ hheal₂ hco₂
  case pos =>
    have hlen := Volume.toNat_ofNat_length hfits
    have hroom := hv.room
    simp only [blockSize] at hfits
    obtain ⟨plan, hplan, hext⟩ := appendPlan_spec v.superblock name (.ofNat contents.length)
      (w.disk 1).size hslot (by omega) (by omega)
    dsimp only
    rw [hplan]
    apply (fsCommit_sound hC hv (by rw [hd₂, hread]) ⟨hfits, hslot⟩ (by rw [hd₂]; exact hext)
      (fun w' hd hheal => hinv _ hd (hC.trans _ _ _ hheal₂ hheal)) hG).mono
    rintro r w₃ ⟨hheal, hco, hd, hsome⟩
    refine ⟨hC.trans _ _ _ hheal₂ hheal, hco, hd, fun start hstart => ?_⟩
    exact ⟨⟨hfits, hslot⟩, hsome start hstart⟩

end Append

end Perenne

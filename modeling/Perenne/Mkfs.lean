import Perenne.Volume

namespace Perenne

/-- The loop of `build_image` over the files: the entries so far, `next` and
`data_blocks`. -/
def placeFile (s : List (DirEntry × List UInt8) × UInt32 × UInt32) (file : Text × List UInt8) :
    Except Panic (List (DirEntry × List UInt8) × UInt32 × UInt32) := do
  let (entries, next, dataBlocks) := s
  let nb ← blockCount (.ofNat file.2.length)
  let entries := entries ++ [(.new file.1 next (.ofNat file.2.length), file.2)]
  let next ← addU32 next nb
  let dataBlocks ← addU32 dataBlocks nb
  return (entries, next, dataBlocks)

/-- `img[off..off + bytes.len()].copy_from_slice(bytes)`, which checks its range. -/
def copyInto (img : List UInt8) (off : Nat) (bytes : List UInt8) : Except Panic (List UInt8) :=
  if off + bytes.length ≤ img.length then .ok (splice img off bytes) else .error .indexOutOfBounds

/-- `build_image`. -/
def buildImage (files : List (Text × List UInt8)) : Except Panic (List UInt8) :=
  if files.length > direntsPerBlock then
    .error (.assert "too many files for one directory block")
  else do
    let (entries, _, dataBlocks) ← files.foldlM placeFile ([], dataStartBlock, 0)
    let totalBlocks ← addU32 dataStartBlock dataBlocks
    let deviceBlocks ← addU32 totalBlocks spareBlocks
    let img := List.replicate (deviceBlocks.toNat * blockSize) (0 : UInt8)
    let sb : Superblock :=
      ⟨fsMagic, fsVersion, 512, dirBlockNumber, .ofNat files.length, totalBlocks⟩
    let img := splice img 0 (sb.encode (slice img 0 blockSize))
    let img := entries.zipIdx.foldl (fun img x =>
      let off := dirBlockNumber.toNat * blockSize + x.2 * direntSize
      splice img off (x.1.1.encode (slice img off direntSize))) img
    entries.foldlM (fun img x => copyInto img (x.1.startBlock.toNat * blockSize) x.2) img

def imageBlocks (img : List UInt8) (n : Nat) : Block :=
  .pad blockSize (slice img (n * blockSize) blockSize)

/-- An append to the blocks: the plan, and its data, directory and superblock written. -/
def appendBlocks (disk : Nat → Block) (name : Text) (contents : List UInt8) :
    Except Panic (Option (Nat → Block)) :=
  match Superblock.decode (disk 0).list with
  | none => .ok none
  | some sb => do
    match ← appendPlan sb (disk sb.dirBlock.toNat).list name (.ofNat contents.length) with
    | none => return none
    | some plan =>
      let disk := Function.update disk plan.startBlock.toNat (.pad blockSize contents)
      let disk := Function.update disk sb.dirBlock.toNat plan.dirBlock
      return some (Function.update disk 0
        (.pad blockSize (plan.newSuperblock.encode (List.replicate blockSize 0))))

/-- One append after the other; a refused one changes nothing. -/
def appendAll (disk : Nat → Block) : List (Text × List UInt8) → Except Panic (Nat → Block)
  | [] => .ok disk
  | (name, contents) :: rest => do
    match ← appendBlocks disk name contents with
    | none => appendAll disk rest
    | some disk => appendAll disk rest

def applyWrites (img : List UInt8) (ws : List (Nat × List UInt8)) : List UInt8 :=
  ws.foldl (fun img w => splice img w.1 w.2) img

/-- The write touches no byte of the range. -/
def Misses (off len : Nat) (w : Nat × List UInt8) : Prop :=
  off + len ≤ w.1 ∨ w.1 + w.2.length ≤ off

section Writes

variable {img : List UInt8} {ws : List (Nat × List UInt8)}

theorem length_applyWrites (h : ∀ w ∈ ws, w.1 + w.2.length ≤ img.length) :
    (applyWrites img ws).length = img.length := by
  induction ws generalizing img with
  | nil => rfl
  | cons w ws ih =>
    have hw : (splice img w.1 w.2).length = img.length := length_splice (h w (by simp))
    refine (ih fun w' hw' => ?_).trans hw
    rw [hw]
    exact h w' (List.mem_cons_of_mem _ hw')

theorem slice_applyWrites_of_misses {off len : Nat} (h : ∀ w ∈ ws, w.1 + w.2.length ≤ img.length)
    (hmiss : ∀ w ∈ ws, Misses off len w) :
    slice (applyWrites img ws) off len = slice img off len := by
  induction ws generalizing img with
  | nil => rfl
  | cons w ws ih =>
    have hin := h w (by simp)
    have hw : (splice img w.1 w.2).length = img.length := length_splice hin
    refine (ih (fun w' hw' => ?_) fun w' hw' => hmiss w' (List.mem_cons_of_mem _ hw')).trans ?_
    · rw [hw]
      exact h w' (List.mem_cons_of_mem _ hw')
    · obtain hbefore | hafter := hmiss w (by simp)
      · exact slice_splice_before hbefore (by omega)
      · exact slice_splice_after hafter (by omega)

theorem slice_applyWrites {w : Nat × List UInt8} (h : ∀ w ∈ ws, w.1 + w.2.length ≤ img.length)
    (hapart : ws.Pairwise fun w w' => Misses w.1 w.2.length w') (hw : w ∈ ws) :
    slice (applyWrites img ws) w.1 w.2.length = w.2 := by
  induction ws generalizing img with
  | nil => cases hw
  | cons w' ws ih =>
    have hin := h w' (by simp)
    have hlen : (splice img w'.1 w'.2).length = img.length := length_splice hin
    rw [List.pairwise_cons] at hapart
    have hrest (x : Nat × List UInt8) (hx : x ∈ ws) :
        x.1 + x.2.length ≤ (splice img w'.1 w'.2).length := by
      rw [hlen]
      exact h x (List.mem_cons_of_mem _ hx)
    obtain rfl | hw := List.mem_cons.mp hw
    · refine (slice_applyWrites_of_misses hrest hapart.1).trans ?_
      exact slice_splice (by omega) rfl
    · exact ih hrest hapart.2 hw

end Writes

theorem slice_add (bs : List UInt8) (off a b : Nat) :
    slice bs off (a + b) = slice bs off a ++ slice bs (off + a) b := by
  rw [slice, slice, slice, List.take_add, List.drop_drop]

theorem slice_slice (bs : List UInt8) {off len off' len' : Nat} (h : off' + len' ≤ len) :
    slice (slice bs off len) off' len' = slice bs (off + off') len' := by
  rw [slice, slice, slice, List.drop_take, List.take_take, Nat.min_eq_left (by omega),
    List.drop_drop]

section Image

variable {img : List UInt8} {n : Nat}

theorem imageBlocks_list (h : (n + 1) * blockSize ≤ img.length) :
    (imageBlocks img n).list = slice img (n * blockSize) blockSize := by
  apply Bytes.pad_list
  apply length_slice
  simp only [blockSize] at h ⊢
  omega

theorem flatMap_imageBlocks {start : Nat} (h : (start + n) * blockSize ≤ img.length) :
    ((List.range n).flatMap fun i => (imageBlocks img (start + i)).list) =
      slice img (start * blockSize) (n * blockSize) := by
  induction n with
  | zero =>
    rw [Nat.zero_mul]
    rfl
  | succ n ih =>
    have hlast : (start + n + 1) * blockSize ≤ img.length := h
    have hle : (start + n) * blockSize ≤ img.length :=
      (Nat.mul_le_mul_right _ (Nat.le_succ _)).trans hlast
    rw [List.range_succ, List.flatMap_append, ih hle, List.flatMap_singleton,
      imageBlocks_list hlast, Nat.succ_mul, slice_add, Nat.add_mul]

theorem extent_imageBlocks {start len : Nat}
    (h : (start + (len + 511) / 512) * blockSize ≤ img.length) :
    extent (imageBlocks img) start len = slice img (start * blockSize) len := by
  rw [extent, flatMap_imageBlocks h, slice, List.take_take, slice, Nat.min_eq_left]
  simp only [blockSize]
  omega

end Image

/-- Blocks of a file of this many bytes. -/
def blocksFor (len : Nat) : Nat := (len + 511) / 512

def dataBlocksOf (files : List (Text × List UInt8)) : Nat :=
  (files.map fun f => blocksFor f.2.length).sum

/-- The entries, one extent after the other. -/
def placed (next : Nat) : List (Text × List UInt8) → List (DirEntry × List UInt8)
  | [] => []
  | file :: files => (.new file.1 (.ofNat next) (.ofNat file.2.length), file.2) ::
    placed (next + blocksFor file.2.length) files

/-- A file `mkfs` and the directory can hold. -/
structure Storable (file : Text × List UInt8) : Prop where
  name : file.1.length ≤ nameLen
  noNul : ∀ c ∈ file.1, c ≠ 0
  size : file.2.length < 2 ^ 32 - 512

/-- Files whose blocks `block_count` can count. -/
def Sized (files : List (Text × List UInt8)) : Prop := ∀ f ∈ files, f.2.length + 512 < 2 ^ 32

section Placed

variable {files : List (Text × List UInt8)} (hfiles : Sized files)

include hfiles

theorem dataBlocksOf_le : dataBlocksOf files ≤ files.length * 2 ^ 23 := by
  induction files with
  | nil => exact Nat.le_refl _
  | cons f files ih =>
    have hsize := hfiles f (by simp)
    have hrest := ih fun f hf => hfiles f (List.mem_cons_of_mem _ hf)
    simp only [dataBlocksOf, List.map_cons, List.sum_cons, List.length_cons, blocksFor] at *
    omega

theorem foldlM_placeFile (entries : List (DirEntry × List UInt8)) (next data : UInt32)
    (hnext : next.toNat + dataBlocksOf files < 2 ^ 32) (hdata : data.toNat ≤ next.toNat) :
    ∃ next' data' : UInt32, files.foldlM placeFile (entries, next, data) =
        .ok (entries ++ placed next.toNat files, next', data') ∧
      next'.toNat = next.toNat + dataBlocksOf files ∧
      data'.toNat = data.toNat + dataBlocksOf files := by
  induction files generalizing entries next data with
  | nil => exact ⟨next, data, by rw [placed, List.append_nil]; rfl, rfl, rfl⟩
  | cons f files ih =>
    have hsize := hfiles f (by simp)
    have hlen : (UInt32.ofNat f.2.length).toNat = f.2.length := by
      rw [UInt32.toNat_ofNat']
      exact Nat.mod_eq_of_lt (by omega)
    have hsum : dataBlocksOf (f :: files) = blocksFor f.2.length + dataBlocksOf files := rfl
    obtain ⟨nb, hnb, hnb'⟩ := blockCount_ok (n := .ofNat f.2.length) (by omega)
    have hblocks : nb.toNat = blocksFor f.2.length := by rw [hnb', hlen, blocksFor]
    obtain ⟨next₁, hn₁, hn₁'⟩ := addU32_ok (x := next) (y := nb) (by omega)
    obtain ⟨data₁, hd₁, hd₁'⟩ := addU32_ok (x := data) (y := nb) (by omega)
    have hrest (g) (hg : g ∈ files) := hfiles g (List.mem_cons_of_mem _ hg)
    obtain ⟨next', data', hrun, hnext', hdata'⟩ := ih hrest
      (entries ++ [(.new f.1 next (.ofNat f.2.length), f.2)]) next₁ data₁ (by omega) (by omega)
    refine ⟨next', data', ?_, by omega, by omega⟩
    have hstep : placeFile (entries, next, data) f =
        .ok (entries ++ [(.new f.1 next (.ofNat f.2.length), f.2)], next₁, data₁) := by
      simp only [placeFile, hnb, hn₁, hd₁, bind, Except.bind, pure, Except.pure]
    rw [List.foldlM_cons, hstep]
    refine hrun.trans ?_
    rw [placed, hn₁', hblocks, UInt32.ofNat_toNat, List.append_assoc, List.singleton_append]

theorem placed_inside {next : Nat} (hnext : next + dataBlocksOf files < 2 ^ 32)
    {f : DirEntry × List UInt8} (hf : f ∈ placed next files) :
    f.1.byteLen.toNat = f.2.length ∧ next ≤ f.1.startBlock.toNat ∧
      f.1.startBlock.toNat + blocksFor f.2.length ≤ next + dataBlocksOf files := by
  induction files generalizing next with
  | nil => cases hf
  | cons file files ih =>
    have hsize := hfiles file (by simp)
    have hsum : dataBlocksOf (file :: files) = blocksFor file.2.length + dataBlocksOf files := rfl
    obtain rfl | hf := List.mem_cons.mp hf
    · dsimp only [DirEntry.new]
      rw [UInt32.toNat_ofNat', UInt32.toNat_ofNat', Nat.mod_eq_of_lt (by omega),
        Nat.mod_eq_of_lt (by omega)]
      omega
    · have := ih (fun f hf => hfiles f (List.mem_cons_of_mem _ hf)) (by omega) hf
      omega

theorem placed_apart {next : Nat} (hnext : next + dataBlocksOf files < 2 ^ 32) :
    (placed next files).Pairwise fun f g =>
      f.1.startBlock.toNat + blocksFor f.2.length ≤ g.1.startBlock.toNat := by
  induction files generalizing next with
  | nil => exact .nil
  | cons file files ih =>
    have hsum : dataBlocksOf (file :: files) = blocksFor file.2.length + dataBlocksOf files := rfl
    have hrest (f) (hf : f ∈ files) := hfiles f (List.mem_cons_of_mem _ hf)
    refine .cons (fun g hg => ?_) (ih hrest (by omega))
    have hlow := (placed_inside hrest (by omega) hg).2.1
    dsimp only [DirEntry.new]
    rwa [UInt32.toNat_ofNat', Nat.mod_eq_of_lt (by omega)]

omit hfiles in
theorem trimmed_new {name : Text} (hlen : name.length ≤ nameLen) (hnul : ∀ c ∈ name, c ≠ 0)
    (start len : UInt32) : (DirEntry.new name start len).trimmed = name := by
  have hpad : (Bytes.pad nameLen name).list =
      name ++ List.replicate (nameLen - name.length) 0 := by
    change name.take nameLen ++ _ = _
    rw [List.take_of_length_le hlen]
  rw [DirEntry.trimmed, DirEntry.new, hpad, List.takeWhile_append_of_pos (by simpa using hnul)]
  cases nameLen - name.length with
  | zero => simp
  | succ k => simp [List.replicate_succ]

omit hfiles in
theorem placed_files (hnames : ∀ f ∈ files, Storable f) (next : Nat) :
    (placed next files).map (fun f => (f.1.trimmed, f.2)) = files := by
  induction files generalizing next with
  | nil => rfl
  | cons file files ih =>
    have hfile := hnames file (by simp)
    rw [placed, List.map_cons, ih (fun f hf => hnames f (List.mem_cons_of_mem _ hf)),
      trimmed_new hfile.name hfile.noNul]

omit hfiles in
theorem length_placed (next : Nat) : (placed next files).length = files.length := by
  induction files generalizing next with
  | nil => rfl
  | cons file files ih => rw [placed, List.length_cons, List.length_cons, ih]

end Placed

/-- Everything `build_image` writes over the zeros. -/
def imageWrites (sb : Superblock) (entries : List (DirEntry × List UInt8)) :
    List (Nat × List UInt8) :=
  (0, sb.bytes) :: (entries.zipIdx.map (fun x => (blockSize + x.2 * direntSize, x.1.1.bytes)) ++
    entries.map fun x => (x.1.startBlock.toNat * blockSize, x.2))

theorem foldl_encode {img : List UInt8} {xs : List ((DirEntry × List UInt8) × Nat)}
    (h : ∀ x ∈ xs, dirBlockNumber.toNat * blockSize + x.2 * direntSize + direntSize ≤ img.length) :
    xs.foldl (fun img x =>
      let off := dirBlockNumber.toNat * blockSize + x.2 * direntSize
      splice img off (x.1.1.encode (slice img off direntSize))) img =
    applyWrites img (xs.map fun x => (blockSize + x.2 * direntSize, x.1.1.bytes)) := by
  induction xs generalizing img with
  | nil => rfl
  | cons x xs ih =>
    have hx := h x (by simp)
    have hbytes := DirEntry.length_bytes x.1.1
    have hone : dirBlockNumber.toNat * blockSize = blockSize := rfl
    rw [hone] at hx
    have hlen : (splice img (blockSize + x.2 * direntSize) x.1.1.bytes).length = img.length :=
      length_splice (by simp only [blockSize, direntSize] at *; omega)
    rw [List.foldl_cons, List.map_cons, hone]
    dsimp only
    rw [DirEntry.encode, splice_slice hx (by rw [hbytes]; decide)]
    refine ih fun y hy => ?_
    rw [hlen]
    exact h y (List.mem_cons_of_mem _ hy)

theorem foldlM_copyInto {img : List UInt8} {xs : List (DirEntry × List UInt8)}
    (h : ∀ x ∈ xs, x.1.startBlock.toNat * blockSize + x.2.length ≤ img.length) :
    xs.foldlM (fun img x => copyInto img (x.1.startBlock.toNat * blockSize) x.2) img =
      .ok (applyWrites img (xs.map fun x => (x.1.startBlock.toNat * blockSize, x.2))) := by
  induction xs generalizing img with
  | nil => rfl
  | cons x xs ih =>
    have hx := h x (by simp)
    rw [List.foldlM_cons, copyInto, if_pos hx]
    refine ih fun y hy => ?_
    rw [length_splice hx]
    exact h y (List.mem_cons_of_mem _ hy)

theorem buildImage_eq {files : List (Text × List UInt8)} (hfiles : Sized files)
    (hcount : files.length ≤ direntsPerBlock) :
    ∃ total : UInt32, total.toNat = 2 + dataBlocksOf files ∧ buildImage files = .ok (applyWrites
      (List.replicate ((2 + dataBlocksOf files + 8) * blockSize) 0) (imageWrites
        ⟨fsMagic, fsVersion, 512, dirBlockNumber, .ofNat files.length, total⟩ (placed 2 files))) := by
  have hbound := dataBlocksOf_le hfiles
  have htwo : dataStartBlock.toNat = 2 := rfl
  have height : spareBlocks.toNat = 8 := rfl
  have hzero : (0 : UInt32).toNat = 0 := rfl
  simp only [direntsPerBlock, blockSize, direntSize] at hcount
  obtain ⟨next, data, hplace, -, hdata⟩ := foldlM_placeFile hfiles [] dataStartBlock 0
    (by omega) (by omega)
  obtain ⟨total, htotal, htotal'⟩ := addU32_ok (x := dataStartBlock) (y := data) (by omega)
  obtain ⟨device, hdevice, hdevice'⟩ := addU32_ok (x := total) (y := spareBlocks) (by omega)
  have hblocks : device.toNat = 2 + dataBlocksOf files + 8 := by omega
  refine ⟨total, by omega, ?_⟩
  rw [List.nil_append, htwo] at hplace
  rw [buildImage, if_neg (by simp only [direntsPerBlock, blockSize, direntSize]; omega), hplace]
  simp only [bind, Except.bind, htotal, hdevice, hblocks]
  generalize hsb : (⟨fsMagic, fsVersion, 512, dirBlockNumber, .ofNat files.length, total⟩ :
    Superblock) = sb
  generalize hzeros : List.replicate ((2 + dataBlocksOf files + 8) * blockSize) (0 : UInt8) = zeros
  have hlen : zeros.length = (2 + dataBlocksOf files + 8) * 512 := by
    rw [← hzeros, List.length_replicate]
  have hbytes := Superblock.length_bytes sb
  have hfirst : splice zeros 0 (sb.encode (slice zeros 0 blockSize)) = splice zeros 0 sb.bytes :=
    splice_slice (by simp only [blockSize]; omega) (by rw [hbytes]; decide)
  have hlen₁ : (splice zeros 0 sb.bytes).length = zeros.length := length_splice (by omega)
  have hdirs (x) (hx : x ∈ (placed 2 files).zipIdx) :
      dirBlockNumber.toNat * blockSize + x.2 * direntSize + direntSize ≤
        (splice zeros 0 sb.bytes).length := by
    have hidx := (List.mem_zipIdx hx).2.1
    rw [length_placed] at hidx
    change 512 + x.2 * 64 + 64 ≤ _
    omega
  rw [hfirst, foldl_encode hdirs, foldlM_copyInto]
  · rw [imageWrites, applyWrites, applyWrites, applyWrites, List.foldl_cons, List.foldl_append]
  · intro x hx
    have hin := placed_inside hfiles (by omega : 2 + dataBlocksOf files < 2 ^ 32) hx
    rw [length_applyWrites, hlen₁, hlen]
    · simp only [blockSize, blocksFor] at *
      omega
    · intro w hw
      obtain ⟨y, hy, rfl⟩ := List.mem_map.mp hw
      have := hdirs y hy
      dsimp only
      rw [DirEntry.length_bytes]
      change 512 + y.2 * 64 + 64 ≤ _ at this
      simp only [blockSize, direntSize]
      omega

section Shown

variable {files : List (Text × List UInt8)} (hfiles : Sized files)
  (hcount : files.length ≤ direntsPerBlock) (sb : Superblock)

include hfiles hcount

theorem imageWrites_inside {w : Nat × List UInt8} (hw : w ∈ imageWrites sb (placed 2 files)) :
    w.1 + w.2.length ≤ (2 + dataBlocksOf files + 8) * blockSize := by
  have hbound := dataBlocksOf_le hfiles
  simp only [direntsPerBlock, blockSize, direntSize] at hcount ⊢
  obtain rfl | hw := List.mem_cons.mp hw
  · rw [Superblock.length_bytes]
    omega
  obtain hw | hw := List.mem_append.mp hw
  · obtain ⟨x, hx, rfl⟩ := List.mem_map.mp hw
    have hidx := (List.mem_zipIdx hx).2.1
    rw [length_placed] at hidx
    simp only [DirEntry.length_bytes, blockSize, direntSize]
    omega
  · obtain ⟨x, hx, rfl⟩ := List.mem_map.mp hw
    have hin := placed_inside hfiles (by omega : 2 + dataBlocksOf files < 2 ^ 32) hx
    simp only [blockSize, blocksFor] at *
    omega

theorem length_image : (applyWrites (List.replicate ((2 + dataBlocksOf files + 8) * blockSize) 0)
    (imageWrites sb (placed 2 files))).length = (2 + dataBlocksOf files + 8) * blockSize := by
  rw [length_applyWrites, List.length_replicate]
  intro w hw
  rw [List.length_replicate]
  exact imageWrites_inside hfiles hcount sb hw

theorem imageWrites_apart : (imageWrites sb (placed 2 files)).Pairwise
    fun w w' => Misses w.1 w.2.length w' := by
  have hbound := dataBlocksOf_le hfiles
  simp only [direntsPerBlock, blockSize, direntSize] at hcount
  have hslots (x) (hx : x ∈ (placed 2 files).zipIdx) : x.2 < 8 := by
    have hidx := (List.mem_zipIdx hx).2.1
    rw [length_placed] at hidx
    omega
  have hdata (x) (hx : x ∈ placed 2 files) : 2 ≤ x.1.startBlock.toNat :=
    (placed_inside hfiles (by omega : 2 + dataBlocksOf files < 2 ^ 32) hx).2.1
  refine .cons (fun w hw => .inl ?_) (List.pairwise_append.mpr ⟨?_, ?_, ?_⟩)
  · rw [Superblock.length_bytes]
    obtain hw | hw := List.mem_append.mp hw
    · obtain ⟨x, -, rfl⟩ := List.mem_map.mp hw
      simp only [blockSize]
      omega
    · obtain ⟨x, hx, rfl⟩ := List.mem_map.mp hw
      have := hdata x hx
      simp only [blockSize]
      omega
  · have hidx : ((placed 2 files).zipIdx.map Prod.snd).Pairwise (· < ·) := by
      rw [List.zipIdx_map_snd]
      exact List.pairwise_lt_range'
    refine (List.pairwise_map.mp hidx).map _ fun x y hxy => .inl ?_
    simp only [DirEntry.length_bytes, direntSize]
    omega
  · refine (placed_apart hfiles (by omega : 2 + dataBlocksOf files < 2 ^ 32)).map _
      fun x y hxy => .inl ?_
    simp only [blocksFor, blockSize] at *
    omega
  · intro w hw w' hw'
    obtain ⟨x, hx, rfl⟩ := List.mem_map.mp hw
    obtain ⟨y, hy, rfl⟩ := List.mem_map.mp hw'
    have := hslots x hx
    have := hdata y hy
    refine .inl ?_
    simp only [DirEntry.length_bytes, blockSize, direntSize]
    omega

theorem readVolume_imageWrites (hmagic : sb.magic = fsMagic) (hversion : sb.version = fsVersion)
    (hdir : sb.dirBlock = dirBlockNumber) (hentries : sb.dirEntries.toNat = files.length) :
    readVolume (imageBlocks (applyWrites (List.replicate ((2 + dataBlocksOf files + 8) * blockSize) 0)
      (imageWrites sb (placed 2 files)))) = some ⟨sb, placed 2 files⟩ := by
  have hinside (w) (hw : w ∈ imageWrites sb (placed 2 files)) : w.1 + w.2.length ≤
      (List.replicate ((2 + dataBlocksOf files + 8) * blockSize) (0 : UInt8)).length := by
    rw [List.length_replicate]
    exact imageWrites_inside hfiles hcount sb hw
  have hapart := imageWrites_apart hfiles hcount sb
  have hlen := length_image hfiles hcount sb
  have hfound {w : Nat × List UInt8} (hw : w ∈ imageWrites sb (placed 2 files)) :=
    slice_applyWrites hinside hapart hw
  generalize applyWrites _ (imageWrites sb (placed 2 files)) = img at hlen hfound ⊢
  have hbound := dataBlocksOf_le hfiles
  have hone : sb.dirBlock.toNat = 1 := by rw [hdir]; rfl
  simp only [blockSize] at hlen
  refine readVolume_eq_some.mpr ⟨?_, ?_, fun f hf => ?_⟩
  · rw [imageBlocks_list (by simp only [blockSize]; omega), Nat.zero_mul,
      show (blockSize : Nat) = 24 + 488 from rfl, slice_add]
    have hsb := hfound (.head _)
    rw [Superblock.length_bytes] at hsb
    rw [hsb]
    exact Superblock.decode_bytes sb _ hmagic hversion
  · dsimp only
    rw [hentries, hone]
    refine List.ext_getElem (by simp [length_placed]) fun i hi hi' => ?_
    rw [List.length_map, length_placed] at hi'
    have hslot : i < 8 := Nat.lt_of_lt_of_le hi' hcount
    have hget : (placed 2 files)[i]? = some ((placed 2 files).get ⟨i, by rwa [length_placed]⟩) :=
      List.getElem?_eq_getElem _
    have hw := hfound (.tail _ (List.mem_append.mpr (.inl (List.mem_map.mpr
      ⟨_, List.mk_mem_zipIdx_iff_getElem?.mpr hget, rfl⟩))))
    dsimp only at hw
    rw [DirEntry.length_bytes] at hw
    have hblock : (imageBlocks img 1).list = slice img (1 * blockSize) blockSize :=
      imageBlocks_list (by simp only [blockSize]; omega)
    have hsize : (imageBlocks img 1).list.length = 512 := (imageBlocks img 1).size
    rw [List.getElem_map, List.getElem_map, List.getElem_range, dirEntryAt, hsize, if_neg, hblock,
      slice_slice, Nat.one_mul, show (direntSize : Nat) = 56 + 8 from rfl, slice_add]
    · rw [show (56 + 8 : Nat) = direntSize from rfl, hw, DirEntry.decode_bytes]
      rfl
    · simp only [direntSize, blockSize]
      omega
    · simp only [direntsPerBlock, direntSize, blockSize]
      omega
  · have hin := placed_inside hfiles
      (by simp only [direntsPerBlock, blockSize, direntSize] at hcount; omega :
        2 + dataBlocksOf files < 2 ^ 32) hf
    have hw : (f.1.startBlock.toNat * blockSize, f.2) ∈ imageWrites sb (placed 2 files) :=
      .tail _ (List.mem_append.mpr (.inr (List.mem_map.mpr ⟨f, hf, rfl⟩)))
    rw [extent_imageBlocks, hin.1]
    · exact (hfound hw).symm
    · rw [hin.1, hlen]
      simp only [blocksFor] at hin
      exact Nat.mul_le_mul_right _ (by omega)

end Shown

end Perenne

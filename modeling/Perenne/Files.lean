import Perenne.Mkfs
import Mathlib.Data.List.TakeWhile

namespace Perenne

/-- The blocks, read back, are this list of files. -/
structure Refines (disk : Nat → Block) (capacity : Nat) (sb : Superblock)
    (files : List (Text × List UInt8)) : Prop where
  decodes : Superblock.decode (disk 0).list = some sb
  count : sb.dirEntries.toNat = files.length
  entry (i : Nat) (hi : i < files.length) :
    ∃ e, dirEntryAt (disk sb.dirBlock.toNat).list i = some e ∧
      e.trimmed = files[i].1 ∧ e.byteLen.toNat = files[i].2.length ∧
      extent disk e.startBlock.toNat e.byteLen.toNat = files[i].2 ∧
      dataStartBlock.toNat ≤ e.startBlock.toNat ∧
      e.startBlock.toNat + blocksFor e.byteLen.toNat ≤ sb.totalBlocks.toNat
  lookup (name : Text) : Perenne.lookup (disk sb.dirBlock.toNat).list sb.dirEntries name =
    (files.findIdx? (·.1 == name)).bind (dirEntryAt (disk sb.dirBlock.toNat).list)
  apart (i j : Nat) (hij : i < j) (hj : j < files.length) {e e' : DirEntry}
    (he : dirEntryAt (disk sb.dirBlock.toNat).list i = some e)
    (he' : dirEntryAt (disk sb.dirBlock.toNat).list j = some e') (n : Nat) :
    ¬ (n < blocksFor e.byteLen.toNat ∧ ∃ n' < blocksFor e'.byteLen.toNat,
      e.startBlock.toNat + n = e'.startBlock.toNat + n')
  capacity : sb.totalBlocks.toNat ≤ capacity
  refuses (name : Text) (byteLen : UInt32) :
    appendPlan sb (disk sb.dirBlock.toNat).list name byteLen = .ok none ↔
      files.length = direntsPerBlock

/-- The abstract list: an append to a full one is refused. -/
def appendFiles (files : List (Text × List UInt8)) :
    List (Text × List UInt8) → List (Text × List UInt8)
  | [] => files
  | file :: rest =>
    if files.length = direntsPerBlock then appendFiles files rest
    else appendFiles (files ++ [file]) rest

namespace Volume

/-- The volume holds these files, and the device its blocks until the directory is full. -/
structure Lists (v : Volume) (capacity : Nat) (files : List (Text × List UInt8)) : Prop where
  wellFormed : v.WellFormed
  listed : v.files.map (fun f => (f.1.trimmed, f.2)) = files
  lengths (f : DirEntry × List UInt8) (hf : f ∈ v.files) : f.1.byteLen.toNat = f.2.length
  apart : v.files.Pairwise fun f g =>
    f.1.startBlock.toNat + blocksFor f.2.length ≤ g.1.startBlock.toNat
  capacity : v.superblock.totalBlocks.toNat +
    (direntsPerBlock - v.superblock.dirEntries.toNat) ≤ capacity

variable {v : Volume} {capacity : Nat} {files : List (Text × List UInt8)} {disk : Nat → Block}

theorem Lists.appended (h : v.Lists capacity files) {name : Text} {contents : List UInt8}
    (hname : name.length ≤ nameLen) (hnul : ∀ c ∈ name, c ≠ 0) (htakes : v.Takes contents) :
    (v.appended name contents).Lists capacity (files ++ [(name, contents)]) := by
  have hlen := toNat_ofNat_length htakes.fits
  refine ⟨h.wellFormed.appended name htakes, ?_, fun f hf => ?_, ?_, ?_⟩
  · rw [Volume.appended, List.map_append, h.listed, List.map_singleton, trimmed_new hname hnul]
  · obtain hf | hf := List.mem_append.mp hf
    · exact h.lengths f hf
    · obtain rfl := List.mem_singleton.mp hf
      exact hlen
  · refine List.pairwise_append.mpr ⟨h.apart, List.pairwise_singleton .., fun f hf g hg => ?_⟩
    obtain rfl := List.mem_singleton.mp hg
    have hin := (h.wellFormed.inside f hf).2
    rw [h.lengths f hf] at hin
    exact hin
  · have hcapacity := h.capacity
    have hfits := htakes.fits
    have hslot := htakes.slot
    change (v.superblock.totalBlocks + _).toNat +
      (direntsPerBlock - (v.superblock.dirEntries + 1).toNat) ≤ capacity
    rw [h.wellFormed.totalBlocks_appended htakes, dirEntries_succ htakes.slot]
    simp only [blockSize, direntsPerBlock, direntSize] at hcapacity hfits hslot ⊢
    omega

theorem nameIs_eq (e : DirEntry) (name : Text) : e.nameIs name = (e.trimmed == name) := by
  rw [DirEntry.nameIs]
  split
  case isFalse => rfl
  case isTrue hlong =>
    have htrim : e.trimmed.length ≤ nameLen := by
      rw [← e.name.size]
      exact (List.takeWhile_sublist _).length_le
    refine (beq_false_of_ne ?_).symm
    rintro rfl
    omega

theorem appendPlan_refuses {sb : Superblock} {dir : List UInt8} {name : Text} {byteLen : UInt32} :
    appendPlan sb dir name byteLen = .ok none ↔ direntsPerBlock ≤ sb.dirEntries.toNat := by
  constructor
  · intro hplan
    unfold appendPlan at hplan
    split at hplan
    case isTrue hfull => exact hfull
    case isFalse =>
      obtain ⟨nblocks, -, hplan⟩ := Except.bind_eq_ok_iff.mp hplan
      obtain ⟨d, -, hplan⟩ := Except.bind_eq_ok_iff.mp hplan
      obtain ⟨t, -, hplan⟩ := Except.bind_eq_ok_iff.mp hplan
      cases hplan
  · exact fun hfull => if_pos hfull

theorem Lists.refines (h : v.Lists capacity files) (hread : readVolume disk = some v) :
    Refines disk capacity v.superblock files := by
  obtain ⟨hsb, hentries, hdata⟩ := readVolume_eq_some.mp hread
  have hlen := files_length hread
  have hmax := h.wellFormed.count
  have hapart := List.pairwise_iff_getElem.mp h.apart
  obtain rfl := h.listed
  -- The directory's entries are those of the volume.
  have hget (i : Nat) (hi : i < v.files.length) :
      dirEntryAt (disk v.superblock.dirBlock.toNat).list i = some v.files[i].1 := by
    have := congrArg (·[i]?) hentries
    rw [hlen] at hi
    simpa [List.getElem?_range hi, hlen, hi] using this
  have hdecode (i : Nat) (hi : i < v.files.length) : v.files[i].1 =
      .decode (slice (disk v.superblock.dirBlock.toNat).list (i * direntSize) direntSize) := by
    have hat := hget i hi
    rw [dirEntryAt] at hat
    split at hat
    · cases hat
    · exact (Option.some.inj hat).symm
  refine ⟨hsb, by rw [List.length_map, hlen], fun i hi => ?_, fun name => ?_, ?_, ?_,
    fun name byteLen => ?_⟩
  · rw [List.length_map] at hi
    have hmem : v.files[i] ∈ v.files := List.getElem_mem hi
    have hin := h.wellFormed.inside _ hmem
    refine ⟨v.files[i].1, hget i hi, ?_, ?_, ?_, hin.1, hin.2⟩
    · rw [List.getElem_map]
    · rw [List.getElem_map]
      exact h.lengths _ hmem
    · rw [List.getElem_map]
      exact (hdata _ hmem).symm
  · have hall : (List.range (min v.superblock.dirEntries.toNat direntsPerBlock)).takeWhile (fun i =>
        decide (i * direntSize + direntSize ≤ (disk v.superblock.dirBlock.toNat).list.length)) =
        List.range v.files.length := by
      rw [Nat.min_eq_left hmax, hlen, List.takeWhile_eq_self_iff]
      intro i hi
      have hi := List.mem_range.mp hi
      have hsize := (disk v.superblock.dirBlock.toNat).size
      simp only [direntsPerBlock, blockSize, direntSize, decide_eq_true_eq] at *
      omega
    have hmap : (List.range v.files.length).map (fun i => DirEntry.decode
        (slice (disk v.superblock.dirBlock.toNat).list (i * direntSize) direntSize)) =
        v.files.map Prod.fst := by
      refine List.ext_getElem (by simp) fun i hi hi' => ?_
      rw [List.length_map] at hi'
      rw [List.getElem_map, List.getElem_map, List.getElem_range, hdecode i hi']
    rw [Perenne.lookup, hall, hmap, List.find?_eq_bind_findIdx?_getElem?, List.findIdx?_map,
      List.findIdx?_map]
    have hsame : (fun e => DirEntry.nameIs e name) ∘ Prod.fst =
        (fun f : Text × List UInt8 => f.1 == name) ∘ fun f : DirEntry × List UInt8 =>
          (f.1.trimmed, f.2) := by
      funext f
      exact nameIs_eq f.1 name
    rw [hsame]
    refine Option.bind_congr fun i hi => ?_
    have hi : i < v.files.length := (List.findIdx?_eq_some_iff_getElem.mp hi).1
    rw [hget i hi, List.getElem?_map, List.getElem?_eq_getElem hi]
    rfl
  · intro i j hij hj e e' he he' n
    rw [List.length_map] at hj
    rw [hget i (by omega)] at he
    rw [hget j hj] at he'
    obtain rfl := Option.some.inj he
    obtain rfl := Option.some.inj he'
    have := hapart i j (by omega) hj hij
    rw [h.lengths _ (List.getElem_mem _)]
    rintro ⟨hn, n', -, heq⟩
    omega
  · have := h.capacity
    omega
  · rw [appendPlan_refuses, List.length_map, hlen]
    omega

theorem appendBlocks_eq (hv : v.WellFormed) (hread : readVolume disk = some v) (name : Text)
    {contents : List UInt8} (hfits : contents.length ≤ blockSize) :
    ∃ r, appendBlocks disk name contents = .ok r ∧
      if v.superblock.dirEntries.toNat = direntsPerBlock then r = none
      else ∃ disk', r = some disk' ∧ readVolume disk' = some (v.appended name contents) := by
  obtain ⟨hsb, -, -⟩ := readVolume_eq_some.mp hread
  have hdir : v.superblock.dirBlock.toNat = 1 := by rw [hv.directory]; rfl
  have hcount := hv.count
  have hdata := hv.data
  have htwo : dataStartBlock.toNat = 2 := rfl
  simp only [appendBlocks, hsb, hdir]
  split
  case isTrue hfull =>
    refine ⟨none, ?_, rfl⟩
    rw [appendPlan_refuses.mpr (Nat.le_of_eq hfull.symm)]
    rfl
  case isFalse hslot =>
    have hlen := toNat_ofNat_length hfits
    have hroom := hv.room
    have htakes : v.Takes contents := ⟨hfits, by omega⟩
    simp only [blockSize] at hfits
    obtain ⟨plan, hplan, hext⟩ := appendPlan_spec v.superblock name (.ofNat contents.length)
      (disk 1).size htakes.slot (by omega) (by omega)
    rw [hplan]
    refine ⟨_, rfl, _, rfl, ?_⟩
    have hread₁ := hv.readVolume_past hread (.pad blockSize contents)
    rw [hext.start]
    refine hv.readVolume_commit (hv.readVolume_dir hread₁ fun i hi => ?_) htakes hext
      (Function.update_self ..) ?_
    · rw [Function.update_of_ne (by omega), hext.old i hi]
    · rw [Function.update_of_ne (by omega), Function.update_self]

end Volume

/-- A file that can be appended. -/
structure Appendable (file : Text × List UInt8) : Prop where
  name : file.1.length ≤ nameLen
  noNul : ∀ c ∈ file.1, c ≠ 0
  fits : file.2.length ≤ blockSize

theorem appendAll_lists {v : Volume} {capacity : Nat} {files : List (Text × List UInt8)}
    {disk : Nat → Block} (h : v.Lists capacity files) (hread : readVolume disk = some v)
    {more : List (Text × List UInt8)} (hmore : ∀ f ∈ more, Appendable f) :
    ∃ disk' v', appendAll disk more = .ok disk' ∧ readVolume disk' = some v' ∧
      v'.Lists capacity (appendFiles files more) := by
  induction more generalizing disk v files with
  | nil => exact ⟨disk, v, rfl, hread, h⟩
  | cons file more ih =>
    have hfile := hmore file (by simp)
    have hrest (f) (hf : f ∈ more) := hmore f (List.mem_cons_of_mem _ hf)
    have hcount : v.superblock.dirEntries.toNat = files.length := by
      rw [← h.listed, List.length_map, Volume.files_length hread]
    obtain ⟨r, hrun, hr⟩ := Volume.appendBlocks_eq h.wellFormed hread file.1 hfile.fits
    rw [hcount] at hr
    rw [appendFiles]
    split at hr
    case isTrue hfull =>
      obtain rfl := hr
      rw [if_pos hfull]
      obtain ⟨disk', v', hall, hread', hlists⟩ := ih h hread hrest
      refine ⟨disk', v', ?_, hread', hlists⟩
      rw [appendAll, hrun]
      exact hall
    case isFalse hslot =>
      obtain ⟨disk₁, rfl, hread₁⟩ := hr
      have hmax := h.wellFormed.count
      have htakes : v.Takes file.2 := ⟨hfile.fits, by omega⟩
      rw [if_neg hslot]
      obtain ⟨disk', v', hall, hread', hlists⟩ :=
        ih (h.appended hfile.name hfile.noNul htakes) hread₁ hrest
      refine ⟨disk', v', ?_, hread', hlists⟩
      rw [appendAll, hrun]
      exact hall

theorem buildImage_volume {files : List (Text × List UInt8)} (hfiles : Sized files)
    (hcount : files.length ≤ direntsPerBlock) :
    ∃ img v, buildImage files = .ok img ∧ readVolume (imageBlocks img) = some v ∧ v.WellFormed ∧
      v.files = placed 2 files ∧ img.length / blockSize = 2 + dataBlocksOf files + 8 ∧
      v.superblock.totalBlocks.toNat = 2 + dataBlocksOf files ∧
      v.superblock.dirEntries.toNat = files.length := by
  obtain ⟨total, htotal, himg⟩ := buildImage_eq hfiles hcount
  have hbound := dataBlocksOf_le hfiles
  have htwo : dataStartBlock.toNat = 2 := rfl
  have hlen : (UInt32.ofNat files.length).toNat = files.length := by
    simp only [direntsPerBlock, blockSize, direntSize] at hcount
    rw [UInt32.toNat_ofNat']
    exact Nat.mod_eq_of_lt (by omega)
  have hread := readVolume_imageWrites hfiles hcount
    ⟨fsMagic, fsVersion, 512, dirBlockNumber, .ofNat files.length, total⟩ rfl rfl rfl hlen
  have hsize := length_image hfiles hcount
    ⟨fsMagic, fsVersion, 512, dirBlockNumber, .ofNat files.length, total⟩
  have hbelow : 2 + dataBlocksOf files < 2 ^ 32 := by
    simp only [direntsPerBlock, blockSize, direntSize] at hcount
    omega
  refine ⟨_, _, himg, hread, ⟨rfl, ?_, ?_, ?_, fun f hf => ?_⟩, rfl, ?_, htotal, hlen⟩
  · rw [hlen]
    exact hcount
  · dsimp only
    omega
  · dsimp only
    rw [hlen]
    simp only [direntsPerBlock, blockSize, direntSize] at hcount ⊢
    omega
  · obtain ⟨hbytes, hlow, hhigh⟩ := placed_inside hfiles hbelow hf
    rw [hbytes, htotal]
    exact ⟨hlow, hhigh⟩
  · rw [hsize]
    exact Nat.mul_div_cancel _ (by decide)

theorem buildImage_lists {files : List (Text × List UInt8)} (hfiles : ∀ f ∈ files, Storable f)
    (hcount : files.length ≤ direntsPerBlock) :
    ∃ img v, buildImage files = .ok img ∧ readVolume (imageBlocks img) = some v ∧
      v.Lists (img.length / blockSize) files := by
  have hsized : Sized files := fun f hf => by
    have := (hfiles f hf).size
    omega
  obtain ⟨img, v, himg, hread, hv, hplaced, hdevice, htotal, hlen⟩ :=
    buildImage_volume hsized hcount
  have hbound := dataBlocksOf_le hsized
  have hbelow : 2 + dataBlocksOf files < 2 ^ 32 := by
    simp only [direntsPerBlock, blockSize, direntSize] at hcount
    omega
  refine ⟨img, v, himg, hread, hv, ?_, ?_, ?_, ?_⟩
  · rw [hplaced]
    exact placed_files hfiles 2
  · rw [hplaced]
    exact fun f hf => (placed_inside hsized hbelow hf).1
  · rw [hplaced]
    exact placed_apart hsized hbelow
  · rw [hdevice, htotal, hlen]
    simp only [direntsPerBlock, blockSize, direntSize]
    omega

/-- The on-disk volume refines an append-only list of files. -/
theorem volume_refines_files {files more : List (Text × List UInt8)}
    (hfiles : ∀ f ∈ files, Storable f) (hcount : files.length ≤ direntsPerBlock)
    (hmore : ∀ f ∈ more, Appendable f) :
    ∃ img disk sb, buildImage files = .ok img ∧ appendAll (imageBlocks img) more = .ok disk ∧
      Refines disk (img.length / blockSize) sb (appendFiles files more) := by
  obtain ⟨img, v, himg, hread, hlists⟩ := buildImage_lists hfiles hcount
  obtain ⟨disk, v', hrun, hread', hlists'⟩ := appendAll_lists hlists hread hmore
  exact ⟨img, disk, v'.superblock, himg, hrun, hlists'.refines hread'⟩

/-- One file in the image, one appended. -/
theorem volume_refines_files_two : ∃ img disk sb, buildImage [(utf8 "a", [1])] = .ok img ∧
    appendAll (imageBlocks img) [(utf8 "b", [2])] = .ok disk ∧
    Refines disk (img.length / blockSize) sb [(utf8 "a", [1]), (utf8 "b", [2])] := by
  have hfile : Storable (utf8 "a", [1]) :=
    ⟨by decide +kernel, by decide +kernel, by decide +kernel⟩
  have hmore : Appendable (utf8 "b", [2]) :=
    ⟨by decide +kernel, by decide +kernel, by decide +kernel⟩
  refine volume_refines_files (fun f hf => ?_) (by decide) fun f hf => ?_
  · exact List.mem_singleton.mp hf ▸ hfile
  · exact List.mem_singleton.mp hf ▸ hmore

end Perenne

import Perenne.Counters
import Perenne.Files
import Perenne.Recognition

namespace Perenne

theorem dropWhite_append_return {two : UInt8 → UInt8 → Bool} {three : UInt8 → UInt8 → UInt8 → Bool}
    (htwo : ∀ a, two a 13 = false) (hthree : ∀ a b, three a b 13 = false) (s : Text) :
    dropWhite two three (s ++ [13]) =
      if dropWhite two three s = [] then [] else dropWhite two three s ++ [13] := by
  fun_induction dropWhite two three s
  case case1 => rfl
  case case2 a s ha ih =>
    rw [List.cons_append, dropWhite.eq_def]
    simp only [ha, if_true, ih]
  case case3 a ha =>
    rw [dropWhite.eq_def]
    simp [ha, htwo]
  case case4 a ha b s hab ih =>
    rw [List.cons_append, List.cons_append, dropWhite.eq_def]
    simp [ha, hab, ih]
  case case5 a ha b hab =>
    rw [dropWhite.eq_def]
    simp [ha, hab, hthree]
  case case6 a ha b hab c s habc ih =>
    rw [List.cons_append, List.cons_append, List.cons_append, dropWhite.eq_def]
    simp [ha, hab, habc, ih]
  case case7 a ha b hab c s habc =>
    rw [List.cons_append, List.cons_append, List.cons_append, dropWhite.eq_def]
    simp [ha, hab, habc]

theorem trim_append_return (s : Text) : trim (s ++ [13]) = trim s := by
  have htwo (a : UInt8) : white₂ a 13 = false := Bool.and_false _
  have hthree (a b : UInt8) : white₃ a b 13 = false := by
    have hthird : (decide ((0x80 : UInt8) ≤ 13) && decide ((13 : UInt8) ≤ 0x8A) ||
      (13 : UInt8) == 0xA8 || (13 : UInt8) == 0xA9 || (13 : UInt8) == 0xAF) = false := rfl
    have hlast : ((13 : UInt8) == 0x80) = false ∧ ((13 : UInt8) == 0x9F) = false := ⟨rfl, rfl⟩
    rw [white₃, hthird, hlast.1, hlast.2]
    simp only [Bool.and_false, Bool.or_false]
  have hstart : trimStart (s ++ [13]) =
      if trimStart s = [] then [] else trimStart s ++ [13] :=
    dropWhite_append_return htwo hthree s
  have hend (t : Text) : trimEnd (t ++ [13]) = trimEnd t := by
    rw [trimEnd, trimEnd, List.reverse_append, List.reverse_singleton, List.singleton_append,
      dropWhite.eq_def]
    rfl
  rw [trim, trim, hstart]
  split
  case isTrue h => rw [h]
  case isFalse => exact hend _

theorem lines_single {l : Text} (h : 10 ∉ l) (hne : l ≠ []) : lines l = [l] := by
  induction l with
  | nil => exact absurd rfl hne
  | cons c l ih =>
    have hc : c ≠ 10 := fun hc => h (hc ▸ .head _)
    have hl : 10 ∉ l := fun hl => h (.tail _ hl)
    have hcr : ¬ (c = 13 ∧ l.head? = some 10) := fun hcr => hl (List.mem_of_head? hcr.2)
    rw [lines_cons_other hc hcr]
    cases l with
    | nil => rfl
    | cons d l => rw [ih hl (List.cons_ne_nil d l)]

theorem lines_return {l : Text} (h : 10 ∉ l) (s : Text) :
    lines (l ++ 13 :: 10 :: s) = l :: lines s := by
  induction l with
  | nil =>
    exact lines_return_newline s
  | cons c l ih =>
    have hc : c ≠ 10 := fun hc => h (hc ▸ .head _)
    have hl : 10 ∉ l := fun hl => h (.tail _ hl)
    have hcr : ¬ (c = 13 ∧ (l ++ 13 :: 10 :: s).head? = some 10) := by
      rintro ⟨-, hhead⟩
      cases l with
      | nil => cases hhead
      | cons d l => exact hl (Option.some.inj hhead ▸ .head _)
    rw [List.cons_append, lines_cons_other hc hcr, ih hl]

/-- What stands behind a line: nothing, or its newline with or without a carriage return. -/
def EndsLine (rest : Text) : Prop :=
  rest = [] ∨ (∃ s, rest = 10 :: s) ∨ ∃ s, rest = 13 :: 10 :: s

namespace Kb

/-- A line after the first closes the frontmatter, within the first `n` bytes. -/
def ClosesWithin (n : Nat) (s : Text) : Prop :=
  ∃ body fence rest, s = body ++ (fence ++ rest) ∧ body.getLast? = some 10 ∧ 10 ∉ fence ∧
    isFence fence = true ∧ EndsLine rest ∧ body.length + fence.length ≤ n

theorem closing_line {fence rest : Text} (h10 : 10 ∉ fence) (hfence : isFence fence = true)
    (hrest : EndsLine rest ∨ rest = [13]) :
    ∃ l ls, lines (fence ++ rest) = l :: ls ∧ isFence l = true := by
  have hne : fence ≠ [] := by
    rintro rfl
    revert hfence
    decide +kernel
  have hreturn (l : Text) : isFence (l ++ [13]) = isFence l := by
    rw [isFence, isFence, trim_append_return]
  rcases hrest with (rfl | ⟨s, rfl⟩ | ⟨s, rfl⟩) | rfl
  · rw [List.append_nil]
    exact ⟨fence, [], lines_single h10 hne, hfence⟩
  · by_cases hlast : fence.getLast? = some 13
    · -- The carriage return goes with the newline.
      obtain ⟨l, rfl⟩ := List.getLast?_eq_some_iff.mp hlast
      rw [List.append_assoc, List.singleton_append]
      exact ⟨l, lines s, lines_return (fun h => h10 (List.mem_append_left _ h)) s,
        (hreturn l).symm.trans hfence⟩
    · exact ⟨fence, lines s, lines_cons ⟨h10, hlast⟩ s, hfence⟩
  · exact ⟨fence, lines s, lines_return h10 s, hfence⟩
  · refine ⟨fence ++ [13], [], lines_single ?_ (List.append_ne_nil_of_left_ne_nil hne _),
      (hreturn fence).trans hfence⟩
    rw [List.mem_append, not_or]
    exact ⟨h10, by decide⟩

theorem scan_closed {l l' : Text} (hl : isFence l = true) (hl' : isFence l' = true) (f : Fields)
    (a b b' : List Text) : scan f (a ++ l :: b) = scan f (a ++ l' :: b') := by
  rw [isFence, beq_iff_eq] at hl hl'
  induction a generalizing f with
  | nil => rw [List.nil_append, List.nil_append, scan, scan, if_pos hl, if_pos hl']
  | cons line a ih =>
    rw [List.cons_append, List.cons_append, scan, scan]
    split
    · rfl
    · exact ih _

theorem parse_take {n : Nat} {s : Text} (h : ClosesWithin n s) (hs : validUtf8 s = true)
    (hhead : validUtf8 (s.take n) = true) : parse (s.take n) = parse s := by
  obtain ⟨body, fence, rest, rfl, hbody, h10, hfence, hrest, hn⟩ := h
  obtain ⟨m, rfl⟩ : ∃ m, n = body.length + (fence.length + m) :=
    ⟨n - body.length - fence.length, by omega⟩
  have htake : (body ++ (fence ++ rest)).take (body.length + (fence.length + m)) =
      body ++ (fence ++ rest.take m) := by
    rw [List.take_length_add_append, List.take_length_add_append]
  have hcut : EndsLine (rest.take m) ∨ rest.take m = [13] := by
    rcases hrest with rfl | ⟨s, rfl⟩ | ⟨s, rfl⟩
    · exact .inl (.inl List.take_nil)
    · cases m with
      | zero => exact .inl (.inl rfl)
      | succ m => exact .inl (.inr (.inl ⟨_, rfl⟩))
    · cases m with
      | zero => exact .inl (.inl rfl)
      | succ m =>
        cases m with
        | zero => exact .inr rfl
        | succ m => exact .inl (.inr (.inr ⟨_, rfl⟩))
  obtain ⟨l, ls, hl, hlf⟩ := closing_line h10 hfence (.inl hrest)
  obtain ⟨l', ls', hl', hlf'⟩ := closing_line h10 hfence hcut
  rw [htake] at hhead ⊢
  have hbne : lines body ≠ [] := lines_ne_nil fun hnil => by
    rw [hnil] at hbody
    cases hbody
  rw [parse_eq, parse_eq, frontmatter, frontmatter, hs, hhead, lines_append hbody,
    lines_append hbody, hl, hl']
  cases hfirst : lines body with
  | nil => exact absurd hfirst hbne
  | cons first more =>
    simp only [List.cons_append, scan_closed hlf hlf' .none more ls ls']

theorem validUtf8_of_parse {s : Text} {rec : KbRecord} (h : parse s = some rec) :
    validUtf8 s = true := by
  rw [parse] at h
  split at h
  case isTrue => cases h
  case isFalse hvalid => simpa using hvalid

theorem parse_take_iff {n : Nat} {s : Text} {rec : KbRecord} (h : ClosesWithin n s)
    (hrec : parse s = some rec) :
    parse (s.take n) = some rec ↔ s.length ≤ n ∨ isCharBoundary s n = true := by
  have hs := validUtf8_of_parse hrec
  rcases Nat.lt_or_ge n s.length with hlt | hge
  · rw [← validUtf8_take hs hlt]
    constructor
    · exact fun hhead => .inr (validUtf8_of_parse hhead)
    · rintro (hle | hvalid)
      · omega
      · rw [parse_take h hs hvalid, hrec]
  · rw [List.take_of_length_le hge]
    exact ⟨fun _ => .inl hge, fun _ => hrec⟩

end Kb

/-- A run of `fs_read_extent_head` on a file. -/
def headRun {φ : Type} (serve : φ → World → Nat → Option (Nat × World)) (e : DirEntry) (w : World)
    (ms : List (Prog.Move φ Cause)) : Option (Io (Option Text) × World) :=
  Transition.run (Prog.step serve crash) (fsReadExtentHead e.startBlock e.byteLen, w) ms

/-- A run of the loader's loop body on directory slot `i`, on a device that makes no error. -/
def slotRun (i : Nat) (w : World) (ms : List (Prog.Move Unit Cause)) : Option (Io Unit × World) :=
  Transition.run (Prog.step healthy crash) (loadEntries (w.disk 1).list [i], w) ms

/-- The loader sees the file in slot `i` as this record: it can get its head, and every head
that it gets parses so; if the table has room and the device makes no error, its loop body can
be run to the end, and however it gets there the entry is installed. -/
def LoaderSees (disk : Nat → Block) (i : Nat) (e : DirEntry) (rec : KbRecord) : Prop :=
  ∀ w : World, w.disk = disk → w.Coherent →
    (∃ ms bytes w', headRun World.serve e w ms = some (.ret (some bytes), w')) ∧
    (∀ ms bytes w', headRun World.serve e w ms = some (.ret (some bytes), w') →
      Kb.parse bytes = some rec) ∧
    (w.heal.table.length < maxIssues → (∃ ms w', slotRun i w ms = some (.ret (), w')) ∧
      ∀ ms w', slotRun i w ms = some (.ret (), w') →
        TableBumped (w.heal.table ++ [.new rec.id rec.title rec.playbook (rec.matchCause.getD [])
          rec.seen rec.escalated e.startBlock.toNat]) w'.heal.table)

theorem run_of_healthy {α : Type} {p : Io α} {w : World} {c : Io α × World}
    {ms : List (Prog.Move Unit Cause)}
    (h : Transition.run (Prog.step healthy crash) (p, w) ms = some c) :
    ∃ ms', Transition.run (Prog.step World.serve crash) (p, w) ms' = some c := by
  induction ms generalizing p w with
  | nil => exact ⟨[], h⟩
  | cons m ms ih =>
    rw [Transition.run] at h
    obtain ⟨⟨p', w'⟩, hstep, hrest⟩ := Option.bind_eq_some_iff.mp h
    obtain ⟨ms', hms'⟩ := ih hrest
    have hmove : ∃ m', Prog.step World.serve crash (p, w) m' = some (p', w') := by
      cases m with
      | run => exact ⟨.run, by cases p <;> exact hstep⟩
      | env e => exact ⟨.env e, by cases p <;> exact hstep⟩
      | serve f => exact ⟨.serve .done, by cases p <;> exact hstep⟩
    obtain ⟨m', hm'⟩ := hmove
    refine ⟨m' :: ms', ?_⟩
    rw [Transition.run, hm']
    exact hms'

section Views

variable {disk : Nat → Block} {v : Volume} {i : Nat} {e : DirEntry} {text : Text}
  (hv : v.Loadable) (hread : readVolume disk = some v) (hi : v.files[i]? = some (e, text))
  {w : World} (hd : w.disk = disk) (hw : w.Coherent)

include hv hread hi

theorem Volume.Loadable.slot : dirEntryAt (disk 1).list i = some e ∧
    text = extent disk e.startBlock.toNat e.byteLen.toNat ∧ e.byteLen.toNat + 512 < 2 ^ 32 ∧
      e.startBlock.toNat + (e.byteLen.toNat + 511) / 512 ≤ 2 ^ 31 := by
  obtain ⟨-, hentries, hdata⟩ := readVolume_eq_some.mp hread
  have hmem : (e, text) ∈ v.files := List.mem_of_getElem? hi
  have hdir : v.superblock.dirBlock.toNat = 1 := by rw [hv.directory]; rfl
  have hslot := congrArg (·[i]?) hentries
  rw [hdir] at hslot
  simp only [List.getElem?_map, hi, Option.map_some] at hslot
  have hroom := hv.room
  have hin := (hv.inside _ hmem).2
  refine ⟨?_, hdata _ hmem, hv.sizes _ hmem, by dsimp only at hin; omega⟩
  obtain ⟨j, hj, heq⟩ := Option.map_eq_some_iff.mp hslot
  obtain ⟨hlt, rfl⟩ := List.getElem?_eq_some_iff.mp hj
  rwa [List.getElem_range] at heq

include hd hw

theorem headRun_eq {ms : List (Prog.Move Fate Cause)} {bytes : Text} {w' : World}
    (hrun : headRun World.serve e w ms = some (.ret (some bytes), w')) :
    bytes = text.take (kbHeadBlocks * blockSize) := by
  obtain ⟨-, htext, hsize, hend⟩ := hv.slot hread hi
  have hsound : FsSound World.serve Crashed (fun _ _ => True) (fun _ => True) (fun _ => True) _
      (fsReadExtentHead e.startBlock e.byteLen) w :=
    fsReadExtentHead_sound crashed_client hsize hend hw fun _ _ _ => trivial
  obtain ⟨-, -, -, -, hbytes, -⟩ := hsound.run crashed_client.lawful crash_others hrun w'
    (crashed_client.others_refl _)
  rw [hbytes bytes rfl, hd, ← htext]

omit hd in
theorem headRun_exists :
    ∃ ms bytes w', headRun World.serve e w ms = some (.ret (some bytes), w') := by
  obtain ⟨-, htext, hsize, hend⟩ := hv.slot hread hi
  have hsound : FsSound healthy Crashed (fun _ _ => True) (fun _ => True) (fun _ => False) _
      (fsReadExtentHead e.startBlock e.byteLen) w :=
    fsReadExtentHead_sound healthy_client hsize hend hw fun _ _ _ => trivial
  have hends : ∃ ms r w', Transition.run (Prog.step healthy crash)
      (fsReadExtentHead e.startBlock e.byteLen, w) ms = some (.ret r, w') :=
    hsound.completes healthy_client.lawful (fun w badge => ⟨(), _, rfl⟩) fun _ h => h
  obtain ⟨ms, r, w', hrun⟩ := hends
  obtain ⟨-, -, -, -, -, hsome⟩ := hsound.run healthy_client.lawful crash_others hrun w'
    (healthy_client.others_refl _)
  obtain ⟨bytes, rfl⟩ := Option.ne_none_iff_exists'.mp (hsome fun _ h => h)
  obtain ⟨ms', hrun'⟩ := run_of_healthy hrun
  exact ⟨ms', bytes, w', hrun'⟩

theorem slotRun_installs {issue : KnownIssue} (hload : loadFile (e, text) = some issue)
    (hroom : w.heal.table.length < maxIssues) :
    (∃ ms w', slotRun i w ms = some (.ret (), w')) ∧
      ∀ ms w', slotRun i w ms = some (.ret (), w') →
        TableBumped (w.heal.table ++ [issue]) w'.heal.table := by
  obtain ⟨hslot, htext, hsize, hend⟩ := hv.slot hread hi
  subst hd
  have hloaded : Loaded w.heal.table w.heal.table := ⟨_, .refl _, .refl _⟩
  have hidx : [i].map (dirEntryAt (w.disk 1).list) = [(e, text)].map fun f => some f.1 := by
    rw [List.map_singleton, List.map_singleton, hslot]
  have hsound : FsSound healthy Crashed (fun _ _ => True) (fun _ => True) (fun _ => False) _
      (loadEntries (w.disk 1).list [i]) w :=
    loadEntries_sound healthy_client crashed_loads hidx
      (fun f hf => by obtain rfl := List.mem_singleton.mp hf; exact ⟨htext, hsize, hend⟩)
      (.refl _) (Nat.succ_le_of_lt hroom) hw trivial hloaded fun _ _ _ _ => trivial
  constructor
  · have hends : ∃ ms a w', Transition.run (Prog.step healthy crash)
        (loadEntries (w.disk 1).list [i], w) ms = some (.ret a, w') :=
      hsound.completes healthy_client.lawful (fun w badge => ⟨(), _, rfl⟩) fun _ h => h
    obtain ⟨ms, ⟨⟩, w', hrun⟩ := hends
    exact ⟨ms, w', hrun⟩
  · intro ms w' hrun
    obtain ⟨-, -, -, -, -, hall⟩ := hsound.run healthy_client.lawful crash_others hrun w'
      (healthy_client.others_refl _)
    have hbumped := hall (fun _ h => h) (.refl _)
    rwa [List.filterMap_cons, hload, List.filterMap_nil] at hbumped

end Views

/-- The loader sees a file of the volume as its whole text parses when the cut after two
blocks is no cut or between two characters. -/
theorem loaderSees_iff {disk : Nat → Block} {v : Volume} {i : Nat} {e : DirEntry} {text : Text}
    {rec : KbRecord} (hv : v.Loadable) (hread : readVolume disk = some v)
    (hi : v.files[i]? = some (e, text)) (hrec : Kb.parse text = some rec)
    (hcause : rec.matchCause.isSome = true)
    (hclosed : Kb.ClosesWithin (kbHeadBlocks * blockSize) text) :
    LoaderSees disk i e rec ↔ text.length ≤ kbHeadBlocks * blockSize ∨
      isCharBoundary text (kbHeadBlocks * blockSize) = true := by
  rw [← Kb.parse_take_iff hclosed hrec]
  constructor
  · intro hsees
    obtain ⟨⟨ms, bytes, w', hrun⟩, hparse, -⟩ := hsees ⟨disk, .pad blockSize [], -1, .empty⟩ rfl
      (World.coherent_of_reboot _ _ _)
    rw [← headRun_eq hv hread hi rfl (World.coherent_of_reboot _ _ _) hrun]
    exact hparse ms bytes w' hrun
  · intro hparse w hd hw
    refine ⟨headRun_exists hv hread hi hw, fun ms bytes w' hrun => ?_, fun hroom => ?_⟩
    · rw [headRun_eq hv hread hi hd hw hrun, hparse]
    · refine slotRun_installs hv hread hi hd hw ?_ hroom
      rw [loadFile, hparse, Option.bind_some, if_pos hcause]

theorem sized_of_place {files : List (Text × List UInt8)}
    {s s' : List (DirEntry × List UInt8) × UInt32 × UInt32}
    (h : files.foldlM placeFile s = .ok s') (hsize : ∀ f ∈ files, f.2.length < 2 ^ 32) :
    Sized files := by
  induction files generalizing s with
  | nil => exact fun f hf => (by cases hf)
  | cons file files ih =>
    rw [List.foldlM_cons] at h
    obtain ⟨s₁, hfile, hrest⟩ := Except.bind_eq_ok_iff.mp h
    refine List.forall_mem_cons.mpr ⟨?_, ih hrest fun f hf => hsize f (.tail _ hf)⟩
    obtain ⟨nb, hnb, -⟩ := Except.bind_eq_ok_iff.mp hfile
    obtain ⟨sum, hsum, -⟩ := Except.bind_eq_ok_iff.mp hnb
    rw [addU32] at hsum
    split at hsum
    case isFalse => cases hsum
    case isTrue hlt =>
      rwa [UInt32.toNat_ofNat', Nat.mod_eq_of_lt (hsize file (.head _))] at hlt

theorem sized_of_buildImage {files : List (Text × List UInt8)} {img : List UInt8}
    (h : buildImage files = .ok img) (hsize : ∀ f ∈ files, f.2.length < 2 ^ 32) :
    Sized files ∧ files.length ≤ direntsPerBlock := by
  rw [buildImage] at h
  split at h
  case isTrue => cases h
  case isFalse hcount =>
    obtain ⟨s, hplace, -⟩ := Except.bind_eq_ok_iff.mp h
    exact ⟨sized_of_place hplace hsize, not_lt.mp hcount⟩

theorem placed_contents (next : Nat) (files : List (Text × List UInt8)) :
    (placed next files).map Prod.snd = files.map Prod.snd := by
  induction files generalizing next with
  | nil => rfl
  | cons file files ih => rw [placed, List.map_cons, List.map_cons, ih]

theorem buildImage_loadable {files : List (Text × List UInt8)} (hfiles : Sized files)
    (hcount : files.length ≤ direntsPerBlock) :
    ∃ img v, buildImage files = .ok img ∧ readVolume (imageBlocks img) = some v ∧ v.Loadable ∧
      ∀ (i : Nat) (name text : Text), files[i]? = some (name, text) →
        ∃ e, v.files[i]? = some (e, text) := by
  obtain ⟨img, v, himg, hread, hv, hplaced, -⟩ := buildImage_volume hfiles hcount
  refine ⟨img, v, himg, hread, ⟨hv, fun f hf => ?_⟩, fun i name text hi => ?_⟩
  · have hbound := dataBlocksOf_le hfiles
    have hmem : f.2 ∈ files.map Prod.snd := by
      rw [← placed_contents 2, ← hplaced]
      exact List.mem_map_of_mem hf
    obtain ⟨file, hfile, hsame⟩ := List.mem_map.mp hmem
    rw [hplaced] at hf
    rw [(placed_inside hfiles (by
      simp only [direntsPerBlock, blockSize, direntSize] at hcount
      omega) hf).1, ← hsame]
    exact hfiles file hfile
  · have hsnd := congrArg (·[i]?) (placed_contents 2 files)
    rw [← hplaced] at hsnd
    simp only [List.getElem?_map, hi, Option.map_some] at hsnd
    obtain ⟨⟨e, text'⟩, hget, rfl⟩ := Option.map_eq_some_iff.mp hsnd
    exact ⟨e, hget⟩

/-- A file that `mkfs` packed, with its frontmatter in the first two blocks: the loader sees
what `mkfs` saw in exactly the files that end there or have a character boundary there. -/
theorem loader_sees_mkfs_iff {files : List (Text × List UInt8)} {img : List UInt8} {i : Nat}
    {name text : Text} {rec : KbRecord} (himg : buildImage files = .ok img)
    (hsize : ∀ f ∈ files, f.2.length < 2 ^ 32) (hi : files[i]? = some (name, text))
    (hrec : Kb.parse text = some rec) (hcause : rec.matchCause.isSome = true)
    (hclosed : Kb.ClosesWithin (kbHeadBlocks * blockSize) text) :
    ∃ e, dirEntryAt (imageBlocks img 1).list i = some e ∧
      (LoaderSees (imageBlocks img) i e rec ↔ text.length ≤ kbHeadBlocks * blockSize ∨
        isCharBoundary text (kbHeadBlocks * blockSize) = true) := by
  obtain ⟨hsized, hcount⟩ := sized_of_buildImage himg hsize
  obtain ⟨img', v, himg', hread, hv, hslots⟩ := buildImage_loadable hsized hcount
  obtain rfl : img' = img := Except.ok.inj (himg'.symm.trans himg)
  obtain ⟨e, he⟩ := hslots i name text hi
  exact ⟨e, (hv.slot hread he).1, loaderSees_iff hv hread he hrec hcause hclosed⟩

/-- Frontmatter, and the start of some free text. -/
def shortEntry : Text :=
  utf8 "---\nid: KB-0006\ntitle: t\nmatch-cause: page-fault\nplaybook:\n  - p\n---\n"

theorem shortEntry_closes (n : Nat) (hn : shortEntry.length ≤ n) (free : Text) :
    Kb.ClosesWithin n (shortEntry ++ free) := by
  refine ⟨shortEntry.take (shortEntry.length - 4), utf8 "---", 10 :: free, ?_, ?_, ?_, ?_, ?_, ?_⟩
  · have hsplit : shortEntry = shortEntry.take (shortEntry.length - 4) ++ (utf8 "---" ++ [10]) := by
      decide +kernel
    nth_rewrite 1 [hsplit]
    rw [List.append_assoc, List.append_assoc, List.singleton_append]
  · decide +kernel
  · decide +kernel
  · decide +kernel
  · exact .inr (.inl ⟨free, rfl⟩)
  · have hlen : (shortEntry.take (shortEntry.length - 4)).length + (utf8 "---").length ≤
        shortEntry.length := by decide +kernel
    omega

def shortRecord : KbRecord :=
  ⟨utf8 "KB-0006", utf8 "t", utf8 "p", some (utf8 "page-fault"), 0, false⟩

/-- Free text of the letter `x` past the end of the second block. -/
def plainEntry : Text := shortEntry ++ List.replicate 1000 120

/-- A file of three blocks is seen: the cut is between two characters. -/
theorem loader_sees_mkfs_plain : ∃ img e, buildImage [(utf8 "KB-0006", plainEntry)] = .ok img ∧
    kbHeadBlocks * blockSize < plainEntry.length ∧ LoaderSees (imageBlocks img) 0 e shortRecord := by
  have hlen : plainEntry.length = 1069 := by decide +kernel
  have hall (f : Text × List UInt8) (hf : f ∈ [(utf8 "KB-0006", plainEntry)]) :
      f.2.length = 1069 := by rw [List.mem_singleton.mp hf, hlen]
  have hsized : Sized [(utf8 "KB-0006", plainEntry)] := fun f hf => by
    rw [hall f hf]
    decide
  obtain ⟨img, v, himg, -⟩ := buildImage_loadable hsized (by decide)
  have hclosed : Kb.ClosesWithin (kbHeadBlocks * blockSize) plainEntry :=
    shortEntry_closes _ (by decide +kernel) _
  have hrec : Kb.parse plainEntry = some shortRecord := by decide +kernel
  obtain ⟨e, -, hsees⟩ := loader_sees_mkfs_iff himg (fun f hf => by rw [hall f hf]; decide) (i := 0)
    rfl hrec rfl hclosed
  exact ⟨img, e, himg, by rw [hlen]; decide, hsees.mpr (.inr (by decide +kernel))⟩

/-- Free text of the letter `x` up to the last byte of the second block, and an `é` across it. -/
def longEntry : Text := shortEntry ++ (List.replicate 954 120 ++ [0xC3, 0xA9])

/-- A character across the cut hides the file from the loader. -/
theorem loader_misses_split_character : ∃ img e, buildImage [(utf8 "KB-0006", longEntry)] = .ok img ∧
    dirEntryAt (imageBlocks img 1).list 0 = some e ∧ Kb.parse longEntry = some shortRecord ∧
    Kb.ClosesWithin (kbHeadBlocks * blockSize) longEntry ∧
    ¬ LoaderSees (imageBlocks img) 0 e shortRecord := by
  have hlen : longEntry.length = 1025 := by decide +kernel
  have hsized : Sized [(utf8 "KB-0006", longEntry)] := fun f hf => by
    rw [List.mem_singleton.mp hf, hlen]
    decide
  obtain ⟨img, v, himg, hread, hv, hslots⟩ := buildImage_loadable hsized (by decide)
  obtain ⟨e, he⟩ := hslots 0 _ _ rfl
  have hclosed : Kb.ClosesWithin (kbHeadBlocks * blockSize) longEntry :=
    shortEntry_closes _ (by decide +kernel) _
  have hrec : Kb.parse longEntry = some shortRecord := by decide +kernel
  have hcut : isCharBoundary longEntry (kbHeadBlocks * blockSize) = false := by decide +kernel
  refine ⟨img, e, himg, (hv.slot hread he).1, hrec, hclosed, ?_⟩
  rw [loaderSees_iff hv hread he hrec rfl hclosed, hlen, hcut]
  decide

end Perenne

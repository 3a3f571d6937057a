import Perenne.Scan

namespace Perenne

namespace Scan

theorem fsCopyBlock_within (n : UInt32) : (fsCopyBlock n).Within 1 4 := by
  have hread : (fsReadBlock n).Within 1 3 := by
    refine ⟨by omega, fun w => ?_⟩
    change Prog.Within 1 2 (if w.cached = n.toNat then _ else _)
    split
    · trivial
    · refine ⟨by omega, by omega, fun status => ?_⟩
      change Prog.Within 0 1 (if status ≠ 0 then _ else _)
      split
      · exact ⟨by omega, fun _ => trivial⟩
      · exact ⟨by omega, fun _ => trivial⟩
  refine hread.bind (d := 0) (n := 1) fun ok => ?_
  cases ok with
  | false => trivial
  | true => exact ⟨by omega, fun _ => trivial⟩

theorem fsReadBlocks_within (start : UInt32) (len n i : Nat) (buf : Text) :
    (fsReadBlocks start len i n buf).Within n (4 * n) := by
  induction n generalizing i buf with
  | zero => trivial
  | succ n ih =>
    rw [fsReadBlocks]
    cases addU32 start (.ofNat i) with
    | error e => trivial
    | ok block =>
      rw [Prog.lift_ok_bind]
      refine ((fsCopyBlock_within block).bind (d := n) (n := 4 * n) fun b => ?_).mono (by omega)
        (by omega)
      cases b with
      | none => trivial
      | some blk => exact ih _ _

theorem fsReadExtentHead_within (start byteLen : UInt32) :
    (fsReadExtentHead start byteLen).Within kbHeadBlocks (4 * kbHeadBlocks) := by
  unfold fsReadExtentHead
  generalize blockCount byteLen = b
  cases b with
  | error e => trivial
  | ok count =>
    have hn := Nat.min_le_right count.toNat kbHeadBlocks
    exact (fsReadBlocks_within ..).mono hn (Nat.mul_le_mul_left 4 hn)

theorem loadEntries_within (dir : List UInt8) (idx : List Nat) :
    (loadEntries dir idx).Within (2 * (idx.filter (· < direntsPerBlock)).length)
      (9 * (idx.filter (· < direntsPerBlock)).length) := by
  induction idx with
  | nil => trivial
  | cons i idx ih =>
    unfold loadEntries
    cases hent : dirEntryAt dir i with
    | none => trivial
    | some ent =>
      have hi : i < direntsPerBlock := by
        by_contra hi
        rw [dirEntryAt, if_pos (.inl (Nat.le_of_not_lt hi))] at hent
        cases hent
      rw [List.filter_cons_of_pos (by simpa using hi), List.length_cons]
      generalize (idx.filter (· < direntsPerBlock)).length = n at ih ⊢
      refine ((fsReadExtentHead_within _ _).bind (d := 2 * n) (n := 1 + 9 * n) fun r => ?_).mono
        (by simp only [kbHeadBlocks]; omega) (by simp only [kbHeadBlocks]; omega)
      cases r with
      | none => exact ih.mono (Nat.le_refl _) (by omega)
      | some bytes =>
        dsimp only
        cases Kb.parse bytes with
        | none => exact ih.mono (Nat.le_refl _) (by omega)
        | some rec =>
          dsimp only
          unfold installRecord
          split
          · exact ⟨by omega, fun _ => ih.mono (Nat.le_refl _) (by omega)⟩
          · exact ih.mono (Nat.le_refl _) (by omega)

theorem length_slots (n : Nat) :
    ((List.range n).filter (· < direntsPerBlock)).length ≤ direntsPerBlock := by
  have hsub : (List.range n).filter (· < direntsPerBlock) ⊆ List.range direntsPerBlock := by
    intro i hi
    exact List.mem_range.mpr (of_decide_eq_true (List.mem_filter.mp hi).2)
  have hnodup : ((List.range n).filter (· < direntsPerBlock)).Nodup := List.nodup_range.filter _
  simpa using hnodup.length_le_of_subset hsub

theorem kbLoader_within : kbLoader.Within 18 80 := by
  refine (fsCopyBlock_within 0).bind (d := 17) (n := 76) fun sbBuf => ?_
  cases sbBuf with
  | none => trivial
  | some sbBuf =>
    dsimp only
    cases Superblock.decode sbBuf.list with
    | none => trivial
    | some sb =>
      refine (fsCopyBlock_within sb.dirBlock).bind (d := 16) (n := 72) fun dir => ?_
      cases dir with
      | none => trivial
      | some dir =>
        have hslots := length_slots sb.dirEntries.toNat
        exact (loadEntries_within dir.list _).mono (Nat.mul_le_mul_left 2 hslots)
          (Nat.mul_le_mul_left 9 hslots)

end Scan

/-- The sums made for the entry fit 32 bits: its length rounded up, and its second block
where it has one. -/
def DirEntry.Fits (ent : DirEntry) : Prop :=
  ent.byteLen.toNat + 512 < 2 ^ 32 ∧ (512 < ent.byteLen.toNat → ent.startBlock.toNat + 1 < 2 ^ 32)

/-- The directory the loader works on: after a block number with the high bit set, which asks
for a write, the page still holds the superblock. -/
def dirBytes (disk : Nat → Block) (sb : Superblock) : List UInt8 :=
  if sb.dirBlock.toNat < 2 ^ 31 then (disk sb.dirBlock.toNat).list else (disk 0).list

/-- The sums fit for every entry the loader looks at. -/
def EntriesFit (disk : Nat → Block) : Prop :=
  ∀ sb, Superblock.decode (disk 0).list = some sb → ∀ i < sb.dirEntries.toNat, ∀ ent,
    dirEntryAt (dirBytes disk sb) i = some ent → ent.Fits

/-- The scan of a disk, whatever the device answers, whenever components crash and whatever is
left in the buffers: it does not panic, installs no more than `MAX_ISSUES` entries, goes on
until it returns, within 80 steps of its own, and reads no more than `KB_HEAD_BLOCKS` blocks for
an entry. -/
structure ScansSafely (disk : Nat → Block) : Prop where
  safe (filebuf : Nat → Bytes fsFilebufLen) (page : Block) (ms : List (Prog.Move Fate Cause))
    (p : Io (Nat × Nat)) (w : World) (hrun : Transition.run (Prog.step World.serve crash)
      (Scan.kbScan filebuf, ⟨disk, page, -1, .empty⟩) ms = some (p, w)) :
    (∀ e, p ≠ .stop e) ∧ w.heal.table.length ≤ maxIssues ∧
    (ms.filter Prog.Move.isOwn).length ≤ 80 ∧ (p.result = none →
      ∃ m c, Prog.Move.isOwn m ∧ Prog.step World.serve crash (p, w) m = some c)
  heads (filebuf : Bytes fsFilebufLen) (start byteLen : UInt32) (w : World)
    (ms : List (Prog.Move Fate Cause)) (c : Io (Option Text) × World)
    (hrun : Transition.run (Prog.step World.serve crash)
      (Scan.readExtentHead filebuf start byteLen, w) ms = some c) :
    (ms.filter Prog.Move.isServe).length ≤ kbHeadBlocks

namespace Scan

/-- What `fs_read_block` finds in the page when the device makes no error; a block number with
the high bit set asks for a write, and leaves the page as it is. -/
def fetched (w : World) (n : UInt32) : Block :=
  if n.toNat < 2 ^ 31 ∧ w.cached ≠ n.toNat then w.disk n.toNat else w.page

/-- The state after it. -/
structure Fetched (w : World) (n : UInt32) (w' : World) : Prop where
  page : w'.page = fetched w n
  cached : w'.cached = n.toNat
  disk (hn : n.toNat < 2 ^ 31) : w'.disk = w.disk

theorem fetched_others {H : Heal → Heal → Prop} {w w' : World} (h : Others H w w') (n : UInt32) :
    fetched w' n = fetched w n := by
  rw [fetched, fetched, h.cached, h.disk, h.page]

theorem serve_fetches {w w' : World} {n : UInt32} {fate : Fate} (hmiss : w.cached ≠ n.toNat)
    (h : World.serve fate w n.toNat = some (0, w')) :
    w'.page = fetched w n ∧ (n.toNat < 2 ^ 31 → w'.disk = w.disk) := by
  cases fate with
  | failed status stored page =>
    rw [World.serve] at h
    split at h
    case isTrue => cases h
    case isFalse hst => exact absurd (Prod.mk.inj (Option.some.inj h)).1 hst
  | done =>
    rw [serve_decodeBadge] at h
    obtain ⟨-, rfl⟩ := Prod.mk.inj (Option.some.inj h)
    rw [fetched]
    by_cases hn : n.toNat < 2 ^ 31
    · rw [decodeBadge_read hn, if_pos ⟨hn, hmiss⟩]
      exact ⟨rfl, fun _ => rfl⟩
    · rw [decodeBadge_high (Nat.le_of_not_lt hn) n.toNat_lt, if_neg fun h => hn h.1]
      exact ⟨rfl, fun h => absurd h hn⟩

section Sound

variable {w : World}

/-- What is said of a part of the scan: it does not panic, and the table does not grow past
its room. -/
abbrev ScanSound {α : Type} (Post : α → World → Prop) (p : Io α) (w : World) : Prop :=
  FsSound World.serve Crashed (fun _ _ => True) (fun w' => w'.heal.table.length ≤ maxIssues)
    (fun _ => False) (fun a w' => w'.heal.table.length ≤ maxIssues ∧ Post a w') p w

theorem table_others {w' : World} (h : Others Crashed w w') :
    w'.heal.table.length = w.heal.table.length := h.heal.length_eq.symm

theorem scanSound_ret {α : Type} {Post : α → World → Prop} {a : α}
    (hw : w.heal.table.length ≤ maxIssues) (hpost : ∀ w', Others Crashed w w' → Post a w') :
    ScanSound Post (.ret a) w := by
  intro w' h
  have hw' := table_others h ▸ hw
  exact ⟨hw', hw', hpost w' h⟩

theorem length_install {h : Heal} {id title playbook : Text} {matchCause : Option Text}
    {seen startBlock : Nat} {escalated : Bool} (hroom : h.table.length ≤ maxIssues) :
    (h.install id title playbook matchCause seen escalated startBlock).1.table.length ≤
      maxIssues := by
  unfold Heal.install
  split
  case isTrue => exact hroom
  case isFalse hfree =>
    rw [List.length_append, List.length_singleton]
    omega

theorem fsReadBlock_scan (n : UInt32) (hw : w.heal.table.length ≤ maxIssues) :
    ScanSound (fun ok w' => ok = true → Fetched w n w') (fsReadBlock n) w := by
  intro w₁ h₁
  have hw₁ := (table_others h₁).trans_le hw
  refine ⟨hw₁, trivial, ?_⟩
  change ScanSound _ (if w₁.cached = n.toNat then _ else _) w₁
  split
  case isTrue hhit =>
    refine scanSound_ret hw₁ fun w₂ h₂ _ =>
      ⟨?_, h₂.cached.trans hhit, fun _ => h₂.disk.trans h₁.disk⟩
    rw [← fetched_others h₁, fetched, if_neg fun h => h.2 hhit, h₂.page]
  case isFalse hmiss =>
    intro w₂ h₂
    have hw₂ := (table_others h₂).trans_le hw₁
    refine ⟨hw₂, fun fate status w₃ hserve => ⟨trivial, ?_⟩⟩
    have hw₃ : w₃.heal.table.length ≤ maxIssues := by rwa [serve_heal hserve]
    change ScanSound _ (if status ≠ 0 then _ else _) w₃
    split
    case isTrue hst =>
      intro w₄ h₄
      have hw₄ := (table_others h₄).trans_le hw₃
      exact ⟨hw₄, trivial, scanSound_ret hw₄ fun w₅ h₅ hok => (by cases hok)⟩
    case isFalse hst =>
      intro w₄ h₄
      have hw₄ := (table_others h₄).trans_le hw₃
      obtain ⟨hpage, hdisk⟩ := serve_fetches (h₂.cached ▸ hmiss) (not_not.mp hst ▸ hserve)
      have hothers := crashed_client.others_trans h₁ h₂
      refine ⟨hw₄, trivial, scanSound_ret hw₄ fun w₅ h₅ _ => ⟨?_, h₅.cached, fun hn => ?_⟩⟩
      · rw [← fetched_others hothers, ← hpage, ← h₄.page]
        exact h₅.page
      · rw [← hothers.disk, ← hdisk hn, ← h₄.disk]
        exact h₅.disk

theorem fsCopyBlock_scan (n : UInt32) (hw : w.heal.table.length ≤ maxIssues) :
    ScanSound (fun b w' => ∀ blk, b = some blk → blk = fetched w n ∧ Fetched w n w')
      (fsCopyBlock n) w := by
  apply Prog.Sound.bind crashed_client.lawful
  apply (fsReadBlock_scan n hw).mono
  rintro ok w₁ ⟨hw₁, hfetch⟩
  cases ok with
  | false => exact scanSound_ret hw₁ fun w₂ h₂ blk hblk => (by cases hblk)
  | true =>
    intro w₂ h₂
    have hw₂ := (table_others h₂).trans_le hw₁
    refine ⟨hw₂, trivial, scanSound_ret hw₂ fun w₃ h₃ blk hblk => ?_⟩
    have hothers := crashed_client.others_trans h₂ h₃
    have hf := hfetch rfl
    refine ⟨?_, hothers.page.trans hf.page, hothers.cached.trans hf.cached,
      fun hn => hothers.disk.trans (hf.disk hn)⟩
    rw [← Option.some.inj hblk, h₂.page, hf.page]

theorem fsReadBlocks_scan {start : UInt32} (len n i : Nat) (buf : Text)
    (hn : start.toNat + i + n ≤ 2 ^ 32) (hw : w.heal.table.length ≤ maxIssues) :
    ScanSound (fun _ _ => True) (fsReadBlocks start len i n buf) w := by
  induction n generalizing i buf w with
  | zero => exact scanSound_ret hw fun _ _ => trivial
  | succ n ih =>
    have hi : (UInt32.ofNat i).toNat = i := by
      rw [UInt32.toNat_ofNat']
      omega
    obtain ⟨block, hblock, -⟩ := addU32_ok (x := start) (y := .ofNat i) (by omega)
    rw [fsReadBlocks, hblock, Prog.lift_ok_bind]
    apply Prog.Sound.bind crashed_client.lawful
    apply (fsCopyBlock_scan _ hw).mono
    rintro b w₁ ⟨hw₁, -⟩
    cases b with
    | none => exact scanSound_ret hw₁ fun _ _ => trivial
    | some blk => exact ih _ _ (by omega) hw₁

theorem fsReadExtentHead_scan {ent : DirEntry} (hfits : ent.Fits)
    (hw : w.heal.table.length ≤ maxIssues) :
    ScanSound (fun _ _ => True) (fsReadExtentHead ent.startBlock ent.byteLen) w := by
  obtain ⟨hlen, hsecond⟩ := hfits
  have hstart := ent.startBlock.toNat_lt
  have hblocks := blockCount_ok hlen
  unfold fsReadExtentHead
  -- The count stays symbolic, or the goal would compute with it.
  generalize blockCount ent.byteLen = b at hblocks ⊢
  obtain ⟨count, rfl, hcount⟩ := hblocks
  rw [Prog.lift_ok_bind, hcount]
  refine fsReadBlocks_scan _ _ 0 _ ?_ hw
  simp only [kbHeadBlocks]
  omega

theorem loadEntries_scan {dir : List UInt8} {idx : List Nat}
    (hdir : ∀ i ∈ idx, ∀ ent, dirEntryAt dir i = some ent → ent.Fits)
    (hw : w.heal.table.length ≤ maxIssues) :
    ScanSound (fun _ _ => True) (loadEntries dir idx) w := by
  induction idx generalizing w with
  | nil => exact scanSound_ret hw fun _ _ => trivial
  | cons i idx ih =>
    have ih {w : World} := ih (w := w) fun j hj => hdir j (List.mem_cons_of_mem _ hj)
    unfold loadEntries
    cases hent : dirEntryAt dir i with
    | none => exact scanSound_ret hw fun _ _ => trivial
    | some ent =>
      apply Prog.Sound.bind crashed_client.lawful
      apply (fsReadExtentHead_scan (hdir i List.mem_cons_self ent hent) hw).mono
      rintro r w₁ ⟨hw₁, -⟩
      cases r with
      | none => exact ih hw₁
      | some bytes =>
      dsimp only
      cases Kb.parse bytes with
      | none => exact ih hw₁
      | some rec =>
      dsimp only
      unfold installRecord
      split
      case isFalse => exact ih hw₁
      case isTrue =>
        intro w₂ h₂
        have hw₂ := (table_others h₂).trans_le hw₁
        refine ⟨hw₂, trivial, ih ?_⟩
        exact length_install hw₂

theorem fetched_superblock {disk : Nat → Block} {page : Block} {heal : Heal} :
    fetched ⟨disk, page, -1, heal⟩ 0 = disk 0 := by
  rw [fetched, if_pos ⟨by decide, by change (-1 : Int) ≠ (0 : Nat); decide⟩]
  rfl

theorem fetched_directory {disk : Nat → Block} (hpage : w.page = disk 0) (hcached : w.cached = 0)
    (hdisk : w.disk = disk) (sb : Superblock) :
    (fetched w sb.dirBlock).list = dirBytes disk sb := by
  rw [fetched, dirBytes, hcached, hpage, hdisk]
  by_cases hlow : sb.dirBlock.toNat < 2 ^ 31
  · by_cases hzero : sb.dirBlock.toNat = 0
    · rw [if_pos hlow, if_neg fun h => h.2 (by rw [hzero]; rfl), hzero]
    · rw [if_pos hlow, if_pos ⟨hlow, fun h => hzero (Int.ofNat.inj h).symm⟩]
  · rw [if_neg hlow, if_neg fun h => hlow h.1]

theorem kbLoader_scan {disk : Nat → Block} (page : Block) (hfit : EntriesFit disk) :
    ScanSound (fun _ _ => True) kbLoader ⟨disk, page, -1, .empty⟩ := by
  unfold kbLoader
  apply Prog.Sound.bind crashed_client.lawful
  apply (fsCopyBlock_scan 0 (Nat.zero_le _)).mono
  rintro sbBuf w₁ ⟨hw₁, hsuper⟩
  cases sbBuf with
  | none => exact scanSound_ret hw₁ fun _ _ => trivial
  | some sbBuf =>
  obtain ⟨rfl, hf⟩ := hsuper _ rfl
  rw [fetched_superblock]
  dsimp only
  cases hsb : Superblock.decode (disk 0).list with
  | none => exact scanSound_ret hw₁ fun _ _ => trivial
  | some sb =>
  apply Prog.Sound.bind crashed_client.lawful
  apply (fsCopyBlock_scan sb.dirBlock hw₁).mono
  rintro dir w₂ ⟨hw₂, hread⟩
  cases dir with
  | none => exact scanSound_ret hw₂ fun _ _ => trivial
  | some dir =>
  obtain ⟨rfl, -⟩ := hread _ rfl
  dsimp only
  rw [fetched_directory (hf.page.trans fetched_superblock) hf.cached (hf.disk (by decide))]
  exact loadEntries_scan (fun i hi => hfit sb hsb i (List.mem_range.mp hi)) hw₂

end Sound

section Eval

variable {w : World}

def answer (w : World) (badge : Nat) : Nat × World :=
  (0, w.transfer (decodeBadge badge).1 (decodeBadge badge).2)

theorem fsReadBlock_eval (w : World) (n : UInt32) :
    ∃ w', (fsReadBlock n).eval answer w = (.ok true, w') ∧ Fetched w n w' := by
  by_cases hhit : w.cached = n.toNat
  · refine ⟨w, ?_, ?_, hhit, fun _ => rfl⟩
    · change Prog.eval answer (if w.cached = n.toNat then _ else _) w = _
      rw [if_pos hhit]
      rfl
    · rw [fetched, if_neg fun h => h.2 hhit]
  · have hserve : World.serve .done w n.toNat = some (answer w n.toNat) := serve_decodeBadge ..
    obtain ⟨hpage, hdisk⟩ := serve_fetches hhit hserve
    refine ⟨{ (answer w n.toNat).2 with cached := n.toNat }, ?_, hpage, rfl, hdisk⟩
    change Prog.eval answer (if w.cached = n.toNat then _ else _) w = _
    rw [if_neg hhit]
    rfl

theorem fsCopyBlock_eval (w : World) (n : UInt32) :
    ∃ w', (fsCopyBlock n).eval answer w = (.ok (some (fetched w n)), w') ∧ Fetched w n w' := by
  obtain ⟨w', heval, hf⟩ := fsReadBlock_eval w n
  refine ⟨w', ?_, hf⟩
  rw [fsCopyBlock, Prog.eval_bind_ok heval, ← hf.page]
  rfl

theorem fsReadBlocks_eval {start : UInt32} (len n i : Nat) (buf : Text)
    (hn : start.toNat + i + n ≤ 2 ^ 32) (w : World) :
    ∃ r w', (fsReadBlocks start len i n buf).eval answer w = (.ok r, w') := by
  induction n generalizing i buf w with
  | zero => exact ⟨_, w, rfl⟩
  | succ n ih =>
    have hi : (UInt32.ofNat i).toNat = i := by
      rw [UInt32.toNat_ofNat']
      omega
    obtain ⟨block, hblock, -⟩ := addU32_ok (x := start) (y := .ofNat i) (by omega)
    obtain ⟨w₁, heval, -⟩ := fsCopyBlock_eval w block
    rw [fsReadBlocks, hblock, Prog.lift_ok_bind, Prog.eval_bind_ok heval]
    exact ih _ _ (by omega) w₁

theorem fsReadExtentHead_eval {ent : DirEntry} (w : World) :
    (ent.Fits → ∃ r w', (fsReadExtentHead ent.startBlock ent.byteLen).eval answer w = (.ok r, w')) ∧
    (¬ ent.Fits →
      ∃ e w', (fsReadExtentHead ent.startBlock ent.byteLen).eval answer w = (.error e, w')) := by
  have hover := blockCount_overflow (n := ent.byteLen)
  have hblocks := blockCount_ok (n := ent.byteLen)
  have hstart := ent.startBlock.toNat_lt
  unfold fsReadExtentHead
  generalize blockCount ent.byteLen = b at hblocks hover ⊢
  by_cases hlen : ent.byteLen.toNat + 512 < 2 ^ 32
  · obtain ⟨count, rfl, hcount⟩ := hblocks hlen
    rw [Prog.lift_ok_bind, hcount]
    constructor
    · rintro ⟨-, hsecond⟩
      refine fsReadBlocks_eval _ _ 0 _ ?_ w
      simp only [kbHeadBlocks]
      omega
    · intro hbad
      have hbad : 512 < ent.byteLen.toNat ∧ ¬ ent.startBlock.toNat + 1 < 2 ^ 32 := by
        rw [DirEntry.Fits] at hbad
        omega
      have htwo : min ((ent.byteLen.toNat + 511) / 512) kbHeadBlocks = 1 + 1 :=
        Nat.min_eq_right (by simp only [kbHeadBlocks]; omega)
      obtain ⟨block, hblock, -⟩ := addU32_ok (x := ent.startBlock) (y := .ofNat 0)
        (by change _ + 0 < _; omega)
      obtain ⟨w₁, heval, -⟩ := fsCopyBlock_eval w block
      have hsum : addU32 ent.startBlock (.ofNat (0 + 1)) = .error .overflow := if_neg hbad.2
      refine ⟨.overflow, w₁, ?_⟩
      dsimp only
      rw [htwo, fsReadBlocks, hblock, Prog.lift_ok_bind, Prog.eval_bind_ok heval]
      dsimp only
      rw [fsReadBlocks, hsum]
      rfl
  · rw [hover hlen]
    exact ⟨fun h => absurd h.1 hlen, fun _ => ⟨.overflow, w, rfl⟩⟩

theorem loadEntries_eval {dir : List UInt8} {i : Nat} {ent : DirEntry} (a b : List Nat)
    (ha : ∀ j ∈ a, (dirEntryAt dir j).isSome) (hent : dirEntryAt dir i = some ent)
    (hbad : ¬ ent.Fits) (w : World) :
    ∃ e w', (loadEntries dir (a ++ i :: b)).eval answer w = (.error e, w') := by
  induction a generalizing w with
  | nil =>
    obtain ⟨e, w', heval⟩ := (fsReadExtentHead_eval w).2 hbad
    refine ⟨e, w', ?_⟩
    rw [List.nil_append, loadEntries, hent]
    exact Prog.eval_bind_error heval
  | cons j a ih =>
    have ih := ih fun k hk => ha k (List.mem_cons_of_mem _ hk)
    obtain ⟨ent', hent'⟩ := Option.isSome_iff_exists.mp (ha j List.mem_cons_self)
    rw [List.cons_append, loadEntries, hent']
    by_cases hfits : ent'.Fits
    · obtain ⟨r, w₁, heval⟩ := (fsReadExtentHead_eval w).1 hfits
      dsimp only
      rw [Prog.eval_bind_ok heval]
      cases r with
      | none => exact ih w₁
      | some bytes =>
        dsimp only
        cases Kb.parse bytes with
        | none => exact ih w₁
        | some rec =>
          dsimp only
          unfold installRecord
          split
          · exact ih _
          · exact ih w₁
    · obtain ⟨e, w', heval⟩ := (fsReadExtentHead_eval w).2 hfits
      exact ⟨e, w', Prog.eval_bind_error heval⟩

theorem kbLoader_eval {disk : Nat → Block} (page : Block) (hbad : ¬ EntriesFit disk) :
    ∃ e w', kbLoader.eval answer ⟨disk, page, -1, .empty⟩ = (.error e, w') := by
  simp only [EntriesFit, not_forall] at hbad
  obtain ⟨sb, hsb, i, hi, ent, hent, hbad⟩ := hbad
  obtain ⟨w₁, hsuper, hf⟩ := fsCopyBlock_eval ⟨disk, page, -1, .empty⟩ 0
  obtain ⟨w₂, hread, -⟩ := fsCopyBlock_eval w₁ sb.dirBlock
  have hbefore : ∀ j ∈ List.range i, (dirEntryAt (dirBytes disk sb) j).isSome := by
    intro j hj
    have hj := List.mem_range.mp hj
    have hslot :
        ¬ (i ≥ direntsPerBlock ∨ i * direntSize + direntSize > (dirBytes disk sb).length) := by
      intro h
      rw [dirEntryAt, if_pos h] at hent
      cases hent
    simp only [direntsPerBlock, direntSize] at hslot
    rw [dirEntryAt, if_neg (by simp only [direntsPerBlock, direntSize]; omega)]
    rfl
  have hsplit : List.range sb.dirEntries.toNat = List.range i ++ i ::
      (List.range (sb.dirEntries.toNat - i - 1)).map (fun k => i + (k + 1)) := by
    rw [show sb.dirEntries.toNat = i + (sb.dirEntries.toNat - i - 1 + 1) by omega, List.range_add,
      List.range_succ_eq_map]
    simp
  rw [fetched_superblock] at hsuper
  rw [kbLoader, Prog.eval_bind_ok hsuper]
  dsimp only
  rw [hsb]
  dsimp only
  rw [Prog.eval_bind_ok hread]
  dsimp only
  rw [fetched_directory (hf.page.trans fetched_superblock) hf.cached (hf.disk (by decide)), hsplit]
  exact loadEntries_eval _ _ hbefore hent hbad w₂

end Eval

theorem step_of_running {α : Type} {p : Io α} {w : World} (hsafe : ∀ e, p ≠ .stop e)
    (hp : p.result = none) :
    ∃ m c, Prog.Move.isOwn m ∧ Prog.step World.serve crash (p, w) m = some c := by
  cases p with
  | ret a => cases hp
  | stop e => exact absurd rfl (hsafe e)
  | act u k => exact ⟨.run, _, rfl, rfl⟩
  | call i k => exact ⟨.serve .done, _, rfl, rfl⟩

theorem fits_of_scansSafely {disk : Nat → Block} (h : ScansSafely disk) : EntriesFit disk := by
  by_contra hbad
  let filebuf : Nat → Bytes fsFilebufLen := fun _ => .pad fsFilebufLen []
  obtain ⟨e, w', heval⟩ := kbLoader_eval (.pad blockSize []) hbad
  rw [← kbScan_eq filebuf] at heval
  cases hscan : (kbScan filebuf).eval answer ⟨disk, .pad blockSize [], -1, .empty⟩ with
  | mk r w₁ =>
    cases r with
    | ok a =>
      rw [Prog.eval_bind_ok hscan] at heval
      cases heval
    | error e =>
      obtain ⟨ms, hrun⟩ := Prog.eval_error_run crash Fate.done serve_decodeBadge hscan
      exact (h.safe filebuf _ ms _ _ hrun).1 e rfl

end Scan

/-- The scan of a disk is safe exactly where, for each entry of the directory, the rounding
of its length and the number of its second block stay below 2^32. -/
theorem kb_scan_safe_iff (disk : Nat → Block) : ScansSafely disk ↔ EntriesFit disk := by
  refine ⟨Scan.fits_of_scansSafely, fun hfit => ⟨?_, ?_⟩⟩
  · intro filebuf page ms p w hrun
    have hloader := Prog.run_bind (fun _ => .ret ()) hrun
    rw [Scan.kbScan_eq] at hloader
    have hsound := (Scan.kbLoader_scan page hfit).run crashed_client.lawful crash_others hloader
    have hsafe : ∀ e, p ≠ .stop e := by
      rintro e rfl
      exact (hsound w (crashed_client.others_refl w)).2
    exact ⟨hsafe, hsound.inv (crashed_client.others_refl w), (Scan.kbLoader_within.run hloader).2,
      Scan.step_of_running hsafe⟩
  · intro filebuf start byteLen w ms c hrun
    rw [Scan.readExtentHead_eq] at hrun
    exact ((Scan.fsReadExtentHead_within start byteLen).run hrun).1

/-- A volume with one entry, of 2^32 - 1 bytes. -/
def oversizedDisk : Nat → Block :=
  Function.update (Function.update (fun _ => .pad blockSize [])
    0 (.pad blockSize (Superblock.bytes ⟨fsMagic, fsVersion, 512, 1, 1, 3⟩)))
    1 (.pad blockSize (DirEntry.bytes (.new (utf8 "KB-0001.md") 2 0xffffffff)))

/-- `block_count` overflows on it. -/
theorem kb_scan_overflow : ∃ disk, ¬ ScansSafely disk := by
  refine ⟨oversizedDisk, fun h => ?_⟩
  have hsb : Superblock.decode (oversizedDisk 0).list =
      some ⟨fsMagic, fsVersion, 512, 1, 1, 3⟩ := by
    decide +kernel
  have hent : ((dirEntryAt (oversizedDisk 1).list 0).map (·.byteLen.toNat)) = some 0xffffffff := by
    decide +kernel
  obtain ⟨ent, hent, hlen⟩ := Option.map_eq_some_iff.mp hent
  have hfits := Scan.fits_of_scansSafely h _ hsb 0 (by decide) ent hent
  rw [DirEntry.Fits, hlen] at hfits
  omega

end Perenne

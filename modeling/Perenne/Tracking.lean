import Perenne.Rewrites
import Perenne.Novelty

namespace Perenne

/-- The counters of a file are not ahead of those in the table, as far as five digits go. -/
def Behind (rec : KbRecord) (i : KnownIssue) : Prop :=
  rec.seen ≤ min i.seen 99999 ∧ (rec.escalated = true → i.escalated = true)

/-- What is said of the record in a file and the entry in the table: it holds of an entry that
was just read, and diagnoses keep it. -/
structure Bookkeeping (P : KbRecord → KnownIssue → Prop) : Prop where
  behind (rec : KbRecord) (i : KnownIssue) (h : P rec i) : Behind rec i
  fresh (rec : KbRecord) (i : KnownIssue) (hseen : i.seen = rec.seen) (hsmall : rec.seen ≤ 99999)
    (hesc : i.escalated = rec.escalated) : P rec i
  bump (rec : KbRecord) (i : KnownIssue) (h : P rec i) : P rec (Heal.bump i)

/-- The tokens in the latch are those of the crash path. -/
def Tokens (h : Heal) : Prop :=
  ∀ token, h.novelToken = some token → ∃ cause, Heal.causeToken cause = some token

def Diagnosed (h h' : Heal) : Prop := TableBumped h.table h'.table ∧ (Tokens h → Tokens h')

/-- Each entry stands for a file of its own, and the files with counters are as `P` says. -/
structure Follows (P : KbRecord → KnownIssue → Prop) (v : Volume) (t : List KnownIssue) :
    Prop where
  starts : (t.map KnownIssue.startBlock).Nodup
  file (i : KnownIssue) (hi : i ∈ t) :
    ∃ f ∈ v.files, f.1.startBlock.toNat = i.startBlock ∧ f.1.Has i.startBlock
  room : t.length ≤ v.files.length
  counters (i : KnownIssue) (hi : i ∈ t) (f : DirEntry × List UInt8) (hf : f ∈ v.files)
    (hstart : f.1.startBlock.toNat = i.startBlock) (hcar : Kb.Carries f.2) :
    ∃ rec, Kb.parse (Kb.headOf f.2) = some rec ∧ P rec i

/-- Table and volume at one moment. -/
structure Tracked (P : KbRecord → KnownIssue → Prop) (w : World) (v : Volume) : Prop where
  volume : readVolume w.disk = some v
  loadable : v.Loadable
  apart : v.Apart
  follows : Follows P v w.heal.table
  tokens : Tokens w.heal

/-- A file of an entry, later. -/
structure FileGrown (f f' : DirEntry × List UInt8) : Prop where
  entry : f'.1 = f.1
  alike : blurred f'.2 = blurred f.2
  own (rec : KbRecord) (hcar : Kb.Carries f.2) (hrec : Kb.parse (Kb.headOf f.2) = some rec) :
    ∃ rec', Kb.parse (Kb.headOf f'.2) = some rec' ∧ rec.seen ≤ rec'.seen ∧
      (rec.escalated = true → rec'.escalated = true) ∧
      ∀ k, ¬ Kb.inCounters f.2 k → f'.2[k]? = f.2[k]?

theorem FileGrown.refl (f : DirEntry × List UInt8) : FileGrown f f :=
  ⟨rfl, rfl, fun rec _ hrec => ⟨rec, hrec, Nat.le_refl _, id, fun _ _ => rfl⟩⟩

theorem FileGrown.trans {f f' f'' : DirEntry × List UInt8} (h : FileGrown f f')
    (h' : FileGrown f' f'') : FileGrown f f'' := by
  refine ⟨h'.entry.trans h.entry, h'.alike.trans h.alike, fun rec hcar hrec => ?_⟩
  obtain ⟨rec', hrec', hseen, hesc, hbytes⟩ := h.own rec hcar hrec
  obtain ⟨rec'', hrec'', hseen', hesc', hbytes'⟩ := h'.own rec' (hcar.rewritten h.alike) hrec'
  refine ⟨rec'', hrec'', hseen.trans hseen', fun he => hesc' (hesc he), fun k hk => ?_⟩
  rw [hbytes' k (mt (Kb.inCounters_blurred h.alike k).mp hk), hbytes k hk]

/-- The files that were there have grown, and others have come behind them. -/
def Volume.Grown (v v' : Volume) : Prop :=
  List.Forall₂ FileGrown v.files (v'.files.take v.files.length)

theorem Volume.Grown.refl (v : Volume) : v.Grown v := by
  rw [Volume.Grown, List.take_length]
  exact List.forall₂_same.mpr fun f _ => .refl f

theorem Volume.Grown.trans {v v' v'' : Volume} (h : v.Grown v') (h' : v'.Grown v'') :
    v.Grown v'' := by
  have hlen : v.files.length ≤ v'.files.length := by
    have := h.length_eq
    rw [List.length_take] at this
    omega
  have htake := List.forall₂_take v.files.length h'
  rw [List.take_take, Nat.min_eq_left hlen] at htake
  exact forall₂_trans (R := FileGrown) (fun _ _ _ => FileGrown.trans) h htake

/-- What was on the disk is still there. -/
def Grows (w w' : World) : Prop :=
  ∀ v, readVolume w.disk = some v → ∃ v', readVolume w'.disk = some v' ∧ v.Grown v'

theorem Grows.of_disk {w w' : World} (h : w'.disk = w.disk) : Grows w w' :=
  fun v hv => ⟨v, h ▸ hv, .refl v⟩

theorem Grows.trans {w w' w'' : World} (h : Grows w w') (h' : Grows w' w'') : Grows w w'' := by
  intro v hv
  obtain ⟨v', hv', hgrown⟩ := h v hv
  obtain ⟨v'', hv'', hgrown'⟩ := h' v' hv'
  exact ⟨v'', hv'', hgrown.trans hgrown'⟩

theorem diagnosed_client (Ok : Fate → Prop) : Client (serveOk Ok) Ok Diagnosed Grows :=
  serveOk_client (fun _ => ⟨.refl _, id⟩)
    (fun _ _ _ h12 h23 => ⟨h12.1.trans h23.1, fun h => h23.2 (h12.2 h)⟩) fun _ _ => .of_disk

theorem diagnosed_loads : Loads Tokens Diagnosed :=
  ⟨fun _ _ h => h.1, fun _ _ h => h.2, fun _ _ h => h⟩

theorem onCrash_diagnosed (h : Heal) (cause : Cause) : Diagnosed h (h.onCrash cause).1 := by
  refine ⟨Heal.onCrash_bumped h cause, fun ht => ?_⟩
  unfold Heal.onCrash
  split
  case h_1 pos _ =>
    intro token hnovel
    rw [noteDiagnosis_novelToken] at hnovel
    exact ht token hnovel
  case h_2 =>
    dsimp only
    unfold Heal.noteUnmatched
    split
    case h_1 token htoken _ =>
      intro token' hnovel
      obtain rfl := Option.some.inj hnovel
      exact ⟨cause, htoken⟩
    case h_2 => exact ht

theorem startBlocks_bumped {t t' : List KnownIssue} (h : TableBumped t t') :
    t'.map KnownIssue.startBlock = t.map KnownIssue.startBlock :=
  h.map_eq fun _ _ hi => hi.face.2.2.2.2

section Moments

variable {P : KbRecord → KnownIssue → Prop} (hP : Bookkeeping P) {v : Volume}
  {t t' : List KnownIssue} {w w' : World}

include hP

theorem Bookkeeping.bumped {rec : KbRecord} {i i' : KnownIssue} (h : P rec i) (hb : i.Bumped i') :
    P rec i' := by
  obtain ⟨n, rfl⟩ := hb
  induction n generalizing i with
  | zero => exact h
  | succ n ih => exact ih (hP.bump rec i h)

theorem Follows.bumped (h : Follows P v t) (hb : TableBumped t t') : Follows P v t' := by
  refine ⟨?_, fun i' hi' => ?_, ?_, fun i' hi' f hf hstart hcar => ?_⟩
  · rw [startBlocks_bumped hb]
    exact h.starts
  · obtain ⟨i, hi, hbi⟩ := hb.mem_right hi'
    rw [hbi.face.2.2.2.2]
    exact h.file i hi
  · rw [← hb.length_eq]
    exact h.room
  · obtain ⟨i, hi, hbi⟩ := hb.mem_right hi'
    rw [hbi.face.2.2.2.2] at hstart
    obtain ⟨rec, hrec, hp⟩ := h.counters i hi f hf hstart hcar
    exact ⟨rec, hrec, hP.bumped hp hbi⟩

omit hP in
theorem Follows.mono {Q : KbRecord → KnownIssue → Prop} (h : Follows P v t)
    (hPQ : ∀ rec i, P rec i → Q rec i) : Follows Q v t := by
  refine ⟨h.starts, h.file, h.room, fun i hi f hf hstart hcar => ?_⟩
  obtain ⟨rec, hrec, hp⟩ := h.counters i hi f hf hstart hcar
  exact ⟨rec, hrec, hPQ rec i hp⟩

theorem Tracked.others (h : Tracked P w v) (hd : w'.disk = w.disk)
    (hheal : Diagnosed w.heal w'.heal) : Tracked P w' v :=
  ⟨hd ▸ h.volume, h.loadable, h.apart, h.follows.bumped hP hheal.1, hheal.2 h.tokens⟩

omit hP in
/-- The writer has emptied the latch. -/
theorem Tracked.taken (h : Tracked P w v) : Tracked P { w with heal := w.heal.takeNovel.2 } v :=
  ⟨h.volume, h.loadable, h.apart, h.follows, fun _ ht => by cases ht⟩

omit hP in
theorem Tracked.mono {Q : KbRecord → KnownIssue → Prop} (h : Tracked P w v)
    (hPQ : ∀ rec i, P rec i → Q rec i) : Tracked Q w v :=
  ⟨h.volume, h.loadable, h.apart, h.follows.mono hPQ, h.tokens⟩

end Moments

theorem length_file {disk : Nat → Block} {v : Volume} (hread : readVolume disk = some v)
    {f : DirEntry × List UInt8} (hf : f ∈ v.files) : f.2.length = f.1.byteLen.toNat := by
  rw [(readVolume_eq_some.mp hread).2.2 f hf, length_extent]

theorem has_start {disk : Nat → Block} {v : Volume} (hread : readVolume disk = some v)
    {f : DirEntry × List UInt8} (hf : f ∈ v.files) (hne : f.2 ≠ []) :
    f.1.Has f.1.startBlock.toNat := by
  have hpos := List.length_pos_of_ne_nil hne
  rw [length_file hread hf] at hpos
  exact ⟨Nat.le_refl _, by omega⟩

theorem loadFile_some {f : DirEntry × List UInt8} {i : KnownIssue} (h : loadFile f = some i) :
    ∃ rec, Kb.parse (Kb.headOf f.2) = some rec ∧ i.seen = rec.seen ∧
      i.escalated = rec.escalated ∧ f.1.startBlock.toNat = i.startBlock ∧ f.2 ≠ [] := by
  unfold loadFile at h
  obtain ⟨rec, hrec, h⟩ := Option.bind_eq_some_iff.mp h
  split at h
  case isTrue =>
    obtain rfl := Option.some.inj h
    refine ⟨rec, hrec, rfl, rfl, rfl, fun hnil => ?_⟩
    rw [hnil] at hrec
    cases hrec
  case isFalse => cases h

section Loaded

variable {P : KbRecord → KnownIssue → Prop} (hP : Bookkeeping P) {v : Volume}
  {disk : Nat → Block} (hread : readVolume disk = some v) (hapart : v.Apart)
  {t : List KnownIssue}

include hread hapart

theorem nodup_entries : (v.entries.map KnownIssue.startBlock).Nodup := by
  rw [List.Nodup, List.pairwise_map, Volume.entries, List.pairwise_filterMap]
  refine hapart.imp_of_mem fun {f g} hf hg hfg i hi j hj heq => ?_
  obtain ⟨-, -, -, -, hstart, hne⟩ := loadFile_some hi
  obtain ⟨-, -, -, -, hstart', hne'⟩ := loadFile_some hj
  have hblock := has_start hread hf hne
  have hblock' := has_start hread hg hne'
  rw [hstart, heq] at hblock
  rw [hstart'] at hblock'
  exact hfg _ hblock hblock'

include hP

theorem follows_loaded (h : Loaded v.entries t) : Follows P v t := by
  obtain ⟨sub, hsub, hb⟩ := h
  refine Follows.bumped hP ?_ hb
  refine ⟨(nodup_entries hread hapart).sublist (hsub.map _), fun i hi => ?_, ?_,
    fun i hi g hg hstart' hcar => ?_⟩
  · obtain ⟨f, hf, hload⟩ := List.mem_filterMap.mp (hsub.subset hi)
    obtain ⟨-, -, -, -, hstart, hne⟩ := loadFile_some hload
    exact ⟨f, hf, hstart, hstart ▸ has_start hread hf hne⟩
  · exact hsub.length_le.trans (List.length_filterMap_le ..)
  · obtain ⟨f, hf, hload⟩ := List.mem_filterMap.mp (hsub.subset hi)
    obtain ⟨rec, hrec, hseen, hesc, hstart, hne⟩ := loadFile_some hload
    -- only one file has the block
    obtain rfl : f = g := by
      refine hapart.unique hf hg (has_start hread hf hne) ?_
      rw [hstart, ← hstart']
      exact has_start hread hg hcar.ne_nil
    exact ⟨rec, hrec, hP.fresh rec i hseen (hcar.seen_le hrec) hesc⟩

end Loaded

section Appended

variable {P : KbRecord → KnownIssue → Prop} {v : Volume} {t : List KnownIssue} {name : Text}
  {contents : List UInt8}

theorem Volume.Grown.appended (v : Volume) (name : Text) (contents : List UInt8) :
    v.Grown (v.appended name contents) := by
  rw [Volume.Grown, Volume.appended, List.take_left' rfl]
  exact List.forall₂_same.mpr fun f _ => .refl f

theorem Volume.WellFormed.has_lt (hv : v.WellFormed) {f : DirEntry × List UInt8}
    (hf : f ∈ v.files) {b : Nat} (h : f.1.Has b) : b < v.superblock.totalBlocks.toNat :=
  h.2.trans_le (hv.inside f hf).2

theorem Volume.Apart.appended (hv : v.WellFormed) (h : v.Apart) (name : Text)
    (contents : List UInt8) : (v.appended name contents).Apart := by
  refine List.pairwise_append.mpr ⟨h, List.pairwise_singleton .., fun f hf g hg b hfb hgb => ?_⟩
  obtain rfl := List.mem_singleton.mp hg
  exact absurd (hv.has_lt hf hfb) (Nat.not_lt.mpr hgb.1)

theorem Follows.appended (h : Follows P v t) (hv : v.WellFormed) (name : Text)
    (contents : List UInt8) : Follows P (v.appended name contents) t := by
  refine ⟨h.starts, fun i hi => ?_, ?_, fun i hi f hf hstart hcar => ?_⟩
  · obtain ⟨f, hf, hstart, hhas⟩ := h.file i hi
    exact ⟨f, List.mem_append_left _ hf, hstart, hhas⟩
  · refine h.room.trans ?_
    rw [Volume.appended, List.length_append]
    exact Nat.le_add_right ..
  · obtain hf | hf := List.mem_append.mp hf
    · exact h.counters i hi f hf hstart hcar
    · obtain rfl := List.mem_singleton.mp hf
      obtain ⟨f₀, hf₀, -, hhas⟩ := h.file i hi
      have hlt := hv.has_lt hf₀ hhas
      change v.superblock.totalBlocks.toNat = i.startBlock at hstart
      omega

theorem Follows.minted (hP : Bookkeeping P) (h : Follows P v t) (hv : v.WellFormed)
    {disk : Nat → Block} (hread : readVolume disk = some v) {cause : Cause} {token : Text}
    (htoken : Heal.causeToken cause = some token) (num : Nat) :
    Follows P (v.appended (mintId num) (mintedDoc num token))
      (t ++ [mintedIssue num token v.superblock.totalBlocks.toNat]) := by
  have hold := h.appended hv (mintId num) (mintedDoc num token)
  have hparse := parse_mintedDoc htoken num
  have hfits := length_mintedDoc htoken num
  have hlen := Volume.toNat_ofNat_length hfits
  have hpos : 0 < (mintedDoc num token).length := by
    refine List.length_pos_of_ne_nil fun hnil => ?_
    rw [hnil] at hparse
    cases hparse
  refine ⟨?_, fun i hi => ?_, ?_, fun i hi f hf hstart hcar => ?_⟩
  · rw [List.map_append, List.nodup_append]
    refine ⟨h.starts, List.pairwise_singleton .., fun b hb b' hb' => ?_⟩
    obtain ⟨i, hi, rfl⟩ := List.mem_map.mp hb
    obtain ⟨f₀, hf₀, -, hhas⟩ := h.file i hi
    obtain rfl := List.mem_singleton.mp hb'
    exact Nat.ne_of_lt (hv.has_lt hf₀ hhas)
  · obtain hi | hi := List.mem_append.mp hi
    · exact hold.file i hi
    · obtain rfl := List.mem_singleton.mp hi
      refine ⟨_, List.mem_append_right _ (List.mem_singleton.mpr rfl), rfl, Nat.le_refl _, ?_⟩
      change v.superblock.totalBlocks.toNat < v.superblock.totalBlocks.toNat +
        ((UInt32.ofNat (mintedDoc num token).length).toNat + 511) / 512
      omega
  · rw [Volume.appended, List.length_append, List.length_append]
    exact Nat.add_le_add_right h.room 1
  · obtain hi | hi := List.mem_append.mp hi
    · exact hold.counters i hi f hf hstart hcar
    · obtain rfl := List.mem_singleton.mp hi
      obtain hf | hf := List.mem_append.mp hf
      · -- the files that were there are not that far out
        have hlt := hv.has_lt hf (has_start hread hf hcar.ne_nil)
        exact absurd hstart (Nat.ne_of_lt hlt)
      · obtain rfl := List.mem_singleton.mp hf
        have hhead : Kb.headOf (mintedDoc num token) = mintedDoc num token :=
          List.take_of_length_le (hfits.trans (by decide))
        exact ⟨_, hhead.symm ▸ hparse, hP.fresh _ _ rfl (Nat.zero_le _) rfl⟩

end Appended

/-- What is said of a task: at every moment table and volume are tracked, what was on the disk
stays, and `Post` holds when it returns. -/
abbrev TrackedTask (Ok : Fate → Prop) (P : KbRecord → KnownIssue → Prop) {α : Type}
    (Post : α → World → Prop) (p : Io α) (w : World) : Prop :=
  FsSound (serveOk Ok) Diagnosed Grows (fun w' => ∃ v, Tracked P w' v) (fun _ => True) Post p w

section Tasks

variable {Ok : Fate → Prop} {P : KbRecord → KnownIssue → Prop} (hP : Bookkeeping P) {v : Volume}
  {w : World}

include hP

theorem tracked_loader (hv : v.Loadable) (hapart : v.Apart) (hread : readVolume w.disk = some v)
    (page : Block) :
    TrackedTask Ok P (fun _ w' => w'.Coherent) kbLoader (w.reboot page) := by
  have hread₀ : readVolume (w.reboot page).disk = some v := hread
  refine (kbLoader_sound (diagnosed_client Ok) diagnosed_loads hv hread₀
    (World.coherent_of_reboot _ _ _) (fun _ h => by cases h) rfl ?_).mono fun _ _ h => h.2.1
  intro w' hd htokens hloaded
  exact ⟨v, hd ▸ hread, hv, hapart, follows_loaded hP hread hapart hloaded, htokens⟩

theorem tracked_record {cause : Cause} {token : Text} (h : Tracked P w v) (hw : w.Coherent)
    (htoken : Heal.causeToken cause = some token) :
    TrackedTask Ok P (fun _ w' => w'.Coherent) (recordNovel token) w := by
  have hwf := h.loadable.toWellFormed
  have hroom := h.follows.room
  rw [Volume.files_length h.volume] at hroom
  refine (recordNovel_sound (diagnosed_client Ok) diagnosed_loads htoken rfl
    ⟨h.volume, hwf, hw⟩ h.tokens hroom (fun _ _ => trivial) ?_ ?_).mono fun _ _ h => h.1
  · intro w' htokens hrec
    -- the volume with the file, whether the table has the entry or not
    have hnew {num : Nat} (htakes : v.Takes (mintedDoc num token))
        (hread : readVolume w'.disk = some (v.appended (mintId num) (mintedDoc num token)))
        (hfollows : Follows P (v.appended (mintId num) (mintedDoc num token)) w'.heal.table) :
        ∃ v', Tracked P w' v' :=
      ⟨_, hread, h.loadable.appended _ htakes, h.apart.appended hwf _ _, hfollows, htokens⟩
    obtain ⟨hone, hb⟩ | ⟨htakes, hread, hb⟩ := hrec
    · have hfollows := h.follows.bumped hP hb
      obtain hread | ⟨htakes, hread⟩ := hone
      · exact ⟨v, hread, h.loadable, h.apart, hfollows, htokens⟩
      · exact hnew htakes hread (hfollows.appended hwf _ _)
    · exact hnew htakes hread ((h.follows.minted hP hwf h.volume htoken _).bumped hP hb)
  · intro w₁ w₂ hread₁ hone v₁ hv₁
    obtain rfl := Option.some.inj (hread₁.symm.trans hv₁)
    obtain hread₂ | ⟨-, hread₂⟩ := hone
    · exact ⟨v, hread₂, .refl v⟩
    · exact ⟨_, hread₂, .appended ..⟩

end Tasks

namespace Heal

theorem dirtySlot_map {β : Type} {g : KnownIssue → β} (hg : g ∘ KnownIssue.clear = g)
    {t t' : List KnownIssue} {r : Option KnownIssue} (h : dirtySlot t = (r, t')) :
    t'.map g = t.map g := by
  have hclear := dirtySlot_clear t
  rw [h] at hclear
  have hmap := congrArg (List.map g) hclear
  rwa [List.map_map, List.map_map, hg] at hmap

/-- What is in the table after `dirty_entry`: entries as they were, the one it took, and those
it passed over because they are on no block. -/
theorem mem_dirtySlot {t t' : List KnownIssue} {r : Option KnownIssue}
    (h : dirtySlot t = (r, t')) (hnodup : (t.map KnownIssue.startBlock).Nodup) {i' : KnownIssue}
    (hi' : i' ∈ t') :
    (i' ∈ t ∧ (r = none → i'.dirty = false) ∧
      ∀ issue, r = some issue → i'.startBlock ≠ issue.startBlock) ∨
    (∃ issue ∈ t, r = some issue ∧ i' = issue.clear) ∨ ∃ i ∈ t, i.startBlock = 0 := by
  have hskipped {a : List KnownIssue} (hsub : ∀ i ∈ a, i ∈ t) (hi' : i' ∈ a.map KnownIssue.clear)
      (hzero : ∀ i ∈ a, i.dirty = true → i.startBlock = 0) :
      (i' ∈ a ∧ i'.dirty = false) ∨ ∃ i ∈ t, i.startBlock = 0 := by
    obtain ⟨i, hi, rfl⟩ := List.mem_map.mp hi'
    cases hdirty : i.dirty with
    | false =>
      rw [KnownIssue.clear_of_not_dirty hdirty]
      exact .inl ⟨hi, hdirty⟩
    | true => exact .inr ⟨i, hsub i hi, hzero i hi hdirty⟩
  cases r with
  | none =>
    obtain ⟨rfl, hzero⟩ := dirtySlot_none h
    obtain ⟨hi, hclean⟩ | hnone := hskipped (fun _ hi => hi) hi' hzero
    · exact .inl ⟨hi, fun _ => hclean, fun _ hr => by cases hr⟩
    · exact .inr (.inr hnone)
  | some issue =>
    obtain ⟨a, b, rfl, rfl, -, -, hzero⟩ := dirtySlot_some h
    rw [List.map_append, List.map_cons, List.nodup_append, List.nodup_cons] at hnodup
    obtain ⟨-, ⟨hb, -⟩, ha⟩ := hnodup
    obtain hi' | hi' := List.mem_append.mp hi'
    · obtain ⟨hi, -⟩ | hnone := hskipped (fun _ hi => List.mem_append_left _ hi) hi' hzero
      · refine .inl ⟨List.mem_append_left _ hi, fun hr => absurd hr (Option.some_ne_none _),
          fun _ hr => ?_⟩
        obtain rfl := Option.some.inj hr
        exact ha _ (List.mem_map_of_mem hi) _ List.mem_cons_self
      · exact .inr (.inr hnone)
    · obtain rfl | hi' := List.mem_cons.mp hi'
      · exact .inr (.inl ⟨issue, List.mem_append_right _ List.mem_cons_self, rfl, rfl⟩)
      · refine .inl ⟨List.mem_append_right _ (List.mem_cons_of_mem _ hi'),
          fun hr => absurd hr (Option.some_ne_none _),
          fun _ hr heq => hb ?_⟩
        obtain rfl := Option.some.inj hr
        exact heq ▸ List.mem_map_of_mem hi'

end Heal

section Persist

variable {P Q : KbRecord → KnownIssue → Prop} {v v' : Volume} {t t' : List KnownIssue}

theorem Follows.block (h : Follows P v t) (hv : v.WellFormed) {i : KnownIssue} (hi : i ∈ t) :
    2 ≤ i.startBlock ∧ i.startBlock < 2 ^ 31 := by
  obtain ⟨f, hf, hstart, hhas⟩ := h.file i hi
  have hin := (hv.inside f hf).1
  have hlt := hv.has_lt hf hhas
  have hroom := hv.room
  have htwo : dataStartBlock.toNat = 2 := rfl
  omega

theorem Follows.taken (h : Follows P v t) (hv : v.WellFormed) {r : Option KnownIssue}
    (hslot : Heal.dirtySlot t = (r, t'))
    (hkeep : ∀ rec i, P rec i → (r = none → i.dirty = false) → Q rec i)
    (htaken : ∀ issue rec, r = some issue → P rec issue →
      (∃ f ∈ v.files, f.1.startBlock.toNat = issue.startBlock ∧ Kb.Carries f.2 ∧
        Kb.parse (Kb.headOf f.2) = some rec) → Q rec issue.clear) : Follows Q v t' := by
  have hstarts := Heal.dirtySlot_map (g := KnownIssue.startBlock) rfl hslot
  have hlen : t'.length = t.length := by
    simpa only [List.length_map] using congrArg List.length hstarts
  refine ⟨hstarts ▸ h.starts, fun i hi => ?_, hlen ▸ h.room, fun i hi f hf hstart hcar => ?_⟩
  · have hmem := List.mem_map_of_mem (f := KnownIssue.startBlock) hi
    rw [hstarts] at hmem
    obtain ⟨i₀, hi₀, heq⟩ := List.mem_map.mp hmem
    exact heq ▸ h.file i₀ hi₀
  · obtain ⟨hi, hclean, -⟩ | ⟨issue, hissue, hr, rfl⟩ | ⟨i₀, hi₀, hzero⟩ :=
      Heal.mem_dirtySlot hslot h.starts hi
    · obtain ⟨rec, hrec, hp⟩ := h.counters i hi f hf hstart hcar
      exact ⟨rec, hrec, hkeep rec i hp hclean⟩
    · obtain ⟨rec, hrec, hp⟩ := h.counters issue hissue f hf hstart hcar
      exact ⟨rec, hrec, htaken issue rec hr hp ⟨f, hf, hstart, hcar, hrec⟩⟩
    · have := (h.block hv hi₀).1
      omega

theorem Follows.persisted (h : Follows P v t) {disk : Nat → Block}
    (hread : readVolume disk = some v) (hv : v.WellFormed) {issue : KnownIssue}
    (hslot : Heal.dirtySlot t = (some issue, t')) (hp : Persisted issue v v')
    (hkeep : ∀ rec i, P rec i → Q rec i)
    (htaken : ∀ rec, P rec issue → Q (issue.counted rec) issue.clear) : Follows Q v' t' := by
  have hstarts := Heal.dirtySlot_map (g := KnownIssue.startBlock) rfl hslot
  have hlen : t'.length = t.length := by
    simpa only [List.length_map] using congrArg List.length hstarts
  have hfiles : v'.files.length = v.files.length := hp.2.length_eq.symm
  refine ⟨hstarts ▸ h.starts, fun i hi => ?_, by rw [hlen, hfiles]; exact h.room,
    fun i hi f' hf' hstart hcar => ?_⟩
  · have hmem := List.mem_map_of_mem (f := KnownIssue.startBlock) hi
    rw [hstarts] at hmem
    obtain ⟨i₀, hi₀, heq⟩ := List.mem_map.mp hmem
    obtain ⟨f, hf, hstart, hhas⟩ := h.file i₀ hi₀
    have hentry := List.mem_map_of_mem (f := Prod.fst) hf
    rw [← hp.entries] at hentry
    obtain ⟨f', hf', hfst⟩ := List.mem_map.mp hentry
    rw [← heq]
    exact ⟨f', hf', hfst ▸ hstart, hfst ▸ hhas⟩
  · obtain ⟨f, hf, hcase⟩ := hp.file hf'
    obtain ⟨hi, -, hne⟩ | ⟨issue', hissue, hr, rfl⟩ | ⟨i₀, hi₀, hzero⟩ :=
      Heal.mem_dirtySlot hslot h.starts hi
    · -- another entry, so another file
      obtain ⟨rfl, -⟩ | ⟨hstart', hrew⟩ := hcase
      · obtain ⟨rec, hrec, hprec⟩ := h.counters i hi f' hf hstart hcar
        exact ⟨rec, hrec, hkeep rec i hprec⟩
      · rw [hrew.entry] at hstart
        exact absurd (hstart.symm.trans hstart') (hne issue rfl)
    · obtain rfl := Option.some.inj hr
      obtain ⟨rfl, hnot⟩ | ⟨hstart', hrew⟩ := hcase
      · refine absurd ?_ hnot
        rw [← show f'.1.startBlock.toNat = issue.startBlock from hstart]
        exact has_start hread hf hcar.ne_nil
      · have hcar' : Kb.Carries f.2 := hcar.rewritten hrew.alike.symm
        obtain ⟨rec, hrec, hprec⟩ := h.counters issue hissue f hf hstart' hcar'
        exact ⟨_, (hrew.own rec hcar' hrec).1, htaken rec hprec⟩
    · have := (h.block hv hi₀).1
      omega

theorem Persisted.grown {issue : KnownIssue} (hp : Persisted issue v v')
    (hless : ∀ f ∈ v.files, f.1.startBlock.toNat = issue.startBlock → Kb.Carries f.2 →
      ∀ rec, Kb.parse (Kb.headOf f.2) = some rec → Behind rec issue) : v.Grown v' := by
  rw [Volume.Grown, hp.2.length_eq, List.take_length]
  have hfiles := (List.forall₂_and_left (p := (· ∈ v.files)) _ _).mpr ⟨fun f hf => hf, hp.2⟩
  refine hfiles.imp fun f f' hcase => ?_
  obtain ⟨hf, ⟨rfl, -⟩ | ⟨hstart, hrew⟩⟩ := hcase
  · exact .refl f'
  · refine ⟨hrew.entry, hrew.alike, fun rec hcar hrec => ?_⟩
    obtain ⟨hrec', hbytes⟩ := hrew.own rec hcar hrec
    obtain ⟨hseen, hesc⟩ := hless f hf hstart hcar rec hrec
    exact ⟨_, hrec', hseen, hesc, hbytes⟩

theorem behind_bookkeeping : Bookkeeping Behind where
  behind _ _ h := h
  fresh _ _ hseen hsmall hesc := ⟨Nat.le_min.mpr ⟨Nat.le_of_eq hseen.symm, hsmall⟩, hesc.trans⟩
  bump rec i h := by
    obtain ⟨hseen, hesc⟩ := h
    refine ⟨?_, fun he => ?_⟩
    · change rec.seen ≤ min (min (i.seen + 1) (2 ^ 32 - 1)) 99999
      omega
    · change (i.escalated || decide (escalateAt ≤ Heal.saturatingSucc i.seen)) = true
      rw [hesc he, Bool.true_or]

/-- One round of the persist loop: at every moment the files are behind the table, and `P` holds
again when it is over. -/
theorem tracked_persist {Ok : Fate → Prop} (hP : Bookkeeping P)
    (hclear : ∀ rec i, P rec i → ¬ (∀ fate, Ok fate → fate = .done) → P rec i.clear)
    (hcounted : ∀ rec i, P rec i → P (i.counted rec) i.clear) {w : World} (h : Tracked P w v)
    (hw : w.Coherent) :
    TrackedTask Ok Behind (fun _ w' => w'.Coherent ∧ ∃ v', Tracked P w' v') persistOne w := by
  have hwf := h.loadable.toWellFormed
  have hbehind {rec : KbRecord} {i : KnownIssue} (hp : P rec i) : Behind rec i.clear :=
    hP.behind rec i hp
  -- the table when the entry is taken
  have hbefore {h₁ : Heal} (hheal : Diagnosed w.heal h₁) :
      Follows P v h₁.table ∧ Tokens h₁ :=
    ⟨h.follows.bumped hP hheal.1, hheal.2 h.tokens⟩
  have hslot {h₁ h₂ : Heal} {r : Option KnownIssue} (hd : h₁.dirtyEntry = (r, h₂)) :
      Heal.dirtySlot h₁.table = (r, h₂.table) ∧ h₂.novelToken = h₁.novelToken := by
    obtain ⟨hr, rfl⟩ := Prod.mk.inj hd
    exact ⟨Prod.ext hr rfl, rfl⟩
  have hissue {h₁ h₂ : Heal} {issue : KnownIssue} (hd : h₁.dirtyEntry = (some issue, h₂)) :
      issue ∈ h₁.table := by
    obtain ⟨a, b, ht, -⟩ := Heal.dirtySlot_some (hslot hd).1
    rw [ht]
    exact List.mem_append_right _ List.mem_cons_self
  -- the volume when it is rewritten
  have hstored {h₁ h₂ : Heal} {issue : KnownIssue} {disk : Nat → Block}
      (hheal : Diagnosed w.heal h₁) (hd : h₁.dirtyEntry = (some issue, h₂))
      (hst : Stored w.disk disk issue) :
      ∃ v', readVolume disk = some v' ∧ Persisted issue v v' := by
    obtain ⟨f, hf, hstart, hhas⟩ := (hbefore hheal).1.file issue (hissue hd)
    exact hst.volume hwf h.volume h.apart hf hstart hhas
  have htracked {Q : KbRecord → KnownIssue → Prop} (hQ : Bookkeeping Q) {h₂ : Heal} {v' : Volume}
      {w' : World} (hread : readVolume w'.disk = some v') (hv : v'.Loadable) (hapart : v'.Apart)
      (hfollows : Follows Q v' h₂.table) (htokens : Tokens h₂) (hheal : Diagnosed h₂ w'.heal) :
      ∃ v', Tracked Q w' v' :=
    ⟨v', hread, hv, hapart, hfollows.bumped hQ hheal.1, hheal.2 htokens⟩
  refine persistOne_sound (diagnosed_client Ok) hw (fun h₁ h₂ issue hheal hd => ?_)
    (fun w' hheal hd => ?_) (fun h₁ h₂ w' hheal hd hheal₂ hdisk hco => ?_)
    (fun h₁ h₂ issue w' hheal hd hheal₂ hdisk => ?_) fun h₁ h₂ issue w₁ w₂ hheal hd hd₁ hst => ?_
  · exact ((hbefore hheal).1.block hwf (hissue hd)).2
  · obtain ⟨hfollows, htokens⟩ := hbefore hheal
    exact ⟨v, hd ▸ h.volume, h.loadable, h.apart, hfollows.mono hP.behind, htokens⟩
  · obtain ⟨hfollows, htokens⟩ := hbefore hheal
    obtain ⟨hslot, hnovel⟩ := hslot hd
    have hafter : Follows P v h₂.table :=
      hfollows.taken hwf hslot (fun _ _ hp _ => hp) fun _ _ hr => by cases hr
    have htokens₂ : Tokens h₂ := fun token ht => htokens token (hnovel ▸ ht)
    obtain ⟨v', hv'⟩ := htracked hP (hdisk ▸ h.volume) h.loadable h.apart hafter htokens₂ hheal₂
    exact ⟨⟨v', hv'.mono hP.behind⟩, hco, v', hv'⟩
  · obtain ⟨hfollows, htokens⟩ := hbefore hheal
    obtain ⟨hslot, hnovel⟩ := hslot hd
    have htokens₂ : Tokens h₂ := fun token ht => htokens token (hnovel ▸ ht)
    -- the file has the counters of the entry
    have hwritten (hst : Stored w.disk w'.disk issue) : ∃ v', Tracked P w' v' := by
      obtain ⟨v', hread, hp⟩ := hstored hheal hd hst
      have hafter : Follows P v' h₂.table := hfollows.persisted h.volume hwf hslot hp
        (fun _ _ hp => hp) fun rec hprec => hcounted rec issue hprec
      exact htracked hP hread (hp.alike.loadable h.loadable) (hp.apart h.apart) hafter htokens₂
        hheal₂
    -- the file is as it was, and the entry is not dirty any more
    have hsame {Q : KbRecord → KnownIssue → Prop} (hQ : Bookkeeping Q) (hdisk : w'.disk = w.disk)
        (hkeep : ∀ rec i, P rec i → Q rec i)
        (htaken : ∀ rec, P rec issue →
          (∃ f ∈ v.files, f.1.startBlock.toNat = issue.startBlock ∧ Kb.Carries f.2 ∧
            Kb.parse (Kb.headOf f.2) = some rec) → Q rec issue.clear) :
        ∃ v', Tracked Q w' v' := by
      refine htracked hQ (hdisk ▸ h.volume) h.loadable h.apart ?_ htokens₂ hheal₂
      refine hfollows.taken hwf hslot (fun rec i hp _ => hkeep rec i hp) fun i rec hr hp hfile => ?_
      obtain rfl := Option.some.inj hr
      exact htaken rec hp hfile
    refine ⟨?_, fun hco hdone => ⟨hco, ?_⟩⟩
    · obtain hdisk | hst := hdisk
      · exact hsame behind_bookkeeping hdisk hP.behind fun _ hp _ => hbehind hp
      · obtain ⟨v', hv'⟩ := hwritten hst
        exact ⟨v', hv'.mono hP.behind⟩
    · obtain hdisk | hst := hdisk
      · by_cases hall : ∀ fate, Ok fate → fate = .done
        · obtain hnone | hst := hdone hall
          · refine hsame hP hdisk (fun _ _ hp => hp) fun rec _ hfile => ?_
            obtain ⟨f, hf, hstart, hcar, hrec⟩ := hfile
            have hdata := (readVolume_eq_some.mp h.volume).2.2 f hf
            exact absurd hnone (updatedBlock_own hdata hstart hcar hrec)
          · exact hwritten hst
        · exact hsame hP hdisk (fun _ _ hp => hp) fun rec hp _ => hclear rec issue hp hall
      · exact hwritten hst
  · intro v₁ hv₁
    obtain rfl := Option.some.inj ((hd₁ ▸ h.volume).symm.trans hv₁)
    obtain ⟨v', hread, hp⟩ := hstored hheal hd hst
    refine ⟨v', hread, hp.grown fun f hf hstart hcar rec hrec => ?_⟩
    obtain ⟨rec', hrec', hprec⟩ := (hbefore hheal).1.counters issue (hissue hd) f hf hstart hcar
    obtain rfl := Option.some.inj (hrec'.symm.trans hrec)
    exact hP.behind _ _ hprec

end Persist

end Perenne

import Perenne.Digits
import Perenne.Persist
import Perenne.Tandem

namespace Perenne

/-- No token of the crash path is carried by two entries. -/
def OnceEach (issues : List KnownIssue) : Prop :=
  ∀ cause token, Heal.causeToken cause = some token → countOf token issues ≤ 1

/-- The latch holds a token of the crash path that is not among the classes and is not the
one being recorded. -/
def Latched (cls : List Text) (busy : Option Text) (h : Heal) : Prop :=
  ∀ token, h.novelToken = some token →
    (∃ cause, Heal.causeToken cause = some token) ∧ cls.count token = 0 ∧ busy ≠ some token

namespace Organism

/-- The writer has taken the token and not yet installed its entry. -/
def Recording (s : Organism) (token : Text) : Prop :=
  match s.phase with
  | .recording token' _ => token' = token
  | _ => False

instance (s : Organism) (token : Text) : Decidable (s.Recording token) :=
  match s with
  | ⟨.loading _, _⟩ => inferInstanceAs (Decidable False)
  | ⟨.idle, _⟩ => inferInstanceAs (Decidable False)
  | ⟨.recording token' _, _⟩ => inferInstanceAs (Decidable (token' = token))
  | ⟨.persisting _, _⟩ => inferInstanceAs (Decidable False)

/-- The crash finds no entry for its token, and the latch free. -/
structure Latches (h : Heal) (cause : Cause) (token : Text) : Prop where
  token : Heal.causeToken cause = some token
  unmatched : h.diagnose cause = none
  free : h.novelToken = none

instance (h : Heal) (cause : Cause) (token : Text) : Decidable (Latches h cause token) :=
  decidable_of_iff (Heal.causeToken cause = some token ∧ h.diagnose cause = none ∧
    h.novelToken = none) ⟨fun ⟨h₁, h₂, h₃⟩ => ⟨h₁, h₂, h₃⟩, fun ⟨h₁, h₂, h₃⟩ => ⟨h₁, h₂, h₃⟩⟩

/-- A crash latches its token only while the volume has no entry for it and the writer is
not recording it. -/
def Timely (s : Organism) : Event → Prop
  | .move (.env cause) => ∀ token v, Latches s.world.heal cause token →
    readVolume s.world.disk = some v → countOf token v.entries = 0 ∧ ¬ s.Recording token
  | _ => True

instance (s : Organism) (e : Event) : Decidable (s.Timely e) :=
  match e with
  | .move (.env cause) =>
    decidable_of_iff (∀ token ∈ Heal.causeToken cause, ∀ v ∈ readVolume s.world.disk,
        Latches s.world.heal cause token → countOf token v.entries = 0 ∧ ¬ s.Recording token)
      ⟨fun h token v hl hv => h token hl.token v hv hl,
        fun h token _ v hv hl => h token v hl hv⟩
  | .move .run => isTrue trivial
  | .move (.serve _) => isTrue trivial
  | .next => isTrue trivial
  | .cut _ => isTrue trivial

end Organism

theorem digitFree_token {cause : Cause} {token : Text} (h : Heal.causeToken cause = some token) :
    digitFree token = true := by
  obtain rfl | rfl := causeToken_cases h
  · decide
  · decide

theorem classes_bumped {t t' : List KnownIssue} (h : TableBumped t t') :
    classes t' = classes t :=
  h.map_eq fun _ _ hi => by rw [hi.face.2.2.2.1]

theorem classes_loaded {issues t : List KnownIssue} (h : Loaded issues t) :
    (classes t).Sublist (classes issues) := by
  obtain ⟨sub, hsub, hb⟩ := h
  rw [classes_bumped hb]
  exact hsub.map _

theorem OnceEach.sublist {issues t : List KnownIssue} (h : OnceEach issues)
    (hsub : (classes t).Sublist (classes issues)) : OnceEach t := by
  intro cause token htoken
  have hfree := digitFree_token htoken
  refine Nat.le_trans ?_ (h cause token htoken)
  rw [countOf_eq hfree, countOf_eq hfree]
  exact hsub.count_le token

theorem classes_minted {cause : Cause} {token : Text} (htoken : Heal.causeToken cause = some token)
    (issues : List KnownIssue) (num start : Nat) :
    classes (issues ++ [mintedIssue num token start]) = classes issues ++ [token] := by
  have hself : blurred token = token := (blurred_eq_iff (digitFree_token htoken)).mpr rfl
  rw [classes, List.map_append, List.map_singleton, mintedIssue_matchCause htoken, hself]
  rfl

theorem OnceEach.minted {cause : Cause} {token : Text} {issues : List KnownIssue}
    (h : OnceEach issues) (htoken : Heal.causeToken cause = some token)
    (hnone : (classes issues).count token = 0) (num start : Nat) :
    OnceEach (issues ++ [mintedIssue num token start]) := by
  intro cause' token' htoken'
  have hfree := digitFree_token htoken'
  have hold := h cause' token' htoken'
  rw [countOf_eq hfree] at hold ⊢
  rw [classes_minted htoken, List.count_append, List.count_singleton]
  split
  case isTrue heq =>
    obtain rfl := beq_iff_eq.mp heq
    omega
  case isFalse => omega

theorem Latched.mono {cls : List Text} {busy : Option Text} {h h' : Heal}
    (hl : Latched cls busy h) (hnovel : h'.novelToken = h.novelToken) : Latched cls busy h' :=
  fun token ht => hl token (hnovel ▸ ht)

/-- What crashes may do: diagnoses, and the latch stays as it must be. -/
def Held (cls : List Text) (busy : Option Text) (h h' : Heal) : Prop :=
  TableBumped h.table h'.table ∧ (Latched cls busy h → Latched cls busy h')

theorem held_client (cls : List Text) (busy : Option Text) :
    Client (serveOk fun _ => True) (fun _ => True) (Held cls busy) (fun _ _ => True) :=
  serveOk_client (fun _ => ⟨.refl _, id⟩)
    (fun _ _ _ h12 h23 => ⟨h12.1.trans h23.1, fun h => h23.2 (h12.2 h)⟩) fun _ _ _ => trivial

theorem held_loads (cls : List Text) (busy : Option Text) :
    Loads (Latched cls busy) (Held cls busy) :=
  ⟨fun _ _ h => h.1, fun _ _ h => h.2, fun _ _ h => h⟩

theorem noteDiagnosis_novelToken (h : Heal) (pos : Nat) :
    (h.noteDiagnosis pos).novelToken = h.novelToken := by
  unfold Heal.noteDiagnosis
  split
  · rfl
  · rfl

theorem onCrash_held {cls : List Text} {busy : Option Text} {h : Heal} {cause : Cause}
    (hok : ∀ token, Organism.Latches h cause token → cls.count token = 0 ∧ busy ≠ some token) :
    Held cls busy h (h.onCrash cause).1 := by
  refine ⟨Heal.onCrash_bumped h cause, fun hl => ?_⟩
  unfold Heal.onCrash
  split
  case h_1 pos hdiag => exact hl.mono (noteDiagnosis_novelToken h pos)
  case h_2 hdiag =>
    dsimp only
    unfold Heal.noteUnmatched
    split
    case h_1 token htoken hfree =>
      intro token' ht
      obtain rfl := Option.some.inj ht
      exact ⟨⟨cause, htoken⟩, hok token ⟨htoken, hdiag, hfree⟩⟩
    case h_2 => exact hl

/-- Volume, table and latch agree: each class once, what is in the table is on the disk,
and what is latched is in neither. The classes `cls` of an earlier moment are still there. -/
structure Calm (cls : List Text) (busy : Option Text) (w : World) (v : Volume) : Prop where
  volume : readVolume w.disk = some v
  loadable : v.Loadable
  once : OnceEach v.entries
  table : (classes w.heal.table).Sublist (classes v.entries)
  blocks (i : KnownIssue) (hi : i ∈ w.heal.table) : 2 ≤ i.startBlock ∧ i.startBlock < 2 ^ 31
  latch : Latched (classes v.entries) busy w.heal
  grown : cls.Sublist (classes v.entries)

/-- What is said of a task: at every moment some volume is on the disk with which all is
calm, and the cache is true when it returns. -/
abbrev CalmTask (cls : List Text) (busy : Option Text) {α : Type} (p : Io α) (w : World) : Prop :=
  FsSound (serveOk fun _ => True) (Held cls busy) (fun _ _ => True)
    (fun w' => ∃ v, Calm cls busy w' v) (fun _ => True) (fun _ w' => w'.Coherent) p w

def Organism.Calm (s : Organism) : Prop :=
  match s.phase with
  | .loading p => ∃ cls, CalmTask cls none p s.world
  | .idle => s.world.Coherent ∧ ∃ cls v, Perenne.Calm cls none s.world v
  | .recording token p => ∃ cls, CalmTask cls (some token) p s.world
  | .persisting p => ∃ cls, CalmTask cls none p s.world

section Calm

variable {cls : List Text} {busy : Option Text} {w w' : World} {v : Volume}

theorem Volume.Loadable.entries_blocks (hv : v.Loadable) {i : KnownIssue} (hi : i ∈ v.entries) :
    2 ≤ i.startBlock ∧ i.startBlock < 2 ^ 31 := by
  obtain ⟨f, hf, hload⟩ := List.mem_filterMap.mp hi
  have hstart : i.startBlock = f.1.startBlock.toNat := by
    unfold loadFile at hload
    obtain ⟨rec, -, hload⟩ := Option.bind_eq_some_iff.mp hload
    split at hload
    · obtain rfl := Option.some.inj hload
      rfl
    · cases hload
  have hin := hv.inside f hf
  have hroom := hv.room
  have htwo : dataStartBlock.toNat = 2 := rfl
  omega

theorem blocks_bumped {t t' : List KnownIssue} (h : TableBumped t t')
    (ht : ∀ i ∈ t, 2 ≤ i.startBlock ∧ i.startBlock < 2 ^ 31) (i : KnownIssue) (hi : i ∈ t') :
    2 ≤ i.startBlock ∧ i.startBlock < 2 ^ 31 := by
  obtain ⟨i₀, hi₀, hb⟩ := h.mem_right hi
  rw [hb.face.2.2.2.2]
  exact ht i₀ hi₀

theorem Calm.relax (h : Calm cls busy w v) : Calm cls none w v :=
  ⟨h.volume, h.loadable, h.once, h.table, h.blocks,
    fun token ht => ⟨(h.latch token ht).1, (h.latch token ht).2.1, nofun⟩, h.grown⟩

theorem calm_loader (hv : v.Loadable) (hread : readVolume w.disk = some v)
    (honce : OnceEach v.entries) (page : Block) :
    CalmTask (classes v.entries) none kbLoader (w.reboot page) := by
  have hread₀ : readVolume (w.reboot page).disk = some v := hread
  refine (kbLoader_sound (held_client _ none) (held_loads _ none) hv hread₀
    (World.coherent_of_reboot _ _ _) nofun rfl ?_).mono fun _ w' h => h.2.1
  intro w' hd hj hloaded
  have hread' : readVolume w'.disk = some v := by rw [hd]; exact hread
  obtain ⟨sub, hsub, hb⟩ := id hloaded
  exact ⟨v, hread', hv, honce, classes_loaded hloaded,
    blocks_bumped hb fun i hi => hv.entries_blocks (hsub.subset hi), hj, .refl _⟩

theorem calm_record {cause : Cause} {token : Text} (h : Calm cls busy w v) (hw : w.Coherent)
    (htoken : Heal.causeToken cause = some token)
    (hnone : (classes v.entries).count token = 0) (hfree : w.heal.novelToken = none) :
    CalmTask (classes v.entries) (some token) (recordNovel token) w := by
  have hnovel (token' : Text) (ht : w.heal.novelToken = some token') : False := by
    rw [hfree] at ht
    cases ht
  have hroom : w.heal.table.length ≤ v.superblock.dirEntries.toNat := by
    have hlen := h.table.length_le
    rw [classes, classes, List.length_map, List.length_map] at hlen
    rw [← Volume.files_length h.volume]
    exact hlen.trans (List.length_filterMap_le ..)
  refine (recordNovel_sound (held_client _ (some token)) (held_loads _ (some token)) htoken rfl
    ⟨h.volume, h.loadable.toWellFormed, hw⟩ (fun token' ht => (hnovel token' ht).elim) hroom
    (fun _ _ => trivial) ?_ fun _ _ _ _ => trivial).mono fun _ w' h => h.1
  intro w' hlatch hrec
  -- The volume with the entry, whether the table has it or not.
  have hnew {num : Nat} (htakes : v.Takes (mintedDoc num token))
      (hread : readVolume w'.disk = some (v.appended (mintId num) (mintedDoc num token)))
      (htable : (classes w'.heal.table).Sublist (classes v.entries ++ [token]))
      (hblocks : ∀ i ∈ w'.heal.table, 2 ≤ i.startBlock ∧ i.startBlock < 2 ^ 31) :
      ∃ v', Calm (classes v.entries) (some token) w' v' := by
    have hclasses : classes (v.appended (mintId num) (mintedDoc num token)).entries =
        classes v.entries ++ [token] := by
      rw [entries_appended htoken, classes_minted htoken]
    refine ⟨_, hread, h.loadable.appended _ htakes, ?_, ?_, hblocks, ?_, ?_⟩
    · rw [entries_appended htoken]
      exact h.once.minted htoken hnone _ _
    · rw [hclasses]
      exact htable
    · intro token' ht
      obtain ⟨hcause, hcount, hne⟩ := hlatch token' ht
      refine ⟨hcause, ?_, hne⟩
      have hdiff : (token == token') = false := beq_false_of_ne fun heq => hne (congrArg some heq)
      rw [hclasses, List.count_append, hcount, List.count_singleton, hdiff]
      rfl
    · rw [hclasses]
      exact List.sublist_append_left ..
  obtain ⟨hone, hb⟩ | ⟨htakes, hread, hb⟩ := hrec
  · have htable : classes w'.heal.table = classes w.heal.table := classes_bumped hb
    have hblocks := blocks_bumped hb h.blocks
    obtain hread | ⟨htakes, hread⟩ := hone
    · exact ⟨v, hread, h.loadable, h.once, htable ▸ h.table, hblocks, hlatch, .refl _⟩
    · exact hnew htakes hread (htable ▸ h.table.trans (List.sublist_append_left ..)) hblocks
  · refine hnew htakes hread ?_ (blocks_bumped hb fun i hi => ?_)
    · rw [classes_bumped hb, classes_minted htoken]
      exact h.table.append (.refl _)
    · obtain hi | hi := List.mem_append.mp hi
      · exact h.blocks i hi
      · obtain rfl := List.mem_singleton.mp hi
        have hdata := h.loadable.data
        have hroom := h.loadable.room
        have htwo : dataStartBlock.toNat = 2 := rfl
        change 2 ≤ v.superblock.totalBlocks.toNat ∧ v.superblock.totalBlocks.toNat < 2 ^ 31
        omega

theorem dirtyEntry_like {h h' : Heal} {r : Option KnownIssue} (hd : h.dirtyEntry = (r, h')) :
    classes h'.table = classes h.table ∧ h'.novelToken = h.novelToken ∧
      ∀ i' ∈ h'.table, ∃ i ∈ h.table, i.startBlock = i'.startBlock := by
  obtain ⟨-, rfl⟩ := Prod.mk.inj hd
  have hclear := Heal.dirtySlot_clear h.table
  have hclasses (t : List KnownIssue) : classes (t.map KnownIssue.clear) = classes t := by
    rw [classes, classes, List.map_map]
    rfl
  refine ⟨?_, rfl, fun i' hi' => ?_⟩
  · rw [← hclasses h.table, ← hclear, hclasses]
  · have hmem := List.mem_map_of_mem (f := KnownIssue.clear) hi'
    dsimp only at hmem
    rw [hclear] at hmem
    obtain ⟨i, hi, heq⟩ := List.mem_map.mp hmem
    have hstart := congrArg KnownIssue.startBlock heq
    exact ⟨i, hi, hstart⟩

theorem Calm.stored {disk : Nat → Block} {issue : KnownIssue} (h : Calm cls busy w v)
    (hissue : 2 ≤ issue.startBlock) (hst : Stored w.disk disk issue) :
    ∃ v', readVolume disk = some v' ∧ v.Alike v' := by
  obtain ⟨block, hup, rfl⟩ := hst
  obtain ⟨hlen, hblur⟩ := updatedBlock_blurred hup
  refine readVolume_alike h.loadable.toWellFormed h.volume ?_ ?_ fun n => ?_
  · rw [Function.update_of_ne (by omega)]
  · rw [Function.update_of_ne (by omega)]
  · by_cases hn : n = issue.startBlock
    · subst hn
      rw [Function.update_self, Bytes.pad_list (hlen.trans (w.disk _).size), hblur]
    · rw [Function.update_of_ne hn]

theorem calm_persist (h : Calm cls none w v) (hw : w.Coherent) :
    CalmTask (classes v.entries) none persistOne w := by
  -- A moment at which the disk shows a volume like the first.
  have hcalm {w' : World} {v' : Volume} (hread : readVolume w'.disk = some v') (hv : v.Alike v')
      (htable : classes w'.heal.table = classes w.heal.table)
      (hblocks : ∀ i ∈ w'.heal.table, 2 ≤ i.startBlock ∧ i.startBlock < 2 ^ 31)
      (hlatch : Latched (classes v.entries) none w'.heal) :
      ∃ v', Calm (classes v.entries) none w' v' := by
    have hclasses := hv.classes_entries
    refine ⟨v', hread, hv.loadable h.loadable, h.once.sublist ?_, ?_, hblocks, ?_, ?_⟩
    · rw [hclasses]
    · rw [htable, hclasses]
      exact h.table
    · rw [hclasses]
      exact hlatch
    · rw [hclasses]
  have hbefore {h₁ : Heal} (hheal : Held (classes v.entries) none w.heal h₁) :
      classes h₁.table = classes w.heal.table ∧
      (∀ i ∈ h₁.table, 2 ≤ i.startBlock ∧ i.startBlock < 2 ^ 31) ∧
      Latched (classes v.entries) none h₁ :=
    ⟨classes_bumped hheal.1, blocks_bumped hheal.1 h.blocks, hheal.2 h.latch⟩
  have hafter {h₁ h₂ h₃ : Heal} {r : Option KnownIssue}
      (hheal : Held (classes v.entries) none w.heal h₁) (hd : h₁.dirtyEntry = (r, h₂))
      (hheal₂ : Held (classes v.entries) none h₂ h₃) :
      classes h₃.table = classes w.heal.table ∧
      (∀ i ∈ h₃.table, 2 ≤ i.startBlock ∧ i.startBlock < 2 ^ 31) ∧
      Latched (classes v.entries) none h₃ := by
    obtain ⟨hcls, hblocks, hlatch⟩ := hbefore hheal
    obtain ⟨hcls₂, hnovel, hstart⟩ := dirtyEntry_like hd
    refine ⟨?_, blocks_bumped hheal₂.1 fun i hi => ?_, hheal₂.2 (hlatch.mono hnovel)⟩
    · rw [classes_bumped hheal₂.1, hcls₂, hcls]
    · obtain ⟨i₀, hi₀, heq⟩ := hstart i hi
      exact heq ▸ hblocks i₀ hi₀
  -- The entry that is handed out is one of the table.
  have hissue {h₁ h₂ : Heal} {issue : KnownIssue}
      (hheal : Held (classes v.entries) none w.heal h₁) (hd : h₁.dirtyEntry = (some issue, h₂)) :
      2 ≤ issue.startBlock ∧ issue.startBlock < 2 ^ 31 := by
    obtain ⟨hslot, -⟩ := Prod.mk.inj hd
    obtain ⟨a, b, ht, -⟩ := Heal.dirtySlot_some (t := h₁.table) (Prod.ext hslot rfl)
    exact (hbefore hheal).2.1 issue (ht ▸ List.mem_append_right _ (.head _))
  refine persistOne_sound (held_client _ none) hw (fun h₁ h₂ issue hheal hd => (hissue hheal hd).2)
    (fun w' hheal hd => ?_) (fun h₁ h₂ w' hheal hd hheal₂ hdisk hco => ?_)
    (fun h₁ h₂ issue w' hheal hd hheal₂ hdisk => ?_) fun _ _ _ _ _ _ _ _ _ => trivial
  · obtain ⟨hcls, hblocks, hlatch⟩ := hbefore hheal
    exact hcalm (hd ▸ h.volume) (.refl v) hcls hblocks hlatch
  · obtain ⟨hcls, hblocks, hlatch⟩ := hafter hheal hd hheal₂
    exact ⟨hcalm (hdisk ▸ h.volume) (.refl v) hcls hblocks hlatch, hco⟩
  · obtain ⟨hcls, hblocks, hlatch⟩ := hafter hheal hd hheal₂
    refine ⟨?_, fun hco _ => hco⟩
    obtain hdisk | hst := hdisk
    · exact hcalm (hdisk ▸ h.volume) (.refl v) hcls hblocks hlatch
    · obtain ⟨v', hread, hv⟩ := h.stored (hissue hheal hd).1 hst
      exact hcalm hread hv hcls hblocks hlatch

theorem CalmTask.move {α : Type} {p p' : Io α} {m : Prog.Move Fate Cause}
    (h : CalmTask cls busy p w) (hstep : Prog.step World.serve crash (p, w) m = some (p', w'))
    (hcrash : ∀ cause, m = .env cause → ∀ token v, Organism.Latches w.heal cause token →
      readVolume w.disk = some v → countOf token v.entries = 0 ∧ busy ≠ some token) :
    CalmTask cls busy p' w' := by
  refine (FsSound.move (held_client cls busy) h hstep (fun _ _ => trivial) fun cause hm => ?_).1
  refine onCrash_held fun token hl => ?_
  obtain ⟨v, hv⟩ := h.inv ((held_client cls busy).others_refl w)
  obtain ⟨hcount, hbusy⟩ := hcrash cause hm token v hl hv.volume
  rw [countOf_eq (digitFree_token hl.token)] at hcount
  exact ⟨Nat.le_zero.mp (hcount ▸ hv.grown.count_le token), hbusy⟩

theorem CalmTask.calm {α : Type} {p : Io α} (h : CalmTask cls busy p w) :
    ∃ v, Calm cls busy w v :=
  h.inv ((held_client cls busy).others_refl w)

theorem CalmTask.coherent {α : Type} {a : α} (h : CalmTask cls busy (.ret a) w) : w.Coherent :=
  (h w ((held_client cls busy).others_refl w)).2

end Calm

namespace Organism

variable {s s' : Organism} {e : Event}

theorem Calm.world (h : s.Calm) : ∃ cls busy v, Perenne.Calm cls busy s.world v := by
  obtain ⟨phase, w⟩ := s
  cases phase with
  | loading p =>
    obtain ⟨cls, h⟩ := h
    exact ⟨cls, none, h.calm⟩
  | idle =>
    obtain ⟨-, cls, v, h⟩ := h
    exact ⟨cls, none, v, h⟩
  | recording token p =>
    obtain ⟨cls, h⟩ := h
    exact ⟨cls, some token, h.calm⟩
  | persisting p =>
    obtain ⟨cls, h⟩ := h
    exact ⟨cls, none, h.calm⟩

theorem Calm.cut (h : s.Calm) (page : Block) : Calm ⟨.loading kbLoader, s.world.reboot page⟩ := by
  obtain ⟨cls, busy, v, h⟩ := h.world
  exact ⟨_, calm_loader h.loadable h.volume h.once page⟩

theorem Calm.poll {w : World} (h : Calm ⟨.idle, w⟩) : (poll w).Calm := by
  obtain ⟨hco, cls, v, h⟩ := h
  -- The latch is free afterwards.
  have htaken : Perenne.Calm cls none { w with heal := w.heal.takeNovel.2 } v :=
    ⟨h.volume, h.loadable, h.once, h.table, h.blocks, nofun, h.grown⟩
  cases hnovel : w.heal.novelToken with
  | none =>
    rw [poll_free hnovel]
    exact ⟨_, calm_persist htaken (hco.withHeal _)⟩
  | some token =>
    obtain ⟨⟨cause, htoken⟩, hcount, -⟩ := h.latch token hnovel
    rw [poll_latched hnovel]
    exact ⟨_, calm_record htaken (hco.withHeal _) htoken hcount rfl⟩

theorem Calm.step (h : s.Calm) (htimely : s.Timely e) (hstep : step s e = some s') : s'.Calm := by
  have hother {m : Prog.Move Fate Cause} (ht : s.Timely (.move m)) (cause : Cause)
      (hm : m = .env cause) (token : Text) (v : Volume) (hl : Latches s.world.heal cause token)
      (hread : readVolume s.world.disk = some v) :
      countOf token v.entries = 0 ∧ ¬ s.Recording token := by
    subst hm
    exact ht token v hl hread
  cases stepped hstep with
  | loading hm =>
    obtain ⟨cls, h⟩ := h
    exact ⟨cls, h.move hm fun cause he token v hl hread =>
      ⟨(hother htimely cause he token v hl hread).1, nofun⟩⟩
  | recording hm =>
    obtain ⟨cls, h⟩ := h
    refine ⟨cls, h.move hm fun cause he token' v hl hread => ?_⟩
    obtain ⟨hcount, hrec⟩ := hother htimely cause he token' v hl hread
    exact ⟨hcount, fun heq => hrec (Option.some.inj heq)⟩
  | persisting hm =>
    obtain ⟨cls, h⟩ := h
    exact ⟨cls, h.move hm fun cause he token v hl hread =>
      ⟨(hother htimely cause he token v hl hread).1, nofun⟩⟩
  | crash =>
    obtain ⟨hco, cls, v, h⟩ := h
    have hheld := onCrash_held fun token hl => by
      obtain ⟨hcount, -⟩ := hother htimely _ rfl token v hl h.volume
      rw [countOf_eq (digitFree_token hl.token)] at hcount
      exact ⟨hcount, (nofun : (none : Option Text) ≠ some token)⟩
    exact ⟨hco.withHeal _, cls, v, h.volume, h.loadable, h.once,
      (classes_bumped hheld.1).symm ▸ h.table, blocks_bumped hheld.1 h.blocks, hheld.2 h.latch,
      h.grown⟩
  | loaded =>
    obtain ⟨cls, h⟩ := h
    exact ⟨h.coherent, cls, h.calm⟩
  | poll => exact h.poll
  | recorded =>
    obtain ⟨cls, h⟩ := h
    obtain ⟨v, hv⟩ := h.calm
    exact ⟨_, calm_persist hv.relax h.coherent⟩
  | persisted =>
    obtain ⟨cls, h⟩ := h
    obtain ⟨v, hv⟩ := h.calm
    exact ⟨_, calm_persist hv h.coherent⟩
  | clean =>
    obtain ⟨cls, h⟩ := h
    exact ⟨h.coherent, cls, h.calm⟩
  | cut => exact h.cut _

end Organism

namespace Tandem

/-- A crash latches its token only while the volume has no entry for it and the writer is
not recording it. -/
def Timely (s : Tandem) : Event → Prop
  | .crash cause => ∀ token v, Organism.Latches s.world.heal cause token →
    readVolume s.world.disk = some v → countOf token v.entries = 0 ∧ ¬ s.writer.Recording token
  | _ => True

instance (s : Tandem) (e : Event) : Decidable (s.Timely e) :=
  match e with
  | .crash cause =>
    decidable_of_iff (∀ token ∈ Heal.causeToken cause, ∀ v ∈ readVolume s.world.disk,
        Organism.Latches s.world.heal cause token →
          countOf token v.entries = 0 ∧ ¬ s.writer.Recording token)
      ⟨fun h token v hl hv => h token hl.token v hv hl,
        fun h token _ v hv hl => h token v hl hv⟩
  | .loader _ => isTrue trivial
  | .writer _ => isTrue trivial
  | .next => isTrue trivial
  | .cut _ => isTrue trivial

theorem timely_turns {s : Tandem} {e : Event} (h : s.Timely e) : s.turns.Timely e.turn := by
  cases e with
  | crash cause =>
    intro token v hl hv
    obtain ⟨hcount, hrec⟩ := h token v hl hv
    refine ⟨hcount, fun hturns => hrec ?_⟩
    cases hloaded : s.loaded with
    | true =>
      rw [turns_loaded hloaded] at hturns
      obtain ⟨loader, writer, w⟩ := s
      cases writer with
      | idle => exact hturns
      | recording token' p => exact hturns
      | persisting p => exact hturns
    | false =>
      rw [turns_running hloaded] at hturns
      exact hturns.elim
  | loader m =>
    cases m with
    | run => trivial
    | serve fate => trivial
    | env e => exact e.elim
  | writer m =>
    cases m with
    | run => trivial
    | serve fate => trivial
    | env e => exact e.elim
  | next => trivial
  | cut page => trivial

end Tandem

theorem Organism.Calm.loaded {w : World} {writer : Writer} (h : Calm ⟨.loading (.ret ()), w⟩)
    (hrests : writer.Rests) : Calm ⟨writer.phase, w⟩ := by
  obtain ⟨cls, h⟩ := h
  cases writer with
  | idle => exact ⟨h.coherent, cls, h.calm⟩
  | recording token p => exact hrests.elim
  | persisting p =>
    obtain rfl | rfl := hrests
    · obtain ⟨v, hv⟩ := h.calm
      exact ⟨_, calm_persist hv h.coherent⟩
    · exact ⟨cls, h⟩

/-- A fault class is recorded at most once: over any number of boots of an image with at
most one entry for each token, where crashes latch their tokens in time and no poll finds work
before the loader has returned, neither the volume nor the table ever has two entries for one
token. -/
theorem fault_class_recorded_once {disk : Nat → Block} {page : Block} {v : Volume}
    (hv : v.Loadable) (hread : readVolume disk = some v) (honce : OnceEach v.entries)
    {es : List Tandem.Event} {s : Tandem}
    (hmeet : Transition.StepsMeet Tandem.step (fun s e => s.InTurn e ∧ s.Timely e)
      (.boot disk page) es)
    (hrun : Tandem.run (.boot disk page) es = some s) :
    ∃ v', readVolume s.world.disk = some v' ∧ OnceEach v'.entries ∧
      OnceEach s.world.heal.table := by
  have hboot : (Organism.boot disk page).Calm :=
    ⟨_, calm_loader (w := ⟨disk, page, -1, .empty⟩) hv hread honce page⟩
  have hcalm := Tandem.invariant_turns (fun s e s' h hg hstep => Organism.Calm.step h hg hstep)
    (fun w writer h hrests => h.loaded hrests) (fun s e _ h => Tandem.timely_turns h)
    ⟨Tandem.boot_rests disk page, hboot⟩ hmeet hrun
  obtain ⟨cls, busy, v', h⟩ := hcalm.2.world
  exact ⟨v', h.volume, h.once, h.once.sublist h.table⟩

namespace Organism

def loadBlank : List Event :=
  ([.run, .serve .done, .run, .run, .run, .serve .done, .run, .run] :
    List (Prog.Move Fate Cause)).map .move

/-- The writer records a token, without a device error. -/
def recordOnce : List Event :=
  ([.run] ++ fiveRequests .done ++ [.run] : List (Prog.Move Fate Cause)).map .move

/-- A component executes an illegal instruction. -/
def illegal : Event := .move (.env .illegalInstruction)

end Organism

namespace Tandem

def loadBlank : List Event :=
  ([.run, .serve .done, .run, .run, .run, .serve .done, .run, .run] :
    List (Prog.Move Fate Empty)).map .loader

/-- The writer records a token, without a device error, up to the installation. -/
def appendOnce : List Event :=
  ([.run] ++ fiveRequests .done : List (Prog.Move Fate Empty)).map .writer

/-- A component executes an illegal instruction. -/
def illegal : Event := .crash .illegalInstruction

def recordOnce : List Event := loadBlank ++ [illegal, .next] ++ appendOnce ++ [.writer .run]

/-- The second crash comes while the writer is recording the first. -/
def recordTwice : List Event :=
  loadBlank ++ [illegal, .next, illegal] ++ appendOnce ++
    [.writer .run, .next, .writer .run, .next, .next] ++ appendOnce ++ [.writer .run]

/-- The loader reads the directory after the writer has written the entry and before it has
installed it. -/
def installTwice : List Event :=
  [illegal, .next] ++ appendOnce ++ ([.run, .serve .done, .run, .run, .run, .serve .done, .run,
    .run, .run, .serve .done, .run, .run, .run] : List (Prog.Move Fate Empty)).map .loader ++
    [.writer .run]

end Tandem

theorem blankWorld_loadable : Volume.Loadable
    ⟨⟨fsMagic, fsVersion, 512, dirBlockNumber, 0, dataStartBlock⟩, []⟩ :=
  ⟨⟨rfl, by decide, by decide, by decide, nofun⟩, nofun⟩

theorem blankWorld_volume : readVolume blankWorld.disk =
    some ⟨⟨fsMagic, fsVersion, 512, dirBlockNumber, 0, dataStartBlock⟩, []⟩ := by
  decide +kernel

theorem onceEach_nil : OnceEach [] := fun _ _ _ => Nat.zero_le 1

theorem fault_class_recorded_once_novel : ∃ s,
    Tandem.run (.boot blankWorld.disk (.pad blockSize [])) Tandem.recordOnce = some s ∧
    ∃ v, readVolume s.world.disk = some v ∧ OnceEach v.entries ∧ OnceEach s.world.heal.table := by
  have hruns : (Tandem.run (.boot blankWorld.disk (.pad blockSize [])) Tandem.recordOnce).isSome := by
    decide +kernel
  have hmeet : Transition.StepsMeet Tandem.step (fun s e => s.InTurn e ∧ s.Timely e)
      (.boot blankWorld.disk (.pad blockSize [])) Tandem.recordOnce := by
    decide +kernel
  obtain ⟨s, hrun⟩ := Option.isSome_iff_exists.mp hruns
  exact ⟨s, hrun, fault_class_recorded_once blankWorld_loadable blankWorld_volume onceEach_nil hmeet
    hrun⟩

/-- A component crashes again while the writer records its fault class: the class is
recorded twice. -/
theorem fault_class_recorded_twice : ∃ v₀ v s, v₀.Loadable ∧
    readVolume blankWorld.disk = some v₀ ∧ OnceEach v₀.entries ∧
    Tandem.run (.boot blankWorld.disk (.pad blockSize [])) Tandem.recordTwice = some s ∧
    readVolume s.world.disk = some v ∧ countOf (utf8 "illegal-instruction") v.entries = 2 ∧
    countOf (utf8 "illegal-instruction") s.world.heal.table = 2 := by
  have hruns : (Tandem.run (.boot blankWorld.disk (.pad blockSize [])) Tandem.recordTwice).any
      fun s => (readVolume s.world.disk).any fun v =>
        countOf (utf8 "illegal-instruction") v.entries == 2 &&
          countOf (utf8 "illegal-instruction") s.world.heal.table == 2 := by
    decide +kernel
  obtain ⟨s, hrun, hs⟩ := Option.any_eq_true _ _ |>.mp hruns
  obtain ⟨v, hread, hv⟩ := Option.any_eq_true _ _ |>.mp hs
  rw [Bool.and_eq_true, beq_iff_eq, beq_iff_eq] at hv
  exact ⟨_, v, s, blankWorld_loadable, blankWorld_volume, onceEach_nil, hrun, hread, hv.1, hv.2⟩

theorem fault_class_installed_twice : ∃ s,
    Tandem.run (.boot blankWorld.disk (.pad blockSize [])) Tandem.installTwice = some s ∧
    Transition.StepsMeet Tandem.step Tandem.Timely (.boot blankWorld.disk (.pad blockSize []))
      Tandem.installTwice ∧
    countOf (utf8 "illegal-instruction") s.world.heal.table = 2 := by
  have hruns : (Tandem.run (.boot blankWorld.disk (.pad blockSize [])) Tandem.installTwice).any
      fun s => countOf (utf8 "illegal-instruction") s.world.heal.table == 2 := by
    decide +kernel
  obtain ⟨s, hrun, hs⟩ := Option.any_eq_true _ _ |>.mp hruns
  exact ⟨s, hrun, by decide +kernel, beq_iff_eq.mp hs⟩

end Perenne

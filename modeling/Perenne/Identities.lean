import Perenne.Recurrence
import Perenne.Minting

namespace Perenne

def idsOf (issues : List KnownIssue) : List Text := issues.map fun i => i.id.text

/-- Every entry of the volume carries its counters in its first block. -/
def Volume.Counted (v : Volume) : Prop :=
  ∀ f ∈ v.files, ∀ rec, Kb.parse (Kb.headOf f.2) = some rec → Kb.Carries f.2

/-- No two entries of the volume have one id. -/
def Volume.Distinct (v : Volume) : Prop := (idsOf v.entries).Nodup

/-- The ids of a volume and of a table that was loaded from it. -/
structure Named (v : Volume) (t : List KnownIssue) : Prop where
  counted : v.Counted
  distinct : v.Distinct
  table : (idsOf t).Sublist (idsOf v.entries)

section Named

variable {v v' : Volume} {t t' : List KnownIssue}

theorem Named.same (h : Named v t) (ht : idsOf t' = idsOf t) : Named v t' :=
  ⟨h.counted, h.distinct, ht ▸ h.table⟩

theorem Named.nodup (h : Named v t) : (idsOf t).Nodup := h.distinct.sublist h.table

theorem idsOf_bumped (h : TableBumped t t') : idsOf t' = idsOf t :=
  h.map_eq fun _ _ hi => by rw [hi.face.1]

theorem named_loaded (hcount : v.Counted) (hids : v.Distinct) (h : Loaded v.entries t) :
    Named v t := by
  obtain ⟨sub, hsub, hb⟩ := h
  refine ⟨hcount, hids, ?_⟩
  rw [idsOf_bumped hb]
  exact hsub.map _

section Minted

variable {cause : Cause} {token : Text} (htoken : Heal.causeToken cause = some token) {num : Nat}

include htoken

omit htoken in
theorem mintedIssue_id (num start : Nat) : (mintedIssue num token start).id.text = mintId num :=
  newIssue_id ..

theorem idsOf_appended (v : Volume) (num : Nat) :
    idsOf (v.appended (mintId num) (mintedDoc num token)).entries =
      idsOf v.entries ++ [mintId num] := by
  rw [idsOf, entries_appended htoken, List.map_append, List.map_singleton, mintedIssue_id, idsOf]

theorem Named.appended (h : Named v t) (hfree : mintId num ∉ idsOf v.entries) :
    Named (v.appended (mintId num) (mintedDoc num token)) t := by
  refine ⟨fun f hf rec hrec => ?_, ?_, ?_⟩
  · obtain hf | hf := List.mem_append.mp hf
    · exact h.counted f hf rec hrec
    · obtain rfl := List.mem_singleton.mp hf
      exact carries_mintedDoc htoken num
  · rw [Volume.Distinct, idsOf_appended htoken]
    refine List.nodup_append.mpr ⟨h.distinct, List.pairwise_singleton .., fun id hid => ?_⟩
    intro id' hid' heq
    obtain rfl := List.mem_singleton.mp hid'
    exact hfree (heq ▸ hid)
  · rw [idsOf_appended htoken]
    exact h.table.trans (List.sublist_append_left ..)

theorem Named.minted (h : Named v t) (hfree : mintId num ∉ idsOf v.entries) (start : Nat) :
    Named (v.appended (mintId num) (mintedDoc num token)) (t ++ [mintedIssue num token start]) := by
  obtain ⟨hcount, hids, -⟩ := h.appended htoken hfree
  refine ⟨hcount, hids, ?_⟩
  have hid : idsOf (t ++ [mintedIssue num token start]) = idsOf t ++ [mintId num] := by
    rw [idsOf, List.map_append, List.map_singleton, mintedIssue_id, idsOf]
  rw [hid, idsOf_appended htoken]
  exact h.table.append (.refl _)

end Minted

theorem loadFile_rewritten {issue : KnownIssue} {f f' : DirEntry × List UInt8}
    (hcount : ∀ rec, Kb.parse (Kb.headOf f.2) = some rec → Kb.Carries f.2)
    (h : Rewritten issue f f') :
    (loadFile f').map (fun i => i.id.text) = (loadFile f).map fun i => i.id.text := by
  cases hrec : Kb.parse (Kb.headOf f.2) with
  | none =>
    have hnone := Kb.parse_head_blurred h.alike
    rw [hrec, Option.map_none, Option.map_eq_none_iff] at hnone
    rw [loadFile, loadFile, hrec, hnone]
    rfl
  | some rec =>
    obtain ⟨hrec', -⟩ := h.own rec (hcount rec hrec) hrec
    rw [loadFile, loadFile, hrec, hrec', Option.bind_some, Option.bind_some]
    change Option.map _ (if rec.matchCause.isSome then _ else _) = _
    split
    · rfl
    · rfl

theorem Named.persisted {issue : KnownIssue} (h : Named v t) (hp : Persisted issue v v')
    (ht : idsOf t' = idsOf t) : Named v' t' := by
  have hids : idsOf v'.entries = idsOf v.entries := by
    have hcount := h.counted
    have hfiles := hp.2
    rw [idsOf, idsOf, Volume.entries, Volume.entries, List.map_filterMap, List.map_filterMap]
    unfold Volume.Counted at hcount
    generalize v.files = fs, v'.files = fs' at hcount hfiles
    induction hfiles with
    | nil => rfl
    | cons hf _ ih =>
      have hload := hf.elim (fun hsame => congrArg _ (congrArg loadFile hsame.1)) fun hrew =>
        loadFile_rewritten (hcount _ List.mem_cons_self) hrew.2
      rw [List.filterMap_cons, List.filterMap_cons, hload,
        ih fun f hf => hcount f (List.mem_cons_of_mem _ hf)]
  refine ⟨fun f' hf' rec hrec => ?_, ?_, ?_⟩
  · obtain ⟨f, hf, ⟨rfl, -⟩ | ⟨-, hrew⟩⟩ := hp.file hf'
    · exact h.counted f' hf rec hrec
    · -- the file was an entry before
      have htexts := Kb.parse_head_blurred hrew.alike
      rw [hrec, Option.map_some] at htexts
      obtain ⟨rec₀, hrec₀, -⟩ := Option.map_eq_some_iff.mp htexts.symm
      exact (h.counted f hf rec₀ hrec₀).rewritten hrew.alike
  · rw [Volume.Distinct, hids]
    exact h.distinct
  · rw [ht, hids]
    exact h.table

end Named

/-- The ids of disk and table at one moment. -/
def NamedAt (w : World) : Prop := ∃ v, readVolume w.disk = some v ∧ Named v w.heal.table

theorem NamedAt.volume {w : World} {v : Volume} (h : NamedAt w)
    (hread : readVolume w.disk = some v) : Named v w.heal.table := by
  obtain ⟨v', hread', hnamed⟩ := h
  obtain rfl := Option.some.inj (hread'.symm.trans hread)
  exact hnamed

/-- What is said of a task: the ids are distinct at every moment. -/
abbrev NamedTask {α : Type} (p : Io α) (w : World) : Prop :=
  FsSound (serveOk fun _ => True) Diagnosed (fun _ _ => True) NamedAt (fun _ => True)
    (fun _ _ => True) p w

theorem named_client : Client (serveOk fun _ => True) (fun _ => True) Diagnosed
    (fun _ _ => True) :=
  { diagnosed_client (fun _ => True) with same := fun _ _ _ => trivial }

section Tasks

variable {P : KbRecord → KnownIssue → Prop} {v : Volume} {w : World}

theorem named_loader (hv : v.Loadable) (hread : readVolume w.disk = some v) (hcount : v.Counted)
    (hids : v.Distinct) (page : Block) : NamedTask kbLoader (w.reboot page) := by
  have hread₀ : readVolume (w.reboot page).disk = some v := hread
  refine (kbLoader_sound named_client diagnosed_loads hv hread₀ (World.coherent_of_reboot _ _ _)
    (fun _ h => by cases h) rfl ?_).mono fun _ _ _ => trivial
  intro w' hd _ hloaded
  exact ⟨v, hd ▸ hread, named_loaded hcount hids hloaded⟩

theorem named_record {cause : Cause} {token : Text} (h : Tracked P w v) (hw : w.Coherent)
    (hnamed : Named v w.heal.table) (htoken : Heal.causeToken cause = some token)
    (hfree : mintId (w.heal.maxKbNumber + 1) ∉ idsOf v.entries) :
    NamedTask (recordNovel token) w := by
  have hroom := h.follows.room
  rw [Volume.files_length h.volume] at hroom
  refine (recordNovel_sound named_client diagnosed_loads htoken rfl
    ⟨h.volume, h.loadable.toWellFormed, hw⟩ h.tokens hroom (fun _ _ => trivial) ?_
    fun _ _ _ _ => trivial).mono fun _ _ _ => trivial
  intro w' _ hrec
  obtain ⟨hread | ⟨-, hread⟩, hb⟩ | ⟨-, hread, hb⟩ := hrec
  · exact ⟨v, hread, hnamed.same (idsOf_bumped hb)⟩
  · exact ⟨_, hread, (hnamed.appended htoken hfree).same (idsOf_bumped hb)⟩
  · exact ⟨_, hread, (hnamed.minted htoken hfree _).same (idsOf_bumped hb)⟩

theorem named_persist (h : Tracked P w v) (hw : w.Coherent) (hnamed : Named v w.heal.table)
    (hP : Bookkeeping P) : NamedTask persistOne w := by
  have hwf := h.loadable.toWellFormed
  -- diagnoses and `dirty_entry` leave the ids alone
  have hids {h₁ h₂ h₃ : Heal} {r : Option KnownIssue} (hheal : Diagnosed w.heal h₁)
      (hd : h₁.dirtyEntry = (r, h₂)) (hheal₂ : Diagnosed h₂ h₃) :
      idsOf h₃.table = idsOf w.heal.table := by
    obtain ⟨hr, rfl⟩ := Prod.mk.inj hd
    rw [idsOf_bumped hheal₂.1, ← idsOf_bumped hheal.1]
    exact Heal.dirtySlot_map (g := fun i => i.id.text) rfl (Prod.ext hr rfl)
  have hfollows {h₁ : Heal} (hheal : Diagnosed w.heal h₁) : Follows P v h₁.table :=
    h.follows.bumped hP hheal.1
  have hissue {h₁ h₂ : Heal} {issue : KnownIssue} (hd : h₁.dirtyEntry = (some issue, h₂)) :
      issue ∈ h₁.table := by
    obtain ⟨a, b, ht, -⟩ := Heal.dirtySlot_some (Prod.ext (Prod.mk.inj hd).1 rfl)
    rw [ht]
    exact List.mem_append_right _ List.mem_cons_self
  refine persistOne_sound named_client hw (fun h₁ h₂ issue hheal hd => ?_) (fun w' hheal hd => ?_)
    (fun h₁ h₂ w' hheal hd hheal₂ hdisk _ => ⟨?_, trivial⟩)
    (fun h₁ h₂ issue w' hheal hd hheal₂ hdisk => ⟨?_, fun _ _ => trivial⟩)
    fun _ _ _ _ _ _ _ _ _ => trivial
  · exact ((hfollows hheal).block hwf (hissue hd)).2
  · exact ⟨v, hd ▸ h.volume, hnamed.same (idsOf_bumped hheal.1)⟩
  · exact ⟨v, hdisk ▸ h.volume, hnamed.same (hids hheal hd hheal₂)⟩
  · obtain hdisk | hst := hdisk
    · exact ⟨v, hdisk ▸ h.volume, hnamed.same (hids hheal hd hheal₂)⟩
    · obtain ⟨f, hf, hstart, hhas⟩ := (hfollows hheal).file issue (hissue hd)
      obtain ⟨v', hread, hp⟩ := hst.volume hwf h.volume h.apart hf hstart hhas
      exact ⟨v', hread, hnamed.persisted hp (hids hheal hd hheal₂)⟩

end Tasks

/-- Whether the writer is between two polls. -/
def Phase.isIdle : Phase → Bool
  | .idle => true
  | _ => false

namespace Organism

/-- The ids are distinct, and stay so in the task that is running. -/
def Names (s : Organism) : Prop :=
  match s.phase with
  | .loading p => NamedTask p s.world
  | .idle => NamedAt s.world
  | .recording _ p => NamedTask p s.world
  | .persisting p => NamedTask p s.world

/-- A poll that finds a token in the latch mints an id that is free on the volume. -/
def MintsFree (s : Organism) : Event → Prop
  | .next => s.phase.isIdle = true → s.world.heal.novelToken ≠ none →
    ∀ v, readVolume s.world.disk = some v →
      mintId (s.world.heal.maxKbNumber + 1) ∉ idsOf v.entries
  | _ => True

section Names

variable {s s' : Organism} {e : Event}

theorem namedTask_inv {α : Type} {p : Io α} {w : World} (h : NamedTask p w) : NamedAt w :=
  Prog.Sound.inv h (named_client.others_refl w)

theorem namedTask_move {α : Type} {p p' : Io α} {w w' : World} {m : Prog.Move Fate Cause}
    (h : NamedTask p w) (hstep : Prog.step World.serve crash (p, w) m = some (p', w')) :
    NamedTask p' w' :=
  (FsSound.move named_client h hstep (fun _ _ => trivial) fun c _ =>
    onCrash_diagnosed w.heal c).1

theorem Names.named (h : s.Names) : NamedAt s.world := by
  obtain ⟨phase, w⟩ := s
  cases phase with
  | loading p => exact namedTask_inv h
  | idle => exact h
  | recording token p => exact namedTask_inv h
  | persisting p => exact namedTask_inv h

theorem named_persisting {w : World} (h : NamedAt w) (hw : w.Coherent)
    (ht : ∃ v, Tracked Behind w v) : Names ⟨.persisting persistOne, w⟩ := by
  obtain ⟨v, hv⟩ := ht
  exact named_persist hv hw (h.volume hv.volume) behind_bookkeeping

theorem Names.poll {w : World} (h : NamedAt w) (hw : w.Coherent) (ht : ∃ v, Tracked Behind w v)
    (hfree : MintsFree ⟨.idle, w⟩ .next) : (poll w).Names := by
  obtain ⟨v, hv⟩ := ht
  cases hnovel : w.heal.novelToken with
  | none =>
    rw [poll_free hnovel]
    exact named_persisting h (hw.withHeal _) ⟨v, hv.taken⟩
  | some token =>
    obtain ⟨cause, htoken⟩ := hv.tokens token hnovel
    have hne : w.heal.novelToken ≠ none := by
      rw [hnovel]
      exact Option.some_ne_none token
    rw [poll_latched hnovel]
    exact named_record hv.taken (hw.withHeal _) (h.volume hv.volume) htoken
      (hfree rfl hne v hv.volume)

theorem Names.step (h : s.Names) (ht : s.Tracks (fun _ => True) Behind) (hfree : s.MintsFree e)
    (hstep : step s e = some s') : s'.Names := by
  cases stepped hstep with
  | loading hm => exact namedTask_move h hm
  | recording hm => exact namedTask_move h hm
  | persisting hm => exact namedTask_move h hm
  | crash =>
    obtain ⟨v, hread, hnamed⟩ := h
    exact ⟨v, hread, hnamed.same (idsOf_bumped (onCrash_diagnosed ..).1)⟩
  | loaded => exact namedTask_inv h
  | poll => exact Names.poll h ht.1 ht.2 hfree
  | recorded =>
    change TrackedTask (fun _ => True) Behind (fun _ w => w.Coherent) _ _ at ht
    obtain ⟨htracked, hco⟩ := task_returned ht
    exact named_persisting (namedTask_inv h) hco htracked
  | persisted =>
    change TrackedTask (fun _ => True) Behind
      (fun _ w => w.Coherent ∧ ∃ v, Tracked Behind w v) _ _ at ht
    obtain ⟨-, hco, htracked⟩ := task_returned ht
    exact named_persisting (namedTask_inv h) hco htracked
  | clean => exact namedTask_inv h
  | cut =>
    obtain ⟨v, hv⟩ := ht.behind behind_bookkeeping
    have hnamed := h.named.volume hv.volume
    exact named_loader hv.loadable hv.volume hnamed.counted hnamed.distinct _

end Names

end Organism

end Perenne

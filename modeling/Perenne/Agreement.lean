import Perenne.Tracking

namespace Perenne

namespace Organism

/-- The invariant of the machine: `P` holds of table and volume whenever the writer is not in its
persist loop, and holds again when that is over. -/
def Tracks (Ok : Fate → Prop) (P : KbRecord → KnownIssue → Prop) (s : Organism) : Prop :=
  match s.phase with
  | .loading p => TrackedTask (fun _ => True) P (fun _ w => w.Coherent) p s.world
  | .idle => s.world.Coherent ∧ ∃ v, Tracked P s.world v
  | .recording _ p => TrackedTask (fun _ => True) P (fun _ w => w.Coherent) p s.world
  | .persisting p => TrackedTask Ok Behind (fun _ w => w.Coherent ∧ ∃ v, Tracked P w v) p s.world

/-- The requests of the persist loop meet these fates. -/
def Persists (Ok : Fate → Prop) (s : Organism) (e : Event) : Prop :=
  ∀ p fate, s.phase = .persisting p → e = .move (.serve fate) → Ok fate

section Tracks

variable {Ok : Fate → Prop} {P : KbRecord → KnownIssue → Prop} (hP : Bookkeeping P)
  (hclear : ∀ rec i, P rec i → ¬ (∀ fate, Ok fate → fate = .done) → P rec i.clear)
  (hcounted : ∀ rec i, P rec i → P (i.counted rec) i.clear) {s s' : Organism} {e : Event}

theorem task_move {Ok' : Fate → Prop} {Q : KbRecord → KnownIssue → Prop} {α : Type}
    {Post : α → World → Prop} {p p' : Io α} {w w' : World} {m : Prog.Move Fate Cause}
    (h : TrackedTask Ok' Q Post p w)
    (hstep : Prog.step World.serve crash (p, w) m = some (p', w'))
    (hfate : ∀ f, m = .serve f → Ok' f) : TrackedTask Ok' Q Post p' w' ∧ Grows w w' :=
  FsSound.move (diagnosed_client Ok') h hstep hfate fun c _ => onCrash_diagnosed w.heal c

theorem task_inv {Ok' : Fate → Prop} {Q : KbRecord → KnownIssue → Prop} {α : Type}
    {Post : α → World → Prop} {p : Io α} {w : World} (h : TrackedTask Ok' Q Post p w) :
    ∃ v, Tracked Q w v :=
  Prog.Sound.inv h ((diagnosed_client Ok').others_refl w)

theorem task_returned {Ok' : Fate → Prop} {Q : KbRecord → KnownIssue → Prop} {α : Type}
    {Post : α → World → Prop} {a : α} {w : World} (h : TrackedTask Ok' Q Post (.ret a) w) :
    (∃ v, Tracked Q w v) ∧ Post a w :=
  h w ((diagnosed_client Ok').others_refl w)

include hP

theorem Tracks.behind (h : s.Tracks Ok P) : ∃ v, Tracked Behind s.world v := by
  obtain ⟨phase, w⟩ := s
  have hmono (ht : ∃ v, Tracked P w v) : ∃ v, Tracked Behind w v :=
    ht.imp fun _ hv => hv.mono hP.behind
  cases phase with
  | loading p =>
    change TrackedTask _ P _ p w at h
    exact hmono (task_inv h)
  | idle => exact hmono h.2
  | recording token p =>
    change TrackedTask _ P _ p w at h
    exact hmono (task_inv h)
  | persisting p =>
    change TrackedTask _ Behind _ p w at h
    exact task_inv h

theorem Tracks.cut (h : s.Tracks Ok P) (page : Block) :
    Tracks Ok P ⟨.loading kbLoader, s.world.reboot page⟩ := by
  obtain ⟨v, hv⟩ := h.behind hP
  exact tracked_loader hP hv.loadable hv.apart hv.volume page

include hclear hcounted

theorem Tracks.poll {w : World} (h : Tracks Ok P ⟨.idle, w⟩) : (poll w).Tracks Ok P := by
  obtain ⟨hco, v, h⟩ := h
  cases hnovel : w.heal.novelToken with
  | none =>
    rw [poll_free hnovel]
    exact tracked_persist hP hclear hcounted h.taken (hco.withHeal _)
  | some token =>
    obtain ⟨cause, htoken⟩ := h.tokens token hnovel
    rw [poll_latched hnovel]
    exact tracked_record hP h.taken (hco.withHeal _) htoken

theorem Tracks.step (h : s.Tracks Ok P) (hok : s.Persists Ok e) (hstep : step s e = some s') :
    s'.Tracks Ok P ∧ Grows s.world s'.world := by
  cases stepped hstep with
  | loading hm => exact task_move h hm fun _ _ => trivial
  | recording hm => exact task_move h hm fun _ _ => trivial
  | persisting hm => exact task_move h hm fun f hf => hok _ f rfl (congrArg Event.move hf)
  | crash =>
    obtain ⟨hco, v, h⟩ := h
    exact ⟨⟨hco.withHeal _, v, h.others hP rfl (onCrash_diagnosed ..)⟩, .of_disk rfl⟩
  | loaded =>
    change TrackedTask (fun _ => True) P (fun _ w => w.Coherent) _ _ at h
    obtain ⟨htracked, hco⟩ := task_returned h
    exact ⟨⟨hco, htracked⟩, .of_disk rfl⟩
  | poll =>
    refine ⟨h.poll hP hclear hcounted, .of_disk ?_⟩
    unfold Organism.poll
    split
    · rfl
    · rfl
  | recorded =>
    change TrackedTask (fun _ => True) P (fun _ w => w.Coherent) _ _ at h
    obtain ⟨⟨v, hv⟩, hco⟩ := task_returned h
    exact ⟨tracked_persist hP hclear hcounted hv hco, .of_disk rfl⟩
  | persisted =>
    change TrackedTask Ok Behind (fun _ w => w.Coherent ∧ ∃ v, Tracked P w v) _ _ at h
    obtain ⟨-, hco, v, hv⟩ := task_returned h
    exact ⟨tracked_persist hP hclear hcounted hv hco, .of_disk rfl⟩
  | clean =>
    change TrackedTask Ok Behind (fun _ w => w.Coherent ∧ ∃ v, Tracked P w v) _ _ at h
    exact ⟨(task_returned h).2, .of_disk rfl⟩
  | cut => exact ⟨h.cut hP _, .of_disk rfl⟩

end Tracks

end Organism

/-- The entry is dirty, or the file has its counters. -/
def Settled (rec : KbRecord) (i : KnownIssue) : Prop :=
  Behind rec i ∧ (i.dirty = true ∨ rec.seen = min i.seen 99999 ∧ rec.escalated = i.escalated)

theorem settled_bookkeeping : Bookkeeping Settled where
  behind _ _ h := h.1
  fresh rec i hseen hsmall hesc := by
    refine ⟨behind_bookkeeping.fresh rec i hseen hsmall hesc, .inr ⟨?_, hesc.symm⟩⟩
    rw [hseen, Nat.min_eq_left hsmall]
  bump rec i h := ⟨behind_bookkeeping.bump rec i h.1, .inl rfl⟩

theorem settled_clear (rec : KbRecord) (i : KnownIssue) (_ : Settled rec i) :
    Settled (i.counted rec) i.clear :=
  ⟨⟨Nat.le_refl _, id⟩, .inr ⟨rfl, rfl⟩⟩

/-- On a device that makes no error no failed write clears a dirty entry. -/
theorem clear_of_done {P : KbRecord → KnownIssue → Prop} (rec : KbRecord) (i : KnownIssue)
    (_ : P rec i) (hfails : ¬ ∀ fate : Fate, fate = .done → fate = .done) : P rec i.clear :=
  absurd (fun _ h => h) hfails

/-- The file of an entry, if the first block carries well-formed counters. -/
def Agree (f : DirEntry × List UInt8) (i : KnownIssue) : Prop :=
  Kb.Carries f.2 → ∃ rec, Kb.parse (Kb.headOf f.2) = some rec ∧ rec.seen = min i.seen 99999 ∧
    rec.escalated = i.escalated

/-- Every entry of the table that is on a block of the disk is dirty, or agrees with its file. -/
def Remembers (w : World) : Prop :=
  ∃ v, readVolume w.disk = some v ∧ ∀ i ∈ w.heal.table, i.startBlock ≠ 0 →
    ∃ f ∈ v.files, f.1.startBlock.toNat = i.startBlock ∧ f.1.Has i.startBlock ∧
      (i.dirty = true ∨ Agree f i)

/-- Every entry of the table that is on a block of the disk agrees with its file. -/
def InAgreement (w : World) : Prop :=
  ∃ v, readVolume w.disk = some v ∧ ∀ i ∈ w.heal.table, i.startBlock ≠ 0 →
    ∃ f ∈ v.files, f.1.startBlock.toNat = i.startBlock ∧ f.1.Has i.startBlock ∧ Agree f i

theorem Tracked.remembers {w : World} {v : Volume} (h : Tracked Settled w v) : Remembers w := by
  refine ⟨v, h.volume, fun i hi _ => ?_⟩
  obtain ⟨f, hf, hstart, hhas⟩ := h.follows.file i hi
  refine ⟨f, hf, hstart, hhas, ?_⟩
  cases hdirty : i.dirty with
  | true => exact .inl rfl
  | false =>
    refine .inr fun hcar => ?_
    obtain ⟨rec, hrec, -, hsettled⟩ := h.follows.counters i hi f hf hstart hcar
    exact ⟨rec, hrec, hsettled.resolve_left (by rw [hdirty]; exact Bool.false_ne_true)⟩

theorem Remembers.inAgreement {w : World} (h : Remembers w)
    (hclean : ∀ i ∈ w.heal.table, i.dirty = false) : InAgreement w := by
  obtain ⟨v, hread, hentries⟩ := h
  refine ⟨v, hread, fun i hi hstart => ?_⟩
  obtain ⟨f, hf, hblock, hhas, hcase⟩ := hentries i hi hstart
  refine ⟨f, hf, hblock, hhas, hcase.resolve_left ?_⟩
  rw [hclean i hi]
  exact Bool.false_ne_true

section Boot

variable {disk : Nat → Block} {v : Volume}

theorem boot_tracks {Ok : Fate → Prop} {P : KbRecord → KnownIssue → Prop} (hP : Bookkeeping P)
    (hv : v.Loadable) (hapart : v.Apart) (hread : readVolume disk = some v) (page : Block) :
    (Organism.boot disk page).Tracks Ok P :=
  tracked_loader (w := ⟨disk, page, -1, .empty⟩) hP hv hapart hread page

end Boot

namespace Tandem

/-- The requests of the persist loop meet these fates. -/
def Persists (Ok : Fate → Prop) (s : Tandem) (e : Event) : Prop :=
  ∀ p fate, s.writer = .persisting p → e = .writer (.serve fate) → Ok fate

theorem persists_turns {Ok : Fate → Prop} {s : Tandem} {e : Event}
    (hno : s.loaded = true → ∀ m, e ≠ .loader m) (h : s.Persists Ok e) :
    s.turns.Persists Ok e.turn := by
  intro p fate hphase he
  cases hloaded : s.loaded with
  | false =>
    rw [turns_running hloaded] at hphase
    cases hphase
  | true =>
    rw [turns_loaded hloaded] at hphase
    have hwriter : s.writer = .persisting p := by
      obtain ⟨loader, writer, w⟩ := s
      cases writer with
      | idle => cases hphase
      | recording token p => cases hphase
      | persisting p =>
        obtain rfl := Phase.persisting.inj hphase
        rfl
    cases e with
    | loader m => exact absurd rfl (hno hloaded m)
    | writer m =>
      cases m with
      | run => cases he
      | serve fate' =>
        obtain rfl : fate' = fate := by cases he; rfl
        exact h p fate' hwriter rfl
      | env e => exact e.elim
    | next => cases he
    | crash cause => cases he
    | cut page => cases he

section Tracks

variable {Ok : Fate → Prop} {P : KbRecord → KnownIssue → Prop} (hP : Bookkeeping P)
  (hclear : ∀ rec i, P rec i → ¬ (∀ fate, Ok fate → fate = .done) → P rec i.clear)
  (hcounted : ∀ rec i, P rec i → P (i.counted rec) i.clear) {s s' : Tandem}

include hP hclear hcounted

theorem tracks_loaded {w : World} {writer : Writer}
    (h : Organism.Tracks Ok P ⟨.loading (.ret ()), w⟩) (hrests : writer.Rests) :
    Organism.Tracks Ok P ⟨writer.phase, w⟩ := by
  change TrackedTask (fun _ => True) P (fun _ w => w.Coherent) _ _ at h
  obtain ⟨⟨v, hv⟩, hco⟩ := Organism.task_returned h
  cases writer with
  | idle => exact ⟨hco, v, hv⟩
  | recording token p => exact hrests.elim
  | persisting p =>
    obtain rfl | rfl := hrests
    · exact tracked_persist hP hclear hcounted hv hco
    · intro w' hothers
      obtain ⟨⟨v', hv'⟩, hco'⟩ := h w' hothers
      exact ⟨⟨v', hv'.mono hP.behind⟩, hco', v', hv'⟩

theorem tracks_step {w : World} {e : Event}
    (h : s.Rests ∧ s.turns.Tracks Ok P ∧ Grows w s.world) (hmeet : s.InTurn e ∧ s.Persists Ok e)
    (hstep : s.step e = some s') : s'.Rests ∧ s'.turns.Tracks Ok P ∧ Grows w s'.world := by
  have hone (s : Organism) (e : Organism.Event) (s' : Organism)
      (h : s.Tracks Ok P ∧ Grows w s.world) (hok : s.Persists Ok e)
      (hstep : Organism.step s e = some s') : s'.Tracks Ok P ∧ Grows w s'.world := by
    obtain ⟨htracks, hgrows⟩ := h.1.step hP hclear hcounted hok hstep
    exact ⟨htracks, h.2.trans hgrows⟩
  exact invariant_turned hone
    (fun w' writer h hrests => ⟨tracks_loaded hP hclear hcounted h.1 hrests, h.2⟩)
    (fun s e hno h => persists_turns hno h) h hmeet hstep

end Tracks

end Tandem

end Perenne

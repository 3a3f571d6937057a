import Perenne.Agreement
import Perenne.Extension

namespace Perenne

namespace Organism

/-- Nothing crashes and the power stays on. -/
def Quiet (e : Event) : Prop := (∀ cause, e ≠ .move (.env cause)) ∧ ∀ page, e ≠ .cut page

/-- After a poll without crashes nothing is dirty. -/
def Drained (s : Organism) : Prop :=
  match s.phase with
  | .loading _ => False
  | .idle => ∀ i ∈ s.world.heal.table, i.dirty = false
  | .recording _ _ => True
  | .persisting p => FsSound (serveOk fun _ => True) (fun h h' => h' = h) (fun _ _ => True)
      (fun _ => True) (fun _ => True)
      (fun more w => more = false → ∀ i ∈ w.heal.table, i.dirty = false) p s.world

theorem drained_client : Client (serveOk fun _ => True) (fun _ => True) (fun h h' : Heal => h' = h)
    (fun _ _ => True) :=
  serveOk_client (fun _ => rfl) (fun _ _ _ h12 h23 => h23.trans h12) fun _ _ _ => trivial

theorem dirtyEntry_none {h h' : Heal} (hd : h.dirtyEntry = (none, h')) (i : KnownIssue)
    (hi : i ∈ h'.table) : i.dirty = false := by
  obtain ⟨hnone, rfl⟩ := Prod.mk.inj hd
  have hslot : Heal.dirtySlot h.table = (none, (Heal.dirtySlot h.table).2) := Prod.ext hnone rfl
  rw [(Heal.dirtySlot_none hslot).1] at hi
  obtain ⟨i₀, -, rfl⟩ := List.mem_map.mp hi
  rfl

theorem dirty_block {P : KbRecord → KnownIssue → Prop} {v : Volume} {w : World} {h : Heal}
    {issue : KnownIssue} (ht : Tracked P w v) (hd : w.heal.dirtyEntry = (some issue, h)) :
    issue.startBlock < 2 ^ 31 := by
  obtain ⟨a, b, htable, -⟩ := Heal.dirtySlot_some (Prod.ext (Prod.mk.inj hd).1 rfl)
  refine (ht.follows.block ht.loadable.toWellFormed ?_).2
  rw [htable]
  exact List.mem_append_right _ List.mem_cons_self

theorem drained_persist {P : KbRecord → KnownIssue → Prop} {v : Volume} {w : World}
    (h : Tracked P w v) (hw : w.Coherent) : Drained ⟨.persisting persistOne, w⟩ := by
  refine persistOne_sound drained_client hw (fun h₁ h₂ issue hheal hd => ?_) (fun _ _ _ => trivial)
    (fun h₁ h₂ w' hheal hd hheal₂ _ _ => ⟨trivial, fun _ => ?_⟩)
    (fun _ _ _ _ _ _ _ _ => ⟨trivial, fun _ _ hmore => by cases hmore⟩)
    fun _ _ _ _ _ _ _ _ _ => trivial
  · subst hheal
    exact dirty_block h hd
  · subst hheal₂
    exact dirtyEntry_none hd

section Drained

variable {Ok : Fate → Prop} {P : KbRecord → KnownIssue → Prop} {s s' : Organism} {e : Event}

theorem drained_poll {w : World} (h : Tracks Ok P ⟨.idle, w⟩) : (poll w).Drained := by
  obtain ⟨hco, v, h⟩ := h
  cases hnovel : w.heal.novelToken with
  | none =>
    rw [poll_free hnovel]
    exact drained_persist h.taken (hco.withHeal _)
  | some token =>
    rw [poll_latched hnovel]
    trivial

theorem Drained.step (h : s.Drained) (ht : s.Tracks Ok P) (hquiet : Quiet e)
    (hstep : step s e = some s') : s'.Drained := by
  cases stepped hstep with
  | loading hm => exact False.elim h
  | recording hm => trivial
  | persisting hm =>
    exact (FsSound.move drained_client h hm (fun _ _ => trivial) fun cause hc =>
      absurd (congrArg Event.move hc) (hquiet.1 cause)).1
  | crash => exact absurd rfl (hquiet.1 _)
  | loaded => exact False.elim h
  | poll => exact drained_poll ht
  | recorded =>
    change TrackedTask (fun _ => True) P (fun _ w => w.Coherent) _ _ at ht
    obtain ⟨⟨v, hv⟩, hco⟩ := task_returned ht
    exact drained_persist hv hco
  | persisted =>
    change TrackedTask Ok Behind (fun _ w => w.Coherent ∧ ∃ v, Tracked P w v) _ _ at ht
    obtain ⟨-, hco, v, hv⟩ := task_returned ht
    exact drained_persist hv hco
  | clean => exact (h _ (drained_client.others_refl _)).2 rfl
  | cut => exact absurd rfl (hquiet.2 _)

end Drained

/-- The writer goes on, and the device makes no error. -/
def Healthy (e : Event) : Prop := e = .next ∨ e = .move .run ∨ e = .move (.serve .done)

theorem Healthy.quiet {e : Event} (h : Healthy e) : Quiet e := by
  obtain rfl | rfl | rfl := h
  · exact ⟨fun _ he => (by cases he), fun _ he => by cases he⟩
  · exact ⟨fun _ he => (by cases he), fun _ he => by cases he⟩
  · exact ⟨fun _ he => (by cases he), fun _ he => by cases he⟩

theorem healthy_next {es es' : List Event} (hes : ∀ e ∈ es, Healthy e)
    (hes' : ∀ e ∈ es', Healthy e) (e : Event) (he : e ∈ es ++ .next :: es') : Healthy e := by
  obtain he | he := List.mem_append.mp he
  · exact hes e he
  · obtain rfl | he := List.mem_cons.mp he
    · exact .inl rfl
    · exact hes' e he

/-- Nobody else runs, and the device makes no error. -/
abbrev Alone {α : Type} (Post : α → World → Prop) (p : Io α) (w : World) : Prop :=
  FsSound (serveOk (· = .done)) (fun h h' => h' = h) (fun _ _ => True) (fun _ => True)
    (fun _ => False) Post p w

theorem alone_client : Client (serveOk (· = .done)) (· = .done) (fun h h' : Heal => h' = h)
    (fun _ _ => True) :=
  serveOk_client (fun _ => rfl) (fun _ _ _ h12 h23 => h23.trans h12) fun _ _ _ => trivial

theorem Alone.finishes {α : Type} {Post : α → World → Prop} {K : Io α → Phase}
    (hphase : ∀ p w m, step ⟨K p, w⟩ (.move m) =
      (Prog.step World.serve crash (p, w) m).map fun r => ⟨K r.1, r.2⟩) {p : Io α} {w : World}
    (h : Alone Post p w) : ∃ es r w', run ⟨K p, w⟩ es = some ⟨K (.ret r), w'⟩ ∧
      (∀ e ∈ es, Healthy e) ∧ Post r w' := by
  induction p generalizing w with
  | ret a =>
    exact ⟨[], a, w, rfl, List.forall_mem_nil _, (h w (alone_client.others_refl w)).2⟩
  | stop e => exact (h w (alone_client.others_refl w)).2.elim
  | act u k ih =>
    obtain ⟨es, r, w', hrun, hes, hpost⟩ := ih w (h w (alone_client.others_refl w)).2.2
    refine ⟨.move .run :: es, r, w', ?_, fun e he => ?_, hpost⟩
    · rw [run, Transition.run, hphase]
      exact hrun
    · obtain rfl | he := List.mem_cons.mp he
      · exact .inr (.inl rfl)
      · exact hes e he
  | call i k ih =>
    have hserve : World.serve .done w i =
        some (0, w.transfer (i &&& blkWriteFlag != 0) (i - (i &&& blkWriteFlag))) := rfl
    obtain ⟨es, r, w', hrun, hes, hpost⟩ :=
      ih 0 ((h w (alone_client.others_refl w)).2 ⟨.done, rfl⟩ _ _ hserve).2
    refine ⟨.move (.serve .done) :: es, r, w', ?_, fun e he => ?_, hpost⟩
    · rw [run, Transition.run, hphase, Prog.step, hserve]
      exact hrun
    · obtain rfl | he := List.mem_cons.mp he
      · exact .inr (.inr rfl)
      · exact hes e he

section Completes

variable {P : KbRecord → KnownIssue → Prop} (hP : Bookkeeping P)
  (hcounted : ∀ rec i, P rec i → P (i.counted rec) i.clear) {s s' : Organism} {es : List Event}

include hP hcounted

end Completes

end Organism

namespace Tandem

/-- Nothing crashes and the power stays on. -/
def Quiet (e : Event) : Prop := (∀ cause, e ≠ .crash cause) ∧ ∀ page, e ≠ .cut page

/-- The tasks go on, and the device makes no error. -/
def Healthy (e : Event) : Prop :=
  e = .next ∨ ∃ m : Prog.Move Fate Empty, (m = .run ∨ m = .serve .done) ∧
    (e = .loader m ∨ e = .writer m)

theorem Healthy.quiet {e : Event} (h : Healthy e) : Quiet e := by
  obtain rfl | ⟨m, -, rfl | rfl⟩ := h
  · exact ⟨fun _ => Event.noConfusion, fun _ => Event.noConfusion⟩
  · exact ⟨fun _ => Event.noConfusion, fun _ => Event.noConfusion⟩
  · exact ⟨fun _ => Event.noConfusion, fun _ => Event.noConfusion⟩

theorem step_poll (w : World) :
    step (ofOrganism ⟨.idle, w⟩) .next = some (ofOrganism (Organism.poll w)) := by
  change next ⟨.ret (), .idle, w⟩ = some (ofOrganism (Organism.poll w))
  rw [Organism.poll, next]
  cases w.heal.takeNovel with
  | mk token heal =>
    cases token with
    | none => rfl
    | some token => rfl

theorem embed_step {o o' : Organism} {e : Organism.Event} (he : Organism.Healthy e)
    (hstep : Organism.step o e = some o') :
    ∃ es, (∀ e ∈ es, Healthy e) ∧ Transition.StepsMeet step InTurn (ofOrganism o) es ∧
      run (ofOrganism o) es = some (ofOrganism o') := by
  have hmove {m : Prog.Move Fate Cause} (he : Organism.Healthy (.move m)) :
      ∃ m' : Prog.Move Fate Empty, (m' = .run ∨ m' = .serve .done) ∧ lift m' = m := by
    obtain he | he | he := he
    · cases he
    · exact ⟨.run, .inl rfl, (Organism.Event.move.inj he).symm⟩
    · exact ⟨.serve .done, .inr rfl, (Organism.Event.move.inj he).symm⟩
  -- one step, which is in turn
  have hone {e : Event} (hhealthy : Healthy e) (hturn : (ofOrganism o).InTurn e)
      (hstep : (ofOrganism o).step e = some (ofOrganism o')) :
      ∃ es, (∀ e ∈ es, Healthy e) ∧ Transition.StepsMeet step InTurn (ofOrganism o) es ∧
        run (ofOrganism o) es = some (ofOrganism o') := by
    refine ⟨[e], List.forall_mem_singleton.mpr hhealthy, ⟨hturn, fun _ _ => trivial⟩, ?_⟩
    rw [run, Transition.run, hstep]
    rfl
  cases Organism.stepped hstep with
  | loading hm =>
    obtain ⟨m', hsane, rfl⟩ := hmove he
    rw [move_lift] at hm
    exact hone (.inr ⟨m', hsane, .inl rfl⟩) trivial (Option.map_eq_some_iff.mpr ⟨_, hm, rfl⟩)
  | recording hm =>
    obtain ⟨m', hsane, rfl⟩ := hmove he
    rw [move_lift] at hm
    exact hone (.inr ⟨m', hsane, .inr rfl⟩) (.inl rfl) (Option.map_eq_some_iff.mpr ⟨_, hm, rfl⟩)
  | persisting hm =>
    obtain ⟨m', hsane, rfl⟩ := hmove he
    rw [move_lift] at hm
    exact hone (.inr ⟨m', hsane, .inr rfl⟩) (.inl rfl) (Option.map_eq_some_iff.mpr ⟨_, hm, rfl⟩)
  | crash => exact absurd rfl (he.quiet.1 _)
  | loaded => exact ⟨[], List.forall_mem_nil _, trivial, rfl⟩
  | poll => exact hone (e := .next) (.inl rfl) (fun _ => .inl rfl) (step_poll _)
  | recorded => exact hone (e := .next) (.inl rfl) (fun _ => .inl rfl) rfl
  | persisted => exact hone (e := .next) (.inl rfl) (fun _ => .inl rfl) rfl
  | clean => exact hone (e := .next) (.inl rfl) (fun _ => .inl rfl) rfl
  | cut => exact absurd rfl (he.quiet.2 _)

theorem embed_run {o o' : Organism} {es : List Organism.Event}
    (hes : ∀ e ∈ es, Organism.Healthy e) (hrun : Organism.run o es = some o') :
    ∃ es', (∀ e ∈ es', Healthy e) ∧ Transition.StepsMeet step InTurn (ofOrganism o) es' ∧
      run (ofOrganism o) es' = some (ofOrganism o') := by
  induction es generalizing o with
  | nil =>
    obtain rfl := Option.some.inj hrun
    exact ⟨[], List.forall_mem_nil _, trivial, rfl⟩
  | cons e es ih =>
    obtain ⟨o₁, hstep, hrun⟩ := Transition.run_cons hrun
    obtain ⟨es₁, hes₁, hturn₁, hrun₁⟩ := embed_step (hes e (.head _)) hstep
    obtain ⟨es₂, hes₂, hturn₂, hrun₂⟩ := ih (fun e he => hes e (.tail _ he)) hrun
    exact ⟨es₁ ++ es₂, List.forall_mem_append.mpr ⟨hes₁, hes₂⟩,
      Transition.stepsMeet_append_of hturn₁ hrun₁ hturn₂,
      Transition.run_append.mpr ⟨_, hrun₁, hrun₂⟩⟩

theorem remembers_turns {Ok : Fate → Prop} {s : Tandem} (h : s.turns.Tracks Ok Settled)
    (hidle : s.writer = .idle) : Remembers s.world := by
  cases hloaded : s.loaded with
  | false =>
    rw [turns_running hloaded] at h
    change TrackedTask (fun _ => True) Settled (fun _ w => w.Coherent) _ _ at h
    obtain ⟨v, hv⟩ := Organism.task_inv h
    exact hv.remembers
  | true =>
    rw [turns_loaded hloaded, hidle] at h
    obtain ⟨-, v, hv⟩ := h
    exact hv.remembers

theorem extends_step {s s' : Tandem} {e : Event} (h : Extends s.loader)
    (hstep : s.step e = some s') : Extends s'.loader := by
  cases e with
  | loader m =>
    obtain ⟨⟨loader, w⟩, hm, rfl⟩ := Option.map_eq_some_iff.mp hstep
    exact (Prog.Acts.step h hm).1
  | writer m =>
    obtain ⟨loader, writer, w⟩ := s
    cases writer with
    | idle => cases hstep
    | recording token p =>
      obtain ⟨r, hm, rfl⟩ := Option.map_eq_some_iff.mp hstep
      exact h
    | persisting p =>
      obtain ⟨r, hm, rfl⟩ := Option.map_eq_some_iff.mp hstep
      exact h
  | next =>
    have hloader : s'.loader = s.loader := by
      obtain ⟨loader, writer, w⟩ := s
      simp only [step, next] at hstep
      split at hstep
      · split at hstep
        · obtain rfl := Option.some.inj hstep
          rfl
        · obtain rfl := Option.some.inj hstep
          rfl
      · obtain rfl := Option.some.inj hstep
        rfl
      · obtain rfl := Option.some.inj hstep
        rfl
      · cases hstep
    rw [hloader]
    exact h
  | crash cause =>
    obtain rfl := Option.some.inj hstep
    exact h
  | cut page =>
    obtain rfl := Option.some.inj hstep
    exact extends_kbLoader

theorem loader_clean {s s' : Tandem} {m : Prog.Move Fate Empty} (h : Extends s.loader)
    (hstep : s.step (.loader m) = some s') (hclean : ∀ i ∈ s.world.heal.table, i.dirty = false) :
    ∀ i ∈ s'.world.heal.table, i.dirty = false := by
  obtain ⟨⟨loader, w⟩, hm, rfl⟩ := Option.map_eq_some_iff.mp hstep
  obtain ⟨-, ⟨-, hextended⟩ | ⟨fate, badge, status, -, hserve⟩ | ⟨e, -, -⟩⟩ := Prog.Acts.step h hm
  · exact hextended.clean hclean
  · change ∀ i ∈ w.heal.table, i.dirty = false
    rw [serve_heal hserve]
    exact hclean
  · exact e.elim

/-- A poll that nothing crashes into, from its start to its end. -/
structure Polled (s : Tandem) : Prop where
  rests : s.Rests
  tracks : s.turns.Tracks (· = .done) Settled
  loader : Extends s.loader
  drained (hloaded : s.loaded = true) : s.turns.Drained
  clean (hrunning : s.loaded = false) (hdone : s.writer = .idle ∨ s.writer = .persisting (.ret false)) :
    ∀ i ∈ s.world.heal.table, i.dirty = false

theorem Polled.step {s s' : Tandem} {e : Event} (h : s.Polled) (hturn : s.InTurn e)
    (hok : s.Persists (· = .done) e) (hquiet : Quiet e) (hstep : s.step e = some s') :
    s'.Polled := by
  obtain ⟨hrests, htracks, -⟩ := tracks_step settled_bookkeeping clear_of_done settled_clear
    ⟨h.rests, h.tracks, .of_disk rfl⟩ ⟨hturn, hok⟩ hstep
  have hextends := extends_step h.loader hstep
  have hwriter (he : e = .next ∨ ∃ m, e = .writer m) : s'.Polled := by
    cases hloaded : s.loaded with
    | true =>
      obtain ⟨hloader, horg⟩ := loaded_step hloaded he hstep
      have hloaded' : s'.loaded = true := by rw [loaded, hloader]; exact hloaded
      refine ⟨hrests, htracks, hextends, fun _ => ?_, fun h => ?_⟩
      · rw [turns_loaded hloaded']
        refine (h.drained hloaded).step h.tracks ?_ horg
        obtain rfl | ⟨m, rfl⟩ := he
        · exact ⟨fun _ => Organism.Event.noConfusion, fun _ => Organism.Event.noConfusion⟩
        · refine ⟨fun cause hc => ?_, fun _ => Organism.Event.noConfusion⟩
          cases m with
          | run => cases hc
          | serve fate => cases hc
          | env e => exact e.elim
      · rw [hloaded'] at h
        cases h
    | false =>
      obtain ⟨hr, hloader, hworld⟩ := rests_step hloaded (h.rests hloaded) hturn he hstep
      have hloaded' : s'.loaded = false := by rw [loaded, hloader]; exact hloaded
      refine ⟨hrests, htracks, hextends, fun h => ?_, fun _ _ => ?_⟩
      · rw [hloaded'] at h
        cases h
      · rw [hworld]
        obtain rfl | ⟨m, rfl⟩ := he
        · obtain ⟨loader, writer, w⟩ := s
          cases writer with
          | idle => exact h.clean hloaded (.inl rfl)
          | recording token p => exact (h.rests hloaded).elim
          | persisting p =>
            obtain rfl | rfl := h.rests hloaded
            · cases hstep
            · exact h.clean hloaded (.inr rfl)
        · exact hturn.resolve_left (by rw [hloaded]; exact Bool.false_ne_true)
  cases e with
  | next => exact hwriter (.inl rfl)
  | writer m => exact hwriter (.inr ⟨m, rfl⟩)
  | loader m =>
    obtain ⟨hrunning, horg, hsame⟩ := loader_step hstep
    have hclean := loader_clean h.loader hstep
    refine ⟨hrests, htracks, hextends, fun hloaded' => ?_, fun _ hdone => ?_⟩
    · have hwriter := h.rests hrunning
      have hdone := h.clean hrunning
      have hback := (h.tracks.step settled_bookkeeping clear_of_done settled_clear
        (persists_turns (e := .loader m) (fun hl => by rw [hrunning] at hl; cases hl) hok) horg).1
      rw [turns_loaded hloaded']
      rw [result_loaded hloaded'] at hback
      rw [← hsame] at hwriter hdone
      obtain ⟨loader, writer, w⟩ := s'
      cases writer with
      | idle => exact hclean (hdone (.inl rfl))
      | recording token p => exact hwriter.elim
      | persisting p =>
        obtain rfl | rfl := hwriter
        · change TrackedTask (fun _ => True) Settled (fun _ w => w.Coherent) _ _ at hback
          obtain ⟨⟨v, hv⟩, hco⟩ := Organism.task_returned hback
          exact Organism.drained_persist hv hco
        · refine fun w' hothers => ⟨trivial, fun _ => ?_⟩
          have hheal : w'.heal = w.heal := hothers.heal
          rw [hheal]
          exact hclean (hdone (.inr rfl))
    · rw [hsame] at hdone
      exact hclean (h.clean hrunning hdone)
  | crash cause => exact absurd rfl (hquiet.1 cause)
  | cut page => exact absurd rfl (hquiet.2 page)

theorem Polled.done {s : Tandem} (h : s.Polled) (hidle : s.writer = .idle) :
    InAgreement s.world := by
  have hclean : ∀ i ∈ s.world.heal.table, i.dirty = false := by
    cases hloaded : s.loaded with
    | false => exact h.clean hloaded (.inl hidle)
    | true =>
      have hdrained := h.drained hloaded
      rw [turns_loaded hloaded, hidle] at hdrained
      exact hdrained
  exact (remembers_turns h.tracks hidle).inAgreement hclean

end Tandem

end Perenne

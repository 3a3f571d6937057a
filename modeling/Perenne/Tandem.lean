import Perenne.Boots

/-!
# The loader and the writer at the same time

`kmain` spawns `kb` and `kbw` together: while the loader reads the disk the writer polls already,
and both use the data page and `FS_CACHED_BLOCK`. As long as no poll finds work before the loader
has returned, this is the machine in which they take turns.
-/

namespace Perenne

/-- Where `kb_writer_task` is. -/
inductive Writer where
  | idle
  | recording (token : Text) (p : Io Bool)
  | persisting (p : Io Bool)

namespace Writer

def phase : Writer → Phase
  | .idle => .idle
  | .recording token p => .recording token p
  | .persisting p => .persisting p

/-- It has taken the token and not yet installed its entry. -/
def Recording (writer : Writer) (token : Text) : Prop :=
  match writer with
  | .recording token' _ => token' = token
  | _ => False

instance (writer : Writer) (token : Text) : Decidable (writer.Recording token) :=
  match writer with
  | .idle => inferInstanceAs (Decidable False)
  | .recording token' _ => inferInstanceAs (Decidable (token' = token))
  | .persisting _ => inferInstanceAs (Decidable False)

def AtLatch : Writer → Prop
  | .idle => True
  | _ => False

instance (writer : Writer) : Decidable writer.AtLatch :=
  match writer with
  | .idle => isTrue trivial
  | .recording _ _ => isFalse id
  | .persisting _ => isFalse id

/-- Its poll has found nothing to do so far. -/
def Rests : Writer → Prop
  | .idle => True
  | .recording _ _ => False
  | .persisting p => p = persistOne ∨ p = .ret false

end Writer

/-- What is left of `kb_loader_task`, where the writer is, and what both work on. -/
structure Tandem where
  loader : Io Unit
  writer : Writer
  world : World

namespace Tandem

inductive Event where
  /-- A step of the loader, or an answer to it. -/
  | loader (m : Prog.Move Fate Empty)
  /-- A step of the writer inside its poll, or an answer to it. -/
  | writer (m : Prog.Move Fate Empty)
  /-- The writer goes on to what comes next in its loop. -/
  | next
  /-- A contained crash. -/
  | crash (cause : Cause)
  /-- The power goes and comes back, with anything in the data page. -/
  | cut (page : Block)

def boot (disk : Nat → Block) (page : Block) : Tandem :=
  ⟨kbLoader, .idle, ⟨disk, page, -1, .empty⟩⟩

def move {α : Type} (p : Io α) (w : World) (m : Prog.Move Fate Empty) : Option (Io α × World) :=
  Prog.step World.serve (fun e _ => e.elim) (p, w) m

/-- The loop of `kb_writer_task`. -/
def next (s : Tandem) : Option Tandem :=
  match s.writer with
  | .idle =>
    match s.world.heal.takeNovel with
    | (none, heal) => some { s with writer := .persisting persistOne, world := { s.world with heal } }
    | (some token, heal) =>
      some { s with writer := .recording token (recordNovel token), world := { s.world with heal } }
  | .recording _ (.ret _) => some { s with writer := .persisting persistOne }
  | .persisting (.ret more) =>
    some { s with writer := if more then .persisting persistOne else .idle }
  | _ => none

def step (s : Tandem) : Event → Option Tandem
  | .loader m => (move s.loader s.world m).map fun r => { s with loader := r.1, world := r.2 }
  | .writer m =>
    match s.writer with
    | .idle => none
    | .recording token p =>
      (move p s.world m).map fun r => { s with writer := .recording token r.1, world := r.2 }
    | .persisting p =>
      (move p s.world m).map fun r => { s with writer := .persisting r.1, world := r.2 }
  | .next => s.next
  | .crash cause => (Perenne.crash cause s.world).map fun w => { s with world := w }
  | .cut page => some (boot s.world.disk page)

def run : Tandem → List Event → Option Tandem := Transition.run step

def loaded (s : Tandem) : Bool := s.loader.result.isSome

/-- The writer finds work only after the loader has returned: before that nothing is latched when
it looks at the latch, and no entry is dirty when it looks for one. -/
def InTurn (s : Tandem) : Event → Prop
  | .next => s.writer.AtLatch → s.loaded = true ∨ s.world.heal.novelToken = none
  | .writer _ => s.loaded = true ∨ ∀ i ∈ s.world.heal.table, i.dirty = false
  | _ => True

instance (s : Tandem) (e : Event) : Decidable (s.InTurn e) :=
  match e with
  | .next =>
    inferInstanceAs (Decidable (s.writer.AtLatch → s.loaded = true ∨ s.world.heal.novelToken = none))
  | .writer _ =>
    inferInstanceAs (Decidable (s.loaded = true ∨ ∀ i ∈ s.world.heal.table, i.dirty = false))
  | .loader _ => isTrue trivial
  | .crash _ => isTrue trivial
  | .cut _ => isTrue trivial

/-- The move in a machine with crashes. -/
def lift : Prog.Move Fate Empty → Prog.Move Fate Cause
  | .run => .run
  | .serve fate => .serve fate
  | .env e => e.elim

theorem move_lift {α : Type} (p : Io α) (w : World) (m : Prog.Move Fate Empty) :
    Prog.step World.serve Perenne.crash (p, w) (lift m) = move p w m := by
  cases m with
  | run => cases p <;> rfl
  | serve fate => cases p <;> rfl
  | env e => exact e.elim

theorem map_move_lift {α β : Type} {p : Io α} {w : World} {m : Prog.Move Fate Empty}
    {r : Io α × World} (hm : move p w m = some r) (f : Io α × World → β) :
    (Prog.step World.serve Perenne.crash (p, w) (lift m)).map f = some (f r) := by
  rw [move_lift, hm]
  rfl

/-- What happens, in the machine in which the tasks take turns. -/
def Event.turn : Event → Organism.Event
  | .loader m => .move (lift m)
  | .writer m => .move (lift m)
  | .next => .next
  | .crash cause => .move (.env cause)
  | .cut page => .cut page

/-- The machine in which the tasks take turns: it looks at the writer once the loader is done. -/
def turns (s : Tandem) : Organism := ⟨if s.loaded then s.writer.phase else .loading s.loader, s.world⟩

/-- While the loader runs, the writer has found nothing to do. -/
def Rests (s : Tandem) : Prop := s.loaded = false → s.writer.Rests

/-- A step that is one of the machine in which the tasks take turns, or that the writer's idle poll
takes beside the loader, or with which the loader returns while such a poll may be going on. -/
inductive Turned (s : Tandem) (e : Event) (s' : Tandem) : Prop where
  | same (h : s'.turns = s.turns)
  | step (hloader : s.loaded = true → ∀ m, e ≠ .loader m)
    (h : Organism.step s.turns e.turn = some s'.turns)
  | loaded {m : Prog.Move Fate Empty} {writer : Writer} {w : World} (he : e = .loader m)
    (hrunning : s.loaded = false)
    (h : Organism.step s.turns (.move (lift m)) = some ⟨.loading (.ret ()), w⟩)
    (hrests : writer.Rests) (h' : s'.turns = ⟨writer.phase, w⟩)

theorem turns_loaded {s : Tandem} (h : s.loaded = true) : s.turns = ⟨s.writer.phase, s.world⟩ := by
  rw [turns, if_pos h]

theorem turns_running {s : Tandem} (h : s.loaded = false) :
    s.turns = ⟨.loading s.loader, s.world⟩ := by
  rw [turns, if_neg (by rw [h]; exact Bool.false_ne_true)]

theorem dirtySlot_clean {t : List KnownIssue} (h : ∀ i ∈ t, i.dirty = false) :
    Heal.dirtySlot t = (none, t) := by
  induction t with
  | nil => rfl
  | cons i t ih =>
    have hrest := ih fun j hj => h j (.tail _ hj)
    rw [Heal.dirtySlot, h i (.head _), hrest]
    rfl

theorem move_persistOne {w : World} (h : ∀ i ∈ w.heal.table, i.dirty = false)
    {m : Prog.Move Fate Empty} {r : Io Bool × World} (hm : move persistOne w m = some r) :
    r = (.ret false, w) := by
  have hdirty : w.heal.dirtyEntry = (none, w.heal) := by
    rw [Heal.dirtyEntry, dirtySlot_clean h]
  cases m with
  | serve fate => cases hm
  | env e => exact e.elim
  | run =>
    obtain rfl := Option.some.inj hm
    dsimp only
    rw [hdirty]
    rfl

theorem takeNovel_idle {w : World} (h : w.heal.novelToken = none) :
    w.heal.takeNovel = (none, w.heal) := by
  obtain ⟨disk, page, cached, ⟨table, last, novel⟩⟩ := w
  obtain rfl : novel = none := h
  rfl

theorem rests_step {s s' : Tandem} {e : Event} (hrunning : s.loaded = false)
    (hrests : s.writer.Rests) (hturn : s.InTurn e) (he : e = .next ∨ ∃ m, e = .writer m)
    (hstep : s.step e = some s') :
    s'.writer.Rests ∧ s'.loader = s.loader ∧ s'.world = s.world := by
  have hnot : ¬ s.loaded = true := by rw [hrunning]; exact Bool.false_ne_true
  obtain ⟨loader, writer, w⟩ := s
  obtain rfl | ⟨m, rfl⟩ := he
  · cases writer with
    | idle =>
      simp only [step, next, takeNovel_idle ((hturn trivial).resolve_left hnot)] at hstep
      obtain rfl := Option.some.inj hstep
      exact ⟨.inl rfl, rfl, rfl⟩
    | recording token p => exact hrests.elim
    | persisting p =>
      obtain rfl | rfl := hrests
      · cases hstep
      · obtain rfl := Option.some.inj hstep
        exact ⟨trivial, rfl, rfl⟩
  · cases writer with
    | idle => cases hstep
    | recording token p => exact hrests.elim
    | persisting p =>
      obtain ⟨r, hm, rfl⟩ := Option.map_eq_some_iff.mp hstep
      obtain rfl | rfl := hrests
      · obtain rfl := move_persistOne (hturn.resolve_left hnot) hm
        exact ⟨.inr rfl, rfl, rfl⟩
      · cases m with
        | run => cases hm
        | serve fate => cases hm
        | env e => exact e.elim

theorem loaded_step {s s' : Tandem} {e : Event} (hloaded : s.loaded = true)
    (he : e = .next ∨ ∃ m, e = .writer m) (hstep : s.step e = some s') :
    s'.loader = s.loader ∧ Organism.step s.turns e.turn = some ⟨s'.writer.phase, s'.world⟩ := by
  rw [turns_loaded hloaded]
  obtain ⟨loader, writer, w⟩ := s
  obtain rfl | ⟨m, rfl⟩ := he
  · simp only [step, next] at hstep
    cases writer with
    | idle =>
      dsimp only at hstep
      change _ ∧ some (Organism.poll w) = _
      rw [Organism.poll]
      split at hstep
      · obtain rfl := Option.some.inj hstep
        refine ⟨rfl, ?_⟩
        simp_all [Writer.phase]
      · obtain rfl := Option.some.inj hstep
        refine ⟨rfl, ?_⟩
        simp_all [Writer.phase]
    | recording token p =>
      cases p with
      | ret r =>
        obtain rfl := Option.some.inj hstep
        exact ⟨rfl, rfl⟩
      | stop e => cases hstep
      | act u k => cases hstep
      | call i k => cases hstep
    | persisting p =>
      cases p with
      | ret more =>
        obtain rfl := Option.some.inj hstep
        cases more with
        | false => exact ⟨rfl, rfl⟩
        | true => exact ⟨rfl, rfl⟩
      | stop e => cases hstep
      | act u k => cases hstep
      | call i k => cases hstep
  · cases writer with
    | idle => cases hstep
    | recording token p =>
      obtain ⟨r, hm, rfl⟩ := Option.map_eq_some_iff.mp hstep
      exact ⟨rfl, map_move_lift hm _⟩
    | persisting p =>
      obtain ⟨r, hm, rfl⟩ := Option.map_eq_some_iff.mp hstep
      exact ⟨rfl, map_move_lift hm _⟩

theorem result_loaded {loader : Io Unit} (h : loader.result.isSome = true) : loader = .ret () := by
  obtain ⟨a, ha⟩ := Option.isSome_iff_exists.mp h
  exact Prog.eq_ret_of_result ha

theorem loader_step {s s' : Tandem} {m : Prog.Move Fate Empty}
    (hstep : s.step (.loader m) = some s') : s.loaded = false ∧
      Organism.step s.turns (.move (lift m)) = some ⟨.loading s'.loader, s'.world⟩ ∧
      s'.writer = s.writer := by
  obtain ⟨⟨loader, w⟩, hm, rfl⟩ := Option.map_eq_some_iff.mp hstep
  have hrunning : s.loaded = false := by
    cases hloaded : s.loaded with
    | false => rfl
    | true =>
      rw [result_loaded hloaded] at hm
      cases m with
      | run => cases hm
      | serve fate => cases hm
      | env e => exact e.elim
  refine ⟨hrunning, ?_, rfl⟩
  rw [turns_running hrunning]
  exact map_move_lift hm _

/-- Where the tasks take turns, every step is one of the machine in which they do, up to the
writer's idle polls beside the loader. -/
theorem turned {s s' : Tandem} {e : Event} (hrests : s.Rests) (hturn : s.InTurn e)
    (hstep : s.step e = some s') : s'.Rests ∧ Turned s e s' := by
  have hwriter (he : e = .next ∨ ∃ m, e = .writer m) : s'.Rests ∧ Turned s e s' := by
    have hno (m : Prog.Move Fate Empty) : e ≠ .loader m := by
      obtain rfl | ⟨m', rfl⟩ := he
      · exact Event.noConfusion
      · exact Event.noConfusion
    cases hloaded : s.loaded with
    | true =>
      obtain ⟨hloader, horg⟩ := loaded_step hloaded he hstep
      have hloaded' : s'.loaded = true := by rw [loaded, hloader]; exact hloaded
      refine ⟨fun h => absurd (hloaded'.symm.trans h) (by decide), ?_⟩
      exact .step (fun _ => hno) (by rw [turns_loaded hloaded']; exact horg)
    | false =>
      obtain ⟨hr, hloader, hworld⟩ := rests_step hloaded (hrests hloaded) hturn he hstep
      have hloaded' : s'.loaded = false := by rw [loaded, hloader]; exact hloaded
      refine ⟨fun _ => hr, .same ?_⟩
      rw [turns_running hloaded', turns_running hloaded, hloader, hworld]
  cases e with
  | next => exact hwriter (.inl rfl)
  | writer m => exact hwriter (.inr ⟨m, rfl⟩)
  | loader m =>
    obtain ⟨hrunning, horg, hwriter⟩ := loader_step hstep
    obtain ⟨loader, writer, w⟩ := s'
    obtain rfl : writer = s.writer := hwriter
    refine ⟨fun _ => hrests hrunning, ?_⟩
    cases hloaded : loader.result.isSome with
    | false =>
      refine .step (fun h => absurd h (by rw [hrunning]; exact Bool.false_ne_true)) ?_
      rw [turns_running (s := ⟨loader, s.writer, w⟩) hloaded]
      exact horg
    | true =>
      rw [result_loaded hloaded] at horg
      exact .loaded rfl hrunning horg (hrests hrunning)
        (turns_loaded (s := ⟨loader, s.writer, w⟩) hloaded)
  | crash cause =>
    obtain rfl := Option.some.inj hstep
    refine ⟨hrests, .step (fun _ _ => Event.noConfusion) ?_⟩
    obtain ⟨loader, writer, w⟩ := s
    cases hloaded : loader.result.isSome with
    | false =>
      have hturns (w : World) := turns_running (s := ⟨loader, writer, w⟩) hloaded
      refine Eq.trans ?_ (congrArg some (hturns _).symm)
      rw [hturns]
      cases loader <;> rfl
    | true =>
      have hturns (w : World) := turns_loaded (s := ⟨loader, writer, w⟩) hloaded
      refine Eq.trans ?_ (congrArg some (hturns _).symm)
      rw [hturns]
      cases writer with
      | idle => rfl
      | recording token p => cases p <;> rfl
      | persisting p => cases p <;> rfl
  | cut page =>
    obtain rfl := Option.some.inj hstep
    refine ⟨fun _ => trivial, .step (fun _ _ => Event.noConfusion) ?_⟩
    cases hloaded : s.loaded with
    | false =>
      rw [turns_running hloaded]
      obtain ⟨loader, writer, w⟩ := s
      cases loader <;> rfl
    | true =>
      rw [turns_loaded hloaded]
      obtain ⟨loader, writer, w⟩ := s
      cases writer with
      | idle => rfl
      | recording token p => cases p <;> rfl
      | persisting p => cases p <;> rfl

section Turns

variable {I : Organism → Prop} {Good : Organism → Organism.Event → Prop}
  {Good' : Tandem → Event → Prop}
  (hstep : ∀ s e s', I s → Good s e → Organism.step s e = some s' → I s')
  (hloaded : ∀ w (writer : Writer), I ⟨.loading (.ret ()), w⟩ → writer.Rests → I ⟨writer.phase, w⟩)
  (hgood : ∀ (s : Tandem) e, (s.loaded = true → ∀ m, e ≠ .loader m) → Good' s e →
    Good s.turns e.turn)
  {s s' : Tandem}

include hstep hloaded hgood

/-- What the machine in which the tasks take turns keeps holds here, if the writer may also be found
in an idle poll when the loader returns. -/
theorem invariant_turned {e : Event} (h : s.Rests ∧ I s.turns) (hmeet : s.InTurn e ∧ Good' s e)
    (hs : s.step e = some s') : s'.Rests ∧ I s'.turns := by
  obtain ⟨hrests', ⟨hsame⟩ | ⟨hno, horg⟩ | ⟨rfl, hrunning, horg, hwriter, hturns⟩⟩ :=
    turned h.1 hmeet.1 hs
  · exact ⟨hrests', hsame ▸ h.2⟩
  · exact ⟨hrests', hstep _ _ _ h.2 (hgood s e hno hmeet.2) horg⟩
  · refine ⟨hrests', ?_⟩
    rw [hturns]
    refine hloaded _ _ (hstep _ _ _ h.2 (hgood s _ (fun hl => ?_) hmeet.2) horg) hwriter
    rw [hrunning] at hl
    cases hl

theorem invariant_turns {es : List Event} (h : s.Rests ∧ I s.turns)
    (hmeet : Transition.StepsMeet step (fun s e => s.InTurn e ∧ Good' s e) s es)
    (hrun : run s es = some s') : s'.Rests ∧ I s'.turns :=
  Transition.invariant_run (fun _ _ _ h hmeet hs => invariant_turned hstep hloaded hgood h hmeet hs)
    h hmeet hrun

end Turns

/-- The machine in which the tasks take turns, as one of those in which they need not. -/
def ofOrganism (o : Organism) : Tandem :=
  match o.phase with
  | .loading p => ⟨p, .idle, o.world⟩
  | .idle => ⟨.ret (), .idle, o.world⟩
  | .recording token p => ⟨.ret (), .recording token p, o.world⟩
  | .persisting p => ⟨.ret (), .persisting p, o.world⟩

theorem boot_rests (disk : Nat → Block) (page : Block) : (boot disk page).Rests := fun _ => trivial

end Tandem

end Perenne

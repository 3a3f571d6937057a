import Perenne.Recognition

namespace Perenne

/-- Where the loader and the writer are. -/
inductive Phase where
  /-- `kb_loader_task` fills the table. -/
  | loading (p : Io Unit)
  /-- `kb_writer_task` is between two polls. -/
  | idle
  /-- It has taken this token from the latch and is recording it. -/
  | recording (token : Text) (p : Io Bool)
  /-- It is in its persist loop. -/
  | persisting (p : Io Bool)

structure Organism where
  phase : Phase
  world : World

namespace Organism

inductive Event where
  /-- A step of the task, an answer of the block server, or a contained crash. -/
  | move (m : Prog.Move Fate Cause)
  /-- The task goes on to what comes next in its loop. -/
  | next
  /-- The power goes and comes back, with anything in the data page. -/
  | cut (page : Block)

def poll (w : World) : Organism :=
  match w.heal.takeNovel with
  | (none, heal) => ⟨.persisting persistOne, { w with heal }⟩
  | (some token, heal) => ⟨.recording token (recordNovel token), { w with heal }⟩

theorem poll_free {w : World} (h : w.heal.novelToken = none) :
    poll w = ⟨.persisting persistOne, { w with heal := w.heal.takeNovel.2 }⟩ := by
  have htake : w.heal.takeNovel = (none, w.heal.takeNovel.2) := Prod.ext h rfl
  rw [poll, htake]

theorem poll_latched {w : World} {token : Text} (h : w.heal.novelToken = some token) :
    poll w = ⟨.recording token (recordNovel token), { w with heal := w.heal.takeNovel.2 }⟩ := by
  have htake : w.heal.takeNovel = (some token, w.heal.takeNovel.2) := Prod.ext h rfl
  rw [poll, htake]

def step : Organism → Event → Option Organism
  | ⟨.loading p, w⟩, .move m =>
    (Prog.step World.serve crash (p, w) m).map fun r => ⟨.loading r.1, r.2⟩
  | ⟨.recording token p, w⟩, .move m =>
    (Prog.step World.serve crash (p, w) m).map fun r => ⟨.recording token r.1, r.2⟩
  | ⟨.persisting p, w⟩, .move m =>
    (Prog.step World.serve crash (p, w) m).map fun r => ⟨.persisting r.1, r.2⟩
  | ⟨.idle, w⟩, .move (.env cause) => (crash cause w).map fun w => ⟨.idle, w⟩
  | ⟨.loading (.ret _), w⟩, .next => some ⟨.idle, w⟩
  | ⟨.idle, w⟩, .next => some (poll w)
  | ⟨.recording _ (.ret _), w⟩, .next => some ⟨.persisting persistOne, w⟩
  | ⟨.persisting (.ret more), w⟩, .next =>
    some ⟨if more then .persisting persistOne else .idle, w⟩
  | ⟨_, w⟩, .cut page => some ⟨.loading kbLoader, w.reboot page⟩
  | _, _ => none

/-- What a step can be. -/
inductive Stepped : Organism → Event → Organism → Prop where
  | loading {p p' : Io Unit} {w w' : World} {m : Prog.Move Fate Cause}
    (h : Prog.step World.serve crash (p, w) m = some (p', w')) :
    Stepped ⟨.loading p, w⟩ (.move m) ⟨.loading p', w'⟩
  | recording {token : Text} {p p' : Io Bool} {w w' : World} {m : Prog.Move Fate Cause}
    (h : Prog.step World.serve crash (p, w) m = some (p', w')) :
    Stepped ⟨.recording token p, w⟩ (.move m) ⟨.recording token p', w'⟩
  | persisting {p p' : Io Bool} {w w' : World} {m : Prog.Move Fate Cause}
    (h : Prog.step World.serve crash (p, w) m = some (p', w')) :
    Stepped ⟨.persisting p, w⟩ (.move m) ⟨.persisting p', w'⟩
  | crash {w : World} {cause : Cause} :
    Stepped ⟨.idle, w⟩ (.move (.env cause)) ⟨.idle, { w with heal := (w.heal.onCrash cause).1 }⟩
  | loaded {w : World} : Stepped ⟨.loading (.ret ()), w⟩ .next ⟨.idle, w⟩
  | poll {w : World} : Stepped ⟨.idle, w⟩ .next (poll w)
  | recorded {token : Text} {r : Bool} {w : World} :
    Stepped ⟨.recording token (.ret r), w⟩ .next ⟨.persisting persistOne, w⟩
  | persisted {w : World} :
    Stepped ⟨.persisting (.ret true), w⟩ .next ⟨.persisting persistOne, w⟩
  | clean {w : World} : Stepped ⟨.persisting (.ret false), w⟩ .next ⟨.idle, w⟩
  | cut {s : Organism} {page : Block} :
    Stepped s (.cut page) ⟨.loading kbLoader, s.world.reboot page⟩

theorem stepped {s s' : Organism} {e : Event} (h : step s e = some s') : Stepped s e s' := by
  obtain ⟨phase, w⟩ := s
  cases e with
  | cut page =>
    have hcut : step ⟨phase, w⟩ (.cut page) = some ⟨.loading kbLoader, w.reboot page⟩ := by
      cases phase <;> rfl
    obtain rfl := Option.some.inj (hcut.symm.trans h)
    exact .cut
  | move m =>
    cases phase with
    | loading p =>
      obtain ⟨⟨p', w'⟩, hm, rfl⟩ := Option.map_eq_some_iff.mp h
      exact .loading hm
    | recording token p =>
      obtain ⟨⟨p', w'⟩, hm, rfl⟩ := Option.map_eq_some_iff.mp h
      exact .recording hm
    | persisting p =>
      obtain ⟨⟨p', w'⟩, hm, rfl⟩ := Option.map_eq_some_iff.mp h
      exact .persisting hm
    | idle =>
      cases m with
      | env cause =>
        obtain rfl := Option.some.inj h
        exact .crash
      | run => cases h
      | serve f => cases h
  | next =>
    cases phase with
    | idle =>
      obtain rfl := Option.some.inj h
      exact .poll
    | loading p =>
      cases p with
      | ret a =>
        obtain rfl := Option.some.inj h
        exact .loaded
      | stop e => cases h
      | act u k => cases h
      | call i k => cases h
    | recording token p =>
      cases p with
      | ret a =>
        obtain rfl := Option.some.inj h
        exact .recorded
      | stop e => cases h
      | act u k => cases h
      | call i k => cases h
    | persisting p =>
      cases p with
      | ret more =>
        obtain rfl := Option.some.inj h
        cases more with
        | false => exact .clean
        | true => exact .persisted
      | stop e => cases h
      | act u k => cases h
      | call i k => cases h

def boot (disk : Nat → Block) (page : Block) : Organism :=
  ⟨.loading kbLoader, ⟨disk, page, -1, .empty⟩⟩

def run : Organism → List Event → Option Organism := Transition.run step

end Organism

/-- The device, as far as its fates are in `Ok`. -/
def serveOk (Ok : Fate → Prop) (fate : { f : Fate // Ok f }) (w : World) (badge : Nat) :
    Option (Nat × World) :=
  w.serve fate.1 badge

theorem serveOk_client {Ok : Fate → Prop} {H : Heal → Heal → Prop} {G : World → World → Prop}
    (hrefl : ∀ h, H h h) (htrans : ∀ h₁ h₂ h₃, H h₁ h₂ → H h₂ h₃ → H h₁ h₃)
    (hsame : ∀ w w', w'.disk = w.disk → G w w') : Client (serveOk Ok) Ok H G :=
  ⟨fun {f _ _ _} h => ⟨f.1, f.2, h⟩, hrefl, htrans, hsame⟩

theorem FsSound.move {Ok : Fate → Prop} {H : Heal → Heal → Prop} {G : World → World → Prop}
    (hC : Client (serveOk Ok) Ok H G) {Inv : World → Prop} {Stop : Panic → Prop} {α : Type}
    {Post : α → World → Prop} {p p' : Io α} {w w' : World} {m : Prog.Move Fate Cause}
    (h : FsSound (serveOk Ok) H G Inv Stop Post p w)
    (hstep : Prog.step World.serve crash (p, w) m = some (p', w'))
    (hfate : ∀ f, m = .serve f → Ok f)
    (hcrash : ∀ c, m = .env c → H w.heal (w.heal.onCrash c).1) :
    FsSound (serveOk Ok) H G Inv Stop Post p' w' ∧ G w w' := by
  obtain ⟨hsound, hmove⟩ := Prog.Sound.step hC.lawful h (fun f badge r hm hf => ⟨⟨f, hfate f hm⟩, hf⟩)
    (fun c w'' hm hc => by
      obtain rfl := Option.some.inj hc
      exact ⟨rfl, rfl, rfl, hcrash c hm⟩) hstep
  exact ⟨hsound, hmove.elim id fun hothers => hC.same _ _ hothers.disk⟩

end Perenne

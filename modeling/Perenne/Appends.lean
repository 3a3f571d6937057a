import Perenne.Volume

namespace Perenne

/-- The other tasks may do anything to the statics of `heal.rs`. -/
def disturb (heal : Heal) (w : World) : Option World := some { w with heal }

def Disturbed : Heal → Heal → Prop := fun _ _ => True

theorem disturbed_client : Client World.serve (fun _ => True) Disturbed (fun _ _ => True) :=
  ⟨fun h => ⟨_, trivial, h⟩, fun _ => trivial, fun _ _ _ _ _ => trivial, fun _ _ _ => trivial⟩

theorem disturb_others (heal : Heal) (w w' : World) (h : disturb heal w = some w') :
    Others Disturbed w w' := by
  obtain rfl := Option.some.inj h
  exact ⟨rfl, rfl, rfl, trivial⟩

/-- One call of `fs_append_file`: its moves, and the power cut that ends it, if one does,
with what the memory holds after the reboot. -/
structure Attempt where
  name : Text
  contents : List UInt8
  moves : List (Prog.Move Fate Heal)
  cut : Option (Block × Heal)

namespace Attempt

def reach (a : Attempt) (w : World) : Option (Io (Option UInt32) × World) :=
  Transition.run (Prog.step World.serve disturb) (fsAppendFile a.name a.contents, w) a.moves

/-- The state the next attempt starts from: the call has returned, or the power was cut
and `FS_CACHED_BLOCK` is -1 again. -/
def next (w : World) (a : Attempt) : Option World :=
  match a.reach w, a.cut with
  | some (_, w'), some (page, heal) => some ⟨w'.disk, page, -1, heal⟩
  | some (.ret _, w'), none => some w'
  | _, _ => none

end Attempt

/-- A well-formed volume on the disk, and a true cache. -/
structure World.Ready (w : World) (v : Volume) : Prop where
  volume : readVolume w.disk = some v
  wellFormed : v.WellFormed
  coherent : w.Coherent

section Atomic

variable {a : Attempt} {w w' : World} {v : Volume}

theorem World.coherent_of_reboot (disk : Nat → Block) (page : Block) (heal : Heal) :
    World.Coherent ⟨disk, page, -1, heal⟩ := by
  intro n hn
  change (-1 : Int) = n at hn
  omega

theorem Attempt.reach_sound {p : Io (Option UInt32)} (h : w.Ready v)
    (hreach : a.reach w = some (p, w')) :
    FsSound World.serve Disturbed (fun _ _ => True) (fun w' => OneOf v a.name a.contents w'.disk)
      (fun _ => True) (fun r w' => w'.Coherent ∧ ∀ start, r = some start →
        readVolume w'.disk = some (v.appended a.name a.contents)) p w' := by
  have hC := disturbed_client
  refine Prog.Sound.run hC.lawful disturb_others ?_ hreach
  apply (fsAppendFile_sound hC a.name a.contents h.wellFormed h.volume h.coherent
    (fun w' hone _ => hone) fun _ _ _ _ => trivial).mono
  rintro r w' ⟨-, hco, -, hsome⟩
  exact ⟨hco, fun start hstart => (hsome start hstart).2.2⟩

theorem OneOf.ready {disk : Nat → Block} {name : Text} {contents : List UInt8}
    (hv : v.WellFormed) (h : OneOf v name contents disk) :
    ∃ v', readVolume disk = some v' ∧ v'.WellFormed := by
  obtain h | ⟨htakes, h⟩ := h
  · exact ⟨v, h, hv⟩
  · exact ⟨_, h, hv.appended name htakes⟩

theorem Attempt.next_ready (h : ∃ v, w.Ready v) (hnext : Attempt.next w a = some w') :
    ∃ v, w'.Ready v := by
  obtain ⟨v, h⟩ := h
  unfold Attempt.next at hnext
  split at hnext
  case h_1 p w₁ page heal hreach hcut =>
    obtain rfl := Option.some.inj hnext
    have hone := (reach_sound h hreach).inv (disturbed_client.others_refl _)
    obtain ⟨v', hread, hwf⟩ := hone.ready h.wellFormed
    exact ⟨v', hread, hwf, World.coherent_of_reboot _ _ _⟩
  case h_2 r w₁ hreach hcut =>
    obtain rfl := Option.some.inj hnext
    obtain ⟨hone, hco, -⟩ := reach_sound h hreach _ (disturbed_client.others_refl _)
    obtain ⟨v', hread, hwf⟩ := hone.ready h.wellFormed
    exact ⟨v', hread, hwf, hco⟩
  case h_3 => cases hnext

/-- Append is crash-atomic: after any attempts, with device errors and power cuts at any
request, one more call shows the volume before it or the one with the file at every
moment, and the latter once it has returned a start block. -/
theorem append_crash_atomic {w₀ : World} {v₀ : Volume} (h₀ : w₀.Ready v₀)
    {earlier : List Attempt} (hearlier : Transition.run Attempt.next w₀ earlier = some w)
    {p : Io (Option UInt32)} (hreach : a.reach w = some (p, w')) :
    ∃ v, readVolume w.disk = some v ∧
      (readVolume w'.disk = some v ∨
        readVolume w'.disk = some (v.appended a.name a.contents)) ∧
      ∀ start, p = .ret (some start) →
        readVolume w'.disk = some (v.appended a.name a.contents) := by
  have hstep (w : World) (a : Attempt) (w' : World) (h : ∃ v, w.Ready v) (_ : True)
      (hnext : Attempt.next w a = some w') : ∃ v, w'.Ready v :=
    Attempt.next_ready h hnext
  obtain ⟨v, h⟩ := Transition.invariant_run hstep ⟨v₀, h₀⟩ (Transition.stepsMeet_true _) hearlier
  have hsound := Attempt.reach_sound h hreach
  refine ⟨v, h.volume, (hsound.inv (disturbed_client.others_refl _)).imp_right And.right, ?_⟩
  rintro start rfl
  exact (hsound w' (disturbed_client.others_refl _)).2.2 start rfl

end Atomic

/-- A disk without files, as `mkfs` writes it. -/
def blankWorld : World where
  disk := Function.update (fun _ => .pad blockSize []) 0
    (.pad blockSize (Superblock.encode ⟨fsMagic, fsVersion, 512, dirBlockNumber, 0, dataStartBlock⟩
      (List.replicate blockSize 0)))
  page := .pad blockSize []
  cached := -1
  heal := .empty

/-- Two reads and three writes, the last of which meets `fate`. -/
def fiveRequests {η : Type} (fate : Fate) : List (Prog.Move Fate η) :=
  [.run, .serve .done, .run, .run, .run, .serve .done, .run, .run,
    .run, .run, .run, .serve .done, .run, .run, .run, .serve .done, .run, .run, .run, .serve fate]

/-- The superblock write fails, and the append is tried again. -/
theorem append_crash_atomic_retry : ∃ w w' p, Transition.run Attempt.next blankWorld
      [⟨utf8 "a", [1], fiveRequests (.failed 1 false (.pad blockSize [])), none⟩] = some w ∧
    Attempt.reach ⟨utf8 "a", [2], fiveRequests .done, none⟩ w = some (p, w') ∧
    ∃ v, readVolume w.disk = some v ∧
      (readVolume w'.disk = some v ∨ readVolume w'.disk = some (v.appended (utf8 "a") [2])) ∧
      ∀ start, p = .ret (some start) → readVolume w'.disk = some (v.appended (utf8 "a") [2]) := by
  have hready : blankWorld.Ready
      ⟨⟨fsMagic, fsVersion, 512, dirBlockNumber, 0, dataStartBlock⟩, []⟩ := by
    refine ⟨by decide +kernel, ⟨rfl, by decide, by decide, by decide, nofun⟩, ?_⟩
    exact World.coherent_of_reboot _ _ _
  have hruns : ((Transition.run Attempt.next blankWorld
      [⟨utf8 "a", [1], fiveRequests (.failed 1 false (.pad blockSize [])), none⟩]).bind
      (Attempt.reach ⟨utf8 "a", [2], fiveRequests .done, none⟩)).isSome := by
    decide +kernel
  obtain ⟨⟨p, w'⟩, hruns⟩ := Option.isSome_iff_exists.mp hruns
  obtain ⟨w, hearlier, hreach⟩ := Option.bind_eq_some_iff.mp hruns
  exact ⟨w, w', p, hearlier, hreach, append_crash_atomic hready hearlier hreach⟩

end Perenne

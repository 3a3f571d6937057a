import Perenne.Recording

namespace Perenne

/-- A contained crash consults and updates the statics of `heal.rs`. -/
def crash (cause : Cause) (w : World) : Option World :=
  some { w with heal := (w.heal.onCrash cause).1 }

def Crashed (h h' : Heal) : Prop := TableBumped h.table h'.table

theorem crash_others (cause : Cause) (w w' : World) (h : crash cause w = some w') :
    Others Crashed w w' := by
  obtain rfl := Option.some.inj h
  exact ⟨rfl, rfl, rfl, Heal.onCrash_bumped ..⟩

theorem crashed_client : Client World.serve (fun _ => True) Crashed (fun _ _ => True) :=
  ⟨fun h => ⟨_, trivial, h⟩, fun _ => .refl _, fun _ _ _ => .trans, fun _ _ _ => trivial⟩

theorem crashed_loads : Loads (fun _ => True) Crashed :=
  ⟨fun _ _ h => h, fun _ _ _ _ => trivial, fun _ _ _ => trivial⟩

def healthy (_ : Unit) (w : World) (badge : Nat) : Option (Nat × World) := w.serve .done badge

theorem healthy_client : Client healthy (· = .done) Crashed (fun _ _ => True) :=
  ⟨fun h => ⟨_, rfl, h⟩, fun _ => .refl _, fun _ _ _ => .trans, fun _ _ _ => trivial⟩

/-- Memory after a reset: no cached block, and the statics as they are in the image. -/
def World.reboot (w : World) (page : Block) : World := ⟨w.disk, page, -1, .empty⟩

/-- The loader's run, with crashes in between and after it. -/
def loaderRun {φ : Type} (serve : φ → World → Nat → Option (Nat × World)) (w : World)
    (ms : List (Prog.Move φ Cause)) : Option (Io Unit × World) :=
  Transition.run (Prog.step serve crash) (kbLoader, w) ms

def recordRun (token : Text) (w : World) (ms : List (Prog.Move Fate Cause)) :
    Option (Io Bool × World) :=
  Transition.run (Prog.step World.serve crash) (recordNovel token, w) ms

section Runs

variable {w w' : World} {v : Volume} {page : Block}

theorem loaderRun_loaded (hv : v.Loadable) (hread : readVolume w.disk = some v)
    {ms : List (Prog.Move Fate Cause)}
    (hrun : loaderRun World.serve (w.reboot page) ms = some (.ret (), w')) :
    w'.Ready v ∧ Loaded v.entries w'.heal.table := by
  have hsound : FsSound World.serve Crashed (fun _ _ => True) (fun _ => True) (fun _ => True) _
      kbLoader (w.reboot page) :=
    kbLoader_sound crashed_client crashed_loads hv hread (World.coherent_of_reboot _ _ _) trivial rfl
      fun _ _ _ _ => trivial
  have hend := hsound.run crashed_client.lawful crash_others hrun w' (crashed_client.others_refl _)
  obtain ⟨-, hd, hco, -, hloaded, -⟩ := hend
  exact ⟨⟨by rw [hd]; exact hread, hv.toWellFormed, hco⟩, hloaded⟩

theorem loaderRun_healthy (page : Block) (hv : v.Loadable) (hread : readVolume w.disk = some v) :
    (∃ ms w', loaderRun healthy (w.reboot page) ms = some (.ret (), w')) ∧
      ∀ ms w', loaderRun healthy (w.reboot page) ms = some (.ret (), w') →
        TableBumped v.entries w'.heal.table := by
  have hsound : FsSound healthy Crashed (fun _ _ => True) (fun _ => True) (fun _ => False) _
      kbLoader (w.reboot page) :=
    kbLoader_sound healthy_client crashed_loads hv hread (World.coherent_of_reboot _ _ _) trivial rfl
      fun _ _ _ _ => trivial
  constructor
  · have hends : ∃ ms a w', Transition.run (Prog.step healthy crash) (kbLoader, w.reboot page) ms =
        some (.ret a, w') :=
      hsound.completes healthy_client.lawful (fun w badge => ⟨(), _, rfl⟩) fun _ h => h
    obtain ⟨ms, ⟨⟩, w', hrun⟩ := hends
    exact ⟨ms, w', hrun⟩
  · intro ms w' hrun
    have hend := hsound.run healthy_client.lawful crash_others hrun w'
      (healthy_client.others_refl _)
    exact hend.2.2.2.2.2 fun _ h => h

theorem recordRun_recorded {cause : Cause} {token : Text} (hw : w.Ready v)
    (hloaded : Loaded v.entries w.heal.table) (htoken : Heal.causeToken cause = some token)
    {ms : List (Prog.Move Fate Cause)} (hrun : recordRun token w ms = some (.ret true, w')) :
    ∃ num, Recorded v num token w.heal.table w' := by
  have hroom : w.heal.table.length ≤ v.superblock.dirEntries.toNat := by
    obtain ⟨sub, hsub, hb⟩ := hloaded
    rw [← Volume.files_length hw.volume, ← hb.length_eq]
    exact hsub.length_le.trans (List.length_filterMap_le ..)
  have hsound : FsSound World.serve Crashed (fun _ _ => True) (fun _ => True) (fun _ => True) _
      (recordNovel token) w :=
    recordNovel_sound crashed_client crashed_loads htoken rfl hw trivial hroom (fun _ _ => trivial)
      (fun _ _ _ => trivial) fun _ _ _ _ => trivial
  have hend := hsound.run crashed_client.lawful crash_others hrun w' (crashed_client.others_refl _)
  obtain ⟨-, -, -, hrec⟩ := hend
  obtain ⟨-, hrec⟩ | ⟨hfalse, -⟩ := hrec
  · exact ⟨_, hrec⟩
  · cases hfalse

end Runs

theorem Volume.Loadable.appended {v : Volume} (hv : v.Loadable) (name : Text)
    {contents : List UInt8} (h : v.Takes contents) : (v.appended name contents).Loadable where
  toWellFormed := hv.toWellFormed.appended name h
  sizes := by
    intro f hf
    obtain hf | hf := List.mem_append.mp hf
    · exact hv.sizes f hf
    · obtain rfl := List.mem_singleton.mp hf
      have hlen := toNat_ofNat_length h.fits
      have hfits := h.fits
      simp only [DirEntry.new, hlen, blockSize] at hfits ⊢
      omega

theorem TableBumped.mem {t t' : List KnownIssue} (h : TableBumped t t') {i : KnownIssue}
    (hi : i ∈ t) : ∃ i' ∈ t', i.Bumped i' :=
  forall₂_mem_right (R := flip KnownIssue.Bumped) (List.Forall₂.flip h) hi

theorem TableBumped.mem_right {t t' : List KnownIssue} (h : TableBumped t t') {i' : KnownIssue}
    (hi : i' ∈ t') : ∃ i ∈ t, i.Bumped i' :=
  forall₂_mem_right h hi

theorem Heal.diagnose_token {h : Heal} {cause : Cause} {token : Text} {i : KnownIssue}
    (htoken : Heal.causeToken cause = some token) (hi : i ∈ h.table)
    (hcause : i.matchCause.text = token) :
    ∃ pos i', h.diagnose cause = some pos ∧ h.table[pos]? = some i' ∧
      i'.matchCause.text = token := by
  have hdiag : h.diagnose cause = h.table.findIdx? fun i => i.matchCause.text == token := by
    rw [diagnose, matchIssue, htoken]
  have hsome : (h.table.findIdx? fun i => i.matchCause.text == token).isSome := by
    rw [List.findIdx?_isSome, List.any_eq_true]
    exact ⟨i, hi, beq_iff_eq.mpr hcause⟩
  obtain ⟨pos, hpos⟩ := Option.isSome_iff_exists.mp hsome
  obtain ⟨hlt, hmatch, -⟩ := List.findIdx?_eq_some_iff_getElem.mp hpos
  exact ⟨pos, _, hdiag.trans hpos, List.getElem?_eq_getElem hlt, beq_iff_eq.mp hmatch⟩

/-- What one boot records, the next boot recognises: the loader can be run to its end, and
however it gets there it has installed an entry with the token, by which every crash of
that class is diagnosed, and every entry the boot before had loaded. -/
theorem recorded_then_recognised {v : Volume} (hv : v.Loadable) {w₀ w₁ w₂ : World} {page : Block}
    (hread : readVolume w₀.disk = some v) {load : List (Prog.Move Fate Cause)}
    (hload : loaderRun World.serve (w₀.reboot page) load = some (.ret (), w₁))
    {cause : Cause} {token : Text} (htoken : Heal.causeToken cause = some token)
    {record : List (Prog.Move Fate Cause)}
    (hrecord : recordRun token w₁ record = some (.ret true, w₂)) (page' : Block) :
    (∃ ms w₃, loaderRun healthy (w₂.reboot page') ms = some (.ret (), w₃)) ∧
      ∀ ms w₃, loaderRun healthy (w₂.reboot page') ms = some (.ret (), w₃) →
        (∃ i ∈ w₃.heal.table, i.matchCause.text = token) ∧
        (∀ c, Heal.causeToken c = some token → ∃ pos i, w₃.heal.diagnose c = some pos ∧
          w₃.heal.table[pos]? = some i ∧ i.matchCause.text = token) ∧
        ∀ i ∈ w₁.heal.table, ∃ i' ∈ w₃.heal.table, i'.id = i.id ∧ i'.title = i.title ∧
          i'.playbook = i.playbook ∧ i'.matchCause = i.matchCause := by
  obtain ⟨hready, hloaded⟩ := loaderRun_loaded hv hread hload
  obtain ⟨num, hrec⟩ := recordRun_recorded hready hloaded htoken hrecord
  have hnext := loaderRun_healthy page' (hv.appended (mintId num) hrec.takes) hrec.volume
  refine ⟨hnext.1, fun ms w₃ hrun => ?_⟩
  have htable := hnext.2 ms w₃ hrun
  rw [entries_appended htoken] at htable
  obtain ⟨new, hnew, hbnew⟩ := htable.mem (List.mem_append_right _ (.head _))
  have hcause : new.matchCause.text = token := by
    rw [hbnew.face.2.2.2.1, mintedIssue_matchCause htoken]
  refine ⟨⟨new, hnew, hcause⟩, fun c hc => Heal.diagnose_token hc hnew hcause, fun i hi => ?_⟩
  -- An entry of the old table and its namesake come from the same file.
  obtain ⟨sub, hsub, hb⟩ := hloaded
  obtain ⟨i₀, hi₀, hbi⟩ := hb.mem_right hi
  obtain ⟨i', hi', hb'⟩ := htable.mem (List.mem_append_left _ (hsub.subset hi₀))
  obtain ⟨hid, htitle, hplaybook, hcause, -⟩ := hbi.face
  obtain ⟨hid', htitle', hplaybook', hcause', -⟩ := hb'.face
  exact ⟨i', hi', hid'.trans hid.symm, htitle'.trans htitle.symm, hplaybook'.trans hplaybook.symm,
    hcause'.trans hcause.symm⟩

/-- The loader's run over an empty directory. -/
def loadNone : List (Prog.Move Fate Cause) :=
  [.run, .serve .done, .run, .run, .run, .serve .done, .run, .run, .env .illegalInstruction]

/-- The loader's run over a directory with one file of one block. -/
def loadOne : List (Prog.Move Fate Cause) :=
  [.run, .serve .done, .run, .run, .run, .serve .done, .run, .run, .run, .serve .done, .run, .run,
    .run, .env .illegalInstruction, .env .loadPageFault]

def recordOne : List (Prog.Move Fate Cause) := [.run] ++ fiveRequests .done ++ [.run]

/-- The first boot records an illegal instruction, the second has that entry and records a page
fault, and the third has both. -/
theorem recorded_then_recognised_second : ∃ w₀ w₁ w₂,
    (loaderRun World.serve (blankWorld.reboot (.pad blockSize [])) loadNone).bind (fun r =>
      (recordRun (utf8 "illegal-instruction") r.2 recordOne).map (·.2)) = some w₀ ∧
    loaderRun World.serve (w₀.reboot (.pad blockSize [])) loadOne = some (.ret (), w₁) ∧
    w₁.heal.table.length = 1 ∧
    recordRun (utf8 "page-fault") w₁ recordOne = some (.ret true, w₂) ∧
    ∀ page, (∃ ms w₃, loaderRun healthy (w₂.reboot page) ms = some (.ret (), w₃)) ∧
      ∀ ms w₃, loaderRun healthy (w₂.reboot page) ms = some (.ret (), w₃) →
        (∃ i ∈ w₃.heal.table, i.matchCause.text = utf8 "page-fault") ∧
        (∀ c, Heal.causeToken c = some (utf8 "page-fault") →
          ∃ pos i, w₃.heal.diagnose c = some pos ∧ w₃.heal.table[pos]? = some i ∧
            i.matchCause.text = utf8 "page-fault") ∧
        ∀ i ∈ w₁.heal.table, ∃ i' ∈ w₃.heal.table, i'.id = i.id ∧ i'.title = i.title ∧
          i'.playbook = i.playbook ∧ i'.matchCause = i.matchCause := by
  have hread : readVolume blankWorld.disk =
      some ⟨⟨fsMagic, fsVersion, 512, dirBlockNumber, 0, dataStartBlock⟩, []⟩ := by
    decide +kernel
  have hv : Volume.Loadable ⟨⟨fsMagic, fsVersion, 512, dirBlockNumber, 0, dataStartBlock⟩, []⟩ :=
    ⟨⟨rfl, by decide, by decide, by decide, nofun⟩, nofun⟩
  have hruns : (loaderRun World.serve (blankWorld.reboot (.pad blockSize [])) loadNone).any fun r₀ =>
      r₀.1.result == some () &&
        (recordRun (utf8 "illegal-instruction") r₀.2 recordOne).any fun r₁ =>
          r₁.1.result == some true &&
            (loaderRun World.serve (r₁.2.reboot (.pad blockSize [])) loadOne).any fun r₂ =>
              r₂.1.result == some () && (r₂.2.heal.table.length == 1 &&
                (recordRun (utf8 "page-fault") r₂.2 recordOne).any fun r₃ =>
                  r₃.1.result == some true) := by
    decide +kernel
  simp only [Option.any_eq_true, Bool.and_eq_true, beq_iff_eq] at hruns
  obtain ⟨⟨p₀, w₀⟩, hload₀, hp₀, ⟨p₁, w₁⟩, hrecord₀, hp₁, ⟨p₂, w₂⟩, hload, hp₂, hlen, ⟨p₃, w₃⟩,
    hrecord, hp₃⟩ := hruns
  obtain rfl := Prog.eq_ret_of_result hp₀
  obtain rfl := Prog.eq_ret_of_result hp₁
  obtain rfl := Prog.eq_ret_of_result hp₂
  obtain rfl := Prog.eq_ret_of_result hp₃
  obtain ⟨hready, hloaded⟩ := loaderRun_loaded hv hread hload₀
  have htoken₀ : Heal.causeToken .illegalInstruction = some (utf8 "illegal-instruction") := rfl
  obtain ⟨num, hrec⟩ := recordRun_recorded hready hloaded htoken₀ hrecord₀
  have htoken : Heal.causeToken .loadPageFault = some (utf8 "page-fault") := rfl
  refine ⟨w₁, w₂, w₃, ?_, hload, hlen, hrecord, recorded_then_recognised
    (hv.appended (mintId num) hrec.takes) hrec.volume hload htoken hrecord⟩
  rw [hload₀, Option.bind_some, hrecord₀]
  rfl

end Perenne

import Perenne.Heads
import Perenne.Ledger

namespace Perenne

theorem Volume.Grown.classes {v v' : Volume} (h : v.Grown v') :
    (classes v.entries).Sublist (classes v'.entries) := by
  have halike : Volume.Alike v ⟨v.superblock, v'.files.take v.files.length⟩ := by
    refine ⟨rfl, List.forall₂_eq_eq_eq ▸ ?_⟩
    rw [List.forall₂_map_left_iff, List.forall₂_map_right_iff]
    refine h.flip.imp fun f' f hf => ?_
    rw [hf.entry, hf.alike]
  rw [← halike.classes_entries]
  exact ((List.take_sublist ..).filterMap loadFile).map _

namespace Tandem

/-- A fault class is recorded, and a fault of it is diagnosed. -/
def recordDiagnosed : List Event :=
  [illegal, .next] ++ appendOnce ++ [.writer .run, .next, .writer .run, .next, illegal]

end Tandem

namespace Organism

variable {es : List Event} {s s' : Organism}

end Organism

section Grows

variable {disk : Nat → Block} {page : Block} {v : Volume} {es es' : List Tandem.Event}
  {s s' : Tandem}

end Grows

namespace Organism

variable {v : Volume}

theorem alone_loads : Loads (fun _ => True) fun h h' : Heal => h' = h :=
  ⟨fun _ _ hh => hh ▸ .refl _, fun _ _ _ _ => trivial, fun _ _ _ => trivial⟩

end Organism

/-- Every crash of the class is diagnosed by an entry for it. -/
def Recognises (token : Text) (h : Heal) : Prop :=
  ∀ cause, Heal.causeToken cause = some token → ∃ pos i, h.diagnose cause = some pos ∧
    h.table[pos]? = some i ∧ i.matchCause.text = token

namespace Organism

variable {disk : Nat → Block} {v : Volume} {es : List Event} {s s' : Organism}

theorem boot_loads (hv : v.Loadable) (hread : readVolume disk = some v) (page : Block) :
    ∃ es w, (∀ e ∈ es, Healthy e) ∧ run (.boot disk page) es = some ⟨.idle, w⟩ ∧
      TableBumped v.entries w.heal.table := by
  have hload : Alone (fun _ w' => TableBumped v.entries w'.heal.table) kbLoader
      ⟨disk, page, -1, .empty⟩ :=
    (kbLoader_sound alone_client alone_loads hv hread (World.coherent_of_reboot disk page .empty)
      trivial rfl fun _ _ _ _ => trivial).mono fun _ _ h => h.2.2.2.2 fun _ h => h
  obtain ⟨es, r, w, hrun, hes, htable⟩ := hload.finishes (K := .loading) fun _ _ _ => rfl
  exact ⟨es ++ [.next], w, healthy_next hes (List.forall_mem_nil _),
    Transition.run_append.mpr ⟨_, hrun, rfl⟩, htable⟩

end Organism

theorem Tandem.boot_loads {disk : Nat → Block} {v : Volume} (hv : v.Loadable)
    (hread : readVolume disk = some v) (page : Block) :
    ∃ es w, (∀ e ∈ es, Tandem.Healthy e) ∧
      Transition.StepsMeet Tandem.step Tandem.InTurn (.boot disk page) es ∧
      Tandem.run (.boot disk page) es = some ⟨.ret (), .idle, w⟩ ∧
      TableBumped v.entries w.heal.table := by
  obtain ⟨es, w, hes, hrun, htable⟩ := Organism.boot_loads hv hread page
  obtain ⟨es', hes', hturn, hrun'⟩ := Tandem.embed_run hes hrun
  exact ⟨es', w, hes', hturn, hrun', htable⟩

section Learned

variable {disk : Nat → Block} {page : Block} {v : Volume} {es : List Tandem.Event} {w : World}
  {token : Text}

end Learned

def face (i : KnownIssue) : Text × Text × Text × Text :=
  (i.id.text, i.title.text, i.playbook.text, i.matchCause.text)

/-- What the entry of a packed file says, if its head has a fault class. -/
def packedFace (text : Text) : Option (Text × Text × Text × Text) :=
  (Kb.parse (text.take (kbHeadBlocks * blockSize))).bind fun rec =>
    if rec.matchCause.isSome then
      some (face (.new rec.id rec.title rec.playbook (rec.matchCause.getD []) 0 false 0))
    else none

theorem loadFile_face (f : DirEntry × List UInt8) : (loadFile f).map face = packedFace f.2 := by
  rw [loadFile, packedFace]
  cases Kb.parse (f.2.take (kbHeadBlocks * blockSize)) with
  | none => rfl
  | some rec =>
    rw [Option.bind_some, Option.bind_some]
    split
    · rfl
    · rfl

/-- An image boots with what was packed into it. For every image that `mkfs` makes of files shorter
than 2^32 bytes, a boot that nothing disturbs comes to its end with one entry for each file with a
fault class in its head, in their order, and a crash is diagnosed by the first entry for its
class. -/
theorem packed_then_diagnosed {files : List (Text × List UInt8)} {img : List UInt8}
    (himg : buildImage files = .ok img) (hsize : ∀ f ∈ files, f.2.length < 2 ^ 32) (page : Block) :
    ∃ es w, (∀ e ∈ es, Tandem.Healthy e) ∧
      Transition.StepsMeet Tandem.step Tandem.InTurn (.boot (imageBlocks img) page) es ∧
      Tandem.run (.boot (imageBlocks img) page) es = some ⟨.ret (), .idle, w⟩ ∧
      w.heal.table.map face = files.filterMap (fun f => packedFace f.2) ∧
      ∀ cause token, Heal.causeToken cause = some token → w.heal.diagnose cause =
        (files.filterMap fun f => packedFace f.2).findIdx? fun e => e.2.2.2 == token := by
  obtain ⟨hsized, hcount⟩ := sized_of_buildImage himg hsize
  obtain ⟨img', v, himg', hread, -, hplaced, -⟩ := buildImage_volume hsized hcount
  obtain ⟨img'', v', himg'', hread', hv, -⟩ := buildImage_loadable hsized hcount
  obtain rfl : img' = img := Except.ok.inj (himg'.symm.trans himg)
  obtain rfl : img'' = img' := Except.ok.inj (himg''.symm.trans himg)
  obtain rfl : v' = v := Option.some.inj (hread'.symm.trans hread)
  obtain ⟨es, w, hes, hturn, hrun, htable⟩ := Tandem.boot_loads hv hread page
  have hfaces : w.heal.table.map face = files.filterMap fun f => packedFace f.2 := by
    rw [htable.map_eq fun i i' hi => by rw [face, face, hi.face.1, hi.face.2.1, hi.face.2.2.1,
      hi.face.2.2.2.1], Volume.entries, List.map_filterMap, hplaced]
    have hsnd (fs : List (DirEntry × List UInt8)) :
        fs.filterMap (fun f => (loadFile f).map face) = (fs.map Prod.snd).filterMap packedFace := by
      rw [List.filterMap_map]
      exact List.filterMap_congr fun f _ => loadFile_face f
    rw [hsnd, placed_contents, List.filterMap_map]
    rfl
  refine ⟨es, w, hes, hturn, hrun, hfaces, fun cause token htoken => ?_⟩
  rw [← hfaces, List.findIdx?_map, Heal.diagnose, Heal.matchIssue, htoken]
  rfl

/-- A page fault on a machine with one packed entry. -/
theorem packed_then_diagnosed_short : ∃ img es w,
    buildImage [(utf8 "KB-0006", shortEntry)] = .ok img ∧
    Tandem.run (.boot (imageBlocks img) (.pad blockSize [])) es = some ⟨.ret (), .idle, w⟩ ∧
    w.heal.table.map face = [(utf8 "KB-0006", utf8 "t", utf8 "p", utf8 "page-fault")] ∧
    w.heal.diagnose .loadPageFault = some 0 := by
  have hlen : shortEntry.length = 69 := by decide +kernel
  have hall (f : Text × List UInt8) (hf : f ∈ [(utf8 "KB-0006", shortEntry)]) :
      f.2.length = 69 := by rw [List.mem_singleton.mp hf, hlen]
  have hsized : Sized [(utf8 "KB-0006", shortEntry)] := fun f hf => by
    rw [hall f hf]
    decide
  obtain ⟨img, v, himg, -⟩ := buildImage_loadable hsized (by decide)
  obtain ⟨es, w, -, -, hrun, hfaces, hdiagnose⟩ := packed_then_diagnosed himg
    (fun f hf => by rw [hall f hf]; decide) (.pad blockSize [])
  have hpacked : [(utf8 "KB-0006", shortEntry)].filterMap (fun f => packedFace f.2) =
      [(utf8 "KB-0006", utf8 "t", utf8 "p", utf8 "page-fault")] := by
    decide +kernel
  rw [hpacked] at hfaces hdiagnose
  exact ⟨img, es, w, himg, hrun, hfaces, (hdiagnose .loadPageFault _ rfl).trans (by decide +kernel)⟩

end Perenne

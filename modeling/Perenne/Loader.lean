import Perenne.Organism
import Perenne.Volume
import Mathlib.Data.List.Forall2

namespace Perenne

def KnownIssue.Bumped (i i' : KnownIssue) : Prop := ∃ n : Nat, i' = Heal.bump^[n] i

namespace KnownIssue.Bumped

variable {i i' i'' : KnownIssue}

theorem refl (i : KnownIssue) : Bumped i i := ⟨0, rfl⟩

theorem trans (h : Bumped i i') (h' : Bumped i' i'') : Bumped i i'' := by
  obtain ⟨n, rfl⟩ := h
  obtain ⟨m, rfl⟩ := h'
  exact ⟨m + n, (Function.iterate_add_apply ..).symm⟩

theorem face (h : Bumped i i') : i'.id = i.id ∧ i'.title = i.title ∧ i'.playbook = i.playbook ∧
    i'.matchCause = i.matchCause ∧ i'.startBlock = i.startBlock := by
  obtain ⟨n, rfl⟩ := h
  induction n generalizing i with
  | zero => exact ⟨rfl, rfl, rfl, rfl, rfl⟩
  | succ n ih => exact ih (i := Heal.bump i)

end KnownIssue.Bumped

theorem forall₂_trans {α : Type} {R : α → α → Prop} (hR : ∀ a b c, R a b → R b c → R a c)
    {l l' l'' : List α} (h : List.Forall₂ R l l') (h' : List.Forall₂ R l' l'') :
    List.Forall₂ R l l'' := by
  induction h generalizing l'' with
  | nil => exact h'
  | cons ha _ ih =>
    cases h' with
    | cons hb h' => exact .cons (hR _ _ _ ha hb) (ih h')

theorem forall₂_mem_right {α β : Type} {R : α → β → Prop} {l : List α} {l' : List β}
    (h : List.Forall₂ R l l') {b : β} (hb : b ∈ l') : ∃ a ∈ l, R a b := by
  induction h with
  | nil => cases hb
  | cons hab _ ih =>
    obtain rfl | hb := List.mem_cons.mp hb
    · exact ⟨_, List.mem_cons_self, hab⟩
    · obtain ⟨a, ha, hr⟩ := ih hb
      exact ⟨a, List.mem_cons_of_mem _ ha, hr⟩

/-- The entries of a table, some diagnoses later. -/
def TableBumped : List KnownIssue → List KnownIssue → Prop := List.Forall₂ KnownIssue.Bumped

theorem TableBumped.refl (t : List KnownIssue) : TableBumped t t :=
  List.forall₂_same.mpr fun i _ => .refl i

theorem TableBumped.trans {t t' t'' : List KnownIssue} (h : TableBumped t t')
    (h' : TableBumped t' t'') : TableBumped t t'' :=
  forall₂_trans (R := KnownIssue.Bumped) (fun _ _ _ => KnownIssue.Bumped.trans) h h'

theorem TableBumped.map_eq {β : Type} {g : KnownIssue → β} {t t' : List KnownIssue}
    (h : TableBumped t t') (hg : ∀ i i', i.Bumped i' → g i' = g i) : t'.map g = t.map g := by
  induction h with
  | nil => rfl
  | cons hi _ ih => rw [List.map_cons, List.map_cons, ih, hg _ _ hi]

theorem tableBumped_modify (t : List KnownIssue) (k : Nat) : TableBumped t (t.modify k Heal.bump) := by
  induction t generalizing k with
  | nil => cases k <;> exact .nil
  | cons i t ih =>
    cases k with
    | zero => exact .cons ⟨1, rfl⟩ (TableBumped.refl t)
    | succ k => exact .cons (.refl i) (ih k)

theorem Heal.onCrash_bumped (h : Heal) (cause : Cause) :
    TableBumped h.table (h.onCrash cause).1.table := by
  unfold Heal.onCrash
  split
  case h_1 pos _ =>
    simp only [Heal.noteDiagnosis]
    split
    · exact .refl _
    · dsimp only
      split
      · exact .refl _
      · exact tableBumped_modify ..
  case h_2 =>
    simp only [Heal.noteUnmatched]
    split
    · exact .refl _
    · exact .refl _

theorem flatMap_take_blocks (blocks : Nat → Block) (len n : Nat) :
    ((List.range n).flatMap fun i =>
      (blocks i).list.take (min blockSize (len - i * blockSize))) =
      ((List.range n).flatMap fun i => (blocks i).list).take len := by
  have hlen (n : Nat) : ((List.range n).flatMap fun i => (blocks i).list).length = n * blockSize := by
    simp [List.length_flatMap, (blocks _).size]
  induction n with
  | zero => simp
  | succ n ih =>
    have hcut : (blocks n).list.take (min blockSize (len - n * blockSize)) =
        (blocks n).list.take (len - n * blockSize) := by
      rw [Nat.min_comm, ← List.take_take, List.take_of_length_le (Nat.le_of_eq (blocks n).size)]
    rw [List.range_succ, List.flatMap_append, List.flatMap_append, List.flatMap_singleton,
      List.flatMap_singleton, List.take_append, ih, hlen, hcut]

theorem extent_head (disk : Nat → Block) (start len : Nat) :
    let n := min ((len + 511) / 512) kbHeadBlocks
    ((List.range n).flatMap fun i => (disk (start + i)).list).take
      (min (min len (n * blockSize)) fsFilebufLen) =
      (extent disk start len).take (kbHeadBlocks * blockSize) := by
  have hlen (n : Nat) :
      ((List.range n).flatMap fun i => (disk (start + i)).list).length = n * 512 := by
    simp [List.length_flatMap, (disk _).size]
  dsimp only [kbHeadBlocks, fsFilebufLen, blockSize]
  rw [extent, List.take_take]
  by_cases hshort : (len + 511) / 512 ≤ 2
  · rw [Nat.min_eq_left hshort]
    congr 1
    omega
  · have hcut : (List.range ((len + 511) / 512)) =
        List.range 2 ++ (List.range ((len + 511) / 512 - 2)).map (2 + ·) := by
      rw [← List.range_add]
      congr 1
      omega
    rw [Nat.min_eq_right (Nat.le_of_not_le hshort), hcut, List.flatMap_append, List.take_append,
      hlen, List.take_of_length_le (by rw [hlen]; omega)]
    rw [List.take_of_length_le (by rw [hlen]; omega)]
    rw [show min (2 * 512) len - 2 * 512 = 0 by omega, List.take_zero, List.append_nil]

section Head

variable {φ : Type} {serve : φ → World → Nat → Option (Nat × World)} {Ok : Fate → Prop}
  {H : Heal → Heal → Prop} {G : World → World → Prop} (hC : Client serve Ok H G)
  {Inv : World → Prop} {Stop : Panic → Prop} {w : World} {start byteLen : UInt32}

include hC

theorem fsReadBlocks_sound (len i n : Nat) (buf : Text) (hn : start.toNat + i + n ≤ 2 ^ 31)
    (hw : w.Coherent) (hinv : ∀ w', w'.disk = w.disk → H w.heal w'.heal → Inv w') :
    FsSound serve H G Inv Stop (fun r w' => w'.disk = w.disk ∧ H w.heal w'.heal ∧ w'.Coherent ∧
      (∀ bytes, r = some bytes → bytes = buf ++ (List.range n).flatMap fun j =>
        (w.disk (start.toNat + i + j)).list.take (min blockSize (len - (i + j) * blockSize))) ∧
      ((∀ fate, Ok fate → fate = .done) → r ≠ none)) (fsReadBlocks start len i n buf) w := by
  induction n generalizing i buf w with
  | zero =>
    intro w₁ h₁
    refine ⟨hinv _ h₁.disk h₁.heal, h₁.disk, h₁.heal, hw.others h₁, ?_, nofun⟩
    rintro bytes ⟨⟩
    simp
  | succ n ih =>
    have hsmall : (UInt32.ofNat i).toNat = i := by
      rw [UInt32.toNat_ofNat']
      omega
    have hadd : addU32 start (.ofNat i) = .ok (start + .ofNat i) := by
      rw [addU32, if_pos (by omega)]
    have hblock : (start + .ofNat i).toNat = start.toNat + i := by
      rw [UInt32.toNat_add, hsmall]
      omega
    unfold fsReadBlocks
    rw [hadd, Prog.lift_ok_bind]
    apply Prog.Sound.bind hC.lawful
    apply (fsCopyBlock_sound hC (by omega) hw hinv).mono
    rintro blk w₁ ⟨hd₁, hheal₁, hco₁, hblk, hdone⟩
    cases blk with
    | none =>
      intro w₂ h₂
      have hd₂ := h₂.disk.trans hd₁
      have hheal₂ := hC.trans _ _ _ hheal₁ h₂.heal
      exact ⟨hinv _ hd₂ hheal₂, hd₂, hheal₂, hco₁.others h₂, nofun, fun hall => absurd rfl (hdone hall)⟩
    | some blk =>
      obtain rfl := hblk _ rfl
      rw [hblock]
      refine (ih (i + 1) _ (by omega) hco₁ fun w' hd hheal =>
        hinv _ (hd.trans hd₁) (hC.trans _ _ _ hheal₁ hheal)).mono ?_
      rintro r w₂ ⟨hd₂, hheal₂, hco₂, hbytes, hdone₂⟩
      refine ⟨hd₂.trans hd₁, hC.trans _ _ _ hheal₁ hheal₂, hco₂, fun bytes hr => ?_, hdone₂⟩
      have hshift (j : Nat) : start.toNat + (i + 1) + j = start.toNat + i + (j + 1) := by omega
      have hshift' (j : Nat) : i + 1 + j = i + (j + 1) := by omega
      rw [hbytes bytes hr, List.range_succ_eq_map, List.flatMap_cons, List.flatMap_map,
        List.append_assoc]
      simp only [hd₁, hshift, hshift', Nat.add_zero]

theorem fsReadExtentHead_sound (hlen : byteLen.toNat + 512 < 2 ^ 32)
    (hend : start.toNat + (byteLen.toNat + 511) / 512 ≤ 2 ^ 31) (hw : w.Coherent)
    (hinv : ∀ w', w'.disk = w.disk → H w.heal w'.heal → Inv w') :
    FsSound serve H G Inv Stop (fun r w' => w'.disk = w.disk ∧ H w.heal w'.heal ∧ w'.Coherent ∧
      (∀ bytes, r = some bytes → bytes =
        (extent w.disk start.toNat byteLen.toNat).take (kbHeadBlocks * blockSize)) ∧
      ((∀ fate, Ok fate → fate = .done) → r ≠ none)) (fsReadExtentHead start byteLen) w := by
  have hblocks := blockCount_ok (n := byteLen) (by omega)
  unfold fsReadExtentHead
  -- The count stays symbolic, or the goal would compute with it.
  generalize blockCount byteLen = b at hblocks ⊢
  obtain ⟨count, rfl, hcount⟩ := hblocks
  rw [Prog.lift_ok_bind, hcount]
  have htwo : min ((byteLen.toNat + 511) / 512) kbHeadBlocks ≤ (byteLen.toNat + 511) / 512 :=
    Nat.min_le_left ..
  refine (fsReadBlocks_sound hC _ 0 _ [] (by omega) hw hinv).mono ?_
  rintro r w₁ ⟨hd, hheal, hco, hbytes, hdone⟩
  refine ⟨hd, hheal, hco, fun bytes hr => ?_, hdone⟩
  rw [← extent_head, ← flatMap_take_blocks fun i => w.disk (start.toNat + i)]
  simpa using hbytes bytes hr

end Head

/-- The entry the loader makes of a file. -/
def loadFile (f : DirEntry × List UInt8) : Option KnownIssue :=
  (Kb.parse (f.2.take (kbHeadBlocks * blockSize))).bind fun rec =>
    if rec.matchCause.isSome then
      some (.new rec.id rec.title rec.playbook (rec.matchCause.getD []) rec.seen rec.escalated
        f.1.startBlock.toNat)
    else none

/-- The entries the loader makes of a volume, in directory order. -/
def Volume.entries (v : Volume) : List KnownIssue := v.files.filterMap loadFile

/-- A well-formed volume with file lengths that `block_count` rounds up. -/
structure Volume.Loadable (v : Volume) : Prop extends v.WellFormed where
  sizes (f : DirEntry × List UInt8) (hf : f ∈ v.files) : f.1.byteLen.toNat + 512 < 2 ^ 32

/-- Entries of `issues` that the loader has installed, some diagnoses later. -/
def Loaded (issues table : List KnownIssue) : Prop :=
  ∃ sub, sub.Sublist issues ∧ TableBumped sub table

theorem Loaded.bumped {issues t t' : List KnownIssue} (h : Loaded issues t)
    (ht : TableBumped t t') : Loaded issues t' := by
  obtain ⟨sub, hsub, hb⟩ := h
  exact ⟨sub, hsub, hb.trans ht⟩

theorem Loaded.mono {issues issues' t : List KnownIssue} (h : Loaded issues t)
    (hsub : issues.Sublist issues') : Loaded issues' t := by
  obtain ⟨sub, hsub', hb⟩ := h
  exact ⟨sub, hsub'.trans hsub, hb⟩

theorem TableBumped.snoc {t t' : List KnownIssue} (h : TableBumped t t') (i : KnownIssue) :
    TableBumped (t ++ [i]) (t' ++ [i]) :=
  List.rel_append h (.cons (.refl i) .nil)

theorem Loaded.snoc {issues t : List KnownIssue} (h : Loaded issues t) (i : KnownIssue) :
    Loaded (issues ++ [i]) (t ++ [i]) := by
  obtain ⟨sub, hsub, hb⟩ := h
  exact ⟨sub ++ [i], hsub.append (.refl _), hb.snoc i⟩

/-- What crashes may do to the statics while the loader runs: diagnoses, and what keeps
`J`, which says nothing of the table. -/
structure Loads (J : Heal → Prop) (H : Heal → Heal → Prop) : Prop where
  table (h h' : Heal) (hh : H h h') : TableBumped h.table h'.table
  others (h h' : Heal) (hh : H h h') (hj : J h) : J h'
  install (h : Heal) (table : List KnownIssue) (hj : J h) : J { h with table }

section Load

variable {φ : Type} {serve : φ → World → Nat → Option (Nat × World)} {Ok : Fate → Prop}
  {H : Heal → Heal → Prop} {G : World → World → Prop} (hC : Client serve Ok H G)
  {J : Heal → Prop} (hJ : Loads J H) {Inv : World → Prop} {Stop : Panic → Prop} {w : World}
  {v : Volume}

include hC hJ

theorem installRecord_sound {f : DirEntry × List UInt8} {rec : KbRecord}
    {pre issues : List KnownIssue}
    (hrec : Kb.parse (f.2.take (kbHeadBlocks * blockSize)) = some rec)
    (hroom : w.heal.table.length < maxIssues) (hw : w.Coherent) (hj : J w.heal)
    (hloaded : Loaded pre w.heal.table)
    (hissues : (pre ++ (loadFile f).toList).Sublist issues)
    (hinv : ∀ w', w'.disk = w.disk → J w'.heal → Loaded issues w'.heal.table → Inv w') :
    FsSound serve H G Inv Stop (fun _ w' => w'.disk = w.disk ∧ w'.Coherent ∧ J w'.heal ∧
      w'.heal.table.length ≤ w.heal.table.length + 1 ∧
      Loaded (pre ++ (loadFile f).toList) w'.heal.table ∧
      (TableBumped pre w.heal.table → TableBumped (pre ++ (loadFile f).toList) w'.heal.table))
      (installRecord rec f.1.startBlock) w := by
  have hfile : loadFile f = if rec.matchCause.isSome then
      some (.new rec.id rec.title rec.playbook (rec.matchCause.getD []) rec.seen rec.escalated
        f.1.startBlock.toNat) else none := by
    rw [loadFile, hrec]
    rfl
  have hpre : pre.Sublist issues := (List.sublist_append_left ..).trans hissues
  unfold installRecord
  split
  case isFalse hnone =>
    rw [hfile, if_neg hnone, Option.toList_none, List.append_nil]
    intro w₁ h₁
    have hbump := hJ.table _ _ h₁.heal
    have hj₁ := hJ.others _ _ h₁.heal hj
    have hloaded₁ := hloaded.bumped hbump
    refine ⟨hinv _ h₁.disk hj₁ (hloaded₁.mono hpre), h₁.disk, hw.others h₁, hj₁, ?_, hloaded₁,
      fun hb => hb.trans hbump⟩
    have := hbump.length_eq
    omega
  case isTrue hsome =>
    rw [hfile, if_pos hsome, Option.toList_some] at hissues ⊢
    intro w₁ h₁
    have hbump := hJ.table _ _ h₁.heal
    have hj₁ := hJ.others _ _ h₁.heal hj
    have hloaded₁ := hloaded.bumped hbump
    refine ⟨hinv _ h₁.disk hj₁ (hloaded₁.mono hpre), hC.same _ _ rfl, ?_⟩
    have hlen := hbump.length_eq
    have hnot : ¬ w₁.heal.table.length ≥ maxIssues := by omega
    simp only [Heal.install, if_neg hnot]
    intro w₂ h₂
    have hbump₂ := hJ.table _ _ h₂.heal
    have hj₂ := hJ.others _ _ h₂.heal (hJ.install _ _ hj₁)
    have hloaded₂ := (hloaded₁.snoc _).bumped hbump₂
    have hlen₂ := hbump₂.length_eq
    refine ⟨hinv _ (h₂.disk.trans h₁.disk) hj₂ (hloaded₂.mono hissues), h₂.disk.trans h₁.disk,
      ((hw.others h₁).withHeal _).others h₂, hj₂, ?_, hloaded₂,
      fun hb => ((hb.trans hbump).snoc _).trans hbump₂⟩
    rw [List.length_append, List.length_singleton] at hlen₂
    omega

theorem loadEntries_sound {dir : List UInt8} {idx : List Nat} {fs : List (DirEntry × List UInt8)}
    {pre issues : List KnownIssue}
    (hidx : idx.map (dirEntryAt dir) = fs.map fun f => some f.1)
    (hfs : ∀ f ∈ fs, f.2 = extent w.disk f.1.startBlock.toNat f.1.byteLen.toNat ∧
      f.1.byteLen.toNat + 512 < 2 ^ 32 ∧
      f.1.startBlock.toNat + (f.1.byteLen.toNat + 511) / 512 ≤ 2 ^ 31)
    (hissues : (pre ++ fs.filterMap loadFile).Sublist issues)
    (hroom : w.heal.table.length + fs.length ≤ maxIssues) (hw : w.Coherent) (hj : J w.heal)
    (hloaded : Loaded pre w.heal.table)
    (hinv : ∀ w', w'.disk = w.disk → J w'.heal → Loaded issues w'.heal.table → Inv w') :
    FsSound serve H G Inv Stop (fun _ w' => w'.disk = w.disk ∧ w'.Coherent ∧ J w'.heal ∧
      Loaded issues w'.heal.table ∧ ((∀ fate, Ok fate → fate = .done) →
        TableBumped pre w.heal.table → TableBumped (pre ++ fs.filterMap loadFile) w'.heal.table))
      (loadEntries dir idx) w := by
  have hpre : pre.Sublist issues := (List.sublist_append_left ..).trans hissues
  induction fs generalizing idx pre w with
  | nil =>
    obtain rfl := List.map_eq_nil_iff.mp hidx
    rw [List.filterMap_nil, List.append_nil]
    intro w₁ h₁
    have hbump := hJ.table _ _ h₁.heal
    have hj₁ := hJ.others _ _ h₁.heal hj
    have hloaded₁ := (hloaded.bumped hbump).mono hpre
    exact ⟨hinv _ h₁.disk hj₁ hloaded₁, h₁.disk, hw.others h₁, hj₁, hloaded₁,
      fun _ hb => hb.trans hbump⟩
  | cons f fs ih =>
    cases idx with
    | nil => cases hidx
    | cons i idx =>
    obtain ⟨hi, hidx⟩ := List.cons.inj hidx
    obtain ⟨hdata, hsize, hend⟩ := hfs f (.head _)
    have hcons : (f :: fs).filterMap loadFile = (loadFile f).toList ++ fs.filterMap loadFile := by
      cases hfile : loadFile f with
      | none => rw [List.filterMap_cons, hfile]; rfl
      | some i => rw [List.filterMap_cons, hfile]; rfl
    rw [hcons, ← List.append_assoc] at hissues ⊢
    rw [List.length_cons] at hroom
    have hinv' (w' : World) (hd : w'.disk = w.disk) (hheal : H w.heal w'.heal) : Inv w' :=
      hinv w' hd (hJ.others _ _ hheal hj) ((hloaded.bumped (hJ.table _ _ hheal)).mono hpre)
    -- The rest of the loop where this file is passed over.
    have hskip {w₁ : World} (hd : w₁.disk = w.disk) (hheal : H w.heal w₁.heal)
        (hco : w₁.Coherent) (hnone : (∀ fate, Ok fate → fate = .done) → loadFile f = none) :
        FsSound serve H G Inv Stop (fun _ w' => w'.disk = w.disk ∧ w'.Coherent ∧ J w'.heal ∧
          Loaded issues w'.heal.table ∧ ((∀ fate, Ok fate → fate = .done) →
            TableBumped pre w.heal.table →
            TableBumped (pre ++ (loadFile f).toList ++ fs.filterMap loadFile) w'.heal.table))
          (loadEntries dir idx) w₁ := by
      have hbump := hJ.table _ _ hheal
      have hlen := hbump.length_eq
      have hsub : (pre ++ fs.filterMap loadFile).Sublist issues :=
        ((List.sublist_append_left ..).append (.refl _)).trans hissues
      refine (ih hidx (fun f hf => by rw [hd]; exact hfs f (.tail _ hf)) hsub (by omega) hco
        (hJ.others _ _ hheal hj) (hloaded.bumped hbump) (fun w' hd' => hinv w' (hd'.trans hd))
        hpre).mono ?_
      rintro - w₂ ⟨hd₂, hco₂, hj₂, hloaded₂, hall₂⟩
      refine ⟨hd₂.trans hd, hco₂, hj₂, hloaded₂, fun hall hb => ?_⟩
      rw [hnone hall, Option.toList_none, List.append_nil]
      exact hall₂ hall (hb.trans hbump)
    unfold loadEntries
    rw [hi]
    dsimp only
    apply Prog.Sound.bind hC.lawful
    apply (fsReadExtentHead_sound hC hsize hend hw hinv').mono
    rintro r w₁ ⟨hd₁, hheal₁, hco₁, hbytes, hdone⟩
    cases r with
    | none => exact hskip hd₁ hheal₁ hco₁ fun hall => absurd rfl (hdone hall)
    | some bytes =>
    obtain rfl := hbytes _ rfl
    rw [← hdata]
    cases hparse : Kb.parse (f.2.take (kbHeadBlocks * blockSize)) with
    | none =>
      dsimp only
      rw [hparse]
      exact hskip hd₁ hheal₁ hco₁ fun _ => by rw [loadFile, hparse]; rfl
    | some rec =>
    dsimp only
    rw [hparse]
    have hbump := hJ.table _ _ hheal₁
    have hlen := hbump.length_eq
    apply Prog.Sound.bind hC.lawful
    apply (installRecord_sound hC hJ hparse (by omega) hco₁ (hJ.others _ _ hheal₁ hj)
      (hloaded.bumped hbump) ((List.sublist_append_left ..).trans hissues)
      fun w' hd => hinv w' (hd.trans hd₁)).mono
    rintro - w₂ ⟨hd₂, hco₂, hj₂, hlen₂, hloaded₂, hb₂⟩
    have hd₂ := hd₂.trans hd₁
    refine (ih hidx (fun f hf => by rw [hd₂]; exact hfs f (.tail _ hf)) hissues (by omega) hco₂ hj₂
      hloaded₂ (fun w' hd' => hinv w' (hd'.trans hd₂))
      ((List.sublist_append_left ..).trans hissues)).mono ?_
    rintro - w₃ ⟨hd₃, hco₃, hj₃, hloaded₃, hall₃⟩
    exact ⟨hd₃.trans hd₂, hco₃, hj₃, hloaded₃, fun hall hb => hall₃ hall (hb₂ (hb.trans hbump))⟩

/-- `kb_loader_task`: entries of the volume, and all of them where the device makes no
error. -/
theorem kbLoader_sound (hv : v.Loadable) (hread : readVolume w.disk = some v) (hw : w.Coherent)
    (hj : J w.heal) (hempty : w.heal.table = [])
    (hinv : ∀ w', w'.disk = w.disk → J w'.heal → Loaded v.entries w'.heal.table → Inv w') :
    FsSound serve H G Inv Stop (fun _ w' => w'.disk = w.disk ∧ w'.Coherent ∧ J w'.heal ∧
      Loaded v.entries w'.heal.table ∧ ((∀ fate, Ok fate → fate = .done) →
        TableBumped v.entries w'.heal.table)) kbLoader w := by
  obtain ⟨hsb, hentries, hdata⟩ := readVolume_eq_some.mp hread
  have hlen := Volume.files_length hread
  have hdir : v.superblock.dirBlock.toNat = 1 := by rw [hv.directory]; rfl
  have hcount := hv.count
  have hroom := hv.room
  have hnil : Loaded [] w.heal.table := ⟨[], .refl _, hempty ▸ .refl _⟩
  have hkeep {w' : World} (hheal : H w.heal w'.heal) :
      J w'.heal ∧ TableBumped [] w'.heal.table ∧ Loaded [] w'.heal.table :=
    ⟨hJ.others _ _ hheal hj, hempty ▸ hJ.table _ _ hheal, hnil.bumped (hJ.table _ _ hheal)⟩
  have hinv' (w' : World) (hd : w'.disk = w.disk) (hheal : H w.heal w'.heal) : Inv w' :=
    hinv w' hd (hkeep hheal).1 ((hkeep hheal).2.2.mono (List.nil_sublist _))
  -- Without superblock or directory nothing is loaded.
  have hgiveUp {w₁ : World} (hd : w₁.disk = w.disk) (hheal : H w.heal w₁.heal)
      (hco : w₁.Coherent) (herr : ¬ ∀ fate, Ok fate → fate = .done) :
      FsSound serve H G Inv Stop (fun (_ : Unit) w' => w'.disk = w.disk ∧ w'.Coherent ∧ J w'.heal ∧
        Loaded v.entries w'.heal.table ∧ ((∀ fate, Ok fate → fate = .done) →
          TableBumped v.entries w'.heal.table)) (.ret ()) w₁ := by
    intro w₂ h₂
    have hd₂ := h₂.disk.trans hd
    have hheal₂ := hC.trans _ _ _ hheal h₂.heal
    exact ⟨hinv' _ hd₂ hheal₂, hd₂, hco.others h₂, (hkeep hheal₂).1,
      (hkeep hheal₂).2.2.mono (List.nil_sublist _), fun hall => absurd hall herr⟩
  unfold kbLoader
  apply Prog.Sound.bind hC.lawful
  apply (fsCopyBlock_sound hC (by decide) hw hinv').mono
  rintro sbBuf w₁ ⟨hd₁, hheal₁, hco₁, hbuf, hdone⟩
  cases sbBuf with
  | none => exact hgiveUp hd₁ hheal₁ hco₁ fun hall => hdone hall rfl
  | some sbBuf =>
  obtain rfl := hbuf _ rfl
  have hsb : Superblock.decode (w.disk (UInt32.toNat 0)).list = some v.superblock := hsb
  dsimp only
  rw [hsb]
  apply Prog.Sound.bind hC.lawful
  apply (fsCopyBlock_sound hC (by omega) hco₁ fun w' hd hheal =>
    hinv' w' (hd.trans hd₁) (hC.trans _ _ _ hheal₁ hheal)).mono
  rintro dir w₂ ⟨hd₂, hheal₂, hco₂, hbuf, hdone⟩
  have hd₂ := hd₂.trans hd₁
  have hheal₂ := hC.trans _ _ _ hheal₁ hheal₂
  cases dir with
  | none => exact hgiveUp hd₂ hheal₂ hco₂ fun hall => hdone hall rfl
  | some dir =>
  obtain rfl := hbuf _ rfl
  rw [hd₁]
  obtain ⟨hj₂, hbump₂, hloaded₂⟩ := hkeep hheal₂
  have hnone := hbump₂.length_eq
  rw [List.length_nil] at hnone
  have hall : ([] ++ v.files.filterMap loadFile).Sublist v.entries := .refl _
  refine (loadEntries_sound hC hJ hentries (fun f hf => ?_) hall ?_ hco₂ hj₂ hloaded₂
    fun w' hd => hinv w' (hd.trans hd₂)).mono ?_
  · have hin := (hv.inside f hf).2
    exact ⟨by rw [hdata f hf, hd₂], hv.sizes f hf, by omega⟩
  · have height : direntsPerBlock = maxIssues := rfl
    omega
  · rintro - w₃ ⟨hd₃, hco₃, hj₃, hloaded₃, hall₃⟩
    exact ⟨hd₃.trans hd₂, hco₃, hj₃, hloaded₃, fun hall => hall₃ hall hbump₂⟩

end Load

end Perenne

import Perenne.FileCounters
import Perenne.Persist
import Mathlib.Data.List.Pairwise

namespace Perenne

/-- What follows the first block of an extent. -/
def extentTail (disk : Nat → Block) (start len : Nat) : List UInt8 :=
  (List.range ((len + 511) / 512 - 1)).flatMap fun i => (disk (start + (i + 1))).list

theorem extent_eq_tail (disk : Nat → Block) {start len : Nat} (hlen : 0 < len) :
    extent disk start len = ((disk start).list ++ extentTail disk start len).take len := by
  obtain ⟨n, hn⟩ : ∃ n, (len + 511) / 512 = n + 1 := ⟨(len + 511) / 512 - 1, by omega⟩
  rw [extent, extentTail, hn, List.range_succ_eq_map, List.flatMap_cons, List.flatMap_map,
    Nat.add_zero, Nat.add_sub_cancel]

theorem length_extent (disk : Nat → Block) (start len : Nat) :
    (extent disk start len).length = len := by
  have hblocks : ((List.range ((len + 511) / 512)).flatMap fun i =>
      (disk (start + i)).list).length = (len + 511) / 512 * 512 := by
    simp [List.length_flatMap, (disk _).size]
  rw [extent, List.length_take, hblocks]
  omega

theorem take_extent (disk : Nat → Block) {start len : Nat} (hlen : 0 < len) :
    (extent disk start len).take blockSize = (disk start).list.take len := by
  have hold : (disk start).list.length = blockSize := (disk start).size
  rw [extent_eq_tail _ hlen, List.take_take, Nat.min_comm, ← List.take_take, List.take_left' hold]

theorem extent_update {disk : Nat → Block} {start len : Nat} {contents' block' : List UInt8}
    (hlen : 0 < len) (hsize : contents'.length = len)
    (hdrop : contents'.drop blockSize = (extent disk start len).drop blockSize)
    (hblock : block' = contents'.take blockSize ++ (disk start).list.drop len)
    (hfull : block'.length = blockSize) :
    extent (Function.update disk start (.pad blockSize block')) start len = contents' := by
  have hold : (disk start).list.length = blockSize := (disk start).size
  have htail : extentTail (Function.update disk start (.pad blockSize block')) start len =
      extentTail disk start len := by
    rw [extentTail, extentTail, List.flatMap_def, List.flatMap_def]
    congr 1
    refine List.map_congr_left fun i _ => ?_
    rw [Function.update_of_ne (by omega)]
  rw [extent_eq_tail _ hlen, htail, Function.update_self, Bytes.pad_list hfull]
  rw [extent_eq_tail _ hlen] at hdrop
  by_cases hshort : len ≤ blockSize
  · -- the file ends in its first block
    have hall : contents'.take blockSize = contents' := List.take_of_length_le (by omega)
    rw [hblock, hall, List.append_assoc, List.take_left' hsize]
  · have hnil : (disk start).list.drop len = [] := List.drop_eq_nil_of_le (by omega)
    have hrest : ((disk start).list ++ extentTail disk start len).take len =
        (disk start).list ++ (extentTail disk start len).take (len - blockSize) := by
      rw [List.take_append, List.take_of_length_le (by omega), hold]
    rw [hrest, List.drop_left' hold] at hdrop
    have htake : (contents'.take blockSize).length = blockSize :=
      List.length_take_of_le (by omega)
    rw [hblock, hnil, List.append_nil, List.take_append, htake,
      List.take_of_length_le (by omega), ← hdrop, List.take_append_drop]

def DirEntry.Has (e : DirEntry) (b : Nat) : Prop :=
  e.startBlock.toNat ≤ b ∧ b < e.startBlock.toNat + (e.byteLen.toNat + 511) / 512

def Volume.Apart (v : Volume) : Prop :=
  v.files.Pairwise fun f g => ∀ b, f.1.Has b → ¬ g.1.Has b

theorem Volume.Apart.unique {v : Volume} (h : v.Apart) {f g : DirEntry × List UInt8}
    (hf : f ∈ v.files) (hg : g ∈ v.files) {b : Nat} (hfb : f.1.Has b) (hgb : g.1.Has b) :
    f = g := by
  have hsymm : Std.Symm fun f g : DirEntry × List UInt8 => ∀ b, f.1.Has b → ¬ g.1.Has b :=
    ⟨fun _ _ h b hg hf => h b hf hg⟩
  by_contra hne
  exact h.forall hf hg hne b hfb hgb

/-- What the persist loop makes of the record. -/
def KnownIssue.counted (issue : KnownIssue) (rec : KbRecord) : KbRecord :=
  { rec with seen := min issue.seen 99999, escalated := issue.escalated }

/-- A file whose entry was persisted: other digits, and the counters are those of the entry
where the file has them. -/
structure Rewritten (issue : KnownIssue) (f f' : DirEntry × List UInt8) : Prop where
  entry : f'.1 = f.1
  alike : blurred f'.2 = blurred f.2
  own (rec : KbRecord) (hcar : Kb.Carries f.2) (hrec : Kb.parse (Kb.headOf f.2) = some rec) :
    Kb.parse (Kb.headOf f'.2) = some (issue.counted rec) ∧
      ∀ k, ¬ Kb.inCounters f.2 k → f'.2[k]? = f.2[k]?

/-- The file of the entry is rewritten, and no other. -/
def Persisted (issue : KnownIssue) (v v' : Volume) : Prop :=
  v'.superblock = v.superblock ∧ List.Forall₂ (fun f f' => f' = f ∧ ¬ f.1.Has issue.startBlock ∨
    f.1.startBlock.toNat = issue.startBlock ∧ Rewritten issue f f') v.files v'.files

theorem rewritten_extent {disk : Nat → Block} {issue : KnownIssue} {block : Text}
    {f : DirEntry × List UInt8} (hdata : f.2 = extent disk f.1.startBlock.toNat f.1.byteLen.toNat)
    (hhas : f.1.Has issue.startBlock) (hstart : f.1.startBlock.toNat = issue.startBlock)
    (hup : updatedBlock (disk issue.startBlock).list issue = some block) :
    Rewritten issue f (f.1, extent (Function.update disk issue.startBlock (.pad blockSize block))
      f.1.startBlock.toNat f.1.byteLen.toNat) := by
  obtain ⟨hlen, hblur⟩ := updatedBlock_blurred hup
  have hfull : block.length = blockSize := hlen.trans (disk _).size
  have hpos : 0 < f.1.byteLen.toNat := by
    have := hhas.2
    omega
  refine ⟨rfl, ?_, fun rec hcar hrec => ?_⟩
  · have hblocks (n : Nat) : blurred (Function.update disk issue.startBlock
        (.pad blockSize block) n).list = blurred (disk n).list := by
      by_cases hn : n = issue.startBlock
      · subst hn
        rw [Function.update_self, Bytes.pad_list hfull, hblur]
      · rw [Function.update_of_ne hn]
    rw [hdata]
    simp only [blurred, extent, List.map_take, List.map_flatMap] at hblocks ⊢
    simp only [hblocks]
  · obtain ⟨contents', hup', hdrop, hblur', hparse, hbytes⟩ := Kb.carries_update hcar hrec issue
    have hsize : contents'.length = f.1.byteLen.toNat := by
      have := congrArg List.length hblur'
      simp only [blurred, List.length_map] at this
      rw [this, hdata, length_extent]
    have hfirst : f.2.take blockSize = (disk issue.startBlock).list.take f.1.byteLen.toNat := by
      rw [hdata, hstart, take_extent _ hpos]
    -- the rest of the block is left as it is
    have hrest := updatedBlock_append hup' ((disk issue.startBlock).list.drop f.1.byteLen.toNat)
    rw [hfirst, List.take_append_drop, hup] at hrest
    have hext := extent_update hpos hsize (hdrop.trans (by rw [hdata]))
      (by rw [hstart]; exact Option.some.inj hrest) hfull
    rw [← hstart, hext]
    exact ⟨hparse, hbytes⟩

theorem updatedBlock_own {disk : Nat → Block} {issue : KnownIssue} {f : DirEntry × List UInt8}
    {rec : KbRecord} (hdata : f.2 = extent disk f.1.startBlock.toNat f.1.byteLen.toNat)
    (hstart : f.1.startBlock.toNat = issue.startBlock) (hcar : Kb.Carries f.2)
    (hrec : Kb.parse (Kb.headOf f.2) = some rec) :
    updatedBlock (disk issue.startBlock).list issue ≠ none := by
  intro hnone
  have hpos : 0 < f.1.byteLen.toNat := by
    have hlen := List.length_pos_of_ne_nil hcar.ne_nil
    rwa [hdata, length_extent] at hlen
  obtain ⟨contents', hup, -⟩ := Kb.carries_update hcar hrec issue
  have hrest := updatedBlock_append hup ((disk issue.startBlock).list.drop f.1.byteLen.toNat)
  rw [hdata, hstart, take_extent _ hpos, List.take_append_drop, hnone] at hrest
  cases hrest

theorem Stored.volume {disk disk' : Nat → Block} {issue : KnownIssue} {v : Volume}
    (hst : Stored disk disk' issue) (hv : v.WellFormed) (hread : readVolume disk = some v)
    (hapart : v.Apart) {f₀ : DirEntry × List UInt8} (hf₀ : f₀ ∈ v.files)
    (hstart : f₀.1.startBlock.toNat = issue.startBlock) (hhas : f₀.1.Has issue.startBlock) :
    ∃ v', readVolume disk' = some v' ∧ Persisted issue v v' := by
  obtain ⟨block, hup, rfl⟩ := hst
  obtain ⟨-, -, hdata⟩ := readVolume_eq_some.mp hread
  have hin := (hv.inside f₀ hf₀).1
  have htwo : dataStartBlock.toNat = 2 := rfl
  refine ⟨_, readVolume_onDisk hv hread (Function.update_of_ne (by omega) ..)
    (Function.update_of_ne (by omega) ..), rfl, ?_⟩
  refine List.forall₂_map_right_iff.mpr (List.forall₂_same.mpr fun f hf => ?_)
  by_cases hblock : f.1.Has issue.startBlock
  · obtain rfl := hapart.unique hf hf₀ hblock hhas
    exact .inr ⟨hstart, rewritten_extent (hdata f hf) hblock hstart hup⟩
  · refine .inl ⟨Prod.ext rfl ?_, hblock⟩
    rw [hdata f hf]
    refine extent_congr fun i hi => Function.update_of_ne (fun heq => hblock ?_) ..
    exact ⟨by omega, by omega⟩

namespace Persisted

variable {issue : KnownIssue} {v v' : Volume} (h : Persisted issue v v')

include h

theorem file {f' : DirEntry × List UInt8} (hf : f' ∈ v'.files) : ∃ f ∈ v.files,
    f' = f ∧ ¬ f.1.Has issue.startBlock ∨
      f.1.startBlock.toNat = issue.startBlock ∧ Rewritten issue f f' :=
  forall₂_mem_right h.2 hf

theorem alike : v.Alike v' := by
  obtain ⟨hsb, hfiles⟩ := h
  refine ⟨hsb, ?_⟩
  generalize v.files = fs, v'.files = fs' at hfiles
  induction hfiles with
  | nil => rfl
  | cons hf _ ih =>
    rw [List.map_cons, List.map_cons, ih]
    obtain ⟨rfl, -⟩ | ⟨-, hf⟩ := hf
    · rfl
    · rw [hf.entry, hf.alike]

theorem entries : v'.files.map Prod.fst = v.files.map Prod.fst := by
  have hfiles := congrArg (List.map Prod.fst) h.alike.files
  rwa [List.map_map, List.map_map] at hfiles

theorem apart (hv : v.Apart) : v'.Apart := by
  have hpair (fs : List (DirEntry × List UInt8)) :
      fs.Pairwise (fun f g => ∀ b, f.1.Has b → ¬ g.1.Has b) ↔
        (fs.map Prod.fst).Pairwise fun e e' => ∀ b, e.Has b → ¬ e'.Has b := by
    rw [List.pairwise_map]
  rw [Volume.Apart, hpair, h.entries, ← hpair]
  exact hv

end Persisted

end Perenne

import Perenne.Organism
import Perenne.Requests

namespace Perenne

def KnownIssue.clear (i : KnownIssue) : KnownIssue := { i with dirty := false }

theorem KnownIssue.clear_of_not_dirty {i : KnownIssue} (h : i.dirty = false) : i.clear = i := by
  obtain ⟨_, _, _, _, _, _, _, _⟩ := i
  rw [KnownIssue.clear, ← h]

namespace Heal

theorem dirtySlot_clear (t : List KnownIssue) :
    (dirtySlot t).2.map KnownIssue.clear = t.map KnownIssue.clear := by
  induction t with
  | nil => rfl
  | cons i t ih =>
    unfold dirtySlot
    split
    · split
      · rfl
      · exact congrArg (i.clear :: ·) ih
    · exact congrArg (i.clear :: ·) ih

theorem dirtySlot_none {t t' : List KnownIssue} (h : dirtySlot t = (none, t')) :
    t' = t.map KnownIssue.clear ∧ ∀ i ∈ t, i.dirty = true → i.startBlock = 0 := by
  induction t generalizing t' with
  | nil =>
    obtain ⟨-, rfl⟩ := Prod.mk.inj h
    exact ⟨rfl, nofun⟩
  | cons i t ih =>
    have hrest (hn : (dirtySlot t).1 = none) := ih (Prod.ext hn rfl)
    unfold dirtySlot at h
    split at h
    case isTrue hdirty =>
      split at h
      case isTrue => cases h
      case isFalse hzero =>
        obtain ⟨hn, rfl⟩ := Prod.mk.inj h
        obtain ⟨ht, hall⟩ := hrest hn
        refine ⟨congrArg (i.clear :: ·) ht, fun j hj => ?_⟩
        obtain _ | ⟨_, hj⟩ := hj
        · exact fun _ => not_not.mp hzero
        · exact hall j hj
    case isFalse hclean =>
      obtain ⟨hn, rfl⟩ := Prod.mk.inj h
      obtain ⟨ht, hall⟩ := hrest hn
      refine ⟨?_, fun j hj => ?_⟩
      · rw [List.map_cons, KnownIssue.clear_of_not_dirty (Bool.eq_false_iff.mpr hclean)]
        exact congrArg (i :: ·) ht
      · obtain _ | ⟨_, hj⟩ := hj
        · exact fun h => absurd h hclean
        · exact hall j hj

theorem dirtySlot_some {t t' : List KnownIssue} {issue : KnownIssue}
    (h : dirtySlot t = (some issue, t')) :
    ∃ a b, t = a ++ issue :: b ∧ t' = a.map KnownIssue.clear ++ issue.clear :: b ∧
      issue.dirty = true ∧ issue.startBlock ≠ 0 ∧ ∀ i ∈ a, i.dirty = true → i.startBlock = 0 := by
  induction t generalizing t' with
  | nil => cases h
  | cons i t ih =>
    have hrest (hn : (dirtySlot t).1 = some issue) := ih (Prod.ext hn rfl)
    unfold dirtySlot at h
    split at h
    case isTrue hdirty =>
      split at h
      case isTrue hstart =>
        obtain ⟨hn, rfl⟩ := Prod.mk.inj h
        obtain rfl := Option.some.inj hn
        exact ⟨[], t, rfl, rfl, hdirty, hstart, nofun⟩
      case isFalse hzero =>
        obtain ⟨hn, rfl⟩ := Prod.mk.inj h
        obtain ⟨a, b, rfl, ht, hd, hs, hall⟩ := hrest hn
        refine ⟨i :: a, b, rfl, congrArg (i.clear :: ·) ht, hd, hs, fun j hj => ?_⟩
        obtain _ | ⟨_, hj⟩ := hj
        · exact fun _ => not_not.mp hzero
        · exact hall j hj
    case isFalse hclean =>
      obtain ⟨hn, rfl⟩ := Prod.mk.inj h
      obtain ⟨a, b, rfl, ht, hd, hs, hall⟩ := hrest hn
      refine ⟨i :: a, b, rfl, ?_, hd, hs, fun j hj => ?_⟩
      · rw [List.map_cons, KnownIssue.clear_of_not_dirty (Bool.eq_false_iff.mpr hclean)]
        exact congrArg (i :: ·) ht
      · obtain _ | ⟨_, hj⟩ := hj
        · exact fun h => absurd h hclean
        · exact hall j hj

end Heal

section Persist

variable {φ : Type} {serve : φ → World → Nat → Option (Nat × World)} {Ok : Fate → Prop}
  {H : Heal → Heal → Prop} {G : World → World → Prop} (hC : Client serve Ok H G)
  {Inv : World → Prop} {Stop : Panic → Prop} {Post : Bool → World → Prop} {w : World}

/-- The first block of the entry has its counters. -/
def Stored (disk disk' : Nat → Block) (issue : KnownIssue) : Prop :=
  ∃ block, updatedBlock (disk issue.startBlock).list issue = some block ∧
    disk' = Function.update disk issue.startBlock (.pad blockSize block)

include hC

/-- One round of the persist loop: nothing to do, or an entry is taken and its block is as
it was or has its counters. -/
theorem persistOne_sound (hw : w.Coherent)
    (hblocks : ∀ h₁ h₂ issue, H w.heal h₁ → h₁.dirtyEntry = (some issue, h₂) →
      issue.startBlock < 2 ^ 31)
    (hbefore : ∀ w', H w.heal w'.heal → w'.disk = w.disk → Inv w')
    (hnone : ∀ h₁ h₂ w', H w.heal h₁ → h₁.dirtyEntry = (none, h₂) → H h₂ w'.heal →
      w'.disk = w.disk → w'.Coherent → Inv w' ∧ Post false w')
    (hsome : ∀ h₁ h₂ issue w', H w.heal h₁ → h₁.dirtyEntry = (some issue, h₂) → H h₂ w'.heal →
      w'.disk = w.disk ∨ Stored w.disk w'.disk issue →
      Inv w' ∧ (w'.Coherent → ((∀ fate, Ok fate → fate = .done) →
        updatedBlock (w.disk issue.startBlock).list issue = none ∨ Stored w.disk w'.disk issue) →
        Post true w'))
    (hG : ∀ h₁ h₂ issue w₁ w₂, H w.heal h₁ → h₁.dirtyEntry = (some issue, h₂) →
      w₁.disk = w.disk → Stored w.disk w₂.disk issue → G w₁ w₂) :
    FsSound serve H G Inv Stop Post persistOne w := by
  intro w₁ h₁
  refine ⟨hbefore _ h₁.heal h₁.disk, hC.same _ _ rfl, ?_⟩
  dsimp only
  cases hentry : w₁.heal.dirtyEntry.1 with
  | none =>
    change FsSound serve H G Inv Stop Post (pure false) _
    intro w₂ h₂
    exact hnone _ _ w₂ h₁.heal (Prod.ext hentry rfl) h₂.heal (h₂.disk.trans h₁.disk)
      (((hw.others h₁).withHeal _).others h₂)
  | some issue =>
    have htook : w₁.heal.dirtyEntry = (some issue, w₁.heal.dirtyEntry.2) := Prod.ext hentry rfl
    have hlt := hblocks _ _ _ h₁.heal htook
    have hn : (UInt32.ofNat issue.startBlock).toNat = issue.startBlock := by
      rw [UInt32.toNat_ofNat']
      omega
    have hkeep (w' : World) (hheal : H w₁.heal.dirtyEntry.2 w'.heal) (hd : w'.disk = w.disk) :=
      hsome _ _ _ w' h₁.heal htook hheal (.inl hd)
    change FsSound serve H G Inv Stop Post (fsCopyBlock (.ofNat issue.startBlock) >>= _) _
    apply Prog.Sound.bind hC.lawful
    apply (fsCopyBlock_sound hC (by omega) ((hw.others h₁).withHeal _) fun w' hd hheal =>
      (hkeep w' hheal (hd.trans h₁.disk)).1).mono
    rintro block w₂ ⟨hd₂, hheal₂, hco₂, hblock, hdone₂⟩
    have hd₂ : w₂.disk = w.disk := hd₂.trans h₁.disk
    cases block with
    | none =>
      intro w₃ h₃
      obtain ⟨hinv, hpost⟩ := hkeep w₃ (hC.trans _ _ _ hheal₂ h₃.heal) (h₃.disk.trans hd₂)
      exact ⟨hinv, hpost (hco₂.others h₃) fun hall => absurd rfl (hdone₂ hall)⟩
    | some block =>
    have hblock : block = w.disk issue.startBlock := by
      rw [hblock _ rfl, hn]
      exact congrFun h₁.disk _
    subst hblock
    cases hup : updatedBlock (w.disk issue.startBlock).list issue with
    | none =>
      dsimp only
      rw [hup]
      intro w₃ h₃
      obtain ⟨hinv, hpost⟩ := hkeep w₃ (hC.trans _ _ _ hheal₂ h₃.heal) (h₃.disk.trans hd₂)
      exact ⟨hinv, hpost (hco₂.others h₃) fun _ => .inl hup⟩
    | some block =>
    dsimp only
    rw [hup]
    have hstored {disk : Nat → Block} (hd : disk = Function.update w₂.disk
        (UInt32.ofNat issue.startBlock).toNat (.pad blockSize block)) :
        Stored w.disk disk issue := by
      rw [hn, hd₂] at hd
      exact ⟨block, hup, hd⟩
    apply Prog.Sound.bind hC.lawful
    apply (fsWriteBlock_sound hC (by omega) block
      (fun w' hd hheal => (hsome _ _ _ w' h₁.heal htook (hC.trans _ _ _ hheal₂ hheal)
        (hd.imp (fun hd => hd.trans hd₂) hstored)).1)
      fun w₃ w₄ hd₃ hd₄ => hG _ _ _ w₃ w₄ h₁.heal htook (hd₃.trans hd₂) (hstored hd₄)).mono
    rintro ok w₃ ⟨hheal₃, hco₃, hd₃, hdone₃⟩
    intro w₄ h₄
    have hd₄ : w₄.disk = w.disk ∧ ok = false ∨ Stored w.disk w₄.disk issue := by
      rw [h₄.disk]
      exact hd₃.symm.imp (fun h => ⟨h.2.trans hd₂, h.1⟩) hstored
    obtain ⟨hinv, hpost⟩ := hsome _ _ _ w₄ h₁.heal htook
      (hC.trans _ _ _ hheal₂ (hC.trans _ _ _ hheal₃ h₄.heal)) (hd₄.imp_left And.left)
    refine ⟨hinv, hpost (hco₃.others h₄) fun hall => .inr ?_⟩
    obtain ⟨-, hfalse⟩ | hd₄ := hd₄
    · rw [hdone₃ hall] at hfalse
      cases hfalse
    · exact hd₄

end Persist

end Perenne

import Perenne.Blk

namespace Perenne

/-- Other tasks ran: they changed no more than the statics of `heal.rs`, and those within
`H`. -/
structure Others (H : Heal → Heal → Prop) (w w' : World) : Prop where
  disk : w'.disk = w.disk
  page : w'.page = w.page
  cached : w'.cached = w.cached
  heal : H w.heal w'.heal

/-- The only filesystem client: its requests meet fates in `Ok`, the other tasks keep `H`
between the statics before and after, and `G` is about the disk before and after a step. -/
structure Client {φ : Type} (serve : φ → World → Nat → Option (Nat × World)) (Ok : Fate → Prop)
    (H : Heal → Heal → Prop) (G : World → World → Prop) : Prop where
  fate {f : φ} {w : World} {badge : Nat} {r : Nat × World} (h : serve f w badge = some r) :
    ∃ fate, Ok fate ∧ World.serve fate w badge = some r
  refl (h : Heal) : H h h
  trans (h₁ h₂ h₃ : Heal) (h12 : H h₁ h₂) (h23 : H h₂ h₃) : H h₁ h₃
  same (w w' : World) (h : w'.disk = w.disk) : G w w'

/-- What is said of a filesystem task: `G` of each of its steps, `Inv` at every moment,
`Stop` of its panics, `Post` when it returns. -/
abbrev FsSound {φ : Type} (serve : φ → World → Nat → Option (Nat × World))
    (H : Heal → Heal → Prop) (G : World → World → Prop) (Inv : World → Prop) (Stop : Panic → Prop)
    {α : Type} (Post : α → World → Prop) (p : Io α) (w : World) : Prop :=
  Prog.Sound ⟨serve, Others H, G, Inv, Stop⟩ Post p w

theorem serve_heal {w w' : World} {badge status : Nat} {fate : Fate}
    (h : World.serve fate w badge = some (status, w')) : w'.heal = w.heal := by
  have htransfer (write : Bool) (n : Nat) : (w.transfer write n).heal = w.heal := by
    cases write with
    | false => rfl
    | true => rfl
  cases fate with
  | done =>
    obtain ⟨-, rfl⟩ := Prod.mk.inj (Option.some.inj h)
    exact htransfer ..
  | failed status stored page =>
    rw [World.serve] at h
    split at h
    · cases h
    · obtain ⟨-, rfl⟩ := Prod.mk.inj (Option.some.inj h)
      rw [World.spoil]
      split
      · split
        · exact htransfer ..
        · rfl
      · rfl

section Client

variable {φ : Type} {serve : φ → World → Nat → Option (Nat × World)} {Ok : Fate → Prop}
  {H : Heal → Heal → Prop} {G : World → World → Prop}

theorem Client.others_refl (hC : Client serve Ok H G) (w : World) : Others H w w :=
  ⟨rfl, rfl, rfl, hC.refl _⟩

theorem Client.others_trans (hC : Client serve Ok H G) {w₁ w₂ w₃ : World} (h12 : Others H w₁ w₂)
    (h23 : Others H w₂ w₃) : Others H w₁ w₃ :=
  ⟨h23.disk.trans h12.disk, h23.page.trans h12.page, h23.cached.trans h12.cached,
    hC.trans _ _ _ h12.heal h23.heal⟩

theorem Client.lawful (hC : Client serve Ok H G) {Inv : World → Prop} {Stop : Panic → Prop} :
    (Prog.Spec.mk serve (Others H) G Inv Stop).Lawful :=
  ⟨hC.others_refl, fun _ _ _ => hC.others_trans⟩

end Client

theorem World.Coherent.others {H : Heal → Heal → Prop} {w w' : World} (hw : w.Coherent)
    (h : Others H w w') : w'.Coherent := by
  intro n hn
  rw [h.page, h.disk]
  exact hw n (h.cached.symm.trans hn)

theorem World.Coherent.withHeal {w : World} (hw : w.Coherent) (heal : Heal) :
    World.Coherent { w with heal } := hw

theorem and_blkWriteFlag {n : Nat} (hn : n < 2 ^ 31) : n &&& blkWriteFlag = 0 := by
  rw [blkWriteFlag, Nat.and_two_pow, Nat.testBit_lt_two_pow hn]
  rfl

theorem or_blkWriteFlag {n : Nat} (hn : n < 2 ^ 31) :
    (n ||| blkWriteFlag) &&& blkWriteFlag = blkWriteFlag ∧
      (n ||| blkWriteFlag) - blkWriteFlag = n := by
  have hadd : n ||| blkWriteFlag = 2 ^ 31 * 1 + n := by
    rw [Nat.two_pow_add_eq_or_of_lt hn, Nat.or_comm]
    rfl
  constructor
  · rw [blkWriteFlag, Nat.and_two_pow, Nat.testBit_or, Nat.testBit_two_pow_self, Bool.or_true]
    rfl
  · rw [hadd, blkWriteFlag]
    omega

namespace World

variable {fate : Fate} {w w' : World} {n status : Nat}

theorem serve_read (hn : n < 2 ^ 31) (h : serve fate w n = some (status, w')) :
    w'.disk = w.disk ∧ w'.cached = w.cached ∧ w'.heal = w.heal ∧
      (status = 0 → w'.page = w.disk n) ∧ (fate = .done → status = 0) := by
  simp only [serve, and_blkWriteFlag hn, Nat.sub_zero] at h
  cases fate with
  | done =>
    obtain ⟨rfl, rfl⟩ := Prod.mk.inj (Option.some.inj h)
    exact ⟨rfl, rfl, rfl, fun _ => rfl, fun _ => rfl⟩
  | failed st stored page =>
    dsimp only at h
    split at h
    case isTrue => cases h
    case isFalse hst =>
      obtain ⟨rfl, rfl⟩ := Prod.mk.inj (Option.some.inj h)
      exact ⟨rfl, rfl, rfl, fun h0 => absurd h0 hst, nofun⟩

theorem serve_write (hn : n < 2 ^ 31)
    (h : serve fate w (n ||| blkWriteFlag) = some (status, w')) :
    w'.page = w.page ∧ w'.cached = w.cached ∧ w'.heal = w.heal ∧
      (w'.disk = Function.update w.disk n w.page ∨ status ≠ 0 ∧ w'.disk = w.disk) ∧
      (fate = .done → status = 0) := by
  have hflag : (blkWriteFlag != 0) = true := rfl
  simp only [serve, or_blkWriteFlag hn, hflag] at h
  cases fate with
  | done =>
    obtain ⟨rfl, rfl⟩ := Prod.mk.inj (Option.some.inj h)
    exact ⟨rfl, rfl, rfl, .inl rfl, fun _ => rfl⟩
  | failed st stored page =>
    dsimp only at h
    split at h
    case isTrue => cases h
    case isFalse hst =>
      obtain ⟨rfl, rfl⟩ := Prod.mk.inj (Option.some.inj h)
      cases stored with
      | true => exact ⟨rfl, rfl, rfl, .inl rfl, nofun⟩
      | false => exact ⟨rfl, rfl, rfl, .inr ⟨hst, rfl⟩, nofun⟩

end World

theorem Bytes.pad_fill (page : Block) (bytes : List UInt8) :
    Bytes.pad blockSize ((Bytes.pad blockSize
      (splice page.list 0 (bytes.take blockSize))).list.take bytes.length) =
      Bytes.pad blockSize bytes := by
  have hpart : (bytes.take blockSize).length ≤ page.list.length := by
    rw [List.length_take, page.size]
    exact Nat.min_le_left ..
  have hfull : (splice page.list 0 (bytes.take blockSize)).length = blockSize := by
    rw [length_splice (by omega), page.size]
  rw [Bytes.pad_list hfull, splice, List.take_zero, List.nil_append, Nat.zero_add]
  by_cases hle : bytes.length ≤ blockSize
  · rw [List.take_of_length_le hle, List.take_left' rfl]
  · have hlen : (bytes.take blockSize).length = blockSize := List.length_take_of_le (by omega)
    have hdrop : page.list.drop (bytes.take blockSize).length = [] := by
      rw [hlen, List.drop_eq_nil_of_le (Nat.le_of_eq page.size)]
    rw [hdrop, List.append_nil, List.take_of_length_le (by omega)]
    simp only [Bytes.pad, hlen, Nat.sub_self, List.take_take, Nat.min_self,
      List.replicate_zero, Nat.sub_eq_zero_of_le (Nat.le_of_not_le hle)]

section Sound

variable {φ : Type} {serve : φ → World → Nat → Option (Nat × World)} {Ok : Fate → Prop}
  {H : Heal → Heal → Prop} {G : World → World → Prop} (hC : Client serve Ok H G)
  {Inv : World → Prop} {Stop : Panic → Prop} {w : World} {n : UInt32}

include hC

theorem fsReadBlock_sound (hn : n.toNat < 2 ^ 31) (hw : w.Coherent)
    (hinv : ∀ w', w'.disk = w.disk → H w.heal w'.heal → Inv w') :
    FsSound serve H G Inv Stop (fun ok w' => w'.disk = w.disk ∧ H w.heal w'.heal ∧ w'.Coherent ∧
      (ok = true → w'.page = w.disk n.toNat) ∧ ((∀ fate, Ok fate → fate = .done) → ok = true))
      (fsReadBlock n) w := by
  intro w₁ h₁
  refine ⟨hinv _ h₁.disk h₁.heal, hC.same _ _ rfl, ?_⟩
  change FsSound serve H G Inv Stop _ (if w₁.cached = n.toNat then _ else _) w₁
  split
  case isTrue hhit =>
    intro w₂ h₂
    have hdisk := h₂.disk.trans h₁.disk
    have hheal := hC.trans _ _ _ h₁.heal h₂.heal
    have hpage : w₂.page = w.disk n.toNat := by
      rw [h₂.page, h₁.page]
      exact hw _ (h₁.cached.symm.trans hhit)
    exact ⟨hinv _ hdisk hheal, hdisk, hheal, (hw.others h₁).others h₂, fun _ => hpage, fun _ => rfl⟩
  case isFalse =>
    intro w₂ h₂
    have hdisk := h₂.disk.trans h₁.disk
    have hheal := hC.trans _ _ _ h₁.heal h₂.heal
    refine ⟨hinv _ hdisk hheal, fun f status w₃ hserve => ?_⟩
    obtain ⟨fate, hok, hserve⟩ := hC.fate hserve
    obtain ⟨hdisk₃, -, hheal₃, hpage, hdone⟩ := World.serve_read hn hserve
    refine ⟨hC.same _ _ hdisk₃, ?_⟩
    change FsSound serve H G Inv Stop _ (if status ≠ 0 then _ else _) w₃
    split
    case isTrue hst =>
      intro w₄ h₄
      have hdisk := h₄.disk.trans (hdisk₃.trans hdisk)
      have hheal : H w.heal w₄.heal := hC.trans _ _ _ hheal (hheal₃ ▸ h₄.heal)
      refine ⟨hinv _ hdisk hheal, hC.same _ _ rfl, fun w₅ h₅ => ?_⟩
      have hdisk := h₅.disk.trans hdisk
      have hheal := hC.trans _ _ _ hheal h₅.heal
      refine ⟨hinv _ hdisk hheal, hdisk, hheal, fun m hm => ?_, nofun, fun hall => ?_⟩
      · have := h₅.cached.symm.trans hm
        change (-1 : Int) = m at this
        omega
      · exact absurd (hdone (hall fate hok)) hst
    case isFalse hst =>
      intro w₄ h₄
      have hdisk := h₄.disk.trans (hdisk₃.trans hdisk)
      have hheal : H w.heal w₄.heal := hC.trans _ _ _ hheal (hheal₃ ▸ h₄.heal)
      refine ⟨hinv _ hdisk hheal, hC.same _ _ rfl, fun w₅ h₅ => ?_⟩
      have hdisk₅ := h₅.disk.trans hdisk
      have hheal := hC.trans _ _ _ hheal h₅.heal
      have hpage₅ : w₅.page = w.disk n.toNat := by
        rw [h₅.page]
        change w₄.page = _
        rw [h₄.page, hpage (not_not.mp hst), h₂.disk, h₁.disk]
      refine ⟨hinv _ hdisk₅ hheal, hdisk₅, hheal, fun m hm => ?_, fun _ => hpage₅, fun _ => rfl⟩
      have htag := h₅.cached.symm.trans hm
      change (n.toNat : Int) = m at htag
      rw [hpage₅, hdisk₅, Int.ofNat.inj htag]

theorem fsCopyBlock_sound (hn : n.toNat < 2 ^ 31) (hw : w.Coherent)
    (hinv : ∀ w', w'.disk = w.disk → H w.heal w'.heal → Inv w') :
    FsSound serve H G Inv Stop (fun b w' => w'.disk = w.disk ∧ H w.heal w'.heal ∧ w'.Coherent ∧
      (∀ page, b = some page → page = w.disk n.toNat) ∧
      ((∀ fate, Ok fate → fate = .done) → b ≠ none)) (fsCopyBlock n) w := by
  apply Prog.Sound.bind hC.lawful
  apply (fsReadBlock_sound hC hn hw hinv).mono
  rintro ok w₁ ⟨hdisk, hheal, hco, hpage, hdone⟩
  have hstill {w' : World} (h : Others H w₁ w') :
      w'.disk = w.disk ∧ H w.heal w'.heal ∧ w'.Coherent :=
    ⟨h.disk.trans hdisk, hC.trans _ _ _ hheal h.heal, hco.others h⟩
  cases ok with
  | false =>
    intro w₂ h₂
    obtain ⟨hdisk₂, hheal₂, hco₂⟩ := hstill h₂
    refine ⟨hinv _ hdisk₂ hheal₂, hdisk₂, hheal₂, hco₂, nofun, fun hall => ?_⟩
    cases hdone hall
  | true =>
    intro w₂ h₂
    obtain ⟨hdisk₂, hheal₂, hco₂⟩ := hstill h₂
    refine ⟨hinv _ hdisk₂ hheal₂, hC.same _ _ rfl, fun w₃ h₃ => ?_⟩
    obtain ⟨hdisk₃, hheal₃, hco₃⟩ := hstill (hC.others_trans h₂ h₃)
    refine ⟨hinv _ hdisk₃ hheal₃, hdisk₃, hheal₃, hco₃, fun page heq => ?_, nofun⟩
    rw [← Option.some.inj heq, h₂.page, hpage rfl]

/-- The block holds its old contents or the padded bytes, and the latter when the write
is reported done. -/
theorem fsWriteBlock_sound (hn : n.toNat < 2 ^ 31) (bytes : List UInt8)
    (hinv : ∀ w', w'.disk = w.disk ∨
      w'.disk = Function.update w.disk n.toNat (.pad blockSize bytes) →
      H w.heal w'.heal → Inv w')
    (hG : ∀ w₁ w₂, w₁.disk = w.disk →
      w₂.disk = Function.update w.disk n.toNat (.pad blockSize bytes) → G w₁ w₂) :
    FsSound serve H G Inv Stop (fun ok w' => H w.heal w'.heal ∧ w'.Coherent ∧
      (w'.disk = Function.update w.disk n.toNat (.pad blockSize bytes) ∨
        ok = false ∧ w'.disk = w.disk) ∧ ((∀ fate, Ok fate → fate = .done) → ok = true))
      (fsWriteBlock n bytes) w := by
  intro w₁ h₁
  refine ⟨hinv _ (.inl h₁.disk) h₁.heal, hC.same _ _ rfl, fun w₂ h₂ => ?_⟩
  have hdisk := h₂.disk.trans h₁.disk
  have hheal := hC.trans _ _ _ h₁.heal h₂.heal
  refine ⟨hinv _ (.inl hdisk) hheal, hC.same _ _ rfl, fun w₃ h₃ => ?_⟩
  have hdisk := h₃.disk.trans hdisk
  have hheal := hC.trans _ _ _ hheal h₃.heal
  refine ⟨hinv _ (.inl hdisk) hheal, hC.same _ _ rfl, fun w₄ h₄ => ?_⟩
  have hdisk := h₄.disk.trans hdisk
  have hheal := hC.trans _ _ _ hheal h₄.heal
  refine ⟨hinv _ (.inl hdisk) hheal, fun f status w₅ hserve => ?_⟩
  -- The page that is sent is the padded bytes.
  have hpage : w₄.page = .pad blockSize bytes := by
    rw [h₄.page]
    change w₃.page = _
    rw [h₃.page]
    change Bytes.pad blockSize (w₂.page.list.take bytes.length) = _
    rw [h₂.page]
    exact Bytes.pad_fill ..
  obtain ⟨fate, hok, hserve⟩ := hC.fate hserve
  obtain ⟨-, hcached, hheal₅, hstored, hdone⟩ := World.serve_write hn hserve
  rw [hdisk, hpage] at hstored
  refine ⟨hstored.elim (hG _ _ hdisk) fun h => hC.same _ _ (h.2.trans hdisk.symm), ?_⟩
  change FsSound serve H G Inv Stop _ (.ret (status == 0)) w₅
  intro w₆ h₆
  have hheal := hC.trans _ _ _ hheal (hheal₅ ▸ h₆.heal)
  have hco : w₆.Coherent := by
    intro m hm
    have htag := hm
    rw [h₆.cached, hcached, h₄.cached] at htag
    change (-1 : Int) = m at htag
    omega
  rw [← h₆.disk] at hstored
  refine ⟨hinv _ (hstored.symm.imp_left And.right) hheal, hheal, hco, ?_, fun hall => ?_⟩
  · exact hstored.imp_right fun h => ⟨by simpa using h.1, h.2⟩
  · simp [hdone (hall fate hok)]

end Sound

end Perenne

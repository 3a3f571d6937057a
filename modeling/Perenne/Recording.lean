import Perenne.Frontmatter
import Perenne.Loader
import Perenne.Appends

namespace Perenne

def mintedDoc (num : Nat) (token : Text) : Text :=
  (Kb.document (mintId num) (mintTitle token) defaultPlaybook token).flatten

def mintedIssue (num : Nat) (token : Text) (start : Nat) : KnownIssue :=
  .new (mintId num) (mintTitle token) defaultPlaybook token 0 false start

theorem isInk_digit {n : Nat} (hn : n < 10) :
    isInk (.ofNat (48 + n)) = true ∧ UInt8.ofNat (48 + n) ≠ 34 := by
  revert hn
  revert n
  decide

theorem mem_toDigits {width n : Nat} {b : UInt8} (hb : b ∈ toDigits width n) :
    ∃ d < 10, b = .ofNat (48 + d) := by
  obtain ⟨i, -, rfl⟩ := List.mem_map.mp hb
  exact ⟨n / 10 ^ i % 10, Nat.mod_lt _ (by decide), rfl⟩

theorem length_toDigits (width n : Nat) : (toDigits width n).length = width := by
  simp [toDigits]

theorem validUtf8_ink {s : Text} (h : ∀ b ∈ s, isInk b = true) : validUtf8 s = true := by
  induction s with
  | nil => rfl
  | cons a s ih =>
    have ha : a < 0x80 := by
      have := h a (.head _)
      simp only [isInk, Bool.and_eq_true, decide_eq_true_eq] at this
      exact this.1
    rw [validUtf8_ascii ha]
    exact ih fun b hb => h b (.tail _ hb)

theorem trim_inks {s : Text} (h : ∀ b ∈ s, isInk b = true) : trim s = s := by
  cases s with
  | nil => rfl
  | cons a s =>
    have hlast : (a :: s).dropLast ++ [(a :: s).getLast (List.cons_ne_nil a s)] = a :: s :=
      List.dropLast_append_getLast _
    rw [trim, trimStart_ink (h a (.head _)), ← hlast]
    exact trimEnd_ink (h _ (List.getLast_mem _)) _

theorem plain_ink {s : Text} (h : ∀ c ∈ s, isInk c = true) (hquote : 34 ∉ s) : Plain s where
  valid := validUtf8_ink h
  noNewline := fun hmem => absurd (h 10 hmem) (by decide)
  noQuote := hquote
  trimmed := trim_inks h

theorem plain_mintId (num : Nat) : Plain (mintId num) := by
  have hall : ∀ c ∈ mintId num, isInk c = true ∧ c ≠ 34 := by
    intro c hc
    rw [mintId, List.mem_append] at hc
    obtain hc | hc := hc
    · have hfixed : ∀ c ∈ utf8 "KB-", isInk c = true ∧ c ≠ 34 := by decide +kernel
      exact hfixed c hc
    · obtain ⟨d, hd, rfl⟩ := mem_toDigits hc
      exact isInk_digit hd
  exact plain_ink (fun c hc => (hall c hc).1) fun h34 => (hall 34 h34).2 rfl

theorem causeToken_cases {cause : Cause} {token : Text} (h : Heal.causeToken cause = some token) :
    token = utf8 "page-fault" ∨ token = utf8 "illegal-instruction" := by
  cases cause with
  | loadPageFault => exact .inl (Option.some.inj h).symm
  | storePageFault => exact .inl (Option.some.inj h).symm
  | instructionPageFault => exact .inl (Option.some.inj h).symm
  | illegalInstruction => exact .inr (Option.some.inj h).symm
  | _ => cases h

theorem Buf.fromStr_text {N : Nat} {s : Text} (h : s.length ≤ N) : (Buf.fromStr N s).text = s := by
  have hfull : boundaryBelow s s.length = s.length := by
    cases hs : s.length with
    | zero => rfl
    | succ k =>
      rw [boundaryBelow, if_pos]
      simp [isCharBoundary, ← hs]
  change s.take (boundaryBelow s (min s.length N)) = s
  rw [Nat.min_eq_left h, hfull, List.take_length]

section Token

variable {cause : Cause} {token : Text} (htoken : Heal.causeToken cause = some token)

include htoken

theorem plain_token : Plain token ∧ Plain (mintTitle token) := by
  obtain rfl | rfl := causeToken_cases htoken
  · decide +kernel
  · decide +kernel

theorem parse_mintedDoc (num : Nat) : Kb.parse (mintedDoc num token) =
    some ⟨mintId num, mintTitle token, defaultPlaybook, some token, 0, false⟩ := by
  have hplaybook : Plain defaultPlaybook := by decide +kernel
  exact Kb.parse_document (plain_mintId num) (plain_token htoken).2 hplaybook (plain_token htoken).1

theorem length_mintedDoc (num : Nat) : (mintedDoc num token).length ≤ blockSize := by
  have hid : (mintId num).length = 7 := by
    rw [mintId, List.length_append, length_toDigits]
    rfl
  have hrest : (mintedDoc num token).length = (mintId num).length +
      (Kb.document [] (mintTitle token) defaultPlaybook token).flatten.length := by
    simp only [mintedDoc, Kb.document, List.flatten_cons, List.length_append, List.length_nil,
      Nat.zero_add]
    ac_rfl
  rw [hrest, hid]
  obtain rfl | rfl := causeToken_cases htoken
  · decide +kernel
  · decide +kernel

theorem serialize_minted (num : Nat) : Kb.serialize (mintId num) (mintTitle token) defaultPlaybook
    token blockSize = some (mintedDoc num token) := by
  rw [Kb.serialize_eq]
  exact if_pos (length_mintedDoc htoken num)

theorem loadFile_minted (num : Nat) (e : DirEntry) :
    loadFile (e, mintedDoc num token) = some (mintedIssue num token e.startBlock.toNat) := by
  have hlen := length_mintedDoc htoken num
  rw [loadFile, List.take_of_length_le (hlen.trans (by decide)), parse_mintedDoc htoken]
  rfl

theorem entries_appended (v : Volume) (num : Nat) :
    (v.appended (mintId num) (mintedDoc num token)).entries =
      v.entries ++ [mintedIssue num token v.superblock.totalBlocks.toNat] := by
  rw [Volume.entries, Volume.appended, List.filterMap_append, List.filterMap_cons,
    loadFile_minted htoken]
  rfl

theorem mintedIssue_matchCause (num start : Nat) :
    (mintedIssue num token start).matchCause.text = token := by
  refine Buf.fromStr_text ?_
  obtain rfl | rfl := causeToken_cases htoken
  · decide
  · decide

end Token

theorem maxKbNumber_bumped {h h' : Heal} (hb : TableBumped h.table h'.table) :
    h'.maxKbNumber = h.maxKbNumber := by
  have hnumbers : h'.table.filterMap Heal.kbNumber = h.table.filterMap Heal.kbNumber := by
    generalize h.table = t, h'.table = t' at hb
    induction hb with
    | nil => rfl
    | cons hi _ ih =>
      rw [List.filterMap_cons, List.filterMap_cons, ih, Heal.kbNumber, Heal.kbNumber, hi.face.1]
  rw [Heal.maxKbNumber, hnumbers, Heal.maxKbNumber]

/-- The entry is on the disk and in the table. -/
structure Recorded (v : Volume) (num : Nat) (token : Text) (table : List KnownIssue)
    (w : World) : Prop where
  takes : v.Takes (mintedDoc num token)
  volume : readVolume w.disk = some (v.appended (mintId num) (mintedDoc num token))
  table : TableBumped (table ++ [mintedIssue num token v.superblock.totalBlocks.toNat]) w.heal.table

/-- The entry is not in the table, and on the disk perhaps. -/
structure Unrecorded (v : Volume) (num : Nat) (token : Text) (table : List KnownIssue)
    (w : World) : Prop where
  volume : OneOf v (mintId num) (mintedDoc num token) w.disk
  table : TableBumped table w.heal.table

section Record

variable {φ : Type} {serve : φ → World → Nat → Option (Nat × World)} {Ok : Fate → Prop}
  {H : Heal → Heal → Prop} {G : World → World → Prop} (hC : Client serve Ok H G)
  {J : Heal → Prop} (hJ : Loads J H) {Inv : World → Prop} {Stop : Panic → Prop} {w : World}
  {v : Volume}

include hC hJ

theorem recordNovel_sound {cause : Cause} {token : Text} {num : Nat}
    (htoken : Heal.causeToken cause = some token) (hnum : w.heal.maxKbNumber + 1 = num)
    (hw : w.Ready v) (hj : J w.heal) (hroom : w.heal.table.length ≤ v.superblock.dirEntries.toNat)
    (hstop : 2 ^ 32 ≤ num → ∀ e, Stop e)
    (hinv : ∀ w', J w'.heal → Unrecorded v num token w.heal.table w' ∨
      Recorded v num token w.heal.table w' → Inv w')
    (hG : ∀ w₁ w₂, readVolume w₁.disk = some v →
      OneOf v (mintId num) (mintedDoc num token) w₂.disk → G w₁ w₂) :
    FsSound serve H G Inv Stop (fun r w' => w'.Coherent ∧ J w'.heal ∧
      (r = true ∧ Recorded v num token w.heal.table w' ∨
        r = false ∧ Unrecorded v num token w.heal.table w')) (recordNovel token) w := by
  have hstart {w' : World} (hd : w'.disk = w.disk) (hheal : H w.heal w'.heal) :
      Unrecorded v num token w.heal.table w' :=
    ⟨.inl (by rw [hd, hw.volume]), hJ.table _ _ hheal⟩
  intro w₁ h₁
  refine ⟨hinv _ (hJ.others _ _ h₁.heal hj) (.inl (hstart h₁.disk h₁.heal)), hC.same _ _ rfl, ?_⟩
  have hmax : w₁.heal.maxKbNumber + 1 = num := by
    rw [maxKbNumber_bumped (hJ.table _ _ h₁.heal), hnum]
  change FsSound serve H G Inv Stop _
    (Prog.lift (if w₁.heal.maxKbNumber + 1 < 2 ^ 32 then _ else _) >>= _) _
  rw [hmax]
  by_cases hfits : num < 2 ^ 32
  case neg =>
    rw [if_neg hfits]
    intro w₂ h₂
    have hheal₂ := hC.trans _ _ _ h₁.heal h₂.heal
    exact ⟨hinv _ (hJ.others _ _ hheal₂ hj) (.inl (hstart (h₂.disk.trans h₁.disk) hheal₂)),
      hstop (Nat.le_of_not_lt hfits) _⟩
  case pos =>
  rw [if_pos hfits, Prog.lift_ok_bind, serialize_minted htoken]
  have hread₁ : readVolume w₁.disk = some v := by rw [h₁.disk, hw.volume]
  apply Prog.Sound.bind hC.lawful
  apply (fsAppendFile_sound hC (mintId num) (mintedDoc num token) hw.wellFormed hread₁
    (hw.coherent.others h₁) (fun w' hone hheal =>
      hinv w' (hJ.others _ _ (hC.trans _ _ _ h₁.heal hheal) hj)
        (.inl ⟨hone, hJ.table _ _ (hC.trans _ _ _ h₁.heal hheal)⟩)) hG).mono
  rintro r w₂ ⟨hheal₂, hco₂, hone₂, hsome₂⟩
  have hheal₂ := hC.trans _ _ _ h₁.heal hheal₂
  cases r with
  | none =>
    intro w₃ h₃
    have hheal₃ := hC.trans _ _ _ hheal₂ h₃.heal
    have hun : Unrecorded v num token w.heal.table w₃ :=
      ⟨h₃.disk ▸ hone₂, hJ.table _ _ hheal₃⟩
    have hj₃ := hJ.others _ _ hheal₃ hj
    exact ⟨hinv _ hj₃ (.inl hun), hco₂.others h₃, hj₃, .inr ⟨rfl, hun⟩⟩
  | some start =>
    obtain ⟨htakes, rfl, hvol⟩ := hsome₂ start rfl
    intro w₃ h₃
    have hheal₃ := hC.trans _ _ _ hheal₂ h₃.heal
    have hj₃ := hJ.others _ _ hheal₃ hj
    have hbump₃ := hJ.table _ _ hheal₃
    have hvol₃ := h₃.disk ▸ hvol
    refine ⟨hinv _ hj₃ (.inl ⟨.inr ⟨htakes, hvol₃⟩, hbump₃⟩), hC.same _ _ rfl, ?_⟩
    -- A free directory slot means a free slot in the table.
    have hnot : ¬ w₃.heal.table.length ≥ maxIssues := by
      have hlen := hbump₃.length_eq
      have hslot := htakes.slot
      have height : direntsPerBlock = maxIssues := rfl
      omega
    simp only [Heal.install, if_neg hnot]
    intro w₄ h₄
    have hj₄ := hJ.others _ _ h₄.heal (hJ.install _ _ hj₃)
    have hrec : Recorded v num token w.heal.table w₄ :=
      ⟨htakes, h₄.disk ▸ hvol₃, (hbump₃.snoc _).trans (hJ.table _ _ h₄.heal)⟩
    exact ⟨hinv _ hj₄ (.inr hrec), ((hco₂.others h₃).withHeal _).others h₄, hj₄, .inl ⟨rfl, hrec⟩⟩

end Record

end Perenne

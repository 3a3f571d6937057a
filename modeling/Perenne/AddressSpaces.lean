import Perenne.Walk

namespace Perenne

/-- The address lies in a half-open range. -/
def within (g : Nat × Nat) (va : Nat) : Prop := g.1 ≤ va ∧ va < g.2

instance (g : Nat × Nat) (va : Nat) : Decidable (within g va) := inferInstanceAs (Decidable (_ ∧ _))

/-- A page-aligned range below `2 ^ 38`. -/
structure Paged (g : Nat × Nat) : Prop where
  start : g.1 % pageSize = 0
  stop : g.2 % pageSize = 0
  below : g.2 ≤ 2 ^ 38

/-- A stack in `.user_data`. -/
structure OwnStack (img : Image) (stack : Nat × Nat) : Prop extends Paged stack where
  low : img.userDataStart ≤ stack.1
  high : stack.2 ≤ img.userDataEnd

/-- Device registers, outside the kernel image and the RAM the allocator manages. -/
structure Registers (img : Image) (b : Board) (mmio : Nat × Nat) : Prop extends Paged mmio where
  outside (va : Nat) (h : within mmio va) : ¬ within (img.textStart, b.ramEnd) va

instance (g : Nat × Nat) : Decidable (Paged g) :=
  decidable_of_iff (g.1 % pageSize = 0 ∧ g.2 % pageSize = 0 ∧ g.2 ≤ 2 ^ 38)
    ⟨fun h => ⟨h.1, h.2.1, h.2.2⟩, fun h => ⟨h.start, h.stop, h.below⟩⟩

instance (img : Image) (stack : Nat × Nat) : Decidable (OwnStack img stack) :=
  decidable_of_iff (Paged stack ∧ img.userDataStart ≤ stack.1 ∧ stack.2 ≤ img.userDataEnd)
    ⟨fun h => ⟨h.1, h.2.1, h.2.2⟩, fun h => ⟨h.toPaged, h.low, h.high⟩⟩

theorem within_disjoint {g g' : Nat × Nat} :
    (∀ va, within g va → ¬ within g' va) ↔
      g.2 ≤ g.1 ∨ g'.2 ≤ g'.1 ∨ g.2 ≤ g'.1 ∨ g'.2 ≤ g.1 := by
  simp only [within]
  constructor
  · intro h
    have h₁ := h g.1
    have h₂ := h g'.1
    omega
  · intro h va
    omega

instance (img : Image) (b : Board) (mmio : Nat × Nat) : Decidable (Registers img b mmio) :=
  decidable_of_iff (Paged mmio ∧ (mmio.2 ≤ mmio.1 ∨ b.ramEnd ≤ img.textStart ∨
      mmio.2 ≤ img.textStart ∨ b.ramEnd ≤ mmio.1))
    ⟨fun h => ⟨h.1, within_disjoint.mpr h.2⟩,
      fun h => ⟨h.toPaged, within_disjoint.mp h.outside⟩⟩

namespace Space

/-- What the builders are promised about the regions passed in. -/
def Passed (img : Image) (b : Board) (handed : List Nat) : Space → Prop
  | .kernel => True
  | .user stack device => OwnStack img stack ∧ Paged device
  | .virtio stack mmio dma => OwnStack img stack ∧ Registers img b mmio ∧
    ∃ f ∈ handed, dma = (f, f + pageSize)

def userRanges (img : Image) : Space → List (Nat × Nat)
  | .kernel => []
  | .user stack device => [(img.userTextStart, img.userTextEnd), stack, device]
  | .virtio stack mmio dma => [(img.userTextStart, img.userTextEnd), stack, mmio, dma]

def writableRanges : Space → List (Nat × Nat)
  | .kernel => []
  | .user stack _ => [stack]
  | .virtio stack mmio dma => [stack, mmio, dma]

end Space

namespace Memory

/-- The regions passed to a builder are as promised. -/
def Passes (img : Image) (b : Board) (s : Memory) : Op → Prop
  | .allocZeroed => True
  | .buildUserSpace stack device => (Space.user stack device).Passed img b s.handed
  | .buildVirtioSpace stack mmio dma => (Space.virtio stack mmio dma).Passed img b s.handed

instance (img : Image) (b : Board) (s : Memory) : ∀ op, Decidable (s.Passes img b op)
  | .allocZeroed => .isTrue trivial
  | .buildUserSpace .. => inferInstanceAs (Decidable (_ ∧ _))
  | .buildVirtioSpace .. => inferInstanceAs (Decidable (_ ∧ _ ∧ _))

/-- The frame is a page table of one of the trees. -/
def IsTable (s : Memory) (f : Nat) : Prop :=
  ∃ x ∈ s.built, ∃ p : List Nat, p.length ≤ 2 ∧
    Radix.descend nextTable s.mem.tables (x.1 % 2 ^ 44 * 4096) p = some f

/-- What the walk of every address gives under one `satp`. -/
structure Confines (img : Image) (b : Board) (s : Memory) (satp : Nat) (space : Space) :
    Prop where
  mapped (va : Nat) :
    (∃ t, translate s.mem.tables satp va = some t) ↔ ∃ g ∈ space.regions img b, g.has va
  identity {va : Nat} {t : Translation} (ht : translate s.mem.tables satp va = some t) : t.pa = va
  user {va : Nat} {t : Translation} (ht : translate s.mem.tables satp va = some t) :
    t.u = true ↔ ∃ g ∈ space.userRanges img, within g va
  exclusive {va : Nat} {t : Translation} (ht : translate s.mem.tables satp va = some t) :
    ¬ (t.w = true ∧ t.x = true)
  writable {va : Nat} {t : Translation} (ht : translate s.mem.tables satp va = some t)
    (hu : t.u = true) (hw : t.w = true) : ∃ g ∈ space.writableRanges, within g va
  apart {va : Nat} {t : Translation} (ht : translate s.mem.tables satp va = some t)
    (hu : t.u = true) (hw : t.w = true) :
    ¬ s.IsTable (va / pageSize * pageSize) ∧ ¬ within (img.textStart, img.userDataStart) va

end Memory

theorem Mem.Fits.has_iff {g : Region} (hg : Mem.Fits g) (va : Nat) :
    g.has (va / 4096 * 4096) ↔ g.has va := by
  have hstart := hg.start
  have hstop := hg.stop
  simp only [Region.has, pageSize] at *
  omega

/-- A range of the kernel: readable, not both writable and executable, not for U-mode. -/
def KernelFlags (flags : Nat) : Prop := flags ∈ [pteR ||| pteX ||| pteG, pteR ||| pteG,
  pteR ||| pteW ||| pteG]

/-- A range of a task: the same, for U-mode. -/
def UserFlags (flags : Nat) : Prop := flags ∈ [pteR ||| pteX ||| pteU, pteR ||| pteU,
  pteR ||| pteW ||| pteU]

theorem flags_sound {flags : Nat} (h : KernelFlags flags ∨ UserFlags flags) :
    flags < 2 ^ 10 ∧ flags.testBit 1 = true ∧
      ¬ (flags.testBit 2 = true ∧ flags.testBit 3 = true) := by
  have hall : ∀ f ∈ [pteR ||| pteX ||| pteG, pteR ||| pteG, pteR ||| pteW ||| pteG] ++
      [pteR ||| pteX ||| pteU, pteR ||| pteU, pteR ||| pteW ||| pteU],
      f < 2 ^ 10 ∧ f.testBit 1 = true ∧ ¬ (f.testBit 2 = true ∧ f.testBit 3 = true) := by
    decide
  exact hall flags (List.mem_append.mpr h)

theorem KernelFlags.testBit {flags : Nat} (h : KernelFlags flags) : flags.testBit 4 = false :=
  (by decide : ∀ f ∈ [pteR ||| pteX ||| pteG, pteR ||| pteG, pteR ||| pteW ||| pteG],
    f.testBit 4 = false) flags h

theorem UserFlags.testBit {flags : Nat} (h : UserFlags flags) : flags.testBit 4 = true :=
  (by decide : ∀ f ∈ [pteR ||| pteX ||| pteU, pteR ||| pteU, pteR ||| pteW ||| pteU],
    f.testBit 4 = true) flags h

section Ranges

variable {img : Image} {b : Board} {g : Region}

theorem kernelSections_flags (hg : g ∈ kernelSections img b) : KernelFlags g.flags := by
  simp only [kernelSections, List.mem_append, List.mem_cons, List.not_mem_nil, or_false,
    List.mem_ite_nil_right] at hg
  rcases hg with (((rfl | rfl | rfl | rfl) | ⟨-, rfl⟩) | ⟨-, rfl | rfl⟩) <;> simp [KernelFlags]

theorem kernelSections_paged (hg : g ∈ kernelSections img b) : Paged (g.start, g.stop) := by
  have hal := img.aligned
  have hord := img.ordered
  have hbelow := img.below
  have huart := b.uartAligned
  have huart' := b.uartBelow
  have hplic := b.plicAligned
  have hplic' := b.plicBelow
  simp only [List.mem_cons, List.not_mem_nil, or_false, forall_eq_or_imp, forall_eq, pageSize,
    List.pairwise_cons] at hal hord huart huart' hplic hplic'
  simp only [kernelSections, List.mem_append, List.mem_cons, List.not_mem_nil, or_false,
    List.mem_ite_nil_right] at hg
  rcases hg with (((rfl | rfl | rfl | rfl) | ⟨-, rfl⟩) | ⟨-, rfl | rfl⟩) <;>
    constructor <;> simp only [pageSize] <;> omega

/-- A range mapped for U-mode is one of the task's. -/
structure UserRange (img : Image) (space : Space) (g : Region) : Prop where
  flags : UserFlags g.flags
  own : (g.start, g.stop) ∈ space.userRanges img
  writable (hw : g.flags.testBit 2 = true) : (g.start, g.stop) ∈ space.writableRanges

theorem Space.regions_kind {space : Space} (hg : g ∈ space.regions img b) :
    KernelFlags g.flags ∨ UserRange img space g := by
  have hw : ¬ (pteR ||| pteX ||| pteU).testBit 2 = true := by decide
  have hd : ¬ (pteR ||| pteU).testBit 2 = true := by decide
  cases space with
  | kernel =>
    obtain hg | hg := List.mem_append.mp hg
    · exact .inl (kernelSections_flags hg)
    · obtain rfl := List.mem_singleton.mp hg
      exact .inl (by simp [KernelFlags])
  | user stack device =>
    obtain hg | hg := List.mem_append.mp hg
    · exact .inl (kernelSections_flags hg)
    · simp only [List.mem_cons, List.not_mem_nil, or_false] at hg
      right
      rcases hg with rfl | rfl | rfl
      · exact ⟨by simp [UserFlags], by simp [userRanges], fun h => absurd h hw⟩
      · exact ⟨by simp [UserFlags], by simp [userRanges], fun _ => by simp [writableRanges]⟩
      · exact ⟨by simp [UserFlags], by simp [userRanges], fun h => absurd h hd⟩
  | virtio stack mmio dma =>
    obtain hg | hg := List.mem_append.mp hg
    · exact .inl (kernelSections_flags hg)
    · simp only [List.mem_cons, List.not_mem_nil, or_false] at hg
      right
      rcases hg with rfl | rfl | rfl | rfl
      · exact ⟨by simp [UserFlags], by simp [userRanges], fun h => absurd h hw⟩
      · exact ⟨by simp [UserFlags], by simp [userRanges], fun _ => by simp [writableRanges]⟩
      · exact ⟨by simp [UserFlags], by simp [userRanges], fun _ => by simp [writableRanges]⟩
      · exact ⟨by simp [UserFlags], by simp [userRanges], fun _ => by simp [writableRanges]⟩

theorem Space.userRanges_mapped {space : Space} {r : Nat × Nat} (hr : r ∈ space.userRanges img) :
    ∃ g ∈ space.regions img b, (g.start, g.stop) = r ∧ UserFlags g.flags := by
  cases space with
  | kernel => cases hr
  | user stack device =>
    simp only [userRanges, List.mem_cons, List.not_mem_nil, or_false] at hr
    rcases hr with rfl | rfl | rfl
    · exact ⟨⟨_, _, pteR ||| pteX ||| pteU⟩, by simp [regions], rfl, by simp [UserFlags]⟩
    · exact ⟨⟨_, _, pteR ||| pteW ||| pteU⟩, by simp [regions], rfl, by simp [UserFlags]⟩
    · exact ⟨⟨_, _, pteR ||| pteU⟩, by simp [regions], rfl, by simp [UserFlags]⟩
  | virtio stack mmio dma =>
    simp only [userRanges, List.mem_cons, List.not_mem_nil, or_false] at hr
    rcases hr with rfl | rfl | rfl | rfl
    · exact ⟨⟨_, _, pteR ||| pteX ||| pteU⟩, by simp [regions], rfl, by simp [UserFlags]⟩
    · exact ⟨⟨_, _, pteR ||| pteW ||| pteU⟩, by simp [regions], rfl, by simp [UserFlags]⟩
    · exact ⟨⟨_, _, pteR ||| pteW ||| pteU⟩, by simp [regions], rfl, by simp [UserFlags]⟩
    · exact ⟨⟨_, _, pteR ||| pteW ||| pteU⟩, by simp [regions], rfl, by simp [UserFlags]⟩

def Managed (img : Image) (b : Board) (f : Nat) : Prop :=
  f % pageSize = 0 ∧ img.kernelEnd ≤ f ∧ f + pageSize ≤ b.ramEnd

theorem Space.regions_fit {space : Space} {handed : List Nat} (hram : b.ramEnd % pageSize = 0)
    (hhanded : ∀ f ∈ handed, Managed img b f) (hpassed : space.Passed img b handed)
    (hg : g ∈ space.regions img b) : Mem.Fits g := by
  obtain ⟨hflags, hread, -⟩ : g.flags < 2 ^ 10 ∧ g.flags.testBit 1 = true ∧ _ :=
    flags_sound ((Space.regions_kind hg).imp_right UserRange.flags)
  suffices hpaged : Paged (g.start, g.stop) from
    ⟨hpaged.start, hpaged.stop, hpaged.below, hflags, hread⟩
  have hend : img.kernelEnd % pageSize = 0 := img.aligned _ (by simp)
  have hcode : Paged (img.userTextStart, img.userTextEnd) := by
    have hord := img.ordered
    have hbelow := img.below
    simp only [List.pairwise_cons, List.mem_cons, List.not_mem_nil, or_false, forall_eq_or_imp,
      forall_eq] at hord
    exact ⟨img.aligned _ (by simp), img.aligned _ (by simp), by dsimp only; omega⟩
  cases space with
  | kernel =>
    obtain hg | hg := List.mem_append.mp hg
    · exact kernelSections_paged hg
    · obtain rfl := List.mem_singleton.mp hg
      exact ⟨hend, hram, b.ramBelow⟩
  | user stack device =>
    obtain hg | hg := List.mem_append.mp hg
    · exact kernelSections_paged hg
    · simp only [List.mem_cons, List.not_mem_nil, or_false] at hg
      rcases hg with rfl | rfl | rfl
      · exact hcode
      · exact hpassed.1.toPaged
      · exact hpassed.2
  | virtio stack mmio dma =>
    obtain ⟨hstack, hmmio, f, hf, rfl⟩ := hpassed
    obtain hg | hg := List.mem_append.mp hg
    · exact kernelSections_paged hg
    · simp only [List.mem_cons, List.not_mem_nil, or_false] at hg
      rcases hg with rfl | rfl | rfl | rfl
      · exact hcode
      · exact hstack.toPaged
      · exact hmmio.toPaged
      · obtain ⟨haligned, -, hhigh⟩ := hhanded f hf
        have := b.ramBelow
        exact ⟨haligned, by simp [haligned], Nat.le_trans hhigh this⟩

end Ranges

theorem Mem.Trees.translate_exact {m : Mem} {place : Placement} (h : m.Trees place) {root : Nat}
    (hroot : place root = some (root, [])) {gs : List Region} (hexact : m.Exact root gs)
    (hfits : ∀ g ∈ gs, Mem.Fits g) {va : Nat} {t : Translation} :
    translate m.tables (makeSatp root) va = some t ↔ ∃ g ∈ gs, g.has va ∧
      t = ⟨va, true, g.flags.testBit 2, g.flags.testBit 3, g.flags.testBit 4⟩ := by
  constructor
  · intro ht
    have hcanon : canonical va := by
      rw [translate] at ht
      split at ht
      case isTrue hall => exact hall.2
      case isFalse => cases ht
    rw [h.translate_eq hroot hcanon] at ht
    obtain ⟨pte, hpte, ht⟩ := Option.bind_eq_some_iff.mp ht
    obtain ⟨g, hg, hhas, hleaf⟩ := (hexact (pageKey va) (Nat.mod_lt _ (by decide)) pte).mp hpte
    obtain ⟨-, -, hbelow, hflags, hread⟩ := hfits g hg
    -- A high half address would have a page number past every range.
    have hva : va < 2 ^ 38 := by
      have hlt : pageKey va * 4096 < g.stop := hhas.2
      simp only [canonical, pageKey] at hcanon hlt
      omega
    have hkey : pageKey va = va / 4096 := Nat.mod_eq_of_lt (by omega)
    rw [hkey] at hleaf hhas
    rw [hleaf, leafTranslation_leafPte va (by omega) hflags hread, Nat.div_add_mod'] at ht
    exact ⟨g, hg, ((hfits g hg).has_iff va).mp hhas, (Option.some.inj ht).symm⟩
  · rintro ⟨g, hg, hhas, rfl⟩
    obtain ⟨-, -, hbelow, hflags, hread⟩ := hfits g hg
    have hva : va < 2 ^ 38 := Nat.lt_of_lt_of_le hhas.2 hbelow
    have hkey : pageKey va = va / 4096 := Nat.mod_eq_of_lt (by omega)
    have hpte := (hexact (pageKey va) (Nat.mod_lt _ (by decide)) _).mpr
      ⟨g, hg, by rwa [hkey, (hfits g hg).has_iff], rfl⟩
    rw [h.translate_eq hroot (.inl hva), hpte, Option.bind_some, hkey,
      leafTranslation_leafPte va (by omega) hflags hread, Nat.div_add_mod']

namespace Memory

variable {img : Image} {b : Board} {s s' : Memory} {place : Placement}

/-- The tree of this `satp` was planted, and holds what it was built from. -/
structure Built (img : Image) (b : Board) (s : Memory) (place : Placement) (satp : Nat)
    (space : Space) : Prop where
  root : ∃ root, satp = makeSatp root ∧ place root = some (root, []) ∧
    s.mem.Exact root (space.regions img b)
  passed : space.Passed img b s.handed

/-- The invariant of the builders. -/
structure Orderly (img : Image) (b : Board) (s : Memory) (place : Placement) : Prop where
  trees : s.mem.Trees place
  base : s.mem.allocator.base * frameSize = img.kernelEnd
  count : (s.mem.allocator.base + s.mem.allocator.count) * frameSize = b.ramEnd
  built (x : Nat × Space) (hx : x ∈ s.built) : Built img b s place x.1 x.2
  handed (f : Nat) (hf : f ∈ s.handed) : s.mem.allocator.Allocated f ∧ place f = none

theorem Orderly.managed (h : Orderly img b s place) {f : Nat} (hf : s.mem.allocator.Allocated f) :
    Managed img b f := by
  obtain ⟨i, hi, -, rfl⟩ := hf
  have hbase := h.base
  have hcount := h.count
  simp only [frameSize] at hbase hcount ⊢
  exact ⟨Nat.mul_mod_left .., by omega, by simp only [pageSize]; omega⟩

theorem Orderly.fits (h : Orderly img b s place) {space : Space}
    (hpassed : space.Passed img b s.handed) : ∀ g ∈ space.regions img b, Mem.Fits g := by
  intro g hg
  have hram : b.ramEnd % pageSize = 0 := by
    rw [← h.count]
    exact Nat.mul_mod_left ..
  exact Space.regions_fit hram (fun f hf => h.managed (h.handed f hf).1) hpassed hg

theorem passed_mono {space : Space} {handed handed' : List Nat}
    (h : space.Passed img b handed) (hsub : ∀ f ∈ handed, f ∈ handed') :
    space.Passed img b handed' := by
  cases space with
  | kernel => trivial
  | user stack device => exact h
  | virtio stack mmio dma =>
    obtain ⟨hstack, hmmio, f, hf, hdma⟩ := h
    exact ⟨hstack, hmmio, f, hsub f hf, hdma⟩

theorem Built.keep {place' : Placement} {satp : Nat} {space : Space}
    (h : Built img b s place satp space) (hsub : ∀ f ∈ s.handed, f ∈ s'.handed)
    (hext : Mem.Extends s.mem place s'.mem place')
    (hleaf : ∀ r, place r = some (r, []) → ∀ key < 2 ^ 27,
      s'.mem.leafAt r key = s.mem.leafAt r key) : Built img b s' place' satp space := by
  obtain ⟨⟨root, hsatp, hroot, hexact⟩, hpassed⟩ := h
  refine ⟨⟨root, hsatp, hext.keep hroot, fun key hkey pte => ?_⟩, passed_mono hpassed hsub⟩
  rw [hleaf root hroot key hkey]
  exact hexact key hkey pte

theorem Orderly.handed_keep {place' : Placement} {mem : Mem} (h : Orderly img b s place)
    (hext : Mem.Extends s.mem place mem place') {f : Nat} (hf : f ∈ s.handed) :
    mem.allocator.Allocated f ∧ place' f = none := by
  obtain ⟨halloc, hplace⟩ := h.handed f hf
  refine ⟨hext.alloc halloc, ?_⟩
  cases hnew : place' f with
  | none => rfl
  | some x =>
    obtain hold | hfree := hext.new hnew
    · cases hplace.symm.trans hold
    · exact absurd halloc hfree

theorem Orderly.build (h : Orderly img b s place) {space : Space} {text : String} {satp : Nat}
    {mem : Mem} (hpassed : space.Passed img b s.handed)
    (hrun : s.mem.buildTree text (space.regions img b) = .ok (satp, mem)) :
    ∃ place', Orderly img b { s with mem := mem, built := (satp, space) :: s.built } place' := by
  obtain ⟨place', root, hsatp, -, htrees, hext, hroot, hexact, hleaf⟩ :=
    Mem.buildTree_spec h.trees (h.fits hpassed) hrun
  refine ⟨place', htrees, ?_, ?_, fun x hx => ?_, fun f hf => h.handed_keep hext hf⟩
  · exact hext.base ▸ h.base
  · dsimp only
    rw [hext.base, hext.count]
    exact h.count
  · obtain rfl | hx := List.mem_cons.mp hx
    · exact ⟨⟨root, hsatp, hroot, hexact⟩, hpassed⟩
    · exact (h.built x hx).keep (fun _ hf => hf) hext hleaf

theorem Orderly.hand (h : Orderly img b s place) {f : Nat} {mem : Mem}
    (hrun : s.mem.allocZeroed = .ok (some f, mem)) :
    Orderly img b { s with mem := mem, handed := f :: s.handed } place := by
  obtain ⟨hands, htables⟩ := Mem.allocZeroed_some hrun
  obtain ⟨htrees, hext, hleaf⟩ := h.trees.hand hands htables
  refine ⟨htrees, ?_, ?_, fun x hx => ?_, fun g hg => ?_⟩
  · exact hext.base ▸ h.base
  · dsimp only
    rw [hext.base, hext.count]
    exact h.count
  · exact (h.built x hx).keep (fun _ hf => List.mem_cons_of_mem _ hf) hext
      fun r hr key _ => hleaf r hr key
  · obtain rfl | hg := List.mem_cons.mp hg
    · exact ⟨(hands.allocated _).mpr (.inl rfl), h.trees.free hands.fresh⟩
    · exact h.handed_keep hext hg

theorem allocZeroed_none {m m' : Mem} (h : m.allocZeroed = .ok (none, m')) : m' = m := by
  simp only [Mem.allocZeroed, Except.bind_eq_ok_iff] at h
  obtain ⟨⟨frame, a⟩, ha, h⟩ := h
  cases frame with
  | some f => cases h
  | none =>
    obtain ⟨-, rfl⟩ := Prod.mk.inj (Except.pure_eq_ok_iff.mp h)
    unfold BitmapAllocator.alloc at ha
    split at ha
    case h_1 =>
      obtain ⟨-, rfl⟩ := Prod.mk.inj (Except.ok.inj ha)
      rfl
    case h_2 => split at ha <;> cases ha

theorem step_orderly {op : Op} (h : ∃ place, Orderly img b s place) (hop : s.Passes img b op)
    (hstep : step img b s op = some s') : ∃ place, Orderly img b s' place := by
  obtain ⟨place, h⟩ := h
  have hexec : s.exec img b op = .ok s' := by
    rw [step] at hstep
    cases hx : s.exec img b op with
    | error e => simp [hx, Except.toOption] at hstep
    | ok x => simpa [hx, Except.toOption] using hstep
  cases op with
  | allocZeroed =>
    obtain ⟨⟨frame, mem⟩, halloc, hexec⟩ := Except.bind_eq_ok_iff.mp hexec
    cases frame with
    | none =>
      obtain rfl := Except.pure_eq_ok_iff.mp hexec
      obtain rfl := allocZeroed_none halloc
      exact ⟨place, h⟩
    | some f =>
      obtain rfl := Except.pure_eq_ok_iff.mp hexec
      exact ⟨place, h.hand halloc⟩
  | buildUserSpace stack device =>
    obtain ⟨⟨satp, mem⟩, hbuild, hexec⟩ := Except.bind_eq_ok_iff.mp hexec
    obtain rfl := Except.pure_eq_ok_iff.mp hexec
    exact h.build hop hbuild
  | buildVirtioSpace stack mmio dma =>
    obtain ⟨⟨satp, mem⟩, hbuild, hexec⟩ := Except.bind_eq_ok_iff.mp hexec
    obtain rfl := Except.pure_eq_ok_iff.mp hexec
    exact h.build hop hbuild

theorem init_orderly {ram : Nat → Nat → Nat} (h : init img b ram = .ok s) :
    ∃ place, Orderly img b s place := by
  obtain ⟨a, ha, h⟩ := Except.bind_eq_ok_iff.mp h
  obtain ⟨⟨satp, mem⟩, hbuild, h⟩ := Except.bind_eq_ok_iff.mp h
  obtain rfl := Except.pure_eq_ok_iff.mp h
  obtain ⟨hram, hlt, rfl⟩ : b.ramEnd % frameSize = 0 ∧ img.kernelEnd < b.ramEnd ∧
      a = ⟨fun _ => false, img.kernelEnd / frameSize, (b.ramEnd - img.kernelEnd) / frameSize,
        (b.ramEnd - img.kernelEnd) / frameSize⟩ := by
    unfold BitmapAllocator.init at ha
    dsimp only at ha
    split_ifs at ha with _ hend hlt
    exact ⟨not_not.mp hend, hlt, (Except.ok.inj ha).symm⟩
  have hstart : img.kernelEnd % frameSize = 0 := img.aligned _ (by simp)
  have hbelow := b.ramBelow
  simp only [frameSize] at hram hstart
  -- Before the first tree, no frame is a table.
  have hempty : Orderly img b ⟨⟨ram, ⟨fun _ => false, img.kernelEnd / frameSize,
      (b.ramEnd - img.kernelEnd) / frameSize, (b.ramEnd - img.kernelEnd) / frameSize⟩⟩, [], []⟩
      fun _ => none := by
    refine ⟨⟨⟨nofun, nofun, nofun, nofun⟩, nofun, ?_⟩, ?_, ?_, nofun, nofun⟩
    · simp only [frameSize]
      omega
    · simp only [frameSize]
      omega
    · simp only [frameSize]
      omega
  exact hempty.build trivial hbuild

theorem Orderly.isTable (h : Orderly img b s place) {f : Nat} (hf : s.IsTable f) :
    ∃ x, place f = some x := by
  obtain ⟨x, hx, p, hp, hd⟩ := hf
  obtain ⟨root, hsatp, hroot, -⟩ := (h.built x hx).root
  obtain ⟨q, hq, rfl⟩ := h.trees.frame hroot
  rw [hsatp, makeSatp_mod hq] at hd
  exact ⟨_, (h.trees.forest.descend_eq_some h.trees.reads hroot hp).mp hd⟩

theorem Orderly.apart (h : Orderly img b s place) {space : Space}
    (hpassed : space.Passed img b s.handed) {r : Nat × Nat} (hr : r ∈ space.writableRanges)
    {va : Nat} (hva : within r va) :
    ¬ s.IsTable (va / pageSize * pageSize) ∧ ¬ within (img.textStart, img.userDataStart) va := by
  have hord := img.ordered
  simp only [List.pairwise_cons, List.mem_cons, List.not_mem_nil, or_false, forall_eq_or_imp,
    forall_eq] at hord
  have hmanaged (ht : s.IsTable (va / pageSize * pageSize)) :
      Managed img b (va / pageSize * pageSize) := by
    obtain ⟨x, hx⟩ := h.isTable ht
    exact h.managed (h.trees.allocated hx)
  have hstack {stack : Nat × Nat} (hs : OwnStack img stack) (hva : within stack va) :
      ¬ s.IsTable (va / pageSize * pageSize) ∧
        ¬ within (img.textStart, img.userDataStart) va := by
    have hlow := hs.low
    have hhigh := hs.high
    refine ⟨fun ht => ?_, ?_⟩
    · obtain ⟨-, hkernel, -⟩ := hmanaged ht
      simp only [within, pageSize] at *
      omega
    · simp only [within] at *
      omega
  cases space with
  | kernel => cases hr
  | user stack device =>
    obtain rfl := List.mem_singleton.mp hr
    exact hstack hpassed.1 hva
  | virtio stack mmio dma =>
    obtain ⟨hs, hmmio, f, hf, rfl⟩ := hpassed
    simp only [Space.writableRanges, List.mem_cons, List.not_mem_nil, or_false] at hr
    rcases hr with rfl | rfl | rfl
    · exact hstack hs hva
    · have hout := hmmio.outside va hva
      refine ⟨fun ht => hout ?_, fun hin => hout ?_⟩
      · obtain ⟨-, hkernel, hram⟩ := hmanaged ht
        simp only [within, pageSize] at *
        omega
      · have hram : img.kernelEnd ≤ b.ramEnd := by
          rw [← h.base, ← h.count]
          exact Nat.mul_le_mul_right _ (Nat.le_add_right ..)
        simp only [within] at *
        omega
    · -- The DMA page was handed out, so it is no table; and it is managed RAM.
      obtain ⟨halloc, hplace⟩ := h.handed f hf
      obtain ⟨haligned, hkernel, -⟩ := h.managed halloc
      have hpage : va / pageSize * pageSize = f := by
        simp only [within, pageSize] at *
        omega
      refine ⟨fun ht => ?_, ?_⟩
      · obtain ⟨x, hx⟩ := h.isTable ht
        rw [hpage, hplace] at hx
        cases hx
      · simp only [within, pageSize] at *
        omega

theorem Orderly.confines (h : Orderly img b s place) {satp : Nat} {space : Space}
    (hbuilt : (satp, space) ∈ s.built) : Confines img b s satp space := by
  obtain ⟨⟨root, hsatp, hroot, hexact⟩, hpassed⟩ := h.built _ hbuilt
  dsimp only at hsatp hexact hpassed
  subst hsatp
  have hfits := h.fits hpassed
  have hwalk {va : Nat} {t : Translation} :
      translate s.mem.tables (makeSatp root) va = some t ↔ ∃ g ∈ space.regions img b, g.has va ∧
        t = ⟨va, true, g.flags.testBit 2, g.flags.testBit 3, g.flags.testBit 4⟩ :=
    h.trees.translate_exact hroot hexact hfits
  -- A U-mode translation comes from one of the task's ranges.
  have huser {va : Nat} {t : Translation}
      (ht : translate s.mem.tables (makeSatp root) va = some t) (hu : t.u = true) :
      ∃ g, UserRange img space g ∧ g.has va ∧ t.w = g.flags.testBit 2 := by
    obtain ⟨g, hg, hhas, rfl⟩ := hwalk.mp ht
    obtain hkernel | hrange := Space.regions_kind hg
    · cases hkernel.testBit.symm.trans hu
    · exact ⟨g, hrange, hhas, rfl⟩
  have hwrite {va : Nat} {t : Translation}
      (ht : translate s.mem.tables (makeSatp root) va = some t) (hu : t.u = true)
      (hw : t.w = true) : ∃ r ∈ space.writableRanges, within r va := by
    obtain ⟨g, hrange, hhas, hbit⟩ := huser ht hu
    exact ⟨_, hrange.writable (hbit ▸ hw), hhas⟩
  refine ⟨fun va => ?_, fun ht => ?_, fun {va t} ht => ⟨fun hu => ?_, ?_⟩, fun ht => ?_, hwrite,
    fun ht hu hw => ?_⟩
  · constructor
    · rintro ⟨t, ht⟩
      obtain ⟨g, hg, hhas, -⟩ := hwalk.mp ht
      exact ⟨g, hg, hhas⟩
    · rintro ⟨g, hg, hhas⟩
      exact ⟨_, hwalk.mpr ⟨g, hg, hhas, rfl⟩⟩
  · obtain ⟨g, hg, hhas, rfl⟩ := hwalk.mp ht
    rfl
  · obtain ⟨g, hrange, hhas, -⟩ := huser ht hu
    exact ⟨_, hrange.own, hhas⟩
  · -- The walk has one result, so the user range decides the bit.
    rintro ⟨r, hr, hva⟩
    obtain ⟨g, hg, rfl, hflags⟩ := Space.userRanges_mapped (b := b) hr
    have ht' := hwalk.mpr ⟨g, hg, hva, rfl⟩
    rw [← Option.some.inj (ht'.symm.trans ht)]
    exact hflags.testBit
  · obtain ⟨g, hg, -, rfl⟩ := hwalk.mp ht
    exact (flags_sound ((Space.regions_kind hg).imp_right UserRange.flags)).2.2
  · obtain ⟨r, hr, hva⟩ := hwrite ht hu hw
    exact h.apart hpassed hr hva

/-- Isolation and W^X. -/
theorem address_spaces_isolated {ram : Nat → Nat → Nat} {s₀ : Memory} {ops : List Op}
    (hinit : init img b ram = .ok s₀)
    (hpassed : Transition.StepsMeet (step img b) (Passes img b) s₀ ops)
    (hrun : Transition.run (step img b) s₀ ops = some s) {satp : Nat} {space : Space}
    (hbuilt : (satp, space) ∈ s.built) : Confines img b s satp space := by
  obtain ⟨place, h⟩ := Transition.invariant_run (fun _ _ _ h hop hstep => step_orderly h hop hstep)
    (init_orderly hinit) hpassed hrun
  exact h.confines hbuilt

/-- One page for each section of the image, two stacks, ten frames of RAM. -/
def smallImage : Image where
  textStart := 0x1000
  textEnd := 0x2000
  rodataStart := 0x2000
  rodataEnd := 0x3000
  dataStart := 0x3000
  dataEnd := 0x4000
  stackStart := 0x5000
  stackTop := 0x6000
  userTextStart := 0x6000
  userTextEnd := 0x7000
  userDataStart := 0x7000
  userDataEnd := 0x9000
  kernelEnd := 0x9000
  aligned := by decide
  ordered := by decide
  below := by decide

def smallBoard : Board where
  ramEnd := 0x13000
  uartBase := 0x20000
  plicBase := 0
  ramBelow := by decide
  uartAligned := by decide
  uartBelow := by decide
  plicAligned := by decide
  plicBelow := by decide

def smallOps : List Op :=
  [.allocZeroed, .buildUserSpace (0x7000, 0x8000) (0x22000, 0x23000),
    .buildVirtioSpace (0x8000, 0x9000) (0x21000, 0x22000) (0xc000, 0xd000)]

theorem address_spaces_isolated_small : ∃ s₀ s, init smallImage smallBoard (fun _ _ => 0) = .ok s₀ ∧
    Transition.run (step smallImage smallBoard) s₀ smallOps = some s ∧ s.built.length = 3 ∧
    ∀ x ∈ s.built, Confines smallImage smallBoard s x.1 x.2 := by
  have hcheck : (init smallImage smallBoard fun _ _ => 0).toOption.any (fun s₀ =>
      decide (Transition.StepsMeet (step smallImage smallBoard) (Passes smallImage smallBoard)
        s₀ smallOps) &&
      (Transition.run (step smallImage smallBoard) s₀ smallOps).any (·.built.length == 3)) := by
    decide +kernel
  cases hinit : init smallImage smallBoard fun _ _ => 0 with
  | error e => simp [hinit, Except.toOption] at hcheck
  | ok s₀ =>
    simp only [hinit, Except.toOption, Option.any_some, Bool.and_eq_true, decide_eq_true_eq,
      Option.any_eq_true_iff_get] at hcheck
    obtain ⟨hpassed, hsome, hlen⟩ := hcheck
    refine ⟨s₀, _, rfl, (Option.some_get hsome).symm, by simpa using hlen, fun x hx => ?_⟩
    exact address_spaces_isolated hinit hpassed (Option.some_get hsome).symm hx

end Memory

end Perenne

import Perenne.AddressSpaces
import Perenne.Syscall

namespace Perenne

/-- The ranges of `.user_data` that the address space maps for its task: the stack, and the
page passed as its device. -/
def Space.ownData : Space → List (Nat × Nat)
  | .kernel => []
  | .user stack device => [stack, device]
  | .virtio stack _ _ => [stack]

namespace Memory

variable {img : Image} {b : Board} {s : Memory} {place : Placement} {satp : Nat} {space : Space}

/-- The kernel's bounds of `.user_data`, and the pages of the trees. -/
def platform (img : Image) (s : Memory) : Platform where
  userTrampoline := 0
  taskTrampoline := 0
  kernelSatp := 0
  userDataLo := img.userDataStart
  userDataHi := img.userDataEnd
  page := fun satp va => (translate s.mem.tables satp va).map fun t => ⟨t.r, t.w, t.x, t.u⟩
  parcel := fun _ => 0

def UserReadable (s : Memory) (satp va : Nat) : Prop :=
  ∃ t, translate s.mem.tables satp va = some t ∧ t.r = true ∧ t.u = true

/-- `print` of an accepted buffer reads what the task may read itself, and returns; of a
refused one it reads nothing, whatever is mapped. -/
structure PrintsOwn (img : Image) (s : Memory) (satp ptr len : Nat) : Prop where
  reads (h : validateUserBuffer img.userDataStart img.userDataEnd ptr len = true) (i : Nat)
    (hi : i < min len printMax) : s.UserReadable satp (ptr + i)
  returns (h : validateUserBuffer img.userDataStart img.userDataEnd ptr len = true) :
    sysPrint (s.platform img) satp ptr len = .ok (min len printMax)
  refused (h : validateUserBuffer img.userDataStart img.userDataEnd ptr len = false)
    (page : Nat → Nat → Option PageFlags) :
    sysPrint { s.platform img with page } satp ptr len = .ok usizeMax

theorem Orderly.userReadable_iff (h : Orderly img b s place) (hbuilt : (satp, space) ∈ s.built)
    (va : Nat) : s.UserReadable satp va ↔ ∃ g ∈ space.userRanges img, within g va := by
  obtain ⟨⟨root, hsatp, hroot, hexact⟩, hpassed⟩ := h.built _ hbuilt
  dsimp only at hsatp hexact hpassed
  subst hsatp
  have hwalk {t : Translation} :
      translate s.mem.tables (makeSatp root) va = some t ↔ ∃ g ∈ space.regions img b, g.has va ∧
        t = ⟨va, true, g.flags.testBit 2, g.flags.testBit 3, g.flags.testBit 4⟩ :=
    h.trees.translate_exact hroot hexact (h.fits hpassed)
  constructor
  · rintro ⟨t, ht, -, hu⟩
    obtain ⟨g, hg, hhas, rfl⟩ := hwalk.mp ht
    obtain hkernel | hrange := Space.regions_kind hg
    · cases hkernel.testBit.symm.trans hu
    · exact ⟨_, hrange.own, hhas⟩
  · rintro ⟨r, hr, hva⟩
    obtain ⟨g, hg, rfl, hflags⟩ := Space.userRanges_mapped (b := b) hr
    exact ⟨_, hwalk.mpr ⟨g, hg, hva, rfl⟩, rfl, hflags.testBit⟩

theorem Orderly.userRanges_ownData (h : Orderly img b s place) (hbuilt : (satp, space) ∈ s.built)
    {va : Nat} (hva : within (img.userDataStart, img.userDataEnd) va) :
    (∃ g ∈ space.userRanges img, within g va) ↔ ∃ g ∈ space.ownData, within g va := by
  have hordered := img.ordered
  simp only [List.pairwise_cons, List.mem_cons, forall_eq_or_imp] at hordered
  have htext : ¬ within (img.userTextStart, img.userTextEnd) va := by
    simp only [within] at hva ⊢
    omega
  obtain ⟨-, hpassed⟩ := h.built _ hbuilt
  cases space with
  | kernel => rfl
  | user stack device =>
    simp only [Space.userRanges, Space.ownData, List.mem_cons, List.not_mem_nil, or_false,
      exists_eq_or_imp, exists_eq_left, htext, false_or]
  | virtio stack mmio dma =>
    obtain ⟨-, hmmio, f, hf, rfl⟩ := hpassed
    -- Device registers and DMA frames lie outside the image.
    have hmanaged := h.managed (h.handed f hf).1
    have hdma : ¬ within (f, f + pageSize) va := by
      obtain ⟨-, hlow, -⟩ := hmanaged
      simp only [within] at hva ⊢
      omega
    have hregs : ¬ within mmio va := by
      intro hin
      have hout := hmmio.outside va hin
      have hbase := h.base
      have hcount := h.count
      simp only [within, frameSize] at hva hout hbase hcount
      omega
    simp only [Space.userRanges, Space.ownData, List.mem_cons, List.not_mem_nil, or_false,
      exists_eq_or_imp, exists_eq_left, htext, hregs, hdma, false_or]

theorem within_userData {ptr len i : Nat}
    (h : validateUserBuffer img.userDataStart img.userDataEnd ptr len = true)
    (hi : i < min len printMax) : within (img.userDataStart, img.userDataEnd) (ptr + i) := by
  simp only [validateUserBuffer, Bool.and_eq_true, decide_eq_true_eq] at h
  simp only [within]
  omega

theorem sysPrint_returns {ptr len : Nat}
    (h : validateUserBuffer img.userDataStart img.userDataEnd ptr len = true)
    (hreads : ∀ i < min len printMax, s.UserReadable satp (ptr + i)) :
    sysPrint (s.platform img) satp ptr len = .ok (min len printMax) := by
  have hall : ((List.range (min len printMax)).all fun i =>
      (s.platform img).loads satp true (ptr + i)) = true := by
    rw [List.all_eq_true]
    intro i hi
    obtain ⟨t, ht, hr, -⟩ := hreads i (List.mem_range.mp hi)
    simp only [Platform.loads, platform, ht, Option.map_some, Option.any_some, hr, Bool.or_true,
      Bool.and_self]
  have hguard : (!validateUserBuffer (s.platform img).userDataLo (s.platform img).userDataHi ptr len)
      = false := by
    rw [Bool.not_eq_false']
    exact h
  rw [sysPrint, hguard]
  simp only [Bool.false_eq_true, if_false, hall, if_true]

/-- Whatever spaces were built, `print` reads the caller's own memory exactly if it refuses
the buffer, or the bytes it copies lie in the stack or the data page the caller's space was
built from. -/
theorem print_reads_own {ram : Nat → Nat → Nat} {s₀ : Memory} {ops : List Op}
    (hinit : init img b ram = .ok s₀)
    (hpassed : Transition.StepsMeet (step img b) (Passes img b) s₀ ops)
    (hrun : Transition.run (step img b) s₀ ops = some s)
    (hbuilt : (satp, space) ∈ s.built) (ptr len : Nat) :
    PrintsOwn img s satp ptr len ↔
      (validateUserBuffer img.userDataStart img.userDataEnd ptr len = true →
        ∀ i < min len printMax, ∃ g ∈ space.ownData, within g (ptr + i)) := by
  obtain ⟨place, h⟩ := Transition.invariant_run (fun _ _ _ h hop hstep => step_orderly h hop hstep)
    (init_orderly hinit) hpassed hrun
  have hbyte (hok : validateUserBuffer img.userDataStart img.userDataEnd ptr len = true) (i : Nat)
      (hi : i < min len printMax) :
      s.UserReadable satp (ptr + i) ↔ ∃ g ∈ space.ownData, within g (ptr + i) := by
    rw [h.userReadable_iff hbuilt, h.userRanges_ownData hbuilt (within_userData hok hi)]
  constructor
  · intro hprints hok i hi
    exact (hbyte hok i hi).mp (hprints.reads hok i hi)
  · intro hown
    have hreads (hok : validateUserBuffer img.userDataStart img.userDataEnd ptr len = true)
        (i : Nat) (hi : i < min len printMax) : s.UserReadable satp (ptr + i) :=
      (hbyte hok i hi).mpr (hown hok i hi)
    refine ⟨hreads, fun hok => sysPrint_returns hok (hreads hok), fun hno page => ?_⟩
    simp only [sysPrint, platform, hno, Bool.not_false, if_true]

/-- The first task prints from its own stack. -/
theorem print_reads_own_small : ∃ s₀ s satp, init smallImage smallBoard (fun _ _ => 0) = .ok s₀ ∧
    Transition.run (step smallImage smallBoard) s₀ smallOps = some s ∧
    (satp, .user (0x7000, 0x8000) (0x22000, 0x23000)) ∈ s.built ∧
    PrintsOwn smallImage s satp 0x7ff0 16 := by
  have hcheck : (init smallImage smallBoard fun _ _ => 0).toOption.any (fun s₀ =>
      decide (Transition.StepsMeet (step smallImage smallBoard) (Passes smallImage smallBoard)
        s₀ smallOps) &&
      (Transition.run (step smallImage smallBoard) s₀ smallOps).any fun s =>
        (s.built[1]?.map Prod.snd) == some (.user (0x7000, 0x8000) (0x22000, 0x23000))) := by
    decide +kernel
  simp only [Option.any_eq_true, Bool.and_eq_true, decide_eq_true_eq, beq_iff_eq] at hcheck
  obtain ⟨s₀, hinit, hpassed, s, hrun, hsecond⟩ := hcheck
  obtain ⟨⟨satp, space⟩, hx, rfl⟩ := Option.map_eq_some_iff.mp hsecond
  have hinit := Except.toOption_eq_some_iff.mp hinit
  have hbuilt := List.mem_of_getElem? hx
  exact ⟨s₀, s, satp, hinit, hrun, hbuilt,
    (print_reads_own hinit hpassed hrun hbuilt 0x7ff0 16).mpr (by decide)⟩

/-- The first task asks to print the stack of the second: the guard accepts, and the kernel
faults on the first byte. -/
theorem print_faults : ∃ s₀ s satp, init smallImage smallBoard (fun _ _ => 0) = .ok s₀ ∧
    Transition.StepsMeet (step smallImage smallBoard) (Passes smallImage smallBoard) s₀ smallOps ∧
    Transition.run (step smallImage smallBoard) s₀ smallOps = some s ∧
    (satp, .user (0x7000, 0x8000) (0x22000, 0x23000)) ∈ s.built ∧
    validateUserBuffer smallImage.userDataStart smallImage.userDataEnd 0x8000 1 = true ∧
    translate s.mem.tables satp 0x8000 = none ∧
    sysPrint (s.platform smallImage) satp 0x8000 1 = .error (.fatal "load page fault") := by
  have hcheck : (init smallImage smallBoard fun _ _ => 0).toOption.any (fun s₀ =>
      decide (Transition.StepsMeet (step smallImage smallBoard) (Passes smallImage smallBoard)
        s₀ smallOps) &&
      (Transition.run (step smallImage smallBoard) s₀ smallOps).any fun s =>
        s.built[1]?.any fun x => x.2 == .user (0x7000, 0x8000) (0x22000, 0x23000) &&
          translate s.mem.tables x.1 0x8000 == none &&
          (sysPrint (s.platform smallImage) x.1 0x8000 1).stopsWith (.fatal "load page fault")) := by
    decide +kernel
  simp only [Option.any_eq_true, Bool.and_eq_true, decide_eq_true_eq, beq_iff_eq,
    Except.stopsWith_iff] at hcheck
  obtain ⟨s₀, hinit, hpassed, s, hrun, ⟨satp, space⟩, hx, ⟨rfl, hnone⟩, hfault⟩ := hcheck
  exact ⟨s₀, s, satp, Except.toOption_eq_some_iff.mp hinit, hpassed, hrun, List.mem_of_getElem? hx,
    by decide, hnone, hfault⟩

end Memory

end Perenne

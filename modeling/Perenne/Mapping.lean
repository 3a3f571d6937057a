import Perenne.Walk
import Perenne.Lib.Transition
import Mathlib.Data.Finset.Card

namespace Perenne

namespace BitmapAllocator

/-- The counter is the number of clear bits. -/
def Counted (a : BitmapAllocator) : Prop :=
  a.free = ((Finset.range a.count).filter fun i => a.bitmap i = false).card

variable {a a' : BitmapAllocator}

theorem Counted.alloc_none (h : a.Counted) (hfree : a.free = 0) : a.alloc = .ok (none, a) := by
  have hfind : (List.range a.count).find? (fun i => !a.bitmap i) = none := by
    apply List.find?_eq_none.mpr
    intro i hi
    have hempty := Finset.card_eq_zero.mp (h.symm.trans hfree)
    have hnot := Finset.filter_eq_empty_iff.mp hempty
      (Finset.mem_range.mpr (List.mem_range.mp hi))
    simpa using hnot
  rw [alloc, hfind]

theorem Counted.alloc_some (h : a.Counted) (hfree : 0 < a.free) :
    ∃ f a', a.alloc = .ok (some f, a') ∧ a'.Counted ∧ a'.free + 1 = a.free := by
  obtain ⟨k, hk⟩ := Finset.card_pos.mp (h ▸ hfree)
  obtain ⟨hlt, hclear⟩ := Finset.mem_filter.mp hk
  have hsome : ((List.range a.count).find? fun i => !a.bitmap i).isSome := by
    rw [List.find?_isSome]
    exact ⟨k, List.mem_range.mpr (Finset.mem_range.mp hlt), by simp [hclear]⟩
  obtain ⟨i, hi⟩ := Option.isSome_iff_exists.mp hsome
  have hmem : i ∈ (Finset.range a.count).filter fun i => a.bitmap i = false :=
    Finset.mem_filter.mpr ⟨Finset.mem_range.mpr (List.mem_range.mp (List.mem_of_find?_eq_some hi)),
      by simpa using List.find?_some hi⟩
  refine ⟨(a.base + i) * frameSize,
    { a with bitmap := Function.update a.bitmap i true, free := a.free - 1 }, ?_, ?_, ?_⟩
  · rw [alloc, hi]
    dsimp only
    rw [if_neg (Nat.pos_iff_ne_zero.mp hfree)]
  · have herase : ((Finset.range a.count).filter fun j => Function.update a.bitmap i true j = false) =
        ((Finset.range a.count).filter fun j => a.bitmap j = false).erase i := by
      ext j
      rw [Finset.mem_erase, Finset.mem_filter, Finset.mem_filter]
      by_cases hj : j = i
      · simp [hj]
      · simp [hj]
    rw [Counted, herase, Finset.card_erase_of_mem hmem, ← h]
  · dsimp only
    omega

theorem Counted.alloc (h : a.Counted) {f : Option Nat} (hrun : a.alloc = .ok (f, a')) :
    a'.Counted := by
  by_cases hfree : a.free = 0
  · rw [h.alloc_none hfree] at hrun
    obtain ⟨-, rfl⟩ := Prod.mk.inj (Except.ok.inj hrun)
    exact h
  · obtain ⟨f', a'', hrun', hcounted, -⟩ := h.alloc_some (Nat.pos_of_ne_zero hfree)
    rw [hrun'] at hrun
    obtain ⟨-, rfl⟩ := Prod.mk.inj (Except.ok.inj hrun)
    exact hcounted

theorem init_counted {startAddr endAddr : Nat} (h : new.init startAddr endAddr = .ok a) :
    a.Counted := by
  simp only [init, Except.ite_error_eq_ok_iff, not_not] at h
  obtain ⟨-, -, -, -, h⟩ := h
  obtain rfl := Except.ok.inj h
  simp [Counted, new]

end BitmapAllocator

namespace Mem

variable {m m₁ m' : Mem} {place : Placement}

theorem expectFrame_none {text : String} (h : m.allocator.Counted) (hfree : m.allocator.free = 0) :
    m.expectFrame text = .error (.expect text) := by
  rw [expectFrame, allocZeroed, h.alloc_none hfree]
  rfl

theorem expectFrame_some (text : String) (h : m.allocator.Counted)
    (hfree : 0 < m.allocator.free) :
    ∃ f m', m.expectFrame text = .ok (f, m') ∧ m'.allocator.Counted ∧
      m'.allocator.free + 1 = m.allocator.free := by
  obtain ⟨f, a', halloc, hcounted, hless⟩ := h.alloc_some hfree
  refine ⟨f, ⟨Function.update m.tables f fun _ => 0, a'⟩, ?_, hcounted, hless⟩
  rw [expectFrame, allocZeroed, halloc]
  rfl

/-- The number of tables `map_page` has to add on the way to the leaf table. -/
def missing (tables : Nat → Nat → Nat) (va : Nat) : (table : Nat) → List Nat → Nat
  | _, [] => 0
  | table, level :: levels =>
    if pteIsValid (tables table (vpn va level)) then
      missing tables va (pteToPa (tables table (vpn va level))) levels
    else levels.length + 1

theorem missing_of_empty {tables : Nat → Nat → Nat} {va table : Nat} (levels : List Nat)
    (h : ∀ i, tables table i = 0) : missing tables va table levels = levels.length := by
  cases levels with
  | nil => rfl
  | cons level levels =>
    rw [missing, h, if_neg (by decide)]
    rfl

theorem leafTable_returns (va : Nat) (levels : List Nat) {root : Nat} {p : List Nat} {table : Nat}
    (h : m.Trees place) (hcounted : m.allocator.Counted) (hroot : place root = some (root, []))
    (ht : place table = some (root, p)) (hlen : p.length + levels.length = 2) :
    if missing m.tables va table levels ≤ m.allocator.free then
      ∃ t' m', m.leafTable va table levels = .ok (t', m') ∧ m'.allocator.Counted
    else m.leafTable va table levels = .error (.expect "out of frames for page table") := by
  induction levels generalizing m place table p with
  | nil =>
    rw [missing, if_pos (Nat.zero_le _)]
    exact ⟨table, m, rfl, hcounted⟩
  | cons level levels ih =>
    rw [List.length_cons] at hlen
    rw [missing, leafTable]
    obtain hzero | ⟨c, hptr, hc⟩ := h.forest.inner ht (by omega) (vpn va level)
    · -- An empty entry: one frame is taken here, and one for each level below.
      have hinvalid : ¬ pteIsValid 0 = true := by decide
      rw [hzero, if_neg hinvalid, if_neg hinvalid]
      by_cases hfree : m.allocator.free = 0
      · rw [if_neg (by omega), expectFrame_none hcounted hfree]
        rfl
      · obtain ⟨f, m₁, hframe, hcounted₁, hless⟩ :=
          expectFrame_some "out of frames for page table" hcounted (Nat.pos_of_ne_zero hfree)
        obtain ⟨hands, htables⟩ := expectFrame_ok hframe
        obtain ⟨place₁, h₁, hext, hf, -⟩ := h.attach hands htables hroot ht (by omega) hzero
        have hft : f ≠ table := by
          rintro rfl
          exact hands.fresh (h.allocated ht)
        have hempty (i : Nat) : (m₁.setEntry table (vpn va level) (pteFor f 0)).tables f i = 0 := by
          change Radix.write m₁.tables table (vpn va level) (pteFor f 0) f i = 0
          rw [htables, Radix.write_of_ne _ _ hft, Function.update_self]
        have hrest := ih h₁ hcounted₁ (hext.keep hroot) hf (by simp; omega)
        rw [missing_of_empty levels hempty] at hrest
        rw [hframe]
        by_cases hmany : levels.length + 1 ≤ m.allocator.free
        · rw [if_pos hmany]
          rw [if_pos (by change levels.length ≤ m₁.allocator.free; omega)] at hrest
          exact hrest
        · rw [if_neg hmany]
          rw [if_neg (by change ¬ levels.length ≤ m₁.allocator.free; omega)] at hrest
          exact hrest
    · -- A table that is there.
      have hnext := h.reads.ptr hc
      rw [nextTable] at hnext
      split at hnext
      case isFalse => cases hnext
      case isTrue hvalid =>
        rw [hptr, if_pos hvalid, if_pos hvalid, Option.some.inj hnext]
        exact ih h hcounted hroot hc (by simp; omega)

end Mem

/-- The walk of `walk`, with the ten flag bits of the entry it ends at. -/
def pageWalk (tables : Nat → Nat → Nat) (va : Nat) : (level table : Nat) → Option (Nat × Nat)
  | level, table =>
    let pte := tables table (va / 2 ^ (12 + 9 * level) % 512)
    let ppn := pte / 2 ^ 10
    let size := 2 ^ (12 + 9 * level)
    if !pte.testBit 0 || !pte.testBit 1 && pte.testBit 2 || decide (2 ^ 54 ≤ pte) then none
    else if pte.testBit 1 || pte.testBit 3 then
      if pte.testBit 6 && ppn * 4096 % size == 0 then
        some (ppn * 4096 + va % size, pte % 2 ^ 10)
      else none
    else if pte.testBit 4 || pte.testBit 6 || pte.testBit 7 then none
    else match level with
      | 0 => none
      | level + 1 => pageWalk tables va level (ppn * 4096)

/-- Where `va` translates to in the tree at `root`, with the flags of its page. -/
def Mem.lookup (m : Mem) (root va : Nat) : Option (Nat × Nat) :=
  if canonical va then pageWalk m.tables va 2 root else none

/-- A translation from an address and flags. -/
def Translation.of (x : Nat × Nat) : Translation :=
  ⟨x.1, x.2.testBit 1, x.2.testBit 2, x.2.testBit 3, x.2.testBit 4⟩

theorem Translation.of_flags (pa pte : Nat) : Translation.of (pa, pte % 2 ^ 10) =
    ⟨pa, pte.testBit 1, pte.testBit 2, pte.testBit 3, pte.testBit 4⟩ := by
  simp only [of, Nat.testBit_mod_two_pow]
  rfl

theorem walk_eq_pageWalk (tables : Nat → Nat → Nat) (va level table : Nat) :
    walk tables va level table = (pageWalk tables va level table).map .of := by
  induction level generalizing table with
  | zero =>
    rw [walk, pageWalk]
    split
    · rfl
    · split
      · split
        · rw [Option.map_some, Translation.of_flags]
        · rfl
      · split <;> rfl
  | succ level ih =>
    rw [walk, pageWalk]
    split
    · rfl
    · split
      · split
        · rw [Option.map_some, Translation.of_flags]
        · rfl
      · split
        · rfl
        · exact ih _

/-- What the walk makes of an entry of a leaf table. -/
def leafLookup (va pte : Nat) : Option (Nat × Nat) := pageWalk (fun _ _ => pte) va 0 0

theorem pageWalk_zero (tables : Nat → Nat → Nat) (va table : Nat) :
    pageWalk tables va 0 table = if pteIsValid (tables table (vpn va 0)) then
      leafLookup va (tables table (vpn va 0)) else none := by
  rw [leafLookup, pageWalk, pageWalk, vpn_eq, pteIsValid_eq]
  cases (tables table (va / 2 ^ (12 + 9 * 0) % 512)).testBit 0
  · rfl
  · rfl

section Inner

variable {tables : Nat → Nat → Nat} {va level table : Nat}

theorem pageWalk_succ_zero (h : tables table (vpn va (level + 1)) = 0) :
    pageWalk tables va (level + 1) table = none := by
  rw [vpn_eq] at h
  rw [pageWalk]
  rw [h, Nat.zero_testBit]
  rfl

theorem pageWalk_succ_ptr {q : Nat} (hq : q < 2 ^ 44)
    (h : tables table (vpn va (level + 1)) = pteFor (q * 4096) 0) :
    pageWalk tables va (level + 1) table = pageWalk tables va level (q * 4096) := by
  rw [vpn_eq] at h
  have hflags : (0 : Nat) < 2 ^ 10 := by decide
  have hbits {i : Nat} (hi : i < 10) :
      (pteFor (q * 4096) 0).testBit i = (i == 0) := by
    rw [testBit_pteFor hflags hi, Nat.zero_testBit, Bool.false_or]
  have hlt : ¬ 2 ^ 54 ≤ pteFor (q * 4096) 0 := Nat.not_le.mpr (pteFor_lt hflags hq)
  rw [pageWalk]
  rw [h, hbits (i := 0) (by decide), hbits (i := 1) (by decide), hbits (i := 2) (by decide),
    hbits (i := 3) (by decide), hbits (i := 4) (by decide), hbits (i := 6) (by decide),
    hbits (i := 7) (by decide), pteFor_div hflags, decide_eq_false hlt]
  rfl

end Inner

/-- Flags within the low ten bits that make a leaf: readable or executable, and writable only
if readable. -/
structure LeafFlags (flags : Nat) : Prop where
  low : flags < 2 ^ 10
  leaf : flags.testBit 1 = true ∨ flags.testBit 3 = true
  write (h : flags.testBit 2 = true) : flags.testBit 1 = true

instance (flags : Nat) : Decidable (LeafFlags flags) :=
  decidable_of_iff (flags < 2 ^ 10 ∧ (flags.testBit 1 = true ∨ flags.testBit 3 = true) ∧
    (flags.testBit 2 = true → flags.testBit 1 = true))
    ⟨fun h => ⟨h.1, h.2.1, h.2.2⟩, fun h => ⟨h.low, h.leaf, h.write⟩⟩

/-- The flags of a page mapped with `flags`: `V`, `A` and, if it is writable, `D` are added. -/
def mappedFlags (flags : Nat) : Nat :=
  flags ||| pteA ||| (if flags &&& pteW ≠ 0 then pteD else 0) ||| pteV

theorem leafLookup_leafPte (va : Nat) {q flags : Nat} (hq : q < 2 ^ 44) (hf : LeafFlags flags) :
    leafLookup va (Mem.leafPte (q * 4096) flags) =
      some (q * 4096 + va % 4096, mappedFlags flags) := by
  have hbits {i : Nat} (hi : i < 6) (hi0 : 0 < i) :
      (Mem.leafPte (q * 4096) flags).testBit i = flags.testBit i := leafPte_testBit hf.low hi hi0
  have hlt : ¬ 2 ^ 54 ≤ Mem.leafPte (q * 4096) flags := Nat.not_le.mpr (leafPte_lt hf.low hq)
  have hmod : q * 4096 % 2 ^ (12 + 9 * 0) = 0 := Nat.mul_mod_left ..
  have hwrite : (!flags.testBit 1 && flags.testBit 2) = false := by
    cases h2 : flags.testBit 2 with
    | false => exact Bool.and_false _
    | true => rw [hf.write h2]; rfl
  have hleaf : (flags.testBit 1 || flags.testBit 3) = true := Bool.or_eq_true_iff.mpr hf.leaf
  have hlow : Mem.leafPte (q * 4096) flags % 2 ^ 10 = mappedFlags flags := by
    have hall : mappedFlags flags < 2 ^ 10 := Nat.or_lt_two_pow (leafFlags_lt hf.low) (by decide)
    rw [Mem.leafPte, pteFor_eq q (leafFlags_lt hf.low), Nat.mul_add_mod]
    exact Nat.mod_eq_of_lt hall
  rw [leafLookup, pageWalk]
  rw [leafPte_valid hf.low, hbits (i := 1) (by decide) (by decide),
    hbits (i := 2) (by decide) (by decide), hbits (i := 3) (by decide) (by decide), hwrite, hleaf,
    leafPte_accessed hf.low, leafPte_div hf.low, hmod, decide_eq_false hlt, hlow]
  rfl

namespace Mem

variable {m m' : Mem} {place : Placement}

theorem Trees.pageWalk_eq (h : m.Trees place) (va : Nat) {level table root : Nat} {p : List Nat}
    (ht : place table = some (root, p)) (hlen : p.length + level = 2) :
    pageWalk m.tables va level table =
      (Radix.leaf nextTable pteIsValid m.tables table ((upperLevels level).map (vpn va))
        (vpn va 0)).bind (leafLookup va) := by
  induction level generalizing table p with
  | zero =>
    rw [pageWalk_zero, upperLevels, Radix.leaf, List.map_nil, Radix.descend, Option.bind_some]
    split <;> rfl
  | succ level ih =>
    rw [upperLevels, Radix.leaf, List.map_cons, Radix.descend]
    obtain hzero | ⟨c, hptr, hc⟩ := h.forest.inner ht (by omega) (vpn va (level + 1))
    · rw [pageWalk_succ_zero hzero, hzero]
      rfl
    · obtain ⟨q, hq, rfl⟩ := h.frame hc
      rw [pageWalk_succ_ptr hq hptr, hptr, h.reads.ptr hc, ih hc (by simp; omega)]
      rfl

theorem Trees.lookup_eq (h : m.Trees place) {root : Nat} (hroot : place root = some (root, []))
    {va : Nat} (hva : canonical va) :
    m.lookup root va = (m.leafAt root (pageKey va)).bind (leafLookup va) := by
  rw [lookup, if_pos hva, h.pageWalk_eq va hroot rfl, leafAt, (vpn_pageKey va).1,
    (vpn_pageKey va).2]
  rfl

/-- Every leaf entry of the tree is one that `map_page` makes. -/
def Leaves (m : Mem) (root : Nat) : Prop :=
  ∀ key < 2 ^ 27, ∀ pte, m.leafAt root key = some pte →
    ∃ q flags, q < 2 ^ 44 ∧ LeafFlags flags ∧ pte = leafPte (q * 4096) flags

/-- A tree of pages that `map_page` has mapped. -/
structure Tree (m : Mem) (root : Nat) (place : Placement) : Prop extends m.Trees place where
  rooted : place root = some (root, [])
  counted : m.allocator.Counted
  leaves : m.Leaves root

theorem pageKey_lt (va : Nat) : pageKey va < 2 ^ 27 := Nat.mod_lt _ (by decide)

theorem canonical_of_lt {va : Nat} (h : va < 2 ^ 38) : canonical va := .inl h

variable {root va pa flags : Nat}

theorem Tree.lookup_none (h : m.Tree root place) (hva : va < 2 ^ 38) :
    m.lookup root va = none ↔ m.leafAt root (pageKey va) = none := by
  rw [h.lookup_eq h.rooted (canonical_of_lt hva)]
  constructor
  · intro hnone
    cases hleaf : m.leafAt root (pageKey va) with
    | none => rfl
    | some pte =>
      obtain ⟨q, flags, hq, hf, rfl⟩ := h.leaves _ (pageKey_lt va) _ hleaf
      rw [hleaf, Option.bind_some, leafLookup_leafPte va hq hf] at hnone
      cases hnone
  · intro hnone
    rw [hnone]
    rfl

/-- The page is not aligned or already mapped, or there are too few frames for the missing
tables. -/
def Refused (m : Mem) (root va pa : Nat) : Prop :=
  va % pageSize ≠ 0 ∨ pa % pageSize ≠ 0 ∨ m.leafAt root (pageKey va) ≠ none ∨
    m.allocator.free < missing m.tables va root [2, 1]

theorem Tree.mapPage_returns (h : m.Tree root place) (va pa flags : Nat) :
    m.Refused root va pa ∧ (∃ e, m.mapPage root va pa flags = .error e) ∨
      ¬ m.Refused root va pa ∧
        ∃ m', m.mapPage root va pa flags = .ok m' ∧ m'.allocator.Counted := by
  unfold mapPage
  by_cases haligned : va % pageSize ≠ 0 ∨ pa % pageSize ≠ 0
  · rw [if_pos haligned]
    exact .inl ⟨haligned.imp_right .inl, _, rfl⟩
  rw [if_neg haligned]
  have hloop := leafTable_returns va [2, 1] h.toTrees h.counted h.rooted h.rooted rfl
  by_cases hframes : missing m.tables va root [2, 1] ≤ m.allocator.free
  · rw [if_pos hframes] at hloop
    obtain ⟨t, m₁, hrun, hcounted⟩ := hloop
    rw [hrun]
    obtain ⟨place₁, h₁, hext, ht, hleaf⟩ := leafTable_spec h.toTrees h.rooted h.rooted rfl hrun
    rw [List.nil_append, ← (vpn_pageKey va).1] at ht
    -- The entry of the page is read in the leaf table the loop ended at.
    have hentry : m.leafAt root (pageKey va) = if pteIsValid (m₁.tables t (vpn va 0)) then
        some (m₁.tables t (vpn va 0)) else none := by
      rw [← hleaf root h.rooted, leafAt, h₁.forest.leaf_eq h₁.reads (hext.keep h.rooted) ht,
        (vpn_pageKey va).2]
    rw [Refused, hentry]
    by_cases hvalid : pteIsValid (m₁.tables t (vpn va 0)) = true
    · rw [if_pos hvalid]
      refine .inl ⟨.inr (.inr (.inl (by simp))), .assert "remap of va", ?_⟩
      exact if_pos hvalid
    · rw [if_neg hvalid]
      refine .inr ⟨?_, _, if_neg hvalid, hcounted⟩
      rintro (hva | hpa | hmapped | hfew)
      · exact haligned (.inl hva)
      · exact haligned (.inr hpa)
      · exact hmapped rfl
      · omega
  · rw [if_neg hframes] at hloop
    rw [hloop]
    exact .inl ⟨.inr (.inr (.inr (by omega))), _, rfl⟩

theorem pageKey_eq_iff {va' : Nat} (hva : va < 2 ^ 38) (hva' : canonical va') :
    pageKey va' = pageKey va ↔ va' / 4096 = va / 4096 := by
  simp only [pageKey, canonical] at hva' ⊢
  omega

/-- The page of `va` goes to `pa`, and all others where they went before. -/
def Remaps (m m' : Mem) (root va pa flags : Nat) : Prop :=
  ∀ va', m'.lookup root va' =
    if va' / 4096 = va / 4096 then some (pa + va' % 4096, mappedFlags flags)
    else m.lookup root va'

theorem Tree.mapPage (h : m.Tree root place) (hva : va < 2 ^ 38) (hpa : pa < 2 ^ 56)
    (hf : LeafFlags flags) (hrun : m.mapPage root va pa flags = .ok m') :
    ∃ place', m'.Tree root place' ∧ Extends m place m' place' ∧ m.Remaps m' root va pa flags := by
  obtain ⟨-, -, place', h', hext, hleaf⟩ := mapPage_spec h.toTrees h.rooted hf.low hrun
  have hleaf := hleaf root h.rooted
  have haligned : pa % 4096 = 0 := by
    by_contra hne
    rw [Mem.mapPage, if_pos (.inr hne)] at hrun
    cases hrun
  obtain ⟨q, hq, rfl⟩ : ∃ q < 2 ^ 44, pa = q * 4096 := ⟨pa / 4096, by omega, by omega⟩
  have hcounted : m'.allocator.Counted := by
    rcases h.mapPage_returns va (q * 4096) flags with ⟨-, e, herror⟩ | ⟨-, m'', hrun', hc⟩
    · cases herror.symm.trans hrun
    · exact Except.ok.inj (hrun'.symm.trans hrun) ▸ hc
  refine ⟨place', ⟨h', hext.keep h.rooted, hcounted, fun key hkey pte hpte => ?_⟩, hext,
    fun va' => ?_⟩
  · rw [hleaf key hkey] at hpte
    split at hpte
    case isTrue => exact ⟨q, flags, hq, hf, (Option.some.inj hpte).symm⟩
    case isFalse => exact h.leaves key hkey pte hpte
  · by_cases hc : canonical va'
    · rw [h'.lookup_eq (hext.keep h.rooted) hc, h.lookup_eq h.rooted hc,
        hleaf _ (pageKey_lt va')]
      by_cases hpage : va' / 4096 = va / 4096
      · rw [if_pos ⟨rfl, (pageKey_eq_iff hva hc).mpr hpage⟩, if_pos hpage, Option.bind_some,
          leafLookup_leafPte va' hq hf]
      · rw [if_neg fun hboth => hpage ((pageKey_eq_iff hva hc).mp hboth.2), if_neg hpage]
    · have hpage : ¬ va' / 4096 = va / 4096 := by
        intro hpage
        exact hc (canonical_of_lt (by omega))
      rw [lookup, if_neg hc, if_neg hpage, lookup, if_neg hc]

/-- The pages of `[start, stop)` go to themselves, and all others where they went before. -/
def RemapsRange (m m' : Mem) (root start stop flags : Nat) : Prop :=
  ∀ va', m'.lookup root va' =
    if start ≤ va' ∧ va' < stop then some (va', mappedFlags flags) else m.lookup root va'

theorem Tree.mapPages {addr n : Nat} (h : m.Tree root place)
    (hbelow : addr + n * 4096 ≤ 2 ^ 38) (haddr : addr % 4096 = 0) (hf : LeafFlags flags)
    (hrun : m.mapPages root flags addr n = .ok m') :
    ∃ place', m'.Tree root place' ∧ m.RemapsRange m' root addr (addr + n * 4096) flags := by
  induction n generalizing m place addr with
  | zero =>
    obtain rfl := Except.ok.inj hrun
    refine ⟨place, h, fun va' => ?_⟩
    rw [if_neg (by omega)]
  | succ n ih =>
    obtain ⟨m₁, hpage, hrun⟩ := Except.bind_eq_ok_iff.mp hrun
    obtain ⟨place₁, h₁, -, hone⟩ := h.mapPage (by omega) (by omega) hf hpage
    simp only [pageSize] at hrun
    obtain ⟨place', h', hrest⟩ := ih h₁ (by omega) (by omega) hrun
    refine ⟨place', h', fun va' => ?_⟩
    rw [hrest va', hone va']
    by_cases hfirst : va' / 4096 = addr / 4096
    · rw [if_neg (by omega), if_pos hfirst, if_pos (by omega)]
      congr 2
      omega
    · rw [if_neg hfirst]
      exact if_congr (by omega) rfl rfl

theorem Tree.mapRange {start stop : Nat} (h : m.Tree root place) (hbelow : stop ≤ 2 ^ 38)
    (hstart : start % 4096 = 0) (hstop : stop % 4096 = 0) (hf : LeafFlags flags)
    (hrun : m.mapRange root start stop flags = .ok m') :
    ∃ place', m'.Tree root place' ∧ m.RemapsRange m' root start stop flags := by
  rw [Mem.mapRange] at hrun
  by_cases hle : start ≤ stop
  · have hend : start + (stop - start + (pageSize - 1)) / pageSize * 4096 = stop := by
      simp only [pageSize]
      omega
    obtain ⟨place', h', hrange⟩ := h.mapPages (by rw [hend]; exact hbelow) hstart hf hrun
    rw [hend] at hrange
    exact ⟨place', h', hrange⟩
  · have hnone : (stop - start + (pageSize - 1)) / pageSize = 0 := by
      simp only [pageSize]
      omega
    rw [hnone] at hrun
    obtain rfl := Except.ok.inj hrun
    refine ⟨place, h, fun va' => ?_⟩
    rw [if_neg (by omega)]

theorem Tree.hand {f : Nat} (h : m.Tree root place)
    (hrun : m.allocZeroed = .ok (some f, m')) :
    m'.Tree root place ∧ place f = none ∧ ∀ va', m'.lookup root va' = m.lookup root va' := by
  obtain ⟨hands, htables⟩ := allocZeroed_some hrun
  obtain ⟨h', -, hleaf⟩ := h.toTrees.hand hands htables
  have hcounted : m'.allocator.Counted := by
    simp only [allocZeroed, Except.bind_eq_ok_iff] at hrun
    obtain ⟨⟨frame, a⟩, ha, hrun⟩ := hrun
    have hc := h.counted.alloc ha
    cases frame with
    | none => cases (Prod.mk.inj (Except.pure_eq_ok_iff.mp hrun)).1
    | some f' => exact (Prod.mk.inj (Except.pure_eq_ok_iff.mp hrun)).2 ▸ hc
  refine ⟨⟨h', h.rooted, hcounted, fun key hkey pte hpte => ?_⟩, h.free hands.fresh, fun va' => ?_⟩
  · rw [hleaf root h.rooted] at hpte
    exact h.leaves key hkey pte hpte
  · by_cases hc : canonical va'
    · rw [h'.lookup_eq h.rooted hc, h.lookup_eq h.rooted hc, hleaf root h.rooted]
    · rw [lookup, lookup, if_neg hc, if_neg hc]

theorem Tree.scribble {f : Nat} (h : m.Tree root place) (hf : place f = none) (i v : Nat) :
    (m.setEntry f i v).Tree root place ∧
      ∀ va', (m.setEntry f i v).lookup root va' = m.lookup root va' := by
  have hagree (n : Nat) (x : Nat × List Nat) (hn : place n = some x) :
      (m.setEntry f i v).tables n = m.tables n := by
    apply Function.update_of_ne
    rintro rfl
    cases hf.symm.trans hn
  have h' : (m.setEntry f i v).Trees place := ⟨h.forest.congr hagree, h.allocated, h.ram⟩
  have hleaf (key : Nat) : (m.setEntry f i v).leafAt root key = m.leafAt root key :=
    h.forest.leaf_congr hagree h.reads h.rooted (by simp) _
  refine ⟨⟨h', h.rooted, h.counted, fun key hkey pte hpte => ?_⟩, fun va' => ?_⟩
  · rw [hleaf] at hpte
    exact h.leaves key hkey pte hpte
  · by_cases hc : canonical va'
    · rw [h'.lookup_eq h.rooted hc, h.lookup_eq h.rooted hc, hleaf]
    · rw [lookup, lookup, if_neg hc, if_neg hc]

end Mem

/-- A memory with one page-table tree, and the frames that were handed to others. -/
structure AddressSpace where
  mem : Mem
  root : Nat
  others : List Nat

namespace AddressSpace

/-- A call of `map_page`, an allocation elsewhere, or a write to a frame allocated elsewhere. -/
inductive Op where
  | mapPage (va pa flags : Nat)
  | allocZeroed
  | write (frame i v : Nat)

/-- `init` of the allocator over a RAM with arbitrary contents, and the root table. -/
def start (startAddr endAddr : Nat) (ram : Nat → Nat → Nat) : Except Panic AddressSpace := do
  let allocator ← BitmapAllocator.new.init startAddr endAddr
  let (root, mem) ← Mem.expectFrame ⟨ram, allocator⟩ "no frame for root page table"
  return ⟨mem, root, []⟩

def step (s : AddressSpace) : Op → Option AddressSpace
  | .mapPage va pa flags =>
    if va < 2 ^ 38 ∧ pa < 2 ^ 56 ∧ LeafFlags flags then
      (s.mem.mapPage s.root va pa flags).toOption.map fun mem => { s with mem }
    else none
  | .allocZeroed => s.mem.allocZeroed.toOption.bind fun r =>
    r.1.map fun f => { s with mem := r.2, others := f :: s.others }
  | .write frame i v =>
    if frame ∈ s.others then some { s with mem := s.mem.setEntry frame i v } else none

/-- The tree, and the other frames outside it. -/
structure Sound (s : AddressSpace) (place : Placement) : Prop where
  tree : s.mem.Tree s.root place
  others (f : Nat) (hf : f ∈ s.others) : s.mem.allocator.Allocated f ∧ place f = none

theorem start_sound {startAddr endAddr : Nat} {ram : Nat → Nat → Nat} {s : AddressSpace}
    (hend : endAddr ≤ 2 ^ 56) (h : start startAddr endAddr ram = .ok s) :
    ∃ place, s.Sound place := by
  simp only [start, Except.bind_eq_ok_iff, Except.pure_eq_ok_iff] at h
  obtain ⟨a, ha, ⟨root, mem⟩, hroot, rfl⟩ := h
  have hcounted := BitmapAllocator.init_counted ha
  have hram : (a.base + a.count) * frameSize ≤ 2 ^ 56 := by
    simp only [BitmapAllocator.init, Except.ite_error_eq_ok_iff, not_not, frameSize] at ha
    obtain ⟨hlow, hhigh, hlt, -, ha⟩ := ha
    obtain rfl := Except.ok.inj ha
    simp only [frameSize]
    omega
  have hempty : (Mem.mk ram a).Trees fun _ => none :=
    ⟨⟨fun h => (by cases h), fun h => (by cases h), fun h => (by cases h),
      fun h => (by cases h)⟩, fun h => (by cases h), hram⟩
  obtain ⟨hands, htables⟩ := Mem.expectFrame_ok hroot
  obtain ⟨place, h, -, hplace, hleaf, -⟩ := hempty.plant hands htables
  have hcounted' : mem.allocator.Counted := by
    by_cases hfree : (Mem.mk ram a).allocator.free = 0
    · rw [Mem.expectFrame_none hcounted hfree] at hroot
      cases hroot
    · obtain ⟨f, m', hroot', hc, -⟩ :=
        Mem.expectFrame_some "no frame for root page table" hcounted (Nat.pos_of_ne_zero hfree)
      rw [hroot'] at hroot
      exact (Prod.mk.inj (Except.ok.inj hroot)).2 ▸ hc
  refine ⟨place, ⟨h, hplace, hcounted', fun key _ pte hpte => ?_⟩, fun f hf => by cases hf⟩
  rw [hleaf] at hpte
  cases hpte

theorem step_sound {s s' : AddressSpace} {op : Op} {place : Placement} (h : s.Sound place)
    (hstep : s.step op = some s') : ∃ place', s'.Sound place' := by
  cases op with
  | mapPage va pa flags =>
    rw [step, Option.ite_none_right_eq_some, Option.map_eq_some_iff] at hstep
    obtain ⟨⟨hva, hpa, hf⟩, mem, hrun, rfl⟩ := hstep
    obtain ⟨place', h', hext, -⟩ :=
      h.tree.mapPage hva hpa hf (Except.toOption_eq_some_iff.mp hrun)
    refine ⟨place', h', fun f hmem => ?_⟩
    obtain ⟨hal, hout⟩ := h.others f hmem
    refine ⟨hext.alloc hal, ?_⟩
    cases hplace : place' f with
    | none => rfl
    | some x =>
      rcases hext.new hplace with hold | hfree
      · cases hout.symm.trans hold
      · exact absurd hal hfree
  | allocZeroed =>
    rw [step, Option.bind_eq_some_iff] at hstep
    obtain ⟨⟨frame, mem⟩, hrun, hstep⟩ := hstep
    obtain ⟨f, rfl, rfl⟩ := Option.map_eq_some_iff.mp hstep
    have hrun := Except.toOption_eq_some_iff.mp hrun
    obtain ⟨h', hout, -⟩ := h.tree.hand hrun
    have hands := (Mem.allocZeroed_some hrun).1
    refine ⟨place, h', fun g hg => ?_⟩
    rcases List.mem_cons.mp hg with rfl | hg
    · exact ⟨(hands.allocated _).mpr (.inl rfl), hout⟩
    · exact ⟨(hands.allocated _).mpr (.inr (h.others g hg).1), (h.others g hg).2⟩
  | write frame i v =>
    rw [step, Option.ite_none_right_eq_some] at hstep
    obtain ⟨hmem, hstep⟩ := hstep
    obtain rfl := Option.some.inj hstep
    exact ⟨place, (h.tree.scribble (h.others frame hmem).2 i v).1, h.others⟩

/-- What `map_page` and `map_range` do in a state. -/
structure MapsExactly (s : AddressSpace) : Prop where
  panics (va pa flags : Nat) (hva : va < 2 ^ 38) (hpa : pa < 2 ^ 56) (hf : LeafFlags flags) :
    (∃ e, s.mem.mapPage s.root va pa flags = .error e) ↔
      va % pageSize ≠ 0 ∨ pa % pageSize ≠ 0 ∨ s.mem.lookup s.root va ≠ none ∨
        s.mem.allocator.free < Mem.missing s.mem.tables va s.root [2, 1]
  page (va pa flags : Nat) (hva : va < 2 ^ 38) (hpa : pa < 2 ^ 56) (hf : LeafFlags flags)
    (m' : Mem) (hrun : s.mem.mapPage s.root va pa flags = .ok m') :
    s.mem.Remaps m' s.root va pa flags
  range (start stop flags : Nat) (hstart : start % pageSize = 0) (hstop : stop % pageSize = 0)
    (hbelow : stop ≤ 2 ^ 38) (hf : LeafFlags flags) (m' : Mem)
    (hrun : s.mem.mapRange s.root start stop flags = .ok m') :
    s.mem.RemapsRange m' s.root start stop flags
  others (op : Op) (s' : AddressSpace) (hstep : s.step op = some s') :
    (∃ va pa flags, op = .mapPage va pa flags) ∨
      ∀ va, s'.mem.lookup s'.root va = s.mem.lookup s.root va

theorem Sound.mapsExactly {s : AddressSpace} {place : Placement} (h : s.Sound place) :
    s.MapsExactly := by
  refine ⟨fun va pa flags hva hpa hf => ?_, fun va pa flags hva hpa hf m' hrun => ?_,
    fun start stop flags hstart hstop hbelow hf m' hrun => ?_, fun op s' hstep => ?_⟩
  · rw [ne_eq (s.mem.lookup s.root va), h.tree.lookup_none hva]
    rcases h.tree.mapPage_returns va pa flags with ⟨hwhy, herror⟩ | ⟨hnot, m', hok, -⟩
    · exact iff_of_true herror hwhy
    · refine iff_of_false ?_ hnot
      rintro ⟨e, herror⟩
      cases herror.symm.trans hok
  · exact (h.tree.mapPage hva hpa hf hrun).choose_spec.2.2
  · exact (h.tree.mapRange hbelow hstart hstop hf hrun).choose_spec.2
  · cases op with
    | mapPage va pa flags => exact .inl ⟨va, pa, flags, rfl⟩
    | allocZeroed =>
      rw [step, Option.bind_eq_some_iff] at hstep
      obtain ⟨⟨frame, mem⟩, hrun, hstep⟩ := hstep
      obtain ⟨f, rfl, rfl⟩ := Option.map_eq_some_iff.mp hstep
      exact .inr (h.tree.hand (Except.toOption_eq_some_iff.mp hrun)).2.2
    | write frame i v =>
      rw [step, Option.ite_none_right_eq_some] at hstep
      obtain ⟨hmem, hstep⟩ := hstep
      obtain rfl := Option.some.inj hstep
      exact .inr (h.tree.scribble (h.others frame hmem).2 i v).2

/-- Boot an allocator over RAM that Sv39 can address, take a root table from it, and let any
sequence of `map_page` calls, of allocations elsewhere and of writes to what they returned follow.
In every state reached, `map_page` panics exactly on an unaligned address, a mapped page or too
few frames, and else maps the one page and no other; `map_range` maps the pages of its range to
themselves and no other; and what is done elsewhere changes no translation. -/
theorem mapping_exact {startAddr endAddr : Nat} {ram : Nat → Nat → Nat} {s₀ s : AddressSpace}
    {ops : List Op} (hend : endAddr ≤ 2 ^ 56) (hstart : start startAddr endAddr ram = .ok s₀)
    (hrun : Transition.run step s₀ ops = some s) : s.MapsExactly := by
  have hstep (s : AddressSpace) (op : Op) (s' : AddressSpace) (h : ∃ place, s.Sound place)
      (_ : True) (hop : s.step op = some s') : ∃ place, s'.Sound place := by
    obtain ⟨place, h⟩ := h
    exact step_sound h hop
  obtain ⟨place, h⟩ := Transition.invariant_run hstep (start_sound hend hstart)
    (Transition.stepsMeet_true ops) hrun
  exact h.mapsExactly

/-- Two pages that share their tables, and a frame for others in between. -/
def mappingOps : List Op :=
  [.mapPage 0x1000 0x3fffffff000 0b110, .allocZeroed, .write 0x80003000 1 7,
    .mapPage 0x2000 0x1000 0b1000]

theorem mapping_exact_shared : ∃ s₀ s, start 0x80000000 0x80010000 (fun _ _ => 5) = .ok s₀ ∧
    Transition.run step s₀ mappingOps = some s ∧ s.MapsExactly := by
  have hcheck : ((start 0x80000000 0x80010000 fun _ _ => 5).toOption.any fun s₀ =>
      (Transition.run step s₀ mappingOps).isSome) = true := by
    decide +kernel
  obtain ⟨s₀, hs₀, hsome⟩ := (Option.any_eq_true _ _).mp hcheck
  obtain ⟨s, hrun⟩ := Option.isSome_iff_exists.mp hsome
  have hstart := Except.toOption_eq_some_iff.mp hs₀
  exact ⟨s₀, s, hstart, hrun, mapping_exact (by decide) hstart hrun⟩

end AddressSpace

end Perenne

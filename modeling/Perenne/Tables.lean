import Perenne.Memory
import Mathlib.Data.Nat.Bitwise
import Mathlib.Tactic.NormNum

namespace Perenne

theorem vpn_eq (va level : Nat) : vpn va level = va / 2 ^ (12 + 9 * level) % 512 := by
  rw [vpn, Nat.shiftRight_eq_div_pow]
  exact Nat.and_two_pow_sub_one_eq_mod _ 9

theorem pteFor_eq (q : Nat) {flags : Nat} (hf : flags < 2 ^ 10) :
    pteFor (q * 4096) flags = 2 ^ 10 * q + (flags ||| 1) := by
  have hq : (q * 4096) >>> 12 = q := by
    rw [Nat.shiftRight_eq_div_pow]
    exact Nat.mul_div_cancel _ (by decide)
  have hlow : flags ||| 1 < 2 ^ 10 := Nat.or_lt_two_pow hf (by decide)
  rw [pteFor, hq, Nat.or_assoc, show pteV = 1 from rfl, ← Nat.shiftLeft_add_eq_or_of_lt hlow,
    Nat.shiftLeft_eq, Nat.mul_comm]

theorem pteIsValid_eq (pte : Nat) : pteIsValid pte = pte.testBit 0 := by
  rw [pteIsValid, show pteV = 1 from rfl, Nat.and_one_is_mod, Nat.testBit_zero]
  rcases Nat.mod_two_eq_zero_or_one pte with h | h <;> rw [h] <;> rfl

section Entry

variable {q flags : Nat} (hf : flags < 2 ^ 10)

include hf

theorem pteFor_div : pteFor (q * 4096) flags / 2 ^ 10 = q := by
  have hlow : flags ||| 1 < 2 ^ 10 := Nat.or_lt_two_pow hf (by decide)
  rw [pteFor_eq q hf, Nat.mul_add_div (by decide), Nat.div_eq_of_lt hlow, Nat.add_zero]

theorem pteFor_lt (hq : q < 2 ^ 44) : pteFor (q * 4096) flags < 2 ^ 54 := by
  have hlow : flags ||| 1 < 2 ^ 10 := Nat.or_lt_two_pow hf (by decide)
  rw [pteFor_eq q hf]
  omega

theorem pteToPa_pteFor (hq : q < 2 ^ 44) : pteToPa (pteFor (q * 4096) flags) = q * 4096 := by
  rw [pteToPa, Nat.shiftRight_eq_div_pow, pteFor_div hf]
  have : q &&& 0xFFFFFFFFFFF = q := by
    rw [show (0xFFFFFFFFFFF : Nat) = 2 ^ 44 - 1 from rfl, Nat.and_two_pow_sub_one_eq_mod,
      Nat.mod_eq_of_lt hq]
  rw [this, Nat.shiftLeft_eq]

theorem testBit_pteFor {i : Nat} (hi : i < 10) :
    (pteFor (q * 4096) flags).testBit i = (flags.testBit i || i == 0) := by
  have hlow : flags ||| 1 < 2 ^ 10 := Nat.or_lt_two_pow hf (by decide)
  rw [pteFor_eq q hf, Nat.testBit_two_pow_mul_add _ hlow, if_pos hi, Nat.testBit_or]
  congr 1
  cases i with
  | zero => rfl
  | succ i => simp [Nat.testBit_succ]

theorem pteIsValid_pteFor : pteIsValid (pteFor (q * 4096) flags) = true := by
  rw [pteIsValid_eq, testBit_pteFor hf (by decide)]
  simp

end Entry

/-- The place of a table frame: the root of its tree and the indices that lead to it. -/
abbrev Placement := Nat → Option (Nat × List Nat)

/-- How `map_page` reads an entry above the leaves. -/
def nextTable (pte : Nat) : Option Nat := if pteIsValid pte then some (pteToPa pte) else none

/-- The number of a page, as far as Sv39 looks at it. -/
def pageKey (va : Nat) : Nat := va / 4096 % 2 ^ 27

namespace Mem

/-- The leaf entry of page `key` in the tree at `root`. -/
def leafAt (m : Mem) (root key : Nat) : Option Nat :=
  Radix.leaf nextTable pteIsValid m.tables root [key / 2 ^ 18 % 512, key / 2 ^ 9 % 512] (key % 512)

/-- The memory is a forest of page tables in allocated frames. -/
structure Trees (m : Mem) (place : Placement) : Prop where
  forest : Radix.Forest 0 (fun c => pteFor c 0) 2 place m.tables
  allocated {f : Nat} {x : Nat × List Nat} (hf : place f = some x) : m.allocator.Allocated f
  ram : (m.allocator.base + m.allocator.count) * frameSize ≤ 2 ^ 56

/-- Tables have been added in frames that were free. -/
structure Extends (m : Mem) (place : Placement) (m' : Mem) (place' : Placement) : Prop where
  keep {f : Nat} {x : Nat × List Nat} (hf : place f = some x) : place' f = some x
  new {f : Nat} {x : Nat × List Nat} (hf : place' f = some x) :
    place f = some x ∨ ¬ m.allocator.Allocated f
  alloc {f : Nat} (hf : m.allocator.Allocated f) : m'.allocator.Allocated f
  base : m'.allocator.base = m.allocator.base
  count : m'.allocator.count = m.allocator.count

variable {m m₁ m' : Mem} {place place₁ place' : Placement}

theorem Extends.refl (m : Mem) (place : Placement) : Extends m place m place :=
  ⟨id, .inl, id, rfl, rfl⟩

theorem Extends.trans (h : Extends m place m₁ place₁) (h' : Extends m₁ place₁ m' place') :
    Extends m place m' place' := by
  refine ⟨fun hf => h'.keep (h.keep hf), fun hf => ?_, fun hf => h'.alloc (h.alloc hf),
    h'.base.trans h.base, h'.count.trans h.count⟩
  obtain hf | hfree := h'.new hf
  · exact h.new hf
  · exact .inr fun ha => hfree (h.alloc ha)

theorem Trees.reads (h : m.Trees place) :
    Radix.Reads 0 (fun c => pteFor c 0) place nextTable := by
  refine ⟨rfl, fun {c r p} hc => ?_⟩
  obtain ⟨i, hi, -, rfl⟩ := h.allocated hc
  have hram := h.ram
  rw [nextTable, pteIsValid_pteFor (by decide), if_pos rfl, pteToPa_pteFor (by decide)]
  simp only [frameSize] at hram
  omega

theorem Trees.free (h : m.Trees place) {f : Nat} (hf : ¬ m.allocator.Allocated f) :
    place f = none := by
  cases hplace : place f with
  | none => rfl
  | some x => exact absurd (h.allocated hplace) hf

theorem allocZeroed_some {f : Nat} (h : m.allocZeroed = .ok (some f, m')) :
    m.allocator.Hands f m'.allocator ∧
      m'.tables = Function.update m.tables f fun _ => 0 := by
  simp only [allocZeroed, Except.bind_eq_ok_iff] at h
  obtain ⟨⟨frame, a⟩, ha, h⟩ := h
  cases frame with
  | none =>
    obtain ⟨hf, -⟩ := Prod.mk.inj (Except.pure_eq_ok_iff.mp h)
    cases hf
  | some f' =>
    obtain ⟨hf, rfl⟩ := Prod.mk.inj (Except.pure_eq_ok_iff.mp h)
    obtain rfl := Option.some.inj hf
    exact ⟨BitmapAllocator.alloc_some ha, rfl⟩

theorem expectFrame_ok {f : Nat} {text : String} (h : m.expectFrame text = .ok (f, m')) :
    m.allocator.Hands f m'.allocator ∧
      m'.tables = Function.update m.tables f fun _ => 0 := by
  simp only [expectFrame, Except.bind_eq_ok_iff] at h
  obtain ⟨⟨frame, m₁⟩, halloc, h⟩ := h
  cases frame with
  | none => cases h
  | some f' =>
    obtain ⟨rfl, rfl⟩ := Prod.mk.inj (Except.pure_eq_ok_iff.mp h)
    exact allocZeroed_some halloc

theorem Trees.hand (h : m.Trees place) {f : Nat} (hands : m.allocator.Hands f m'.allocator)
    (htables : m'.tables = Function.update m.tables f fun _ => 0) :
    m'.Trees place ∧ Extends m place m' place ∧
      ∀ r, place r = some (r, []) → ∀ key, m'.leafAt r key = m.leafAt r key := by
  have hagree (n : Nat) (x : Nat × List Nat) (hn : place n = some x) :
      m'.tables n = m.tables n := by
    rw [htables, Function.update_of_ne]
    rintro rfl
    exact hands.fresh (h.allocated hn)
  refine ⟨⟨h.forest.congr hagree, fun hf => ?_, ?_⟩, ⟨id, .inl, fun hf => ?_, ?_, ?_⟩, ?_⟩
  · exact (hands.allocated _).mpr (.inr (h.allocated hf))
  · rw [hands.base, hands.count]
    exact h.ram
  · exact (hands.allocated _).mpr (.inr hf)
  · exact hands.base
  · exact hands.count
  · intro r hr key
    exact h.forest.leaf_congr hagree h.reads hr (by simp) _

theorem Trees.plant (h : m.Trees place) {f : Nat} (hands : m.allocator.Hands f m'.allocator)
    (htables : m'.tables = Function.update m.tables f fun _ => 0) :
    ∃ place', m'.Trees place' ∧ Extends m place m' place' ∧ place' f = some (f, []) ∧
      (∀ key, m'.leafAt f key = none) ∧
      ∀ r, place r = some (r, []) → ∀ key, m'.leafAt r key = m.leafAt r key := by
  obtain ⟨h', hext, hleaf⟩ := h.hand hands htables
  have hempty (k : Nat) : m'.tables f k = 0 := by rw [htables, Function.update_self]
  have hfree := h.free hands.fresh
  refine ⟨Function.update place f (some (f, [])), ⟨h'.forest.plant hfree hempty, fun hg => ?_,
    h'.ram⟩, ⟨fun hg => ?_, fun {g x} hg => ?_, hext.alloc, hext.base, hext.count⟩,
    Function.update_self .., fun key => Radix.leaf_of_empty hempty rfl rfl _ _, hleaf⟩
  · rename_i g x
    by_cases hgf : g = f
    · exact (hands.allocated g).mpr (.inl hgf)
    · rw [Function.update_of_ne hgf] at hg
      exact h'.allocated hg
  · rw [Function.update_of_ne, hg]
    rintro rfl
    exact hands.fresh (h.allocated hg)
  · by_cases hgf : g = f
    · exact .inr (hgf ▸ hands.fresh)
    · rw [Function.update_of_ne hgf] at hg
      exact .inl hg

theorem Trees.attach (h : m.Trees place) {f root table idx : Nat} {p : List Nat}
    (hands : m.allocator.Hands f m₁.allocator)
    (htables : m₁.tables = Function.update m.tables f fun _ => 0)
    (hroot : place root = some (root, [])) (ht : place table = some (root, p))
    (hlt : p.length < 2) (hempty : m.tables table idx = 0) :
    ∃ place', (m₁.setEntry table idx (pteFor f 0)).Trees place' ∧
      Extends m place (m₁.setEntry table idx (pteFor f 0)) place' ∧
      place' f = some (root, p ++ [idx]) ∧
      ∀ r, place r = some (r, []) → ∀ key,
        (m₁.setEntry table idx (pteFor f 0)).leafAt r key = m.leafAt r key := by
  have hfree := h.free hands.fresh
  have hheap : (m₁.setEntry table idx (pteFor f 0)).tables =
      Radix.write (Function.update m.tables f fun _ => 0) table idx (pteFor f 0) := by
    rw [setEntry, htables]
  have hforest := h.forest.attach h.reads hroot ht hlt hempty hfree
  have h' : (m₁.setEntry table idx (pteFor f 0)).Trees
      (Function.update place f (some (root, p ++ [idx]))) := by
    refine ⟨hheap ▸ hforest, fun {g x} hg => ?_, ?_⟩
    · by_cases hgf : g = f
      · exact (hands.allocated g).mpr (.inl hgf)
      · rw [Function.update_of_ne hgf] at hg
        exact (hands.allocated g).mpr (.inr (h.allocated hg))
    · change (m₁.allocator.base + m₁.allocator.count) * frameSize ≤ 2 ^ 56
      rw [hands.base, hands.count]
      exact h.ram
  refine ⟨_, h', ⟨fun {g x} hg => ?_, fun {g x} hg => ?_, fun hg => ?_, hands.base,
    hands.count⟩, Function.update_self .., fun r hr key => ?_⟩
  · rw [Function.update_of_ne, hg]
    rintro rfl
    exact hands.fresh (h.allocated hg)
  · by_cases hgf : g = f
    · exact .inr (hgf ▸ hands.fresh)
    · rw [Function.update_of_ne hgf] at hg
      exact .inl hg
  · exact (hands.allocated _).mpr (.inr hg)
  · rw [leafAt, hheap]
    exact h.forest.leaf_attach h.reads hroot ht hlt hempty hfree h'.reads rfl hr rfl _

/-- The loop of `map_page` ends at the leaf table of the page; what is found in any tree
is unchanged. -/
theorem leafTable_spec {va root : Nat} {levels : List Nat} {p : List Nat} {table t' : Nat}
    (h : m.Trees place) (hroot : place root = some (root, []))
    (ht : place table = some (root, p)) (hlen : p.length + levels.length = 2)
    (hrun : m.leafTable va table levels = .ok (t', m')) :
    ∃ place', m'.Trees place' ∧ Extends m place m' place' ∧
      place' t' = some (root, p ++ levels.map (vpn va)) ∧
      ∀ r, place r = some (r, []) → ∀ key, m'.leafAt r key = m.leafAt r key := by
  induction levels generalizing m place table p with
  | nil =>
    obtain ⟨rfl, rfl⟩ := Prod.mk.inj (Except.ok.inj hrun)
    exact ⟨place, h, .refl .., by simpa using ht, fun _ _ _ => rfl⟩
  | cons level levels ih =>
    rw [List.length_cons] at hlen
    rw [leafTable] at hrun
    obtain hzero | ⟨c, hptr, hc⟩ := h.forest.inner ht (by omega) (vpn va level)
    · -- An empty entry: a fresh table is attached.
      rw [hzero, if_neg (by decide)] at hrun
      obtain ⟨⟨f, m₁⟩, hframe, hrun⟩ := Except.bind_eq_ok_iff.mp hrun
      obtain ⟨hands, htables⟩ := expectFrame_ok hframe
      obtain ⟨place₁, h₁, hext, hf, hleaf⟩ :=
        h.attach hands htables hroot ht (by omega) hzero
      obtain ⟨place', h', hext', ht', hleaf'⟩ :=
        ih h₁ (hext.keep hroot) hf (by simp; omega) hrun
      refine ⟨place', h', hext.trans hext', by simpa using ht', fun r hr key => ?_⟩
      rw [hleaf' r (hext.keep hr), hleaf r hr]
    · -- A table that is there: the loop goes on in it.
      have hnext := h.reads.ptr hc
      rw [nextTable] at hnext
      split at hnext
      case isFalse => cases hnext
      case isTrue hvalid =>
        rw [hptr, if_pos hvalid, Option.some.inj hnext] at hrun
        obtain ⟨place', h', hext, ht', hleaf⟩ := ih h hroot hc (by simp; omega) hrun
        exact ⟨place', h', hext, by simpa using ht', hleaf⟩

theorem vpn_pageKey (va : Nat) : [pageKey va / 2 ^ 18 % 512, pageKey va / 2 ^ 9 % 512] =
    [2, 1].map (vpn va) ∧ pageKey va % 512 = vpn va 0 := by
  simp only [List.map_cons, List.map_nil, vpn_eq, pageKey, List.cons.injEq, and_true]
  norm_num
  omega

theorem pageKey_inj {k k' : Nat} (hk : k < 2 ^ 27) (hk' : k' < 2 ^ 27)
    (hpath : [k / 2 ^ 18 % 512, k / 2 ^ 9 % 512] = [k' / 2 ^ 18 % 512, k' / 2 ^ 9 % 512])
    (hlast : k % 512 = k' % 512) : k = k' := by
  simp only [List.cons.injEq, and_true] at hpath
  norm_num at hpath hk hk'
  omega

/-- The leaf entry `map_page` writes. -/
def leafPte (pa flags : Nat) : Nat :=
  pteFor pa (flags ||| pteA ||| if flags &&& pteW ≠ 0 then pteD else 0)

/-- `map_page` that returns: the page was not mapped in that tree and now is; everything
else is found as before. -/
theorem mapPage_spec {root va pa flags : Nat} (h : m.Trees place)
    (hroot : place root = some (root, [])) (hflags : flags < 2 ^ 10)
    (hrun : m.mapPage root va pa flags = .ok m') :
    va % pageSize = 0 ∧ m.leafAt root (pageKey va) = none ∧
    ∃ place', m'.Trees place' ∧ Extends m place m' place' ∧
      ∀ r, place r = some (r, []) → ∀ key < 2 ^ 27, m'.leafAt r key =
        if r = root ∧ key = pageKey va then some (leafPte pa flags) else m.leafAt r key := by
  unfold mapPage at hrun
  split at hrun
  case isTrue => cases hrun
  case isFalse haligned =>
    rw [not_or, not_not, not_not] at haligned
    obtain ⟨⟨t, m₁⟩, htable, hrun⟩ := Except.bind_eq_ok_iff.mp hrun
    obtain ⟨place', h₁, hext, ht, hleaf⟩ := leafTable_spec h hroot hroot rfl htable
    have hroot₁ := hext.keep hroot
    rw [List.nil_append, ← (vpn_pageKey va).1] at ht
    dsimp only at hrun
    split at hrun
    case isTrue => cases hrun
    case isFalse hinvalid =>
      obtain rfl := Except.pure_eq_ok_iff.mp hrun
      refine ⟨haligned.1, ?_, place', ⟨h₁.forest.write_bottom ht rfl _ _, h₁.allocated, h₁.ram⟩,
        ⟨hext.keep, hext.new, hext.alloc, hext.base, hext.count⟩, fun r hr key hkey => ?_⟩
      · rw [← hleaf root hroot, leafAt, h₁.forest.leaf_eq h₁.reads hroot₁ ht,
          (vpn_pageKey va).2, if_neg hinvalid]
      · have hpa : pa = pa / 4096 * 4096 := by
          have := haligned.2
          simp only [pageSize] at this
          omega
        have hvalid : pteIsValid (leafPte pa flags) = true := by
          rw [leafPte, hpa]
          refine pteIsValid_pteFor (Nat.or_lt_two_pow (Nat.or_lt_two_pow hflags (by decide)) ?_)
          split <;> decide
        rw [← hleaf r hr, leafAt, leafAt]
        change Radix.leaf nextTable pteIsValid (Radix.write m₁.tables t (vpn va 0)
          (leafPte pa flags)) r _ _ = _
        rw [h₁.forest.leaf_write h₁.reads hroot₁ ht rfl hvalid (hext.keep hr) rfl,
          ← (vpn_pageKey va).2]
        refine if_congr ⟨fun hall => ⟨hall.1, ?_⟩, fun hall => ?_⟩ rfl rfl
        · exact pageKey_inj hkey (Nat.mod_lt _ (by decide)) hall.2.1 hall.2.2
        · obtain ⟨rfl, rfl⟩ := hall
          exact ⟨rfl, rfl, rfl⟩

/-- A range whose identity mapping Sv39 can express, readable at least. -/
structure Fits (g : Region) : Prop where
  start : g.start % pageSize = 0
  stop : g.stop % pageSize = 0
  below : g.stop ≤ 2 ^ 38
  flags : g.flags < 2 ^ 10
  readable : g.flags.testBit 1 = true

theorem mapPages_spec {root flags n addr : Nat} (h : m.Trees place)
    (hroot : place root = some (root, [])) (hflags : flags < 2 ^ 10)
    (hbelow : addr + n * pageSize ≤ 2 ^ 38) (hrun : m.mapPages root flags addr n = .ok m') :
    (∀ key, addr ≤ key * 4096 → key * 4096 < addr + n * 4096 → m.leafAt root key = none) ∧
    ∃ place', m'.Trees place' ∧ Extends m place m' place' ∧
      ∀ r, place r = some (r, []) → ∀ key < 2 ^ 27, m'.leafAt r key =
        if r = root ∧ addr ≤ key * 4096 ∧ key * 4096 < addr + n * 4096
        then some (leafPte (key * 4096) flags) else m.leafAt r key := by
  induction n generalizing m place addr with
  | zero =>
    obtain rfl := Except.ok.inj hrun
    refine ⟨fun key hlow hhigh => by omega, place, h, .refl .., fun r hr key hkey => ?_⟩
    rw [if_neg (by omega)]
  | succ n ih =>
    simp only [pageSize] at hbelow
    obtain ⟨m₁, hpage, hrun⟩ := Except.bind_eq_ok_iff.mp hrun
    obtain ⟨haligned, hnone, place₁, h₁, hext, hleaf⟩ := mapPage_spec h hroot hflags hpage
    obtain ⟨hnone', place', h', hext', hleaf'⟩ :=
      ih h₁ (hext.keep hroot) (by simp only [pageSize]; omega) hrun
    simp only [pageSize] at haligned hnone' hleaf'
    have hkey : pageKey addr = addr / 4096 := Nat.mod_eq_of_lt (by omega)
    refine ⟨fun key hlow hhigh => ?_, place', h', hext.trans hext', fun r hr key hlt => ?_⟩
    · by_cases hfirst : key = addr / 4096
      · rw [hfirst, ← hkey, hnone]
      · have := hnone' key (by omega) (by omega)
        rwa [hleaf root hroot key (by omega), if_neg (by omega)] at this
    · rw [hleaf' r (hext.keep hr) key hlt, hleaf r hr key hlt, hkey]
      by_cases hr : r = root
      · by_cases hfirst : key = addr / 4096
        · have hpa : key * 4096 = addr := by omega
          rw [if_neg (by omega), if_pos ⟨hr, hfirst⟩, if_pos (by omega), hpa]
        · rw [if_neg (c := r = root ∧ key = addr / 4096) (by omega)]
          exact if_congr (by omega) rfl rfl
      · simp [hr]

theorem mapRange_spec {root : Nat} {g : Region} (h : m.Trees place)
    (hroot : place root = some (root, [])) (hg : Fits g)
    (hrun : m.mapRange root g.start g.stop g.flags = .ok m') :
    (∀ key, g.has (key * 4096) → m.leafAt root key = none) ∧
    ∃ place', m'.Trees place' ∧ Extends m place m' place' ∧
      (∀ key < 2 ^ 27, g.has (key * 4096) →
        m'.leafAt root key = some (leafPte (key * 4096) g.flags)) ∧
      ∀ r, place r = some (r, []) → ∀ key < 2 ^ 27, ¬ (r = root ∧ g.has (key * 4096)) →
        m'.leafAt r key = m.leafAt r key := by
  obtain ⟨hstart, hstop, hbelow, hflags, -⟩ := hg
  simp only [pageSize] at hstart hstop
  simp only [Region.has]
  by_cases hle : g.start ≤ g.stop
  · have hend : g.start + (g.stop - g.start + (pageSize - 1)) / pageSize * 4096 = g.stop := by
      simp only [pageSize]
      omega
    obtain ⟨hnone, place', h', hext, hleaf⟩ :=
      mapPages_spec h hroot hflags (by rw [hend]; exact hbelow) hrun
    rw [hend] at hnone hleaf
    refine ⟨fun key hk => hnone key hk.1 hk.2, place', h', hext, fun key hkey hk => ?_,
      fun r hr key hkey hk => ?_⟩
    · rw [hleaf root hroot key hkey, if_pos ⟨rfl, hk⟩]
    · rw [hleaf r hr key hkey, if_neg hk]
  · -- The loop does not run.
    have hpages : (g.stop - g.start + (pageSize - 1)) / pageSize = 0 := by
      simp only [pageSize]
      omega
    rw [mapRange, hpages] at hrun
    obtain rfl := Except.ok.inj hrun
    refine ⟨fun key hk => by omega, place, h, .refl .., fun key hkey hk => by omega, ?_⟩
    exact fun r hr key hkey hk => rfl

/-- The tree maps these ranges to themselves, each with its flags, and nothing else. -/
def Exact (m : Mem) (root : Nat) (gs : List Region) : Prop :=
  ∀ key < 2 ^ 27, ∀ pte, m.leafAt root key = some pte ↔
    ∃ g ∈ gs, g.has (key * 4096) ∧ pte = leafPte (key * 4096) g.flags

theorem mapRegions_spec {root : Nat} {done gs : List Region} (h : m.Trees place)
    (hroot : place root = some (root, [])) (hexact : m.Exact root done)
    (hfits : ∀ g ∈ gs, Fits g) (hrun : m.mapRegions root gs = .ok m') :
    ∃ place', m'.Trees place' ∧ Extends m place m' place' ∧ m'.Exact root (done ++ gs) ∧
      ∀ r, place r = some (r, []) → r ≠ root → ∀ key < 2 ^ 27,
        m'.leafAt r key = m.leafAt r key := by
  induction gs generalizing m place done with
  | nil =>
    obtain rfl := Except.ok.inj hrun
    exact ⟨place, h, .refl .., by rwa [List.append_nil], fun _ _ _ _ _ => rfl⟩
  | cons g gs ih =>
    obtain ⟨m₁, hrange, hrun⟩ := Except.bind_eq_ok_iff.mp hrun
    obtain ⟨hnone, place₁, h₁, hext, hin, hout⟩ :=
      mapRange_spec h hroot (hfits g (by simp)) hrange
    have hexact₁ : m₁.Exact root (done ++ [g]) := by
      intro key hkey pte
      have hg : (∃ g' ∈ done ++ [g], g'.has (key * 4096) ∧ pte = leafPte (key * 4096) g'.flags) ↔
          (∃ g' ∈ done, g'.has (key * 4096) ∧ pte = leafPte (key * 4096) g'.flags) ∨
          (g.has (key * 4096) ∧ pte = leafPte (key * 4096) g.flags) := by
        simp [or_and_right, exists_or]
      rw [hg, ← hexact key hkey pte]
      by_cases hk : g.has (key * 4096)
      · rw [hin key hkey hk, hnone key hk]
        simp [hk, eq_comm]
      · rw [hout root hroot key hkey fun hall => hk hall.2]
        simp [hk]
    obtain ⟨place', h', hext', hexact', hkeep⟩ := ih h₁ (hext.keep hroot) hexact₁
      (fun g' hg' => hfits g' (List.mem_cons_of_mem _ hg')) hrun
    refine ⟨place', h', hext.trans hext', by simpa using hexact', fun r hr hne key hkey => ?_⟩
    rw [hkeep r (hext.keep hr) hne key hkey, hout r hr key hkey fun hall => hne hall.1]

theorem buildTree_spec {text : String} {gs : List Region} {satp : Nat} (h : m.Trees place)
    (hfits : ∀ g ∈ gs, Fits g) (hrun : m.buildTree text gs = .ok (satp, m')) :
    ∃ place' root, satp = makeSatp root ∧ ¬ m.allocator.Allocated root ∧
      m'.Trees place' ∧ Extends m place m' place' ∧ place' root = some (root, []) ∧
      m'.Exact root gs ∧
      ∀ r, place r = some (r, []) → ∀ key < 2 ^ 27, m'.leafAt r key = m.leafAt r key := by
  obtain ⟨⟨root, m₁⟩, hframe, hrun⟩ := Except.bind_eq_ok_iff.mp hrun
  obtain ⟨m₂, hmap, hrun⟩ := Except.bind_eq_ok_iff.mp hrun
  obtain ⟨hsatp, rfl⟩ := Prod.mk.inj (Except.pure_eq_ok_iff.mp hrun)
  obtain ⟨hands, htables⟩ := expectFrame_ok hframe
  obtain ⟨place₁, h₁, hext, hroot, hempty, hleaf⟩ := h.plant hands htables
  have hexact : m₁.Exact root [] := by
    intro key hkey pte
    simp [hempty]
  obtain ⟨place', h', hext', hexact', hkeep⟩ := mapRegions_spec h₁ hroot hexact hfits hmap
  refine ⟨place', root, hsatp.symm, hands.fresh, h', hext.trans hext', hext'.keep hroot, hexact',
    fun r hr key hkey => ?_⟩
  have hne : r ≠ root := by
    rintro rfl
    exact hands.fresh (h.allocated hr)
  rw [hkeep r (hext.keep hr) hne key hkey, hleaf r hr]

end Mem

end Perenne

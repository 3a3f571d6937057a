import Perenne.Tables

namespace Perenne

/-- What the walk makes of an entry of a leaf table. -/
def leafTranslation (va pte : Nat) : Option Translation := walk (fun _ _ => pte) va 0 0

theorem walk_zero (tables : Nat → Nat → Nat) (va table : Nat) :
    walk tables va 0 table = if pteIsValid (tables table (vpn va 0)) then
      leafTranslation va (tables table (vpn va 0)) else none := by
  rw [leafTranslation, walk, walk, vpn_eq, pteIsValid_eq]
  cases (tables table (va / 2 ^ (12 + 9 * 0) % 512)).testBit 0
  · rfl
  · rfl

section Inner

variable {tables : Nat → Nat → Nat} {va level table : Nat}

theorem walk_succ_zero (h : tables table (vpn va (level + 1)) = 0) :
    walk tables va (level + 1) table = none := by
  rw [vpn_eq] at h
  rw [walk]
  rw [h, Nat.zero_testBit]
  rfl

theorem walk_succ_ptr {q : Nat} (hq : q < 2 ^ 44)
    (h : tables table (vpn va (level + 1)) = pteFor (q * 4096) 0) :
    walk tables va (level + 1) table = walk tables va level (q * 4096) := by
  rw [vpn_eq] at h
  have hflags : (0 : Nat) < 2 ^ 10 := by decide
  have hbits {i : Nat} (hi : i < 10) :
      (pteFor (q * 4096) 0).testBit i = (i == 0) := by
    rw [testBit_pteFor hflags hi, Nat.zero_testBit, Bool.false_or]
  have hlt : ¬ 2 ^ 54 ≤ pteFor (q * 4096) 0 := Nat.not_le.mpr (pteFor_lt hflags hq)
  rw [walk]
  rw [h, hbits (i := 0) (by decide), hbits (i := 1) (by decide), hbits (i := 2) (by decide),
    hbits (i := 3) (by decide), hbits (i := 4) (by decide), hbits (i := 6) (by decide),
    hbits (i := 7) (by decide), pteFor_div hflags, decide_eq_false hlt]
  rfl

end Inner

/-- The levels above the leaves, from `level` down. -/
def upperLevels : Nat → List Nat
  | 0 => []
  | level + 1 => (level + 1) :: upperLevels level

theorem makeSatp_eq {q : Nat} (hq : q < 2 ^ 44) : makeSatp (q * 4096) = 2 ^ 60 * 8 + q := by
  have hshift : (q * 4096) >>> 12 = q := by
    rw [Nat.shiftRight_eq_div_pow]
    exact Nat.mul_div_cancel _ (by decide)
  rw [makeSatp, hshift, ← Nat.shiftLeft_add_eq_or_of_lt (by omega), Nat.shiftLeft_eq, Nat.mul_comm]

theorem makeSatp_mod {q : Nat} (hq : q < 2 ^ 44) : makeSatp (q * 4096) % 2 ^ 44 = q := by
  rw [makeSatp_eq hq]
  omega

namespace Mem

variable {m : Mem} {place : Placement}

theorem Trees.frame (h : m.Trees place) {f : Nat} {x : Nat × List Nat} (hf : place f = some x) :
    ∃ q < 2 ^ 44, f = q * 4096 := by
  obtain ⟨i, hi, -, rfl⟩ := h.allocated hf
  have hram := h.ram
  simp only [frameSize] at hram
  exact ⟨m.allocator.base + i, by omega, rfl⟩

theorem Trees.walk_eq (h : m.Trees place) (va : Nat) {level table root : Nat} {p : List Nat}
    (ht : place table = some (root, p)) (hlen : p.length + level = 2) :
    walk m.tables va level table =
      (Radix.leaf nextTable pteIsValid m.tables table ((upperLevels level).map (vpn va))
        (vpn va 0)).bind (leafTranslation va) := by
  induction level generalizing table p with
  | zero =>
    rw [walk_zero, upperLevels, Radix.leaf, List.map_nil, Radix.descend, Option.bind_some]
    split <;> rfl
  | succ level ih =>
    rw [upperLevels, Radix.leaf, List.map_cons, Radix.descend]
    obtain hzero | ⟨c, hptr, hc⟩ := h.forest.inner ht (by omega) (vpn va (level + 1))
    · rw [walk_succ_zero hzero, hzero]
      rfl
    · obtain ⟨q, hq, rfl⟩ := h.frame hc
      rw [walk_succ_ptr hq hptr, hptr, h.reads.ptr hc, ih hc (by simp; omega)]
      rfl

theorem Trees.translate_eq (h : m.Trees place) {root : Nat} (hroot : place root = some (root, []))
    {va : Nat} (hva : canonical va) :
    translate m.tables (makeSatp root) va =
      (m.leafAt root (pageKey va)).bind (leafTranslation va) := by
  obtain ⟨q, hq, rfl⟩ := h.frame hroot
  have hmode : makeSatp (q * 4096) / 2 ^ 60 = 8 := by
    rw [makeSatp_eq hq]
    omega
  rw [translate, if_pos ⟨hmode, hva⟩, makeSatp_mod hq, h.walk_eq va hroot rfl, leafAt,
    (vpn_pageKey va).1, (vpn_pageKey va).2]
  rfl

end Mem

section LeafPte

variable {q flags : Nat} (hflags : flags < 2 ^ 10)

include hflags

theorem leafFlags_lt : flags ||| pteA ||| (if flags &&& pteW ≠ 0 then pteD else 0) < 2 ^ 10 := by
  have hdirty : (if flags &&& pteW ≠ 0 then pteD else 0) < 2 ^ 10 := by split <;> decide
  exact Nat.or_lt_two_pow (Nat.or_lt_two_pow hflags (by decide)) hdirty

theorem leafPte_testBit {i : Nat} (hi : i < 6) (hi0 : 0 < i) :
    (Mem.leafPte (q * 4096) flags).testBit i = flags.testBit i := by
  have hd : (if flags &&& pteW ≠ 0 then pteD else 0).testBit i = false := by
    split
    · exact (by decide : ∀ i < 6, pteD.testBit i = false) i hi
    · exact Nat.zero_testBit i
  have ha : pteA.testBit i = false := (by decide : ∀ i < 6, pteA.testBit i = false) i hi
  rw [Mem.leafPte, testBit_pteFor (leafFlags_lt hflags) (by omega), Nat.testBit_or, Nat.testBit_or,
    ha, hd, Bool.or_false, Bool.or_false, beq_false_of_ne (by omega), Bool.or_false]

theorem leafPte_valid : (Mem.leafPte (q * 4096) flags).testBit 0 = true := by
  rw [← pteIsValid_eq]
  exact pteIsValid_pteFor (leafFlags_lt hflags)

theorem leafPte_accessed : (Mem.leafPte (q * 4096) flags).testBit 6 = true := by
  rw [Mem.leafPte, testBit_pteFor (leafFlags_lt hflags) (by decide), Nat.testBit_or, Nat.testBit_or,
    show pteA.testBit 6 = true from rfl, Bool.or_true, Bool.true_or, Bool.true_or]

theorem leafPte_lt (hq : q < 2 ^ 44) : Mem.leafPte (q * 4096) flags < 2 ^ 54 :=
  pteFor_lt (leafFlags_lt hflags) hq

theorem leafPte_div : Mem.leafPte (q * 4096) flags / 2 ^ 10 = q :=
  pteFor_div (leafFlags_lt hflags)

end LeafPte

theorem leafTranslation_leafPte (va : Nat) {q flags : Nat} (hq : q < 2 ^ 44)
    (hflags : flags < 2 ^ 10) (hread : flags.testBit 1 = true) :
    leafTranslation va (Mem.leafPte (q * 4096) flags) =
      some ⟨q * 4096 + va % 4096, true, flags.testBit 2, flags.testBit 3, flags.testBit 4⟩ := by
  have hbits {i : Nat} (hi : i < 6) (hi0 : 0 < i) :
      (Mem.leafPte (q * 4096) flags).testBit i = flags.testBit i := leafPte_testBit hflags hi hi0
  have hlt : ¬ 2 ^ 54 ≤ Mem.leafPte (q * 4096) flags := Nat.not_le.mpr (leafPte_lt hflags hq)
  have hmod : q * 4096 % 2 ^ (12 + 9 * 0) = 0 := Nat.mul_mod_left ..
  rw [leafTranslation, walk]
  rw [leafPte_valid hflags, hbits (i := 1) (by decide) (by decide), hread,
    hbits (i := 2) (by decide) (by decide), hbits (i := 3) (by decide) (by decide),
    hbits (i := 4) (by decide) (by decide), leafPte_accessed hflags, leafPte_div hflags, hmod,
    decide_eq_false hlt]
  rfl

end Perenne

import Perenne.Unnoticed

namespace Perenne.Preempt

open Riscv Asm

variable {ι : Type*}

theorem userSstatus_bits (n : Nat) : (BitVec.ofNat 64 (userSstatus n)).getLsbD 5 = true ∧
    (BitVec.ofNat 64 (userSstatus n)).getLsbD 8 = false := by
  have h5 : (2 ^ 5 : Nat).testBit 5 = true := by decide
  have h8 : (2 ^ 5 : Nat).testBit 8 = false := by decide
  have hclear : (usizeMax - 2 ^ 8).testBit 8 = false := by decide
  constructor
  · rw [userSstatus, BitVec.getLsbD_ofNat, Nat.testBit_or, h5, Bool.or_true]
    rfl
  · rw [userSstatus, BitVec.getLsbD_ofNat, Nat.testBit_or, Nat.testBit_and, h8, hclear,
      Bool.and_false]
    rfl

/-- A U-mode task at its first instruction. Its next trap lands below the top of its trap stack,
and interrupts are on and stay on across `sret`. -/
structure FirstRun (entry userSp kstackTop generation arg₁ arg₂ : Nat) (satp : Word) (e : Core) :
    Prop where
  user : e.user = true
  pc : e.pc = BitVec.ofNat 64 entry
  sp : e.get sp = BitVec.ofNat 64 (align16 userSp)
  args : e.get a0 = BitVec.ofNat 64 generation ∧ e.get a1 = BitVec.ofNat 64 arg₁ ∧
    e.get a2 = BitVec.ofNat 64 arg₂
  satp : e.csrs .satp = satp
  trap (scause stval : Word) (h : align16 kstackTop % 2 ^ 64 ≠ 0) :
    frameBase (e.takeTrap scause stval) = BitVec.ofNat 64 (align16 kstackTop) - 288#64
  sie : (e.csrs .sstatus).getLsbD 1 = true ∧ (e.csrs .sstatus).getLsbD 5 = true

/-- A task that was spawned or restarted, and is switched to by a kernel with interrupts off. -/
theorem first_run {L : Layout ι} {j : ι} (hu : L.user j = true)
    {tramp entry userSp kstackTop sstatus generation arg₁ arg₂ : Nat} {c : Core}
    (hstored : Stored c.mem (L.context j)
      (launchContext tramp entry userSp kstackTop sstatus generation arg₁ arg₂)) {old : Word}
    (hold : ∀ p ∈ contextRegs, old + BitVec.ofNat 64 p.2 ∉ L.contextArea j) :
    FirstRun entry userSp kstackTop generation arg₁ arg₂ (L.satp j)
      (arrive L j (switchTo L old j c)) := by
  have hm := Layout.switchTo_moved L old j c
  have hs : Stored (switchTo L old j c).mem (L.context j)
      (launchContext tramp entry userSp kstackTop sstatus generation arg₁ arg₂) :=
    Layout.stored_congr hstored fun a ha => hm.kept fun p hp he => hold p hp (he ▸ ha)
  have hl := userTrampoline_launched (switchTo L old j c)
  have hreg (r : Reg) (n : Fin 12) (hr : (r, 16 + 8 * n.val) ∈ contextRegs) :
      (switchTo L old j c).get r = BitVec.ofNat 64
        ((launchContext tramp entry userSp kstackTop sstatus generation arg₁ arg₂).s n) :=
    (hm.reg hr).trans (hs.s n)
  have hsp : (switchTo L old j c).get sp = BitVec.ofNat 64 (align16 kstackTop) :=
    (hm.reg (p := (sp, 8)) (by decide)).trans hs.sp
  have hstatus : (switchTo L old j c).get s2 = BitVec.ofNat 64 (userSstatus sstatus) :=
    hreg s2 2 (by decide)
  have hbits := userSstatus_bits sstatus
  rw [arrive, hu, if_pos rfl]
  rw [hstatus, hsp] at hl
  refine ⟨?_, ?_, ?_, ⟨?_, ?_, ?_⟩, hl.satp.trans hm.satp, fun scause stval htop => ?_, ?_⟩
  · rw [hl.user, hbits.2]
    rfl
  · exact hl.pc.trans (hreg s0 0 (by decide))
  · exact hl.sp.trans (hreg s1 1 (by decide))
  · exact hl.args.1.trans (hreg s3 3 (by decide))
  · exact hl.args.2.1.trans (hreg s4 4 (by decide))
  · exact hl.args.2.2.trans (hreg s5 5 (by decide))
  · rw [frameBase, Core.takeTrap_sscratch, hl.sscratch, if_neg]
    intro h0
    have h0 := congrArg BitVec.toNat h0
    rw [BitVec.toNat_ofNat] at h0
    exact htop h0
  · rw [hl.sstatus, sretStatus_sie]
    exact ⟨hbits.1, (sretStatus_bits _).1⟩

/-- The second task of the pair after three restarts. -/
def pairRestarted : Context := launchContext 0x100 0x200 0x8008 0x21000 2 3 5 7

def pairRestartedMem (a : Word) : Word :=
  BitVec.ofNat 64 (((pairRestarted.ra :: pairRestarted.sp :: List.ofFn pairRestarted.s)[
    a.toNat % 0x1000 / 8]?).getD 0)

theorem first_run_pair : FirstRun 0x200 0x8008 0x21000 3 5 7 (pair.satp true)
    (arrive pair true (switchTo pair (pair.context false) true
      ⟨fun _ => 9, 0, false, fun _ => 0, pairRestartedMem⟩)) := by
  have hstored : Stored pairRestartedMem (pair.context true) pairRestarted := by
    refine ⟨by decide +kernel, by decide +kernel, fun n => ?_⟩
    revert n
    decide +kernel
  refine first_run rfl hstored fun p hp hmem => ?_
  exact Set.disjoint_left.mp (pair_sound.context_ne (by decide)) (Layout.mem_contextArea false hp)
    hmem

end Perenne.Preempt

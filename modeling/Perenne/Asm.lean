import Perenne.Lib.Riscv

namespace Perenne.Asm

open Riscv

abbrev ra : Reg := 1

abbrev sp : Reg := 2

abbrev t0 : Reg := 5

abbrev t1 : Reg := 6

abbrev s0 : Reg := 8

abbrev s1 : Reg := 9

abbrev a0 : Reg := 10

abbrev a1 : Reg := 11

abbrev a2 : Reg := 12

abbrev s2 : Reg := 18

abbrev s3 : Reg := 19

abbrev s4 : Reg := 20

abbrev s5 : Reg := 21

/-- The registers that `__trap_entry` stores as they are, and where: `sd x1, 0(sp)` and so on.
`x2` and `x5` are stored apart. -/
def frameRegs : List (Reg × Nat) :=
  [(1, 0), (3, 16), (4, 24), (6, 40), (7, 48), (8, 56), (9, 64), (10, 72), (11, 80), (12, 88),
    (13, 96), (14, 104), (15, 112), (16, 120), (17, 128), (18, 136), (19, 144), (20, 152),
    (21, 160), (22, 168), (23, 176), (24, 184), (25, 192), (26, 200), (27, 208), (28, 216),
    (29, 224), (30, 232), (31, 240)]

/-- The registers that the exit loads before `x2`, and from where. -/
def exitRegs : List (Reg × Nat) :=
  [(1, 0), (3, 16), (4, 24), (5, 32), (6, 40), (7, 48), (8, 56), (9, 64), (10, 72), (11, 80),
    (12, 88), (13, 96), (14, 104), (15, 112), (16, 120), (17, 128), (18, 136), (19, 144),
    (20, 152), (21, 160), (22, 168), (23, 176), (24, 184), (25, 192), (26, 200), (27, 208),
    (28, 216), (29, 224), (30, 232), (31, 240)]

/-- The registers of a `Context`, and where `switch_context` keeps them. -/
def contextRegs : List (Reg × Nat) :=
  [(1, 0), (2, 8), (8, 16), (9, 24), (18, 32), (19, 40), (20, 48), (21, 56), (22, 64), (23, 72),
    (24, 80), (25, 88), (26, 96), (27, 104)]

/-- The arm of `__trap_entry` for a trap from S-mode. -/
def fromKernel : List Instr :=
  [.csrrw sp .sscratch sp, .addi sp sp (-288), .sd t0 32 sp, .addi t0 sp 288]

def fromUser : List Instr :=
  [.addi sp sp (-288), .sd t0 32 sp, .csrr t0 .sscratch, .csrw .sscratch 0]

/-- The control registers of a frame, and where they are stored. -/
def frameCsrs : List (Csr × Nat) := [(.sepc, 248), (.sstatus, 256), (.scause, 264), (.stval, 272)]

/-- The common path of `__trap_entry` up to the call. -/
def saveFrame : List Instr :=
  ((t0, 8) :: frameRegs).map (fun p => .sd p.1 p.2 sp) ++
    (frameCsrs.flatMap (fun p => [.csrr t0 p.1, .sd t0 p.2 sp]) ++ [.mv a0 sp])

/-- `__trap_entry` up to `call trap_handler`. -/
def trapEntry : List Line :=
  .instr (.csrrw sp .sscratch sp) :: .bnez sp 1 :: (fromKernel.map .instr ++ (.j 2 :: .label 1 ::
    (fromUser.map .instr ++ (.label 2 :: saveFrame.map .instr))))

/-- The start of the exit: `sepc` and `sstatus` from the frame, and SPP in `t1`. -/
def loadStatus : List Instr :=
  [.ld t0 248 sp, .csrw .sepc t0, .ld t0 256 sp, .csrw .sstatus t0, .andi t1 t0 0x100]

/-- The arming of `sscratch` on the way to U-mode. -/
def armScratch : List Instr := [.addi t1 sp 288, .csrw .sscratch t1]

/-- The end of the exit, which loads the registers and leaves. -/
def restoreFrame : List Instr :=
  exitRegs.map (fun p => .ld p.1 p.2 sp) ++ [.ld sp 8 sp, .sret]

/-- `__trap_entry` after `call trap_handler`. -/
def trapExit : List Line :=
  loadStatus.map .instr ++ (.bnez t1 3 ::
    (armScratch.map .instr ++ (.label 3 :: restoreFrame.map .instr)))

/-- `switch_context`. -/
def switchContext : List Instr :=
  contextRegs.map (fun p => .sd p.1 p.2 a0) ++ (contextRegs.map (fun p => .ld p.1 p.2 a1) ++ [.ret])

/-- `task_trampoline`, up to the call of the entry function; `link` is the address after it. -/
def taskTrampoline (link : Word) : List Instr := [.csrsi .sstatus 0x2, .jalr s0 link]

/-- `user_trampoline`. -/
def userTrampoline : List Instr :=
  [.csrw .sscratch sp, .csrw .sepc s0, .csrw .sstatus s2, .mv sp s1, .mv a0 s3, .mv a1 s4,
    .mv a2 s5, .sret]

/-- The offset of `x_r` in a `TrapFrame`. -/
def slot (r : Reg) : Nat := 8 * (r.val - 1)

/-- Where `__trap_entry` puts the frame: below the trap stack, or below the stack in use. -/
def frameBase (c : Core) : Word :=
  (if c.csrs .sscratch = 0 then c.get sp else c.csrs .sscratch) - 288#64

/-- What the two arms agree on: room for the frame, `t0` saved and holding the interrupted `sp`,
and `sscratch` zero. -/
structure Framed (c c' : Core) : Prop where
  sp : c'.get sp = frameBase c
  t0 : c'.get t0 = c.get Asm.sp
  other (r : Reg) (hsp : r ≠ Asm.sp) (ht0 : r ≠ Asm.t0) : c'.get r = c.get r
  sscratch : c'.csrs .sscratch = 0
  csrs (k : Csr) (hk : k ≠ .sscratch) : c'.csrs k = c.csrs k
  mem : c'.mem = storeAll (frameBase c) [(32, c.get Asm.t0)] c.mem
  user : c'.user = c.user

theorem add_frame (w : Word) : w + BitVec.ofInt 64 (-288) = w - 288#64 := by
  have h : BitVec.ofInt 64 (-288) = -288#64 := by decide
  rw [BitVec.sub_eq_add_neg, h]

theorem sub_frame_add (w : Word) : w - 288#64 + BitVec.ofInt 64 288 = w := by
  have h : BitVec.ofInt 64 288 = 288#64 := by decide
  rw [h, BitVec.sub_add_cancel]

theorem sp_ne_zero : sp ≠ 0 := by decide

theorem t0_ne_zero : t0 ≠ 0 := by decide

theorem sp_ne_t0 : sp ≠ t0 := by decide

theorem t0_ne_sp : t0 ≠ sp := by decide

theorem fromKernel_framed {c : Core} (h : c.csrs .sscratch = 0) :
    Framed c (execAll fromKernel (Instr.exec (.csrrw sp .sscratch sp) c)) := by
  have hbase : frameBase c = c.get sp - 288#64 := by rw [frameBase, if_pos h]
  simp only [fromKernel, execAll_cons, execAll_nil]
  constructor
  · simp only [Instr.exec, Core.store_get, Core.get_set_self _ sp_ne_zero,
      Core.get_set_ne _ sp_ne_t0, Core.set_csrs, Core.setCsr_csrs_self, hbase, add_frame]
  · simp only [Instr.exec, Core.store_get, Core.get_set_self _ sp_ne_zero,
      Core.get_set_self _ t0_ne_zero, Core.set_csrs, Core.setCsr_csrs_self, add_frame,
      sub_frame_add]
  · intro r hsp ht0
    simp only [Instr.exec, Core.setCsr_get, Core.store_get,
      Core.get_set_ne _ hsp, Core.get_set_ne _ ht0]
  · simp only [Instr.exec, Core.set_csrs, Core.store_csrs,
      Core.setCsr_csrs_self, Core.get_set_self _ sp_ne_zero, h]
  · intro k hk
    simp only [Instr.exec, Core.set_csrs, Core.store_csrs,
      Core.setCsr_csrs_ne _ hk]
  · simp only [Instr.exec, Core.setCsr_get,
      Core.get_set_self _ sp_ne_zero, Core.get_set_ne _ t0_ne_sp, Core.set_csrs,
      Core.setCsr_csrs_self, Core.set_mem, Core.store, Core.setCsr_mem, hbase, add_frame]
    rfl
  · exact @execAll_user (.csrrw sp .sscratch sp :: fromKernel) (by decide) c

theorem fromUser_framed {c : Core} (h : c.csrs .sscratch ≠ 0) :
    Framed c (execAll fromUser (Instr.exec (.csrrw sp .sscratch sp) c)) := by
  have hbase : frameBase c = c.csrs .sscratch - 288#64 := by rw [frameBase, if_neg h]
  simp only [fromUser, execAll_cons, execAll_nil]
  constructor
  · simp only [Instr.exec, Core.setCsr_get, Core.store_get,
      Core.get_set_self _ sp_ne_zero, Core.get_set_ne _ sp_ne_t0, hbase, add_frame]
  · simp only [Instr.exec, Core.setCsr_get, Core.store_csrs,
      Core.get_set_self _ t0_ne_zero, Core.set_csrs, Core.setCsr_csrs_self]
  · intro r hsp ht0
    simp only [Instr.exec, Core.setCsr_get, Core.store_get,
      Core.get_set_ne _ hsp, Core.get_set_ne _ ht0]
  · simp only [Instr.exec, Core.setCsr_csrs_self]
    rfl
  · intro k hk
    simp only [Instr.exec, Core.set_csrs, Core.store_csrs,
      Core.setCsr_csrs_ne _ hk]
  · simp only [Instr.exec, Core.setCsr_get,
      Core.get_set_self _ sp_ne_zero, Core.get_set_ne _ t0_ne_sp, Core.set_mem, Core.store,
      Core.setCsr_mem, hbase, add_frame]
    rfl
  · exact @execAll_user (.csrrw sp .sscratch sp :: fromUser) (by decide) c

theorem trapEntry_arms (c : Core) :
    ∃ c', Framed c c' ∧ run none trapEntry c = execAll saveFrame c' := by
  have hsp : (Instr.exec (.csrrw sp .sscratch sp) c).get sp = c.csrs .sscratch :=
    Core.get_set_self _ (by decide) _
  by_cases h : c.csrs .sscratch = 0
  · refine ⟨_, fromKernel_framed h, ?_⟩
    change run (if (Instr.exec (.csrrw sp .sscratch sp) c).get sp = 0 then none else some 1) _ _ = _
    rw [hsp, if_pos h, run_instrs]
    change run (some 2) (fromUser.map .instr ++ (.label 2 :: saveFrame.map .instr)) _ = _
    rw [run_skip]
    exact run_instrs_end ..
  · refine ⟨_, fromUser_framed h, ?_⟩
    change run (if (Instr.exec (.csrrw sp .sscratch sp) c).get sp = 0 then none else some 1) _ _ = _
    rw [hsp, if_neg h, run_skip]
    change run none (fromUser.map .instr ++ (.label 2 :: saveFrame.map .instr)) _ = _
    rw [run_instrs]
    exact run_instrs_end ..

/-- The words that are stored in the frame. -/
def frameWords (c : Core) : List (Nat × Word) :=
  [(32, c.get t0), (8, c.get sp)] ++ frameRegs.map (fun p => (p.2, c.get p.1)) ++
    frameCsrs.map (fun p => (p.2, c.csrs p.1))

def frameOffsets : List Nat := [32, 8] ++ frameRegs.map Prod.snd ++ frameCsrs.map Prod.snd

theorem frameWords_fst (c : Core) : (frameWords c).map Prod.fst = frameOffsets := by
  simp only [frameWords, frameOffsets, List.map_append, List.map_map]
  rfl

theorem frameOffsets_nodup : (frameOffsets.map (BitVec.ofNat 64)).Nodup := by
  decide +kernel

/-- What `__trap_entry` does up to the call of the handler. -/
structure Entered (c e : Core) : Prop where
  sp : e.get sp = frameBase c
  arg : e.get a0 = frameBase c
  mem : e.mem = storeAll (frameBase c) (frameWords c) c.mem
  sscratch : e.csrs .sscratch = 0
  csrs (k : Csr) (hk : k ≠ .sscratch) : e.csrs k = c.csrs k
  user : e.user = c.user

theorem saveFrame_entered {c c' : Core} (h : Framed c c') : Entered c (execAll saveFrame c') := by
  obtain ⟨hsp, ht0, hother, hscratch, hcsrs, hmem, huser⟩ := h
  have hmode : (execAll saveFrame c').user = c'.user := execAll_user (by decide) c'
  have hend : execAll saveFrame c' = Instr.exec (.mv a0 sp)
      (execAll (frameCsrs.flatMap fun p => [.csrr t0 p.1, .sd t0 p.2 sp])
        (execAll (((t0, 8) :: frameRegs).map fun p => .sd p.1 p.2 sp) c')) := by
    rw [saveFrame, execAll_append, execAll_append, execAll_cons, execAll_nil]
  generalize hc₁ : execAll (((t0, 8) :: frameRegs).map fun p => .sd p.1 p.2 sp) c' = c₁ at hend
  rw [execAll_sd] at hc₁
  have hmem₁ : c₁.mem = storeAll (c'.get sp)
      (((t0, 8) :: frameRegs).map fun p => (p.2, c'.get p.1)) c'.mem := by rw [← hc₁]
  have hsp₁ : c₁.get sp = c'.get sp := by rw [← hc₁]; rfl
  have hcsrs₁ : c₁.csrs = c'.csrs := by rw [← hc₁]
  generalize hc₂ : execAll (frameCsrs.flatMap fun p => [.csrr t0 p.1, .sd t0 p.2 sp]) c₁ = c₂
    at hend
  obtain ⟨hmem₂, hcsrs₂, hother₂⟩ := execAll_csrr_sd t0_ne_zero sp_ne_t0 frameCsrs c₁
  rw [hc₂] at hmem₂ hcsrs₂ hother₂
  have hsp₂ : c₂.get sp = frameBase c := by rw [hother₂ sp sp_ne_t0, hsp₁, hsp]
  -- the interrupted `sp` is in `t0`, and the other registers are untouched
  have hwords : ((t0, 8) :: frameRegs).map (fun p => (p.2, c'.get p.1)) =
      (8, c.get sp) :: frameRegs.map fun p => (p.2, c.get p.1) := by
    rw [List.map_cons, ht0]
    refine congrArg _ (List.map_congr_left fun p hp => ?_)
    have hne : ∀ p ∈ frameRegs, p.1 ≠ sp ∧ p.1 ≠ t0 := by decide
    rw [hother p.1 (hne p hp).1 (hne p hp).2]
  have hcsrWords : frameCsrs.map (fun p => (p.2, c₁.csrs p.1)) =
      frameCsrs.map fun p => (p.2, c.csrs p.1) := by
    refine List.map_congr_left fun p hp => ?_
    have hne : ∀ p ∈ frameCsrs, p.1 ≠ .sscratch := by decide
    rw [hcsrs₁, hcsrs p.1 (hne p hp)]
  rw [hend] at hmode ⊢
  refine ⟨?_, ?_, ?_, ?_, fun k hk => ?_, hmode.trans huser⟩
  · exact (Core.get_set_ne _ (by decide) _).trans hsp₂
  · exact (Core.get_set_self _ (by decide) _).trans hsp₂
  · refine (Core.set_mem ..).trans ?_
    rw [hmem₂, hcsrWords, hsp₁, hmem₁, hwords, hsp, hmem, ← storeAll_append, ← storeAll_append]
    rfl
  · exact (congrFun (Core.set_csrs ..) _).trans (by rw [hcsrs₂, hcsrs₁, hscratch])
  · exact (congrFun (Core.set_csrs ..) _).trans (by rw [hcsrs₂, hcsrs₁, hcsrs k hk])

theorem trapEntry_entered (c : Core) : Entered c (run none trapEntry c) := by
  obtain ⟨c', hc', he⟩ := trapEntry_arms c
  rw [he]
  exact saveFrame_entered hc'

theorem slot_mem_frameWords (c : Core) {r : Reg} (hr : r ≠ 0) : (slot r, c.get r) ∈ frameWords c := by
  have hslots : ∀ r : Reg, r ≠ 0 → r = t0 ∨ r = sp ∨ (r, slot r) ∈ frameRegs := by decide
  refine List.mem_append_left _ ?_
  obtain rfl | rfl | h := hslots r hr
  · exact List.mem_append_left _ (.head _)
  · exact List.mem_append_left _ (.tail _ (.head _))
  · exact List.mem_append_right _ (List.mem_map.mpr ⟨_, h, rfl⟩)

theorem csr_mem_frameWords (c : Core) {k : Csr} {o : Nat} (h : (k, o) ∈ frameCsrs) :
    (o, c.csrs k) ∈ frameWords c :=
  List.mem_append_right _ (List.mem_map.mpr ⟨_, h, rfl⟩)

section

variable {c e : Core} (h : Entered c e)
include h

theorem Entered.word {o : Nat} {w : Word} (hw : (o, w) ∈ frameWords c) :
    e.mem (frameBase c + BitVec.ofNat 64 o) = w := by
  rw [h.mem]
  refine storeAll_of_mem ?_ hw
  have hfst := congrArg (List.map (BitVec.ofNat 64)) (frameWords_fst c)
  rw [List.map_map] at hfst
  exact hfst ▸ frameOffsets_nodup

theorem Entered.outside {a : Word} (ha : ∀ o ∈ frameOffsets, a ≠ frameBase c + BitVec.ofNat 64 o) :
    e.mem a = c.mem a := by
  rw [h.mem]
  refine storeAll_of_not_mem fun p hp => ha p.1 ?_
  rw [← frameWords_fst c]
  exact List.mem_map_of_mem hp

end

/-- What `__trap_entry` does after the call, with the frame at `sp`. -/
structure Exited (c e : Core) : Prop where
  reg (r : Reg) (hr : r ≠ 0) : e.get r = c.mem (c.get sp + BitVec.ofNat 64 (slot r))
  pc : e.pc = c.mem (c.get sp + 248#64)
  sepc : e.csrs .sepc = c.mem (c.get sp + 248#64)
  sstatus : e.csrs .sstatus = sretStatus (c.mem (c.get sp + 256#64))
  user : e.user = !(c.mem (c.get sp + 256#64)).getLsbD 8
  sscratch : e.csrs .sscratch =
    if (c.mem (c.get sp + 256#64)).getLsbD 8 then c.csrs .sscratch else c.get sp + 288#64
  satp : e.csrs .satp = c.csrs .satp
  mem : e.mem = c.mem

/-- The core before the registers are loaded. -/
structure Prepared (c c' : Core) : Prop where
  sp : c'.get sp = c.get sp
  sepc : c'.csrs .sepc = c.mem (c.get Asm.sp + 248#64)
  sstatus : c'.csrs .sstatus = c.mem (c.get Asm.sp + 256#64)
  sscratch : c'.csrs .sscratch = if (c.mem (c.get Asm.sp + 256#64)).getLsbD 8 then c.csrs .sscratch
    else c.get Asm.sp + 288#64
  satp : c'.csrs .satp = c.csrs .satp
  mem : c'.mem = c.mem

theorem sp_ne_t1 : sp ≠ t1 := by decide

theorem t1_ne_zero : t1 ≠ 0 := by decide

theorem restoreFrame_exited {c c' : Core} (h : Prepared c c') :
    Exited c (execAll restoreFrame c') := by
  obtain ⟨hsp, hsepc, hsstatus, hscratch, hsatp, hmem⟩ := h
  have hend : execAll restoreFrame c' =
      Instr.exec .sret (Instr.exec (.ld sp 8 sp)
        (execAll (exitRegs.map fun p => .ld p.1 p.2 sp) c')) := by
    rw [restoreFrame, execAll_append, execAll_cons, execAll_cons, execAll_nil]
  have hload {p : Reg × Nat} (hp : p ∈ exitRegs) (h0 : p.1 ≠ 0) :=
    execAll_ld_get (by decide : sp ∉ exitRegs.map Prod.fst) (by decide) c' hp h0
  obtain ⟨hmem₁, hcsrs₁, -, hother₁⟩ := execAll_ld sp exitRegs c'
  generalize execAll (exitRegs.map fun p => .ld p.1 p.2 sp) c' = c₁ at *
  have hsp₁ : c₁.get sp = c.get sp := (hother₁ sp (by decide)).trans hsp
  generalize hc₂ : Instr.exec (.ld sp 8 sp) c₁ = c₂ at hend
  have hmem₂ : c₂.mem = c.mem := by
    rw [← hc₂]
    exact (Core.set_mem ..).trans (hmem₁.trans hmem)
  have hcsrs₂ : c₂.csrs = c'.csrs := by
    rw [← hc₂]
    exact (Core.set_csrs ..).trans hcsrs₁
  have hreg₂ (r : Reg) (hr : r ≠ 0) : c₂.get r = c.mem (c.get sp + BitVec.ofNat 64 (slot r)) := by
    rw [← hc₂]
    by_cases hrsp : r = sp
    · subst hrsp
      refine (Core.get_set_self _ hr _).trans ?_
      rw [hmem₁, hmem, hsp₁]
      rfl
    · have hslots : ∀ r : Reg, r ≠ 0 → r ≠ sp → (r, slot r) ∈ exitRegs := by decide
      refine (Core.get_set_ne _ hrsp _).trans ?_
      rw [hload (hslots r hr hrsp) hr, hmem, hsp]
  have hother₃ {k : Csr} (hk : k ≠ .sstatus) : (Instr.exec .sret c₂).csrs k = c₂.csrs k :=
    Core.setCsr_csrs_ne c₂ hk (sretStatus (c₂.csrs .sstatus))
  have hstatus₃ : (Instr.exec .sret c₂).csrs .sstatus = sretStatus (c₂.csrs .sstatus) :=
    Core.setCsr_csrs_self c₂ .sstatus (sretStatus (c₂.csrs .sstatus))
  rw [hend]
  refine ⟨hreg₂, ?_, ?_, ?_, ?_, ?_, ?_, hmem₂⟩
  · change c₂.csrs .sepc = _
    rw [hcsrs₂, hsepc]
  · rw [hother₃ (by decide), hcsrs₂, hsepc]
  · rw [hstatus₃, hcsrs₂, hsstatus]
  · change (!(c₂.csrs .sstatus).getLsbD 8) = _
    rw [hcsrs₂, hsstatus]
  · rw [hother₃ (by decide), hcsrs₂, hscratch]
  · rw [hother₃ (by decide), hcsrs₂, hsatp]

/-- What the start of the exit does. -/
structure StatusLoaded (c c' : Core) : Prop where
  sp : c'.get sp = c.get sp
  spp : c'.get t1 = c.mem (c.get Asm.sp + 256#64) &&& BitVec.ofInt 64 0x100
  sepc : c'.csrs .sepc = c.mem (c.get Asm.sp + 248#64)
  sstatus : c'.csrs .sstatus = c.mem (c.get Asm.sp + 256#64)
  csrs (k : Csr) (hsepc : k ≠ .sepc) (hsstatus : k ≠ .sstatus) : c'.csrs k = c.csrs k
  mem : c'.mem = c.mem

theorem loadStatus_loaded (c : Core) : StatusLoaded c (execAll loadStatus c) := by
  have hne : Csr.sepc ≠ .sstatus := by decide
  simp only [loadStatus, execAll_cons, execAll_nil]
  constructor
  · simp only [Instr.exec, Core.setCsr_get, Core.get_set_ne _ sp_ne_t0, Core.get_set_ne _ sp_ne_t1]
  · simp only [Instr.exec, Core.setCsr_get, Core.get_set_self _ t0_ne_zero,
      Core.get_set_self _ t1_ne_zero, Core.get_set_ne _ sp_ne_t0, Core.setCsr_mem, Core.set_mem]
  · simp only [Instr.exec, Core.setCsr_get, Core.get_set_self _ t0_ne_zero, Core.set_csrs,
      Core.setCsr_csrs_ne _ hne, Core.setCsr_csrs_self]
  · simp only [Instr.exec, Core.setCsr_get, Core.get_set_self _ t0_ne_zero,
      Core.get_set_ne _ sp_ne_t0, Core.set_csrs, Core.setCsr_csrs_self, Core.setCsr_mem,
      Core.set_mem]
  · intro k hsepc hsstatus
    simp only [Instr.exec, Core.set_csrs, Core.setCsr_csrs_ne _ hsepc,
      Core.setCsr_csrs_ne _ hsstatus]
  · simp only [Instr.exec, Core.setCsr_mem, Core.set_mem]

theorem armScratch_prepared {c c' : Core} (h : StatusLoaded c c')
    (hspp : (c.mem (c.get sp + 256#64)).getLsbD 8 = false) :
    Prepared c (execAll armScratch c') := by
  have hadd (w : Word) : w + BitVec.ofInt 64 288 = w + 288#64 :=
    congrArg (w + ·) (by decide : BitVec.ofInt 64 288 = 288#64)
  have hcsr {k : Csr} (hk : k ≠ .sscratch) : (execAll armScratch c').csrs k = c'.csrs k := by
    simp only [armScratch, execAll_cons, execAll_nil, Instr.exec, Core.setCsr_csrs_ne _ hk,
      Core.set_csrs]
  refine ⟨?_, ?_, ?_, ?_, ?_, ?_⟩
  · rw [← h.sp]
    simp only [armScratch, execAll_cons, execAll_nil, Instr.exec, Core.setCsr_get,
      Core.get_set_ne _ sp_ne_t1]
  · rw [hcsr (by decide), h.sepc]
  · rw [hcsr (by decide), h.sstatus]
  · simp only [armScratch, execAll_cons, execAll_nil, Instr.exec, Core.setCsr_csrs_self,
      Core.get_set_self _ t1_ne_zero, h.sp, hspp, hadd, Bool.false_eq_true, if_false]
  · rw [hcsr (by decide), h.csrs .satp (by decide) (by decide)]
  · rw [← h.mem]
    simp only [armScratch, execAll_cons, execAll_nil, Instr.exec, Core.setCsr_mem, Core.set_mem]

theorem trapExit_exited (c : Core) : Exited c (run none trapExit c) := by
  have h := loadStatus_loaded c
  rw [trapExit, run_instrs]
  generalize execAll loadStatus c = c' at h
  have hbranch : c'.get t1 = 0 ↔ (c.mem (c.get sp + 256#64)).getLsbD 8 = false := by
    rw [h.spp, and_spp]
  change Exited c (run (if c'.get t1 = 0 then none else some 3) _ c')
  cases hspp : (c.mem (c.get sp + 256#64)).getLsbD 8 with
  | false =>
    rw [if_pos (hbranch.mpr hspp), run_instrs]
    change Exited c (run none (restoreFrame.map .instr) _)
    rw [run_instrs_end]
    exact restoreFrame_exited (armScratch_prepared h hspp)
  | true =>
    have hne : c'.get t1 ≠ 0 := fun h0 => by
      rw [hbranch.mp h0] at hspp
      cases hspp
    rw [if_neg hne, run_skip]
    change Exited c (run none (restoreFrame.map .instr) _)
    rw [run_instrs_end]
    refine restoreFrame_exited ⟨h.sp, h.sepc, h.sstatus, ?_, ?_, h.mem⟩
    · rw [hspp, if_pos rfl]
      exact h.csrs .sscratch (by decide) (by decide)
    · exact h.csrs .satp (by decide) (by decide)

theorem contextRegs_nodup : (contextRegs.map fun p => BitVec.ofNat 64 p.2).Nodup := by
  decide +kernel

/-- What `switch_context` does with the `Context`s at `a0` and `a1`. -/
structure Switched (c e : Core) : Prop where
  mem : e.mem = storeAll (c.get a0) (contextRegs.map fun p => (p.2, c.get p.1)) c.mem
  reg {p : Reg × Nat} (hp : p ∈ contextRegs) :
    e.get p.1 = e.mem (c.get a1 + BitVec.ofNat 64 p.2)
  pc : e.pc = e.mem (c.get a1 + 0#64)
  csrs : e.csrs = c.csrs
  user : e.user = c.user

theorem switchContext_switched (c : Core) : Switched c (execAll switchContext c) := by
  have huser : (execAll switchContext c).user = c.user := execAll_user (by decide) c
  have hend : execAll switchContext c = Instr.exec .ret
      (execAll (contextRegs.map fun p => .ld p.1 p.2 a1)
        (execAll (contextRegs.map fun p => .sd p.1 p.2 a0) c)) := by
    rw [switchContext, execAll_append, execAll_append, execAll_cons, execAll_nil]
  generalize hc₁ : execAll (contextRegs.map fun p => .sd p.1 p.2 a0) c = c₁ at hend
  rw [execAll_sd] at hc₁
  have hmem₁ : c₁.mem = storeAll (c.get a0) (contextRegs.map fun p => (p.2, c.get p.1)) c.mem := by
    rw [← hc₁]
  have ha1 : c₁.get a1 = c.get a1 := by
    rw [← hc₁]
    rfl
  have hcsrs₁ : c₁.csrs = c.csrs := by rw [← hc₁]
  have hload {p : Reg × Nat} (hp : p ∈ contextRegs) (h0 : p.1 ≠ 0) :=
    execAll_ld_get (by decide : a1 ∉ contextRegs.map Prod.fst) (by decide) c₁ hp h0
  obtain ⟨hmem₂, hcsrs₂, -, -⟩ := execAll_ld a1 contextRegs c₁
  generalize execAll (contextRegs.map fun p => .ld p.1 p.2 a1) c₁ = c₂ at *
  have hreg {p : Reg × Nat} (hp : p ∈ contextRegs) :
      c₂.get p.1 = c₂.mem (c.get a1 + BitVec.ofNat 64 p.2) := by
    have h0 : ∀ p ∈ contextRegs, p.1 ≠ 0 := by decide
    rw [hload hp (h0 p hp), ha1, hmem₂]
  rw [hend] at huser ⊢
  refine ⟨hmem₂.trans hmem₁, hreg, ?_, hcsrs₂.trans hcsrs₁, huser⟩
  exact hreg (List.mem_cons_self ..)

/-- How a U-mode task runs for the first time. -/
structure Launched (status sscratch : Word) (c e : Core) : Prop where
  pc : e.pc = c.get s0
  sp : e.get sp = c.get s1
  args : e.get a0 = c.get s3 ∧ e.get a1 = c.get s4 ∧ e.get a2 = c.get s5
  user : e.user = !status.getLsbD 8
  sstatus : e.csrs .sstatus = sretStatus status
  sscratch : e.csrs .sscratch = sscratch
  satp : e.csrs .satp = c.csrs .satp
  mem : e.mem = c.mem

theorem userTrampoline_launched (c : Core) :
    Launched (c.get s2) (c.get sp) c (execAll userTrampoline c) :=
  ⟨rfl, rfl, ⟨rfl, rfl, rfl⟩, rfl, rfl, rfl, rfl, rfl⟩

theorem taskTrampoline_kept (link : Word) (c : Core) : let e := execAll (taskTrampoline link) c
    e.csrs .sscratch = c.csrs .sscratch ∧ e.csrs .satp = c.csrs .satp ∧ e.user = c.user ∧
      e.mem = c.mem :=
  ⟨rfl, rfl, rfl, rfl⟩

end Perenne.Asm

import Mathlib

/-!
A RISC-V hart in user and supervisor mode: the registers and control registers that a trap path
uses, a memory of doublewords, and assembly text with forward labels. An access is to the
doubleword at its address: the text run here only uses multiples of eight.
-/

namespace Riscv

abbrev Word := BitVec 64

abbrev Reg := Fin 32

instance (priority := 2000) neZero_reg : NeZero 32 := ⟨by decide⟩

inductive Csr where
  | sscratch
  | sepc
  | sstatus
  | scause
  | stval
  | satp
deriving DecidableEq

/-- One hart; `pc` is where control goes when the text being run is over. -/
structure Core where
  regs : Reg → Word
  pc : Word
  user : Bool
  csrs : Csr → Word
  mem : Word → Word

/-- A word with one bit set to a given value. -/
def putBit (w : Word) (i : Nat) (b : Bool) : Word :=
  if b then w ||| (1#64 <<< i) else w &&& ~~~(1#64 <<< i)

/-- `sstatus` when a trap is taken: SPIE takes SIE, SIE is cleared, SPP takes the mode. -/
def trapStatus (user : Bool) (w : Word) : Word :=
  putBit (putBit (putBit w 5 (w.getLsbD 1)) 1 false) 8 (!user)

/-- `sstatus` after `sret`: SIE takes SPIE, SPIE is set, SPP is cleared. -/
def sretStatus (w : Word) : Word :=
  putBit (putBit (putBit w 1 (w.getLsbD 5)) 5 true) 8 false

namespace Core

/-- A register read: `x0` is zero. -/
def get (c : Core) (r : Reg) : Word := if r = 0 then 0 else c.regs r

/-- A register write: one to `x0` is dropped. -/
def set (c : Core) (r : Reg) (v : Word) : Core :=
  if r = 0 then c else { c with regs := Function.update c.regs r v }

def setCsr (c : Core) (k : Csr) (v : Word) : Core :=
  { c with csrs := Function.update c.csrs k v }

def store (c : Core) (a v : Word) : Core := { c with mem := Function.update c.mem a v }

/-- What the hart does when it takes a trap, before the first instruction of the vector. -/
def takeTrap (c : Core) (scause stval : Word) : Core :=
  { c with
    user := false
    csrs := fun k => match k with
      | .sepc => c.pc
      | .sstatus => trapStatus c.user (c.csrs .sstatus)
      | .scause => scause
      | .stval => stval
      | k => c.csrs k }

end Core

/-- The instructions of a trap path. -/
inductive Instr where
  | csrrw (rd : Reg) (k : Csr) (rs : Reg)
  | csrr (rd : Reg) (k : Csr)
  | csrw (k : Csr) (rs : Reg)
  | csrsi (k : Csr) (imm : Word)
  | addi (rd rs : Reg) (imm : Int)
  | andi (rd rs : Reg) (imm : Int)
  | mv (rd rs : Reg)
  | sd (rs : Reg) (offset : Nat) (base : Reg)
  | ld (rd : Reg) (offset : Nat) (base : Reg)
  /-- `link` is the address of the next instruction. -/
  | jalr (rs : Reg) (link : Word)
  | ret
  | sret
deriving DecidableEq

/-- A line of assembly text. A branch names a label further down. -/
inductive Line where
  | label (l : Nat)
  | bnez (rs : Reg) (l : Nat)
  | j (l : Nat)
  | instr (i : Instr)
deriving DecidableEq

def Instr.exec (i : Instr) (c : Core) : Core :=
  match i with
  | .csrrw rd k rs => (c.setCsr k (c.get rs)).set rd (c.csrs k)
  | .csrr rd k => c.set rd (c.csrs k)
  | .csrw k rs => c.setCsr k (c.get rs)
  | .csrsi k imm => c.setCsr k (c.csrs k ||| imm)
  | .addi rd rs imm => c.set rd (c.get rs + BitVec.ofInt 64 imm)
  | .andi rd rs imm => c.set rd (c.get rs &&& BitVec.ofInt 64 imm)
  | .mv rd rs => c.set rd (c.get rs)
  | .sd rs offset base => c.store (c.get base + BitVec.ofNat 64 offset) (c.get rs)
  | .ld rd offset base => c.set rd (c.mem (c.get base + BitVec.ofNat 64 offset))
  | .jalr rs link => { c.set 1 link with pc := c.get rs }
  | .ret => { c with pc := c.get 1 }
  | .sret =>
    { c.setCsr .sstatus (sretStatus (c.csrs .sstatus)) with
      pc := c.csrs .sepc
      user := !(c.csrs .sstatus).getLsbD 8 }

/-- The core at the end of the text. With `some l` the lines up to label `l` are skipped. -/
def run : Option Nat → List Line → Core → Core
  | _, [], c => c
  | some l, .label l' :: text, c => run (if l' = l then none else some l) text c
  | some l, _ :: text, c => run (some l) text c
  | none, .label _ :: text, c => run none text c
  | none, .bnez rs l :: text, c => run (if c.get rs = 0 then none else some l) text c
  | none, .j l :: text, c => run (some l) text c
  | none, .instr i :: text, c => run none text (i.exec c)

def execAll (is : List Instr) (c : Core) : Core := is.foldl (fun c i => i.exec c) c

/-- The memory after stores at offsets from one base, in order. -/
def storeAll (base : Word) (l : List (Nat × Word)) (m : Word → Word) : Word → Word :=
  l.foldl (fun m p => Function.update m (base + BitVec.ofNat 64 p.1) p.2) m

namespace Core

variable (c : Core)

@[simp] theorem get_set_self {r : Reg} (h : r ≠ 0) (v : Word) : (c.set r v).get r = v := by
  simp [get, set, h]

theorem get_set_ne {r r' : Reg} (h : r' ≠ r) (v : Word) : (c.set r v).get r' = c.get r' := by
  by_cases hr : r = 0
  · simp [get, set, hr]
  · simp [get, set, hr, h]

@[simp] theorem set_csrs (r : Reg) (v : Word) : (c.set r v).csrs = c.csrs := by
  unfold set
  split
  · rfl
  · rfl

@[simp] theorem set_mem (r : Reg) (v : Word) : (c.set r v).mem = c.mem := by
  unfold set
  split
  · rfl
  · rfl

@[simp] theorem set_user (r : Reg) (v : Word) : (c.set r v).user = c.user := by
  unfold set
  split
  · rfl
  · rfl

@[simp] theorem takeTrap_sscratch (scause stval : Word) :
    (c.takeTrap scause stval).csrs .sscratch = c.csrs .sscratch := rfl

@[simp] theorem setCsr_get (k : Csr) (v : Word) (r : Reg) : (c.setCsr k v).get r = c.get r := by
  simp only [get, setCsr]

@[simp] theorem setCsr_mem (k : Csr) (v : Word) : (c.setCsr k v).mem = c.mem := rfl

@[simp] theorem setCsr_user (k : Csr) (v : Word) : (c.setCsr k v).user = c.user := rfl

@[simp] theorem setCsr_csrs_self (k : Csr) (v : Word) : (c.setCsr k v).csrs k = v := by
  simp [setCsr]

theorem setCsr_csrs_ne {k k' : Csr} (h : k' ≠ k) (v : Word) :
    (c.setCsr k v).csrs k' = c.csrs k' := by
  simp [setCsr, h]

@[simp] theorem store_get (a v : Word) (r : Reg) : (c.store a v).get r = c.get r := by
  simp only [get, store]

@[simp] theorem store_csrs (a v : Word) : (c.store a v).csrs = c.csrs := rfl

@[simp] theorem store_user (a v : Word) : (c.store a v).user = c.user := rfl

end Core

@[simp] theorem execAll_nil (c : Core) : execAll [] c = c := rfl

@[simp] theorem execAll_cons (i : Instr) (is : List Instr) (c : Core) :
    execAll (i :: is) c = execAll is (i.exec c) := rfl

theorem execAll_append (is js : List Instr) (c : Core) :
    execAll (is ++ js) c = execAll js (execAll is c) := List.foldl_append ..

theorem execAll_user {is : List Instr} (h : .sret ∉ is) (c : Core) :
    (execAll is c).user = c.user := by
  induction is generalizing c with
  | nil => rfl
  | cons i is ih =>
    rw [List.mem_cons, not_or] at h
    obtain ⟨hi, his⟩ := h
    rw [execAll_cons, ih his]
    cases i with
    | sret => exact absurd rfl hi
    | _ => simp only [Instr.exec, Core.set_user, Core.setCsr_user, Core.store_user]

theorem run_instrs (is : List Instr) (text : List Line) (c : Core) :
    run none (is.map .instr ++ text) c = run none text (execAll is c) := by
  induction is generalizing c with
  | nil => rfl
  | cons i is ih => exact ih (i.exec c)

theorem run_instrs_end (is : List Instr) (c : Core) :
    run none (is.map .instr) c = execAll is c := by
  have h := run_instrs is [] c
  rwa [List.append_nil] at h

theorem run_skip (is : List Instr) (l : Nat) (text : List Line) (c : Core) :
    run (some l) (is.map .instr ++ text) c = run (some l) text c := by
  induction is with
  | nil => rfl
  | cons i is ih => exact ih

theorem storeAll_append (base : Word) (l l' : List (Nat × Word)) (m : Word → Word) :
    storeAll base (l ++ l') m = storeAll base l' (storeAll base l m) := List.foldl_append ..

theorem storeAll_of_not_mem {base a : Word} {l : List (Nat × Word)} {m : Word → Word}
    (h : ∀ p ∈ l, a ≠ base + BitVec.ofNat 64 p.1) : storeAll base l m a = m a := by
  induction l generalizing m with
  | nil => rfl
  | cons p l ih =>
    have hrest := ih (m := Function.update m (base + BitVec.ofNat 64 p.1) p.2)
      fun q hq => h q (.tail _ hq)
    rw [Function.update_of_ne (h p (.head _))] at hrest
    exact hrest

theorem storeAll_of_mem {base : Word} {l : List (Nat × Word)} {m : Word → Word}
    (hl : (l.map fun p => BitVec.ofNat 64 p.1).Nodup) {o : Nat} {v : Word} (hp : (o, v) ∈ l) :
    storeAll base l m (base + BitVec.ofNat 64 o) = v := by
  induction l generalizing m with
  | nil => cases hp
  | cons q l ih =>
    obtain ⟨hq, hl⟩ := List.nodup_cons.mp hl
    obtain rfl | hp := List.mem_cons.mp hp
    · -- the later stores are to other offsets
      have hother : ∀ q ∈ l, base + BitVec.ofNat 64 o ≠ base + BitVec.ofNat 64 q.1 := by
        intro q hq' he
        exact hq (List.mem_map.mpr ⟨q, hq', ((BitVec.add_right_inj _).mp he).symm⟩)
      have hkept := storeAll_of_not_mem (m := Function.update m (base + BitVec.ofNat 64 o) v) hother
      rw [Function.update_self] at hkept
      exact hkept
    · exact ih hl hp

theorem execAll_sd (base : Reg) (l : List (Reg × Nat)) (c : Core) :
    execAll (l.map fun p => .sd p.1 p.2 base) c =
      { c with mem := storeAll (c.get base) (l.map fun p => (p.2, c.get p.1)) c.mem } := by
  induction l generalizing c with
  | nil => rfl
  | cons p l ih =>
    rw [List.map_cons, execAll_cons, ih]
    rfl

/-- What a block that copies control registers to memory through `t` does. -/
structure Copied (t base : Reg) (l : List (Csr × Nat)) (c c' : Core) : Prop where
  mem : c'.mem = storeAll (c.get base) (l.map fun p => (p.2, c.csrs p.1)) c.mem
  csrs : c'.csrs = c.csrs
  other (r : Reg) (hr : r ≠ t) : c'.get r = c.get r

theorem execAll_csrr_sd {t base : Reg} (h0 : t ≠ 0) (hbase : base ≠ t) (l : List (Csr × Nat))
    (c : Core) :
    Copied t base l c (execAll (l.flatMap fun p => [.csrr t p.1, .sd t p.2 base]) c) := by
  induction l generalizing c with
  | nil => exact ⟨rfl, rfl, fun _ _ => rfl⟩
  | cons p l ih =>
    obtain ⟨hmem, hcsrs, hother⟩ := ih (Instr.exec (.sd t p.2 base) (Instr.exec (.csrr t p.1) c))
    have hget (r : Reg) (hr : r ≠ t) :
        (Instr.exec (.sd t p.2 base) (Instr.exec (.csrr t p.1) c)).get r = c.get r :=
      Core.get_set_ne c hr _
    have hk : (Instr.exec (.sd t p.2 base) (Instr.exec (.csrr t p.1) c)).csrs = c.csrs :=
      Core.set_csrs ..
    have hm : (Instr.exec (.sd t p.2 base) (Instr.exec (.csrr t p.1) c)).mem =
        Function.update c.mem (c.get base + BitVec.ofNat 64 p.2) (c.csrs p.1) := by
      simp only [Instr.exec, Core.store, Core.set_mem, Core.get_set_ne _ hbase,
        Core.get_set_self _ h0]
    refine ⟨?_, hcsrs.trans hk, fun r hr => (hother r hr).trans (hget r hr)⟩
    rw [hget base hbase, hk, hm] at hmem
    exact hmem

/-- What a block of loads through `base` leaves alone. -/
structure Loaded (l : List (Reg × Nat)) (c c' : Core) : Prop where
  mem : c'.mem = c.mem
  csrs : c'.csrs = c.csrs
  user : c'.user = c.user
  other (r : Reg) (hr : r ∉ l.map Prod.fst) : c'.get r = c.get r

theorem execAll_ld (base : Reg) (l : List (Reg × Nat)) (c : Core) :
    Loaded l c (execAll (l.map fun p => .ld p.1 p.2 base) c) := by
  induction l generalizing c with
  | nil => exact ⟨rfl, rfl, rfl, fun _ _ => rfl⟩
  | cons p l ih =>
    obtain ⟨hmem, hcsrs, huser, hother⟩ := ih (Instr.exec (.ld p.1 p.2 base) c)
    refine ⟨hmem.trans (Core.set_mem ..), hcsrs.trans (Core.set_csrs ..),
      huser.trans (Core.set_user ..), fun r hr => ?_⟩
    rw [List.map_cons, List.mem_cons, not_or] at hr
    exact (hother r hr.2).trans (Core.get_set_ne _ hr.1 _)

theorem execAll_ld_get {base : Reg} {l : List (Reg × Nat)} (hbase : base ∉ l.map Prod.fst)
    (hl : (l.map Prod.fst).Nodup) (c : Core) {p : Reg × Nat} (hp : p ∈ l) (h0 : p.1 ≠ 0) :
    (execAll (l.map fun p => .ld p.1 p.2 base) c).get p.1 =
      c.mem (c.get base + BitVec.ofNat 64 p.2) := by
  induction l generalizing c with
  | nil => cases hp
  | cons q l ih =>
    obtain ⟨hq, hl⟩ := List.nodup_cons.mp hl
    rw [List.map_cons, List.mem_cons, not_or] at hbase
    rw [List.map_cons, execAll_cons]
    obtain rfl | hp := List.mem_cons.mp hp
    · rw [(execAll_ld base l _).other p.1 hq]
      exact Core.get_set_self c h0 _
    · rw [ih hbase.2 hl _ hp]
      simp only [Instr.exec, Core.set_mem, Core.get_set_ne _ hbase.1]

theorem getLsbD_putBit (w : Word) {i : Nat} (hi : i < 64) (b : Bool) (k : Nat) :
    (putBit w i b).getLsbD k = if k = i then b else w.getLsbD k := by
  by_cases hk : k < 64
  · cases b <;> by_cases he : k = i <;> simp [putBit, he, hi, hk] <;> omega
  · have h1 : k ≠ i := by omega
    have hk : 64 ≤ k := by omega
    simp [h1, BitVec.getLsbD_of_ge _ k hk]

theorem sretStatus_trapStatus {w : Word} (h5 : w.getLsbD 5 = true) (h8 : w.getLsbD 8 = false) :
    sretStatus (trapStatus true w) = w := by
  apply BitVec.eq_of_getLsbD_eq
  intro i _
  simp only [sretStatus, trapStatus, getLsbD_putBit _ (show 1 < 64 by decide),
    getLsbD_putBit _ (show 5 < 64 by decide), getLsbD_putBit _ (show 8 < 64 by decide)]
  by_cases e1 : i = 1 <;> by_cases e5 : i = 5 <;> by_cases e8 : i = 8 <;> simp_all

theorem sretStatus_bits (w : Word) :
    (sretStatus w).getLsbD 5 = true ∧ (sretStatus w).getLsbD 8 = false := by
  simp only [sretStatus, getLsbD_putBit _ (show 5 < 64 by decide),
    getLsbD_putBit _ (show 8 < 64 by decide)]
  exact ⟨rfl, rfl⟩

theorem sretStatus_sie (w : Word) : (sretStatus w).getLsbD 1 = w.getLsbD 5 := by
  simp only [sretStatus, getLsbD_putBit _ (show 1 < 64 by decide),
    getLsbD_putBit _ (show 5 < 64 by decide), getLsbD_putBit _ (show 8 < 64 by decide)]
  rfl

theorem trapStatus_spp (user : Bool) (w : Word) : (trapStatus user w).getLsbD 8 = !user := by
  simp only [trapStatus, getLsbD_putBit _ (show 8 < 64 by decide), if_pos]

theorem trapStatus_sie (user : Bool) (w : Word) : (trapStatus user w).getLsbD 1 = false := by
  simp only [trapStatus, getLsbD_putBit _ (show 8 < 64 by decide),
    getLsbD_putBit _ (show 1 < 64 by decide)]
  rfl

theorem and_spp (w : Word) : w &&& BitVec.ofInt 64 0x100 = 0 ↔ w.getLsbD 8 = false := by
  have hbit : BitVec.ofInt 64 0x100 = BitVec.twoPow 64 8 := by decide
  rw [hbit, BitVec.and_twoPow]
  cases w.getLsbD 8 with
  | true => decide
  | false => decide

end Riscv

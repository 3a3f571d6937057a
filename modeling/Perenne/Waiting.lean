import Perenne.Preempt

namespace Perenne.Preempt

open Riscv Asm

variable {ι : Type*}

namespace Layout

variable (L : Layout ι)

/-- A task that runs its own code. -/
structure Ready (i : ι) (c : Core) : Prop where
  user : c.user = L.user i
  satp : c.csrs .satp = L.satp i
  sscratch : c.csrs .sscratch = if L.user i then L.top i else 0
  status (h : L.user i = true) :
    (c.csrs .sstatus).getLsbD 5 = true ∧ (c.csrs .sstatus).getLsbD 8 = false

/-- A task in its trap handler. -/
structure InKernel (i : ι) (c : Core) : Prop where
  user : c.user = false
  satp : c.csrs .satp = L.satp i
  sscratch : c.csrs .sscratch = 0
  masked : (c.csrs .sstatus).getLsbD 1 = false

/-- A trap of a task, with the calls that its handler has made. -/
structure Trapped (i : ι) (t : Trap) (calls : List (Core × Core)) : Prop where
  ready : L.Ready i t.core
  room {o : Nat} (ho : o ∈ frameOffsets) : t.base + BitVec.ofNat 64 o ∈ L.stack i
  back {p : Core × Core} (hp : p ∈ calls) : L.Back i p

/-- The memory of a task that waits in `switch_context`. -/
structure Waiting (i : ι) (call : Core) (m : Word → Word) : Prop where
  context {p : Reg × Nat} (hp : p ∈ contextRegs) :
    m (L.context i + BitVec.ofNat 64 p.2) = call.get p.1
  stack {a : Word} (ha : a ∈ L.stack i) : m a = call.mem a

def Current (i : ι) (c : Core) : Status → Prop
  | .outside => L.Ready i c
  | .handling t calls => L.Trapped i t calls ∧ c = last t.entry calls ∧ L.InKernel i c
  | _ => False

def Other (i : ι) (m : Word → Word) : Status → Prop
  | .fresh ctx => Stored m (L.context i) ctx ∧ L.Fits i ctx
  | .parked t calls call => L.Trapped i t calls ∧ L.Waiting i call m
  | .yielded call => L.user i = false ∧ L.Waiting i call m
  | _ => False

structure Inv (s : State ι) : Prop where
  current : L.Current s.current s.core (s.status s.current)
  other {j : ι} (hj : j ≠ s.current) : L.Other j s.core.mem (s.status j)

variable {L}

theorem mem_contextArea (i : ι) {p : Reg × Nat} (hp : p ∈ contextRegs) :
    L.context i + BitVec.ofNat 64 p.2 ∈ L.contextArea i := ⟨p, hp, rfl⟩

theorem stored_mem_contextRegs (n : Fin 12) :
    ∃ r : Reg, (r, 16 + 8 * n.val) ∈ contextRegs := by
  revert n
  decide

theorem stored_congr {i : ι} {m m' : Word → Word} {ctx : Context}
    (h : Stored m (L.context i) ctx) (hcontext : ∀ a ∈ L.contextArea i, m' a = m a) :
    Stored m' (L.context i) ctx := by
  have hfirst : ∀ p ∈ [((1 : Reg), 0), (2, 8)], p ∈ contextRegs := by decide
  refine ⟨?_, ?_, fun n => ?_⟩
  · exact (hcontext _ (mem_contextArea i (hfirst (1, 0) (.head _)))).trans h.ra
  · exact (hcontext _ (mem_contextArea i (hfirst (2, 8) (.tail _ (.head _))))).trans h.sp
  · obtain ⟨r, hr⟩ := stored_mem_contextRegs n
    exact (hcontext _ (mem_contextArea i hr)).trans (h.s n)

theorem Other.congr {i : ι} {m m' : Word → Word} {st : Status} (h : L.Other i m st)
    (hstack : ∀ a ∈ L.stack i, m' a = m a) (hcontext : ∀ a ∈ L.contextArea i, m' a = m a) :
    L.Other i m' st := by
  have hwait {call : Core} (hw : L.Waiting i call m) : L.Waiting i call m' :=
    ⟨fun hp => (hcontext _ (mem_contextArea i hp)).trans (hw.context hp),
      fun ha => (hstack _ ha).trans (hw.stack ha)⟩
  cases st with
  | fresh ctx => exact ⟨stored_congr h.1 hcontext, h.2⟩
  | outside => exact h
  | handling t calls => exact h
  | parked t calls call => exact ⟨h.1, hwait h.2⟩
  | yielded call => exact ⟨h.1, hwait h.2⟩

theorem Other.of_foreign {i j : ι} (hj : j ≠ i) {m m' : Word → Word} {st : Status}
    (h : L.Other j m st) (hm : ∀ a ∈ L.foreign i, m' a = m a) : L.Other j m' st :=
  h.congr (fun a ha => hm a (.inl ⟨j, hj, ha⟩)) fun a ha => hm a (.inr ⟨j, ha⟩)

theorem Ready.base (hL : L.Sound) {i : ι} {t : Trap} (h : L.Ready i t.core)
    (huser : L.user i = true) : t.base = L.top i - 288#64 := by
  have hscratch : t.taken.csrs .sscratch = L.top i := by
    have hready := h.sscratch
    rw [huser, if_pos rfl] at hready
    exact hready
  rw [Trap.base, frameBase, hscratch, if_neg (hL.top_ne_zero huser)]

theorem Trapped.enter (hL : L.Sound) {i : ι} {t : Trap} (h : L.Ready i t.core)
    (hroom : L.user i = false → ∀ o ∈ frameOffsets, t.base + BitVec.ofNat 64 o ∈ L.stack i) :
    L.Trapped i t [] := by
  refine ⟨h, fun {o} ho => ?_, fun hp => by cases hp⟩
  cases huser : L.user i with
  | false => exact hroom huser o ho
  | true =>
    rw [h.base hL huser]
    exact hL.room huser ho

theorem Trapped.entry_inKernel {i : ι} {t : Trap} {calls : List (Core × Core)}
    (h : L.Trapped i t calls) : L.InKernel i t.entry := by
  have he := t.entered
  refine ⟨he.user, (he.csrs .satp (by decide)).trans h.ready.satp, he.sscratch, ?_⟩
  rw [he.csrs .sstatus (by decide)]
  exact trapStatus_sie _ _

theorem Trapped.entry_foreign (hL : L.Sound) {i : ι} {t : Trap} {calls : List (Core × Core)}
    (h : L.Trapped i t calls) {a : Word} (ha : a ∈ L.foreign i) : t.entry.mem a = t.core.mem a := by
  refine t.entered.outside fun o ho he => ?_
  have hown : a ∈ L.stack i := he ▸ h.room ho
  obtain ⟨j, hj, ha⟩ | ⟨j, ha⟩ := ha
  · exact Set.disjoint_left.mp (hL.stack_ne hj) ha hown
  · exact Set.disjoint_left.mp (hL.stack_context i j) hown ha

theorem Works.ready {i : ι} {c c' : Core} (hc : L.Works i c c') (h : L.Ready i c) :
    L.Ready i c' := by
  refine ⟨hc.user.trans h.user, hc.satp.trans h.satp, hc.sscratch.trans h.sscratch, fun hu => ?_⟩
  rw [hc.sstatus hu]
  exact h.status hu

theorem Within.inKernel {i : ι} {c c' : Core} (hc : L.Within i c c') (h : L.InKernel i c) :
    L.InKernel i c' :=
  ⟨hc.user.trans h.user, hc.satp.trans h.satp, hc.sscratch.trans h.sscratch, hc.masked h.masked⟩

section

variable {H : Handler L} {i : ι} {t : Trap} {calls : List (Core × Core)} {c : Core}

theorem Trapped.sp (h : L.Trapped i t calls) (hc : H.returns i t.entry calls c) :
    c.get sp = t.base :=
  (H.saved hc (fun _ hp => h.back hp) (by decide)).trans t.entered.sp

theorem Trapped.sstatus (h : L.Trapped i t calls) (hc : H.returns i t.entry calls c) :
    c.mem (c.get Asm.sp + 256#64) = trapStatus t.core.user (t.core.csrs .sstatus) := by
  have he := t.entered
  have hword := H.sstatus hc fun _ hp => h.back hp
  rw [he.sp] at hword
  rw [h.sp hc]
  exact hword.trans (he.word (csr_mem_frameWords t.taken (k := .sstatus) (by decide)))

theorem Trapped.exit_ready (hL : L.Sound) (h : L.Trapped i t calls)
    (hc : H.returns i t.entry calls c) (hk : L.InKernel i (last t.entry calls)) :
    L.Ready i (run none trapExit c) := by
  have he := trapExit_exited c
  have hwithin := (H.returns_within hc).inKernel hk
  have hspp : (c.mem (c.get Asm.sp + 256#64)).getLsbD 8 = !L.user i := by
    rw [h.sstatus hc, trapStatus_spp, h.ready.user]
  refine ⟨?_, he.satp.trans hwithin.satp, ?_, fun _ => ?_⟩
  · rw [he.user, hspp, Bool.not_not]
  · rw [he.sscratch, hspp]
    cases huser : L.user i with
    | false => simpa using hwithin.sscratch
    | true =>
      rw [h.sp hc, h.ready.base hL huser, BitVec.sub_add_cancel]
      rfl
  · rw [he.sstatus]
    exact sretStatus_bits _

/-- What a task finds after a trap that it did not ask for. -/
structure Unnoticed (i : ι) (c c' : Core) : Prop where
  reg (r : Reg) : c'.get r = c.get r
  pc : c'.pc = c.pc
  sepc : c'.csrs .sepc = c.pc
  sstatus (h : L.user i = true) : c'.csrs .sstatus = c.csrs .sstatus
  sscratch : c'.csrs .sscratch = if L.user i then L.top i else 0
  satp : c'.csrs .satp = L.satp i
  user : c'.user = c.user

theorem Trapped.unnoticed (hL : L.Sound) (h : L.Trapped i t calls)
    (hc : H.returns i t.entry calls c) (hk : L.InKernel i (last t.entry calls))
    (ht : t.timer) : L.Unnoticed i t.core (run none trapExit c) := by
  have he := trapExit_exited c
  have hready := h.exit_ready hL hc hk
  have hentry := t.entered
  have hback {p : Core × Core} (hp : p ∈ calls) := h.back hp
  have htimer : decode (t.entry.mem (t.entry.get Asm.sp + 264#64)).toNat = .supervisorTimer := by
    rw [hentry.sp]
    have hword := hentry.word (csr_mem_frameWords t.taken (k := .scause) (o := 264) (by decide))
    rw [show t.entry.mem (frameBase t.taken + 264#64) = t.scause from hword]
    exact ht
  have hframe {o : Nat} {w : Word} (hw : (o, w) ∈ frameWords t.taken) :
      c.mem (c.get Asm.sp + BitVec.ofNat 64 o) = w := by
    have ho : o ∈ frameOffsets := by
      rw [← frameWords_fst t.taken]
      exact List.mem_map_of_mem hw
    have hkept := H.timer hc (fun _ hp => hback hp) htimer ho
    rw [hentry.sp] at hkept
    rw [h.sp hc]
    exact hkept.trans (hentry.word hw)
  have hpc : c.mem (c.get Asm.sp + 248#64) = t.core.pc :=
    hframe (csr_mem_frameWords t.taken (k := .sepc) (by decide))
  refine ⟨fun r => ?_, he.pc.trans hpc, he.sepc.trans hpc, fun hu => ?_, hready.sscratch,
    hready.satp, hready.user.trans h.ready.user.symm⟩
  · by_cases hr : r = 0
    · rw [Core.get, Core.get, if_pos hr, if_pos hr]
    · exact (he.reg r hr).trans (hframe (slot_mem_frameWords t.taken hr))
  · rw [he.sstatus, h.sstatus hc, h.ready.user, hu]
    exact sretStatus_trapStatus (h.ready.status hu).1 (h.ready.status hu).2

end

section

variable {i j : ι} {c e : Core} {old : Word}

/-- What is in memory after a switch: the old `Context` is stored and the rest as before. -/
structure Moved (L : Layout ι) (old : Word) (j : ι) (c e : Core) : Prop where
  saved {p : Reg × Nat} (hp : p ∈ contextRegs) : e.mem (old + BitVec.ofNat 64 p.2) = c.get p.1
  kept {a : Word} (ha : ∀ p ∈ contextRegs, a ≠ old + BitVec.ofNat 64 p.2) : e.mem a = c.mem a
  reg {p : Reg × Nat} (hp : p ∈ contextRegs) :
    e.get p.1 = e.mem (L.context j + BitVec.ofNat 64 p.2)
  pc : e.pc = e.mem (L.context j + 0#64)
  satp : e.csrs .satp = L.satp j
  sscratch : e.csrs .sscratch = c.csrs .sscratch
  sstatus : e.csrs .sstatus = c.csrs .sstatus
  user : e.user = c.user

theorem switchTo_moved (L : Layout ι) (old : Word) (j : ι) (c : Core) :
    Moved L old j c (switchTo L old j c) := by
  have hs := switchContext_switched (callSwitch L old j c)
  have ha0 : (callSwitch L old j c).get a0 = old :=
    (Core.get_set_ne _ (by decide) _).trans (Core.get_set_self _ (by decide) _)
  have ha1 : (callSwitch L old j c).get a1 = L.context j := Core.get_set_self _ (by decide) _
  have hget {p : Reg × Nat} (hp : p ∈ contextRegs) :
      (callSwitch L old j c).get p.1 = c.get p.1 := by
    have hne : ∀ p ∈ contextRegs, p.1 ≠ a0 ∧ p.1 ≠ a1 := by decide
    exact (Core.get_set_ne _ (hne p hp).2 _).trans (Core.get_set_ne _ (hne p hp).1 _)
  have hmem := hs.mem
  rw [ha0] at hmem
  refine ⟨fun {p} hp => ?_, fun {a} ha => ?_, fun {p} hp => ?_, ?_, ?_, ?_, ?_, hs.user.trans ?_⟩
  · rw [switchTo, hmem]
    refine (storeAll_of_mem ?_ (List.mem_map.mpr ⟨p, hp, rfl⟩)).trans (hget hp)
    rw [List.map_map]
    exact contextRegs_nodup
  · rw [switchTo, hmem]
    refine storeAll_of_not_mem fun q hq => ?_
    obtain ⟨p, hp, rfl⟩ := List.mem_map.mp hq
    exact ha p hp
  · rw [← ha1]
    exact hs.reg hp
  · rw [← ha1]
    exact hs.pc
  · rw [switchTo, hs.csrs]
    rfl
  · rw [switchTo, hs.csrs]
    rfl
  · rw [switchTo, hs.csrs]
    rfl
  · rfl

theorem Moved.other (hm : Moved L old j c e) {k : ι} {st : Status} (h : L.Other k c.mem st)
    (hold : ∀ p ∈ contextRegs, old + BitVec.ofNat 64 p.2 ∉ L.stack k ∧
      old + BitVec.ofNat 64 p.2 ∉ L.contextArea k) : L.Other k e.mem st :=
  h.congr (fun _ ha => hm.kept fun p hp he => (hold p hp).1 (he ▸ ha))
    fun _ ha => hm.kept fun p hp he => (hold p hp).2 (he ▸ ha)

theorem Moved.givenBack (hm : Moved L old j c e) {call : Core} (h : L.Waiting j call e.mem) :
    L.GivenBack j call e := by
  refine ⟨fun {r} hr => ?_, ?_, fun ha => h.stack ha⟩
  · obtain ⟨p, hp, rfl⟩ := List.mem_map.mp hr
    have hp := List.mem_of_mem_tail hp
    rw [hm.reg hp, h.context hp]
  · rw [hm.pc]
    exact h.context (p := (ra, 0)) (List.mem_cons_self ..)

theorem Moved.launch (hm : Moved L old j c e) (huser : c.user = false)
    (hscratch : c.csrs .sscratch = 0) {ctx : Context} (h : Stored e.mem (L.context j) ctx)
    (hfits : L.Fits j ctx) :
    L.Ready j (arrive L j e) ∧ (arrive L j e).mem = e.mem := by
  unfold arrive
  cases hu : L.user j with
  | false =>
    obtain ⟨hscratch', hsatp, huser', hmem⟩ := taskTrampoline_kept L.link e
    rw [if_neg Bool.false_ne_true]
    refine ⟨⟨?_, hsatp.trans hm.satp, ?_, fun hu' => ?_⟩, hmem⟩
    · rw [huser', hm.user, huser, hu]
    · rw [hscratch', hm.sscratch, hscratch, hu]
      rfl
    · rw [hu] at hu'
      cases hu'
  | true =>
    have hl := userTrampoline_launched e
    have hstatus : e.get s2 = BitVec.ofNat 64 (ctx.s 2) :=
      (hm.reg (p := (s2, 32)) (by decide)).trans (h.s 2)
    have hsp : e.get sp = L.top j := by
      rw [hm.reg (p := (sp, 8)) (by decide), h.sp, hfits.sp]
      rfl
    rw [if_pos rfl]
    refine ⟨⟨?_, hl.satp.trans hm.satp, ?_, fun _ => ?_⟩, hl.mem⟩
    · rw [hl.user, hstatus, hfits.spp hu, hu]
      rfl
    · rw [hl.sscratch, hsp, hu, if_pos rfl]
    · rw [hl.sstatus]
      exact sretStatus_bits _

theorem last_append (e : Core) (calls : List (Core × Core)) (p : Core × Core) :
    last e (calls ++ [p]) = p.2 := by
  rw [last, List.getLast?_append, List.getLast?_singleton]
  rfl

theorem Moved.resume (hm : Moved L old j c e) (huser : c.user = false)
    (hscratch : c.csrs .sscratch = 0) (hmasked : (c.csrs .sstatus).getLsbD 1 = false)
    {st st' : Status} {core : Core} (h : L.Other j e.mem st)
    (hst : resume L j e st = some (core, st')) :
    L.Current j core st' ∧ core.mem = e.mem := by
  have hkernel : L.InKernel j e :=
    ⟨hm.user.trans huser, hm.satp, hm.sscratch.trans hscratch, hm.sstatus ▸ hmasked⟩
  cases st with
  | fresh ctx =>
    obtain ⟨rfl, rfl⟩ := Prod.mk.inj (Option.some.inj hst)
    exact hm.launch huser hscratch h.1 h.2
  | outside => cases hst
  | handling t calls => cases hst
  | parked t calls call =>
    obtain ⟨rfl, rfl⟩ := Prod.mk.inj (Option.some.inj hst)
    obtain ⟨⟨hready, hroom, hback⟩, hw⟩ := h
    refine ⟨⟨⟨hready, hroom, fun {p} hp => ?_⟩, (last_append _ _ (call, e)).symm, hkernel⟩, rfl⟩
    obtain hp | hp := List.mem_append.mp hp
    · exact hback hp
    · rw [List.mem_singleton.mp hp]
      exact .inl (hm.givenBack hw)
  | yielded call =>
    obtain ⟨rfl, rfl⟩ := Prod.mk.inj (Option.some.inj hst)
    obtain ⟨hu, -⟩ := h
    refine ⟨⟨hkernel.user.trans hu.symm, hm.satp, ?_, fun hu' => ?_⟩, rfl⟩
    · rw [hkernel.sscratch, hu]
      rfl
    · rw [hu] at hu'
      cases hu'

end

section

variable [DecidableEq ι] {H : Handler L}

theorem Inv.move (hL : L.Sound) {s : State ι} {c core : Core} {j : ι} {parked st : Status}
    (huser : c.user = false) (hscratch : c.csrs .sscratch = 0)
    (hmasked : (c.csrs .sstatus).getLsbD 1 = false)
    (hother : ∀ k, k ≠ s.current → L.Other k c.mem (s.status k))
    (hparked : ∀ m, L.Waiting s.current c m → L.Other s.current m parked) (hj : j ≠ s.current)
    (hst : Preempt.resume L j (switchTo L (L.context s.current) j c) (s.status j) =
      some (core, st)) :
    L.Inv ⟨core, j, Function.update (Function.update s.status s.current parked) j st⟩ := by
  have hm := switchTo_moved L (L.context s.current) j c
  have hold {k : ι} (hk : k ≠ s.current) : ∀ p ∈ contextRegs,
      L.context s.current + BitVec.ofNat 64 p.2 ∉ L.stack k ∧
        L.context s.current + BitVec.ofNat 64 p.2 ∉ L.contextArea k := by
    intro p hp
    have hp := mem_contextArea (L := L) s.current hp
    exact ⟨fun h => Set.disjoint_left.mp (hL.stack_context k s.current) h hp,
      fun h => Set.disjoint_left.mp (hL.context_ne hk) h hp⟩
  obtain ⟨hcurrent, hmem⟩ :=
    hm.resume huser hscratch hmasked (hm.other (hother j hj) (hold hj)) hst
  refine ⟨?_, fun {k} hk => ?_⟩
  · dsimp only
    rw [Function.update_self]
    exact hcurrent
  · dsimp only
    rw [Function.update_of_ne hk, hmem]
    by_cases hki : k = s.current
    · subst hki
      rw [Function.update_self]
      refine hparked _ ⟨fun hp => hm.saved hp, fun {a} ha => hm.kept fun p hp he => ?_⟩
      have hp := mem_contextArea (L := L) s.current hp
      exact Set.disjoint_left.mp (hL.stack_context s.current s.current) ha (he ▸ hp)
    · rw [Function.update_of_ne hki]
      exact hm.other (hother k hki) (hold hki)

theorem Inv.restart (hL : L.Sound) {s : State ι} {t : Trap} {calls : List (Core × Core)}
    {c c' : Core} {j : ι} {ctx : Context} (ht : L.Trapped s.current t calls)
    (hkernel : L.InKernel s.current c)
    (hother : ∀ k, k ≠ s.current → L.Other k c.mem (s.status k)) (hj : j ≠ s.current)
    (hc' : L.Forged j ctx c c') (hfits : L.Fits j ctx) :
    L.Inv { s with
      core := c'
      status := Function.update (Function.update s.status s.current
        (.handling t (calls ++ [(c, c')]))) j (.fresh ctx) } := by
  refine ⟨?_, fun {k} hk => ?_⟩
  · dsimp only
    rw [Function.update_of_ne hj.symm, Function.update_self]
    refine ⟨⟨ht.ready, ht.room, fun {p} hp => ?_⟩, (last_append _ _ (c, c')).symm, ?_⟩
    · obtain hp | hp := List.mem_append.mp hp
      · exact ht.back hp
      · rw [List.mem_singleton.mp hp]
        exact .inr ⟨j, ctx, hc'⟩
    · rw [hc'.core]
      exact ⟨hkernel.user, hkernel.satp, hkernel.sscratch, hkernel.masked⟩
  · dsimp only at hk ⊢
    by_cases hkj : k = j
    · subst hkj
      rw [Function.update_self]
      exact ⟨hc'.stored, hfits⟩
    · rw [Function.update_of_ne hkj, Function.update_of_ne hk]
      exact (hother k hk).congr
        (fun a ha => hc'.kept fun h => Set.disjoint_left.mp (hL.stack_context k j) ha h)
        fun a ha => hc'.kept fun h => Set.disjoint_left.mp (hL.context_ne hkj) ha h

theorem Inv.step (hL : L.Sound) {s s' : State ι} {l : Label ι} (h : L.Inv s)
    (hs : Step L H s l s') (hl : l ≠ .unmasked) : L.Inv s' := by
  have hcurrent := h.current
  cases hs with
  | work hst hc =>
    rw [hst] at hcurrent
    refine ⟨?_, fun {j} hj => (h.other hj).of_foreign hj fun a ha => hc.foreign ha⟩
    change L.Current s.current _ (s.status s.current)
    rw [hst]
    exact hc.ready hcurrent
  | @trap scause stval hst hroom =>
    rw [hst] at hcurrent
    have ht : L.Trapped s.current ⟨s.core, scause, stval⟩ [] := Trapped.enter hL hcurrent hroom
    refine ⟨?_, fun {j} hj => ?_⟩
    · change L.Current s.current _ (Function.update s.status s.current _ s.current)
      rw [Function.update_self]
      exact ⟨ht, rfl, ht.entry_inKernel⟩
    · change L.Other j _ (Function.update s.status s.current _ j)
      rw [Function.update_of_ne hj]
      exact (h.other hj).of_foreign hj fun a ha => ht.entry_foreign hL ha
  | switch hst hc hj hresume =>
    rw [hst] at hcurrent
    obtain ⟨ht, hlast, hkernel⟩ := hcurrent
    have hwithin := H.calls_within hc
    rw [← hlast] at hwithin
    have hkernel := hwithin.inKernel hkernel
    exact Inv.move hL hkernel.user hkernel.sscratch hkernel.masked
      (fun k hk => (h.other hk).of_foreign hk fun a ha => hwithin.foreign ha)
      (fun m hw => ⟨ht, hw⟩) hj hresume
  | restart hst hc hj hc' =>
    rw [hst] at hcurrent
    obtain ⟨ht, hlast, hkernel⟩ := hcurrent
    have hwithin := H.restarts_within hc
    rw [← hlast] at hwithin
    exact Inv.restart hL ht (hwithin.inKernel hkernel)
      (fun k hk => (h.other hk).of_foreign hk fun a ha => hwithin.foreign ha) hj hc'
      (H.restarts_fits hc)
  | nested hst hsie =>
    rw [hst] at hcurrent
    obtain ⟨-, -, hkernel⟩ := hcurrent
    rw [hkernel.masked] at hsie
    cases hsie
  | unmasked => exact absurd rfl hl
  | yield hst huser hc hmasked hj hresume =>
    rw [hst] at hcurrent
    have hready := hc.ready hcurrent
    have hscratch := hready.sscratch
    rw [huser, if_neg Bool.false_ne_true] at hscratch
    exact Inv.move hL (hready.user.trans huser) hscratch hmasked
      (fun k hk => (h.other hk).of_foreign hk fun a ha => hc.foreign ha)
      (fun m hw => ⟨huser, hw⟩) hj hresume
  | exit hst hc =>
    rw [hst] at hcurrent
    obtain ⟨ht, hlast, hkernel⟩ := hcurrent
    have hwithin := H.returns_within hc
    rw [← hlast] at hwithin
    refine ⟨?_, fun {j} hj => ?_⟩
    · change L.Current s.current _ (Function.update s.status s.current _ s.current)
      rw [Function.update_self]
      exact ht.exit_ready hL hc (hlast ▸ hkernel)
    · change L.Other j (run none trapExit _).mem (Function.update s.status s.current _ j)
      rw [Function.update_of_ne hj, (trapExit_exited _).mem]
      exact (h.other hj).of_foreign hj fun a ha => hwithin.foreign ha

theorem Inv.start (hL : L.Sound) {s : State ι} (h : Start L s) : L.Inv s := by
  obtain ⟨c, old, huser, hscratch, hstored, hold, hs⟩ := h
  have hm := switchTo_moved L old s.current c
  have hforged (j : ι) : L.Other j (switchTo L old s.current c).mem (.fresh (L.forged j)) :=
    hm.other (show L.Other j c.mem (.fresh (L.forged j)) from ⟨hstored j, hL.fits j⟩) fun p hp =>
      ⟨fun ha => hold p hp (.inl ⟨j, ha⟩), fun ha => hold p hp (.inr ⟨j, ha⟩)⟩
  obtain ⟨hready, hmem⟩ := hm.launch huser hscratch (hforged s.current).1 (hL.fits _)
  rw [hs]
  refine ⟨?_, fun {j} hj => ?_⟩
  · dsimp only
    rw [Function.update_self]
    exact hready
  · dsimp only
    rw [Function.update_of_ne hj, hmem]
    exact hforged j

end

end Layout

end Perenne.Preempt

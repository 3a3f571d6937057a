import Perenne.Waiting

namespace Perenne.Preempt

open Riscv Asm

variable {ι : Type*}

section

variable [DecidableEq ι] {L : Layout ι} {H : Handler L}

/-- Runs in which every kernel task that switches has turned interrupts off. -/
def Reaches (L : Layout ι) (H : Handler L) : State ι → State ι → Prop :=
  Relation.ReflTransGen fun s s' => ∃ l, Step L H s l s' ∧ l ≠ .unmasked

/-- The label is a way out of its trap for task `i`: it leaves the trap, or it is restarted. -/
def Label.leaves (i current : ι) (l : Label ι) : Prop := l = .exit ∧ current = i ∨ l = .restart i

/-- Such runs in which task `i` does not leave its trap and is not restarted. -/
def Away (L : Layout ι) (H : Handler L) (i : ι) : State ι → State ι → Prop :=
  Relation.ReflTransGen fun s s' =>
    ∃ l, Step L H s l s' ∧ l ≠ .unmasked ∧ ¬ l.leaves i s.current

theorem Reaches.inv (hL : L.Sound) {s s' : State ι} (h : L.Inv s) (hr : Reaches L H s s') :
    L.Inv s' := by
  induction hr with
  | refl => exact h
  | tail _ hstep ih =>
    obtain ⟨l, hstep, hl⟩ := hstep
    exact ih.step hL hstep hl

/-- The hart belongs to the task on it, where every kernel task that switches has turned interrupts
off: the task runs its own code in its own mode, or its handler runs with interrupts off, and what
the others wait with is in memory. -/
theorem hart_owned (hL : L.Sound) {s₀ s : State ι} (h₀ : Start L s₀) (h : Reaches L H s₀ s) :
    (s.status s.current = .outside ∧ L.Ready s.current s.core ∨
      ∃ t calls, s.status s.current = .handling t calls ∧ L.InKernel s.current s.core) ∧
    ∀ j, j ≠ s.current →
      (∃ ctx, s.status j = .fresh ctx ∧ Stored s.core.mem (L.context j) ctx) ∨
      ∃ call, ((∃ t calls, s.status j = .parked t calls call) ∨ s.status j = .yielded call) ∧
        L.Waiting j call s.core.mem := by
  have hinv := Reaches.inv hL (Layout.Inv.start hL h₀) h
  refine ⟨?_, fun j hj => ?_⟩
  · have hcurrent := hinv.current
    cases hst : s.status s.current with
    | outside =>
      rw [hst] at hcurrent
      exact .inl ⟨rfl, hcurrent⟩
    | handling t calls =>
      rw [hst] at hcurrent
      exact .inr ⟨t, calls, rfl, hcurrent.2.2⟩
    | fresh ctx =>
      rw [hst] at hcurrent
      exact hcurrent.elim
    | parked t calls call =>
      rw [hst] at hcurrent
      exact hcurrent.elim
    | yielded call =>
      rw [hst] at hcurrent
      exact hcurrent.elim
  · have hother := hinv.other hj
    cases hst : s.status j with
    | fresh ctx =>
      rw [hst] at hother
      exact .inl ⟨ctx, rfl, hother.1⟩
    | parked t calls call =>
      rw [hst] at hother
      exact .inr ⟨call, .inl ⟨t, calls, rfl⟩, hother.2⟩
    | yielded call =>
      rw [hst] at hother
      exact .inr ⟨call, .inr rfl, hother.2⟩
    | outside =>
      rw [hst] at hother
      exact hother.elim
    | handling t calls =>
      rw [hst] at hother
      exact hother.elim

theorem Away.reaches {i : ι} {s s' : State ι} (h : Away L H i s s') : Reaches L H s s' :=
  Relation.ReflTransGen.mono (fun _ _ ⟨l, hl, hne, _⟩ => ⟨l, hl, hne⟩) _ _ h

omit [DecidableEq ι] in
theorem resume_trap {j : ι} {c core : Core} {st st' : Status} {t : Trap}
    (h : resume L j c st = some (core, st')) (ht : st.trap = some t) : st'.trap = some t := by
  cases st with
  | parked t' calls call =>
    obtain ⟨rfl, rfl⟩ := Prod.mk.inj (Option.some.inj h)
    exact ht
  | fresh ctx => cases ht
  | outside => cases ht
  | handling t' calls => cases h
  | yielded call => cases ht

theorem Step.trap_kept {s s' : State ι} {l : Label ι} (h : Step L H s l s') (hinv : L.Inv s)
    (hmasked : l ≠ .unmasked) {i : ι} {t : Trap} (ht : (s.status i).trap = some t)
    (hl : ¬ l.leaves i s.current) : (s'.status i).trap = some t := by
  have hcurrent (hs : s.status s.current = .outside) : i ≠ s.current := by
    rintro rfl
    rw [hs] at ht
    cases ht
  -- who is switched to
  have hswitch {j : ι} {c core : Core} {st parked : Status}
      (hst : resume L j c (s.status j) = some (core, st))
      (hparked : i = s.current → parked.trap = some t) :
      (Function.update (Function.update s.status s.current parked) j st i).trap = some t := by
    by_cases hij : i = j
    · subst hij
      rw [Function.update_self]
      exact resume_trap hst ht
    · rw [Function.update_of_ne hij]
      by_cases hi : i = s.current
      · rw [hi, Function.update_self]
        exact hparked hi
      · rwa [Function.update_of_ne hi]
  cases h with
  | work hs hc => exact ht
  | trap hs hroom =>
    dsimp only
    rwa [Function.update_of_ne (hcurrent hs)]
  | switch hs hc hj hst =>
    refine hswitch hst fun hi => ?_
    rwa [hi, hs] at ht
  | restart hs hc hj hc' =>
    dsimp only
    rw [Function.update_of_ne fun hi => hl (.inr (congrArg Label.restart hi.symm))]
    by_cases hi : i = s.current
    · rw [hi, hs] at ht
      rw [hi, Function.update_self]
      exact ht
    · rwa [Function.update_of_ne hi]
  | yield hs huser hc hmasked' hj hst => exact hswitch hst fun hi => absurd hi (hcurrent hs)
  | exit hs hc =>
    dsimp only
    rwa [Function.update_of_ne fun hi => hl (.inl ⟨rfl, hi.symm⟩)]
  | nested hs hsie =>
    have hcur := hinv.current
    rw [hs] at hcur
    obtain ⟨-, -, hkernel⟩ := hcur
    rw [hkernel.masked] at hsie
    cases hsie
  | unmasked => exact absurd rfl hmasked

theorem Away.trap_kept (hL : L.Sound) {i : ι} {s s' : State ι} (h : Away L H i s s')
    (hinv : L.Inv s) {t : Trap} (ht : (s.status i).trap = some t) :
    (s'.status i).trap = some t := by
  induction h with
  | refl => exact ht
  | tail hrun hstep ih =>
    obtain ⟨l, hstep, hmasked, hl⟩ := hstep
    exact hstep.trap_kept ((Away.reaches hrun).inv hL hinv) hmasked ih hl

/-- A preempted task cannot tell, where every kernel task that switches has turned interrupts off:
whatever the other tasks do between the timer trap and the task's way out of it, restarts of each
other included. -/
theorem preemption_unnoticed (hL : L.Sound) {s₀ s₁ s₂ s₃ s₄ : State ι} (h₀ : Start L s₀)
    (h₁ : Reaches L H s₀ s₁) {scause stval : Word} (ht : decode scause.toNat = .supervisorTimer)
    (htrap : Step L H s₁ (.trap scause stval) s₂) (haway : Away L H s₁.current s₂ s₃)
    (hcurrent : s₃.current = s₁.current) (hexit : Step L H s₃ .exit s₄) :
    L.Unnoticed s₁.current s₁.core s₄.core := by
  have hinv₂ : L.Inv s₂ :=
    Reaches.inv hL (Layout.Inv.start hL h₀) (h₁.tail ⟨_, htrap, nofun⟩)
  have hinv : L.Inv s₃ := haway.reaches.inv hL hinv₂
  have hin : (s₂.status s₁.current).trap = some ⟨s₁.core, scause, stval⟩ := by
    cases htrap
    dsimp only
    rw [Function.update_self]
    rfl
  have hkept := haway.trap_kept hL hinv₂ hin
  cases hexit with
  | @exit t calls c hs hc =>
    have hcur := hinv.current
    rw [hs] at hcur
    obtain ⟨htrapped, hlast, hkernel⟩ := hcur
    rw [← hcurrent, hs] at hkept
    obtain rfl : t = ⟨s₁.core, scause, stval⟩ := Option.some.inj hkept
    rw [← hcurrent]
    exact htrapped.unnoticed hL hc (hlast ▸ hkernel) ht

end

theorem Layout.Back.reg {L : Layout ι} {i : ι} {p : Core × Core} (h : L.Back i p) {r : Reg}
    (hr : r ∈ calleeSaved) : p.2.get r = p.1.get r := by
  obtain h | ⟨j, ctx, h⟩ := h
  · exact h.reg hr
  · rw [h.core]
    rfl

theorem Layout.Back.stack {L : Layout ι} (hL : L.Sound) {i : ι} {p : Core × Core} (h : L.Back i p)
    {a : Word} (ha : a ∈ L.stack i) : p.2.mem a = p.1.mem a := by
  obtain h | ⟨j, ctx, h⟩ := h
  · exact h.stack ha
  · exact h.kept fun hc => Set.disjoint_left.mp (hL.stack_context i j) ha hc

/-- Two U-mode tasks, each with a page of kernel stack. -/
def pair : Layout Bool where
  context b := if b then 0x2000#64 else 0x1000#64
  stack b := {a | a.toNat / 0x1000 = if b then 0x20 else 0x10}
  user _ := true
  satp b := if b then 2#64 else 1#64
  forged b := launchContext 0x100 0x200 0x8000 (if b then 0x21000 else 0x11000) 0 0 0 0
  link := 0x300#64

instance (b : Bool) : DecidablePred (· ∈ pair.stack b) := fun a =>
  inferInstanceAs (Decidable (a.toNat / 0x1000 = if b then 0x20 else 0x10))

theorem pair_sound : pair.Sound where
  stack_ne := by
    intro i j hij
    rw [Set.disjoint_left]
    intro a hi hj
    have hpages : ∀ i j : Bool, ((if i then 0x20 else 0x10) = if j then 0x20 else 0x10) → i = j := by
      decide
    exact hij (hpages i j (hi.symm.trans hj))
  context_ne := by
    intro i j hij
    rw [Set.disjoint_left]
    rintro a ⟨p, hp, rfl⟩ ⟨q, hq, he⟩
    revert i j p q
    decide +kernel
  stack_context := by
    intro i j
    rw [Set.disjoint_left]
    rintro a ha ⟨p, hp, rfl⟩
    revert i j p
    decide +kernel
  top_ne_zero := by decide
  room := by
    have hroom : ∀ i : Bool, ∀ o ∈ frameOffsets,
        pair.top i - 288#64 + BitVec.ofNat 64 o ∈ pair.stack i := by decide +kernel
    intro i _ o ho
    exact hroom i o ho
  fits i := ⟨rfl, fun _ => by
    revert i
    decide⟩

/-- Where a handler that only yields comes to its call, its own return address saved. -/
def yieldCall (e : Core) : Core :=
  (execAll [.addi sp sp (-16), .sd ra 8 sp] e).set ra 0x400#64

def yieldReturn (c : Core) : Core := execAll [.ld ra 8 sp, .addi sp sp 16] c

theorem yieldCall_mem (e : Core) : (yieldCall e).mem =
    Function.update e.mem (e.get sp + BitVec.ofInt 64 (-16) + 8#64) (e.get ra) := by
  have hne : ra ≠ sp := by decide
  rw [yieldCall, Core.set_mem, execAll_cons, execAll_cons, execAll_nil]
  simp only [Instr.exec, Core.store, Core.set_mem, Core.get_set_self _ sp_ne_zero,
    Core.get_set_ne _ hne]

theorem yieldCall_get (e : Core) {r : Reg} (hr : r ≠ ra) :
    (yieldCall e).get r = if r = sp then e.get sp + BitVec.ofInt 64 (-16) else e.get r := by
  rw [yieldCall, Core.get_set_ne _ hr, execAll_cons, execAll_cons, execAll_nil]
  split
  next h =>
    subst h
    exact Core.get_set_self e sp_ne_zero _
  next h => exact Core.get_set_ne e h _

theorem yieldReturn_get (c : Core) {r : Reg} (hr : r ≠ ra) :
    (yieldReturn c).get r = if r = sp then c.get sp + BitVec.ofInt 64 16 else c.get r := by
  have hne : sp ≠ ra := by decide
  rw [yieldReturn, execAll_cons, execAll_cons, execAll_nil]
  split
  next h =>
    subst h
    refine (Core.get_set_self _ sp_ne_zero _).trans ?_
    exact congrArg (· + BitVec.ofInt 64 16) (Core.get_set_ne _ hne _)
  next h => exact (Core.get_set_ne _ h _).trans (Core.get_set_ne _ hr _)

theorem yieldSlot_spec : ∀ i : Bool,
    pair.top i - 288#64 + BitVec.ofInt 64 (-16) + 8#64 ∈ pair.stack i ∧ ∀ o ∈ frameOffsets,
      pair.top i - 288#64 + BitVec.ofNat 64 o ≠
        pair.top i - 288#64 + BitVec.ofInt 64 (-16) + 8#64 := by
  decide +kernel

theorem yield_frame {i : Bool} {e back : Core} (he : e.get sp = pair.top i - 288#64)
    (hback : pair.Back i (yieldCall e, back)) {o : Nat} (ho : o ∈ frameOffsets) :
    (yieldReturn back).mem (e.get sp + BitVec.ofNat 64 o) =
      e.mem (e.get sp + BitVec.ofNat 64 o) := by
  have hstack : e.get sp + BitVec.ofNat 64 o ∈ pair.stack i := he ▸ pair_sound.room rfl ho
  refine (hback.stack pair_sound hstack).trans ?_
  rw [yieldCall_mem, he]
  exact Function.update_of_ne ((yieldSlot_spec i).2 o ho) ..

def yielding : Handler pair where
  calls i e h c := h = [] ∧ e.get sp = pair.top i - 288#64 ∧ c = yieldCall e
  returns i e h c := e.get sp = pair.top i - 288#64 ∧ ∃ back, h = [(yieldCall e, back)] ∧
    c = yieldReturn back
  restarts _ _ _ _ _ _ := False
  calls_within := by
    rintro i e _ _ ⟨rfl, he, rfl⟩
    refine ⟨rfl, rfl, rfl, id, fun {a} ha => ?_⟩
    rw [yieldCall_mem, he]
    refine Function.update_of_ne (fun h => ?_) ..
    have hown := (yieldSlot_spec i).1
    rw [← h] at hown
    obtain ⟨j, hj, ha⟩ | ⟨j, ha⟩ := ha
    · exact Set.disjoint_left.mp (pair_sound.stack_ne hj) ha hown
    · exact Set.disjoint_left.mp (pair_sound.stack_context i j) hown ha
  restarts_within := nofun
  restarts_fits := nofun
  returns_within := by
    rintro i e _ _ ⟨-, back, rfl, rfl⟩
    exact ⟨rfl, rfl, rfl, id, fun _ => rfl⟩
  saved := by
    rintro i e _ _ ⟨-, back, rfl, rfl⟩ hback r hr
    have hne : ∀ r ∈ calleeSaved, r ≠ ra := by decide
    have hreg := Layout.Back.reg (hback _ (.head _)) hr
    rw [yieldReturn_get back (hne r hr)]
    rw [yieldCall_get e (hne r hr)] at hreg
    split
    next h =>
      subst h
      rw [hreg, if_pos rfl, BitVec.add_assoc,
        (by decide : BitVec.ofInt 64 (-16) + BitVec.ofInt 64 16 = 0#64), BitVec.add_zero]
    next h => rw [hreg, if_neg h]
  sstatus := by
    rintro i e _ _ ⟨he, back, rfl, rfl⟩ hback
    exact yield_frame he (hback _ (.head _)) (by decide : 256 ∈ frameOffsets)
  timer := by
    rintro i e _ _ ⟨he, back, rfl, rfl⟩ hback - o ho
    exact yield_frame he (hback _ (.head _)) ho

def tick : Word := 0x8000000000000005#64

theorem pair_entry_sp {i : Bool} {t : Trap} (h : pair.Ready i t.core) :
    t.entry.get sp = pair.top i - 288#64 :=
  t.entered.sp.trans (h.base pair_sound rfl)

theorem pair_preempted {i : Bool} {s : State Bool} (hi : s.current = i)
    (hs : s.status i = .outside) (hinv : pair.Inv s) {core : Core} {st : Status}
    (hst : resume pair (!i) (switchTo pair (pair.context i) (!i)
      (yieldCall (Trap.entry ⟨s.core, tick, 0⟩))) (s.status !i) = some (core, st)) :
    ∃ s' s'', Step pair yielding s (.trap tick 0) s' ∧ Step pair yielding s' .switch s'' ∧
      s''.current = !i ∧ s''.core = core ∧ s''.status (!i) = st ∧
      s''.status i = .parked ⟨s.core, tick, 0⟩ [] (yieldCall (Trap.entry ⟨s.core, tick, 0⟩)) := by
  subst hi
  have hne : (!s.current) ≠ s.current := Bool.not_ne_self _
  have hcurrent := hinv.current
  rw [hs] at hcurrent
  refine ⟨_, _, .trap hs (fun h => by cases h), .switch (Function.update_self ..)
    ⟨rfl, pair_entry_sp hcurrent, rfl⟩ hne ?_, rfl, rfl, Function.update_self .., ?_⟩
  · dsimp only
    rw [Function.update_of_ne hne]
    exact hst
  · dsimp only
    rw [Function.update_of_ne hne.symm, Function.update_self]

def pairMem (a : Word) : Word :=
  let ctx := pair.forged (decide (a.toNat / 0x1000 = 2))
  BitVec.ofNat 64 (((ctx.ra :: ctx.sp :: List.ofFn ctx.s)[a.toNat % 0x1000 / 8]?).getD 0)

/-- The state after `enter()`. -/
def pairStart : State Bool :=
  ⟨arrive pair false (switchTo pair 0x5000#64 false ⟨fun _ => 0, 0, false, fun _ => 0, pairMem⟩),
    false, Function.update (fun j => .fresh (pair.forged j)) false .outside⟩

theorem pairMem_stored (j : Bool) : Stored pairMem (pair.context j) (pair.forged j) := by
  refine ⟨?_, ?_, fun n => ?_⟩
  · revert j
    decide +kernel
  · revert j
    decide +kernel
  · revert j n
    decide +kernel

theorem pair_throwaway : ∀ p ∈ contextRegs, 0x5000#64 + BitVec.ofNat 64 p.2 ∉ pair.kernel := by
  rintro p hp (⟨j, ha⟩ | ⟨j, q, hq, he⟩)
  · revert p j
    decide +kernel
  · revert p j q
    decide +kernel

theorem pairStart_start : Start pair pairStart :=
  ⟨⟨fun _ => 0, 0, false, fun _ => 0, pairMem⟩, 0x5000#64, rfl, rfl, pairMem_stored,
    pair_throwaway, rfl⟩

/-- The first task is preempted, and the second has its first run. -/
theorem hart_owned_pair : ∃ (s : State Bool) (call : Core), Reaches pair yielding pairStart s ∧
    s.current = true ∧ pair.Ready true s.core ∧ pair.Waiting false call s.core.mem := by
  have hinv : pair.Inv pairStart := Layout.Inv.start pair_sound pairStart_start
  obtain ⟨s₁, s₂, htrap, hswitch, hcurrent, -, hother, hparked⟩ :=
    pair_preempted (i := false) (s := pairStart) rfl rfl hinv rfl
  have hreaches : Reaches pair yielding pairStart s₂ :=
    (Relation.ReflTransGen.single ⟨_, htrap, nofun⟩).tail ⟨_, hswitch, nofun⟩
  obtain ⟨hrunning, hwaiting⟩ := hart_owned pair_sound pairStart_start hreaches
  rw [hcurrent] at hrunning hwaiting
  obtain ⟨-, hready⟩ | ⟨t, calls, hst, -⟩ := hrunning
  · obtain ⟨ctx, hst, -⟩ | ⟨call, -, hwaits⟩ := hwaiting false (by decide)
    · rw [hparked] at hst
      cases hst
    · exact ⟨s₂, call, hreaches, hcurrent, hready, hwaits⟩
  · have hst := hother.symm.trans hst
    cases hst

theorem preemption_unnoticed_pair : ∃ s s' : State Bool, Step pair yielding s .exit s' ∧
    pair.Unnoticed false pairStart.core s'.core := by
  have hinv : pair.Inv pairStart := Layout.Inv.start pair_sound pairStart_start
  obtain ⟨s₁, s₂, htrap, hswitch, hcurrent, -, hother, hparked⟩ :=
    pair_preempted (s := pairStart) rfl rfl hinv rfl
  have hinv' := (hinv.step pair_sound htrap nofun).step pair_sound hswitch
    nofun
  obtain ⟨s₃, s₄, htrap', hswitch', hcurrent', -, hback, -⟩ :=
    pair_preempted hcurrent hother hinv' (by rw [Bool.not_not, hparked]; rfl)
  have hsp : (Trap.entry ⟨pairStart.core, tick, 0⟩).get sp = pair.top s₄.current - 288#64 := by
    rw [hcurrent']
    exact pair_entry_sp (i := false) hinv.current
  have hexit := Step.exit (L := pair) (H := yielding) (s := s₄) (by rw [hcurrent', hback]; rfl)
    ⟨hsp, _, rfl, rfl⟩
  refine ⟨s₄, _, hexit, preemption_unnoticed pair_sound pairStart_start .refl (by decide) htrap
    ?_ hcurrent' hexit⟩
  have hstays {s s' : State Bool} {l : Label Bool} (hstep : Step pair yielding s l s')
      (hl : l ≠ .unmasked ∧ l ≠ .exit ∧ l ≠ .restart false) :
      ∃ l, Step pair yielding s l s' ∧ l ≠ .unmasked ∧ ¬ l.leaves false s.current :=
    ⟨l, hstep, hl.1, fun h => h.elim (fun h => hl.2.1 h.1) hl.2.2⟩
  have hswitches : (.switch : Label Bool) ≠ .unmasked ∧ (.switch : Label Bool) ≠ .exit ∧
      (.switch : Label Bool) ≠ .restart false :=
    ⟨nofun, nofun, nofun⟩
  exact ((Relation.ReflTransGen.single (hstays hswitch hswitches)).tail
    (hstays htrap' ⟨nofun, nofun, nofun⟩)).tail
    (hstays hswitch' hswitches)

end Perenne.Preempt

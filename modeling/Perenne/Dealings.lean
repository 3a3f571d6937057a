import Perenne.Provenance
import Perenne.Conservation
import Perenne.KernelCall

namespace Perenne

open Scheduler

/-- The operation a message comes from. -/
inductive Delivery where
  | send
  | call (caller : Slot)
  | grant (cap : Capability)
  | crash
deriving DecidableEq

namespace Delivery

/-- The caller a receiver is to answer. -/
def caller : Delivery → Option Nat
  | .call c => some c.val
  | _ => none

/-- The capability a receiver is to install. -/
def granted : Delivery → Option Capability
  | .grant cap => some cap
  | _ => none

end Delivery

/-- For each task, the last message it offered and the last one a wake-up handed to it. -/
structure Dealings where
  asked : Slot → Option Delivery
  got : Slot → Option Delivery

def Dealings.none : Dealings := ⟨fun _ => .none, fun _ => .none⟩

/-- A `grant` that is not complete: the task is blocked as its sender, or the grant has
woken it and it has not resumed its `recv`. -/
def Kont.inGrant (k : Kont) (st : TaskState) (asked got : Option Delivery) (cap : Capability) :
    Prop :=
  (k = .send ∧ (∃ ep, st = .blocked ep .send) ∧ asked = some (.grant cap)) ∨
  ((∃ ep slot, k = .recv ep slot) ∧ st.runnable ∧ got = some (.grant cap))

namespace Machine

variable {p : Platform} {m₀ m m₁ m' : Machine} {t : Task} {ev : Event} {g g' : Dealings}

/-- The message an accepted `send`, `call`, `grant` or `call_message` offers, and where. -/
def offered (m : Machine) : Event → Option (EndpointId × Delivery)
  | .trap frame => (m.sched.tasks m.current).bind fun t =>
    if decode frame.scause = .userEcall then
      match decodeSyscall (frame.regs 16) with
      | .send => (t.caps.capLookup (frame.regs 9)).map fun ep => (ep, .send)
      | .call => (t.caps.capLookup (frame.regs 9)).map fun ep => (ep, .call m.current)
      | .grant => (t.caps.capLookup (frame.regs 9)).bind fun ep =>
          (t.caps.capAt (frame.regs 10)).map fun cap => (ep, .grant cap)
      | _ => none
    else none
  | .callMessage idx _ => (m.sched.tasks m.current).bind fun t =>
      (t.caps.capLookup idx).map fun ep => (ep, .call m.current)
  | _ => none

/-- The healer a fatal fault is reported to. -/
def reported (m : Machine) : Event → Option Slot
  | .trap frame => (m.sched.tasks m.current).bind fun t => (killCause frame).bind (m.notified t)
  | _ => none

def handed (m : Machine) (ev : Event) : Option (Slot × Delivery) :=
  match m.offered ev with
  | some (ep, d) => (m.sched.findBlocked ep .recv).map fun ri => (ri, d)
  | none => (m.reported ev).map fun h => (h, .crash)

def noteDealings (m : Machine) (ev : Event) (g : Dealings) : Dealings where
  asked := (m.offered ev).elim g.asked fun x => Function.update g.asked m.current (some x.2)
  got := (m.handed ev).elim g.got fun x => Function.update g.got x.1 (some x.2)

def dealingsOf (p : Platform) (m₀ : Machine) (ls : List Label) : Dealings :=
  Transition.observe (step p) (fun m l _ g => m.noteDealings l.event g) m₀ .none ls

/-- A capability in transit is in a grant that is not complete. -/
def InTransit (m : Machine) (g : Dealings) : Prop :=
  ∀ i t cap, m.sched.tasks i = some t → t.pendingGrant = some cap →
    (m.konts i).inGrant t.state (g.asked i) (g.got i) cap

/-- What the next step of a receiver adds to its table: nothing for a plain send, the
right to answer for a call. -/
structure Installs (m : Machine) (g : Dealings) (l : Label) (m' : Machine) : Prop where
  taken {frame : TrapFrame} {t t' : Task} {ep : EndpointId} {si : Slot} {isCall : Bool}
    (hask : l.event.asks .recv frame) (ht : m.sched.tasks m.current = some t)
    (ht' : m'.sched.tasks m.current = some t')
    (hcap : t.caps.capLookup (frame.regs 9) = some ep)
    (hfind : m.sched.waitingSender ep = some (si, isCall)) :
    (isCall = false → g.asked si = some .send → t'.caps = t.caps) ∧
    (isCall = true → t'.caps = t.caps.install (frame.regs 10) (.reply si))
  resumed {t t' : Task} {ep : EndpointId} {slot : Nat} (hev : l.event = .resume)
    (hkont : m.konts m.current = .recv ep slot) (ht : m.sched.tasks m.current = some t)
    (ht' : m'.sched.tasks m.current = some t') :
    (g.got m.current = some .send → t'.caps = t.caps) ∧
    ∀ c, g.got m.current = some (.call c) → t'.caps = t.caps.install slot (.reply c)

/-- A kernel task's `recv_message` takes a sender that is blocked in a grant, or a grant
finds a kernel task blocked in `recv_message`. -/
def grantMeetsKernel (m : Machine) : Event → Bool
  | .recvMessage idx => (m.sched.tasks m.current).any fun t =>
      (t.caps.capLookup idx).any fun ep => (m.sched.findBlocked ep .send).any fun si =>
        (m.sched.tasks si).any (·.pendingGrant.isSome)
  | ev =>
    match m.offered ev with
    | some (ep, .grant _) => (m.sched.findBlocked ep .recv).any fun ri =>
        (m.sched.tasks ri).any (!·.isUser)
    | _ => false

/-- No grant meets a kernel task, and only `Exited` tasks are restarted. -/
def GrantsUsers (m : Machine) (l : Label) : Prop :=
  m.grantMeetsKernel l.event = false ∧ ∀ c, m.restartsLive c l.event = false

instance (m : Machine) (l : Label) : Decidable (m.GrantsUsers l) :=
  inferInstanceAs (Decidable (_ ∧ _))

theorem offered_of_offer (hrun : m.Runs t) {ep : EndpointId} {msg : Message} {caller : Option Nat}
    {granted : Option Capability} {taken queued : TaskState × Kont}
    (h : Offer m t ev ep msg caller granted taken queued) :
    ∃ d, m.offered ev = some (ep, d) ∧ d.caller = caller ∧ d.granted = granted := by
  have htask := hrun.task
  cases h with
  | send hask hcap =>
    obtain ⟨rfl, hec, hsys⟩ := hask
    exact ⟨.send, by simp [offered, htask, hec, hsys, hcap], rfl, rfl⟩
  | call hask hcap =>
    obtain ⟨rfl, hec, hsys⟩ := hask
    exact ⟨.call m.current, by simp [offered, htask, hec, hsys, hcap], rfl, rfl⟩
  | @grant _ _ _ cap hask hcap hsrc =>
    obtain ⟨rfl, hec, hsys⟩ := hask
    exact ⟨.grant cap, by simp [offered, htask, hec, hsys, hcap, hsrc], rfl, rfl⟩
  | callMessage hcap => exact ⟨.call m.current, by simp [offered, htask, hcap], rfl, rfl⟩

theorem noteDealings_eq (hoffer : m.offered ev = none) (hreport : m.reported ev = none) :
    m.noteDealings ev g = g := by
  simp [noteDealings, handed, hoffer, hreport]

theorem noteDealings_of_asks {sys : Syscall} {frame : TrapFrame} (hask : ev.asks sys frame)
    (hsend : sys ≠ .send) (hcall : sys ≠ .call) (hgrant : sys ≠ .grant) :
    m.noteDealings ev g = g := by
  obtain ⟨rfl, hec, rfl⟩ := hask
  refine noteDealings_eq ?_ ?_
  · cases ht : m.sched.tasks m.current with
    | none => simp [offered, ht]
    | some t =>
      simp only [offered, ht, Option.bind_some, hec, if_true]
  · simp [reported, killCause, hec]

theorem noteDealings_of_trap {frame : TrapFrame} (hec : decode frame.scause ≠ .userEcall)
    (hkill : killCause frame = none) : m.noteDealings (.trap frame) g = g := by
  refine noteDealings_eq ?_ ?_
  · cases ht : m.sched.tasks m.current <;> simp [offered, ht, hec]
  · simp [reported, hkill]

theorem noteDealings_keep (hrun : m.Runs t)
    (hsys : ev.isSyscall = true)
    (hrefuse : ∀ sys frame, ev.asks sys frame → t.caps.refuses frame sys)
    (hkill : ∀ frame, ev = .trap frame → killCause frame = none) :
    m.noteDealings ev g = g := by
  cases ev with
  | trap frame =>
    by_cases hec : decode frame.scause = .userEcall
    · have hrefuse := hrefuse _ frame ⟨rfl, hec, rfl⟩
      refine noteDealings_eq ?_ (by simp [reported, hkill frame rfl])
      have htask := hrun.task
      simp only [offered, htask, Option.bind_some, hec, if_true]
      split
      case h_1 hsend =>
        rw [hsend] at hrefuse
        rw [show t.caps.capLookup (frame.regs 9) = none from hrefuse]
        rfl
      case h_2 hcall =>
        rw [hcall] at hrefuse
        rw [show t.caps.capLookup (frame.regs 9) = none from hrefuse]
        rfl
      case h_3 hgrant =>
        rw [hgrant] at hrefuse
        obtain hep | hcap := hrefuse
        · rw [hep]
          rfl
        · rw [hcap]
          cases t.caps.capLookup (frame.regs 9) <;> rfl
      case h_4 => rfl
    · exact noteDealings_of_trap hec (hkill frame rfl)
  | callMessage => cases hsys
  | _ => exact noteDealings_eq rfl rfl

end Machine

/-- What is in transit on a task fits where it stands: a capability is in a grant that is
not complete, and a U-mode receiver has a caller to answer exactly if a call woke it. -/
structure Carries (t : Task) (k : Kont) (asked got : Option Delivery) : Prop where
  grant {cap : Capability} (h : t.pendingGrant = some cap) : k.inGrant t.state asked got cap
  caller {c : Nat} (hk : k.isKernel = false) (h : t.caller = some c) :
    (∃ ep slot, k = .recv ep slot) ∧ t.state.runnable ∧ got.bind Delivery.caller = some c
  woken {ep : EndpointId} {slot : Nat} {c : Slot} (hk : k = .recv ep slot)
    (hst : t.state.runnable) (h : got = some (.call c)) : t.caller = some c.val

namespace Carries

variable {t : Task} {k : Kont} {asked got : Option Delivery}

theorem of_none (hgrant : t.pendingGrant = none) (hcaller : k.isKernel = false → t.caller = none)
    (hk : ∀ ep slot, k = .recv ep slot → ¬ t.state.runnable) : Carries t k asked got := by
  refine ⟨fun h => ?_, fun hkernel h => ?_, fun hrecv hst => absurd hst (hk _ _ hrecv)⟩
  · cases hgrant.symm.trans h
  · cases (hcaller hkernel).symm.trans h

section Nothing

variable (h : Carries t k asked got)

include h

/-- Nothing is in transit on a task that is neither blocked as a sender nor woken in a
`recv`. -/
theorem grant_none (hsend : ∀ ep, t.state ≠ .blocked ep .send)
    (hrecv : t.state.runnable → ∀ ep slot, k ≠ .recv ep slot) : t.pendingGrant = none := by
  refine Option.eq_none_iff_forall_ne_some.mpr fun cap hcap => ?_
  obtain ⟨-, ⟨ep, hst⟩, -⟩ | ⟨⟨ep, slot, hk⟩, hst, -⟩ := h.grant hcap
  · exact hsend ep hst
  · exact hrecv hst ep slot hk

theorem caller_none (hrecv : t.state.runnable → ∀ ep slot, k ≠ .recv ep slot)
    (hk : k.isKernel = false) : t.caller = none := by
  refine Option.eq_none_iff_forall_ne_some.mpr fun c hc => ?_
  obtain ⟨⟨ep, slot, hr⟩, hst, -⟩ := h.caller hk hc
  exact hrecv hst ep slot hr

theorem move {t' : Task} {k' : Kont} {asked' got' : Option Delivery}
    (hsend : ∀ ep, t.state ≠ .blocked ep .send)
    (hrecv : t.state.runnable → ∀ ep slot, k ≠ .recv ep slot)
    (hgrant : t'.pendingGrant = t.pendingGrant) (hcaller : t'.caller = t.caller)
    (hk : k'.isKernel = k.isKernel)
    (hwoken : ∀ ep slot, k' = .recv ep slot → ¬ t'.state.runnable) :
    Carries t' k' asked' got' :=
  .of_none (hgrant.trans (h.grant_none hsend hrecv))
    (fun hk' => hcaller.trans (h.caller_none hrecv (hk.symm.trans hk'))) hwoken

end Nothing

end Carries

namespace Machine

variable {p : Platform} {m₀ m m₁ m' : Machine} {t : Task} {ev : Event} {g g' : Dealings}

def Carried (m : Machine) (g : Dealings) : Prop :=
  ∀ i t, m.sched.tasks i = some t → Carries t (m.konts i) (g.asked i) (g.got i)

theorem Carried.inTransit (h : m.Carried g) : m.InTransit g :=
  fun i t _ ht hcap => (h i t ht).grant hcap

theorem carried_next {s₁ : Scheduler} {f : TrapFrame} {k : Kont}
    (hcur : ∀ t', s₁.tasks m.current = some t' →
      Carries t' k (g'.asked m.current) (g'.got m.current))
    (hrest : ∀ i t', i ≠ m.current → s₁.tasks i = some t' →
      Carries t' (m.konts i) (g'.asked i) (g'.got i)) :
    (m.next s₁ f k).Carried g' := by
  intro i t' ht'
  rw [next_konts]
  split
  case isTrue hi => exact hi ▸ hcur t' (hi ▸ ht')
  case isFalse hi => exact hrest i t' hi ht'

theorem Carried.next_same (h : m.Carried g) {f : TrapFrame} :
    (m.next m.sched f (m.konts m.current)).Carried g := by
  intro i t' ht'
  rw [next_konts_same]
  exact h i t' ht'

theorem Carried.next_set (h : m.Carried g) {f : TrapFrame} {k : Kont} {t' : Task}
    (hcur : Carries t' k (g.asked m.current) (g.got m.current)) :
    (m.next (m.sched.set m.current t') f k).Carried g := by
  refine carried_next (fun u hu => ?_) (fun i u hi hu => ?_)
  · rw [set_tasks_self] at hu
    exact Option.some.inj hu ▸ hcur
  · rw [set_tasks_ne _ hi] at hu
    exact h i u hu

theorem Carried.next_set_set (h : m.Carried g) {f : TrapFrame} {k : Kont} {i : Slot} {r' t' : Task}
    (hr : Carries r' (m.konts i) (g.asked i) (g.got i))
    (hcur : Carries t' k (g.asked m.current) (g.got m.current)) :
    (m.next ((m.sched.set i r').set m.current t') f k).Carried g := by
  refine carried_next (fun u hu => ?_) (fun j u hj hu => ?_)
  · rw [set_tasks_self] at hu
    exact Option.some.inj hu ▸ hcur
  · rw [set_tasks_ne _ hj] at hu
    obtain ⟨rfl, rfl⟩ | ⟨-, hold⟩ := set_tasks_some hu
    · exact hr
    · exact h j u hold

theorem Carried.of_next {s₁ : Scheduler} {f : TrapFrame} {heal : Heal}
    (h : (m.next s₁ f (m.konts m.current)).Carried g) :
    { m with sched := s₁, heal }.Carried g := by
  intro i t' ht'
  have := h i t' ht'
  rwa [next_konts_same] at this

theorem Carried.next_wake (h : m.Carried g) (hrun : m.Runs t) {f : TrapFrame} {k : Kont} {i : Slot}
    {r' : Task} (hne : i ≠ m.current) (hr : Carries r' (m.konts i) (g.asked i) (g.got i))
    (hcur : Carries t k (g.asked m.current) (g.got m.current)) :
    (m.next (m.sched.set i r') f k).Carried g := by
  have := h.next_set_set (f := f) hr hcur
  rwa [set_self ((set_tasks_ne _ hne.symm _).trans hrun.task)] at this

theorem Carried.next_kont (h : m.Carried g) (hrun : m.Runs t) {f : TrapFrame} {k : Kont}
    (hcur : Carries t k (g.asked m.current) (g.got m.current)) :
    (m.next m.sched f k).Carried g := by
  have := h.next_set (f := f) hcur
  rwa [set_self (by exact hrun.task)] at this

theorem Carried.current (h : m.Carried g) (hrun : m.Runs t)
    (hk : ∀ ep slot, m.konts m.current ≠ .recv ep slot) {t' : Task} {k : Kont}
    {asked got : Option Delivery} (hgrant : t'.pendingGrant = t.pendingGrant)
    (hcaller : t'.caller = t.caller) (hkernel : k.isKernel = (m.konts m.current).isKernel)
    (hwoken : ∀ ep slot, k = .recv ep slot → ¬ t'.state.runnable) : Carries t' k asked got := by
  refine (h m.current t hrun.task).move (fun ep hst => ?_) (fun _ => hk) hgrant hcaller hkernel hwoken
  exact not_runnable_blocked (hst ▸ hrun.runnable)

theorem Carried.wake (h : m.Carried g) {i : Slot} {r r' : Task} (hr : m.sched.tasks i = some r)
    (hst : ¬ r.state.runnable) (hsend : ∀ ep, r.state ≠ .blocked ep .send)
    (hk : ∀ ep slot, m.konts i ≠ .recv ep slot) (hgrant : r'.pendingGrant = r.pendingGrant)
    (hcaller : r'.caller = r.caller) {asked got : Option Delivery} :
    Carries r' (m.konts i) asked got :=
  (h i r hr).move hsend (fun hrun => absurd hrun hst) hgrant hcaller rfl
    fun ep slot hrecv => absurd hrecv (hk ep slot)

end Machine

end Perenne

import Perenne.Static

namespace Perenne

/-- The task's table names this endpoint. -/
def Task.holds (t : Task) (ep : EndpointId) : Prop := ∃ k, t.caps.capLookup k = some ep

/-- The running task grants this capability on an endpoint it holds. -/
def Event.grants (ev : Event) (t : Task) (ep : EndpointId) (cap : Capability) : Prop :=
  ∃ frame, ev.asks .grant frame ∧ t.caps.capLookup (frame.regs 9) = some ep ∧
    t.caps.capAt (frame.regs 10) = some cap

/-- The running task passes a message on an endpoint it holds. -/
def Event.offers (ev : Event) (t : Task) (ep : EndpointId) : Prop :=
  (∃ sys frame, (sys = .send ∨ sys = .call ∨ sys = .grant) ∧ ev.asks sys frame ∧
    t.caps.capLookup (frame.regs 9) = some ep) ∨
  ∃ idx badge, ev = .callMessage idx badge ∧ t.caps.capLookup idx = some ep

/-- What a step can do to the task in slot `i`, whose record was `r`. -/
inductive Change (m : Machine) (t : Task) (ev : Event) (i : Slot) (r : Task) : Task → Prop
  | same : Change m t ev i r r
  | wait {state} (hi : i = m.current)
      (hblock : ∀ ep role, state = .blocked ep role → t.holds ep ∨ ev = .park) :
      Change m t ev i r { r with state }
  | queue {ep msg granted state} (hi : i = m.current) (hep : t.holds ep)
      (hgrant : ∀ cap, granted = some cap → ev.grants t ep cap)
      (hblock : ∀ ep' role, state = .blocked ep' role → ep' = ep) :
      Change m t ev i r
        { r with message := msg, pendingGrant := granted.or r.pendingGrant, state }
  | accept {ep msg caller granted} (hne : i ≠ m.current) (hep : t.holds ep)
      (hstate : r.state = .blocked ep .recv)
      (hcaller : ∀ c, caller = some c → c = m.current.val)
      (hgrant : ∀ cap, granted = some cap → ev.grants t ep cap) (hoffers : ev.offers t ep) :
      Change m t ev i r (r.accept msg caller granted)
  | taken {ep isCall frame} (hne : i ≠ m.current) (hep : t.holds ep)
      (hstate : r.state = .blocked ep (cond isCall .call .send)) (hask : ev.asks .recv frame)
      (hcap : t.caps.capLookup (frame.regs 9) = some ep) :
      Change m t ev i r
        { r with pendingGrant := none, state := cond isCall .awaitingReply .ready }
  | read {ep idx} (hne : i ≠ m.current) (hep : t.holds ep) (hstate : r.state = .blocked ep .send)
      (hev : ev = .recvMessage idx) :
      Change m t ev i r { r with state := .ready }
  | receive {ep u slot caller frame} {si : Slot} (hi : i = m.current) (hep : t.holds ep)
      (hu : m.sched.tasks si = some u) (hstate : ∃ role, u.state = .blocked ep role)
      (hcaller : ∀ c, caller = some c → c = si.val ∧ u.state = .blocked ep .call)
      (hask : ev.asks .recv frame) :
      Change m t ev i r { r with caps := r.caps.receive slot caller u.pendingGrant }
  | pickUp {slot} (hi : i = m.current) (hev : ev = .resume) :
      Change m t ev i r
        { r with caps := r.caps.receive slot r.caller r.pendingGrant,
                 caller := none, pendingGrant := none }
  | spend {k frame} (hi : i = m.current) (hask : ev.asks .reply frame) :
      Change m t ev i r { r with caps := r.caps.clear k }
  | answer {frame} (hne : i ≠ m.current) (hask : ev.asks .reply frame)
      (hcap : t.caps.replyCaller (frame.regs 9) = some i.val) (hstate : r.state = .awaitingReply) :
      Change m t ev i r { r with message := frame.message, state := .ready }
  | sweep {ep frame} (hne : i ≠ m.current) (hep : t.holds ep) (hask : ev.asks .revoke frame)
      (hcap : t.caps.capLookup (frame.regs 9) = some ep) :
      Change m t ev i r { r with caps := (r.caps.revokeInCaps ep).1 }
  | relaunch {context frame} (hcap : t.caps.restartTarget (frame.regs 9) = some i.val)
      (huser : r.isUser = true) (hask : ev.asks .restart frame) :
      Change m t ev i r { r with context, restarts := r.restarts + 1, state := .ready }
  | interrupt {irq frame} (hev : ev = .trap frame) (hcause : decode frame.scause = .supervisorExternal)
      (hstate : r.state = .waitingIrq irq) :
      Change m t ev i r { r with state := .ready }
  | notify {frame cause} (hev : ev = .trap frame)
      (hcause : Machine.killCause frame = some cause)
      (hstate : r.state = .blocked crashEp .recv) (hnotify : m.notified t cause = some i) :
      Change m t ev i r { r with message := ⟨t.crashBadge, 0, 0, 0⟩, state := .ready }

/-- The origin of a capability in the table of `i`. -/
inductive CapSource (m : Machine) (t : Task) (i : Slot) : Capability → Prop
  | kept {r k cap} (hr : m.sched.tasks i = some r) (hcap : r.caps.capAt k = some cap) :
      CapSource m t i cap
  | stashed {c} (hi : i = m.current) (hcaller : t.caller = some c) : CapSource m t i (.reply c)
  | minted {ep r} {si : Slot} (hi : i = m.current) (hcap : t.holds ep)
      (hr : m.sched.tasks si = some r) (hstate : r.state = .blocked ep .call) :
      CapSource m t i (.reply si)
  | carried {cap} (hi : i = m.current) (hgrant : t.pendingGrant = some cap) : CapSource m t i cap
  | granted {ep role r cap} {si : Slot} (hi : i = m.current) (hcap : t.holds ep)
      (hr : m.sched.tasks si = some r) (hstate : r.state = .blocked ep role)
      (hgrant : r.pendingGrant = some cap) : CapSource m t i cap

/-- The origin of a capability in transit on `i`. -/
inductive GrantSource (m : Machine) (t : Task) (ev : Event) (i : Slot) : Capability → Prop
  | kept {r cap} (hr : m.sched.tasks i = some r) (hgrant : r.pendingGrant = some cap) :
      GrantSource m t ev i cap
  | queued {frame ep cap} (hi : i = m.current) (hask : ev.asks .grant frame)
      (hcap : t.caps.capLookup (frame.regs 9) = some ep)
      (hsrc : t.caps.capAt (frame.regs 10) = some cap) : GrantSource m t ev i cap
  | sent {frame ep r cap} (hask : ev.asks .grant frame)
      (hcap : t.caps.capLookup (frame.regs 9) = some ep)
      (hsrc : t.caps.capAt (frame.regs 10) = some cap) (hr : m.sched.tasks i = some r)
      (hstate : r.state = .blocked ep .recv) : GrantSource m t ev i cap

/-- The origin of a caller stashed on `i`. -/
inductive CallerSource (m : Machine) (t : Task) (i : Slot) : Nat → Prop
  | kept {r c} (hr : m.sched.tasks i = some r) (hcaller : r.caller = some c) : CallerSource m t i c
  | bound {ep r} (hcap : t.holds ep) (hr : m.sched.tasks i = some r)
      (hstate : r.state = .blocked ep .recv) : CallerSource m t i m.current

/-- The origin of the endpoint `i` is blocked on. -/
inductive BlockSource (m : Machine) (t : Task) (ev : Event) (i : Slot) : EndpointId → Prop
  | kept {r ep role} (hr : m.sched.tasks i = some r) (hstate : r.state = .blocked ep role) :
      BlockSource m t ev i ep
  | asked {ep} (hi : i = m.current) (hcap : t.holds ep) : BlockSource m t ev i ep
  | parked {ep} (hev : ev = .park) : BlockSource m t ev i ep

namespace Machine

open Scheduler

variable {m m₁ : Machine} {t : Task} {ev : Event} {i : Slot} {t' : Task}

theorem offer_holds {ep : EndpointId} {msg : Message} {caller : Option Nat}
    {granted : Option Capability} {taken queued : TaskState × Kont}
    (h : Offer m t ev ep msg caller granted taken queued) : t.holds ep := by
  cases h with
  | send _ hcap => exact ⟨_, hcap⟩
  | call _ hcap => exact ⟨_, hcap⟩
  | grant _ hcap => exact ⟨_, hcap⟩
  | callMessage hcap => exact ⟨_, hcap⟩

theorem offer_grants {ep : EndpointId} {msg : Message} {caller : Option Nat}
    {granted : Option Capability} {taken queued : TaskState × Kont}
    (h : Offer m t ev ep msg caller granted taken queued) (cap : Capability)
    (hg : granted = some cap) : ev.grants t ep cap := by
  cases h with
  | grant hask hcap hsrc => exact ⟨_, hask, hcap, Option.some.inj hg ▸ hsrc⟩
  | _ => cases hg

theorem offer_offers {ep : EndpointId} {msg : Message} {caller : Option Nat}
    {granted : Option Capability} {taken queued : TaskState × Kont}
    (h : Offer m t ev ep msg caller granted taken queued) : ev.offers t ep := by
  cases h with
  | send hask hcap => exact .inl ⟨_, _, .inl rfl, hask, hcap⟩
  | call hask hcap => exact .inl ⟨_, _, .inr (.inl rfl), hask, hcap⟩
  | grant hask hcap => exact .inl ⟨_, _, .inr (.inr rfl), hask, hcap⟩
  | callMessage hcap => exact .inr ⟨_, _, rfl, hcap⟩

theorem effect_change (hrun : m.Runs t) (heff : Effect m t ev m₁)
    (ht' : m₁.sched.tasks i = some t') :
    ∃ r, m.sched.tasks i = some r ∧ Change m t ev i r t' := by
  have hblock (ep : EndpointId) (role : IpcRole) (hst : t.state = .blocked ep role) : False := by
    have := hrun.runnable
    simp [hst, TaskState.runnable] at this
  have hone {j : Slot} {r r' : Task} (hr : m.sched.tasks j = some r)
      (hch : j = i → Change m t ev i r r') (ht' : (m.sched.set j r').tasks i = some t') :
      ∃ r, m.sched.tasks i = some r ∧ Change m t ev i r t' := by
    obtain ⟨rfl, rfl⟩ | ⟨-, hold⟩ := set_tasks_some ht'
    · exact ⟨r, hr, hch rfl⟩
    · exact ⟨t', hold, .same⟩
  have htwo {j : Slot} {r r' u' : Task} (hr : m.sched.tasks j = some r)
      (hch : i ≠ m.current → j = i → Change m t ev i r r')
      (hcur : i = m.current → Change m t ev i t u')
      (ht' : ((m.sched.set j r').set m.current u').tasks i = some t') :
      ∃ r, m.sched.tasks i = some r ∧ Change m t ev i r t' := by
    obtain ⟨hi, rfl⟩ | ⟨hi, hold⟩ := set_tasks_some ht'
    · exact ⟨t, hi ▸ hrun.task, hcur hi⟩
    · exact hone hr (hch hi) hold
  cases heff with
  | keep => exact ⟨t', ht', .same⟩
  | deliver hoffer hfind hne hr hstate =>
    refine htwo hr (fun hi hj => ?_) (fun hi => ?_) ht'
    · refine .accept hi (offer_holds hoffer) hstate (fun c hc => ?_) (offer_grants hoffer)
        (offer_offers hoffer)
      cases hoffer <;> cases hc <;> rfl
    · refine .wait hi fun ep role hst => ?_
      cases hoffer with
      | call => cases hst
      | _ => exact (hblock ep role hst).elim
  | enqueue hoffer hfind =>
    refine hone hrun.task (fun hi => ?_) ht'
    refine .queue hi.symm (offer_holds hoffer) (offer_grants hoffer) fun ep role hst => ?_
    cases hoffer with
    | callMessage => exact (hblock ep role hst).elim
    | _ => exact (TaskState.blocked.inj hst).1.symm
  | @take _ _ ep _ si r isCall hask hlook hfind hne hr hstate =>
    refine htwo hr (fun hi hj => ?_) (fun hi => ?_) ht'
    · exact .taken hi ⟨_, hlook⟩ hstate hask hlook
    · refine .receive hi ⟨_, hlook⟩ hr ⟨_, hstate⟩ (fun c hc => ?_) hask
      cases isCall with
      | true => exact ⟨(Option.some.inj hc).symm, hstate⟩
      | false => cases hc
  | takeMessage hlook hne hr hstate =>
    exact hone hr (fun hj => .read (hj ▸ hne) ⟨_, hlook⟩ hstate rfl) ht'
  | waitRecv hask hlook hfind =>
    refine hone hrun.task (fun hi => .wait hi.symm fun ep role hst => .inl ?_) ht'
    exact (TaskState.blocked.inj hst).1 ▸ ⟨_, hlook⟩
  | waitIrq hask hlook =>
    exact hone hrun.task (fun hi => .wait hi.symm fun ep role hst => by cases hst) ht'
  | toRecvPark hlook => exact ⟨t', ht', .same⟩
  | park hpoint => exact hone hrun.task (fun hi => .wait hi.symm fun _ _ _ => .inr rfl) ht'
  | pickUp hkont => exact hone hrun.task (fun hi => .pickUp hi.symm rfl) ht'
  | callReturn hkont => exact ⟨t', ht', .same⟩
  | settle hkont => exact ⟨t', ht', .same⟩
  | finish => exact ⟨t', ht', .same⟩
  | reply hask hlook hne hr hstate =>
    exact htwo hr (fun hi hj => .answer hi hask (hj ▸ hlook) hstate)
      (fun hi => .spend hi hask) ht'
  | replyRefused hask hlook hstate =>
    exact hone hrun.task (fun hi => .spend hi.symm hask) ht'
  | @revoke _ _ ep _ hask hlook =>
    change (m.sched.revokeEndpoint ep m.current).1.tasks i = some t' at ht'
    rw [revokeEndpoint_tasks] at ht'
    split at ht'
    case isTrue => exact ⟨t', ht', .same⟩
    case isFalse hi =>
      obtain ⟨r, hr, rfl⟩ := Option.map_eq_some_iff.mp ht'
      exact ⟨r, hr, .sweep hi ⟨_, hlook⟩ hask hlook⟩
  | relaunch hask hlook hr hbound huser =>
    exact hone hr (fun hj => .relaunch (hj ▸ hlook) huser hask) ht'
  | wakeIrq hev hr hstate => exact hone hr (fun _ => .interrupt rfl hev hstate) ht'
  | exit hask =>
    exact hone hrun.task (fun hi => .wait hi.symm fun ep role hst => by cases hst) ht'
  | kill hcause hquiet =>
    exact hone hrun.task (fun hi => .wait hi.symm fun ep role hst => by cases hst) ht'
  | crash hcause hnotify hne hr hstate =>
    exact htwo hr (fun hi hj => .notify rfl hcause hstate (hj ▸ hnotify))
      (fun hi => .wait hi fun ep role hst => by cases hst) ht'

end Machine

section Sources

variable {m : Machine} {t : Task} {ev : Event} {i : Slot} {r t' : Task}
  (hr : m.sched.tasks i = some r) (hch : Change m t ev i r t')

include hr hch

theorem Change.capSource (hrun : m.Runs t) {k : Nat} {cap : Capability} (hcap : t'.caps.capAt k = some cap) :
    CapSource m t i cap := by
  cases hch with
  | receive hi hep hu hstate hcaller =>
    obtain ⟨c, hc, rfl⟩ | hgrant | hold := Caps.capAt_receive_cases hcap
    · obtain ⟨rfl, hcall⟩ := hcaller c hc
      exact .minted hi hep hu hcall
    · exact .granted hi hep hu hstate.choose_spec hgrant
    · exact .kept hr hold
  | pickUp hi =>
    obtain rfl : r = t := Option.some.inj (hr.symm.trans (hi ▸ hrun.task))
    obtain ⟨c, hc, rfl⟩ | hgrant | hold := Caps.capAt_receive_cases hcap
    · exact .stashed hi hc
    · exact .carried hi hgrant
    · exact .kept hr hold
  | spend hi =>
    rw [Caps.capAt_clear] at hcap
    split at hcap
    · cases hcap
    · exact .kept hr hcap
  | sweep hne hep =>
    rw [Caps.capAt_revokeInCaps] at hcap
    split at hcap
    · cases hcap
    · exact .kept hr hcap
  | _ => exact .kept hr hcap

theorem Change.grantSource {cap : Capability} (hgrant : t'.pendingGrant = some cap) :
    GrantSource m t ev i cap := by
  have hor {granted : Option Capability} (h : granted.or r.pendingGrant = some cap) :
      granted = some cap ∨ r.pendingGrant = some cap := by
    cases granted with
    | none => exact .inr h
    | some g => exact .inl h
  cases hch with
  | queue hi hep hsrc hblock =>
    obtain hg | hold := hor hgrant
    · obtain ⟨frame, hask, hcap, hsrc⟩ := hsrc cap hg
      exact .queued hi hask hcap hsrc
    · exact .kept hr hold
  | accept hne hep hstate hcaller hsrc =>
    obtain hg | hold := hor hgrant
    · obtain ⟨frame, hask, hcap, hsrc⟩ := hsrc cap hg
      exact .sent hask hcap hsrc hr hstate
    · exact .kept hr hold
  | taken => cases hgrant
  | pickUp => cases hgrant
  | _ => exact .kept hr hgrant

theorem Change.callerSource {c : Nat} (hcaller : t'.caller = some c) : CallerSource m t i c := by
  cases hch with
  | @accept ep msg caller granted hne hep hstate hc hsrc =>
    cases caller with
    | none => exact .kept hr hcaller
    | some n => exact hc c hcaller ▸ .bound hep hr hstate
  | pickUp => cases hcaller
  | _ => exact .kept hr hcaller

theorem Change.blockSource {ep : EndpointId} {role : IpcRole} (hstate : t'.state = .blocked ep role) :
    BlockSource m t ev i ep := by
  cases hch with
  | wait hi hblock =>
    obtain hep | hev := hblock ep role hstate
    · exact .asked hi hep
    · exact .parked hev
  | queue hi hep hsrc hblock => exact hblock ep role hstate ▸ .asked hi hep
  | @taken _ isCall => cases isCall <;> cases hstate
  | accept => cases hstate
  | read => cases hstate
  | answer => cases hstate
  | relaunch => cases hstate
  | interrupt => cases hstate
  | notify => cases hstate
  | _ => exact .kept hr hstate

end Sources

end Perenne

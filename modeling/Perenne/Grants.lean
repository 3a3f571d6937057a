import Perenne.Dealings

namespace Perenne

open Scheduler

namespace Machine

variable {p : Platform} {m₀ m m₁ m' : Machine} {t : Task} {ev : Event} {g g' : Dealings}

/-- The running task moves from its own code, in U-mode or in a kernel task, to wherever
its request leaves it. -/
theorem offer_konts (hen : m.enabled ev = true) {ep : EndpointId} {msg : Message}
    {caller : Option Nat} {granted : Option Capability} {taken queued : TaskState × Kont}
    (h : Offer m t ev ep msg caller granted taken queued) :
    (∀ ep slot, m.konts m.current ≠ .recv ep slot) ∧
    (taken.2.isKernel = (m.konts m.current).isKernel ∧ ∀ ep slot, taken.2 ≠ .recv ep slot) ∧
    (queued.2.isKernel = (m.konts m.current).isKernel ∧ ∀ ep slot, queued.2 ≠ .recv ep slot) := by
  cases h with
  | send hask hcap =>
    simp [kont_user_of_asks hen hask, Kont.isKernel]
  | call hask hcap => simp [kont_user_of_asks hen hask, Kont.isKernel]
  | grant hask hcap hsrc => simp [kont_user_of_asks hen hask, Kont.isKernel]
  | callMessage hcap =>
    obtain ⟨ret, hk⟩ := kont_body_of_callMessage hen
    simp [hk, Kont.isKernel]

theorem granted_none_of_kernel (hmeets : m.grantMeetsKernel ev = false) {ep : EndpointId}
    {d : Delivery} {ri : Slot} {r : Task} (hd : m.offered ev = some (ep, d))
    (hfind : m.sched.findBlocked ep .recv = some ri) (hr : m.sched.tasks ri = some r)
    (hkernel : r.isUser = false) : d.granted = none := by
  cases d with
  | grant cap =>
    cases ev with
    | recvMessage => cases hd
    | _ => simp [grantMeetsKernel, hd, hfind, hr, hkernel] at hmeets
  | _ => rfl

theorem deliver_carried (h : m.Carried g) (hs : m.Sound) (hrun : m.Runs t)
    (hen : m.enabled ev = true) (hmeets : m.grantMeetsKernel ev = false) {ep : EndpointId}
    {msg : Message} {caller : Option Nat} {granted : Option Capability}
    {taken queued : TaskState × Kont} {f : TrapFrame} {ri : Slot} {r : Task}
    (hoffer : Offer m t ev ep msg caller granted taken queued)
    (hfind : m.sched.findBlocked ep .recv = some ri) (hne : ri ≠ m.current)
    (hr : m.sched.tasks ri = some r) (hstate : r.state = .blocked ep .recv) :
    (m.next ((m.sched.set ri (r.accept msg caller granted)).set m.current
      { t with state := taken.1 }) f taken.2).Carried (m.noteDealings ev g) := by
  obtain ⟨hnr, ⟨hkernel, htaken⟩, -⟩ := offer_konts hen hoffer
  obtain ⟨d, hd, rfl, rfl⟩ := offered_of_offer hrun hoffer
  refine carried_next (fun t' ht' => ?_) (fun i t' hi ht' => ?_)
  · rw [set_tasks_self] at ht'
    obtain rfl := Option.some.inj ht'
    exact h.current hrun hnr rfl rfl hkernel fun ep slot hk => absurd hk (htaken ep slot)
  · rw [set_tasks_ne _ hi] at ht'
    simp only [noteDealings, handed, hd, hfind, Option.map_some, Option.elim_some,
      Function.update_of_ne hi]
    obtain ⟨rfl, rfl⟩ | ⟨hne', hold⟩ := set_tasks_some ht'
    · -- The receiver carries what it was handed, and nothing it had before.
      have hrest := h i r hr
      have hstuck : ¬ r.state.runnable := hstate ▸ not_runnable_blocked
      have hgrant : r.pendingGrant = none :=
        hrest.grant_none (by simp [hstate]) fun hst => absurd hst hstuck
      have hfits := hs.parked i r hr
      rw [hstate] at hfits
      rw [Function.update_self]
      cases hk : m.konts i with
      | recv ep' slot =>
        have hcaller : r.caller = none :=
          hrest.caller_none (fun hst => absurd hst hstuck) (by rw [hk]; rfl)
        refine ⟨fun {cap} hcap => ?_, fun {c} _ hc => ?_, fun {_ _ c} _ _ hc => ?_⟩
        · refine .inr ⟨⟨ep', slot, rfl⟩, .inl rfl, ?_⟩
          cases d <;> simp_all [Task.accept, Delivery.granted]
        · refine ⟨⟨ep', slot, rfl⟩, .inl rfl, ?_⟩
          simpa [Task.accept, hcaller] using hc
        · obtain rfl := Option.some.inj hc
          rfl
      | kernel pc =>
        have hrole := hs.roles i r hr
        rw [hk] at hrole
        have hnot := granted_none_of_kernel hmeets hd hfind hr (by simpa [Kont.isKernel] using hrole)
        refine .of_none ?_ (by simp [Kont.isKernel]) (by simp)
        simp [Task.accept, hnot, hgrant]
      | _ => simp [hk, Kont.fits, TaskState.runnable] at hfits
    · rw [Function.update_of_ne hne']
      exact h i t' hold

theorem enqueue_carried (h : m.Carried g) (hrun : m.Runs t) (hen : m.enabled ev = true)
    {ep : EndpointId} {msg : Message} {caller : Option Nat} {granted : Option Capability}
    {taken queued : TaskState × Kont} {f : TrapFrame}
    (hoffer : Offer m t ev ep msg caller granted taken queued)
    (hfind : m.sched.findBlocked ep .recv = none) :
    (m.next (m.sched.set m.current
      { t with message := msg, pendingGrant := granted.or t.pendingGrant, state := queued.1 })
      f queued.2).Carried (m.noteDealings ev g) := by
  obtain ⟨hnr, -, hkernel, hqueued⟩ := offer_konts hen hoffer
  obtain ⟨d, hd, hcaller, hgranted⟩ := offered_of_offer hrun hoffer
  refine carried_next (fun t' ht' => ?_) (fun i t' hi ht' => ?_)
  · rw [set_tasks_self] at ht'
    obtain rfl := Option.some.inj ht'
    have hmove (hnone : granted = none) : Carries
        { t with message := msg, pendingGrant := granted.or t.pendingGrant, state := queued.1 }
        queued.2 ((m.noteDealings ev g).asked m.current) ((m.noteDealings ev g).got m.current) :=
      h.current hrun hnr (by rw [hnone]; rfl) rfl hkernel fun ep slot hk => absurd hk (hqueued ep slot)
    cases hoffer with
    | @grant _ _ _ cap hask =>
      have hcaller : t.caller = none := (h m.current t hrun.task).caller_none (fun _ => hnr)
        (by rw [kont_user_of_asks hen hask]; rfl)
      refine ⟨fun hcap => .inl ⟨rfl, ⟨_, rfl⟩, ?_⟩, fun _ hc => ?_, nofun⟩
      · obtain rfl := Option.some.inj hcap
        simp only [noteDealings, hd, Option.elim_some, Function.update_self]
        cases d <;> simp_all [Delivery.granted]
      · cases hcaller.symm.trans hc
    | _ => exact hmove rfl
  · rw [set_tasks_ne _ hi] at ht'
    simp only [noteDealings, handed, hd, hfind, Option.map_none, Option.elim_some, Option.elim_none,
      Function.update_of_ne hi]
    exact h i t' ht'

theorem effect_carried (h : m.Carried g) (hs : m.Sound) (hrun : m.Runs t)
    (hen : m.enabled ev = true) (hmeets : m.grantMeetsKernel ev = false)
    (hlive : ∀ c, m.restartsLive c ev = false) (heff : Effect m t ev m₁) :
    m₁.Carried (m.noteDealings ev g) := by
  have hself := h m.current t hrun.task
  have hasked {sys : Syscall} {frame : TrapFrame} (hask : ev.asks sys frame) :
      m.konts m.current = .user := kont_user_of_asks hen hask
  have hnrecv {k : Kont} (hk : m.konts m.current = k) (hno : ∀ ep slot, k ≠ .recv ep slot) :
      ∀ ep slot, m.konts m.current ≠ .recv ep slot := hk ▸ hno
  cases heff with
  | keep hev hsys hrefuse hkill =>
    rw [noteDealings_keep hrun hsys hrefuse hkill]
    exact h.next_same
  | deliver hoffer hfind hne hr hstate =>
    exact deliver_carried h hs hrun hen hmeets hoffer hfind hne hr hstate
  | enqueue hoffer hfind => exact enqueue_carried h hrun hen hoffer hfind
  | @take _ frame ep _ si r isCall hask hcap hfind hne hr hstate => 
    rw [noteDealings_of_asks hask (by simp) (by simp) (by simp)]
    have hk := hasked hask
    have hfits := hs.parked si r hr
    have hsi := h si r hr
    have hstuck : ¬ r.state.runnable := hstate ▸ not_runnable_blocked
    refine h.next_set_set (.of_none rfl ?_ ?_) ?_
    · exact hsi.caller_none fun hst => absurd hst hstuck
    · intro ep' slot hrecv
      rw [hrecv, hstate] at hfits
      cases isCall <;> simp [Kont.fits, TaskState.runnable] at hfits
    · exact h.current hrun (hnrecv hk (by simp)) rfl rfl rfl
        fun ep slot hrecv => absurd hrecv (hnrecv hk (by simp) ep slot)
  | @takeMessage idx ep frame si r hcap hne hr hstate hfind =>
    rw [noteDealings_eq rfl rfl]
    obtain ⟨ret, hk⟩ := kont_body_of_recvMessage hen
    have hfits := hs.parked si r hr
    have hstuck : ¬ r.state.runnable := hstate ▸ not_runnable_blocked
    -- The sender goes on: it was not blocked in a grant.
    have hgrant : r.pendingGrant = none := by
      simpa [grantMeetsKernel, hrun.task, hcap, hfind, hr] using hmeets
    refine h.next_wake hrun hne (.of_none hgrant ?_ ?_) ?_
    · exact (h si r hr).caller_none fun hst => absurd hst hstuck
    · intro ep' slot hrecv
      rw [hrecv, hstate] at hfits
      simp [Kont.fits, TaskState.runnable] at hfits
    · exact h.current hrun (hnrecv hk (by simp)) rfl rfl (by rw [hk]; rfl) (by simp)
  | waitRecv hask hcap hfind =>
    rw [noteDealings_of_asks hask (by simp) (by simp) (by simp)]
    have hk := hasked hask
    exact h.next_set (h.current hrun (hnrecv hk (by simp)) rfl rfl (by rw [hk]; rfl)
      fun _ _ _ => not_runnable_blocked)
  | waitIrq hask hcap =>
    rw [noteDealings_of_asks hask (by simp) (by simp) (by simp)]
    have hk := hasked hask
    exact h.next_set (h.current hrun (hnrecv hk (by simp)) rfl rfl (by rw [hk]; rfl) (by simp))
  | toRecvPark hcap =>
    rw [noteDealings_eq rfl rfl]
    obtain ⟨ret, hk⟩ := kont_body_of_recvMessage hen
    exact h.next_kont hrun (h.current hrun (hnrecv hk (by simp)) rfl rfl (by rw [hk]; rfl) (by simp))
  | park hpoint =>
    rw [noteDealings_eq rfl rfl]
    obtain ⟨pc', hk⟩ : ∃ pc', m.konts m.current = .kernel pc' := by
      obtain ⟨ep, hk, -⟩ | ⟨hk, -⟩ | ⟨ep, hk, -⟩ := parkPoint_eq_some hpoint <;> exact ⟨_, hk⟩
    exact h.next_set (h.current hrun (hnrecv hk (by simp)) rfl rfl (by rw [hk]; rfl) (by simp))
  | pickUp hkont =>
    rw [noteDealings_eq rfl rfl]
    exact h.next_set (.of_none rfl (fun _ => rfl) (by simp))
  | callReturn hkont =>
    rw [noteDealings_eq rfl rfl]
    exact h.next_kont hrun (h.current hrun (hnrecv hkont (by simp)) rfl rfl (by rw [hkont]; rfl) (by simp))
  | settle hkont =>
    rw [noteDealings_eq rfl rfl]
    refine h.next_kont hrun (h.current hrun ?_ rfl rfl ?_ (by simp)) <;>
      obtain hk | hk := hkont <;> simp [hk, Kont.isKernel]
  | finish =>
    rw [noteDealings_eq rfl rfl]
    obtain ⟨pc', hk⟩ : ∃ pc', m.konts m.current = .kernel pc' := by
      cases hk : m.konts m.current <;> simp_all [enabled]
    exact h.next_kont hrun (h.current hrun (hnrecv hk (by simp)) rfl rfl (by rw [hk]; rfl) (by simp))
  | @reply _ _ _ c r hask hcap hne hr hstate =>
    rw [noteDealings_of_asks hask (by simp) (by simp) (by simp)]
    have hk := hasked hask
    have hfits := hs.parked c r hr
    have hstuck : ¬ r.state.runnable := by simp [hstate, TaskState.runnable]
    refine h.next_set_set ?_ ?_
    · refine h.wake hr hstuck (by simp [hstate]) (fun ep slot hrecv => ?_) (by exact rfl) (by exact rfl)
      rw [hrecv, hstate] at hfits
      simp [Kont.fits, TaskState.runnable] at hfits
    · exact h.current hrun (hnrecv hk (by simp)) rfl rfl rfl
        fun ep slot hrecv => absurd hrecv (hnrecv hk (by simp) ep slot)
  | replyRefused hask hcap hstate =>
    rw [noteDealings_of_asks hask (by simp) (by simp) (by simp)]
    have hk := hasked hask
    exact h.next_set (h.current hrun (hnrecv hk (by simp)) rfl rfl rfl
      fun ep slot hrecv => absurd hrecv (hnrecv hk (by simp) ep slot))
  | @revoke _ _ ep _ hask hcap =>
    rw [noteDealings_of_asks hask (by simp) (by simp) (by simp)]
    refine carried_next (fun t' ht' => ?_) (fun i t' hi ht' => ?_) <;>
      rw [revokeEndpoint_tasks] at ht'
    · rw [if_pos rfl] at ht'
      exact h _ t' ht'
    · rw [if_neg hi] at ht'
      obtain ⟨u, hu, rfl⟩ := Option.map_eq_some_iff.mp ht'
      exact ⟨(h i u hu).grant, (h i u hu).caller, (h i u hu).woken⟩
  | @relaunch _ _ _ _ target r hask hcap hr hbound huser =>
    rw [noteDealings_of_asks hask (by simp) (by simp) (by simp)]
    -- Only the dead are restarted, and a dead task stands in U-mode.
    have hexited : r.state = .exited := by
      have := hlive target
      rw [restartsLive, requests_of_asks hrun hask] at this
      simpa [hcap, hr, hbound, huser] using this
    have hfits := hs.parked target r hr
    have hk : m.konts target = .user := by
      rw [hexited] at hfits
      cases hk : m.konts target with
      | user => rfl
      | kernel pc => cases pc <;> simp [hk, Kont.fits, TaskState.runnable] at hfits
      | _ => simp [hk, Kont.fits, TaskState.runnable] at hfits
    intro i t' ht'
    change (m.sched.set target _).tasks i = some t' at ht'
    have hkonts : Function.update m.konts target .user i = m.konts i := by
      rw [Function.update_apply]
      split
      case isTrue hi => rw [hi, hk]
      case isFalse => rfl
    change Carries t' (Function.update m.konts target .user i) _ _
    rw [hkonts]
    obtain ⟨rfl, rfl⟩ | ⟨-, hold⟩ := set_tasks_some ht'
    · exact h.wake hr (by simp [hexited, TaskState.runnable]) (by simp [hexited])
        (by simp [hk]) (by exact rfl) (by exact rfl)
    · exact h i t' hold
  | @wakeIrq irq frame i r hev hr hstate =>
    rw [noteDealings_of_trap (by simp [hev]) (by simp [killCause, hev])]
    have hstuck : ¬ r.state.runnable := by simp [hstate, TaskState.runnable]
    have hfits := hs.parked i r hr
    refine h.next_wake hrun (hrun.ne_of_blocked hr hstuck) ?_ hself
    refine h.wake hr hstuck (by simp [hstate]) (fun ep slot hrecv => ?_) (by exact rfl) (by exact rfl)
    rw [hrecv, hstate] at hfits
    simp [Kont.fits, TaskState.runnable] at hfits
  | exit hask =>
    rw [noteDealings_of_asks hask (by simp) (by simp) (by simp)]
    have hk := hasked hask
    refine (h.next_set (f := m.frames m.current) ?_).of_next
    exact h.current hrun (hnrecv hk (by simp)) rfl rfl rfl
      fun ep slot hrecv => absurd hrecv (hnrecv hk (by simp) ep slot)
  | @kill frame cause _ hcause hquiet =>
    have hec : decode frame.scause ≠ .userEcall := fun hd => by simp [killCause, hd] at hcause
    have hk := kont_user_of_kill hen hcause
    rw [noteDealings_eq (by simp [offered, hrun.task, hec])
      (by simp [reported, hrun.task, hcause, hquiet])]
    refine (h.next_set (f := m.frames m.current) ?_).of_next
    exact h.current hrun (hnrecv hk (by simp)) rfl rfl rfl
      fun ep slot hrecv => absurd hrecv (hnrecv hk (by simp) ep slot)
  | @crash frame cause _ healer r hcause hnotify hne hr hstate =>
    have hec : decode frame.scause ≠ .userEcall := fun hd => by simp [killCause, hd] at hcause
    have hk := kont_user_of_kill hen hcause
    have hstuck : ¬ r.state.runnable := hstate ▸ not_runnable_blocked
    have hrest := h healer r hr
    have hnote : m.noteDealings (.trap frame) g =
        { g with got := Function.update g.got healer (some .crash) } := by
      simp [noteDealings, handed, offered, reported, hrun.task, hec, hcause, hnotify]
    rw [hnote]
    refine (carried_next (f := m.frames m.current) (fun t' ht' => ?_) fun i t' hi ht' => ?_).of_next
    · rw [set_tasks_self] at ht'
      obtain rfl := Option.some.inj ht'
      exact h.current hrun (hnrecv hk (by simp)) rfl rfl rfl
        fun ep slot hrecv => absurd hrecv (hnrecv hk (by simp) ep slot)
    · rw [set_tasks_ne _ hi] at ht'
      obtain ⟨rfl, rfl⟩ | ⟨hne', hold⟩ := set_tasks_some ht'
      · -- The kernel's own report carries neither a capability nor a caller.
        have hgrant : r.pendingGrant = none :=
          hrest.grant_none (by simp [hstate]) fun hst => absurd hst hstuck
        refine ⟨fun hcap => ?_, fun hkern hc => ?_, fun _ _ hc => ?_⟩
        · cases hgrant.symm.trans hcap
        · cases (hrest.caller_none (fun hst => absurd hst hstuck) hkern).symm.trans hc
        · simp at hc
      · simp only [Function.update_of_ne hne']
        exact h i t' hold

theorem switch_carried (h : m.Carried g) (hsw : Switch m m') : m'.Carried g := by
  intro i t' ht'
  obtain ⟨t, ht, heq, hstate⟩ := hsw.task ht'
  have hk : m'.konts = m.konts := by cases hsw <;> rfl
  have hcarries := h i t ht
  have hrunnable : t'.state.runnable ↔ t.state.runnable := by
    obtain hst | ⟨h1, h2⟩ := hstate
    · rw [hst]
    · exact iff_of_true h2 h1
  have hgrant : t'.pendingGrant = t.pendingGrant := by rw [heq]
  have hcaller : t'.caller = t.caller := by rw [heq]
  rw [hk]
  refine ⟨fun {cap} hcap => ?_, fun hkern hc => ?_, fun hrecv hst hc => ?_⟩
  · obtain ⟨hsend, ⟨ep, hst⟩, hasked⟩ | ⟨hrecv, hst, hgot⟩ := hcarries.grant (hgrant ▸ hcap)
    · refine .inl ⟨hsend, ⟨ep, ?_⟩, hasked⟩
      obtain heq | ⟨h1, -⟩ := hstate
      · rw [heq, hst]
      · exact absurd (hst ▸ h1) not_runnable_blocked
    · exact .inr ⟨hrecv, hrunnable.mpr hst, hgot⟩
  · obtain ⟨hrecv, hst, hgot⟩ := hcarries.caller hkern (hcaller ▸ hc)
    exact ⟨hrecv, hrunnable.mpr hst, hgot⟩
  · exact hcaller ▸ hcarries.woken hrecv (hrunnable.mp hst) hc

theorem Fresh.carried (h : m.Fresh) : m.Carried .none := fun i t ht =>
  ⟨fun hc => by simp [(h.task ht).pendingGrant] at hc, fun _ hc => by simp [(h.task ht).caller] at hc,
    fun _ _ hc => by cases hc⟩

theorem effect_of_recv {frame : TrapFrame} {ep : EndpointId} {si : Slot} {isCall : Bool}
    (hask : ev.asks .recv frame) (hcap : t.caps.capLookup (frame.regs 9) = some ep)
    (hfind : m.sched.waitingSender ep = some (si, isCall)) (heff : Effect m t ev m₁) :
    ∃ r u, m.sched.tasks si = some r ∧ r.state = .blocked ep (cond isCall .call .send) ∧
      m₁.sched.tasks m.current = some u ∧ u.caps =
        t.caps.receive (frame.regs 10) (cond isCall (some si.val) none) r.pendingGrant := by
  have hother {sys frame'} (hask' : ev.asks sys frame') (hne : sys ≠ .recv) : False :=
    hne (Event.asks_unique hask hask').1
  have hoffered {ep msg caller granted taken queued}
      (hoffer : Offer m t ev ep msg caller granted taken queued) : False := by
    cases hoffer with
    | send hask' => exact hother hask' (by simp)
    | call hask' => exact hother hask' (by simp)
    | grant hask' => exact hother hask' (by simp)
    | callMessage => cases hask.1
  have hkilled {frame' cause} (hev : ev = .trap frame')
      (hcause : killCause frame' = some cause) : False := by
    obtain rfl := Event.trap.inj (hask.1.symm.trans hev)
    simp [killCause, hask.2.1] at hcause
  cases heff with
  | keep _ _ hrefuse _ =>
    have := hrefuse .recv frame hask
    simp [Caps.refuses, hcap] at this
  | @take _ frame' ep' n si' r isCall' hask' hcap' hfind' hne hr hstate =>
    obtain ⟨-, rfl⟩ := Event.asks_unique hask hask'
    obtain rfl : ep = ep' := Option.some.inj (hcap.symm.trans hcap')
    obtain ⟨rfl, rfl⟩ := Prod.mk.inj (Option.some.inj (hfind.symm.trans hfind'))
    exact ⟨r, _, hr, hstate, set_tasks_self .., rfl⟩
  | @waitRecv _ frame' ep' hask' hcap' hfind' =>
    obtain ⟨-, rfl⟩ := Event.asks_unique hask hask'
    obtain rfl : ep = ep' := Option.some.inj (hcap.symm.trans hcap')
    cases hfind.symm.trans hfind'
  | deliver hoffer => exact (hoffered hoffer).elim
  | enqueue hoffer => exact (hoffered hoffer).elim
  | waitIrq hask' => exact (hother hask' (by simp)).elim
  | reply hask' => exact (hother hask' (by simp)).elim
  | replyRefused hask' => exact (hother hask' (by simp)).elim
  | revoke hask' => exact (hother hask' (by simp)).elim
  | relaunch hask' => exact (hother hask' (by simp)).elim
  | exit hask' => exact (hother hask' (by simp)).elim
  | wakeIrq hev =>
    obtain rfl := Event.trap.inj hask.1
    cases hev.symm.trans hask.2.1
  | kill hcause => exact (hkilled rfl hcause).elim
  | crash hcause => exact (hkilled rfl hcause).elim
  | _ => cases hask.1

theorem effect_of_pickUp {ep : EndpointId} {slot : Nat} (hkont : m.konts m.current = .recv ep slot)
    (heff : Effect m t .resume m₁) :
    m₁.sched.tasks m.current = some
      { t with caps := t.caps.receive slot t.caller t.pendingGrant,
               caller := none, pendingGrant := none } := by
  have hoffered {ep msg caller granted taken queued}
      (hoffer : Offer m t .resume ep msg caller granted taken queued) : False := by
    cases hoffer with
    | send hask => cases hask.1
    | call hask => cases hask.1
    | grant hask => cases hask.1
  cases heff with
  | pickUp hkont' =>
    obtain ⟨rfl, rfl⟩ := Kont.recv.inj (hkont.symm.trans hkont')
    exact set_tasks_self ..
  | callReturn hkont' => cases hkont.symm.trans hkont'
  | settle hkont' => obtain hk | hk := hkont' <;> cases hkont.symm.trans hk
  | keep hev => exact absurd rfl hev
  | deliver hoffer => exact (hoffered hoffer).elim
  | enqueue hoffer => exact (hoffered hoffer).elim
  | take hask => cases hask.1
  | waitRecv hask => cases hask.1
  | waitIrq hask => cases hask.1
  | reply hask => cases hask.1
  | replyRefused hask => cases hask.1
  | revoke hask => cases hask.1
  | relaunch hask => cases hask.1
  | exit hask => cases hask.1

theorem step_installs {l : Label} (h : m.Carried g) (hs : m.Sound) (hstep : m.step p l = some m') :
    m.Installs g l m' := by
  obtain ⟨t, hrun⟩ := hs.runs
  obtain ⟨hen, hexec⟩ := step_eq_some.mp hstep
  obtain ⟨m₁, heff, hsw⟩ := exec_effect hrun hen hexec
  have hcaps {u t' : Task} (hu : m₁.sched.tasks m.current = some u)
      (ht' : m'.sched.tasks m.current = some t') : t'.caps = u.caps := by
    obtain ⟨u', hu', heq, -⟩ := hsw.task ht'
    obtain rfl := Option.some.inj (hu.symm.trans hu')
    rw [heq]
  refine ⟨fun {frame t₀ t' ep si isCall} hask ht ht' hcap hfind => ?_,
    fun {t₀ t' ep slot} hev hkont ht ht' => ?_⟩
  · obtain rfl : t = t₀ := Option.some.inj (hrun.task.symm.trans ht)
    obtain ⟨r, u, hr, hstate, hu, hucaps⟩ := effect_of_recv hask hcap hfind heff
    rw [hcaps hu ht', hucaps]
    have hsi := h si r hr
    have hstuck : ¬ r.state.runnable := hstate ▸ not_runnable_blocked
    have hnone (hno : ∀ cap, g.asked si ≠ some (.grant cap)) : r.pendingGrant = none := by
      refine Option.eq_none_iff_forall_ne_some.mpr fun cap hcap => ?_
      obtain ⟨-, -, hasked⟩ | ⟨-, hst, -⟩ := hsi.grant hcap
      · exact hno cap hasked
      · exact hstuck hst
    cases isCall with
    | false =>
      refine ⟨fun _ hasked => ?_, nofun⟩
      rw [hnone (by simp [hasked])]
      rfl
    | true =>
      refine ⟨nofun, fun _ => ?_⟩
      rw [hsi.grant_none (by simp [hstate]) fun hst => absurd hst hstuck]
      rfl
  · obtain rfl : t = t₀ := Option.some.inj (hrun.task.symm.trans ht)
    rw [hev] at heff
    rw [hcaps (effect_of_pickUp hkont heff) ht']
    have hself := h m.current t hrun.task
    have hgrant {d : Delivery} (hgot : g.got m.current = some d) (hno : d.granted = none) :
        t.pendingGrant = none := by
      refine Option.eq_none_iff_forall_ne_some.mpr fun cap hcap => ?_
      obtain ⟨hsend, -⟩ | ⟨-, -, hgot'⟩ := hself.grant hcap
      · cases hkont.symm.trans hsend
      · obtain rfl := Option.some.inj (hgot.symm.trans hgot')
        cases hno
    refine ⟨fun hgot => ?_, fun c hgot => ?_⟩
    · have hcaller : t.caller = none := by
        refine Option.eq_none_iff_forall_ne_some.mpr fun c hc => ?_
        have := (hself.caller (by rw [hkont]; rfl) hc).2.2
        simp [hgot, Delivery.caller] at this
      rw [hgrant hgot rfl, hcaller]
      rfl
    · rw [hgrant hgot rfl, hself.woken hkont hrun.runnable hgot]
      rfl

/-- In every run in which no grant meets a kernel task and only `Exited` tasks are restarted,
in any interleaving of system calls, faults, ticks and kernel-task operations: a
capability is in transit only in a grant that is not complete, and a receiver installs
nothing for a plain send and the right to answer, alone, for a call. -/
theorem grants_alone_carry {heal : Heal} {ops : List BootOp} {ls : List Label}
    (hboot : boot p heal ops = .ok m₀)
    (hgood : Transition.StepsMeet (step p) GrantsUsers m₀ ls)
    (hrun : Transition.run (step p) m₀ ls = some m) :
    m.InTransit (dealingsOf p m₀ ls) ∧
    ∀ l m', m.step p l = some m' → m.Installs (dealingsOf p m₀ ls) l m' := by
  have hfresh := boot_fresh hboot
  obtain ⟨hs, h⟩ := Transition.invariant_observe (fun m g => m.Sound ∧ m.Carried g) (fun
    m l m' g ⟨hs, h⟩ hgood hstep => by
      obtain ⟨t, hrun⟩ := hs.runs
      obtain ⟨hen, hexec⟩ := step_eq_some.mp hstep
      obtain ⟨m₁, heff, hsw⟩ := exec_effect hrun hen hexec
      exact ⟨step_sound hs hstep,
        switch_carried (effect_carried h hs hrun hen hgood.1 hgood.2 heff) hsw⟩)
    ⟨hfresh.sound, hfresh.carried⟩ hgood hrun
  exact ⟨h.inTransit, fun l m' => step_installs h hs⟩

/-- Task 0 may use the randomness pool and send to task 1 and, on another endpoint, to the
kernel task 2. -/
def residueOps : List BootOp :=
  [.spawnUser "task" 0x80400000 0x80601000 0x80300000 0 0, .grantCap 0 0 (.endpoint 0),
    .grantCap 0 1 (.endpoint 1), .grantCap 0 2 .randomness,
    .spawnUser "task" 0x80400000 0x80602000 0x80300000 1 0, .grantCap 1 0 (.endpoint 1),
    .spawn "kernel" 0x80200300 0x80310000, .grantCap 2 0 (.endpoint 0),
    .spawn "idle" 0x80200300 0x80310000]

/-- A grant between the two U-mode tasks: the receiver is blocked, the grant wakes it. -/
def grantRun : List Label :=
  [.tickUser, .ecall 5 [0, 3], .tick, .tick, .ecall 11 [1, 2, 7]]

theorem grants_alone_carry_woken : ∃ m₀ m, boot .sample .empty residueOps = .ok m₀ ∧
    Transition.run (step .sample) m₀ grantRun = some m ∧
    (m.sched.tasks 1).any (·.pendingGrant.isSome) = true ∧
    m.InTransit (dealingsOf .sample m₀ grantRun) := by
  have heval : (boot .sample .empty residueOps).toOption.any (fun m₀ =>
      decide (Transition.StepsMeet (step .sample) GrantsUsers m₀ grantRun) &&
      (Transition.run (step .sample) m₀ grantRun).any fun m =>
        (m.sched.tasks 1).any (·.pendingGrant.isSome)) = true := by
    decide +kernel
  simp only [Option.any_eq_true (p := fun _ : Machine => _), Bool.and_eq_true,
    decide_eq_true_eq] at heval
  obtain ⟨m₀, hboot, hgood, m, hrun, hcarries⟩ := heval
  have hboot := Except.toOption_eq_some_iff.mp hboot
  exact ⟨m₀, m, hboot, hrun, hcarries, (grants_alone_carry hboot hgood hrun).1⟩

/-- The kernel task takes the message of a grant and leaves the capability on the sender;
the sender's next plain send carries it to task 1. -/
def residueRun : List Label :=
  [.ecall 11 [0, 2, 7], .tickUser, .of (.recvMessage 0), .tick, .tick, .resume,
    .ecall 4 [1, 8]]

theorem residue_carried_by_send : ∃ m₀ m m', boot .sample .empty residueOps = .ok m₀ ∧
    Transition.StepsMeet (step .sample) (fun m l => ∀ c, m.restartsLive c l.event = false) m₀
      residueRun ∧
    Transition.run (step .sample) m₀ residueRun = some m ∧
    m.step .sample (.ecall 5 [0, 3]) = some m' ∧
    ¬ m.InTransit (dealingsOf .sample m₀ residueRun) ∧
    ¬ m.Installs (dealingsOf .sample m₀ residueRun) (.ecall 5 [0, 3]) m' := by
  have heval : (boot .sample .empty residueOps).toOption.any (fun m₀ =>
      decide (Transition.StepsMeet (step .sample)
        (fun m l => ∀ c, m.restartsLive c l.event = false) m₀ residueRun) &&
      decide ((dealingsOf .sample m₀ residueRun).asked 0 = some .send) &&
      (Transition.run (step .sample) m₀ residueRun).any fun m =>
        decide (m.sched.waitingSender 1 = some (0, false)) && decide (m.konts 0 = .send) &&
        (m.sched.tasks 0).any (fun r => decide (r.pendingGrant = some .randomness)) &&
        (m.sched.tasks m.current).any (fun t => decide (t.caps.capLookup 0 = some 1) &&
          decide (t.caps.capAt 3 = none)) &&
        (m.step .sample (.ecall 5 [0, 3])).any fun m' =>
          (m'.sched.tasks m.current).any fun t' =>
            decide (t'.caps.capAt 3 = some .randomness)) = true := by
    decide +kernel
  simp only [Option.any_eq_true, Bool.and_eq_true, decide_eq_true_eq] at heval
  obtain ⟨m₀, hboot, ⟨hgood, hasked⟩, m, hrun, ⟨⟨⟨hfind, hkont⟩, r, hr, hgrant⟩, t, ht, hcap, hnone⟩,
    m', hstep, t', ht', hsome⟩ := heval
  refine ⟨m₀, m, m', Except.toOption_eq_some_iff.mp hboot, hgood, hrun, hstep, fun h => ?_, fun h => ?_⟩
  · obtain ⟨-, -, hgranted⟩ | ⟨⟨ep, slot, hrecv⟩, -⟩ := h 0 r _ hr hgrant
    · cases hasked.symm.trans hgranted
    · cases hkont.symm.trans hrecv
  · have hask : (Label.ecall 5 [0, 3]).event.asks .recv (.ecall 5 [0, 3]) :=
      ⟨rfl, by decide, by decide⟩
    have hcaps := (h.taken hask ht ht' hcap hfind).1 rfl hasked
    rw [hcaps, hnone] at hsome
    cases hsome

end Machine

end Perenne

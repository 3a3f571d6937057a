import Perenne.Reply
import Perenne.Static

namespace Perenne

namespace Machine

open Scheduler

/-- `c` has handed its request over and has not parked yet: a kernel task between the
first two sections of `call_message`. -/
def handsOff (m : Machine) (c : Slot) : Prop := m.konts c = .kernel .callPark

/-- The invariant for the caller `c`. -/
def LinearAt (m : Machine) (c : Slot) : Prop := m.sched.Linear (m.handsOff c) c

/-- An accepted `grant` of a reply capability naming `c`. -/
def grantsReply (m : Machine) (c : Slot) : Event → Bool :=
  m.requests .grant fun t frame =>
    (t.caps.capLookup (frame.regs 9)).isSome && t.caps.replyCaller (frame.regs 10) == some c.val

/-- An accepted `restart` of `c` while it waits for a reply that somebody may still give. -/
def restartsAwaited (m : Machine) (c : Slot) : Event → Bool :=
  m.requests .restart fun t frame =>
    t.caps.restartTarget (frame.regs 9) == some c.val &&
    (m.sched.tasks c).any (fun r =>
      r.isUser && canRestart r.restarts maxRestarts && r.state == .awaitingReply) &&
    decide (m.sched.authorities c).Nonempty

variable {m m₁ : Machine} {t : Task} {ev : Event} {c : Slot}

theorem linear_next {s₁ : Scheduler} {f : TrapFrame} {k : Kont}
    (h : s₁.Linear (m.handsOff c) c) (hcur : c = m.current → ¬ m.handsOff c) :
    (m.next s₁ f k).LinearAt c := by
  refine h.of_window fun x _ hw => .inl ?_
  unfold handsOff
  rw [next_konts, if_neg (fun hc => hcur hc hw)]
  exact hw

theorem linear_next_same {s₁ : Scheduler} {f : TrapFrame} (h : s₁.Linear (m.handsOff c) c) :
    (m.next s₁ f (m.konts m.current)).LinearAt c := by
  have hwin : (m.next s₁ f (m.konts m.current)).handsOff c = m.handsOff c := by
    unfold handsOff
    rw [next_konts]
    split
    case isTrue hc => rw [hc]
    case isFalse => rfl
  rw [LinearAt, hwin]
  exact h

theorem Runs.not_awaiting (hrun : m.Runs t) : t.state ≠ .awaitingReply := by
  intro h
  have := hrun.runnable
  simp [h, TaskState.runnable] at this

theorem Parked.runnable_of_handsOff (h : m.Parked) (hw : m.handsOff c) {u : Task}
    (hu : m.sched.tasks c = some u) : u.state.runnable := by
  have := h c u hu
  rwa [show m.konts c = _ from hw] at this

theorem unnamed_of_blocked (h : m.LinearAt c) (hp : m.Parked) {u : Task}
    (hu : m.sched.tasks c = some u) (hblock : ¬ u.state.runnable)
    (hstate : u.state ≠ .awaitingReply) (x : Slot × Place) : m.sched.named x ≠ some c.val :=
  h.unnamed hu hstate (fun hw => hblock (hp.runnable_of_handsOff hw hu)) x

theorem named_clear {k : Nat} {pl : Place}
    (hpl : Task.named { t with caps := t.caps.clear k } pl = some c.val) :
    t.named pl = some c.val ∧ ∀ hk : k < capSlots, pl ≠ .cap ⟨k, hk⟩ := by
  cases pl with
  | cap j =>
    change (t.caps.clear k).replyCaller j = some c.val at hpl
    rw [Caps.replyCaller_clear] at hpl
    split at hpl
    · cases hpl
    · exact ⟨hpl, fun hk heq => by simp_all⟩
  | grant => exact ⟨hpl, by simp⟩
  | caller => exact ⟨hpl, by simp⟩

section Effects

variable (h : m.LinearAt c) (hp : m.Parked) (hrun : m.Runs t)

include h hrun

theorem linear_current (t' : Task)
    (hsub : ∀ pl, t'.named pl = some c.val → t.named pl = some c.val) :
    (m.sched.set m.current t').Linear (m.handsOff c) c :=
  h.set hrun.task hsub fun _ => .inr (.inl hrun.not_awaiting)

theorem linear_both {i : Slot} {r r' t' : Task} (hne : i ≠ m.current)
    (hr : m.sched.tasks i = some r) (hstate : i = c → r.state ≠ .awaitingReply)
    (hsub : ∀ pl, r'.named pl = some c.val → r.named pl = some c.val)
    (hsub' : ∀ pl, t'.named pl = some c.val → t.named pl = some c.val) :
    ((m.sched.set i r').set m.current t').Linear (m.handsOff c) c :=
  (h.set hr hsub fun hi => .inr (.inl (hstate hi))).set
    ((set_tasks_ne _ hne.symm _).trans hrun.task) hsub' fun _ => .inr (.inl hrun.not_awaiting)

/-- A message is handed to a waiting receiver. Only a call leaves an authority: the
receiver's stash, which names the caller. -/
theorem deliver_linear (hen : m.enabled ev = true) (hgrant : m.grantsReply c ev = false)
    {ep : EndpointId} {msg : Message} {caller : Option Nat} {granted : Option Capability}
    {taken queued : TaskState × Kont} {frame : TrapFrame} {ri : Slot} {r : Task}
    (hoffer : Offer m t ev ep msg caller granted taken queued) (hne : ri ≠ m.current)
    (hr : m.sched.tasks ri = some r) (hstate : r.state = .blocked ep .recv) :
    (m.next ((m.sched.set ri (r.accept msg caller granted)).set m.current
      { t with state := taken.1 }) frame taken.2).LinearAt c := by
  have hblocked : r.state ≠ .awaitingReply := by simp [hstate]
  have hother (hcaller : caller ≠ some c.val)
      (hgranted : granted.bind Capability.replyTo ≠ some c.val) :
      ((m.sched.set ri (r.accept msg caller granted)).set m.current
        { t with state := taken.1 }).Linear (m.handsOff c) c := by
    refine linear_both h hrun hne hr (fun _ => hblocked) (fun pl hpl => ?_) (fun _ => id)
    cases pl with
    | cap k => exact hpl
    | grant =>
      cases granted with
      | none => exact hpl
      | some cap => exact absurd hpl hgranted
    | caller =>
      cases caller with
      | none => exact hpl
      | some n => exact absurd hpl hcaller
  have hstash : ∀ pl, (r.accept msg (some m.current.val) none).named pl = some c.val →
      pl = .caller ∨ r.named pl = some c.val := by
    intro pl hpl
    cases pl with
    | cap k => exact .inr hpl
    | grant => exact .inr hpl
    | caller => exact .inl rfl
  cases hoffer with
  | send => exact linear_next_same (hother (by simp) (by simp))
  | grant hask hcap hsrc =>
    refine linear_next_same (hother (by simp) fun hc => ?_)
    rw [grantsReply, requests_of_asks hrun hask, hcap, Caps.replyCaller_eq, hsrc] at hgrant
    simp [show Capability.replyTo _ = _ from hc] at hgrant
  | call hask hcap =>
    by_cases hc : m.current = c
    · subst hc
      have hwin : ¬ m.handsOff m.current := by simp [handsOff, kont_user_of_asks hen hask]
      exact linear_mint .caller hr (h.unnamed hrun.task hrun.not_awaiting hwin) (by simp) hstash
        (fun pl hpl => (named_of_task hrun.task pl).trans hpl) (.inr rfl)
    · refine linear_next (hother ?_ (by simp)) (fun hc' => absurd hc'.symm hc)
      exact fun heq => hc (Fin.ext (Option.some.inj heq))
  | callMessage hcap =>
    by_cases hc : m.current = c
    · subst hc
      obtain ⟨ret, hk⟩ := kont_body_of_callMessage hen
      have hwin : ¬ m.handsOff m.current := by simp [handsOff, hk]
      refine linear_mint .caller hr (h.unnamed hrun.task hrun.not_awaiting hwin) (by simp) hstash
        (fun pl hpl => (named_of_task hrun.task pl).trans hpl) (.inl ?_)
      rw [handsOff, next_konts, if_pos rfl]
    · refine linear_next (hother ?_ (by simp)) (fun hc' => absurd hc'.symm hc)
      exact fun heq => hc (Fin.ext (Option.some.inj heq))

/-- A queued message stays with the asker; only a grant of a reply capability would put
an authority there. -/
theorem enqueue_linear (hen : m.enabled ev = true) (hgrant : m.grantsReply c ev = false)
    {ep : EndpointId} {msg : Message} {caller : Option Nat} {granted : Option Capability}
    {taken queued : TaskState × Kont} {frame : TrapFrame}
    (hoffer : Offer m t ev ep msg caller granted taken queued) :
    (m.next (m.sched.set m.current
      { t with message := msg, pendingGrant := granted.or t.pendingGrant,
               state := queued.1 }) frame queued.2).LinearAt c := by
  have hset (hgranted : granted.bind Capability.replyTo ≠ some c.val) :
      (m.sched.set m.current
        { t with message := msg, pendingGrant := granted.or t.pendingGrant,
                 state := queued.1 }).Linear (m.handsOff c) c := by
    refine linear_current h hrun _ fun pl hpl => ?_
    cases pl with
    | cap k => exact hpl
    | grant =>
      cases granted with
      | none => exact hpl
      | some cap => exact absurd hpl hgranted
    | caller => exact hpl
  cases hoffer with
  | send hask =>
    refine linear_next (hset (by simp)) ?_
    rintro rfl
    simp [handsOff, kont_user_of_asks hen hask]
  | call hask =>
    refine linear_next (hset (by simp)) ?_
    rintro rfl
    simp [handsOff, kont_user_of_asks hen hask]
  | grant hask hcap hsrc =>
    refine linear_next (hset fun hc => ?_) ?_
    · rw [grantsReply, requests_of_asks hrun hask, hcap, Caps.replyCaller_eq, hsrc] at hgrant
      simp [show Capability.replyTo _ = _ from hc] at hgrant
    · rintro rfl
      simp [handsOff, kont_user_of_asks hen hask]
  | callMessage hcap =>
    refine linear_next (hset (by simp)) ?_
    rintro rfl
    obtain ⟨ret, hk⟩ := kont_body_of_callMessage hen
    simp [handsOff, hk]

/-- `ipc_recv` takes a waiting sender's message; from a caller it gets the one authority
to answer it. -/
theorem take_linear (hp : m.Parked) {ep : EndpointId} {f : TrapFrame} {slot : Nat} {si : Slot}
    {r : Task} {isCall : Bool} (hne : si ≠ m.current) (hr : m.sched.tasks si = some r)
    (hstate : r.state = .blocked ep (cond isCall .call .send)) :
    (m.next ((m.sched.set si
        { r with pendingGrant := none, state := cond isCall .awaitingReply .ready }).set m.current
      { t with caps := t.caps.receive slot (cond isCall (some si.val) none) r.pendingGrant })
      f (m.konts m.current)).LinearAt c := by
  refine linear_next_same ?_
  have hgranted : r.pendingGrant.bind Capability.replyTo ≠ some c.val := fun hc =>
    h.kept ((named_of_task hr .grant).trans hc)
  have hsub (pl : Place)
      (hpl : Task.named
        { r with pendingGrant := none, state := cond isCall .awaitingReply .ready } pl =
        some c.val) : r.named pl = some c.val := by
    cases pl with
    | cap k => exact hpl
    | grant => cases hpl
    | caller => exact hpl
  by_cases hmint : isCall = true ∧ si = c
  · obtain ⟨rfl, rfl⟩ := hmint
    have hfree := unnamed_of_blocked h hp hr (hstate ▸ not_runnable_blocked) (by simp [hstate])
    rw [set_comm _ hne]
    refine linear_mint (if hs : slot < capSlots then .cap ⟨slot, hs⟩ else .caller) hrun.task
      hfree (by split <;> simp) (fun pl hpl => ?_)
      (fun pl hpl => (named_of_task hr pl).trans (hsub pl hpl)) (.inr rfl)
    cases pl with
    | cap k =>
      obtain ⟨rfl, -⟩ | hold := t.caps.replyCaller_receive hgranted hpl
      · exact .inl (by simp)
      · exact .inr hold
    | grant => exact .inr hpl
    | caller => exact .inr hpl
  · refine linear_both h hrun hne hr (fun _ => by simp [hstate]) hsub (fun pl hpl => ?_)
    cases pl with
    | cap k =>
      obtain ⟨-, hcaller⟩ | hold := t.caps.replyCaller_receive hgranted hpl
      · cases isCall with
        | true => exact absurd ⟨rfl, Fin.ext (Option.some.inj hcaller)⟩ hmint
        | false => cases hcaller
      · exact hold
    | grant => exact hpl
    | caller => exact hpl

theorem reply_linear_effect {k : Nat} {msg : Message} {f : TrapFrame} {d : Slot} {r : Task}
    (hcap : t.caps.replyCaller k = some d.val) (hne : d ≠ m.current)
    (hr : m.sched.tasks d = some r) :
    (m.next ((m.sched.set d { r with message := msg, state := .ready }).set m.current
      { t with caps := t.caps.clear k }) f (m.konts m.current)).LinearAt c := by
  refine linear_next_same ?_
  rw [set_comm _ hne]
  have hcur := linear_current h hrun { t with caps := t.caps.clear k }
    (fun pl hpl => (named_clear hpl).1)
  refine hcur.set ((set_tasks_ne _ hne _).trans hr) (fun _ => id) fun hd => .inl fun x hx => ?_
  subst hd
  -- `x` and the cleared slot both named the caller before, so they are one place.
  have hk : k < capSlots := Caps.capAt_lt (Caps.replyCaller_eq_some.mp hcap)
  have hauth : m.sched.named (m.current, .cap ⟨k, hk⟩) = some d.val :=
    (named_of_task hrun.task _).trans hcap
  obtain ⟨j, pl⟩ := x
  rw [named_set] at hx
  split at hx
  case isTrue hj =>
    obtain rfl : j = m.current := hj
    obtain ⟨hold, hplace⟩ := named_clear hx
    exact hplace hk (congrArg Prod.snd (h.unique ((named_of_task hrun.task pl).trans hold) hauth))
  case isFalse hj => exact hj (congrArg Prod.fst (h.unique hx hauth))

theorem park_linear {state : TaskState} {pc : KernelPc} {f : TrapFrame}
    (hpoint : parkPoint (m.konts m.current) = some (state, pc)) :
    (m.next (m.sched.set m.current { t with state }) f (.kernel pc)).LinearAt c := by
  have hset := linear_current h hrun { t with state } fun _ => id
  by_cases hc : c = m.current
  · subst hc
    refine hset.of_window fun x _ hw => .inr ?_
    obtain ⟨ep, hk, -⟩ | ⟨-, rfl, -⟩ | ⟨ep, hk, -⟩ := parkPoint_eq_some hpoint
    · cases hk.symm.trans hw
    · exact ⟨_, set_tasks_self _ _ _, rfl⟩
    · cases hk.symm.trans hw
  · exact linear_next hset fun hc' => absurd hc' hc

theorem relaunch_linear (hroles : m.Roles) {f frame : TrapFrame} {context : Context}
    {target : Slot} {r : Task}
    (hask : ev.asks .restart frame) (hcap : t.caps.restartTarget (frame.regs 9) = some target.val)
    (hr : m.sched.tasks target = some r) (hbound : canRestart r.restarts maxRestarts = true)
    (huser : r.isUser = true) (hrestart : m.restartsAwaited c ev = false) :
    { m.next (m.sched.set target { r with context, restarts := r.restarts + 1, state := .ready }) f
        (m.konts m.current) with
      konts := Function.update m.konts target .user : Machine }.LinearAt c := by
  have hset : (m.sched.set target
      { r with context, restarts := r.restarts + 1, state := .ready }).Linear (m.handsOff c) c := by
    refine h.set hr (fun _ => id) ?_
    rintro rfl
    by_cases hawait : r.state = .awaitingReply
    · left
      intro x hx
      rw [restartsAwaited, requests_of_asks hrun hask, hcap] at hrestart
      have hmem : x ∈ m.sched.authorities target := by simpa [authorities] using hx
      simp [hr, hbound, huser, hawait, Finset.Nonempty] at hrestart
      exact hrestart x.1 x.2 hmem
    · exact .inr (.inl hawait)
  refine hset.of_window fun x _ hw => .inl ?_
  have hne : c ≠ target := by
    rintro rfl
    have := hroles c r hr
    rw [show m.konts c = _ from hw, huser] at this
    cases this
  simpa [handsOff, Function.update_of_ne hne] using hw

end Effects

theorem effect_linear (h : m.LinearAt c) (hp : m.Parked) (hroles : m.Roles) (hrun : m.Runs t)
    (hen : m.enabled ev = true) (hgrant : m.grantsReply c ev = false)
    (hrestart : m.restartsAwaited c ev = false) (heff : Effect m t ev m₁) : m₁.LinearAt c := by
  have huser {sys frame} (hask : ev.asks sys frame) (hc : c = m.current) : ¬ m.handsOff c := by
    rw [hc, handsOff, kont_user_of_asks hen hask]
    simp
  have hstate {t' : Task} (ht' : ∀ pl, t'.named pl = t.named pl) :
      (m.sched.set m.current t').Linear (m.handsOff c) c :=
    linear_current h hrun _ fun pl hpl => (ht' pl).symm.trans hpl
  cases heff with
  | keep =>
    have hsame : m.sched.Linear (m.handsOff c) c := h
    exact linear_next_same hsame
  | deliver hoffer hfind hne hr hblock => exact deliver_linear h hrun hen hgrant hoffer hne hr hblock
  | enqueue hoffer hfind => exact enqueue_linear h hrun hen hgrant hoffer
  | take hask hcap hfind hne hr hblock => exact take_linear h hrun hp hne hr hblock
  | takeMessage hcap hne hr hblock =>
    refine linear_next (h.set hr (fun _ => id) fun _ => .inr (.inl (by simp [hblock]))) ?_
    rintro rfl
    obtain ⟨ret, hk⟩ := kont_body_of_recvMessage hen
    simp [handsOff, hk]
  | waitRecv hask hcap hfind => exact linear_next (hstate fun _ => rfl) (huser hask)
  | waitIrq hask hcap => exact linear_next (hstate fun _ => rfl) (huser hask)
  | toRecvPark hcap =>
    refine linear_next h ?_
    rintro rfl
    obtain ⟨ret, hk⟩ := kont_body_of_recvMessage hen
    simp [handsOff, hk]
  | park hpoint => exact park_linear h hrun hpoint
  | pickUp hkont =>
    refine linear_next (h.pickUp hrun.task hrun.not_awaiting _) ?_
    rintro rfl
    simp [handsOff, hkont]
  | callReturn hkont =>
    refine linear_next h ?_
    rintro rfl
    simp [handsOff, hkont]
  | settle hkont =>
    refine linear_next h ?_
    rintro rfl
    obtain hkont | hkont := hkont <;> simp [handsOff, hkont]
  | finish =>
    refine linear_next h ?_
    rintro rfl hw
    simp [enabled, show m.konts m.current = _ from hw] at hen
  | reply hask hcap hne hr hawait => exact reply_linear_effect h hrun hcap hne hr
  | replyRefused hask hcap hnot =>
    exact linear_next_same (linear_current h hrun _ fun pl hpl => (named_clear hpl).1)
  | revoke hask hcap => exact linear_next_same (h.revoke _ _)
  | relaunch hask hcap hr hbound hre =>
    exact relaunch_linear h hrun hroles hask hcap hr hbound hre hrestart
  | wakeIrq hev hr hwait =>
    exact linear_next_same (h.set hr (fun _ => id) fun _ => .inr (.inl (by simp [hwait])))
  | exit hask => exact hstate fun _ => rfl
  | kill hcause hquiet => exact hstate fun _ => rfl
  | crash hcause hnotify hne hr hblock =>
    exact linear_both h hrun hne hr (fun _ => by simp [hblock]) (fun _ => id) (fun _ => id)

theorem switch_named {m' : Machine} (hsw : Switch m m') (x : Slot × Place) :
    m'.sched.named x = m.sched.named x := by
  unfold named
  cases ht' : m'.sched.tasks x.1 with
  | none =>
    cases ht : m.sched.tasks x.1 with
    | none => rfl
    | some t =>
      obtain ⟨t', ht'', -⟩ := hsw.exists_task ht
      cases ht'.symm.trans ht''
  | some t' =>
    obtain ⟨t, ht, heq, -⟩ := hsw.task ht'
    rw [ht, heq]
    cases x.2 <;> rfl

theorem switch_linear {m' : Machine} (h : m.LinearAt c) (hsw : Switch m m') : m'.LinearAt c where
  unique hx hy := h.unique (switch_named hsw _ ▸ hx) (switch_named hsw _ ▸ hy)
  awaited hx := by
    refine (h.awaited (switch_named hsw _ ▸ hx)).imp ?_ ?_
    · cases hsw <;> exact id
    · rintro ⟨t, ht, hawait⟩
      obtain ⟨t', ht', -, heq | ⟨hrun, -⟩⟩ := hsw.exists_task ht
      · exact ⟨t', ht', heq.trans hawait⟩
      · simp [hawait, TaskState.runnable] at hrun
  kept hj := h.kept (switch_named hsw _ ▸ hj)

theorem Quiet.not_handsOff (h : m.Quiet) : ¬ m.handsOff c := by
  intro hw
  obtain ⟨ret, hret⟩ := h c _ hw
  cases hret

end Machine

end Perenne

import Perenne.Messages

namespace Perenne

/-- What the log knows of a task in this state: whose message is in its outbox, which call
it is, and that the authority to answer it was minted for the call it waits in. -/
def Log.Knows (log : Log) (i : Slot) : TaskState → Prop
  | .blocked _ .send => (log.buffer i).2 = i
  | .blocked _ .call => log.buffer i = (log.request i, i)
  | .awaitingReply => log.minted i = log.request i
  | _ => True

theorem Log.knows_of_runnable {log : Log} {i : Slot} {st : TaskState} (h : st.runnable) :
    log.Knows i st := by
  obtain rfl | rfl := h <;> trivial

namespace Machine

open Scheduler Transition

/-- An accepted `restart` of `c` while it is not `Exited`. -/
def restartsLive (m : Machine) (c : Slot) : Event → Bool :=
  m.requests .restart fun t frame =>
    t.caps.restartTarget (frame.regs 9) == some c.val &&
    (m.sched.tasks c).any fun r =>
      r.isUser && canRestart r.restarts maxRestarts && r.state != .exited

/-- The step delegates no reply capability and restarts only `Exited` tasks. -/
def keepsMessages (m : Machine) (l : Label) : Prop :=
  ∀ c, m.grantsReply c l.event = false ∧ m.restartsLive c l.event = false

instance (m : Machine) (l : Label) : Decidable (m.keepsMessages l) :=
  inferInstanceAs (Decidable (∀ _, _ ∧ _))

theorem keepsMessages.keepsReplies {m : Machine} {l : Label} (h : m.keepsMessages l) :
    m.keepsReplies l := by
  refine fun c => ⟨(h c).1, ?_⟩
  refine requests_of_imp (fun t frame hcheck => ?_) (h c).2
  simp only [Bool.and_eq_true, Option.any_eq_true, beq_iff_eq] at hcheck ⊢
  obtain ⟨⟨hcap, r, hr, hbound, hst⟩, -⟩ := hcheck
  exact ⟨hcap, r, hr, hbound, by simp [hst]⟩

/-- The account. -/
structure Balanced (m : Machine) (log : Log) : Prop where
  account : (log.accepted : Multiset Item) = log.returned + m.inFlight log
  knows : ∀ i t, m.sched.tasks i = some t → log.Knows i t.state

variable {m m₁ m' : Machine} {t : Task} {ev : Event} {log log₁ : Log}

theorem Balanced.of_touched (h : m.Balanced log) (touched : Finset Slot)
    {accepted returned : List Item} (hacc : log₁.accepted = log.accepted ++ accepted)
    (hret : log₁.returned = log.returned ++ returned)
    (hsame : ∀ j ∉ touched, m₁.mail j = m.mail j ∧ m₁.konts j = m.konts j ∧
      log₁.buffer j = log.buffer j ∧ log₁.request j = log.request j ∧
      log₁.minted j = log.minted j)
    (hflow : accepted + ∑ j ∈ touched, m.inFlightAt log j =
      returned + ∑ j ∈ touched, m₁.inFlightAt log₁ j)
    (hknows : ∀ j ∈ touched, ∀ t, m₁.sched.tasks j = some t → log₁.Knows j t.state) :
    m₁.Balanced log₁ := by
  have hrest : ∑ j ∈ touchedᶜ, m₁.inFlightAt log₁ j = ∑ j ∈ touchedᶜ, m.inFlightAt log j := by
    refine Finset.sum_congr rfl fun j hj => ?_
    obtain ⟨hmail, hkont, hbuf, hreq, -⟩ := hsame j (Finset.mem_compl.mp hj)
    simp only [inFlightAt, outbox, inbox, hmail, hkont, hbuf, hreq]
  constructor
  · have hold := h.account
    unfold inFlight at hold ⊢
    rw [← Finset.sum_add_sum_compl touched] at hold ⊢
    rw [hacc, hret, hrest, ← Multiset.coe_add, ← Multiset.coe_add, hold]
    calc (log.returned : Multiset Item) +
          (∑ j ∈ touched, m.inFlightAt log j + ∑ j ∈ touchedᶜ, m.inFlightAt log j) + accepted
        = log.returned + (accepted + ∑ j ∈ touched, m.inFlightAt log j) +
          ∑ j ∈ touchedᶜ, m.inFlightAt log j := by ac_rfl
      _ = log.returned + returned +
          (∑ j ∈ touched, m₁.inFlightAt log₁ j + ∑ j ∈ touchedᶜ, m.inFlightAt log j) := by
        rw [hflow]
        ac_rfl
  · intro j u hu
    by_cases hj : j ∈ touched
    · exact hknows j hj u hu
    · obtain ⟨hmail, -, hbuf, hreq, hmint⟩ := hsame j hj
      obtain ⟨r, hr, hst⟩ : ∃ r, m.sched.tasks j = some r ∧ r.state = u.state := by
        simp only [mail, hu, Option.map_some] at hmail
        obtain ⟨r, hr, heq⟩ := Option.map_eq_some_iff.mp hmail.symm
        exact ⟨r, hr, congrArg Prod.fst heq⟩
      have hk := h.knows j r hr
      rw [hst] at hk
      cases hus : u.state <;> simp_all [Log.Knows]

section Touched

variable {accepted returned : List Item} {t' : Task}

theorem Balanced.one {i : Slot} (h : m.Balanced log) (hs : m₁.sched = m.sched.set i t')
    (hk : ∀ j, j ≠ i → m₁.konts j = m.konts j)
    (hacc : log₁.accepted = log.accepted ++ accepted)
    (hret : log₁.returned = log.returned ++ returned)
    (hlog : ∀ j, j ≠ i → log₁.buffer j = log.buffer j ∧
      log₁.request j = log.request j ∧ log₁.minted j = log.minted j)
    (hflow : accepted + m.inFlightAt log i = returned + m₁.inFlightAt log₁ i)
    (hknows : log₁.Knows i t'.state) : m₁.Balanced log₁ := by
  refine h.of_touched {i} hacc hret (fun j hj => ?_) (by simpa using hflow) ?_
  · have hj : j ≠ i := by simpa using hj
    refine ⟨?_, hk j hj, hlog j hj⟩
    rw [mail, hs, set_tasks_ne _ hj, mail]
  · intro j hj u hu
    obtain rfl := Finset.mem_singleton.mp hj
    rw [hs, set_tasks_self] at hu
    exact Option.some.inj hu ▸ hknows

theorem Balanced.still {i : Slot} (h : m.Balanced log) (hs : m₁.sched = m.sched.set i t')
    (hk : ∀ j, j ≠ i → m₁.konts j = m.konts j) (hempty : m.inFlightAt log i = 0)
    (hst : ∀ ep, t'.state ≠ .blocked ep .send ∧ t'.state ≠ .blocked ep .call)
    (hidle : ¬ t'.state.runnable ∨ m₁.konts i = .user ∨ m₁.konts i = .send ∨ m₁.konts i = .irq)
    (hknows : log.Knows i t'.state) : m₁.Balanced log := by
  refine h.one hs hk (List.append_nil _).symm (List.append_nil _).symm
    (fun _ _ => ⟨rfl, rfl, rfl⟩) ?_ hknows
  have hmail : m₁.mail i = some (t'.state, t'.message) := by
    rw [mail, hs, set_tasks_self]
    rfl
  rw [hempty, inFlightAt_eq_zero hmail hst hidle]

theorem Balanced.both {i : Slot} {r' : Task} (h : m.Balanced log) (hne : i ≠ m.current)
    (hs : m₁.sched = (m.sched.set i r').set m.current t')
    (hk : ∀ j, j ≠ m.current → m₁.konts j = m.konts j)
    (hacc : log₁.accepted = log.accepted ++ accepted)
    (hret : log₁.returned = log.returned ++ returned)
    (hlog : ∀ j, j ≠ i → j ≠ m.current → log₁.buffer j = log.buffer j ∧
      log₁.request j = log.request j ∧ log₁.minted j = log.minted j)
    (hflow : accepted + (m.inFlightAt log i + m.inFlightAt log m.current) =
      returned + (m₁.inFlightAt log₁ i + m₁.inFlightAt log₁ m.current))
    (hknows : log₁.Knows i r'.state) (hknows' : log₁.Knows m.current t'.state) :
    m₁.Balanced log₁ := by
  refine h.of_touched {i, m.current} hacc hret (fun j hj => ?_)
    (by simpa [Finset.sum_pair hne] using hflow) ?_
  · obtain ⟨hj, hj'⟩ : j ≠ i ∧ j ≠ m.current := by simpa using hj
    refine ⟨?_, hk j hj', hlog j hj hj'⟩
    rw [mail, hs, set_tasks_ne _ hj', set_tasks_ne _ hj, mail]
  · intro j hj u hu
    obtain rfl | hj := Finset.mem_insert.mp hj
    · rw [hs, set_tasks_ne _ hne, set_tasks_self] at hu
      exact Option.some.inj hu ▸ hknows
    · obtain rfl := Finset.mem_singleton.mp hj
      rw [hs, set_tasks_self] at hu
      exact Option.some.inj hu ▸ hknows'

theorem Balanced.same (h : m.Balanced log) (hmail : ∀ j, m₁.mail j = m.mail j)
    (hk : ∀ j, m₁.konts j = m.konts j) : m₁.Balanced log :=
  h.of_touched ∅ (List.append_nil _).symm (List.append_nil _).symm
    (fun j _ => ⟨hmail j, hk j, rfl, rfl, rfl⟩) rfl (by simp)

end Touched

theorem outbox_sender {i : Slot} {x : Item} (h : m.outbox log i = some x) : x.sender = i := by
  unfold outbox at h
  split at h <;> cases h <;> rfl

theorem mail_of_task {i : Slot} {r : Task} (hr : m.sched.tasks i = some r) :
    m.mail i = some (r.state, r.message) := by
  rw [mail, hr, Option.map_some]

theorem Runs.not_blocked (hrun : m.Runs t) (ep : EndpointId) (role : IpcRole) :
    t.state ≠ .blocked ep role := by
  intro hst
  have := hrun.runnable
  exact not_runnable_blocked (hst ▸ this)

theorem Runs.inFlightAt (hrun : m.Runs t)
    (hk : m.konts m.current = .user ∨ m.konts m.current = .send ∨ m.konts m.current = .irq) :
    m.inFlightAt log m.current = 0 := by
  exact inFlightAt_eq_zero (mail_of_task hrun.task)
    (fun ep => ⟨hrun.not_blocked ep _, hrun.not_blocked ep _⟩) (.inr hk)

theorem kont_of_recv {i : Slot} {r : Task} {ep : EndpointId} (hq : m.Quiet) (hp : m.Parked)
    (hr : m.sched.tasks i = some r) (hstate : r.state = .blocked ep .recv) :
    ∃ slot, m.konts i = .recv ep slot := by
  have hfits := hp i r hr
  rw [hstate] at hfits
  cases hk : m.konts i with
  | recv ep' slot =>
    rw [hk] at hfits
    obtain hrun | heq := hfits
    · exact absurd hrun not_runnable_blocked
    · cases heq
      exact ⟨slot, rfl⟩
  | kernel pc =>
    obtain ⟨ret, rfl⟩ := hq i pc hk
    rw [hk] at hfits
    exact absurd hfits not_runnable_blocked
  | _ => simp [hk, Kont.fits, TaskState.runnable] at hfits

theorem kont_of_awaiting {i : Slot} {r : Task} (hq : m.Quiet) (hp : m.Parked)
    (hr : m.sched.tasks i = some r) (hstate : r.state = .awaitingReply) :
    m.konts i = .call := by
  have hfits := hp i r hr
  rw [hstate] at hfits
  cases hk : m.konts i with
  | call => rfl
  | kernel pc =>
    obtain ⟨ret, rfl⟩ := hq i pc hk
    simp [hk, Kont.fits, TaskState.runnable] at hfits
  | _ => simp [hk, Kont.fits, TaskState.runnable] at hfits

theorem kont_of_send {i : Slot} {r : Task} {ep : EndpointId} (hq : m.Quiet) (hp : m.Parked)
    (hr : m.sched.tasks i = some r) (hstate : r.state = .blocked ep .send) :
    m.konts i = .send := by
  have hfits := hp i r hr
  rw [hstate] at hfits
  cases hk : m.konts i with
  | send => rfl
  | kernel pc =>
    obtain ⟨ret, rfl⟩ := hq i pc hk
    simp [hk, Kont.fits, TaskState.runnable] at hfits
  | _ => simp [hk, Kont.fits, TaskState.runnable] at hfits

theorem result_writeMessage (frame : TrapFrame) (msg : Message) (sepc : Nat) :
    TrapFrame.result { writeMessage frame msg with sepc } = msg := by
  simp [TrapFrame.result, writeMessage]

section Effects

variable (h : m.Balanced log) (hrun : m.Runs t)

/-- What an accepted `send`, `call` or `grant` adds to the log, and what the log then
knows of the sender: when a receiver took the message, and when it is queued. -/
theorem offer_note (m₁ : Machine) (log : Log) {ep : EndpointId} {msg : Message} {caller : Option Nat}
    {granted : Option Capability} {taken queued : TaskState × Kont} (hrun : m.Runs t)
    (hsys : ev.isSyscall = true) (hoffer : Offer m t ev ep msg caller granted taken queued) :
    ∃ request minted, m.note ev m₁ log =
      { log.accept m.current (m.holder ep) (.endpoint ep) msg with request, minted } ∧
      (∀ j, j ≠ m.current → request j = log.request j ∧ minted j = log.minted j) ∧
      ((m.sched.findBlocked ep .recv).isSome → (m.note ev m₁ log).Knows m.current taken.1) ∧
      (m.sched.findBlocked ep .recv = none → (m.note ev m₁ log).Knows m.current queued.1) := by
  cases hoffer with
  | send hask hcap =>
    rw [note_of_asks hrun hask]
    simp only [noteSyscall, hcap, Option.elim_some]
    refine ⟨log.request, log.minted, rfl, by simp, fun _ => Log.knows_of_runnable hrun.runnable,
      fun hnone => ?_⟩
    simp [Log.Knows, Log.accept, holder, hnone]
  | grant hask hcap hsrc =>
    rw [note_of_asks hrun hask]
    simp only [noteSyscall, hcap, hsrc, Option.elim_some]
    refine ⟨log.request, log.minted, rfl, by simp, fun _ => Log.knows_of_runnable hrun.runnable,
      fun hnone => ?_⟩
    simp [Log.Knows, Log.accept, holder, hnone]
  | call hask hcap =>
    rw [note_of_asks hrun hask]
    simp only [noteSyscall, hcap, Option.elim_some]
    refine ⟨_, _, rfl, fun j hj => ⟨Function.update_of_ne hj _ _, ?_⟩, fun hsome => ?_,
      fun hnone => ?_⟩
    · split
      · exact Function.update_of_ne hj _ _
      · rfl
    · simp [Log.Knows, hsome]
    · simp [Log.Knows, Log.accept, holder, hnone]
  | callMessage => cases hsys

theorem offer_taken {ep : EndpointId} {msg : Message} {caller : Option Nat}
    {granted : Option Capability} {taken queued : TaskState × Kont} (hrun : m.Runs t)
    (hen : m.enabled ev = true) (hsys : ev.isSyscall = true)
    (hoffer : Offer m t ev ep msg caller granted taken queued) :
    (∀ ep', taken.1 ≠ .blocked ep' .send ∧ taken.1 ≠ .blocked ep' .call) ∧
    (¬ taken.1.runnable ∨ taken.2 = .user) ∧ m.konts m.current = .user := by
  cases hoffer with
  | send hask | grant hask =>
    have huser := kont_user_of_asks hen hask
    exact ⟨fun ep' => ⟨hrun.not_blocked ep' _, hrun.not_blocked ep' _⟩, .inr huser, huser⟩
  | call hask =>
    exact ⟨by simp, .inl (by simp [TaskState.runnable]), kont_user_of_asks hen hask⟩
  | callMessage => cases hsys

include h hrun in
theorem deliver_balanced (hq : m.Quiet) (hp : m.Parked) (hen : m.enabled ev = true)
    (hsys : ev.isSyscall = true) {ep : EndpointId} {msg : Message} {caller : Option Nat}
    {granted : Option Capability} {taken queued : TaskState × Kont} {frame : TrapFrame}
    {ri : Slot} {r : Task} (hoffer : Offer m t ev ep msg caller granted taken queued)
    (hfind : m.sched.findBlocked ep .recv = some ri) (hne : ri ≠ m.current)
    (hr : m.sched.tasks ri = some r) (hstate : r.state = .blocked ep .recv)
    (hm₁ : m₁ = m.next ((m.sched.set ri (r.accept msg caller granted)).set m.current
      { t with state := taken.1 }) frame taken.2) : m₁.Balanced (m.note ev m₁ log) := by
  obtain ⟨request, minted, hnote, hlog, hknows, -⟩ := offer_note m₁ log hrun hsys hoffer
  have hholder : m.holder ep = ri := by simp [holder, hfind]
  have hks := hknows (by simp [hfind])
  rw [hnote, hholder] at hks ⊢
  have hsched : m₁.sched = (m.sched.set ri (r.accept msg caller granted)).set m.current
      { t with state := taken.1 } := hm₁ ▸ rfl
  have hkont (j : Slot) : m₁.konts j = if j = m.current then taken.2 else m.konts j :=
    hm₁ ▸ next_konts ..
  obtain ⟨hst, hidle, huser⟩ := offer_taken hrun hen hsys hoffer
  have hri : m.inFlightAt log ri = 0 :=
    inFlightAt_eq_zero (mail_of_task hr) (by simp [hstate]) (.inl (hstate ▸ not_runnable_blocked))
  obtain ⟨slot, hslot⟩ := kont_of_recv hq hp hr hstate
  have hmail : m₁.mail ri = some (.ready, msg) := by
    rw [mail, hsched, set_tasks_ne _ hne, set_tasks_self]
    rfl
  have hmail' : m₁.mail m.current = some (taken.1, t.message) := by
    rw [mail, hsched, set_tasks_self]
    rfl
  refine h.both hne hsched (fun j hj => by rw [hkont, if_neg hj]) rfl (List.append_nil _).symm
    (fun j hj hj' => ⟨Function.update_of_ne hj _ _, hlog j hj'⟩) ?_ trivial hks
  rw [hri, hrun.inFlightAt (.inl huser),
    inFlightAt_recv hmail (.inl rfl) (by rw [hkont, if_neg hne, hslot]),
    inFlightAt_eq_zero hmail' hst (hidle.imp_right fun hk => .inl ?_)]
  · simp [Log.accept]
  · rw [hkont, if_pos rfl, hk]

include h hrun in
theorem enqueue_balanced (hen : m.enabled ev = true)
    (hsys : ev.isSyscall = true) {ep : EndpointId} {msg : Message} {caller : Option Nat}
    {granted : Option Capability} {taken queued : TaskState × Kont} {frame : TrapFrame}
    (hoffer : Offer m t ev ep msg caller granted taken queued)
    (hfind : m.sched.findBlocked ep .recv = none)
    (hm₁ : m₁ = m.next (m.sched.set m.current
      { t with message := msg, pendingGrant := granted.or t.pendingGrant,
               state := queued.1 }) frame queued.2) : m₁.Balanced (m.note ev m₁ log) := by
  obtain ⟨request, minted, hnote, hlog, -, hknows⟩ := offer_note m₁ log hrun hsys hoffer
  have hholder : m.holder ep = m.current := by simp [holder, hfind]
  have hks := hknows hfind
  rw [hnote, hholder] at hks ⊢
  obtain ⟨-, -, huser⟩ := offer_taken hrun hen hsys hoffer
  have hsched : m₁.sched = m.sched.set m.current
      { t with message := msg, pendingGrant := granted.or t.pendingGrant, state := queued.1 } :=
    hm₁ ▸ rfl
  obtain ⟨role, hrole, hqueued⟩ : ∃ role, role ≠ .recv ∧ queued.1 = .blocked ep role := by
    cases hoffer with
    | send => exact ⟨.send, by simp, rfl⟩
    | grant => exact ⟨.send, by simp, rfl⟩
    | call => exact ⟨.call, by simp, rfl⟩
    | callMessage => cases hsys
  have hmail : m₁.mail m.current = some (.blocked ep role, msg) := by
    rw [mail, hsched, set_tasks_self, ← hqueued]
    rfl
  refine h.one hsched (fun j hj => hm₁ ▸ (next_konts ..).trans (if_neg hj)) rfl
    (List.append_nil _).symm (fun j hj => ⟨Function.update_of_ne hj _ _, hlog j hj⟩) ?_ hks
  rw [hrun.inFlightAt (.inl huser), inFlightAt_outbox hmail hrole]
  simp [Log.accept]

include h hrun in
theorem take_balanced (hq : m.Quiet) (hp : m.Parked) (hen : m.enabled ev = true)
    {ep : EndpointId} {frame : TrapFrame} {sepc : Nat} {si : Slot} {r : Task} {isCall : Bool}
    (hask : ev.asks .recv frame) (hcap : t.caps.capLookup (frame.regs 9) = some ep)
    (hfind : m.sched.waitingSender ep = some (si, isCall)) (hne : si ≠ m.current)
    (hr : m.sched.tasks si = some r) (hstate : r.state = .blocked ep (cond isCall .call .send))
    {caps : Caps} (hm₁ : m₁ = m.next ((m.sched.set si
        { r with pendingGrant := none, state := cond isCall .awaitingReply .ready }).set
      m.current { t with caps })
      { writeMessage frame r.message with sepc } (m.konts m.current)) :
    m₁.Balanced (m.note ev m₁ log) := by
  have hnote : m.note ev m₁ log = { log.handBack si (.endpoint ep) r.message with
      minted := if isCall then Function.update log.minted si (log.buffer si).1
        else log.minted } := by
    rw [note_of_asks hrun hask]
    simp only [noteSyscall, hcap, hfind, Option.elim_some]
    rw [show m₁.frames m.current = { writeMessage frame r.message with sepc } by
      simp [hm₁, next, save], result_writeMessage]
  rw [hnote]
  have hsched : m₁.sched = (m.sched.set si
      { r with pendingGrant := none, state := cond isCall .awaitingReply .ready }).set
      m.current { t with caps } := hm₁ ▸ rfl
  have hkont (j : Slot) : m₁.konts j = m.konts j := hm₁ ▸ next_konts_same j
  have huser := kont_user_of_asks hen hask
  have hmail : m₁.mail si = some (cond isCall .awaitingReply .ready, r.message) := by
    rw [mail, hsched, set_tasks_ne _ hne, set_tasks_self]
    rfl
  have hmail' : m₁.mail m.current = some (t.state, t.message) := by
    rw [mail, hsched, set_tasks_self]
    rfl
  have hsi := mail_of_task hr
  rw [hstate] at hsi
  have hsender : (log.buffer si).2 = si ∧ (isCall = true → (log.buffer si).1 = log.request si) := by
    have := h.knows si r hr
    rw [hstate] at this
    cases isCall with
    | true => exact ⟨congrArg Prod.snd this, fun _ => congrArg Prod.fst this⟩
    | false => exact ⟨this, by simp⟩
  refine h.both hne hsched (fun j _ => hkont j) (List.append_nil _).symm rfl
    (fun j hj _ => ⟨rfl, rfl, ?_⟩) ?_ ?_ (Log.knows_of_runnable hrun.runnable)
  · cases isCall with
    | true => exact Function.update_of_ne hj _ _
    | false => rfl
  · rw [hrun.inFlightAt (.inl huser), inFlightAt_outbox hsi (by cases isCall <;> simp),
      inFlightAt_eq_zero hmail (by cases isCall <;> simp) ?_,
      inFlightAt_eq_zero hmail' (fun ep => ⟨hrun.not_blocked ep _, hrun.not_blocked ep _⟩)
        (.inr (.inl ((hkont _).trans huser)))]
    · simp [hsender.1]
    · cases isCall with
      | true => exact .inl (by simp [TaskState.runnable])
      | false => exact .inr (.inr (.inl ((hkont si).trans (kont_of_send hq hp hr hstate))))
  · cases isCall with
    | true => simpa [Log.Knows, Log.handBack] using hsender.2 rfl
    | false => trivial

include h hrun in
theorem reply_balanced (hq : m.Quiet) (hp : m.Parked) (hen : m.enabled ev = true)
    {frame : TrapFrame} {sepc : Nat} {c : Slot} {r : Task} (hask : ev.asks .reply frame)
    (hcap : t.caps.replyCaller (frame.regs 9) = some c.val) (hne : c ≠ m.current)
    (hr : m.sched.tasks c = some r) (hstate : r.state = .awaitingReply)
    {caps : Caps} (hm₁ : m₁ = m.next
      ((m.sched.set c { r with message := frame.message, state := .ready }).set m.current
        { t with caps }) { frame.setStatus true with sepc } (m.konts m.current)) :
    m₁.Balanced (m.note ev m₁ log) := by
  have hnote : m.note ev m₁ log =
      log.accept m.current c (.reply c (log.minted c)) frame.message := by
    rw [note_of_asks hrun hask]
    simp only [noteSyscall, hcap, Option.elim_some, c.isLt, dite_true]
    rw [if_pos]
    simp [hm₁, next, save, TrapFrame.setStatus]
  rw [hnote]
  have hsched : m₁.sched = (m.sched.set c { r with message := frame.message, state := .ready }).set
      m.current { t with caps } := hm₁ ▸ rfl
  have hkont (j : Slot) : m₁.konts j = m.konts j := hm₁ ▸ next_konts_same j
  have huser := kont_user_of_asks hen hask
  have hmail : m₁.mail c = some (.ready, frame.message) := by
    rw [mail, hsched, set_tasks_ne _ hne, set_tasks_self]
    rfl
  have hmail' : m₁.mail m.current = some (t.state, t.message) := by
    rw [mail, hsched, set_tasks_self]
    rfl
  have hminted : log.minted c = log.request c := by
    have := h.knows c r hr
    rwa [hstate] at this
  refine h.both hne hsched (fun j _ => hkont j) rfl (List.append_nil _).symm
    (fun j hj _ => ⟨Function.update_of_ne hj _ _, rfl, rfl⟩) ?_ trivial
    (Log.knows_of_runnable hrun.runnable)
  rw [hrun.inFlightAt (.inl huser),
    inFlightAt_eq_zero (mail_of_task hr) (by simp [hstate]) (.inl (by simp [hstate, TaskState.runnable])),
    inFlightAt_call hmail (.inl rfl) ((hkont c).trans (kont_of_awaiting hq hp hr hstate)),
    inFlightAt_eq_zero hmail' (fun ep => ⟨hrun.not_blocked ep _, hrun.not_blocked ep _⟩)
      (.inr (.inl ((hkont _).trans huser)))]
  simp [Log.accept, hminted]

include h hrun in
theorem crash_balanced (hq : m.Quiet) (hp : m.Parked) {frame : TrapFrame} {cause : Cause}
    {heal : Heal} {i : Slot} {r : Task} (hen : m.enabled (.trap frame) = true)
    (hcause : killCause frame = some cause) (hnotify : m.notified t cause = some i)
    (hne : i ≠ m.current) (hr : m.sched.tasks i = some r)
    (hstate : r.state = .blocked crashEp .recv)
    (hm₁ : m₁ = { m with
      sched := (m.sched.set i { r with message := ⟨t.crashBadge, 0, 0, 0⟩, state := .ready }).set
        m.current { t with state := .exited }
      heal }) : m₁.Balanced (m.note (.trap frame) m₁ log) := by
  rw [note_of_kill hrun rfl hcause, hnotify, Option.elim_some]
  have hsched : m₁.sched =
      (m.sched.set i { r with message := ⟨t.crashBadge, 0, 0, 0⟩, state := .ready }).set m.current
        { t with state := .exited } := hm₁ ▸ rfl
  have hkont : m₁.konts = m.konts := hm₁ ▸ rfl
  have huser := kont_user_of_kill hen hcause
  obtain ⟨slot, hslot⟩ := kont_of_recv hq hp hr hstate
  have hmail : m₁.mail i = some (.ready, ⟨t.crashBadge, 0, 0, 0⟩) := by
    rw [mail, hsched, set_tasks_ne _ hne, set_tasks_self]
    rfl
  have hmail' : m₁.mail m.current = some (.exited, t.message) := by
    rw [mail, hsched, set_tasks_self]
    rfl
  refine h.both hne hsched (fun j _ => congrFun hkont j) rfl (List.append_nil _).symm
    (fun j hj _ => ⟨Function.update_of_ne hj _ _, rfl, rfl⟩) ?_ trivial trivial
  rw [hrun.inFlightAt (.inl huser),
    inFlightAt_eq_zero (mail_of_task hr) (by simp [hstate]) (.inl (hstate ▸ not_runnable_blocked)),
    inFlightAt_recv hmail (.inl rfl) (by rw [hkont, hslot]),
    inFlightAt_eq_zero hmail' (by simp) (.inl (by simp [TaskState.runnable]))]
  simp [Log.accept]

include h hrun in
theorem resume_balanced (t' : Task) {channel : Route} {n : Nat}
    (hnote : m.note .resume m₁ log =
      log.handBack m.current channel (m₁.frames m.current).result)
    (hbox : m.inFlightAt log m.current =
      {⟨(log.buffer m.current).1, (log.buffer m.current).2, channel, t.message⟩})
    (hm₁ : m₁ = m.next (m.sched.set m.current t')
      { writeMessage (m.frames m.current) t.message with sepc := n } .user)
    (hstate : t'.state = t.state) : m₁.Balanced (m.note .resume m₁ log) := by
  have hsched : m₁.sched = m.sched.set m.current t' := hm₁ ▸ rfl
  have hmail : m₁.mail m.current = some (t.state, t'.message) := by
    rw [mail, hsched, set_tasks_self, ← hstate]
    rfl
  have hkont : m₁.konts m.current = .user := hm₁ ▸ (next_konts ..).trans (if_pos rfl)
  have hresult : (m₁.frames m.current).result = t.message := by
    rw [show m₁.frames m.current = { writeMessage (m.frames m.current) t.message with sepc := n } by
      simp [hm₁, next, save], result_writeMessage]
  rw [hnote, hresult]
  refine h.one hsched (fun j hj => hm₁ ▸ (next_konts ..).trans (if_neg hj))
    (List.append_nil _).symm rfl (fun _ _ => ⟨rfl, rfl, rfl⟩) ?_
    (Log.knows_of_runnable (hstate ▸ hrun.runnable))
  rw [hbox, inFlightAt_eq_zero hmail (fun ep => ⟨hrun.not_blocked ep _, hrun.not_blocked ep _⟩)
    (.inr (.inl hkont))]
  simp

end Effects

theorem effect_balanced (h : m.Balanced log) (hq : m.Quiet) (hp : m.Parked) (hrun : m.Runs t)
    (hen : m.enabled ev = true) (hsys : ev.isSyscall = true)
    (hlive : ∀ c, m.restartsLive c ev = false) (heff : Effect m t ev m₁) :
    m₁.Balanced (m.note ev m₁ log) := by
  have hrunst (ep : EndpointId) : t.state ≠ .blocked ep .send ∧ t.state ≠ .blocked ep .call :=
    ⟨hrun.not_blocked ep _, hrun.not_blocked ep _⟩
  cases heff with
  | keep hev _ hrefuse hkill =>
    rw [note_keep hrun hev hrefuse hkill]
    exact h.same (fun _ => rfl) (next_konts_same (s := m.sched))
  | deliver hoffer hfind hne hr hstate =>
    exact deliver_balanced h hrun hq hp hen hsys hoffer hfind hne hr hstate rfl
  | enqueue hoffer hfind => exact enqueue_balanced h hrun hen hsys hoffer hfind rfl
  | take hask hcap hfind hne hr hstate =>
    exact take_balanced h hrun hq hp hen hask hcap hfind hne hr hstate rfl
  | takeMessage => cases hsys
  | waitRecv hask hcap hfind =>
    rw [note_of_asks hrun hask]
    simp only [noteSyscall, hcap, hfind, Option.elim_some, Option.elim_none]
    exact h.still rfl (fun j hj => (next_konts ..).trans (if_neg hj))
      (hrun.inFlightAt (.inl (kont_user_of_asks hen hask))) (by simp)
      (.inl not_runnable_blocked) trivial
  | waitIrq hask hcap =>
    rw [note_of_asks hrun hask]
    exact h.still rfl (fun j hj => (next_konts ..).trans (if_neg hj))
      (hrun.inFlightAt (.inl (kont_user_of_asks hen hask))) (by simp)
      (.inl (by simp [TaskState.runnable])) trivial
  | toRecvPark => cases hsys
  | park => cases hsys
  | pickUp hkont =>
    refine resume_balanced h hrun _ ?_ (inFlightAt_recv (mail_of_task hrun.task) hrun.runnable hkont)
      rfl rfl
    rw [note_of_resume hrun rfl, hkont]
  | @callReturn sepc hkont =>
    refine resume_balanced h hrun t ?_
      (inFlightAt_call (mail_of_task hrun.task) hrun.runnable hkont) (n := sepc) ?_ rfl
    · rw [note_of_resume hrun rfl, hkont]
    · rw [set_self (by exact hrun.task)]
  | settle hkont =>
    have hlog (n : Machine) : m.note .resume n log = log := by
      rw [note_of_resume hrun rfl]
      obtain hk | hk := hkont <;> rw [hk]
    rw [hlog]
    exact h.still (set_self (by exact hrun.task)).symm
      (fun j hj => (next_konts ..).trans (if_neg hj)) (hrun.inFlightAt (.inr hkont)) hrunst
      (.inr (.inl ((next_konts ..).trans (if_pos rfl)))) (Log.knows_of_runnable hrun.runnable)
  | finish => cases hsys
  | reply hask hcap hne hr hstate => exact reply_balanced h hrun hq hp hen hask hcap hne hr hstate rfl
  | @replyRefused _ _ _ c hask hcap hstate =>
    have huser := kont_user_of_asks hen hask
    rw [note_of_asks hrun hask]
    simp only [noteSyscall, hcap, Option.elim_some, c.isLt, dite_true]
    rw [if_neg (by simp [next, save, TrapFrame.setStatus, usizeMax])]
    exact h.still rfl (fun j _ => next_konts_same j) (hrun.inFlightAt (.inl huser)) hrunst
      (.inr (.inl ((next_konts_same _).trans huser))) (Log.knows_of_runnable hrun.runnable)
  | revoke hask hcap =>
    rw [note_of_asks hrun hask]
    refine h.same (fun j => ?_) next_konts_same
    change ((m.sched.revokeEndpoint _ _).1.tasks j).map _ = _
    rw [revokeEndpoint_tasks]
    split
    · rfl
    · rw [Option.map_map]
      rfl
  | @relaunch _ _ _ _ target r hask hcap hr hbound huser =>
    rw [note_of_asks hrun hask]
    have hexited : r.state = .exited := by
      have := hlive target
      rw [restartsLive, requests_of_asks hrun hask] at this
      simpa [hcap, hr, hbound, huser] using this
    exact h.still rfl (fun j hj => Function.update_of_ne hj _ _)
      (inFlightAt_eq_zero (mail_of_task hr) (by simp [hexited])
        (.inl (by simp [hexited, TaskState.runnable]))) (by simp)
      (.inr (.inl (Function.update_self ..))) trivial
  | @wakeIrq irq frame i r hev hr hwait =>
    have hec : decode frame.scause ≠ .userEcall := by simp [hev]
    rw [note_of_trap hrun rfl hec, show killCause frame = none by simp [killCause, hev]]
    have hkont : m.konts i = .irq := by
      have := hp i r hr
      rw [hwait] at this
      cases hk : m.konts i with
      | irq => rfl
      | kernel pc =>
        obtain ⟨ret, rfl⟩ := hq i pc hk
        simp [hk, Kont.fits, TaskState.runnable] at this
      | _ => simp [hk, Kont.fits, TaskState.runnable] at this
    exact h.still rfl (fun j _ => next_konts_same j)
      (inFlightAt_eq_zero (mail_of_task hr) (by simp [hwait])
        (.inl (by simp [hwait, TaskState.runnable]))) (by simp)
      (.inr (.inr (.inr ((next_konts_same i).trans hkont)))) trivial
  | exit hask =>
    rw [note_of_asks hrun hask]
    exact h.still rfl (fun _ _ => rfl) (hrun.inFlightAt (.inl (kont_user_of_asks hen hask)))
      (by simp) (.inl (by simp [TaskState.runnable])) trivial
  | kill hcause hquiet =>
    rw [note_of_kill hrun rfl hcause, hquiet]
    exact h.still rfl (fun _ _ => rfl) (hrun.inFlightAt (.inl (kont_user_of_kill hen hcause)))
      (by simp) (.inl (by simp [TaskState.runnable])) trivial
  | crash hcause hnotify hne hr hstate =>
    exact crash_balanced h hrun hq hp hen hcause hnotify hne hr hstate rfl

theorem switch_balanced (h : m.Balanced log) (hsw : Switch m m') : m'.Balanced log := by
  have hk : m'.konts = m.konts := by cases hsw <;> rfl
  have hflight (j : Slot) : m'.inFlightAt log j = m.inFlightAt log j := by
    cases ht : m.sched.tasks j with
    | none =>
      cases ht' : m'.sched.tasks j with
      | none => simp only [inFlightAt, outbox, inbox, mail, ht, ht', hk]
      | some t' =>
        obtain ⟨t, ht₀, -⟩ := hsw.task ht'
        cases ht.symm.trans ht₀
    | some t =>
      obtain ⟨t', ht', heq, hst⟩ := hsw.exists_task ht
      have hmsg : t'.message = t.message := by rw [heq]
      obtain hst | ⟨hst, hst'⟩ := hst
      · simp only [inFlightAt, outbox, inbox, mail, ht, ht', hk, Option.map_some, hst, hmsg]
      · simp only [inFlightAt, outbox, inbox, mail, ht, ht', hk, Option.map_some, hmsg]
        obtain hst | hst := hst <;> obtain hst' | hst' := hst' <;>
        cases m.konts j <;> simp [hst, hst']
  refine ⟨h.account.trans ?_, fun j u hu => ?_⟩
  · rw [inFlight, inFlight, Finset.sum_congr rfl fun j _ => hflight j]
  · obtain ⟨t, ht, -, hst | ⟨-, hst⟩⟩ := hsw.task hu
    · exact hst ▸ h.knows j t ht
    · exact Log.knows_of_runnable hst

theorem Fresh.balanced (h : m.Fresh) : m.Balanced .empty := by
  refine ⟨?_, fun i t ht => Log.knows_of_runnable (h.task ht).state⟩
  have hempty (i : Slot) : m.inFlightAt .empty i = 0 := by
    cases ht : m.sched.tasks i with
    | none => simp [inFlightAt, outbox, inbox, mail, ht]
    | some t =>
      have hkont : m.konts i = .user ∨ m.konts i = .kernel (.body none) := by
        rw [h.kont]
        split
        · exact .inl rfl
        · exact .inr rfl
      obtain hst | hst := (h.task ht).state <;> obtain hk | hk := hkont <;>
      simp [inFlightAt, outbox, inbox, mail, ht, hst, hk]
  rw [inFlight, Finset.sum_eq_zero fun i _ => hempty i]
  rfl

variable {p : Platform} {m₀ : Machine} {ls : List Label}

def logOf (p : Platform) (m₀ : Machine) (ls : List Label) : Log :=
  observe (step p) (fun m l m' log => m.note l.event m' log) m₀ .empty ls

theorem run_balanced (hsound : m₀.Sound) (hq : m₀.Quiet) (h : m₀.Balanced .empty)
    (hsys : ∀ l ∈ ls, l.event.isSyscall = true) (hgood : StepsMeet (step p) keepsMessages m₀ ls)
    (hrun : run (step p) m₀ ls = some m) :
    m.Balanced (logOf p m₀ ls) ∧ (logOf p m₀ ls).Numbered := by
  refine (invariant_observe (fun m log => (m.Sound ∧ m.Quiet) ∧ m.Balanced log ∧ log.Numbered) ?_
    ⟨⟨hsound, hq⟩, h, rfl⟩ (stepsMeet_and_of_mem hgood hsys) hrun).2
  rintro m l m' log ⟨⟨hsound, hq⟩, h, hnum⟩ ⟨hgood, hsys⟩ hstep
  obtain ⟨t, hrun⟩ := hsound.runs
  obtain ⟨hen, hexec⟩ := step_eq_some.mp hstep
  obtain ⟨m₁, heff, hsw⟩ := exec_effect hrun hen hexec
  have hframes : m'.frames = m₁.frames := by cases hsw <;> rfl
  refine ⟨⟨step_sound hsound hstep, switch_quiet (effect_quiet hq hsys heff) hsw⟩, ?_,
    note_numbered hnum⟩
  rw [note_congr hframes]
  exact switch_balanced (effect_balanced h hq hsound.parked hrun hen hsys (fun c => (hgood c).2) heff)
    hsw

/-- From any boot configuration, along any run of system calls and crash notifications that
delegates no reply capability and restarts only `Exited` tasks: the messages accepted,
each of them once, are those returned and those in flight; what a task whose outbox is
empty has sent is returned or in the inbox of its receiver; and where no reply capability
was handed out at boot, the only authority naming a caller is the one minted last. -/
theorem messages_conserved {heal : Heal} {ops : List BootOp} (hboot : boot p heal ops = .ok m₀)
    (hsys : ∀ l ∈ ls, l.event.isSyscall = true) (hgood : StepsMeet (step p) keepsMessages m₀ ls)
    (hrun : run (step p) m₀ ls = some m) :
    ((logOf p m₀ ls).accepted : Multiset Item) =
      (logOf p m₀ ls).returned + m.inFlight (logOf p m₀ ls) ∧
    (logOf p m₀ ls).accepted.Nodup ∧
    (∀ x ∈ (logOf p m₀ ls).accepted, m.outbox (logOf p m₀ ls) x.sender = none →
      x ∈ (logOf p m₀ ls).returned ∨ ∃ j, m.inbox (logOf p m₀ ls) j = some x) ∧
    ((∀ slot k c, .grantCap slot k (.reply c) ∉ ops) → ∀ c,
      (m.sched.authorities c).card ≤ 1 ∧
      (¬ m.sched.awaits c → m.sched.authorities c = ∅)) := by
  have hfresh := boot_fresh hboot
  obtain ⟨hbal, hnum⟩ := run_balanced hfresh.sound hfresh.quiet hfresh.balanced hsys hgood hrun
  refine ⟨hbal.account, hnum.nodup, fun x hx hout => ?_, fun hops c => ?_⟩
  · have hmem : x ∈ ((logOf p m₀ ls).accepted : Multiset Item) := hx
    rw [hbal.account, Multiset.mem_add, inFlight, Multiset.mem_sum] at hmem
    obtain hret | ⟨j, -, hj⟩ := hmem
    · exact .inl hret
    · have hbox : m.outbox (logOf p m₀ ls) j = some x ∨ m.inbox (logOf p m₀ ls) j = some x := by
        simpa [inFlightAt] using hj
      obtain hbox | hbox := hbox
      · rw [outbox_sender hbox, hbox] at hout
        cases hout
      · exact .inr ⟨j, hbox⟩
  · refine (run_answerable hfresh.sound (hfresh.answerable fun i t k c ht hc => ?_) hsys
      (stepsMeet_mono (fun m l => keepsMessages.keepsReplies) hgood) hrun).2.authorities c
    obtain ⟨slot, j, hmem⟩ := boot_caps hboot ht hc
    exact hops slot j c hmem

theorem messages_conserved_roundTrip : ∃ m₀ m, boot .sample .empty serverOps = .ok m₀ ∧
    run (step .sample) m₀ roundTrip = some m ∧
    (logOf .sample m₀ roundTrip).accepted.length = 2 ∧
    ((logOf .sample m₀ roundTrip).accepted : Multiset Item) =
      (logOf .sample m₀ roundTrip).returned + m.inFlight (logOf .sample m₀ roundTrip) := by
  obtain ⟨m, hm⟩ := Option.isSome_iff_exists.mp
    (show (runFrom serverOps roundTrip).isSome = true by decide +kernel)
  obtain ⟨m₀, hboot, hrun⟩ := runFrom_eq_some hm
  have heval : (boot .sample .empty serverOps).toOption.all (fun m₀ =>
      decide (StepsMeet (step .sample) keepsMessages m₀ roundTrip) &&
      decide ((logOf .sample m₀ roundTrip).accepted.length = 2)) = true := by decide +kernel
  rw [hboot] at heval
  obtain ⟨hgood, hlen⟩ := Bool.and_eq_true_iff.mp heval
  exact ⟨m₀, m, hboot, hrun, of_decide_eq_true hlen,
    (messages_conserved hboot (by decide) (of_decide_eq_true hgood) hrun).1⟩

end Machine

end Perenne

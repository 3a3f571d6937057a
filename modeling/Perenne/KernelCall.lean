import Perenne.LinearRuns
import Perenne.Provenance

namespace Perenne

/-- How far a kernel task's call has come: made, answered by a reply that returned
`status` to the server, or returned to the task's own code, which is then at `kont`. -/
inductive CallPhase where
  | idle
  | calling
  | answered (msg : Message) (status : Nat)
  | returned (msg : Message) (kont : Kont)
deriving DecidableEq

/-- The phase that belongs to a caller with this kernel stack, state and message. -/
def CallPhase.fits (phase : CallPhase) (kont : Kont) (st : TaskState) (msg : Message) : Prop :=
  match kont with
  | .kernel .callPark | .kernel (.callQueue _) => phase = .calling
  | .kernel .callRead =>
    st.runnable ∧ phase = .answered msg 0 ∨ ¬ st.runnable ∧ phase = .calling
  | _ => phase = .idle ∨ ∃ msg, phase = .returned msg (.kernel (.body (some (.badge msg.badge))))

theorem CallPhase.fits_of_ne {phase : CallPhase} {pc : KernelPc} {st st' : TaskState}
    {msg msg' : Message} (hpc : pc ≠ .callRead) (h : phase.fits (.kernel pc) st msg) :
    phase.fits (.kernel pc) st' msg' := by
  cases pc with
  | callRead => exact absurd rfl hpc
  | _ => exact h

theorem Event.asks_unique {ev : Event} {sys sys' : Syscall} {frame frame' : TrapFrame}
    (h : ev.asks sys frame) (h' : ev.asks sys' frame') : sys' = sys ∧ frame' = frame := by
  obtain ⟨rfl, -, rfl⟩ := h
  obtain ⟨hframe, -, rfl⟩ := h'
  obtain rfl := Event.trap.inj hframe
  exact ⟨rfl, rfl⟩

namespace Machine

open Scheduler Transition

/-- A `reply` through a capability naming `k`. -/
def repliesTo (m : Machine) (k : Slot) : Event → Bool :=
  m.requests .reply fun t frame => t.caps.replyCaller (frame.regs 9) == some k.val

/-- What an observer of `k` notes of a step. -/
def notePhase (k : Slot) (m : Machine) (ev : Event) (m' : Machine) (phase : CallPhase) :
    CallPhase :=
  match ev with
  | .callMessage _ _ => if m.current = k then .calling else phase
  | .finish =>
    match phase with
    | .answered msg _ => if m.current = k then .returned msg (m'.konts k) else phase
    | _ => phase
  | .trap frame =>
    if m.repliesTo k (.trap frame) then
      .answered frame.message ((m'.frames m.current).regs 9)
    else phase
  | _ => phase

/-- The phase of the call of `k` fits what `k` is doing. -/
def Tracks (m : Machine) (k : Slot) (phase : CallPhase) : Prop :=
  ∀ t, m.sched.tasks k = some t → phase.fits (m.konts k) t.state t.message

/-- A task that `spawn` registered. -/
def IsKernel (m : Machine) (k : Slot) : Prop := ∃ r, m.sched.tasks k = some r ∧ r.isUser = false

variable {m m₁ m' : Machine} {t : Task} {ev : Event} {k : Slot} {phase : CallPhase}

theorem IsKernel.kont (h : m.IsKernel k) (hroles : m.Roles) : ∃ pc, m.konts k = .kernel pc := by
  obtain ⟨r, hr, huser⟩ := h
  have hk := hroles k r hr
  rw [huser] at hk
  cases hkont : m.konts k with
  | kernel pc => exact ⟨pc, rfl⟩
  | _ => simp [hkont, Kont.isKernel] at hk

theorem IsKernel.of_static (h : m.IsKernel k)
    (hst : (m'.sched.tasks k).map Task.static = (m.sched.tasks k).map Task.static) :
    m'.IsKernel k := by
  obtain ⟨r, hr, huser⟩ := h
  rw [hr, Option.map_some] at hst
  obtain ⟨r', hr', heq⟩ := Option.map_eq_some_iff.mp hst
  exact ⟨r', hr', (isUser_of_static heq).trans huser⟩

theorem IsKernel.kont_of_awaiting (h : m.IsKernel k) (hs : m.Sound) {r : Task}
    (hr : m.sched.tasks k = some r) (hstate : r.state = .awaitingReply) :
    m.konts k = .kernel .callRead := by
  obtain ⟨pc, hpc⟩ := h.kont hs.roles
  have hfits := hs.parked k r hr
  rw [hpc, hstate] at hfits
  cases pc with
  | callRead => exact hpc
  | _ => simp [Kont.fits, TaskState.runnable] at hfits

theorem effect_of_reply {frame : TrapFrame} {c : Slot} (hask : ev.asks .reply frame)
    (hcap : t.caps.replyCaller (frame.regs 9) = some c.val) (heff : Effect m t ev m₁) :
    (∃ r n, c ≠ m.current ∧ m.sched.tasks c = some r ∧ r.state = .awaitingReply ∧
      m₁ = m.next ((m.sched.set c { r with message := frame.message, state := .ready }).set
          m.current { t with caps := t.caps.clear (frame.regs 9) })
        { frame.setStatus true with sepc := n } (m.konts m.current)) ∨
    ∀ r, m.sched.tasks c = some r → r.state ≠ .awaitingReply := by
  have hother {sys frame'} (hask' : ev.asks sys frame') (hne : sys ≠ .reply) : False :=
    hne (Event.asks_unique hask hask').1
  have hoffered {ep msg caller granted taken queued}
      (hoffer : Offer m t ev ep msg caller granted taken queued) : False := by
    cases hoffer with
    | send hask' => exact hother hask' (by simp)
    | call hask' => exact hother hask' (by simp)
    | grant hask' => exact hother hask' (by simp)
    | callMessage => cases hask.1
  have hkilled {frame' cause} (hev : ev = .trap frame')
      (hcause : killCause frame' = some cause) : False := by
    obtain rfl := Event.trap.inj (hask.1.symm.trans hev)
    simp [killCause, hask.2.1] at hcause
  cases heff with
  | keep _ _ hrefuse _ =>
    have := hrefuse .reply frame hask
    simp [Caps.refuses, hcap] at this
  | @reply _ frame' n c' r hask' hcap' hne hr hstate =>
    obtain ⟨-, rfl⟩ := Event.asks_unique hask hask'
    obtain rfl : c = c' := Fin.ext (Option.some.inj (hcap.symm.trans hcap'))
    exact .inl ⟨r, n, hne, hr, hstate, rfl⟩
  | @replyRefused _ frame' n c' hask' hcap' hstate =>
    obtain ⟨-, rfl⟩ := Event.asks_unique hask hask'
    obtain rfl : c = c' := Fin.ext (Option.some.inj (hcap.symm.trans hcap'))
    exact .inr hstate
  | deliver hoffer => exact (hoffered hoffer).elim
  | enqueue hoffer => exact (hoffered hoffer).elim
  | take hask' => exact (hother hask' (by simp)).elim
  | waitRecv hask' => exact (hother hask' (by simp)).elim
  | waitIrq hask' => exact (hother hask' (by simp)).elim
  | revoke hask' => exact (hother hask' (by simp)).elim
  | relaunch hask' => exact (hother hask' (by simp)).elim
  | exit hask' => exact (hother hask' (by simp)).elim
  | wakeIrq hev =>
    obtain rfl := Event.trap.inj hask.1
    cases hev.symm.trans hask.2.1
  | kill hcause => exact (hkilled rfl hcause).elim
  | crash hcause => exact (hkilled rfl hcause).elim
  | _ => cases hask.1

theorem notePhase_other (hcur : m.current ≠ k) (hrep : m.repliesTo k ev = false) :
    notePhase k m ev m₁ phase = phase := by
  cases ev with
  | trap frame => simp [notePhase, hrep]
  | callMessage idx badge => simp [notePhase, hcur]
  | finish => cases phase <;> simp [notePhase, hcur]
  | _ => rfl

theorem effect_konts_ne (hk : m.IsKernel k) (hne : k ≠ m.current) (heff : Effect m t ev m₁) :
    m₁.konts k = m.konts k := by
  have hnext {s : Scheduler} {f : TrapFrame} {kont : Kont} :
      (m.next s f kont).konts k = m.konts k := (next_konts ..).trans (if_neg hne)
  cases heff with
  | keep => exact hnext (s := m.sched)
  | @relaunch _ _ _ _ target r hask hcap hr hbound huser =>
    refine Function.update_of_ne ?_ _ _
    rintro rfl
    obtain ⟨r', hr', hkernel⟩ := hk
    obtain rfl := Option.some.inj (hr.symm.trans hr')
    simp [huser] at hkernel
  | exit => rfl
  | kill => rfl
  | crash => rfl
  | _ => exact hnext

theorem effect_tracks_other (h : m.Tracks k phase) (hlin : m.LinearAt k) (hk : m.IsKernel k)
    (hs : m.Sound) (hrun : m.Runs t) (hne : k ≠ m.current)
    (hwin : m.repliesTo k ev = true → ¬ m.handsOff k) (heff : Effect m t ev m₁) :
    m₁.Tracks k (notePhase k m ev m₁ phase) := by
  intro t' ht'
  rw [effect_konts_ne hk hne heff]
  obtain ⟨pc, hpc⟩ := hk.kont hs.roles
  by_cases hrep : m.repliesTo k ev = true
  · -- The authority used names `k`, so `k` waits: it is past the window between its sections.
    obtain ⟨u, frame, hu, hask, hcap⟩ := asks_of_requests hrep
    obtain rfl : u = t := Option.some.inj (hu.symm.trans hrun.task)
    have hcap : u.caps.replyCaller (frame.regs 9) = some k.val := by simpa using hcap
    have hlt : frame.regs 9 < capSlots := Caps.capAt_lt (Caps.replyCaller_eq_some.mp hcap)
    have hnamed : m.sched.named (m.current, .cap ⟨frame.regs 9, hlt⟩) = some k.val :=
      (named_of_task hu _).trans hcap
    obtain ⟨r, hr, hawait⟩ := (hlin.awaited hnamed).resolve_left (hwin hrep)
    obtain ⟨r', n, -, hr', -, rfl⟩ | hnot := effect_of_reply hask hcap heff
    · obtain rfl := Option.some.inj (hr.symm.trans hr')
      change ((m.sched.set k _).set m.current _).tasks k = some t' at ht'
      rw [set_tasks_ne _ hne, set_tasks_self] at ht'
      obtain rfl := Option.some.inj ht'
      rw [hk.kont_of_awaiting hs hr hawait]
      obtain ⟨rfl, -⟩ := hask
      refine .inl ⟨.inl rfl, ?_⟩
      simp [notePhase, hrep, next, save, TrapFrame.setStatus]
    · exact absurd hawait (hnot r hr)
  · rw [notePhase_other hne.symm (by simpa using hrep)]
    obtain ⟨r, hr, hch⟩ := effect_change hrun heff ht'
    have hfits := hs.parked k r hr
    have hphase := h r hr
    rw [hpc] at hfits hphase ⊢
    have hstuck {st : TaskState} (hst : r.state = st) (hrun : ¬ st.runnable)
        (hcall : st ≠ .awaitingReply ∧ ∀ ep, st ≠ .blocked ep .call) : pc ≠ .callRead := by
      rintro rfl
      rw [hst] at hfits
      obtain hr | hr | ⟨ep, hr⟩ := hfits
      · exact hrun hr
      · exact hcall.1 hr
      · exact hcall.2 ep hr
    cases hch with
    | same => exact hphase
    | sweep => exact hphase
    | wait hi => exact absurd hi hne
    | queue hi => exact absurd hi hne
    | receive hi => exact absurd hi hne
    | pickUp hi => exact absurd hi hne
    | spend hi => exact absurd hi hne
    | accept _ _ hstate =>
      exact CallPhase.fits_of_ne (hstuck hstate not_runnable_blocked (by simp)) hphase
    | read _ _ hstate => exact CallPhase.fits_of_ne (hstuck hstate not_runnable_blocked (by simp)) hphase
    | interrupt _ _ hstate =>
      exact CallPhase.fits_of_ne (hstuck hstate (by simp [TaskState.runnable]) (by simp)) hphase
    | notify _ _ hstate => exact CallPhase.fits_of_ne (hstuck hstate not_runnable_blocked (by simp)) hphase
    | @taken ep isCall _ _ _ hstate =>
      cases isCall with
      | false => exact CallPhase.fits_of_ne (hstuck hstate not_runnable_blocked (by simp)) hphase
      | true =>
        by_cases hread : pc = .callRead
        · subst hread
          obtain ⟨hrun, -⟩ | ⟨-, rfl⟩ := hphase
          · rw [hstate] at hrun
            exact absurd hrun not_runnable_blocked
          · exact .inr ⟨by simp [TaskState.runnable], rfl⟩
        · exact CallPhase.fits_of_ne hread hphase
    | answer _ hask hcap =>
      refine absurd ?_ hrep
      rw [repliesTo, requests_of_asks hrun hask]
      simpa using hcap
    | relaunch _ huser =>
      obtain ⟨r', hr', hkernel⟩ := hk
      obtain rfl := Option.some.inj (hr.symm.trans hr')
      simp [huser] at hkernel

theorem effect_tracks_self (h : m.Tracks k phase) (hk : m.IsKernel k) (hs : m.Sound)
    (hrun : m.Runs t) (hcur : m.current = k) (hen : m.enabled ev = true)
    (heff : Effect m t ev m₁) : m₁.Tracks k (notePhase k m ev m₁ phase) := by
  subst hcur
  obtain ⟨pc, hpc⟩ := hk.kont hs.roles
  have hphase := h t hrun.task
  have huser {sys frame} (hask : ev.asks sys frame) : False := by
    cases hpc.symm.trans (kont_user_of_asks hen hask)
  have hkill {frame cause} (hev : ev = .trap frame) (hcause : killCause frame = some cause) :
      False := by
    cases hpc.symm.trans (kont_user_of_kill (hev ▸ hen) hcause)
  have hsame (hev : ev.isSyscall = true) : notePhase m.current m ev m₁ phase = phase := by
    cases ev with
    | trap frame =>
      refine if_neg fun hrep => ?_
      obtain ⟨_, _, _, hask, _⟩ := asks_of_requests hrep
      exact huser hask
    | callMessage => cases hev
    | finish => cases hev
    | _ => rfl
  have hnext {s : Scheduler} {f : TrapFrame} {kont : Kont} :
      (m.next s f kont).konts m.current = kont := (next_konts ..).trans (if_pos rfl)
  have htracks {s : Scheduler} {f : TrapFrame} {kont : Kont} {phase' : CallPhase}
      (hfit : ∀ t', s.tasks m.current = some t' → phase'.fits kont t'.state t'.message) :
      (m.next s f kont).Tracks m.current phase' := by
    intro t' ht'
    rw [hnext]
    exact hfit t' ht'
  cases heff with
  | keep _ hsys =>
    rw [hsame hsys]
    refine htracks (s := m.sched) fun t' ht' => ?_
    obtain rfl := Option.some.inj (hrun.task.symm.trans ht')
    exact hphase
  | deliver hoffer =>
    cases hoffer with
    | callMessage => exact htracks fun _ _ => if_pos rfl
    | _ => exact (huser ‹_›).elim
  | enqueue hoffer =>
    cases hoffer with
    | callMessage => exact htracks fun _ _ => if_pos rfl
    | _ => exact (huser ‹_›).elim
  | takeMessage =>
    obtain ⟨ret, hbody⟩ := kont_body_of_recvMessage hen
    rw [hbody] at hphase
    exact htracks fun _ _ => hphase
  | toRecvPark =>
    obtain ⟨ret, hbody⟩ := kont_body_of_recvMessage hen
    rw [hbody] at hphase
    exact htracks fun _ _ => hphase
  | park hpoint =>
    refine htracks fun t' ht' => ?_
    rw [set_tasks_self] at ht'
    obtain rfl := Option.some.inj ht'
    obtain ⟨ep, hkont, rfl, rfl⟩ | ⟨hkont, rfl, rfl⟩ | ⟨ep, hkont, rfl, rfl⟩ :=
      parkPoint_eq_some hpoint <;> rw [hkont] at hphase
    · exact hphase
    · exact .inr ⟨by simp [TaskState.runnable], hphase⟩
    · exact .inr ⟨not_runnable_blocked, hphase⟩
  | finish =>
    refine htracks fun t' _ => ?_
    by_cases hread : m.konts m.current = .kernel .callRead
    · rw [hread] at hphase
      obtain ⟨-, rfl⟩ | ⟨hnot, -⟩ := hphase
      · refine .inr ⟨t.message, ?_⟩
        simp only [notePhase, if_pos, hnext, hread]
      · exact absurd hrun.runnable hnot
    · have hrecv : m.konts m.current = .kernel .recvRead := by
        rw [enabled, hpc] at hen
        cases pc with
        | recvRead => exact hpc
        | callRead => exact absurd hpc hread
        | _ => cases hen
      rw [hrecv] at hphase
      obtain rfl | ⟨msg, rfl⟩ := hphase
      · exact .inl rfl
      · exact .inr ⟨msg, rfl⟩
  | @wakeIrq irq frame i r hev hr hwait =>
    have hi : m.current ≠ i := by
      rintro rfl
      obtain rfl := Option.some.inj (hrun.task.symm.trans hr)
      simpa [hwait, TaskState.runnable] using hrun.runnable
    rw [hsame rfl]
    refine htracks fun t' ht' => ?_
    rw [set_tasks_ne _ hi] at ht'
    obtain rfl := Option.some.inj (hrun.task.symm.trans ht')
    exact hphase
  | take hask => exact (huser hask).elim
  | waitRecv hask => exact (huser hask).elim
  | waitIrq hask => exact (huser hask).elim
  | reply hask => exact (huser hask).elim
  | replyRefused hask => exact (huser hask).elim
  | revoke hask => exact (huser hask).elim
  | relaunch hask => exact (huser hask).elim
  | exit hask => exact (huser hask).elim
  | pickUp hkont => cases hpc.symm.trans hkont
  | callReturn hkont => cases hpc.symm.trans hkont
  | settle hkont => obtain hkont | hkont := hkont <;> cases hpc.symm.trans hkont
  | kill hcause => exact (hkill rfl hcause).elim
  | crash hcause => exact (hkill rfl hcause).elim

theorem switch_tracks (h : m.Tracks k phase) (hsw : Switch m m') : m'.Tracks k phase := by
  intro t' ht'
  obtain ⟨t, ht, heq, hst⟩ := hsw.task ht'
  have hkont : m'.konts = m.konts := by cases hsw <;> rfl
  have hphase := h t ht
  have hmsg : t'.message = t.message := by rw [heq]
  rw [hkont, hmsg]
  obtain hst | ⟨hst, hst'⟩ := hst
  · exact hst ▸ hphase
  · unfold CallPhase.fits at hphase ⊢
    split at hphase
    · exact hphase
    · exact hphase
    · obtain ⟨-, hphase⟩ | ⟨hnot, -⟩ := hphase
      · exact .inl ⟨hst', hphase⟩
      · exact absurd hst hnot
    · exact hphase

variable {p : Platform} {m₀ : Machine} {ls : List Label}

/-- The step neither delegates the authority to answer `k` nor uses it before `k`, which
has handed its request over, waits for the reply. -/
def answersInTime (k : Slot) (m : Machine) (l : Label) : Prop :=
  m.grantsReply k l.event = false ∧ ¬ (m.repliesTo k l.event = true ∧ m.handsOff k)

instance (k : Slot) (m : Machine) (l : Label) : Decidable (answersInTime k m l) :=
  inferInstanceAs (Decidable (_ ∧ ¬ (_ ∧ m.konts k = _)))

/-- The phase of the call of `k` at the end of a run. -/
def phaseOf (p : Platform) (k : Slot) (m₀ : Machine) (ls : List Label) : CallPhase :=
  observe (step p) (fun m l m' phase => notePhase k m l.event m' phase) m₀ .idle ls

theorem IsKernel.not_restarted (hk : m.IsKernel k) : m.restartsAwaited k ev = false := by
  refine Bool.eq_false_iff.mpr fun h => ?_
  obtain ⟨_, _, _, _, hcheck⟩ := asks_of_requests h
  obtain ⟨r, hr, huser⟩ := hk
  simp [hr, huser] at hcheck

theorem step_tracks {l : Label}
    (h : m.Tracks k phase ∧ m.LinearAt k ∧ m.IsKernel k ∧ m.Sound) (hgood : answersInTime k m l)
    (hstep : m.step p l = some m') :
    m'.Tracks k (notePhase k m l.event m' phase) ∧ m'.LinearAt k ∧ m'.IsKernel k ∧ m'.Sound := by
  obtain ⟨h, hlin, hk, hs⟩ := h
  obtain ⟨hgrant, hwin⟩ := hgood
  obtain ⟨t, hrun⟩ := hs.runs
  obtain ⟨hen, hexec⟩ := step_eq_some.mp hstep
  obtain ⟨m₁, heff, hsw⟩ := exec_effect hrun hen hexec
  have hnote : notePhase k m l.event m' phase = notePhase k m l.event m₁ phase := by
    cases hsw <;> rfl
  refine ⟨?_, ?_, ?_, step_sound hs hstep⟩
  · rw [hnote]
    refine switch_tracks ?_ hsw
    by_cases hcur : k = m.current
    · exact effect_tracks_self h hk hs hrun hcur.symm hen heff
    · exact effect_tracks_other h hlin hk hs hrun hcur (fun hrep hoff => hwin ⟨hrep, hoff⟩) heff
  · exact switch_linear
      (effect_linear hlin hs.parked hs.roles hrun hen hgrant hk.not_restarted heff) hsw
  · exact hk.of_static ((switch_static hsw k).trans (effect_static hrun heff k))

/-- From any boot configuration that hands out no reply capability, along any run of all
tasks in which the authority to answer the kernel task `k` is neither delegated nor used
before `k` waits: a reply to `k` returned 0 and left `k` runnable with exactly its message,
`call_message` then returns its badge, and `k` never waits unanswerable for a reply that
was already given. -/
theorem call_answered {heal : Heal} {ops : List BootOp} (hboot : boot p heal ops = .ok m₀)
    (hops : ∀ slot j c, .grantCap slot j (.reply c) ∉ ops) (hk : m₀.IsKernel k)
    (hgood : StepsMeet (step p) (answersInTime k) m₀ ls)
    (hrun : run (step p) m₀ ls = some m) :
    (∀ msg status, phaseOf p k m₀ ls = .answered msg status → status = 0 ∧
      m.konts k = .kernel .callRead ∧
      ∃ t, m.sched.tasks k = some t ∧ t.state.runnable ∧ t.message = msg) ∧
    (∀ msg kont, phaseOf p k m₀ ls = .returned msg kont →
      kont = .kernel (.body (some (.badge msg.badge)))) ∧
    (m.sched.awaits k → phaseOf p k m₀ ls = .calling) := by
  have hfresh := boot_fresh hboot
  have hstart : m₀.Tracks k .idle := by
    intro t ht
    rw [hfresh.kont]
    split <;> exact .inl rfl
  have hlin := (hfresh.answerable fun i t j c ht hc => by
    obtain ⟨slot, j, hmem⟩ := boot_caps hboot ht hc
    exact hops slot j c hmem).2 k
  obtain ⟨htracks, -, hk, hs⟩ := invariant_observe
    (fun m phase => m.Tracks k phase ∧ m.LinearAt k ∧ m.IsKernel k ∧ m.Sound)
    (fun m l m' phase h hgood hstep => step_tracks h hgood hstep)
    ⟨hstart, hlin, hk, hfresh.sound⟩ hgood hrun
  obtain ⟨pc, hpc⟩ := hk.kont hs.roles
  obtain ⟨t, ht, -⟩ := id hk
  have hphase : (phaseOf p k m₀ ls).fits (m.konts k) t.state t.message := htracks t ht
  rw [hpc] at hphase ⊢
  refine ⟨fun msg status heq => ?_, fun msg kont heq => ?_, fun hawait => ?_⟩
  · rw [heq] at hphase
    cases pc with
    | callRead =>
      obtain ⟨hst, hmsg⟩ | ⟨-, hmsg⟩ := hphase
      · obtain ⟨rfl, rfl⟩ := CallPhase.answered.inj hmsg
        exact ⟨rfl, rfl, t, ht, hst, rfl⟩
      · cases hmsg
    | callPark => cases hphase
    | callQueue => cases hphase
    | _ => obtain hphase | ⟨_, hphase⟩ := hphase <;> cases hphase
  · rw [heq] at hphase
    cases pc with
    | callRead => obtain ⟨-, hmsg⟩ | ⟨-, hmsg⟩ := hphase <;> cases hmsg
    | callPark => cases hphase
    | callQueue => cases hphase
    | _ =>
      obtain hphase | ⟨msg', hphase⟩ := hphase <;> cases hphase
      rfl
  · obtain ⟨t', ht', hstate⟩ := hawait
    obtain rfl := Option.some.inj (ht.symm.trans ht')
    rw [Kont.kernel.inj (hpc.symm.trans (hk.kont_of_awaiting hs ht hstate)), hstate] at hphase
    obtain ⟨hst, -⟩ | ⟨-, hphase⟩ := hphase
    · simp [TaskState.runnable] at hst
    · exact hphase

/-- A server, a kernel task that calls it on endpoint 0, and the idle task. -/
def kernelClientOps : List BootOp :=
  [.spawnUser "server" 0x80400000 0x80601000 0x80300000 0 0, .grantCap 0 0 (.endpoint 0),
    .spawn "kernel" 0x80200300 0x80310000, .grantCap 1 0 (.endpoint 0),
    .spawn "idle" 0x80200300 0x80320000]

/-- The kernel task parks before the server answers. -/
def kernelRoundTrip : List Label :=
  [.ecall 5 [0, 1], .of (.callMessage 0 7), .of .park, .tick, .resume, .ecall 8 [1, 9], .tickUser]

theorem call_answered_roundTrip : ∃ m₀ m, boot .sample .empty kernelClientOps = .ok m₀ ∧
    run (step .sample) m₀ kernelRoundTrip = some m ∧
    phaseOf .sample 1 m₀ kernelRoundTrip = .answered ⟨9, 0, 0, 0⟩ 0 ∧
    ∃ t, m.sched.tasks 1 = some t ∧ t.state.runnable ∧ t.message = ⟨9, 0, 0, 0⟩ := by
  obtain ⟨m, hm⟩ := Option.isSome_iff_exists.mp
    (show (runFrom kernelClientOps kernelRoundTrip).isSome = true by decide +kernel)
  obtain ⟨m₀, hboot, hrun⟩ := runFrom_eq_some hm
  have heval : (boot .sample .empty kernelClientOps).toOption.all (fun m₀ =>
      decide (StepsMeet (step .sample) (answersInTime 1) m₀ kernelRoundTrip) &&
      decide (phaseOf .sample 1 m₀ kernelRoundTrip = .answered ⟨9, 0, 0, 0⟩ 0) &&
      (m₀.sched.tasks 1).any (fun t => !t.isUser)) = true := by decide +kernel
  rw [hboot] at heval
  simp only [Except.toOption, Option.all_some, Bool.and_eq_true, decide_eq_true_eq,
    Option.any_eq_true, Bool.not_eq_true'] at heval
  obtain ⟨⟨hgood, hphase⟩, hkernel⟩ := heval
  obtain ⟨-, -, hanswered⟩ := (call_answered hboot (by simp [kernelClientOps]) hkernel hgood
    hrun).1 _ _ hphase
  exact ⟨m₀, m, hboot, hrun, hphase, hanswered⟩

/-- The timer interrupts the kernel task between its two sections: the server's reply is
refused and its capability spent, and the kernel task then waits for a reply that nobody
can give any more. -/
theorem call_unanswered : ∃ m₀ ls m, boot .sample .empty kernelClientOps = .ok m₀ ∧
    run (step .sample) m₀ ls = some m ∧ m₀.IsKernel 1 ∧
    phaseOf .sample 1 m₀ ls = .answered ⟨9, 0, 0, 0⟩ usizeMax ∧
    m.sched.awaits 1 ∧ m.sched.authorities 1 = ∅ := by
  let ls : List Label :=
    [.ecall 5 [0, 1], .of (.callMessage 0 7), .tick, .tick, .resume, .ecall 8 [1, 9], .tickUser,
      .of .park]
  have heval : (boot .sample .empty kernelClientOps).toOption.any (fun m₀ =>
      (run (step .sample) m₀ ls).any (fun m =>
        (m.sched.tasks 1).any (fun t => t.state == .awaitingReply) &&
        decide (m.sched.authorities 1 = ∅)) &&
      decide (phaseOf .sample 1 m₀ ls = .answered ⟨9, 0, 0, 0⟩ usizeMax) &&
      (m₀.sched.tasks 1).any (fun t => !t.isUser)) = true := by decide +kernel
  simp only [Option.any_eq_true, Bool.and_eq_true, decide_eq_true_eq, beq_iff_eq,
    Bool.not_eq_true'] at heval
  obtain ⟨m₀, hboot, ⟨⟨m, hrun, hawait, hnone⟩, hphase⟩, hkernel⟩ := heval
  exact ⟨m₀, ls, m, Except.toOption_eq_some_iff.mp hboot, hrun, hkernel, hphase, hawait, hnone⟩

end Machine

end Perenne

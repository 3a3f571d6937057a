import Perenne.Machine

namespace Perenne

/-- `Ready` or `Running`. -/
def TaskState.runnable (st : TaskState) : Prop := st = .ready ∨ st = .running

/-- The trap is the system call `call`, made with these registers. -/
def Event.asks (ev : Event) (sys : Syscall) (frame : TrapFrame) : Prop :=
  ev = .trap frame ∧ decode frame.scause = .userEcall ∧ decodeSyscall (frame.regs 16) = sys

/-- Every event but the IPC of kernel tasks. -/
def Event.isSyscall : Event → Bool
  | .recvMessage _ | .callMessage _ _ | .park | .finish => false
  | _ => true

/-- The system call fails its capability check, or needs none. -/
def Caps.refuses (caps : Caps) (frame : TrapFrame) : Syscall → Prop
  | .send | .call | .recv | .revoke => caps.capLookup (frame.regs 9) = none
  | .grant => caps.capLookup (frame.regs 9) = none ∨ caps.capAt (frame.regs 10) = none
  | .reply => caps.replyCaller (frame.regs 9) = none
  | .exit => False
  | _ => True

/-- The capabilities a receiver ends up with: the reply capability of a call, then the
granted one, in the slot it named. -/
def Caps.receive (caps : Caps) (slot : Nat) (caller : Option Nat) (granted : Option Capability) :
    Caps :=
  let caps := caller.elim caps fun c => caps.install slot (.reply c)
  granted.elim caps fun cap => caps.install slot cap

theorem Caps.capAt_receive_cases {caps : Caps} {slot k : Nat} {caller : Option Nat}
    {granted : Option Capability} {cap : Capability}
    (h : (caps.receive slot caller granted).capAt k = some cap) :
    (∃ c, caller = some c ∧ cap = .reply c) ∨ granted = some cap ∨ caps.capAt k = some cap := by
  have hminted : (caps.receive slot caller none).capAt k = some cap →
      (∃ c, caller = some c ∧ cap = .reply c) ∨ caps.capAt k = some cap := by
    intro h
    cases caller with
    | none => exact .inr h
    | some c => exact (capAt_install_cases h).imp (fun hc => ⟨c, rfl, hc⟩) id
  cases granted with
  | none => exact (hminted h).imp_right .inr
  | some g =>
    obtain rfl | hold := capAt_install_cases h
    · exact .inr (.inl rfl)
    · exact (hminted hold).imp_right .inr

/-- The receiver of a message: its inbox is filled, the caller to answer and the grant it
carries are noted, and it is ready. -/
def Task.accept (r : Task) (msg : Message) (caller : Option Nat) (granted : Option Capability) :
    Task :=
  { r with message := msg, caller := caller.or r.caller,
           pendingGrant := granted.or r.pendingGrant, state := .ready }

namespace Machine

/-- The current slot is occupied by `t`, which can run. -/
structure Runs (m : Machine) (t : Task) : Prop where
  task : m.sched.tasks m.current = some t
  runnable : t.state.runnable

/-- The causes a U-mode task is killed for. -/
def killCause (frame : TrapFrame) : Option Cause :=
  match decode frame.scause with
  | .instructionPageFault => some .instructionPageFault
  | .loadPageFault => some .loadPageFault
  | .illegalInstruction => some .illegalInstruction
  | .storePageFault => some .storePageFault
  | _ => none

/-- The healer a crash with this cause is reported to. -/
def notified (m : Machine) (t : Task) (cause : Cause) : Option Slot :=
  if t.relaunch.isSome && !(m.heal.onCrash cause).2 then m.sched.findBlocked crashEp .recv
  else none

/-- The current task's kernel stack and the task array are replaced. -/
def next (m : Machine) (sched : Scheduler) (frame : TrapFrame) (kont : Kont) : Machine :=
  { m.save frame kont with sched }

end Machine

/-- An accepted request to pass a message on an endpoint: who asks for what, the
continuation and state of the asker once a receiver took it, and while it is queued. -/
inductive Offer (m : Machine) (t : Task) : Event → EndpointId → Message → Option Nat →
    Option Capability → TaskState × Kont → TaskState × Kont → Prop
  | send {ev frame ep} (hask : Event.asks ev .send frame)
      (hcap : t.caps.capLookup (frame.regs 9) = some ep) :
      Offer m t ev ep frame.message none none (t.state, m.konts m.current)
        (.blocked ep .send, .send)
  | call {ev frame ep} (hask : Event.asks ev .call frame)
      (hcap : t.caps.capLookup (frame.regs 9) = some ep) :
      Offer m t ev ep frame.message (some m.current) none (.awaitingReply, .call)
        (.blocked ep .call, .call)
  | grant {ev frame ep cap} (hask : Event.asks ev .grant frame)
      (hcap : t.caps.capLookup (frame.regs 9) = some ep)
      (hsrc : t.caps.capAt (frame.regs 10) = some cap) :
      Offer m t ev ep ⟨frame.regs 11, 0, 0, 0⟩ none (some cap) (t.state, m.konts m.current)
        (.blocked ep .send, .send)
  | callMessage {idx badge ep} (hcap : t.caps.capLookup idx = some ep) :
      Offer m t (.callMessage idx badge) ep ⟨badge, 0, 0, 0⟩ (some m.current) none
        (t.state, .kernel .callPark) (t.state, .kernel (.callQueue ep))

/-- What a step does to the tasks involved, before the switch. -/
inductive Effect (m : Machine) (t : Task) : Event → Machine → Prop
  | keep {ev frame heal wx pool} (hev : ev ≠ .resume) (hsys : ev.isSyscall = true)
      (hrefuse : ∀ sys frame, ev.asks sys frame → t.caps.refuses frame sys)
      (hkill : ∀ frame, ev = .trap frame → Machine.killCause frame = none) :
      Effect m t ev { m.next m.sched frame (m.konts m.current) with
        heal, expectingWxFault := wx, poolInUse := pool }
  | deliver {ev ep msg caller granted taken queued frame} {ri : Slot} {r : Task}
      (hoffer : Offer m t ev ep msg caller granted taken queued)
      (hfind : m.sched.findBlocked ep .recv = some ri) (hne : ri ≠ m.current)
      (hr : m.sched.tasks ri = some r) (hstate : r.state = .blocked ep .recv) :
      Effect m t ev (m.next ((m.sched.set ri (r.accept msg caller granted)).set m.current
        { t with state := taken.1 }) frame taken.2)
  | enqueue {ev ep msg caller granted taken queued f}
      (hoffer : Offer m t ev ep msg caller granted taken queued)
      (hfind : m.sched.findBlocked ep .recv = none) :
      Effect m t ev (m.next (m.sched.set m.current
        { t with message := msg, pendingGrant := granted.or t.pendingGrant,
                 state := queued.1 }) f queued.2)
  | take {ev frame ep n} {si : Slot} {r : Task} {isCall : Bool}
      (hask : Event.asks ev .recv frame) (hcap : t.caps.capLookup (frame.regs 9) = some ep)
      (hfind : m.sched.waitingSender ep = some (si, isCall)) (hne : si ≠ m.current)
      (hr : m.sched.tasks si = some r)
      (hstate : r.state = .blocked ep (cond isCall .call .send)) :
      Effect m t ev (m.next ((m.sched.set si
          { r with pendingGrant := none, state := cond isCall .awaitingReply .ready }).set
        m.current
          { t with caps :=
              t.caps.receive (frame.regs 10) (cond isCall (some si.val) none) r.pendingGrant })
        { writeMessage frame r.message with sepc := n } (m.konts m.current))
  | takeMessage {idx ep frame} {si : Slot} {r : Task}
      (hcap : t.caps.capLookup idx = some ep)
      (hne : si ≠ m.current) (hr : m.sched.tasks si = some r)
      (hstate : r.state = .blocked ep .send) (hfind : m.sched.findBlocked ep .send = some si) :
      Effect m t (.recvMessage idx) (m.next (m.sched.set si { r with state := .ready }) frame
        (.kernel (.body (some (.message r.message)))))
  | waitRecv {ev frame ep} (hask : Event.asks ev .recv frame)
      (hcap : t.caps.capLookup (frame.regs 9) = some ep)
      (hfind : m.sched.waitingSender ep = none) :
      Effect m t ev (m.next (m.sched.set m.current { t with state := .blocked ep .recv }) frame
        (.recv ep (frame.regs 10)))
  | waitIrq {ev frame irq} (hask : Event.asks ev .waitIrq frame)
      (hcap : t.caps.interruptIrq (frame.regs 9) = some irq) :
      Effect m t ev (m.next (m.sched.set m.current { t with state := .waitingIrq irq }) frame .irq)
  | toRecvPark {idx ep frame} (hcap : t.caps.capLookup idx = some ep) :
      Effect m t (.recvMessage idx) (m.next m.sched frame (.kernel (.recvPark ep)))
  | park {state pc frame} (hpoint : Machine.parkPoint (m.konts m.current) = some (state, pc)) :
      Effect m t .park (m.next (m.sched.set m.current { t with state }) frame (.kernel pc))
  | pickUp {ep slot sepc} (hkont : m.konts m.current = .recv ep slot) :
      Effect m t .resume (m.next (m.sched.set m.current
          { t with caps := t.caps.receive slot t.caller t.pendingGrant,
                   caller := none, pendingGrant := none })
        { writeMessage (m.frames m.current) t.message with sepc } .user)
  | callReturn {sepc} (hkont : m.konts m.current = .call) :
      Effect m t .resume (m.next m.sched
        { writeMessage (m.frames m.current) t.message with sepc } .user)
  | settle {frame} (hkont : m.konts m.current = .send ∨ m.konts m.current = .irq) :
      Effect m t .resume (m.next m.sched frame .user)
  | finish {f} :
      Effect m t .finish (m.next m.sched f (.kernel (.body (some
        (if m.konts m.current = .kernel .callRead then .badge t.message.badge
         else .message t.message)))))
  | reply {ev frame n} {c : Slot} {r : Task} (hask : Event.asks ev .reply frame)
      (hcap : t.caps.replyCaller (frame.regs 9) = some c.val) (hne : c ≠ m.current)
      (hr : m.sched.tasks c = some r) (hstate : r.state = .awaitingReply) :
      Effect m t ev (m.next ((m.sched.set c { r with message := frame.message, state := .ready }).set
          m.current { t with caps := t.caps.clear (frame.regs 9) })
        { frame.setStatus true with sepc := n } (m.konts m.current))
  | replyRefused {ev frame n} {c : Slot} (hask : Event.asks ev .reply frame)
      (hcap : t.caps.replyCaller (frame.regs 9) = some c.val)
      (hstate : ∀ r, m.sched.tasks c = some r → r.state ≠ .awaitingReply) :
      Effect m t ev (m.next (m.sched.set m.current { t with caps := t.caps.clear (frame.regs 9) })
        { frame.setStatus false with sepc := n } (m.konts m.current))
  | revoke {ev frame ep n} (hask : Event.asks ev .revoke frame)
      (hcap : t.caps.capLookup (frame.regs 9) = some ep) :
      Effect m t ev (m.next (m.sched.revokeEndpoint ep m.current).1
        { frame.setReg 9 (m.sched.revokeEndpoint ep m.current).2 with sepc := n }
        (m.konts m.current))
  | relaunch {ev frame frame' context} {target : Slot} {r : Task}
      (hask : Event.asks ev .restart frame)
      (hcap : t.caps.restartTarget (frame.regs 9) = some target.val)
      (hr : m.sched.tasks target = some r) (hbound : canRestart r.restarts maxRestarts = true)
      (huser : r.isUser = true) :
      Effect m t ev { m.next (m.sched.set target
          { r with context, restarts := r.restarts + 1, state := .ready }) frame'
          (m.konts m.current) with
        konts := Function.update m.konts target .user }
  | wakeIrq {irq frame} {i : Slot} {r : Task} (hev : decode frame.scause = .supervisorExternal)
      (hr : m.sched.tasks i = some r) (hstate : r.state = .waitingIrq irq) :
      Effect m t (.trap frame) (m.next (m.sched.set i { r with state := .ready }) frame (m.konts m.current))
  | exit {ev frame heal} (hask : Event.asks ev .exit frame) :
      Effect m t ev { m with sched := m.sched.set m.current { t with state := .exited }, heal }
  | kill {frame cause heal} (hcause : Machine.killCause frame = some cause)
      (hquiet : m.notified t cause = none) :
      Effect m t (.trap frame) { m with sched := m.sched.set m.current { t with state := .exited }, heal }
  | crash {frame cause heal} {h : Slot} {r : Task}
      (hcause : Machine.killCause frame = some cause)
      (hnotify : m.notified t cause = some h) (hne : h ≠ m.current)
      (hr : m.sched.tasks h = some r) (hstate : r.state = .blocked crashEp .recv) :
      Effect m t (.trap frame) { m with
        sched := (m.sched.set h { r with message := ⟨t.crashBadge, 0, 0, 0⟩, state := .ready }).set
          m.current { t with state := .exited }
        heal }

theorem Effect.keep_next {m : Machine} {t : Task} {ev : Event} {frame : TrapFrame}
    (hev : ev ≠ .resume) (hsys : ev.isSyscall = true)
    (hrefuse : ∀ sys frame, ev.asks sys frame → t.caps.refuses frame sys)
    (hkill : ∀ frame, ev = .trap frame → Machine.killCause frame = none) :
    Effect m t ev (m.next m.sched frame (m.konts m.current)) :=
  .keep hev hsys hrefuse hkill

/-- The switch that ends a step: none, if the current task can still run, or a `Ready`
task runs and the one before it keeps its state, unless it yielded and is `Ready` again. -/
inductive Switch (m : Machine) : Machine → Prop
  | stay {t} (hrun : m.Runs t) : Switch m m
  | swap {live next u t state} (ht : m.sched.tasks m.current = some t) (hne : next ≠ m.current)
      (hu : m.sched.tasks next = some u) (hready : u.state = .ready)
      (hstate : state = t.state ∧ ¬ t.state.runnable ∨ t.state.runnable ∧ state = .ready) :
      Switch m { m with sched := m.sched.handOver live { t with state } next u }

/-- A whole step: an effect, then a switch. -/
def Stepped (m : Machine) (t : Task) (ev : Event) (m' : Machine) : Prop :=
  ∃ m₁, Effect m t ev m₁ ∧ Switch m₁ m'

theorem Switch.runs {m m' : Machine} (h : Switch m m') : ∃ t, m'.Runs t := by
  cases h with
  | stay hrun => exact ⟨_, hrun⟩
  | swap ht hne hu hready hstate =>
    exact ⟨_, (Scheduler.handOver_tasks ..).trans (if_pos rfl), .inr rfl⟩

theorem Switch.task {m m' : Machine} (h : Switch m m') {i : Slot} {t' : Task}
    (ht' : m'.sched.tasks i = some t') :
    ∃ t, m.sched.tasks i = some t ∧
      t' = { t with context := t'.context, state := t'.state } ∧
      (t'.state = t.state ∨ t.state.runnable ∧ t'.state.runnable) := by
  cases h with
  | stay hrun => exact ⟨t', ht', rfl, .inl rfl⟩
  | @swap live next u t state ht hne hu hready hstate =>
    rw [Scheduler.handOver_tasks] at ht'
    split at ht'
    case isTrue hi =>
      obtain rfl := Option.some.inj ht'
      exact ⟨u, hi ▸ hu, rfl, .inr ⟨.inl hready, .inr rfl⟩⟩
    case isFalse hi =>
      split at ht'
      case isTrue hcur =>
        obtain rfl := Option.some.inj ht'
        refine ⟨t, hcur ▸ ht, rfl, ?_⟩
        obtain ⟨rfl, -⟩ | ⟨hrun, rfl⟩ := hstate
        · exact .inl rfl
        · exact .inr ⟨hrun, .inl rfl⟩
      case isFalse => exact ⟨t', ht', rfl, .inl rfl⟩

theorem Switch.context {m m' : Machine} (h : Switch m m') {i : Slot} {t t' : Task}
    (ht : m.sched.tasks i = some t) (ht' : m'.sched.tasks i = some t') (hi : i ≠ m.current) :
    t'.context = t.context := by
  cases h with
  | stay hrun => exact congrArg Task.context (Option.some.inj (ht'.symm.trans ht))
  | swap ht₀ hne hu hready hstate =>
    rw [Scheduler.handOver_tasks] at ht'
    split at ht'
    case isTrue hnext =>
      subst hnext
      obtain rfl := Option.some.inj (hu.symm.trans ht)
      obtain rfl := Option.some.inj ht'
      rfl
    case isFalse =>
      rw [if_neg (by exact hi)] at ht'
      exact congrArg Task.context (Option.some.inj (ht'.symm.trans ht))

theorem Effect.current {m m₁ : Machine} {t : Task} {ev : Event} (h : Effect m t ev m₁) :
    m₁.current = m.current := by
  cases h <;> rfl

theorem Switch.exists_task {m m' : Machine} (h : Switch m m') {i : Slot} {t : Task}
    (ht : m.sched.tasks i = some t) :
    ∃ t', m'.sched.tasks i = some t' ∧
      t' = { t with context := t'.context, state := t'.state } ∧
      (t'.state = t.state ∨ t.state.runnable ∧ t'.state.runnable) := by
  have hsome : ∃ t', m'.sched.tasks i = some t' := by
    cases h with
    | stay hrun => exact ⟨t, ht⟩
    | swap ht₀ hne hu hready hstate =>
      rw [Scheduler.handOver_tasks]
      split
      · exact ⟨_, rfl⟩
      · split
        · exact ⟨_, rfl⟩
        · exact ⟨t, ht⟩
  obtain ⟨t', ht'⟩ := hsome
  obtain ⟨u, hu, hsame⟩ := h.task ht'
  obtain rfl := Option.some.inj (ht.symm.trans hu)
  exact ⟨t', ht', hsame⟩

end Perenne

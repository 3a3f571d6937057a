import Perenne.Channel
import Perenne.Kmain
import Perenne.Trace

namespace Perenne

/-- `ChaCha20Rng::from_seed` and `fill_bytes`. -/
structure Csprng (R : Type) where
  fromSeed : Bytes 32 → R
  fillBytes : R → (n : Nat) → Bytes n × R

/-- `rand_chacha`'s `ChaCha20Rng`: its key, and how many words of the keystream are used. -/
structure ChaCha20Rng where
  key : Bytes 32
  used : Nat

namespace ChaCha20Rng

abbrev Words := Vector UInt32 16

def rotl (x : UInt32) (n : UInt32) : UInt32 := (x <<< n) ||| (x >>> (32 - n))

def quarterRound (w : Words) (a b c d : Fin 16) : Words :=
  let half (w : Words) (r s : UInt32) : Words :=
    let w := w.set a (w[a] + w[b])
    let w := w.set d (rotl (w[d] ^^^ w[a]) r)
    let w := w.set c (w[c] + w[d])
    w.set b (rotl (w[b] ^^^ w[c]) s)
  half (half w 16 12) 8 7

/-- A column round and a diagonal round. -/
def doubleRound (w : Words) : Words :=
  let w := [0, 1, 2, 3].foldl (fun w i => quarterRound w i (i + 4) (i + 8) (i + 12)) w
  let w := quarterRound w 0 5 10 15
  let w := quarterRound w 1 6 11 12
  let w := quarterRound w 2 7 8 13
  quarterRound w 3 4 9 14

/-- The constants, the key, the block counter and the stream number, which is 0. -/
def initial (key : Bytes 32) (counter : Nat) : Words :=
  .ofFn fun i =>
    if i < 4 then [0x61707865, 0x3320646e, 0x79622d32, 0x6b206574].getD i 0
    else if i < 12 then .ofNat (bytesWord ((key.list.drop (4 * (i.val - 4))).take 4))
    else if i < 14 then .ofNat (counter / 2 ^ (32 * (i.val - 12)))
    else 0

def block (key : Bytes 32) (counter : Nat) : Words :=
  let w := initial key counter
  .zipWith (· + ·) ((List.range 10).foldl (fun w _ => doubleRound w) w) w

/-- The byte of the keystream at `i`. -/
def keystream (key : Bytes 32) (i : Nat) : UInt8 :=
  (((block key (i / 64)).toList.getD (i / 4 % 16) 0) >>> (.ofNat (8 * (i % 4)))).toUInt8

/-- `fill_bytes` takes whole words. -/
def csprng : Csprng ChaCha20Rng where
  fromSeed key := ⟨key, 0⟩
  fillBytes r n :=
    (⟨(List.range n).map fun i => keystream r.key (4 * r.used + i), by simp⟩,
      { r with used := r.used + (n + 3) / 4 })

end ChaCha20Rng

/-- The pool; `none` until it is first seeded. -/
structure EntropyPool (R : Type) where
  rng : Option R

namespace EntropyPool

variable {R : Type} (gen : Csprng R)

def new : EntropyPool R := ⟨none⟩

/-- `mixed[i] = cur[i] ^ bytes[i]`. -/
def mix {n : Nat} (cur bytes : Bytes n) : Bytes n where
  list := List.zipWith (· ^^^ ·) cur.list bytes.list
  size := by rw [List.length_zipWith, cur.size, bytes.size, Nat.min_self]

def reseed (pool : EntropyPool R) (bytes : Bytes 32) : EntropyPool R :=
  match pool.rng with
  | none => ⟨some (gen.fromSeed bytes)⟩
  | some rng => ⟨some (gen.fromSeed (mix (gen.fillBytes rng 32).1 bytes))⟩

/-- `fill`, for an output of `n` bytes. -/
def fill (pool : EntropyPool R) (n : Nat) : Bytes n × EntropyPool R :=
  match pool.rng with
  | some rng => ((gen.fillBytes rng n).1, ⟨some (gen.fillBytes rng n).2⟩)
  | none => (.pad n [], pool)

def nextSeed (pool : EntropyPool R) : Bytes 32 × EntropyPool R := pool.fill gen 32

@[simp] theorem reseed_isSome (pool : EntropyPool R) (bytes : Bytes 32) :
    (pool.reseed gen bytes).rng.isSome = true := by
  unfold reseed
  split <;> rfl

@[simp] theorem nextSeed_isSome (pool : EntropyPool R) :
    (pool.nextSeed gen).2.rng.isSome = pool.rng.isSome := by
  unfold nextSeed fill
  split
  · simp [*]
  · rfl

end EntropyPool

/-- `seed_from_message`. -/
def seedFromMessage (m : Message) : Bytes 32 where
  list := [m.badge, m.data.1, m.data.2.1, m.data.2.2].flatMap fun w => (wordBytes w).list
  size := by simp [Bytes.size]

/-- The words `getrandom` puts in `a1`..`a4`. -/
def seedWords (bytes : Bytes 32) : Nat × Nat × Nat × Nat :=
  let word (i : Nat) : Nat := bytesWord ((bytes.list.drop i).take 8)
  (word 0, word 8, word 16, word 24)

/-- Where `pqc_consumer` is: before one of its calls of `recv_message`, before it folds in the
message that call returned, before one of its three draws, or in its final loop. -/
inductive Consumer where
  | recvFirst
  | seedFirst (draw : Message)
  | drawA
  | drawB
  | recvSecond
  | seedSecond (draw : Message)
  | drawKey
  | idle
deriving DecidableEq

namespace Consumer

/-- What it does to the pool next, a reseed or a draw, and where it is then. -/
def poolOp : Consumer → Option (Option Message × Consumer)
  | .seedFirst draw => some (some draw, .drawA)
  | .drawA => some (none, .drawB)
  | .drawB => some (none, .recvSecond)
  | .seedSecond draw => some (some draw, .drawKey)
  | .drawKey => some (none, .idle)
  | _ => none

/-- Whether its code calls the scheduler so; interrupts, and what follows inside
`recv_message`, come when they come. -/
def calls (c : Consumer) : Event → Bool
  | .recvMessage idx => idx == entropyCap && (c == .recvFirst || c == .recvSecond)
  | .yieldNow => c == .idle
  | .callMessage .. | .setHeal _ | .setPool _ => false
  | _ => true

/-- `recv_message` returns where its last critical section leaves a message. -/
def received (c : Consumer) (ev : Event) (kont : Kont) : Consumer :=
  match ev, kont, c with
  | .recvMessage _, .kernel (.body (some (.message draw))), .recvFirst
  | .finish, .kernel (.body (some (.message draw))), .recvFirst => .seedFirst draw
  | .recvMessage _, .kernel (.body (some (.message draw))), .recvSecond
  | .finish, .kernel (.body (some (.message draw))), .recvSecond => .seedSecond draw
  | _, _, c => c

/-- It has folded in its first device draw. -/
def seeded : Consumer → Bool
  | .recvFirst | .seedFirst _ => false
  | _ => true

theorem received_seeded (c : Consumer) (ev : Event) (kont : Kont) :
    (c.received ev kont).seeded = c.seeded := by
  unfold received
  split <;> rfl

theorem poolOp_eq_some {c c' : Consumer} {op : Option Message} (h : c.poolOp = some (op, c')) :
    c'.seeded = true ∧ (op = none → c.seeded = true) := by
  cases c <;> cases h <;> exact ⟨rfl, fun h => by first | rfl | cases h⟩

end Consumer

/-- `pqc`'s slot: it is spawned only with a virtio-rng device. -/
def Devices.pqc (d : Devices) : Option Slot := if d.rng.isSome then some 13 else none

/-- The machine, the pool, where `pqc_consumer` is, and all that has been folded into the
pool. -/
structure Randomness (R : Type) where
  machine : Machine
  pool : EntropyPool R
  consumer : Consumer
  reseeds : List (Bytes 32)

/-- A step of the hart, or the beginning or end of `pqc_consumer`'s next `POOL.with`. -/
inductive PoolEvent where
  | hart (l : Label)
  | enter
  | leave

theorem Machine.step_getrandom {p : Platform} {m m' : Machine} {l : Label} {frame : TrapFrame}
    (hask : l.event.asks .getrandom frame) (hstep : m.step p l = some m') :
    ∃ t f sepc, m.sched.tasks m.current = some t ∧
      getrandom t m.poolInUse l.input.seed frame = .ok f ∧
      m'.frames m.current = { f with sepc } := by
  obtain ⟨ev, input⟩ := l
  obtain ⟨rfl, hcause, hsys⟩ := hask
  obtain ⟨-, hexec⟩ := step_eq_some.mp hstep
  simp only [exec, trapHandler, hcause, dispatch, hsys, Except.bind_eq_ok_iff] at hexec
  obtain ⟨out, ⟨t, ht, f, hf, hout⟩, hexec⟩ := hexec
  obtain rfl := Except.ok.inj hout
  simp only [finishSyscall, Except.bind_eq_ok_iff] at hexec
  obtain ⟨frame', hframe, hexec⟩ := hexec
  obtain rfl := Except.ok.inj hexec
  obtain ⟨sepc, rfl⟩ := advance_eq_ok hframe
  exact ⟨t, f, sepc, Scheduler.task_eq_ok.mp ht, hf, Function.update_self ..⟩

theorem getrandom_status {t : Task} {poolInUse : Bool} {seed : Nat × Nat × Nat × Nat}
    {frame f : TrapFrame} (h : getrandom t poolInUse seed frame = .ok f) :
    f.regs 9 = 0 ↔ t.caps.hasRandomness (frame.regs 9) = true := by
  unfold getrandom at h
  split at h
  case isTrue hcap =>
    split at h
    case isTrue => cases h
    case isFalse =>
      obtain rfl := Except.ok.inj h
      simp [hcap, TrapFrame.setWords]
  case isFalse hcap =>
    obtain rfl := Except.ok.inj h
    simp [hcap, TrapFrame.setStatus, usizeMax]

namespace Randomness

variable {R : Type} (gen : Csprng R) (p : Platform) (pqc : Option Slot)

def start (m : Machine) : Randomness R := ⟨m, .new, .recvFirst, []⟩

/-- The hart runs `pqc_consumer`'s own code. -/
def consuming (s : Randomness R) : Bool :=
  pqc == some s.machine.current &&
    match s.machine.konts s.machine.current with
    | .kernel (.body _) => true
    | _ => false

/-- `POOL`'s `in_use`. -/
def inUse (s : Randomness R) : Bool := s.machine.poolInUse

/-- Whether the current task may take this step; inside `POOL.with`, `pqc_consumer` calls
nothing, and no other kernel task uses the pool. -/
def permits (s : Randomness R) (ev : Event) : Bool :=
  if pqc = some s.machine.current then
    match ev with
    | .trap _ => true
    | ev => !s.inUse && s.consumer.calls ev
  else
    match ev with
    | .setPool _ => false
    | _ => true

/-- A `getrandom` by a task that holds a `Randomness` capability at `a0`. -/
def draws (s : Randomness R) : Event → Bool
  | .trap frame =>
    decode frame.scause = .userEcall && decodeSyscall (frame.regs 16) = .getrandom &&
      (s.machine.sched.tasks s.machine.current).any fun t => t.caps.hasRandomness (frame.regs 9)
  | _ => false

/-- A step of the hart. `POOL.with` stops the kernel if `pqc_consumer` was interrupted in it. -/
def hart (s : Randomness R) (l : Label) : Option (Randomness R) :=
  if s.draws l.event then
    let (seed, pool) := s.pool.nextSeed gen
    (s.machine.step p { l with input := { l.input with seed := seedWords seed } }).map fun m =>
      { s with machine := m, pool }
  else
    (s.machine.step p l).map fun m =>
      { s with
        machine := m
        consumer :=
          if pqc = some s.machine.current then
            s.consumer.received l.event (m.konts s.machine.current)
          else s.consumer }

/-- `pqc_consumer`'s operation on the pool. -/
def operate (s : Randomness R) : Option (Randomness R) :=
  match s.consumer.poolOp with
  | some (some draw, next) =>
    some { s with
      machine := { s.machine with poolInUse := false }
      pool := s.pool.reseed gen (seedFromMessage draw)
      consumer := next
      reseeds := s.reseeds ++ [seedFromMessage draw] }
  | some (none, next) =>
    some { s with
      machine := { s.machine with poolInUse := false }
      pool := (s.pool.nextSeed gen).2
      consumer := next }
  | none => none

def step (s : Randomness R) : PoolEvent → Option (Randomness R)
  | .hart l => if s.permits pqc l.event then s.hart gen p pqc l else none
  | .enter =>
    if s.consuming pqc && s.consumer.poolOp.isSome && !s.inUse then
      some { s with machine := { s.machine with poolInUse := true } }
    else none
  | .leave => if s.consuming pqc && s.inUse then s.operate gen else none

/-- The step is a `getrandom` that returns `a0 = 0`. -/
def Serves (s : Randomness R) (e : PoolEvent) : Prop :=
  ∃ l frame s', e = .hart l ∧ l.event.asks .getrandom frame ∧ s.step gen p pqc e = some s' ∧
    (s'.machine.frames s.machine.current).regs 9 = 0

/-- A `getrandom` that succeeds draws from a pool that was reseeded before. -/
def Backed (s : Randomness R) (e : PoolEvent) : Prop :=
  s.Serves gen p pqc e → s.reseeds ≠ [] ∧ s.pool.rng.isSome = true

/-- A task with the capability calls `getrandom` only once `pqc_consumer` has gone past its
first device draw. -/
def AfterSeeding (s : Randomness R) : PoolEvent → Prop
  | .hart l => s.draws l.event = true → s.consumer.seeded = true
  | _ => True

/-- The pool is seeded from the first reseed on, which `pqc_consumer` makes first of all. -/
structure Tracked (s : Randomness R) : Prop where
  consumer : s.consumer.seeded = true ↔ s.reseeds ≠ []
  pool : s.pool.rng.isSome = true ↔ s.reseeds ≠ []

section Steps

variable {gen p pqc} {s s' : Randomness R}

theorem hart_tracked (h : s.Tracked) {l : Label} (hstep : s.hart gen p pqc l = some s') :
    s'.Tracked := by
  unfold hart at hstep
  split at hstep
  case isTrue =>
    obtain ⟨m, -, rfl⟩ := Option.map_eq_some_iff.mp hstep
    exact ⟨h.consumer, (EntropyPool.nextSeed_isSome gen s.pool).symm ▸ h.pool⟩
  case isFalse =>
    obtain ⟨m, -, rfl⟩ := Option.map_eq_some_iff.mp hstep
    refine ⟨?_, h.pool⟩
    dsimp only
    split
    case isTrue =>
      rw [Consumer.received_seeded]
      exact h.consumer
    case isFalse => exact h.consumer

theorem operate_tracked (h : s.Tracked) (hstep : s.operate gen = some s') : s'.Tracked := by
  unfold operate at hstep
  split at hstep
  case h_1 draw next hop =>
    obtain rfl := Option.some.inj hstep
    have hseeded := (Consumer.poolOp_eq_some hop).1
    exact ⟨by simp [hseeded], by simp⟩
  case h_2 next hop =>
    obtain rfl := Option.some.inj hstep
    obtain ⟨hnext, hbefore⟩ := Consumer.poolOp_eq_some hop
    have hreseeds := h.consumer.mp (hbefore rfl)
    exact ⟨by simp [hnext, hreseeds], (EntropyPool.nextSeed_isSome gen s.pool).symm ▸ h.pool⟩
  case h_3 => cases hstep

theorem step_tracked (h : s.Tracked) (e : PoolEvent) (hstep : s.step gen p pqc e = some s') :
    s'.Tracked := by
  cases e with
  | hart l =>
    simp only [step] at hstep
    split at hstep
    case isTrue => exact hart_tracked h hstep
    case isFalse => cases hstep
  | enter =>
    simp only [step] at hstep
    split at hstep
    case isTrue =>
      obtain rfl := Option.some.inj hstep
      exact ⟨h.consumer, h.pool⟩
    case isFalse => cases hstep
  | leave =>
    simp only [step] at hstep
    split at hstep
    case isTrue => exact operate_tracked h hstep
    case isFalse => cases hstep

theorem serves_iff {e : PoolEvent} (hstep : s.step gen p pqc e = some s') :
    s.Serves gen p pqc e ↔ ∃ l, e = .hart l ∧ s.draws l.event = true := by
  -- the status a `getrandom` of this run leaves, whatever the pool gave it
  have hstatus {l : Label} {frame : TrapFrame} {m : Machine}
      (hm : s.machine.step p l = some m) (hask : l.event.asks .getrandom frame) :
      (m.frames s.machine.current).regs 9 = 0 ↔ s.draws l.event = true := by
    obtain ⟨t, f, sepc, ht, hf, hframe⟩ := Machine.step_getrandom hask hm
    rw [hframe, hask.1]
    simp [draws, hask.2, ht, getrandom_status hf]
  constructor
  · rintro ⟨l, frame, s₁, rfl, hask, hs₁, hzero⟩
    refine ⟨l, rfl, ?_⟩
    by_contra hno
    obtain rfl := Option.some.inj (hstep.symm.trans hs₁)
    simp only [step, hart, if_neg hno] at hstep
    split at hstep
    case isFalse => cases hstep
    case isTrue =>
      obtain ⟨m, hm, rfl⟩ := Option.map_eq_some_iff.mp hstep
      exact hno ((hstatus hm hask).mp hzero)
  · rintro ⟨l, rfl, hdraws⟩
    obtain ⟨frame, hask⟩ : ∃ frame, l.event.asks .getrandom frame := by
      unfold draws at hdraws
      split at hdraws
      case h_1 frame hev =>
        simp only [Bool.and_eq_true, decide_eq_true_eq] at hdraws
        exact ⟨frame, hev, hdraws.1⟩
      case h_2 => cases hdraws
    refine ⟨l, frame, s', rfl, hask, hstep, ?_⟩
    simp only [step, hart, if_pos hdraws] at hstep
    split at hstep
    case isFalse => cases hstep
    case isTrue =>
      obtain ⟨m, hm, rfl⟩ := Option.map_eq_some_iff.mp hstep
      exact (hstatus hm hask).mpr hdraws

theorem backed_iff (h : s.Tracked) {e : PoolEvent} (hstep : s.step gen p pqc e = some s') :
    s.Backed gen p pqc e ↔ s.AfterSeeding e := by
  have hseeded : (s.reseeds ≠ [] ∧ s.pool.rng.isSome = true) ↔ s.consumer.seeded = true := by
    rw [h.pool, and_self, h.consumer]
  rw [Backed, serves_iff hstep, hseeded]
  cases e with
  | hart l => simp [AfterSeeding]
  | enter => simp [AfterSeeding]
  | leave => simp [AfterSeeding]

end Steps

open Transition

/-- In every run, with `pqc` in some slot or, where there is no virtio-rng device, in none: the
draws that `getrandom` reports as successes are all from a reseeded pool if and only if no task
draws before `pqc_consumer` has gone past its first device draw. -/
theorem draws_backed_iff {gen : Csprng R} {p : Platform} {pqc : Option Slot} {m₀ : Machine}
    {es : List PoolEvent} {s : Randomness R}
    (hrun : run (step gen p pqc) (start m₀) es = some s) :
    StepsMeet (step gen p pqc) (Backed gen p pqc) (start m₀) es ↔
      StepsMeet (step gen p pqc) AfterSeeding (start m₀) es := by
  have hstart : (start m₀ : Randomness R).Tracked :=
    ⟨by simp [start, Consumer.seeded], by simp [start, EntropyPool.new]⟩
  exact stepsMeet_iff (fun _ e _ h hstep => step_tracked h e hstep)
    (fun _ _ _ h hstep => backed_iff h hstep) hstart hrun

/-- `pqc`, the entropy component and a task with the `Randomness` capability. -/
def seedingOps : List BootOp :=
  [.spawn "pqc" 0x80200300 0x80310000, .grantCap 0 entropyCap (.endpoint entropyEp),
    .spawnUser "entropy" 0x80400000 0x80601000 0x80300000 1 0,
    .grantCap 1 entropyCap (.endpoint entropyEp),
    .spawnUser "rnguser" 0x80400000 0x80602000 0x80300000 2 0, .grantCap 2 0 .randomness,
    .spawn "idle" 0x80200300 0x80310000]

/-- A device draw reaches `pqc_consumer`, which folds it in before `rnguser` runs. -/
def seededRun : List PoolEvent :=
  [.hart (.of (.recvMessage entropyCap)), .hart (.of .park), .hart (.ecall 4 [0, 1, 2, 3, 4]),
    .hart .tickUser, .hart .tickUser, .hart .tick, .hart (.of .finish), .enter, .leave,
    .hart .tick, .hart .tickUser, .hart (.ecall 9 [0])]

instance decidableAfterSeeding (s : Randomness R) (e : PoolEvent) :
    Decidable (s.AfterSeeding e) :=
  match e with
  | .hart l => inferInstanceAs (Decidable (s.draws l.event = true → s.consumer.seeded = true))
  | .enter => .isTrue trivial
  | .leave => .isTrue trivial

theorem draws_backed_after_seeding : ∃ m₀ s, boot .sample .empty seedingOps = .ok m₀ ∧
    run (step ChaCha20Rng.csprng .sample (some 0)) (start m₀) seededRun = some s ∧
    s.machine.current = 2 ∧ (s.machine.frames 2).regs 9 = 0 ∧ s.reseeds.length = 1 ∧
    StepsMeet (step ChaCha20Rng.csprng .sample (some 0))
      (Backed ChaCha20Rng.csprng .sample (some 0)) (start m₀) seededRun := by
  have heval : (boot .sample .empty seedingOps).toOption.any (fun m₀ =>
      decide (StepsMeet (step ChaCha20Rng.csprng .sample (some 0)) AfterSeeding (start m₀)
        seededRun) &&
      (run (step ChaCha20Rng.csprng .sample (some 0)) (start m₀) seededRun).any fun s =>
        decide (s.machine.current = 2 ∧ (s.machine.frames 2).regs 9 = 0 ∧
          s.reseeds.length = 1)) = true := by
    decide +kernel
  obtain ⟨m₀, hm₀, heval⟩ := (Option.any_eq_true _ _).mp heval
  obtain ⟨hafter, heval⟩ := Bool.and_eq_true_iff.mp heval
  obtain ⟨s, hrun, hs⟩ := (Option.any_eq_true _ _).mp heval
  obtain ⟨hcurrent, hstatus, hreseeds⟩ := of_decide_eq_true hs
  exact ⟨m₀, s, Except.toOption_eq_some_iff.mp hm₀, hrun, hcurrent, hstatus, hreseeds,
    (draws_backed_iff hrun).mpr (of_decide_eq_true hafter)⟩

/-- `kmain`'s tasks run in their order: `pqc` waits for a device draw, the entropy component is
preempted before it makes one, and `rnguser` draws. -/
def earlyRun : List PoolEvent :=
  List.replicate 13 (.hart .tickUser) ++
    [.hart (.of (.recvMessage entropyCap)), .hart (.of .park), .hart .tickUser]

/-- From `kmain`'s configuration with these devices, this run leads to a `getrandom` that returns
`a0 = 0` from a pool never reseeded. -/
def ServesUnseeded (d : Devices) (es : List PoolEvent) : Prop :=
  ∃ m₀ s, boot .sample .empty (kmain .zero d) = .ok m₀ ∧
    run (step ChaCha20Rng.csprng .sample d.pqc) (start m₀) es = some s ∧
    s.Serves ChaCha20Rng.csprng .sample d.pqc (.hart (.ecall 9 [0])) ∧ s.reseeds = []

/-- It happens with a virtio-rng device and without one. -/
theorem unseeded_draw_served : ServesUnseeded (.present true false false) earlyRun ∧
    ServesUnseeded (.present false false false) (List.replicate 13 (.hart .tickUser)) := by
  have hserves {d : Devices} {es : List PoolEvent}
      (heval : (boot .sample .empty (kmain .zero d)).toOption.any (fun m₀ =>
        (run (step ChaCha20Rng.csprng .sample d.pqc) (start m₀) es).any fun s =>
          (s.step ChaCha20Rng.csprng .sample d.pqc (.hart (.ecall 9 [0]))).any fun s' =>
            decide ((s'.machine.frames s.machine.current).regs 9 = 0 ∧ s.reseeds = [])) = true) :
      ServesUnseeded d es := by
    obtain ⟨m₀, hm₀, heval⟩ := (Option.any_eq_true _ _).mp heval
    obtain ⟨s, hrun, heval⟩ := (Option.any_eq_true _ _).mp heval
    obtain ⟨s', hstep, heval⟩ := (Option.any_eq_true _ _).mp heval
    obtain ⟨hstatus, hreseeds⟩ := of_decide_eq_true heval
    exact ⟨m₀, s, Except.toOption_eq_some_iff.mp hm₀, hrun,
      ⟨_, _, s', rfl, ⟨rfl, by decide, by decide⟩, hstep, hstatus⟩, hreseeds⟩
  exact ⟨hserves (by decide +kernel), hserves (by decide +kernel)⟩

end Randomness

end Perenne

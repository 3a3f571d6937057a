import Perenne.Syscall
import Perenne.Fs

namespace Perenne

/-- `u64::to_le_bytes`. -/
def wordBytes (n : Nat) : Bytes 8 := ⟨(List.range 8).map fun i => .ofNat (n / 256 ^ i), by simp⟩

/-- `u64::from_le_bytes`. -/
def bytesWord (bs : List UInt8) : Nat := bs.foldr (fun b n => b.toNat + 256 * n) 0

/-- What the channel calls in `kernel_crypto`: the key agreement, a function of its seed,
and the AEAD, which returns the ciphertext and the tag. -/
structure Crypto where
  mlKem768Agree : Bytes 32 → Option (Bytes 32)
  sealInPlace : (key : Bytes 32) → (nonce : Bytes 12) → Bytes 8 → Bytes 8 × Bytes 16

/-- `SESSION_KEY` and `NONCE`. -/
structure Channel where
  sessionKey : Option (Bytes 32)
  nonce : Nat

/-- The key and the nonce of one call of the AEAD. -/
structure SealUse where
  key : Bytes 32
  nonce : Bytes 12
deriving DecidableEq

/-- A `seal` system call: the task that makes it, and its frame. -/
structure SealCall where
  task : Task
  frame : TrapFrame

namespace Channel

variable (crypto : Crypto)

def init : Channel := ⟨none, 0⟩

/-- `nonce_bytes`. -/
def nonceBytes (counter : Nat) : Bytes 12 := .pad 12 (wordBytes counter).list

/-- `establish`. -/
def establish (c : Channel) (seed : Bytes 32) : Channel :=
  { c with sessionKey := some ((crypto.mlKem768Agree seed).getD (.pad 32 [])) }

/-- `key`. -/
def key (c : Channel) : Bytes 32 := c.sessionKey.getD (.pad 32 [])

/-- `seal_word`, with the key and nonce it used. -/
def sealWord (c : Channel) (plain : Bytes 8) :
    Except Panic ((Bytes 8 × Bytes 16 × Nat) × SealUse × Channel) := do
  let nonce := c.nonce
  let next ← if nonce + 1 < 2 ^ 64 then .ok (nonce + 1) else .error .overflow
  let (ct, tag) := crypto.sealInPlace c.key (nonceBytes nonce) plain
  return ((ct, tag, nonce), ⟨c.key, nonceBytes nonce⟩, { c with nonce := next })

/-- The `seal` system call; without the capability nothing is sealed. -/
def sealCall (c : Channel) (call : SealCall) :
    Except Panic (TrapFrame × Option SealUse × Channel) :=
  if call.task.caps.hasSession 0 then do
    let ((ct, tag, nonce), use, c) ← sealWord crypto c (wordBytes (call.frame.regs 9))
    let words := (bytesWord ct.list, bytesWord (tag.list.take 8), bytesWord (tag.list.drop 8), nonce)
    return (Perenne.sealWord call.task words call.frame, some use, c)
  else return (Perenne.sealWord call.task (0, 0, 0, 0) call.frame, none, c)

/-- What the calls of a boot use, from this channel on. -/
def uses (c : Channel) : List SealCall → Except Panic (List SealUse)
  | [] => return []
  | call :: calls => do
    let (_, use, c) ← sealCall crypto c call
    let rest ← uses c calls
    return use.toList ++ rest

/-- The seed `kmain` passes to `establish`. -/
def kmainSeed : Bytes 32 := ⟨List.replicate 32 0x14, rfl⟩

def history : List (List SealCall) → Except Panic (List SealUse)
  | [] => return []
  | calls :: boots => do
    let now ← uses crypto (establish crypto init kmainSeed) calls
    let later ← history boots
    return now ++ later

/-- The calls that hold the session capability. -/
def accepted (calls : List SealCall) : Nat := calls.countP fun call => call.task.caps.hasSession 0

def seals (calls : List SealCall) : Bool := calls.any fun call => call.task.caps.hasSession 0

theorem bytesWord_wordBytes {n : Nat} (hn : n < 2 ^ 64) : bytesWord (wordBytes n).list = n := by
  have hbyte (k : Nat) : (UInt8.ofNat k).toNat = k % 256 := UInt8.toNat_ofNat'
  simp only [bytesWord, wordBytes, List.range_succ, List.range_zero, List.map_cons, List.map_nil,
    List.nil_append, List.cons_append, List.foldr_cons, List.foldr_nil, hbyte]
  omega

theorem nonceBytes_injective {m n : Nat} (hm : m < 2 ^ 64) (hn : n < 2 ^ 64)
    (h : nonceBytes m = nonceBytes n) : m = n := by
  have htake (k : Nat) : (nonceBytes k).list.take 8 = (wordBytes k).list := by
    have hlen := (wordBytes k).size
    have hfull : (wordBytes k).list.take 12 = (wordBytes k).list :=
      List.take_of_length_le (by omega)
    simp only [nonceBytes, Bytes.pad, hfull, List.take_left' hlen]
  have hbytes : (wordBytes m).list = (wordBytes n).list := by rw [← htake, ← htake, h]
  rw [← bytesWord_wordBytes hm, hbytes, bytesWord_wordBytes hn]

variable {crypto} {c : Channel}

theorem sealCall_accepted (crypto : Crypto) {call : SealCall} (hcap : call.task.caps.hasSession 0 = true)
    (hnext : c.nonce + 1 < 2 ^ 64) : ∃ frame, sealCall crypto c call =
      .ok (frame, some ⟨c.key, nonceBytes c.nonce⟩, { c with nonce := c.nonce + 1 }) := by
  rw [sealCall, if_pos hcap, sealWord, if_pos hnext]
  exact ⟨_, rfl⟩

theorem sealCall_refused (crypto : Crypto) (c : Channel) {call : SealCall}
    (hcap : ¬ call.task.caps.hasSession 0 = true) : ∃ frame, sealCall crypto c call = .ok (frame, none, c) := by
  rw [sealCall, if_neg hcap]
  exact ⟨_, rfl⟩

theorem uses_eq (crypto : Crypto) {calls : List SealCall} (hfew : c.nonce + accepted calls < 2 ^ 64) :
    uses crypto c calls =
      .ok ((List.range' c.nonce (accepted calls)).map fun n => ⟨c.key, nonceBytes n⟩) := by
  induction calls generalizing c with
  | nil => rfl
  | cons call calls ih =>
    by_cases hcap : call.task.caps.hasSession 0 = true
    · have hcount : accepted (call :: calls) = accepted calls + 1 :=
        List.countP_cons_of_pos hcap
      rw [hcount] at hfew ⊢
      have hrest := ih (c := { c with nonce := c.nonce + 1 }) (by dsimp only; omega)
      obtain ⟨frame, hcall⟩ := sealCall_accepted crypto (c := c) hcap (by omega)
      rw [uses, hcall, List.range'_succ, List.map_cons]
      change (uses crypto { c with nonce := c.nonce + 1 } calls >>= _) = _
      rw [hrest]
      rfl
    · have hcount : accepted (call :: calls) = accepted calls := List.countP_cons_of_neg hcap
      rw [hcount] at hfew ⊢
      obtain ⟨frame, hcall⟩ := sealCall_refused crypto c hcap
      rw [uses, hcall]
      change (uses crypto c calls >>= _) = _
      rw [ih hfew]
      rfl

theorem accepted_pos {calls : List SealCall} : 0 < accepted calls ↔ seals calls = true := by
  rw [accepted, seals, List.countP_pos_iff, List.any_eq_true]

def bootUses (crypto : Crypto) (calls : List SealCall) : List SealUse :=
  (List.range (accepted calls)).map fun n =>
    ⟨(crypto.mlKem768Agree kmainSeed).getD (.pad 32 []), nonceBytes n⟩

theorem history_eq {boots : List (List SealCall)} (hfew : ∀ calls ∈ boots, calls.length < 2 ^ 64) :
    history crypto boots = .ok (boots.flatMap (bootUses crypto)) := by
  induction boots with
  | nil => rfl
  | cons calls boots ih =>
    have hlen : calls.length < 2 ^ 64 := hfew calls (.head _)
    have hle : accepted calls ≤ calls.length := List.countP_le_length
    have hsum : (establish crypto init kmainSeed).nonce + accepted calls < 2 ^ 64 := by
      change 0 + _ < _
      omega
    have hnow := uses_eq crypto hsum
    have hzero : (establish crypto init kmainSeed).nonce = 0 := rfl
    rw [hzero, ← List.range_eq_range'] at hnow
    rw [history, hnow, ih fun calls hc => hfew calls (.tail _ hc)]
    rfl

theorem bootUses_nodup (crypto : Crypto) {calls : List SealCall} (hfew : calls.length < 2 ^ 64) :
    (bootUses crypto calls).Nodup := by
  have hle : accepted calls ≤ calls.length := List.countP_le_length
  refine List.Nodup.map_on (fun m hm n hn heq => ?_) List.nodup_range
  rw [List.mem_range] at hm hn
  exact nonceBytes_injective (by omega) (by omega) (SealUse.mk.inj heq).2

theorem first_mem_bootUses {calls : List SealCall} (h : seals calls = true) :
    ⟨(crypto.mlKem768Agree kmainSeed).getD (.pad 32 []), nonceBytes 0⟩ ∈ bootUses crypto calls :=
  List.mem_map.mpr ⟨0, List.mem_range.mpr (accepted_pos.mpr h), rfl⟩

theorem bootUses_eq_nil {calls : List SealCall} (h : ¬ seals calls = true) :
    bootUses crypto calls = [] := by
  have hzero : accepted calls = 0 := by
    have := mt accepted_pos.mp h
    omega
  rw [bootUses, hzero]
  rfl

theorem flatMap_eq_nil_of_none {boots : List (List SealCall)} (h : boots.countP seals = 0) :
    boots.flatMap (bootUses crypto) = [] := by
  rw [List.flatMap_eq_nil_iff]
  intro calls hcalls
  exact bootUses_eq_nil (List.countP_eq_zero.mp h calls hcalls)

end Channel

/-- Over any number of boots with fewer than `2^64` calls each, no nonce is used twice under
a key exactly if at most one of the boots seals anything. -/
theorem nonces_distinct (crypto : Crypto) (boots : List (List SealCall))
    (hfew : ∀ calls ∈ boots, calls.length < 2 ^ 64) :
    ∃ uses, Channel.history crypto boots = .ok uses ∧
      (uses.Nodup ↔ boots.countP Channel.seals ≤ 1) := by
  refine ⟨_, Channel.history_eq hfew, ?_⟩
  induction boots with
  | nil => simp
  | cons calls boots ih =>
    have ih := ih fun calls hc => hfew calls (.tail _ hc)
    have hnow := Channel.bootUses_nodup crypto (hfew calls (.head _))
    rw [List.flatMap_cons]
    by_cases hseals : Channel.seals calls = true
    · rw [List.countP_cons_of_pos hseals]
      constructor
      · intro hnodup
        -- Another boot that seals uses the first nonce again.
        have hdisjoint := List.disjoint_of_nodup_append hnodup
        have hnone : boots.countP Channel.seals = 0 := by
          rw [List.countP_eq_zero]
          intro other hother hseals'
          exact hdisjoint (Channel.first_mem_bootUses hseals)
            (List.mem_flatMap.mpr ⟨other, hother, Channel.first_mem_bootUses hseals'⟩)
        omega
      · intro hcount
        rw [Channel.flatMap_eq_nil_of_none (by omega), List.append_nil]
        exact hnow
    · rw [List.countP_cons_of_neg hseals, Channel.bootUses_eq_nil hseals, List.nil_append]
      exact ih

/-- A task with a session capability, as `sealer` is. -/
def sealerTask : Task where
  context := forgeUserContext 0 0 0 0 0 0
  state := .ready
  stackTop := 0
  name := "sealer"
  satp := 0
  caps := Caps.empty.set 0 (some .session)
  message := .empty
  relaunch := none
  restarts := 0
  crashBadge := 0
  caller := none
  pendingGrant := none

/-- A boot that seals two words, and one that seals none. -/
theorem nonces_distinct_two : ∃ uses, Channel.history ⟨some, fun _ _ plain => (plain, .pad 16 [])⟩
    [[⟨sealerTask, .zeroed⟩, ⟨sealerTask, .zeroed⟩], []] = .ok uses ∧ uses.Nodup := by
  obtain ⟨uses, huses, hiff⟩ := nonces_distinct ⟨some, fun _ _ plain => (plain, .pad 16 [])⟩
    [[⟨sealerTask, .zeroed⟩, ⟨sealerTask, .zeroed⟩], []] (by decide)
  exact ⟨uses, huses, hiff.mpr (by decide)⟩

/-- Two boots that seal a word each use one nonce twice, whatever the key agreement
returns. -/
theorem nonce_reused : ∃ use : Crypto → SealUse, ∀ crypto,
    Channel.history crypto [[⟨sealerTask, .zeroed⟩], [⟨sealerTask, .zeroed⟩]] =
      .ok [use crypto, use crypto] :=
  ⟨_, fun _ => Channel.history_eq (by decide)⟩

end Perenne

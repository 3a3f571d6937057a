import Mathlib.Data.Vector.Basic

namespace Perenne

/-- `EndpointId`: a rendezvous point, named by a number. -/
abbrev EndpointId := Nat

/-- Authority over one kernel object. -/
inductive Capability where
  | endpoint (id : EndpointId)
  | restart (slot : Nat)
  | randomness
  | interrupt (irq : Nat)
  | reply (slot : Nat)
  | session
deriving DecidableEq, Repr

/-- `CAP_SLOTS`: the size of a task's capability table. -/
abbrev capSlots : Nat := 4

/-- A task's capability table, `[Option<Capability>; CAP_SLOTS]`. -/
abbrev Caps := Vector (Option Capability) capSlots

namespace Caps

def empty : Caps := Vector.replicate capSlots none

/-- `cap_at`: the whole capability in a slot. -/
def capAt (caps : Caps) (idx : Nat) : Option Capability := caps[idx]?.join

/-- `cap_lookup`: the endpoint a slot names. -/
def capLookup (caps : Caps) (idx : Nat) : Option EndpointId :=
  match caps.capAt idx with
  | some (.endpoint id) => some id
  | _ => none

/-- `restart_target`: the scheduler slot a `Restart` capability names. -/
def restartTarget (caps : Caps) (idx : Nat) : Option Nat :=
  match caps.capAt idx with
  | some (.restart slot) => some slot
  | _ => none

/-- `has_randomness`. -/
def hasRandomness (caps : Caps) (idx : Nat) : Bool := caps.capAt idx == some .randomness

/-- `has_session`. -/
def hasSession (caps : Caps) (idx : Nat) : Bool := caps.capAt idx == some .session

/-- `interrupt_irq`: the interrupt a slot authorises waiting for. -/
def interruptIrq (caps : Caps) (idx : Nat) : Option Nat :=
  match caps.capAt idx with
  | some (.interrupt irq) => some irq
  | _ => none

/-- `reply_caller`: the caller a one-shot `Reply` capability answers. -/
def replyCaller (caps : Caps) (idx : Nat) : Option Nat :=
  match caps.capAt idx with
  | some (.reply slot) => some slot
  | _ => none

/-- The write `mint_reply_cap` and `install_cap` share: out of range, nothing happens. -/
def install (caps : Caps) (slot : Nat) (cap : Capability) : Caps :=
  caps.setIfInBounds slot (some cap)

/-- `caps[slot] = None`. -/
def clear (caps : Caps) (slot : Nat) : Caps := caps.setIfInBounds slot none

/-- `revoke_in_caps`: clear every `Endpoint(ep)` slot and count them. -/
def revokeInCaps (caps : Caps) (ep : EndpointId) : Caps × Nat :=
  (caps.map fun slot => if slot = some (.endpoint ep) then none else slot,
    caps.count (some (.endpoint ep)))

theorem capAt_empty (idx : Nat) : empty.capAt idx = none := by
  simp only [capAt, empty, Vector.getElem?_replicate]
  split <;> rfl

theorem capLookup_eq_some {caps : Caps} {idx : Nat} {ep : EndpointId} :
    caps.capLookup idx = some ep ↔ caps.capAt idx = some (.endpoint ep) := by
  unfold capLookup
  split <;> simp_all

theorem restartTarget_eq_some {caps : Caps} {idx slot : Nat} :
    caps.restartTarget idx = some slot ↔ caps.capAt idx = some (.restart slot) := by
  unfold restartTarget
  split <;> simp_all

theorem replyCaller_eq_some {caps : Caps} {idx slot : Nat} :
    caps.replyCaller idx = some slot ↔ caps.capAt idx = some (.reply slot) := by
  unfold replyCaller
  split <;> simp_all

theorem interruptIrq_eq_some {caps : Caps} {idx irq : Nat} :
    caps.interruptIrq idx = some irq ↔ caps.capAt idx = some (.interrupt irq) := by
  unfold interruptIrq
  split <;> simp_all

theorem capAt_lt {caps : Caps} {idx : Nat} {cap : Capability} (h : caps.capAt idx = some cap) :
    idx < capSlots := by
  by_contra hge
  rw [capAt, Vector.getElem?_eq_none (by omega)] at h
  exact absurd h (by simp)

theorem capAt_install (caps : Caps) (slot idx : Nat) (cap : Capability) :
    (caps.install slot cap).capAt idx =
      if slot = idx ∧ idx < capSlots then some cap else caps.capAt idx := by
  simp only [capAt, install, Vector.getElem?_setIfInBounds]
  by_cases h : slot = idx
  · by_cases hlt : idx < capSlots <;> simp [h, hlt]
  · simp [h]

theorem capAt_clear (caps : Caps) (slot idx : Nat) :
    (caps.clear slot).capAt idx = if slot = idx then none else caps.capAt idx := by
  simp only [capAt, clear, Vector.getElem?_setIfInBounds]
  by_cases h : slot = idx
  · by_cases hlt : idx < capSlots <;> simp [h, hlt]
  · simp [h]

theorem capAt_revokeInCaps (caps : Caps) (ep : EndpointId) (idx : Nat) :
    (caps.revokeInCaps ep).1.capAt idx =
      if caps.capAt idx = some (.endpoint ep) then none else caps.capAt idx := by
  split <;> rename_i hc <;> simp only [capAt, revokeInCaps, Vector.getElem?_map] at hc ⊢ <;>
    cases h : caps[idx]? <;> simp_all

theorem revokeInCaps_eq_self {caps : Caps} {ep : EndpointId}
    (h : ∀ k, caps.capAt k ≠ some (.endpoint ep)) : (caps.revokeInCaps ep).1 = caps := by
  refine Vector.ext fun k hk => ?_
  have hne : caps[k] ≠ some (.endpoint ep) := fun hc => h k (by simp [capAt, hk, hc])
  simp [revokeInCaps, hne]

theorem capAt_install_cases {caps : Caps} {slot idx : Nat} {cap c : Capability}
    (h : (caps.install slot cap).capAt idx = some c) : c = cap ∨ caps.capAt idx = some c := by
  rw [capAt_install] at h
  split at h
  · exact .inl (Option.some.inj h).symm
  · exact .inr h

end Caps

end Perenne

import Perenne.Boot
import Mathlib.Data.Finset.Card
import Mathlib.Data.Finset.Prod
import Mathlib.Data.Fintype.Prod
import Mathlib.Data.Fintype.Sum
import Mathlib.Tactic.DeriveFintype

namespace Perenne

/-- The caller a capability lets its holder answer. -/
def Capability.replyTo : Capability → Option Nat
  | .reply c => some c
  | _ => none

/-- Where a reply authority can sit in a task record. -/
inductive Place where
  | cap (k : Fin capSlots)
  | grant
  | caller
deriving DecidableEq, Fintype

/-- The caller named at this place of a task record. -/
def Task.named (t : Task) : Place → Option Nat
  | .cap k => t.caps.replyCaller k
  | .grant => t.pendingGrant.bind Capability.replyTo
  | .caller => t.caller

namespace Caps

variable (caps : Caps)

theorem replyCaller_eq (k : Nat) : caps.replyCaller k = (caps.capAt k).bind Capability.replyTo := by
  unfold replyCaller Capability.replyTo
  cases caps.capAt k with
  | none => rfl
  | some cap => cases cap <;> rfl

theorem replyCaller_install (slot k : Nat) (cap : Capability) :
    (caps.install slot cap).replyCaller k =
      if slot = k ∧ k < capSlots then cap.replyTo else caps.replyCaller k := by
  rw [replyCaller_eq, replyCaller_eq, capAt_install]
  split <;> rfl

theorem replyCaller_clear (slot k : Nat) :
    (caps.clear slot).replyCaller k = if slot = k then none else caps.replyCaller k := by
  rw [replyCaller_eq, replyCaller_eq, capAt_clear]
  split <;> rfl

theorem replyCaller_revokeInCaps (ep : EndpointId) (k : Nat) :
    (caps.revokeInCaps ep).1.replyCaller k = caps.replyCaller k := by
  rw [replyCaller_eq, replyCaller_eq, capAt_revokeInCaps]
  split
  case isTrue h =>
    rw [h]
    rfl
  case isFalse => rfl

theorem replyCaller_receive {slot k n : Nat} {caller : Option Nat} {granted : Option Capability}
    (hgranted : granted.bind Capability.replyTo ≠ some n)
    (h : (caps.receive slot caller granted).replyCaller k = some n) :
    (slot = k ∧ caller = some n) ∨ caps.replyCaller k = some n := by
  have hminted : (caps.receive slot caller none).replyCaller k = some n →
      (slot = k ∧ caller = some n) ∨ caps.replyCaller k = some n := by
    intro h
    cases caller with
    | none => exact .inr h
    | some c =>
      change (caps.install slot (.reply c)).replyCaller k = some n at h
      rw [replyCaller_install] at h
      split at h
      case isTrue hk => exact .inl ⟨hk.1, h⟩
      case isFalse => exact .inr h
  cases granted with
  | none => exact hminted h
  | some cap =>
    change ((caps.receive slot caller none).install slot cap).replyCaller k = some n at h
    rw [replyCaller_install] at h
    split at h
    case isTrue => exact absurd h hgranted
    case isFalse => exact hminted h

end Caps

namespace Scheduler

/-- The caller named at a place of the task array. -/
def named (s : Scheduler) (x : Slot × Place) : Option Nat := (s.tasks x.1).bind (·.named x.2)

/-- The reply authorities naming `c`. -/
def authorities (s : Scheduler) (c : Slot) : Finset (Slot × Place) :=
  Finset.univ.filter fun x => s.named x = some c

/-- `c` is occupied by a task in state `AwaitingReply`. -/
def awaits (s : Scheduler) (c : Slot) : Prop :=
  ∃ t, s.tasks c = some t ∧ t.state = .awaitingReply

/-- The invariant for one caller: at most one place names it, only while it waits for its
reply or stands in the window before it does, and never in a grant. -/
structure Linear (s : Scheduler) (window : Prop) (c : Slot) : Prop where
  unique {x y} (hx : s.named x = some c.val) (hy : s.named y = some c.val) : x = y
  awaited {x} (hx : s.named x = some c.val) : window ∨ s.awaits c
  kept {i} : s.named (i, .grant) ≠ some c.val

variable {s : Scheduler} {window : Prop} {c : Slot}

theorem named_set (i : Slot) (t : Task) (x : Slot × Place) :
    (s.set i t).named x = if x.1 = i then t.named x.2 else s.named x := by
  unfold named
  rw [set_tasks]
  split <;> rfl

theorem named_of_task {i : Slot} {t : Task} (ht : s.tasks i = some t) (pl : Place) :
    s.named (i, pl) = t.named pl := by
  simp [named, ht]

theorem Linear.unnamed (h : s.Linear window c) {t : Task} (ht : s.tasks c = some t)
    (hstate : t.state ≠ .awaitingReply) (hwin : ¬ window) (x : Slot × Place) :
    s.named x ≠ some c.val := by
  intro hx
  obtain hw | ⟨u, hu, hawait⟩ := h.awaited hx
  · exact hwin hw
  · obtain rfl := Option.some.inj (ht.symm.trans hu)
    exact hstate hawait

theorem Linear.of_window {window' : Prop} (h : s.Linear window c)
    (hwin : ∀ x, s.named x = some c.val → window → window' ∨ s.awaits c) :
    s.Linear window' c where
  unique := h.unique
  awaited {x} hx := (h.awaited hx).elim (hwin x hx) .inr
  kept := h.kept

/-- A task changes, keeping at most the authorities it had; if it is the caller, nobody
may answer it, or it did not wait, or it still does. -/
theorem Linear.set (h : s.Linear window c) {i : Slot} {t t' : Task} (ht : s.tasks i = some t)
    (hsub : ∀ pl, t'.named pl = some c.val → t.named pl = some c.val)
    (hstate : i = c → (∀ x, s.named x ≠ some c.val) ∨ t.state ≠ .awaitingReply ∨
      t'.state = .awaitingReply) :
    (s.set i t').Linear window c := by
  have hback {x : Slot × Place} (hx : (s.set i t').named x = some c.val) :
      s.named x = some c.val := by
    obtain ⟨j, pl⟩ := x
    rw [named_set] at hx
    split at hx
    case isTrue hi =>
      obtain rfl : j = i := hi
      exact (named_of_task ht pl).trans (hsub _ hx)
    case isFalse => exact hx
  refine ⟨fun hx hy => h.unique (hback hx) (hback hy), fun {x} hx => ?_, fun {j} hj => ?_⟩
  · refine (h.awaited (hback hx)).imp_right ?_
    rintro ⟨u, hu, hawait⟩
    by_cases hic : i = c
    · subst hic
      obtain rfl := Option.some.inj (ht.symm.trans hu)
      obtain hfree | hnot | hawait' := hstate rfl
      · exact absurd (hback hx) (hfree x)
      · exact absurd hawait hnot
      · exact ⟨t', set_tasks_self _ _ _, hawait'⟩
    · exact ⟨u, (set_tasks_ne _ (Ne.symm hic) _).trans hu, hawait⟩
  · exact h.kept (hback hj)

/-- A fresh authority: the caller, whom nobody may answer, starts to wait, and one place
of another task now names it. -/
theorem linear_mint {i : Slot} {t t' u' : Task} (pl₀ : Place) (ht : s.tasks i = some t)
    (hfree : ∀ x, s.named x ≠ some c.val) (hplace : pl₀ ≠ .grant)
    (hsub : ∀ pl, t'.named pl = some c.val → pl = pl₀ ∨ t.named pl = some c.val)
    (hsub' : ∀ pl, u'.named pl = some c.val → s.named (c, pl) = some c.val)
    (hstate : window ∨ u'.state = .awaitingReply) :
    ((s.set i t').set c u').Linear window c := by
  have hback {x : Slot × Place} (hx : ((s.set i t').set c u').named x = some c.val) :
      x = (i, pl₀) := by
    obtain ⟨j, pl⟩ := x
    rw [named_set, named_set] at hx
    split at hx
    case isTrue hj => exact absurd (hsub' _ hx) (hfree _)
    case isFalse hj =>
      split at hx
      case isTrue hi =>
        obtain rfl : j = i := hi
        obtain rfl | hold := hsub _ hx
        · rfl
        · exact absurd ((named_of_task ht pl).trans hold) (hfree _)
      case isFalse => exact absurd hx (hfree _)
  refine ⟨fun hx hy => (hback hx).trans (hback hy).symm, fun _ => ?_, fun hj => ?_⟩
  · obtain hw | hawait := hstate
    · exact .inl hw
    · exact .inr ⟨u', set_tasks_self _ _ _, hawait⟩
  · exact hplace (congrArg Prod.snd (hback hj)).symm

theorem Linear.pickUp (h : s.Linear window c) {i : Slot} {t : Task} (ht : s.tasks i = some t)
    (hstate : t.state ≠ .awaitingReply) (slot : Nat) :
    (s.set i { t with caps := t.caps.receive slot t.caller t.pendingGrant,
                      caller := none, pendingGrant := none }).Linear window c := by
  have hgrant : t.pendingGrant.bind Capability.replyTo ≠ some c.val := fun hc =>
    h.kept ((named_of_task ht .grant).trans hc)
  by_cases hcaller : t.caller = some c.val
  · -- The stash named `c`, so by uniqueness nothing else did: only the new capability does.
    have hstash : s.named (i, .caller) = some c.val := (named_of_task ht .caller).trans hcaller
    have hback {x : Slot × Place} (hx : (s.set i
        { t with caps := t.caps.receive slot t.caller t.pendingGrant,
                 caller := none, pendingGrant := none }).named x = some c.val) :
        ∃ k : Fin capSlots, x = (i, .cap k) ∧ k.val = slot := by
      obtain ⟨j, pl⟩ := x
      rw [named_set] at hx
      split at hx
      case isTrue hj =>
        obtain rfl : j = i := hj
        cases pl with
        | cap k =>
          obtain ⟨hk, -⟩ | hold := t.caps.replyCaller_receive hgrant hx
          · exact ⟨k, rfl, hk.symm⟩
          · cases h.unique ((named_of_task ht (.cap k)).trans hold) hstash
        | grant => cases hx
        | caller => cases hx
      case isFalse hj => exact absurd (congrArg Prod.fst (h.unique hx hstash)) hj
    refine ⟨fun hx hy => ?_, fun {x} hx => ?_, fun hj => ?_⟩
    · obtain ⟨k, rfl, hk⟩ := hback hx
      obtain ⟨k', rfl, hk'⟩ := hback hy
      rw [Fin.ext (hk.trans hk'.symm)]
    · refine (h.awaited hstash).imp_right ?_
      rintro ⟨u, hu, hawait⟩
      have hci : c ≠ i := by
        rintro rfl
        obtain rfl := Option.some.inj (ht.symm.trans hu)
        exact hstate hawait
      exact ⟨u, (set_tasks_ne _ hci _).trans hu, hawait⟩
    · obtain ⟨k, hk, -⟩ := hback hj
      cases congrArg Prod.snd hk
  · refine h.set ht (fun pl hpl => ?_) (fun _ => .inr (.inl hstate))
    cases pl with
    | cap k =>
      obtain ⟨-, hc⟩ | hold := t.caps.replyCaller_receive hgrant hpl
      · exact absurd hc hcaller
      · exact hold
    | grant => cases hpl
    | caller => cases hpl

theorem named_revokeEndpoint (ep : EndpointId) (keep : Slot) (x : Slot × Place) :
    (s.revokeEndpoint ep keep).1.named x = s.named x := by
  obtain ⟨i, pl⟩ := x
  unfold named
  rw [revokeEndpoint_tasks]
  split
  · rfl
  · cases s.tasks i with
    | none => rfl
    | some t =>
      cases pl with
      | cap k => exact t.caps.replyCaller_revokeInCaps ep k
      | grant => rfl
      | caller => rfl

theorem Linear.revoke (h : s.Linear window c) (ep : EndpointId) (keep : Slot) :
    (s.revokeEndpoint ep keep).1.Linear window c where
  unique hx hy := h.unique (named_revokeEndpoint ep keep _ ▸ hx) (named_revokeEndpoint ep keep _ ▸ hy)
  awaited hx := by
    obtain hw | ⟨t, ht, hawait⟩ := h.awaited (named_revokeEndpoint ep keep _ ▸ hx)
    · exact .inl hw
    · by_cases hk : c = keep
      · exact .inr ⟨t, (if_pos hk).trans ht, hawait⟩
      · exact .inr ⟨{ t with caps := (t.caps.revokeInCaps ep).1 },
          (if_neg hk).trans (by rw [ht]; rfl), hawait⟩
  kept hj := h.kept (named_revokeEndpoint ep keep _ ▸ hj)

end Scheduler

end Perenne

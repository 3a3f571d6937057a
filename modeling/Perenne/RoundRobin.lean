import Perenne.Scheduler
import Mathlib.Data.List.Find
import Mathlib.Data.List.TakeWhile

namespace Perenne.Scheduler

def isReady (s : Scheduler) (i : Slot) : Bool := (s.tasks i).any (·.state == .ready)

/-- The slots from `c` on to `t`, going around the array. -/
def distance (c t : Slot) : Nat := (t.val + maxTasks - c.val) % maxTasks

/-- The slot `offset` places after `c`. -/
def after (c : Slot) (offset : Nat) : Slot := Fin.ofNat maxTasks (c + offset)

theorem pickNext_eq (s : Scheduler) :
    s.pickNext = (((List.range' 1 (maxTasks - 1)).find? fun o =>
      s.isReady (after s.current o)).map (after s.current)).getD s.current := by
  rw [pickNext, List.find?_map]
  rfl

theorem after_distance (c t : Slot) : after c (distance c t) = t := by
  have hc : c.val < 27 := c.2
  have ht : t.val < 27 := t.2
  apply Fin.ext
  simp only [after, distance, Fin.ofNat, maxTasks]
  omega

theorem distance_pos {c t : Slot} (h : t ≠ c) : 1 ≤ distance c t := by
  have hval : t.val ≠ c.val := fun heq => h (Fin.ext heq)
  have hc : c.val < 27 := c.2
  have ht : t.val < 27 := t.2
  simp only [distance, maxTasks]
  omega

theorem distance_lt (c t : Slot) : distance c t < maxTasks := Nat.mod_lt _ (by decide)

theorem distance_after {c t : Slot} {o : Nat} (h : o ≤ distance c t) :
    distance (after c o) t = distance c t - o := by
  have hc : c.val < 27 := c.2
  have ht : t.val < 27 := t.2
  simp only [after, distance, Fin.ofNat, maxTasks] at h ⊢
  omega

theorem after_ne {c : Slot} {o : Nat} (h1 : 1 ≤ o) (h : o < maxTasks) : after c o ≠ c := by
  intro heq
  have hval := congrArg Fin.val heq
  have hc : c.val < 27 := c.2
  simp only [after, Fin.ofNat, maxTasks] at hval h
  omega

theorem pickNext_toward {s : Scheduler} {t : Slot} (ht : t ≠ s.current) (hready : s.isReady t) :
    s.pickNext ≠ s.current ∧ distance s.pickNext t < distance s.current t := by
  have hpos := distance_pos ht
  have hlt := distance_lt s.current t
  have hmem : distance s.current t ∈ List.range' 1 (maxTasks - 1) := by
    rw [List.mem_range'_1]
    omega
  rw [pickNext_eq]
  cases hfind : (List.range' 1 (maxTasks - 1)).find? fun o => s.isReady (after s.current o) with
  | none =>
    have hnot := List.find?_eq_none.mp hfind _ hmem
    rw [after_distance] at hnot
    exact absurd hready hnot
  | some o =>
    obtain ⟨-, as, bs, hsplit, hbefore⟩ := List.find?_eq_some_iff_append.mp hfind
    have ho := List.mem_range'_1.mp (List.mem_of_find?_eq_some hfind)
    -- The slots before the one found are not `Ready`, and `t` is.
    have hle : o ≤ distance s.current t := by
      by_contra hgt
      have hsorted : (as ++ o :: bs).Pairwise (· < ·) := hsplit ▸ List.pairwise_lt_range'
      rw [hsplit, List.mem_append, List.mem_cons] at hmem
      rcases hmem with hmem | heq | hmem
      · have hclear := hbefore _ hmem
        rw [after_distance, hready] at hclear
        cases hclear
      · omega
      · have hgt := (List.pairwise_cons.mp (List.pairwise_append.mp hsorted).2.1).1 _ hmem
        omega
    simp only [Option.map_some, Option.getD_some]
    refine ⟨after_ne ho.1 (by omega), ?_⟩
    rw [distance_after hle]
    omega

theorem pickNext_eq_current_iff (s : Scheduler) :
    s.pickNext = s.current ↔ ∀ i, i ≠ s.current → s.isReady i = false := by
  constructor
  · intro heq i hi
    rw [← Bool.not_eq_true]
    intro hready
    exact (pickNext_toward hi hready).1 heq
  · intro hnone
    by_contra hne
    obtain ⟨u, hu, hready⟩ := pickNext_ready hne
    have hclear := hnone _ hne
    rw [isReady, hu, Option.any_some, hready] at hclear
    cases hclear

theorem pickNext_congr {s s' : Scheduler} (hcur : s'.current = s.current)
    (h : ∀ i, i ≠ s.current → s'.isReady i = s.isReady i) : s'.pickNext = s.pickNext := by
  have hfind : ((List.range' 1 (maxTasks - 1)).find? fun o => s'.isReady (after s.current o)) =
      (List.range' 1 (maxTasks - 1)).find? fun o => s.isReady (after s.current o) := by
    apply List.find?_congr
    intro o ho
    have ho := List.mem_range'_1.mp ho
    exact h _ (after_ne ho.1 (by simp only [maxTasks] at ho ⊢; omega))
  rw [pickNext_eq, pickNext_eq, hcur, hfind]

theorem isReady_set_ne {s : Scheduler} {i j : Slot} (h : i ≠ j) (u : Task) :
    (s.set j u).isReady i = s.isReady i := by
  rw [isReady, isReady, set_tasks_ne _ h]

/-- The task `exit_current` prefers to `pick_next`'s choice. -/
def preferred (s : Scheduler) (heal : Heal) : ExitReason → Option Slot
  | .exited _ => none
  | .killed cause => ((s.notifyCrash (heal.onCrash cause).2).toOption.bind Prod.snd)

/-- What happens to the run queue: other code changes the tasks, or the current task switches. -/
inductive Turn where
  | others (tasks : Slot → Option Task)
  | yieldNow (live : Context)
  | parkCurrent (live : Context) (state : TaskState)
  | exitCurrent (heal : Heal) (live : Context) (reason : ExitReason)

/-- One turn, if it does not panic. An exit that prefers the healer is not among them. -/
def turn (s : Scheduler) : Turn → Option Scheduler
  | .others tasks => some { s with tasks }
  | .yieldNow live => (s.yieldNow live).toOption
  | .parkCurrent live state => (s.parkCurrent live state).toOption
  | .exitCurrent heal live reason =>
    if s.preferred heal reason = none then (s.exitCurrent heal live reason).toOption.map Prod.fst
    else none

theorem pickNext_set_current (s : Scheduler) (u : Task) :
    (s.set s.current u).pickNext = s.pickNext :=
  pickNext_congr rfl fun _ hi => isReady_set_ne hi u

theorem switchTo_current {s s' : Scheduler} {live : Context} {next : Slot}
    (hne : next ≠ s.current) (h : s.switchTo live next = .ok s') : s'.current = next := by
  obtain ⟨t, u, -, -, rfl⟩ := switchTo_eq_ok hne h
  rfl

theorem parkCurrent_current {s s' : Scheduler} {live : Context} {state : TaskState}
    (h : s.parkCurrent live state = .ok s') :
    s'.current = s.pickNext ∧ s.pickNext ≠ s.current := by
  simp only [parkCurrent, Except.bind_eq_ok_iff, modify_eq_ok, Except.ite_error_eq_ok_iff] at h
  obtain ⟨s₁, ⟨t, -, rfl⟩, hne, h⟩ := h
  have hcur := switchTo_current hne h
  rw [pickNext_set_current] at hne hcur
  exact ⟨hcur, hne⟩

theorem abandon_current {s s' : Scheduler} {live : Context}
    (h : s.abandon live none = .ok s') : s'.current = s.pickNext ∧ s.pickNext ≠ s.current := by
  simp only [abandon, Except.bind_eq_ok_iff, modify_eq_ok, Except.ite_error_eq_ok_iff,
    Option.getD_none] at h
  obtain ⟨s₁, ⟨t, -, rfl⟩, hne, h⟩ := h
  have hcur := switchTo_current hne h
  rw [pickNext_set_current] at hne hcur
  exact ⟨hcur, hne⟩

theorem notifyCrash_none {s s' : Scheduler} {quarantined : Bool}
    (h : s.notifyCrash quarantined = .ok (s', none)) : s' = s := by
  simp only [notifyCrash, Except.bind_eq_ok_iff] at h
  obtain ⟨t, -, h⟩ := h
  split at h
  case isTrue =>
    split at h
    case h_1 healer _ =>
      simp only [Except.bind_eq_ok_iff, Except.pure_eq_ok_iff, Prod.mk.injEq] at h
      obtain ⟨-, -, -, hsome⟩ := h
      cases hsome
    case h_2 => exact (Prod.mk.inj (Except.ok.inj h)).1.symm
  case isFalse => exact (Prod.mk.inj (Except.ok.inj h)).1.symm

theorem exitCurrent_current {s s' : Scheduler} {heal heal' : Heal} {live : Context}
    {reason : ExitReason} (hprefer : s.preferred heal reason = none)
    (h : s.exitCurrent heal live reason = .ok (s', heal')) :
    s'.current = s.pickNext ∧ s.pickNext ≠ s.current := by
  cases reason with
  | exited code =>
    simp only [exitCurrent, Except.bind_eq_ok_iff, Except.pure_eq_ok_iff, Prod.mk.injEq] at h
    obtain ⟨s₁, h, rfl, -⟩ := h
    exact abandon_current h
  | killed cause =>
    simp only [exitCurrent, Except.bind_eq_ok_iff, Except.pure_eq_ok_iff, Prod.mk.injEq] at h
    obtain ⟨⟨s₁, prefer⟩, hnotify, s₂, h, rfl, -⟩ := h
    rw [preferred, hnotify] at hprefer
    obtain rfl : prefer = none := hprefer
    obtain rfl := notifyCrash_none hnotify
    exact abandon_current h

theorem turn_current {s s' : Scheduler} {m : Turn} (h : s.turn m = some s') :
    s'.current = s.current ∨ s'.current = s.pickNext ∧ s.pickNext ≠ s.current := by
  cases m with
  | others tasks => exact .inl (Option.some.inj h ▸ rfl)
  | yieldNow live =>
    have h := Except.toOption_eq_some_iff.mp h
    by_cases hne : s.pickNext = s.current
    · rw [yieldNow, if_pos hne] at h
      exact .inl (Except.ok.inj h ▸ rfl)
    · rw [yieldNow, if_neg hne] at h
      simp only [Except.bind_eq_ok_iff, modify_eq_ok] at h
      obtain ⟨s₁, ⟨t, -, rfl⟩, h⟩ := h
      exact .inr ⟨switchTo_current (by exact hne) h, hne⟩
  | parkCurrent live state =>
    exact .inr (parkCurrent_current (Except.toOption_eq_some_iff.mp h))
  | exitCurrent heal live reason =>
    rw [turn, Option.ite_none_right_eq_some, Option.map_eq_some_iff] at h
    obtain ⟨hprefer, ⟨s₁, heal'⟩, h, rfl⟩ := h
    exact .inr (exitCurrent_current hprefer (Except.toOption_eq_some_iff.mp h))

/-- The tasks that are switched to, in order. -/
def picks : Scheduler → List Turn → List Slot
  | _, [] => []
  | s, m :: ms => (s.turn m).elim [] fun s' =>
    if s'.current = s.current then picks s' ms else s'.current :: picks s' ms

/-- Task `t` is `Ready`, and stays so until it is picked. -/
def staysReady (t : Slot) : Scheduler → List Turn → Bool
  | s, [] => s.isReady t
  | s, m :: ms => s.isReady t && (s.turn m).all fun s' => s'.current == t || staysReady t s' ms

theorem staysReady_ready {t : Slot} {s : Scheduler} {ms : List Turn}
    (h : staysReady t s ms = true) : s.isReady t = true := by
  cases ms with
  | nil => exact h
  | cons m ms => exact (Bool.and_eq_true_iff.mp h).1

theorem staysReady_turn {t : Slot} {s s' : Scheduler} {m : Turn} {ms : List Turn}
    (h : staysReady t s (m :: ms) = true) (hturn : s.turn m = some s') (hne : s'.current ≠ t) :
    staysReady t s' ms = true := by
  have hrest := (Bool.and_eq_true_iff.mp h).2
  rw [hturn, Option.all_some, Bool.or_eq_true] at hrest
  exact hrest.resolve_left fun heq => hne (eq_of_beq heq)

theorem picks_toward {t : Slot} {s : Scheduler} {ms : List Turn} (ht : t ≠ s.current)
    (h : staysReady t s ms = true) :
    (((picks s ms).takeWhile (· ≠ t)).Pairwise fun i j => distance j t < distance i t) ∧
      ∀ i ∈ (picks s ms).takeWhile (· ≠ t), distance i t < distance s.current t := by
  induction ms generalizing s with
  | nil => exact ⟨List.Pairwise.nil, fun i hi => by cases hi⟩
  | cons m ms ih =>
    cases hturn : s.turn m with
    | none => simp [picks, hturn]
    | some s' =>
      simp only [picks, hturn, Option.elim_some]
      split
      case isTrue hsame =>
        have hrest := staysReady_turn h hturn (hsame ▸ ht.symm)
        rw [← hsame] at ht ⊢
        exact ih ht hrest
      case isFalse hswitch =>
        have hnear : distance s'.current t < distance s.current t := by
          have hpick := (turn_current hturn).resolve_left hswitch
          rw [hpick.1]
          exact (pickNext_toward ht (staysReady_ready h)).2
        by_cases hpicked : s'.current = t
        · simp [hpicked]
        · obtain ⟨hpair, hbound⟩ := ih (Ne.symm hpicked) (staysReady_turn h hturn hpicked)
          rw [List.takeWhile_cons_of_pos (by simpa using hpicked)]
          refine ⟨List.pairwise_cons.mpr ⟨hbound, hpair⟩, fun i hi => ?_⟩
          rcases List.mem_cons.mp hi with rfl | hi
          · exact hnear
          · exact (hbound i hi).trans hnear

theorem length_lt_of_decreasing {α : Type*} {f : α → Nat} {l : List α} {n : Nat} (hn : 0 < n)
    (hpair : l.Pairwise fun i j => f j < f i) (hpos : ∀ i ∈ l, 0 < f i)
    (hbound : ∀ i ∈ l, f i < n) : l.length < n := by
  induction l generalizing n with
  | nil => exact hn
  | cons i l ih =>
    obtain ⟨hi, hpair⟩ := List.pairwise_cons.mp hpair
    have hlen := ih (hpos i (.head _)) hpair (fun j hj => hpos j (.tail _ hj)) hi
    have hin := hbound i (.head _)
    rw [List.length_cons]
    omega

theorem picks_before_lt {t : Slot} {s : Scheduler} {ms : List Turn} (ht : t ≠ s.current)
    (h : staysReady t s ms = true) : ((picks s ms).takeWhile (· ≠ t)).length < maxTasks - 1 := by
  obtain ⟨hpair, hbound⟩ := picks_toward ht h
  have hlt := distance_lt s.current t
  have hlen := length_lt_of_decreasing (distance_pos ht) hpair (fun i hi => ?_) hbound
  · simp only [maxTasks] at hlt ⊢
    omega
  · have hne : i ≠ t := by simpa using List.mem_takeWhile_imp hi
    exact distance_pos hne.symm

theorem mem_take_of_takeWhile {α : Type*} [DecidableEq α] {t : α} {l : List α} {n : Nat}
    (h : (l.takeWhile (· ≠ t)).length < n) (hn : n ≤ l.length) : t ∈ l.take n := by
  induction l generalizing n with
  | nil =>
    rw [List.length_nil] at hn
    omega
  | cons i l ih =>
    obtain ⟨n, rfl⟩ : ∃ k, n = k + 1 := ⟨n - 1, by omega⟩
    rw [List.take_succ_cons, List.mem_cons]
    by_cases hi : i = t
    · exact .inl hi.symm
    · rw [List.takeWhile_cons_of_pos (by simpa using hi), List.length_cons] at h
      rw [List.length_cons] at hn
      exact .inr (ih (by omega) (by omega))

/-- A task that is `Ready`, and stays so until it is picked, is among the first
`MAX_TASKS - 1` tasks that are switched to; no task is switched to twice before it; and
`pick_next` returns `current` exactly when no other task is `Ready`. -/
theorem waiting_bounded {t : Slot} {s : Scheduler} {ms : List Turn} (ht : t ≠ s.current)
    (h : staysReady t s ms = true) :
    (maxTasks - 1 ≤ (picks s ms).length → t ∈ (picks s ms).take (maxTasks - 1)) ∧
    ((picks s ms).takeWhile (· ≠ t)).Nodup ∧
    ∀ s' : Scheduler, s'.pickNext = s'.current ↔ ∀ i, i ≠ s'.current → s'.isReady i = false := by
  refine ⟨fun hmany => ?_, ?_, pickNext_eq_current_iff⟩
  · exact mem_take_of_takeWhile (picks_before_lt ht h) hmany
  · exact (picks_toward ht h).1.imp fun hij heq => by
      rw [heq] at hij
      exact Nat.lt_irrefl _ hij

/-- All tasks are there: `i` runs, the others are `Ready`. -/
def fullTable (i : Slot) : Scheduler where
  tasks := fun j => some ⟨.zeroed, if j = i then .running else .ready, 0, "", 0, .empty, .empty, none,
    0, 0, none, none⟩
  current := i

/-- Each of the first 26 tasks yields in turn. -/
def fullRotation : List Turn :=
  (List.finRange maxTasks).dropLast.flatMap fun i => [.others (fullTable i).tasks, .yieldNow .zeroed]

/-- The last task of a full table is the 26th that task 0 waits for. -/
theorem waiting_bounded_full :
    picks (fullTable 0) fullRotation = (List.finRange maxTasks).tail ∧
    26 ∈ (picks (fullTable 0) fullRotation).take (maxTasks - 1) ∧
    ((picks (fullTable 0) fullRotation).takeWhile (· ≠ 26)).Nodup := by
  have hpicks : picks (fullTable 0) fullRotation = (List.finRange maxTasks).tail := by
    decide +kernel
  have hready : staysReady 26 (fullTable 0) fullRotation = true := by decide +kernel
  have hbound := waiting_bounded (by decide) hready
  exact ⟨hpicks, hbound.1 (by rw [hpicks]; decide), hbound.2.1⟩

end Perenne.Scheduler

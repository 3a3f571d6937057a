import Perenne.Lib.Prog

/-!
Programs without a state of their own, played against a world that answers each call as it
likes or that has a state and moves by itself, and loops over such programs.
-/

namespace Prog

variable {ε ι ο α β : Type}

/-- Call number `n` gets answer number `n`. The result, and the calls made with their
answers. -/
def play (answers : Nat → ο) : Prog ε ι ο Unit α → Nat → Except ε α × List (ι × ο)
  | .ret a, _ => (.ok a, [])
  | .stop e, _ => (.error e, [])
  | .act _ k, n => (k ()).play answers n
  | .call i k, n => (((k (answers n)).play answers (n + 1)).1,
      (i, answers n) :: ((k (answers n)).play answers (n + 1)).2)

/-- A loop before its `k`-th round: the value it carries and the number of calls made so far,
or nothing once it has exited. -/
def reach (answers : Nat → ο) (start : Prog ε ι ο Unit α) (round : α → Prog ε ι ο Unit (Option α)) :
    Nat → Except ε (Option (α × Nat))
  | 0 =>
    let r := start.play answers 0
    r.1.map fun a => some (a, r.2.length)
  | k + 1 =>
    match reach answers start round k with
    | .ok (some (a, n)) =>
      let r := (round a).play answers n
      r.1.map fun a' => a'.map (·, n + r.2.length)
    | r => r

section Rules

variable {answers : Nat → ο} {p : Prog ε ι ο Unit α} {n : Nat}

theorem play_bind_ok {f : α → Prog ε ι ο Unit β} {a : α} (h : (p.play answers n).1 = .ok a) :
    (p >>= f).play answers n =
      (((f a).play answers (n + (p.play answers n).2.length)).1,
        (p.play answers n).2 ++ ((f a).play answers (n + (p.play answers n).2.length)).2) := by
  induction p generalizing n with
  | ret b =>
    cases h
    rfl
  | stop e => cases h
  | act u k ih => exact ih () h
  | call i k ih =>
    have hk := ih (answers n) h
    change (((k (answers n) >>= f).play answers (n + 1)).1,
      (i, answers n) :: ((k (answers n) >>= f).play answers (n + 1)).2) = _
    rw [hk]
    simp only [play, List.length_cons, List.cons_append, Nat.add_right_comm n 1,
      ← Nat.add_assoc]

variable {start : Prog ε ι ο Unit α} {round : α → Prog ε ι ο Unit (Option α)} {k : Nat} {a : α}

theorem reach_succ {a' : Option α} (h : reach answers start round k = .ok (some (a, n)))
    (hround : ((round a).play answers n).1 = .ok a') :
    reach answers start round (k + 1) =
      .ok (a'.map (·, n + ((round a).play answers n).2.length)) := by
  rw [reach, h]
  simp only [hround]
  rfl

theorem reach_val (round : α → Prog ε ι ο Unit (Option α)) (val : Nat → α) (exits : Prop)
    {K : Nat}
    (hstart : (start.play answers 0).1 = .ok (val 0))
    (hround : ∀ k n, k < K → ((round (val k)).play answers n).1 = .ok (some (val (k + 1))) ∨
      exits ∧ ((round (val k)).play answers n).1 = .ok none) (hk : k ≤ K) :
    (∃ n, reach answers start round k = .ok (some (val k, n))) ∨
      exits ∧ reach answers start round k = .ok none := by
  induction k with
  | zero =>
    left
    refine ⟨(start.play answers 0).2.length, ?_⟩
    rw [reach, hstart]
    rfl
  | succ k ih =>
    rcases ih (by omega) with ⟨n, hn⟩ | ⟨hexits, hn⟩
    · rcases hround k n (by omega) with hr | ⟨hexits, hr⟩
      · exact .inl ⟨_, reach_succ hn hr⟩
      · exact .inr ⟨hexits, reach_succ hn hr⟩
    · right
      refine ⟨hexits, ?_⟩
      rw [reach, hn]

theorem reach_fails {K : Nat} {e : ε} (h : reach answers start round K = .ok (some (a, n)))
    (hround : ((round a).play answers n).1 = .error e) (hk : K < k) :
    reach answers start round k = .error e := by
  induction k with
  | zero => cases hk
  | succ k ih =>
    rcases Nat.lt_or_ge K k with hlt | hge
    · rw [reach, ih hlt]
    · obtain rfl : K = k := by omega
      rw [reach, h]
      simp only [hround]
      rfl

end Rules

section Surely

variable {τ : Type}

/-- Against a world with a state, which may also move by itself: in every order of the program's
calls and the world's moves, the program returns, and `Q` holds then. -/
inductive Surely (answer : τ → ι → ο → τ → Prop) (move : τ → τ → Prop) (Q : α → τ → Prop) :
    Prog ε ι ο Unit α → τ → Prop where
  | ret {a : α} {t : τ} (h : Q a t) : Surely answer move Q (.ret a) t
  | act {u : Unit → Unit} {k : Unit → Prog ε ι ο Unit α} {t : τ}
    (h : Surely answer move Q (k ()) t)
    (hmove : ∀ t', move t t' → Surely answer move Q (.act u k) t') :
    Surely answer move Q (.act u k) t
  | call {i : ι} {k : ο → Prog ε ι ο Unit α} {t : τ}
    (hgo : (∃ o t', answer t i o t') ∨ ∃ t', move t t')
    (hcall : ∀ o t', answer t i o t' → Surely answer move Q (k o) t')
    (hmove : ∀ t', move t t' → Surely answer move Q (.call i k) t') :
    Surely answer move Q (.call i k) t

variable {answer : τ → ι → ο → τ → Prop} {move : τ → τ → Prop} {Q : α → τ → Prop}
  {R : β → τ → Prop} {p : Prog ε ι ο Unit α} {t : τ}

theorem Surely.bind {f : α → Prog ε ι ο Unit β} (h : Surely answer move Q p t)
    (hf : ∀ a t, Q a t → Surely answer move R (f a) t) : Surely answer move R (p >>= f) t := by
  induction h with
  | ret ha => exact hf _ _ ha
  | act _ _ ih ihm => exact .act ih ihm
  | call hgo _ _ ihc ihm => exact .call hgo ihc ihm

theorem Surely.still {i : ι} {k : ο → Prog ε ι ο Unit α} (hstill : ∀ t', ¬ move t t')
    (hgo : ∃ o t', answer t i o t')
    (hcall : ∀ o t', answer t i o t' → Surely answer move Q (k o) t') :
    Surely answer move Q (.call i k) t :=
  .call (.inl hgo) hcall fun t' ht' => absurd ht' (hstill t')

/-- So many rounds of a loop; nothing once it has exited. -/
def rounds {σ : Type} (round : α → Prog ε ι ο σ (Option α)) : Nat → α → Prog ε ι ο σ (Option α)
  | 0, a => .ret (some a)
  | n + 1, a => round a >>= fun
    | some a => rounds round n a
    | none => .ret none

theorem Surely.rounds {round : α → Prog ε ι ο Unit (Option α)} {val : Nat → α}
    {Inv : Nat → τ → Prop} {K n : Nat} (hround : ∀ k t, k < K → Inv k t →
      Surely answer move (fun a t' => a = some (val (k + 1)) ∧ Inv (k + 1) t') (round (val k)) t)
    {k : Nat} (hk : k + n ≤ K) (h : Inv k t) :
    Surely answer move (fun a t' => a = some (val (k + n)) ∧ Inv (k + n) t')
      (Prog.rounds round n (val k)) t := by
  induction n generalizing k t with
  | zero => exact .ret ⟨rfl, h⟩
  | succ n ih =>
    refine (hround k t (by omega) h).bind ?_
    rintro _ t' ⟨rfl, h'⟩
    have hrest := ih (by omega) h'
    rwa [Nat.add_right_comm k 1 n] at hrest

end Surely

end Prog

import Mathlib.Algebra.BigOperators.Group.List.Basic
import Mathlib.Algebra.GroupWithZero.Nat

/-!
One's-complement sums. A number runs up to `M`, where `0` and `M` both stand for zero, and the
carry of a sum is added back in. The sum of a list can be taken with plain carries first: only
the remainder modulo `M` matters, and whether everything was zero.
-/

namespace OnesComplement

variable {M n x y : Nat}

/-- Addition with the carry going around. -/
def add (M x y : Nat) : Nat := if x + y ≤ M then x + y else x + y - M

def sum (M : Nat) (l : List Nat) : Nat := l.foldl (add M) 0

/-- What a plain sum comes to once its carries have gone around: a sum of something is never
the first zero, only the second. -/
def wrap (M n : Nat) : Nat := if n = 0 then 0 else (n - 1) % M + 1

theorem wrap_of_le (h : n ≤ M) : wrap M n = n := by
  rw [wrap]
  split
  case isTrue h0 => exact h0.symm
  case isFalse h0 =>
    rw [Nat.mod_eq_of_lt (by omega)]
    omega

theorem wrap_le (hM : 0 < M) : wrap M n ≤ M := by
  rw [wrap]
  split
  case isTrue => exact Nat.zero_le M
  case isFalse => exact Nat.mod_lt _ hM

theorem wrap_add_mul (h : 0 < n) (k : Nat) : wrap M (n + k * M) = wrap M n := by
  have hsub : n + k * M - 1 = n - 1 + k * M := by omega
  rw [wrap, wrap, if_neg (by omega), if_neg (by omega), hsub, Nat.add_mul_mod_self_right]

theorem add_wrap (hM : 0 < M) (hy : y ≤ M) : add M (wrap M n) y = wrap M (n + y) := by
  by_cases hn : n = 0
  · subst hn
    rw [wrap, if_pos rfl, add, Nat.zero_add, if_pos hy, wrap_of_le hy]
  · have hpos : 0 < (n - 1) % M + 1 := Nat.succ_pos _
    have hsplit : n + y = (n - 1) % M + 1 + y + (n - 1) / M * M := by
      have := Nat.mod_add_div' (n - 1) M
      omega
    have hlt : (n - 1) % M + 1 ≤ M := Nat.mod_lt (n - 1) hM
    rw [hsplit, wrap_add_mul (by omega), wrap, if_neg hn]
    generalize (n - 1) % M + 1 = r at hpos hlt
    rw [add]
    split
    case isTrue hle => rw [wrap_of_le hle]
    case isFalse hgt =>
      have hcarry : wrap M (r + y - M + 1 * M) = r + y - M := by
        rw [wrap_add_mul (by omega), wrap_of_le (by omega)]
      rw [← hcarry]
      congr 1
      omega

theorem sum_eq_wrap (hM : 0 < M) {l : List Nat} (hl : ∀ x ∈ l, x ≤ M) :
    sum M l = wrap M l.sum := by
  have hfold (l : List Nat) (hl : ∀ x ∈ l, x ≤ M) (n : Nat) :
      l.foldl (add M) (wrap M n) = wrap M (n + l.sum) := by
    induction l generalizing n with
    | nil => rfl
    | cons x l ih =>
      rw [List.foldl_cons, add_wrap hM (hl x List.mem_cons_self),
        ih (fun y hy => hl y (List.mem_cons_of_mem x hy)), List.sum_cons, Nat.add_assoc]
  have h := hfold l hl 0
  rwa [wrap_of_le (Nat.zero_le M), Nat.zero_add] at h

theorem wrap_carry (n : Nat) : wrap M (n % (M + 1) + n / (M + 1)) = wrap M n := by
  have hdiv := Nat.mod_add_div n (M + 1)
  by_cases hn : n = 0
  · rw [hn, Nat.zero_mod, Nat.zero_div]
  have hpos : 0 < n % (M + 1) + n / (M + 1) := by
    rcases Nat.eq_zero_or_pos (n / (M + 1)) with h0 | hpos
    · rw [h0] at hdiv ⊢
      omega
    · omega
  rw [← wrap_add_mul hpos (n / (M + 1))]
  congr 1
  rw [Nat.add_mul, Nat.one_mul, Nat.mul_comm] at hdiv
  omega

theorem wrap_add_compl (hM : 0 < M) (n : Nat) : wrap M (n + (M - wrap M n)) = M := by
  rw [← add_wrap hM (Nat.sub_le M _), add, Nat.add_sub_cancel' (wrap_le hM),
    if_pos (Nat.le_refl M)]

end OnesComplement

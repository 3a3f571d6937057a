import Perenne.Wire
import Perenne.Lib.OnesComplement

namespace Perenne

namespace Net

open OnesComplement (wrap)

/-- The words of a slice, an odd last byte in the high half of its word. -/
def words : Bytes → List Nat
  | [] => []
  | [a] => [a.toNat * 256]
  | a :: b :: l => (a.toNat * 256 + b.toNat) :: words l

theorem le_of_mem_words (bytes : Bytes) : ∀ x ∈ words bytes, x ≤ 65535 := by
  fun_induction words bytes with
  | case1 => simp
  | case2 a =>
    have ha := a.toNat_lt
    simp only [List.mem_singleton, forall_eq]
    omega
  | case3 a b l ih =>
    have ha := a.toNat_lt
    have hb := b.toNat_lt
    simp only [List.mem_cons, forall_eq_or_imp]
    exact ⟨by omega, ih⟩

theorem words_append {p : Bytes} (hp : p.length % 2 = 0) (l : Bytes) :
    words (p ++ l) = words p ++ words l := by
  fun_induction words p with
  | case1 => rfl
  | case2 a => cases hp
  | case3 a b p ih =>
    rw [List.cons_append, List.cons_append, words, ih (by simp only [List.length_cons] at hp; omega),
      List.cons_append]

theorem words_toBeBytes {n : Nat} (h : n < 2 ^ 16) (l : Bytes) :
    words (toBeBytes n ++ l) = n :: words l := by
  have hword := wordAt_toBeBytes h l
  change wordAt (toBeBytes n ++ l) 0 :: words l = n :: words l
  rw [hword]

theorem sum_words_le (bytes : Bytes) :
    2 * (words bytes).sum ≤ (bytes.length + 1) * 65535 := by
  fun_induction words bytes with
  | case1 => simp
  | case2 a =>
    have ha := a.toNat_lt
    simp only [List.sum_singleton, List.length_singleton]
    omega
  | case3 a b l ih =>
    have ha := a.toNat_lt
    have hb := b.toNat_lt
    simp only [List.sum_cons, List.length_cons]
    omega

namespace Ipv4

theorem addU32_add (x y z : Nat) : addU32 (x + y) z = addU32 x (y + z) := by
  rw [addU32, addU32, Nat.add_assoc]

theorem addU32_overflow {x y : Nat} (h : ¬ x + y < 2 ^ 32) (z : Nat) :
    addU32 x (y + z) = .error .overflow := if_neg (by omega)

theorem addWords_run {bytes : Bytes} (hsize : bytes.length < 2 ^ 63) (n : Nat) {sum i : Nat}
    (hn : bytes.length < n + i) (hi : i ≤ bytes.length) (hsum : sum < 2 ^ 32) :
    Iter.run .hang (addWords bytes) n (sum, i) = addU32 sum (words (bytes.drop i)).sum := by
  -- by the number of rounds: what is left to add are the words behind `i`
  induction n generalizing sum i with
  | zero => omega
  | succ n ih =>
    rw [Iter.run, addWords, addUsize_ok (by omega), ok_bind]
    by_cases hword : i + 1 < bytes.length
    · have hdrop : bytes.drop i = byteAt bytes i :: byteAt bytes (i + 1) :: bytes.drop (i + 2) := by
        rw [List.drop_eq_getElem_cons (by omega), List.drop_eq_getElem_cons hword]
        simp only [byteAt, List.getD_eq_getElem?_getD, List.getElem?_eq_getElem hword,
          List.getElem?_eq_getElem (show i < bytes.length by omega), Option.getD_some]
      rw [if_pos hword, index_ok (by omega), ok_bind, index_ok hword, ok_bind, hdrop, words,
        List.sum_cons]
      by_cases hfit : sum + ((byteAt bytes i).toNat * 256 + (byteAt bytes (i + 1)).toNat) < 2 ^ 32
      · rw [addU32, if_pos hfit, ok_bind, addUsize_ok (by omega), ok_bind]
        exact (ih (by omega) (by omega) hfit).trans (addU32_add ..)
      · rw [addU32, if_neg hfit, addU32_overflow hfit]
        rfl
    · rw [if_neg hword]
      by_cases hlast : i < bytes.length
      · have hdrop : bytes.drop i = [byteAt bytes i] := by
          rw [List.drop_eq_getElem_cons hlast, List.drop_of_length_le (by omega)]
          simp only [byteAt, List.getD_eq_getElem?_getD, List.getElem?_eq_getElem hlast,
            Option.getD_some]
        rw [if_pos hlast, index_ok hlast, ok_bind, hdrop, words, List.sum_singleton, addU32]
        split
        · rfl
        · rfl
      · rw [if_neg hlast, List.drop_of_length_le (by omega), words, List.sum_nil, addU32,
          if_pos (by omega)]
        rfl

theorem foldCarry_run (n : Nat) {sum : Nat} (hn : sum < n) (hsum : sum < 2 ^ 32) :
    Iter.run .hang foldCarry n sum = .ok (wrap 65535 sum) := by
  induction n generalizing sum with
  | zero => cases hn
  | succ n ih =>
    rw [Iter.run, foldCarry]
    by_cases hcarry : sum / 2 ^ 16 ≠ 0
    · have hfit : sum % 2 ^ 16 + sum / 2 ^ 16 < 2 ^ 32 := by omega
      rw [if_pos hcarry, addU32, if_pos hfit, ok_bind]
      exact (ih (by omega) hfit).trans (congrArg _ (OnesComplement.wrap_carry sum))
    · rw [if_neg hcarry, OnesComplement.wrap_of_le (by omega)]
      rfl

/-- What the checksum field of a slice gets while it is still zero. -/
def filled (bytes : Bytes) : Nat := 65535 - wrap 65535 (words bytes).sum

theorem filled_lt (bytes : Bytes) : filled bytes < 2 ^ 16 := by
  rw [filled]
  omega

theorem checksum_eq {bytes : Bytes} (hsize : bytes.length < 2 ^ 63) :
    checksum bytes = if (words bytes).sum < 2 ^ 32 then .ok (filled bytes)
      else .error .overflow := by
  rw [checksum, addWords_run hsize _ (by omega) (Nat.zero_le _) (by decide), List.drop_zero, addU32,
    Nat.zero_add]
  by_cases hfit : (words bytes).sum < 2 ^ 32
  · have hle : wrap 65535 (words bytes).sum ≤ 65535 := OnesComplement.wrap_le (by decide)
    rw [if_pos hfit, if_pos hfit, ok_bind, foldCarry_run _ (Nat.lt_succ_self _) hfit, ok_bind,
      Nat.mod_eq_of_lt (by omega)]
    rfl
  · rw [if_neg hfit, if_neg hfit]
    rfl

theorem checksum_ok {bytes : Bytes} (h : bytes.length ≤ 131070) :
    checksum bytes = .ok (filled bytes) := by
  have hsum := sum_words_le bytes
  rw [checksum_eq (by omega), if_pos (by omega)]

theorem checksum_filled {p : Bytes} (hp : p.length % 2 = 0) (q : Bytes)
    (h : (p ++ ([0, 0] ++ q)).length ≤ 131070) :
    checksum (p ++ (toBeBytes (filled (p ++ ([0, 0] ++ q))) ++ q)) = .ok 0 := by
  have hzero : (words (p ++ ([0, 0] ++ q))).sum = (words p).sum + (words q).sum := by
    rw [words_append hp, List.sum_append]
    change _ + (0 + (words q).sum) = _
    rw [Nat.zero_add]
  generalize hbytes : p ++ ([0, 0] ++ q) = bytes at h hzero
  have hlen : (p ++ (toBeBytes (filled bytes) ++ q)).length = bytes.length := by
    simp only [← hbytes, List.length_append, length_toBeBytes, List.length_cons, List.length_nil]
  have hsum : (words (p ++ (toBeBytes (filled bytes) ++ q))).sum =
      (words bytes).sum + (65535 - wrap 65535 (words bytes).sum) := by
    rw [words_append hp, words_toBeBytes (filled_lt bytes), List.sum_append, List.sum_cons, hzero,
      filled, hzero]
    omega
  rw [checksum_ok (by omega), filled, hsum, OnesComplement.wrap_add_compl (by decide)]

end Ipv4

/-- `ipv4::checksum` is the complement of the one's-complement sum of the words, and a slice that
holds its own checksum at an even offset checksums to zero. -/
theorem checksum_is_rfc1071 (bytes : Bytes) (h : bytes.length ≤ 131070) :
    Ipv4.checksum bytes = .ok (~~~ UInt16.ofNat (OnesComplement.sum 65535 (words bytes))).toNat ∧
      ∀ k c, k % 2 = 0 → k + 2 ≤ bytes.length → bytes[k]? = some 0 → bytes[k + 1]? = some 0 →
        Ipv4.checksum bytes = .ok c → Ipv4.checksum (splice bytes k (toBeBytes c)) = .ok 0 := by
  have hM : 0 < 65535 := by decide
  refine ⟨?_, fun k c hk hfit hhi hlo hc => ?_⟩
  · have hle : wrap 65535 (words bytes).sum ≤ 65535 := OnesComplement.wrap_le hM
    rw [Ipv4.checksum_ok h, Ipv4.filled, OnesComplement.sum_eq_wrap hM (le_of_mem_words bytes), UInt16.toNat_not,
      UInt16.toNat_ofNat_of_lt' (by simp only [UInt16.size]; omega)]
    rfl
  · have hsplit : bytes = bytes.take k ++ ([0, 0] ++ bytes.drop (k + 2)) := by
      obtain ⟨hk0, hhi⟩ := List.getElem?_eq_some_iff.mp hhi
      obtain ⟨hk1, hlo⟩ := List.getElem?_eq_some_iff.mp hlo
      conv => lhs; rw [← List.take_append_drop k bytes, List.drop_eq_getElem_cons hk0,
        List.drop_eq_getElem_cons hk1, hhi, hlo]
      rfl
    have htake : (bytes.take k).length = k := by
      rw [List.length_take]
      omega
    have hfilled := Ipv4.checksum_filled (p := bytes.take k) (by rw [htake]; exact hk)
      (bytes.drop (k + 2)) (by rwa [← hsplit])
    rw [← hsplit] at hfilled
    obtain rfl : Ipv4.filled bytes = c :=
      Except.ok.inj ((Ipv4.checksum_ok h).symm.trans hc)
    rw [splice, length_toBeBytes, List.append_assoc]
    exact hfilled

/-- Five bytes, with the field in the middle. -/
theorem checksum_is_rfc1071_odd :
    [0x45, 0xff, 0, 0, 0x80].length ≤ 131070 ∧
      Ipv4.checksum (splice [0x45, 0xff, 0, 0, 0x80] 2 (toBeBytes 0x3a00)) = .ok 0 :=
  ⟨by decide, (checksum_is_rfc1071 [0x45, 0xff, 0, 0, 0x80] (by decide)).2 2 0x3a00 (by decide)
    (by decide) (by decide) (by decide) (by decide +kernel)⟩

end Net

end Perenne

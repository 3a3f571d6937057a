import Perenne.Net

namespace Perenne

namespace Net

abbrev Mac := Vector UInt8 6

abbrev Ip := Vector UInt8 4

def byteAt (bs : Bytes) (i : Nat) : UInt8 := bs.getD i 0

def wordAt (bs : Bytes) (i : Nat) : Nat := (byteAt bs i).toNat * 256 + (byteAt bs (i + 1)).toNat

@[simp] theorem ok_bind {α β : Type} (a : α) (f : α → Checked β) :
    ((.ok a : Checked α) >>= f) = f a := rfl

@[simp] theorem length_toBeBytes (n : Nat) : (toBeBytes n).length = 2 := rfl

section Reads

variable {bs a b : Bytes} {i j start stop n x y : Nat}

theorem addUsize_ok (h : x + y < 2 ^ 64) : addUsize x y = .ok (x + y) := if_pos h

theorem subUsize_ok (h : y ≤ x) : subUsize x y = .ok (x - y) := if_pos h

theorem index_ok (h : i < bs.length) : index bs i = .ok (byteAt bs i) := by
  rw [index, byteAt, List.getD_eq_getElem?_getD, List.getElem?_eq_getElem h]
  rfl

theorem sub_ok (h : start ≤ stop ∧ stop ≤ bs.length) :
    sub bs start stop = .ok (slice bs start (stop - start)) := if_pos h

theorem byteAt_slice (h : i < n) : byteAt (slice bs start n) i = byteAt bs (start + i) := by
  simp only [byteAt, slice, List.getD_eq_getElem?_getD, List.getElem?_take_of_lt h,
    List.getElem?_drop]

theorem field_ok (h : start + 2 ≤ stop ∧ stop ≤ bs.length) :
    field bs start stop = .ok (wordAt bs start) := by
  have hlen : (slice bs start (stop - start)).length = stop - start := length_slice (by omega)
  rw [field, sub_ok (by omega), ok_bind, be16, index_ok (by omega), ok_bind, index_ok (by omega),
    ok_bind, byteAt_slice (by omega), byteAt_slice (by omega)]
  rfl

theorem fieldAt_ok (h : start + 2 ≤ stop ∧ x + stop ≤ bs.length) (hsize : x + stop < 2 ^ 64) :
    fieldAt bs x start stop = .ok (wordAt bs (x + start)) := by
  rw [fieldAt, addUsize_ok (by omega), ok_bind, addUsize_ok hsize, ok_bind, field_ok (by omega)]

theorem array_ok (h : start + n = stop ∧ stop ≤ bs.length) :
    array n bs start stop = .ok (slice bs start n) := by
  have hlen : (slice bs start n).length = n := length_slice (by omega)
  have hstop : stop - start = n := by omega
  rw [array, sub_ok (by omega), ok_bind, hstop, copy, List.length_replicate, if_pos (by omega),
    if_pos (by omega), splice, hlen, List.take_zero, List.nil_append, Nat.zero_add,
    List.drop_of_length_le (by simp), List.append_nil]

/-- The length that the first byte of the IPv4 header gives. -/
def headerLen (frame : Bytes) : Nat := (byteAt frame 14 &&& 0x0f).toNat * 4

theorem headerLen_le (frame : Bytes) : headerLen frame ≤ 60 := by
  have h : (byteAt frame 14 &&& 0x0f).toNat ≤ 15 := by
    rw [UInt8.toNat_and]
    exact Nat.and_le_right
  rw [headerLen]
  omega

theorem ihl_ok (h : 15 ≤ bs.length) :
    ihl bs = .ok (if 20 ≤ headerLen bs ∧ headerLen bs + 22 ≤ bs.length then some (headerLen bs)
      else none) := by
  have hle := headerLen_le bs
  have hmul : mulUsize (byteAt bs 14 &&& 0x0f).toNat 4 = .ok (headerLen bs) :=
    if_pos (by rw [headerLen] at hle; omega)
  rw [ihl, index_ok (by omega), ok_bind, hmul, ok_bind]
  by_cases hshort : headerLen bs < 20
  · rw [if_pos hshort, if_neg (by omega)]
    rfl
  rw [if_neg hshort, addUsize_ok (by omega), ok_bind, addUsize_ok (by omega), ok_bind]
  by_cases hfit : bs.length < 14 + headerLen bs + 8
  · rw [if_pos hfit, if_neg (by omega)]
    rfl
  · rw [if_neg hfit, if_pos (by omega)]
    rfl

end Reads

section Pieces

variable {a b : Bytes} {i n : Nat}

theorem byteAt_append_left (h : i < a.length) : byteAt (a ++ b) i = byteAt a i := by
  simp only [byteAt, List.getD_eq_getElem?_getD, List.getElem?_append_left h]

theorem byteAt_append_right (i : Nat) : byteAt (a ++ b) (a.length + i) = byteAt b i := by
  simp only [byteAt, List.getD_eq_getElem?_getD, List.getElem?_append_right (Nat.le_add_right _ _),
    Nat.add_sub_cancel_left]

theorem slice_append_left (h : i + n ≤ a.length) : slice (a ++ b) i n = slice a i n := by
  rw [slice, slice, List.drop_append_of_le_length (by omega),
    List.take_append_of_le_length (by rw [List.length_drop]; omega)]

theorem sub_append (ha : a.length = i) (hb : i + b.length = n) (l : Bytes) :
    sub (a ++ (b ++ l)) i n = .ok b := by
  have hlen : (a ++ (b ++ l)).length = n + l.length := by
    rw [List.length_append, List.length_append]
    omega
  rw [sub_ok (by omega), slice, ← ha, List.drop_left, List.take_left' (by omega)]

theorem wordAt_toBeBytes (h : n < 2 ^ 16) (l : Bytes) : wordAt (toBeBytes n ++ l) 0 = n := by
  change (UInt8.ofNat (n / 256)).toNat * 256 + (UInt8.ofNat n).toNat = n
  rw [UInt8.toNat_ofNat', UInt8.toNat_ofNat']
  omega

end Pieces

section Rest

variable {bs a l : Bytes} {b : UInt8} {i : Nat}

theorem rest_cons (h : bs.drop i = b :: l) :
    i < bs.length ∧ byteAt bs i = b ∧ bs.drop (i + 1) = l := by
  have hi : i < bs.length := by
    by_contra hge
    rw [List.drop_of_length_le (Nat.le_of_not_lt hge)] at h
    cases h
  rw [List.drop_eq_getElem_cons hi] at h
  obtain ⟨hb, hl⟩ := List.cons.inj h
  refine ⟨hi, ?_, hl⟩
  rw [byteAt, List.getD_eq_getElem?_getD, List.getElem?_eq_getElem hi, hb]
  rfl

theorem getElem?_rest (h : bs.drop i = b :: l) : bs[i]? = some b := by
  rw [← List.head?_drop, h]
  rfl

theorem rest_append (h : bs.drop i = a ++ l) : bs.drop (i + a.length) = l := by
  rw [← List.drop_drop, h, List.drop_left]

theorem slice_rest (h : bs.drop i = a ++ l) : slice bs i a.length = a := by
  rw [slice, h, List.take_left]

theorem length_rest (h : bs.drop i = l) : bs.length - i = l.length := by
  rw [← h, List.length_drop]

theorem wordAt_rest {n : Nat} (h : bs.drop i = toBeBytes n ++ l) (hn : n < 2 ^ 16) :
    wordAt bs i = n := by
  obtain ⟨-, hhi, h⟩ := rest_cons h
  obtain ⟨-, hlo, -⟩ := rest_cons h
  rw [wordAt, hhi, hlo]
  exact wordAt_toBeBytes hn []

end Rest

section Writes

variable {w out part old l : Bytes} {b : UInt8} {i start stop : Nat}

theorem store_next (hw : w.length = i) (hout : i < out.length) :
    store (w ++ out.drop i) i b = .ok (w ++ [b] ++ out.drop (i + 1)) := by
  have hlen : i < (w ++ out.drop i).length := by
    rw [List.length_append, List.length_drop]
    omega
  rw [store, if_pos hlen, List.set_append_right _ _ hw.le, hw, Nat.sub_self,
    List.drop_eq_getElem_cons hout, List.set_cons_zero, List.append_assoc]
  rfl

theorem copy_next (hw : w.length = start) (hpart : start + part.length = stop)
    (hout : stop ≤ out.length) :
    copy (w ++ out.drop start) start stop part = .ok (w ++ part ++ out.drop stop) := by
  have hlen : (w ++ out.drop start).length = out.length := by
    rw [List.length_append, List.length_drop]
    omega
  subst hw
  rw [copy, if_pos (by omega), if_pos (by omega), splice, List.take_left,
    List.drop_length_add_append, List.drop_drop, hpart]

theorem store_over {x : UInt8} (hw : w.length = i) :
    store (w ++ x :: l) i b = .ok (w ++ b :: l) := by
  have hlen : i < (w ++ x :: l).length := by
    rw [List.length_append, List.length_cons]
    omega
  rw [store, if_pos hlen, List.set_append_right _ _ hw.le, hw, Nat.sub_self, List.set_cons_zero]

theorem copy_over (hw : w.length = start) (hold : start + old.length = stop)
    (hpart : part.length = old.length) :
    copy (w ++ (old ++ l)) start stop part = .ok (w ++ (part ++ l)) := by
  have hlen : (w ++ (old ++ l)).length = stop + l.length := by
    rw [List.length_append, List.length_append]
    omega
  subst hw
  rw [copy, if_pos (by omega), if_pos (by omega), splice, List.take_left,
    List.drop_length_add_append, hpart, List.drop_left, List.append_assoc]

end Writes

theorem exists_array {bs : Bytes} (i n : Nat) (h : i + n ≤ bs.length) :
    ∃ v : Vector UInt8 n, slice bs i n = v.toList :=
  ⟨⟨(slice bs i n).toArray, by rw [List.size_toArray, length_slice h]⟩, rfl⟩

end Net

end Perenne

import Perenne.Str

namespace Perenne

/-- The bytes of one character. -/
structure IsChar (c : Text) : Prop where
  front (t : Text) : validUtf8 (c ++ t) = validUtf8 t
  cut (k : Nat) (hpos : 0 < k) (hk : k < c.length) : validUtf8 (c.take k) = false
  shape : ∃ a l, c = a :: l ∧ isCont a = false ∧ ∀ b ∈ l, isCont b = true

theorem isChar_ascii {a : UInt8} (ha : a < 0x80) : IsChar [a] where
  front := validUtf8_ascii ha
  cut k hpos hk := by
    rw [List.length_singleton] at hk
    omega
  shape := by
    refine ⟨a, [], rfl, ?_, fun b hb => (by cases hb)⟩
    rw [isCont, Bool.and_eq_false_iff]
    left
    simpa using ha

theorem isChar_long {a : UInt8} {l : Text} (ha : 0xC2 ≤ a) (hl : ∀ b ∈ l, isCont b = true)
    (hfront : ∀ t, validUtf8 (a :: (l ++ t)) = validUtf8 t)
    (hcut : ∀ k < l.length, validUtf8 (a :: l.take k) = false) : IsChar (a :: l) where
  front := hfront
  cut k hpos hk := by
    obtain ⟨k, rfl⟩ : ∃ j, k = j + 1 := ⟨k - 1, by omega⟩
    exact hcut k (Nat.lt_of_succ_lt_succ hk)
  shape := by
    refine ⟨a, l, rfl, ?_, hl⟩
    rw [isCont, Bool.and_eq_false_iff]
    right
    rw [UInt8.le_iff_toNat_le] at ha
    have h194 : (0xC2 : UInt8).toNat = 194 := rfl
    have h191 : (0xBF : UInt8).toNat = 191 := rfl
    rw [decide_eq_false_iff_not, UInt8.le_iff_toNat_le]
    omega

theorem isCont_between {lo hi b : UInt8} (hlo : 0x80 ≤ lo) (hhi : hi ≤ 0xBF) (hb : lo ≤ b)
    (hb' : b ≤ hi) : isCont b = true := by
  rw [isCont, Bool.and_eq_true]
  exact ⟨decide_eq_true (UInt8.le_trans hlo hb), decide_eq_true (UInt8.le_trans hb' hhi)⟩

section Forms

variable {a b c d : UInt8} (ha : ¬ a < 0x80)

include ha

theorem isChar_two (h2 : (0xC2 ≤ a && a ≤ 0xDF) = true) (hb : isCont b = true) :
    IsChar [a, b] := by
  refine isChar_long ?_ ?_ ?_ ?_
  · rw [Bool.and_eq_true] at h2
    exact of_decide_eq_true h2.1
  · simpa using hb
  · intro t
    rw [validUtf8.eq_def]
    simp [ha, h2, hb]
  · intro k hk
    obtain rfl : k = 0 := by simpa using hk
    rw [validUtf8.eq_def]
    simp [ha]

variable (h2 : ¬ (0xC2 ≤ a && a ≤ 0xDF) = true)

include h2

theorem isChar_three (hlead : 0xC2 ≤ a) (hb : isCont b = true) (hc : isCont c = true)
    (hfront : ∀ t, validUtf8 (a :: b :: c :: t) = validUtf8 t) : IsChar [a, b, c] := by
  refine isChar_long hlead ?_ hfront ?_
  · simp [hb, hc]
  · intro k hk
    rw [validUtf8.eq_def]
    obtain rfl | rfl : k = 0 ∨ k = 1 := by
      simp only [List.length_cons, List.length_nil] at hk
      omega
    · simp [ha]
    · simp [ha, h2]

variable (h3 : ¬ (a == 0xE0) = true) (h4 : ¬ (a == 0xED) = true)
  (h5 : ¬ (0xE1 ≤ a && a ≤ 0xEF) = true)

include h3 h4 h5

theorem isChar_four (hlead : 0xC2 ≤ a) (hb : isCont b = true) (hc : isCont c = true)
    (hd : isCont d = true) (hfront : ∀ t, validUtf8 (a :: b :: c :: d :: t) = validUtf8 t) :
    IsChar [a, b, c, d] := by
  refine isChar_long hlead ?_ hfront ?_
  · simp [hb, hc, hd]
  · intro k hk
    rw [validUtf8.eq_def]
    obtain rfl | rfl | rfl : k = 0 ∨ k = 1 ∨ k = 2 := by
      simp only [List.length_cons, List.length_nil] at hk
      omega
    · simp [ha]
    · simp [ha, h2]
    · simp [ha, h2, h3, h4, h5]

end Forms

theorem validUtf8_first {s : Text} (h : validUtf8 s = true) (hne : s ≠ []) :
    ∃ c rest, s = c ++ rest ∧ IsChar c ∧ validUtf8 rest = true := by
  fun_cases validUtf8 s
  case case1 => exact absurd rfl hne
  case case2 a s ha =>
    rw [validUtf8.eq_def] at h
    simp only [ha, if_true] at h
    exact ⟨[a], s, rfl, isChar_ascii ha, h⟩
  case case4 a ha b s h2 =>
    rw [validUtf8.eq_def] at h
    simp only [ha, if_false, h2, if_true, Bool.and_eq_true] at h
    exact ⟨[a, b], s, rfl, isChar_two ha h2 h.1, h.2⟩
  case case6 a ha b h2 c s h3 =>
    rw [validUtf8.eq_def] at h
    simp only [ha, h2, h3, if_true, if_false, Bool.false_eq_true, Bool.and_eq_true,
      decide_eq_true_eq] at h
    obtain ⟨⟨hb, hc⟩, hs⟩ := h
    refine ⟨[a, b, c], s, rfl, isChar_three ha h2 ?_ ?_ hc fun t => ?_, hs⟩
    · rw [eq_of_beq h3]
      decide
    · exact isCont_between (by decide) (by decide) hb.1 hb.2
    · rw [validUtf8.eq_def]
      simp [ha, h2, h3, hb, hc]
  case case7 a ha b h2 c s h3 h4 =>
    rw [validUtf8.eq_def] at h
    simp only [ha, h2, h3, h4, if_true, if_false, Bool.false_eq_true, Bool.and_eq_true,
      decide_eq_true_eq] at h
    obtain ⟨⟨hb, hc⟩, hs⟩ := h
    refine ⟨[a, b, c], s, rfl, isChar_three ha h2 ?_ ?_ hc fun t => ?_, hs⟩
    · rw [eq_of_beq h4]
      decide
    · exact isCont_between (by decide) (by decide) hb.1 hb.2
    · rw [validUtf8.eq_def]
      simp [ha, h2, h3, h4, hb, hc]
  case case8 a ha b h2 c s h3 h4 h5 =>
    rw [validUtf8.eq_def] at h
    simp only [ha, h2, h3, h4, h5, if_true, if_false, Bool.false_eq_true, Bool.and_eq_true] at h
    obtain ⟨⟨hb, hc⟩, hs⟩ := h
    refine ⟨[a, b, c], s, rfl, isChar_three ha h2 ?_ hb hc fun t => ?_, hs⟩
    · rw [Bool.and_eq_true] at h5
      exact UInt8.le_trans (by decide) (of_decide_eq_true h5.1)
    · rw [validUtf8.eq_def]
      simp [ha, h2, h3, h4, h5, hb, hc]
  case case10 a ha b h2 c h3 h4 h5 d s h6 =>
    rw [validUtf8.eq_def] at h
    simp only [ha, h2, h3, h4, h5, h6, if_true, if_false, Bool.false_eq_true, Bool.and_eq_true,
      decide_eq_true_eq] at h
    obtain ⟨⟨⟨hb, hc⟩, hd⟩, hs⟩ := h
    refine ⟨[a, b, c, d], s, rfl, isChar_four ha h2 h3 h4 h5 ?_ ?_ hc hd fun t => ?_, hs⟩
    · rw [eq_of_beq h6]
      decide
    · exact isCont_between (by decide) (by decide) hb.1 hb.2
    · rw [validUtf8.eq_def]
      simp [ha, h2, h3, h4, h5, h6, hb, hc, hd]
  case case11 a ha b h2 c h3 h4 h5 d s h6 h7 =>
    rw [validUtf8.eq_def] at h
    simp only [ha, h2, h3, h4, h5, h6, h7, if_true, if_false, Bool.false_eq_true,
      Bool.and_eq_true, decide_eq_true_eq] at h
    obtain ⟨⟨⟨hb, hc⟩, hd⟩, hs⟩ := h
    refine ⟨[a, b, c, d], s, rfl, isChar_four ha h2 h3 h4 h5 ?_ ?_ hc hd fun t => ?_, hs⟩
    · rw [eq_of_beq h7]
      decide
    · exact isCont_between (by decide) (by decide) hb.1 hb.2
    · rw [validUtf8.eq_def]
      simp [ha, h2, h3, h4, h5, h6, h7, hb, hc, hd]
  case case12 a ha b h2 c h3 h4 h5 d s h6 h7 h8 =>
    rw [validUtf8.eq_def] at h
    simp only [ha, h2, h3, h4, h5, h6, h7, h8, if_true, if_false, Bool.false_eq_true,
      Bool.and_eq_true] at h
    obtain ⟨⟨⟨hb, hc⟩, hd⟩, hs⟩ := h
    refine ⟨[a, b, c, d], s, rfl, isChar_four ha h2 h3 h4 h5 ?_ hb hc hd fun t => ?_, hs⟩
    · rw [Bool.and_eq_true] at h8
      exact UInt8.le_trans (by decide) (of_decide_eq_true h8.1)
    · rw [validUtf8.eq_def]
      simp [ha, h2, h3, h4, h5, h6, h7, h8, hb, hc, hd]
  case case3 a ha =>
    rw [validUtf8.eq_def] at h
    simp only [ha, if_false, Bool.false_eq_true] at h
  case case5 a ha b h2 =>
    rw [validUtf8.eq_def] at h
    simp only [ha, h2, if_false, Bool.false_eq_true] at h
  case case9 a ha b h2 c h3 h4 h5 =>
    rw [validUtf8.eq_def] at h
    simp only [ha, h2, h3, h4, h5, if_false, Bool.false_eq_true] at h
  case case13 a ha b h2 c h3 h4 h5 d s h6 h7 h8 =>
    rw [validUtf8.eq_def] at h
    simp only [ha, h2, h3, h4, h5, h6, h7, h8, if_false, Bool.false_eq_true] at h

theorem validUtf8_induction {P : Text → Prop} (nil : P [])
    (char : ∀ c rest, IsChar c → validUtf8 rest = true → P rest → P (c ++ rest)) {s : Text}
    (h : validUtf8 s = true) : P s := by
  induction hn : s.length using Nat.strong_induction_on generalizing s with
  | _ n ih =>
    by_cases hne : s = []
    · rw [hne]
      exact nil
    · obtain ⟨c, rest, rfl, hc, hrest⟩ := validUtf8_first h hne
      obtain ⟨a, l, rfl, -, -⟩ := hc.shape
      refine char _ rest hc hrest (ih rest.length ?_ hrest rfl)
      rw [← hn, List.length_append, List.length_cons]
      omega

theorem validUtf8_append {s : Text} (hs : validUtf8 s = true) (t : Text) :
    validUtf8 (s ++ t) = validUtf8 t := by
  refine validUtf8_induction (P := fun s => validUtf8 (s ++ t) = validUtf8 t) rfl ?_ hs
  intro c rest hc _ ih
  rw [List.append_assoc, hc.front, ih]

theorem isCharBoundary_getElem {s : Text} {k : Nat} {b : UInt8} (h : s[k]? = some b) :
    isCharBoundary s k = !isCont b := by
  have hall : ∀ n < 256, ((UInt8.ofNat n) &&& 0xC0 != 0x80) = !isCont (.ofNat n) := by
    decide +kernel
  have hb := hall b.toNat b.toNat_lt
  rw [UInt8.ofNat_toNat] at hb
  rw [isCharBoundary, h]
  exact hb

theorem validUtf8_take {s : Text} (h : validUtf8 s = true) {n : Nat} (hn : n < s.length) :
    validUtf8 (s.take n) = isCharBoundary s n := by
  revert n
  refine validUtf8_induction (P := fun s => ∀ {n}, n < s.length →
    validUtf8 (s.take n) = isCharBoundary s n) (fun hn => (by cases hn)) ?_ h
  intro char rest hc hrest ih n hn
  obtain ⟨a, l, hl, ha, hcont⟩ := hc.shape
  rcases Nat.lt_or_ge n char.length with hlt | hge
  · have hget : (char ++ rest)[n]? = some char[n] := by
      rw [List.getElem?_append_left hlt, List.getElem?_eq_getElem hlt]
    rw [isCharBoundary_getElem hget, List.take_append_of_le_length hlt.le]
    cases n with
    | zero => simp [hl, ha, validUtf8]
    | succ n =>
      have hmem : char[n + 1] ∈ l := by
        subst hl
        exact List.getElem_mem _
      rw [hc.cut (n + 1) (Nat.succ_pos n) hlt, hcont _ hmem]
      rfl
  · obtain ⟨m, rfl⟩ : ∃ m, n = char.length + m := ⟨n - char.length, by omega⟩
    rw [List.length_append] at hn
    have hm := ih (n := m) (by omega)
    rw [List.take_length_add_append, hc.front, hm]
    have hget : (char ++ rest)[char.length + m]? = rest[m]? := by
      rw [List.getElem?_append_right (Nat.le_add_right _ _), Nat.add_sub_cancel_left]
    have hlast : rest[m]? = some rest[m] := List.getElem?_eq_getElem (by omega)
    rw [isCharBoundary_getElem hlast, isCharBoundary_getElem (hget.trans hlast)]

/-- A `&str`. -/
structure Str where
  bytes : Text
  valid : validUtf8 bytes = true

/-- `Buf::as_str`. -/
def Buf.asStr {N : Nat} (b : Buf N) : Text := if validUtf8 b.text then b.text else []

theorem isCharBoundary_length (s : Text) : isCharBoundary s s.length = true := by
  rw [isCharBoundary, List.getElem?_eq_none (Nat.le_refl _)]
  exact beq_self_eq_true s.length

theorem validUtf8_take_le {s : Text} (h : validUtf8 s = true) {n : Nat} (hn : n ≤ s.length) :
    validUtf8 (s.take n) = isCharBoundary s n := by
  rcases Nat.lt_or_eq_of_le hn with hlt | rfl
  · exact validUtf8_take h hlt
  · rw [List.take_length, h, isCharBoundary_length]

theorem boundaryBelow_boundary {s : Text} (h : validUtf8 s = true) (n : Nat) :
    isCharBoundary s (boundaryBelow s n) = true := by
  induction n with
  | zero => exact (validUtf8_take_le h (Nat.zero_le _)).symm
  | succ n ih =>
    rw [boundaryBelow]
    split
    case isTrue hb => exact hb
    case isFalse => exact ih

theorem le_boundaryBelow {s : Text} {k n : Nat} (hk : k ≤ n) (hb : isCharBoundary s k = true) :
    k ≤ boundaryBelow s n := by
  induction n with
  | zero => exact hk
  | succ n ih =>
    rw [boundaryBelow]
    split
    case isTrue => exact hk
    case isFalse hno =>
      refine ih (Nat.le_of_lt_succ (Nat.lt_of_le_of_ne hk ?_))
      rintro rfl
      exact hno hb

theorem Buf.asStr_fromStr (N : Nat) (s : Str) :
    (Buf.fromStr N s.bytes).asStr = s.bytes.take (boundaryBelow s.bytes (min s.bytes.length N)) := by
  refine if_pos ?_
  have hle := boundaryBelow_le s.bytes (min s.bytes.length N)
  exact (validUtf8_take_le s.valid (by omega)).trans (boundaryBelow_boundary s.valid _)

/-- `Buf::from_str` and `as_str` give the longest prefix that has at most `N` bytes and ends at a
character boundary. -/
theorem buf_holds_longest (N : Nat) (s : Str) :
    (Buf.fromStr N s.bytes).asStr <+: s.bytes ∧ (Buf.fromStr N s.bytes).asStr.length ≤ N ∧
      isCharBoundary s.bytes (Buf.fromStr N s.bytes).asStr.length = true ∧
      (∀ p, p <+: s.bytes → p.length ≤ N → isCharBoundary s.bytes p.length = true →
        p <+: (Buf.fromStr N s.bytes).asStr) ∧
      (s.bytes.length ≤ N → (Buf.fromStr N s.bytes).asStr = s.bytes) ∧
      ∀ char rest, IsChar char → s.bytes = char ++ rest → char.length ≤ N →
        (Buf.fromStr N s.bytes).asStr ≠ [] := by
  have hle := boundaryBelow_le s.bytes (min s.bytes.length N)
  have hlen : (s.bytes.take (boundaryBelow s.bytes (min s.bytes.length N))).length =
      boundaryBelow s.bytes (min s.bytes.length N) := by
    rw [List.length_take]
    omega
  have hlongest (p : Text) (hp : p <+: s.bytes) (hN : p.length ≤ N)
      (hb : isCharBoundary s.bytes p.length = true) : p <+: (Buf.fromStr N s.bytes).asStr := by
    have hk := le_boundaryBelow (Nat.le_min.mpr ⟨hp.length_le, hN⟩) hb
    rw [Buf.asStr_fromStr]
    exact List.prefix_of_prefix_length_le hp (List.take_prefix _ _) (by omega)
  refine ⟨?_, ?_, ?_, hlongest, fun hfits => ?_, fun char rest hchar hs hN => ?_⟩
  · rw [Buf.asStr_fromStr]
    exact List.take_prefix _ _
  · rw [Buf.asStr_fromStr]
    omega
  · rw [Buf.asStr_fromStr, hlen]
    exact boundaryBelow_boundary s.valid _
  · refine List.IsPrefix.eq_of_length_le ?_ ?_
    · rw [Buf.asStr_fromStr]
      exact List.take_prefix _ _
    · exact (hlongest s.bytes (List.prefix_refl _) hfits (isCharBoundary_length _)).length_le
  · -- the first character is a prefix of its own
    have hvalid : validUtf8 char = true := by
      have hnil := hchar.front []
      rwa [List.append_nil] at hnil
    have htake : s.bytes.take char.length = char := by rw [hs, List.take_left]
    have hboundary : isCharBoundary s.bytes char.length = true := by
      rw [← validUtf8_take_le s.valid (by rw [hs, List.length_append]; omega), htake, hvalid]
    have hfirst := (hlongest char ⟨rest, hs.symm⟩ hN hboundary).length_le
    obtain ⟨a, l, rfl, -, -⟩ := hchar.shape
    intro hempty
    rw [hempty] at hfirst
    cases hfirst

/-- `aé€`, in three characters of one, two and three bytes. -/
def sampleStr : Str := ⟨[0x61, 0xC3, 0xA9, 0xE2, 0x82, 0xAC], by decide +kernel⟩

/-- Five bytes hold the first two of its characters. -/
theorem buf_holds_longest_sample :
    IsChar [0x61] ∧ (Buf.fromStr 5 sampleStr.bytes).asStr = [0x61, 0xC3, 0xA9] ∧
      (Buf.fromStr 5 sampleStr.bytes).asStr ≠ [] :=
  ⟨isChar_ascii (by decide), by decide +kernel, (buf_holds_longest 5 sampleStr).2.2.2.2.2 [0x61] _
    (isChar_ascii (by decide)) rfl (by decide)⟩

end Perenne

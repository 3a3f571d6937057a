import Perenne.Counters

namespace Perenne

namespace Kb

/-- The loop of `set_uint_field`, from the last digit to the first. -/
def putDigits (start : Nat) : Nat → Nat → Text → Text
  | 0, _, block => block
  | i + 1, n, block => putDigits start i (n / 10) (block.set (start + i) (.ofNat (48 + n % 10)))

/-- `set_uint_field` on a block in place: whether it wrote, and what the block is afterwards. -/
def setUintFieldMut (block key : Text) (value : UInt32) (width : Nat) : Bool × Text :=
  match findKey block key with
  | none => (false, block)
  | some pos =>
    let start := pos + key.length
    if start + width > block.length ∨ ¬ (slice block start width).all isDigit then (false, block)
    else
      let max := min (10 ^ width) (2 ^ 32 - 1) - 1
      (true, putDigits start width (min value.toNat max) block)

/-- `set_seen_in_block`, in place. -/
def setSeenInBlockMut (block : Text) (count : UInt32) : Bool × Text :=
  setUintFieldMut block (utf8 "seen: ") count seenWidth

/-- `set_escalated_in_block`, in place. -/
def setEscalatedInBlockMut (block : Text) (escalated : Bool) : Bool × Text :=
  setUintFieldMut block (utf8 "escalated: ") (if escalated then 1 else 0) 1

theorem toDigits_succ (width n : Nat) :
    toDigits (width + 1) n = toDigits width (n / 10) ++ [.ofNat (48 + n % 10)] := by
  rw [toDigits, toDigits, List.range_succ_eq_map, List.reverse_cons, List.map_append,
    ← List.map_reverse, List.map_map]
  congr 1
  · refine List.map_congr_left fun i _ => ?_
    rw [Function.comp_apply, Nat.pow_succ', Nat.div_div_eq_div_mul]
  · rw [List.map_singleton, Nat.pow_zero, Nat.div_one]

theorem putDigits_eq {start width : Nat} (n : Nat) {block : Text}
    (h : start + width ≤ block.length) :
    putDigits start width n block = splice block start (toDigits width n) := by
  -- the digits in front of the last one are written to a block that has the last one already
  induction width generalizing n block with
  | zero => simp [putDigits, toDigits, splice]
  | succ width ih =>
    have hlast (d : UInt8) : (block.set (start + width) d).drop (start + width) =
        d :: block.drop (start + width + 1) := by
      rw [List.drop_eq_getElem_cons (by rw [List.length_set]; omega), List.getElem_set_self,
        List.drop_set_of_lt (Nat.lt_succ_self _)]
    rw [putDigits, ih _ (by rw [List.length_set]; omega), toDigits_succ, splice, splice,
      List.length_append, length_toDigits, List.length_singleton, List.take_set_of_le (by omega),
      hlast, List.append_assoc, List.append_assoc, List.append_assoc, List.singleton_append,
      Nat.add_assoc]

end Kb

section Splices

variable {bs part part' : List UInt8} {off off' : Nat}

theorem getElem?_splice (h : off + part.length ≤ bs.length) (i : Nat) :
    (splice bs off part)[i]? =
      if off ≤ i ∧ i < off + part.length then part[i - off]? else bs[i]? := by
  have htake : (bs.take off).length = off := List.length_take_of_le (by omega)
  rw [splice, List.append_assoc]
  by_cases hbefore : i < off
  · rw [List.getElem?_append_left (by omega), List.getElem?_take_of_lt hbefore,
      if_neg (by omega)]
  rw [List.getElem?_append_right (by omega), htake]
  by_cases hin : i < off + part.length
  · rw [List.getElem?_append_left (by omega), if_pos (by omega)]
  · rw [List.getElem?_append_right (by omega), List.getElem?_drop, if_neg (by omega)]
    congr 1
    omega

theorem splice_comm (h : off + part.length ≤ bs.length) (h' : off' + part'.length ≤ bs.length)
    (hapart : off + part.length ≤ off' ∨ off' + part'.length ≤ off) :
    splice (splice bs off part) off' part' = splice (splice bs off' part') off part := by
  refine List.ext_getElem? fun i => ?_
  rw [getElem?_splice (by rwa [length_splice h]), getElem?_splice h,
    getElem?_splice (by rwa [length_splice h']), getElem?_splice h']
  by_cases hin : off ≤ i ∧ i < off + part.length
  · rw [if_pos hin, if_pos hin, if_neg (by omega)]
  · rw [if_neg hin, if_neg hin]

theorem splice_again (h : off + part.length ≤ bs.length) (hlen : part'.length = part.length) :
    splice (splice bs off part) off part' = splice bs off part' := by
  refine List.ext_getElem? fun i => ?_
  rw [getElem?_splice (by rwa [length_splice h, hlen]), getElem?_splice h,
    getElem?_splice (by rwa [hlen]), hlen]
  by_cases hin : off ≤ i ∧ i < off + part.length
  · rw [if_pos hin, if_pos hin]
  · rw [if_neg hin, if_neg hin, if_neg hin]

theorem getElem?_slice {len j : Nat} (h : j < len) : (slice bs off len)[j]? = bs[off + j]? := by
  rw [slice, List.getElem?_take_of_lt h, List.getElem?_drop]

end Splices

namespace Kb

/-- The fields that are kept in place. -/
inductive Field
  | seen
  | escalated
deriving DecidableEq, Repr

/-- The key that `set_uint_field` looks for. -/
def Field.key : Field → Text
  | seen => utf8 "seen: "
  | escalated => utf8 "escalated: "

def Field.width : Field → Nat
  | seen => seenWidth
  | escalated => 1

/-- The key stands at this place, and nowhere before it. -/
def FirstAt (block key : Text) (pos : Nat) : Prop :=
  slice block pos key.length = key ∧ ∀ i < pos, slice block i key.length ≠ key

/-- There are this many digits from here on, inside the block. -/
def DigitsAt (block : Text) (start width : Nat) : Prop :=
  start + width ≤ block.length ∧ (slice block start width).all isDigit = true

/-- The first occurrence of the field's key is followed by its digits. -/
def Field.Stands (f : Field) (block : Text) (pos : Nat) : Prop :=
  FirstAt block f.key pos ∧ DigitsAt block (pos + f.key.length) f.width

theorem Field.key_ne_nil (f : Field) : f.key ≠ [] := by
  cases f <;> decide

theorem Field.digitFree_key (f : Field) : digitFree f.key = true := by
  cases f <;> decide

theorem findKey_eq_some_iff {block key : Text} (hkey : key ≠ []) {pos : Nat} :
    findKey block key = some pos ↔ FirstAt block key pos := by
  have hpos := List.length_pos_of_ne_nil hkey
  rw [findKey, List.find?_range_eq_some]
  simp only [beq_iff_eq, List.mem_range, Bool.not_eq_true', beq_eq_false_iff_ne]
  constructor
  · rintro ⟨hat, -, hbefore⟩
    exact ⟨hat, hbefore⟩
  · rintro ⟨hat, hbefore⟩
    refine ⟨hat, ?_, hbefore⟩
    -- a window of the key's length is inside the block
    have hlen := congrArg List.length hat
    rw [slice, List.length_take, List.length_drop] at hlen
    omega

theorem FirstAt.unique {block key : Text} {pos pos' : Nat} (h : FirstAt block key pos)
    (h' : FirstAt block key pos') : pos = pos' := by
  obtain hlt | heq | hgt := Nat.lt_trichotomy pos pos'
  · exact absurd h.1 (h'.2 pos hlt)
  · exact heq
  · exact absurd h'.1 (h.2 pos' hgt)

section Blurred

variable {block block' : Text} (hblur : blurred block' = blurred block)

theorem isDigit_blur (b : UInt8) : isDigit (blur b) = isDigit b := by
  unfold blur
  split
  case isTrue h => rw [h]; rfl
  case isFalse => rfl

theorem all_isDigit_blurred (s : Text) : (blurred s).all isDigit = s.all isDigit := by
  rw [blurred, List.all_map]
  congr 1
  funext b
  exact isDigit_blur b

theorem slice_blurred (s : Text) (i n : Nat) : slice (blurred s) i n = blurred (slice s i n) := by
  rw [slice, slice, blurred, blurred, List.map_take, List.map_drop]

include hblur

theorem slice_key_iff {key : Text} (hkey : digitFree key = true) (i : Nat) :
    slice block' i key.length = key ↔ slice block i key.length = key := by
  rw [← blurred_eq_iff hkey, ← slice_blurred, hblur, slice_blurred, blurred_eq_iff hkey]

theorem firstAt_blurred {key : Text} (hkey : digitFree key = true) (pos : Nat) :
    FirstAt block' key pos ↔ FirstAt block key pos := by
  simp only [FirstAt, ne_eq, slice_key_iff hblur hkey]

theorem digitsAt_blurred (start width : Nat) :
    DigitsAt block' start width ↔ DigitsAt block start width := by
  have hlen : block'.length = block.length := by
    simpa only [blurred, List.length_map] using congrArg List.length hblur
  rw [DigitsAt, DigitsAt, hlen, ← all_isDigit_blurred, ← slice_blurred, hblur, slice_blurred,
    all_isDigit_blurred]

theorem Field.stands_blurred (f : Field) (pos : Nat) : f.Stands block' pos ↔ f.Stands block pos :=
  and_congr (firstAt_blurred hblur f.digitFree_key pos) (digitsAt_blurred hblur _ _)

end Blurred

/-- The digits that are written for a value. -/
def Field.digits (f : Field) (value : UInt32) : Text :=
  toDigits f.width (min value.toNat (10 ^ f.width - 1))

@[simp] theorem Field.length_digits (f : Field) (value : UInt32) :
    (f.digits value).length = f.width := length_toDigits ..

theorem Field.saturating_max (f : Field) :
    min (10 ^ f.width) (2 ^ 32 - 1) - 1 = 10 ^ f.width - 1 := by
  cases f <;> decide

theorem Field.digitsValue_digits (f : Field) (value : UInt32) :
    digitsValue (f.digits value) = min value.toNat (10 ^ f.width - 1) := by
  have hpos : 0 < 10 ^ f.width := Nat.pow_pos (by decide)
  rw [Field.digits, digitsValue_toDigits, Nat.mod_eq_of_lt (by omega)]

theorem setUintFieldMut_stands {f : Field} {block : Text} {pos : Nat} (h : f.Stands block pos)
    (value : UInt32) : setUintFieldMut block f.key value f.width =
      (true, splice block (pos + f.key.length) (f.digits value)) := by
  have hok : ¬ (pos + f.key.length + f.width > block.length ∨
      ¬ (slice block (pos + f.key.length) f.width).all isDigit = true) := by
    rw [not_or, Nat.not_lt, not_not]
    exact h.2
  rw [setUintFieldMut, (findKey_eq_some_iff f.key_ne_nil).mpr h.1]
  dsimp only
  rw [if_neg hok, f.saturating_max, putDigits_eq _ h.2.1]
  rfl

theorem setUintFieldMut_refuses {f : Field} {block : Text} (h : ∀ pos, ¬ f.Stands block pos)
    (value : UInt32) : setUintFieldMut block f.key value f.width = (false, block) := by
  rw [setUintFieldMut]
  cases hfind : findKey block f.key with
  | none => rfl
  | some pos =>
    refine if_pos ?_
    rw [← not_and_or.trans (or_congr_left Nat.not_le)]
    exact fun hdigits => h pos ⟨(findKey_eq_some_iff f.key_ne_nil).mp hfind, hdigits⟩

theorem setUintFieldMut_eq (f : Field) (block : Text) (value : UInt32) :
    setUintFieldMut block f.key value f.width =
      ((setUintField block f.key value.toNat f.width).isSome,
        (setUintField block f.key value.toNat f.width).getD block) := by
  rw [setUintField, setUintFieldMut]
  cases findKey block f.key with
  | none => rfl
  | some pos =>
    dsimp only
    by_cases hbad : pos + f.key.length + f.width > block.length ∨
        ¬ (slice block (pos + f.key.length) f.width).all isDigit = true
    · rw [if_pos hbad, if_pos hbad]
      rfl
    · rw [if_neg hbad, if_neg hbad]
      rw [not_or, Nat.not_lt] at hbad
      rw [f.saturating_max, putDigits_eq _ hbad.1]
      rfl

theorem splice_digits {f : Field} {block : Text} {pos : Nat} (h : f.Stands block pos)
    (value : UInt32) :
    (splice block (pos + f.key.length) (f.digits value)).length = block.length ∧
    (∀ i, i < pos + f.key.length ∨ pos + f.key.length + f.width ≤ i →
      (splice block (pos + f.key.length) (f.digits value))[i]? = block[i]?) ∧
    slice (splice block (pos + f.key.length) (f.digits value)) (pos + f.key.length) f.width =
      f.digits value := by
  have hend : pos + f.key.length + (f.digits value).length ≤ block.length := by
    rw [f.length_digits]
    exact h.2.1
  refine ⟨length_splice hend, fun i hi => ?_, slice_splice (by omega) (f.length_digits value)⟩
  rw [getElem?_splice hend, f.length_digits, if_neg (by omega)]

theorem setUintFieldMut_blurred (f : Field) (block : Text) (value : UInt32) :
    blurred (setUintFieldMut block f.key value f.width).2 = blurred block := by
  by_cases h : ∃ pos, f.Stands block pos
  · obtain ⟨pos, hpos⟩ := h
    rw [setUintFieldMut_stands hpos]
    apply blurred_splice
    · rw [f.length_digits]
      exact hpos.2.1
    · rw [f.length_digits]
      exact hpos.2.2
    · exact toDigits_isDigit ..
  · rw [setUintFieldMut_refuses (not_exists.mp h)]

theorem setUintFieldMut_again (f : Field) (block : Text) (value value' : UInt32) :
    setUintFieldMut (setUintFieldMut block f.key value f.width).2 f.key value' f.width =
      setUintFieldMut block f.key value' f.width := by
  by_cases h : ∃ pos, f.Stands block pos
  · obtain ⟨pos, hpos⟩ := h
    have hpos' := (f.stands_blurred (setUintFieldMut_blurred f block value) pos).mpr hpos
    rw [setUintFieldMut_stands hpos', setUintFieldMut_stands hpos, setUintFieldMut_stands hpos,
      splice_again (by rw [f.length_digits]; exact hpos.2.1) (by simp)]
  · rw [setUintFieldMut_refuses (not_exists.mp h) value]

theorem FirstAt.byte {block key : Text} {pos : Nat} (h : FirstAt block key pos) {j : Nat}
    (hj : j < key.length) : block[pos + j]? = key[j]? := by
  rw [← getElem?_slice hj, h.1]

theorem DigitsAt.byte {block : Text} {start width : Nat} (h : DigitsAt block start width) {i : Nat}
    (hi : start ≤ i ∧ i < start + width) {b : UInt8} (hb : block[i]? = some b) :
    isDigit b = true := by
  refine List.all_eq_true.mp h.2 b (List.mem_of_getElem? (i := i - start) ?_)
  rw [getElem?_slice (by omega), Nat.add_sub_of_le hi.1, hb]

theorem fields_apart {block : Text} {p q : Nat} (hseen : Field.seen.Stands block p)
    (hesc : Field.escalated.Stands block q) :
    p + Field.seen.key.length + Field.seen.width ≤ q + Field.escalated.key.length ∨
    q + Field.escalated.key.length + Field.escalated.width ≤ p + Field.seen.key.length := by
  have hseenLen : Field.seen.key.length = 6 := by decide
  have hescLen : Field.escalated.key.length = 11 := by decide
  have hwidth : Field.seen.width = 5 ∧ Field.escalated.width = 1 := ⟨rfl, rfl⟩
  have hblank : block[q + 10]? = some 32 := by
    rw [hesc.1.byte (by decide)]
    decide
  rw [hseenLen, hescLen, hwidth.1, hwidth.2]
  by_contra hover
  obtain hsame | hlater : q + 11 = p + 6 ∨ p + 6 ≤ q + 10 := by omega
  · -- the keys end in the same place, but one of them in `d: ` and the other in `n: `
    have hn : block[p + 3]? = some 110 := by
      rw [hseen.1.byte (by decide)]
      decide
    have hd : block[q + 8]? = some 100 := by
      rw [hesc.1.byte (by decide)]
      decide
    rw [show p + 3 = q + 8 by omega, hd] at hn
    exact absurd (Option.some.inj hn) (by decide)
  · -- the blank in front of the flag would be a digit of the counter
    have hdigit := hseen.2.byte (by rw [hseenLen, hwidth.1]; omega) hblank
    exact absurd hdigit (by decide)

theorem setSeenInBlockMut_eq (block : Text) (count : UInt32) :
    setSeenInBlockMut block count =
      setUintFieldMut block Field.seen.key count Field.seen.width := rfl

theorem setEscalatedInBlockMut_eq (block : Text) (escalated : Bool) :
    setEscalatedInBlockMut block escalated = setUintFieldMut block Field.escalated.key
      (if escalated then 1 else 0) Field.escalated.width := rfl

theorem setUintFieldMut_fst (f g : Field) (block : Text) (value value' : UInt32) :
    (setUintFieldMut (setUintFieldMut block f.key value f.width).2 g.key value' g.width).1 =
      (setUintFieldMut block g.key value' g.width).1 := by
  have hstands := g.stands_blurred (setUintFieldMut_blurred f block value)
  by_cases h : ∃ pos, g.Stands block pos
  · obtain ⟨pos, hpos⟩ := h
    rw [setUintFieldMut_stands hpos, setUintFieldMut_stands ((hstands pos).mpr hpos)]
  · rw [not_exists] at h
    rw [setUintFieldMut_refuses h, setUintFieldMut_refuses fun pos => mt (hstands pos).mp (h pos)]

theorem setUintFieldMut_comm (block : Text) (count flag : UInt32) :
    (setUintFieldMut (setUintFieldMut block Field.seen.key count Field.seen.width).2
      Field.escalated.key flag Field.escalated.width).2 =
    (setUintFieldMut (setUintFieldMut block Field.escalated.key flag Field.escalated.width).2
      Field.seen.key count Field.seen.width).2 := by
  have hesc := Field.escalated.stands_blurred (setUintFieldMut_blurred .seen block count)
  have hseen := Field.seen.stands_blurred (setUintFieldMut_blurred .escalated block flag)
  by_cases hs : ∃ p, Field.seen.Stands block p
  · obtain ⟨p, hp⟩ := hs
    by_cases he : ∃ q, Field.escalated.Stands block q
    · obtain ⟨q, hq⟩ := he
      rw [setUintFieldMut_stands ((hesc q).mpr hq), setUintFieldMut_stands ((hseen p).mpr hp),
        setUintFieldMut_stands hp, setUintFieldMut_stands hq]
      apply splice_comm
      · rw [Field.length_digits]
        exact hp.2.1
      · rw [Field.length_digits]
        exact hq.2.1
      · rw [Field.length_digits, Field.length_digits]
        exact fields_apart hp hq
    · rw [not_exists] at he
      rw [setUintFieldMut_refuses fun q => mt (hesc q).mp (he q), setUintFieldMut_refuses he]
  · rw [not_exists] at hs
    rw [setUintFieldMut_refuses fun p => mt (hseen p).mp (hs p), setUintFieldMut_refuses hs]

/-- What a write of one field makes of a block. -/
structure Overwrites (f : Field) (value : UInt32) (block : Text) (r : Bool × Text) : Prop where
  /-- It writes where the first occurrence of the key is followed by digits. -/
  writes : r.1 = true ↔ ∃ pos, f.Stands block pos
  refuses : r.1 = false → r.2 = block
  /-- Only those digits change, and they spell the value. -/
  changes (pos : Nat) : r.1 = true → FirstAt block f.key pos →
    r.2.length = block.length ∧
    (∀ i, i < pos + f.key.length ∨ pos + f.key.length + f.width ≤ i → r.2[i]? = block[i]?) ∧
    (slice r.2 (pos + f.key.length) f.width).all isDigit = true ∧
    digitsValue (slice r.2 (pos + f.key.length) f.width) = min value.toNat (10 ^ f.width - 1)
  /-- Either key is found where it was. -/
  finds (g : Field) (pos : Nat) : FirstAt r.2 g.key pos ↔ FirstAt block g.key pos
  /-- A second write is as good as that write alone. -/
  again (value' : UInt32) : setUintFieldMut r.2 f.key value' f.width =
    setUintFieldMut block f.key value' f.width

/-- `set_uint_field` overwrites the digits of one field and nothing else, and the two fields are
written in either order. -/
theorem field_writer_overwrites :
    (∀ f block value, Overwrites f value block (setUintFieldMut block f.key value f.width)) ∧
    ∀ block count escalated,
      (setEscalatedInBlockMut (setSeenInBlockMut block count).2 escalated).2 =
        (setSeenInBlockMut (setEscalatedInBlockMut block escalated).2 count).2 ∧
      (setEscalatedInBlockMut (setSeenInBlockMut block count).2 escalated).1 =
        (setEscalatedInBlockMut block escalated).1 ∧
      (setSeenInBlockMut (setEscalatedInBlockMut block escalated).2 count).1 =
        (setSeenInBlockMut block count).1 := by
  constructor
  · intro f block value
    have hblur := setUintFieldMut_blurred f block value
    refine ⟨?_, ?_, ?_, fun g => firstAt_blurred hblur g.digitFree_key,
      setUintFieldMut_again f block value⟩
    all_goals by_cases h : ∃ pos, f.Stands block pos
    · obtain ⟨pos, hpos⟩ := id h
      rw [setUintFieldMut_stands hpos]
      exact iff_of_true rfl h
    · rw [setUintFieldMut_refuses (not_exists.mp h)]
      exact iff_of_false Bool.false_ne_true h
    · obtain ⟨pos, hpos⟩ := h
      rw [setUintFieldMut_stands hpos]
      exact fun hfalse => absurd hfalse Bool.true_eq_false.mp
    · rw [setUintFieldMut_refuses (not_exists.mp h)]
      exact fun _ => rfl
    · obtain ⟨pos, hpos⟩ := h
      rw [setUintFieldMut_stands hpos]
      intro pos' _ hfirst
      obtain rfl := hfirst.unique hpos.1
      obtain ⟨hlen, hother, hslice⟩ := splice_digits hpos value
      refine ⟨hlen, hother, ?_, ?_⟩
      · rw [hslice]
        exact toDigits_isDigit ..
      · rw [hslice, f.digitsValue_digits]
    · rw [setUintFieldMut_refuses (not_exists.mp h)]
      exact fun _ hfalse => absurd hfalse Bool.false_ne_true
  · intro block count escalated
    simp only [setSeenInBlockMut_eq, setEscalatedInBlockMut_eq]
    exact ⟨setUintFieldMut_comm .., setUintFieldMut_fst .., setUintFieldMut_fst ..⟩

end Kb

end Perenne

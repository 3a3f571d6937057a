import Perenne.Recording
import Perenne.Digits
import Mathlib.Tactic.Ring

namespace Perenne

theorem lines_ne_nil {s : Text} (h : s ≠ []) : lines s ≠ [] := by
  cases s with
  | nil => exact absurd rfl h
  | cons c s =>
    by_cases hc : c = 10
    · subst hc
      rw [lines_newline]
      exact List.cons_ne_nil _ _
    by_cases hcr : c = 13 ∧ s.head? = some 10
    · obtain ⟨rfl, hs⟩ := hcr
      cases s with
      | nil => cases hs
      | cons d s =>
        obtain rfl := Option.some.inj hs
        rw [lines_return_newline]
        exact List.cons_ne_nil _ _
    · rw [lines_cons_other hc hcr]
      split
      · simp
      · simp

theorem lines_append {s : Text} (h : s.getLast? = some 10) (t : Text) :
    lines (s ++ t) = lines s ++ lines t := by
  -- by induction on the length: a line may end in one byte or in two
  induction hn : s.length using Nat.strong_induction_on generalizing s with
  | _ n ih =>
  subst hn
  cases s with
  | nil => cases h
  | cons c s =>
    -- what follows the first line is empty or ends a line too
    have hrest {u : Text} (hlen : u.length < (c :: s).length)
        (hu : u ≠ [] → u.getLast? = some 10) : lines (u ++ t) = lines u ++ lines t := by
      cases u with
      | nil => rfl
      | cons d u => exact ih _ hlen (hu (List.cons_ne_nil d u)) rfl
    rw [List.cons_append]
    by_cases hc : c = 10
    · subst hc
      rw [lines_newline, lines_newline, List.cons_append]
      congr 1
      exact hrest (by simp) fun hs => by rwa [List.getLast?_cons_of_ne_nil hs] at h
    by_cases hcr : c = 13 ∧ s.head? = some 10
    · obtain ⟨rfl, hs⟩ := hcr
      cases s with
      | nil => cases hs
      | cons d s =>
        obtain rfl := Option.some.inj hs
        rw [List.cons_append, lines_return_newline, lines_return_newline, List.cons_append]
        congr 1
        refine hrest (by simp only [List.length_cons]; omega) fun hs => ?_
        rwa [List.getLast?_cons_cons, List.getLast?_cons_of_ne_nil hs] at h
    · cases s with
      | nil => exact absurd (Option.some.inj h) hc
      | cons d s =>
        have hlast : (d :: s).getLast? = some 10 := by rwa [List.getLast?_cons_cons] at h
        have hcr' : ¬ (c = 13 ∧ ((d :: s) ++ t).head? = some 10) := hcr
        rw [lines_cons_other hc hcr', lines_cons_other hc hcr, hrest (by simp) fun _ => hlast]
        cases hls : lines (d :: s) with
        | nil => exact absurd hls (lines_ne_nil (List.cons_ne_nil _ _))
        | cons l ls => rfl

namespace Kb

def keyOf (l : Text) : Option Text := (splitOnce 58 l).map fun r => trim r.1

/-- The line that opens and closes the frontmatter. -/
def isFence (l : Text) : Bool := trim l == utf8 "---"

/-- What `parse` has collected when it stops. -/
def frontmatter (s : Text) : Option Fields :=
  if validUtf8 s = false then none
  else match lines s with
    | [] => none
    | first :: rest => if isFence first then some (scan .none rest) else none

/-- The record of the fields, if none of the three texts is missing. -/
def Fields.record (f : Fields) : Option KbRecord :=
  match f.id, f.title, f.playbook with
  | some id, some title, some playbook =>
    some ⟨id, title, playbook, f.matchCause, f.seen, f.escalated⟩
  | _, _, _ => .none

theorem parse_eq (s : Text) : parse s = (frontmatter s).bind Fields.record := by
  rw [parse, frontmatter]
  split
  case isTrue => rfl
  case isFalse =>
    cases lines s with
    | nil => rfl
    | cons first rest =>
      simp only [isFence, beq_iff_eq]
      by_cases hfence : trim first = utf8 "---"
      · rw [if_neg (not_not.mpr hfence), if_pos hfence]
        rfl
      · rw [if_pos hfence, if_neg hfence]
        rfl

/-- A field that `parse` keeps by itself. -/
structure Counter (key : Text) (upd : Text → Fields → Fields) : Prop where
  set (f : Fields) (v : Text) : f.set key v = upd v f
  swap (f : Fields) (v : Text) (key' v' : Text) (h : key' ≠ key) :
    (upd v f).set key' v' = upd v (f.set key' v')
  item (f : Fields) (v l : Text) : (upd v f).item l = f.item l
  playbook (f : Fields) (v : Text) (p : Option Text) :
    ({ upd v f with playbook := p } : Fields) = upd v { f with playbook := p }
  outside (f : Fields) (v : Text) : (upd v f).inPlaybook = f.inPlaybook

def setSeen (v : Text) (f : Fields) : Fields := { f with seen := (parseU32 (clean v)).getD 0 }

def setEscalated (v : Text) (f : Fields) : Fields := { f with escalated := clean v == utf8 "1" }

theorem counter_seen : Counter (utf8 "seen") setSeen where
  set := Fields.set_seen
  swap := by
    intro f v key' v' h
    simp only [Fields.set, setSeen]
    split_ifs <;> rfl
  item := fun _ _ _ => by rw [Fields.item, Fields.item, setSeen]
  playbook := fun _ _ _ => by simp only [setSeen]
  outside := fun _ _ => by simp only [setSeen]

theorem counter_escalated : Counter (utf8 "escalated") setEscalated where
  set := Fields.set_escalated
  swap := by
    intro f v key' v' h
    simp only [Fields.set, setEscalated]
    split_ifs <;> rfl
  item := fun _ _ _ => by rw [Fields.item, Fields.item, setEscalated]
  playbook := fun _ _ _ => by simp only [setEscalated]
  outside := fun _ _ => by simp only [setEscalated]

section Counter

variable {key : Text} {upd : Text → Fields → Fields} (hC : Counter key upd)

include hC

theorem Counter.line {l : Text} (hl : keyOf l ≠ some key) (f : Fields) (v : Text) :
    (upd v f).line l = upd v (f.line l) := by
  rw [Fields.line, Fields.line, hC.item]
  cases f.item l with
  | some item => exact hC.playbook f v _
  | none =>
    unfold keyOf at hl
    cases hs : splitOnce 58 l with
    | none => rfl
    | some kv =>
      rw [hs] at hl
      exact hC.swap f v _ _ fun heq => hl (congrArg some heq)

theorem Counter.scan {ls : List Text} (hls : ∀ l ∈ ls.takeWhile (!isFence ·), keyOf l ≠ some key)
    (f : Fields) (v : Text) : scan (upd v f) ls = upd v (Kb.scan f ls) := by
  induction ls generalizing f with
  | nil => rfl
  | cons l ls ih =>
    rw [Kb.scan, Kb.scan]
    split
    case isTrue => rfl
    case isFalse hfence =>
      have hopen : (!isFence l) = true := by simpa [isFence] using hfence
      rw [List.takeWhile_cons_of_pos (p := fun l => !isFence l) hopen] at hls
      rw [hC.line (hls l (.head _)), ih fun l hl => hls l (.tail _ hl)]

omit hC in
theorem scan_append {a : List Text} (ha : ∀ l ∈ a, isFence l = false) (f : Fields)
    (b : List Text) : scan f (a ++ b) = scan (a.foldl Fields.line f) b := by
  induction a generalizing f with
  | nil => rfl
  | cons l a ih =>
    have hfence : trim l ≠ utf8 "---" := by simpa [isFence] using ha l (.head _)
    rw [List.cons_append, Kb.scan, if_neg hfence, ih fun l hl => ha l (.tail _ hl)]
    rfl

end Counter

theorem foldl_digits (s : Text) (n : Nat) : s.foldl (fun n b => 10 * n + (b.toNat - 48)) n =
    n * 10 ^ s.length + digitsValue s := by
  induction s generalizing n with
  | nil => simp [digitsValue]
  | cons b s ih =>
    rw [digitsValue, List.foldl_cons, List.foldl_cons, ih, ih, List.length_cons, Nat.pow_succ]
    ring

theorem digitsValue_cons (b : UInt8) (s : Text) :
    digitsValue (b :: s) = (b.toNat - 48) * 10 ^ s.length + digitsValue s := by
  rw [digitsValue, List.foldl_cons, foldl_digits]
  simp

theorem digitsValue_lt {s : Text} (h : s.all isDigit = true) : digitsValue s < 10 ^ s.length := by
  induction s with
  | nil => simp [digitsValue]
  | cons b s ih =>
    rw [List.all_cons, Bool.and_eq_true] at h
    have hb := isDigit_range h.1
    have hs := ih h.2
    rw [digitsValue_cons, List.length_cons, Nat.pow_succ]
    have hle : (b.toNat - 48) * 10 ^ s.length ≤ 9 * 10 ^ s.length :=
      Nat.mul_le_mul_right _ (by omega)
    omega

theorem digitsValue_toDigits (width n : Nat) : digitsValue (toDigits width n) = n % 10 ^ width := by
  induction width with
  | zero => simp [toDigits, digitsValue, Nat.mod_one]
  | succ w ih =>
    have hsucc : toDigits (w + 1) n = .ofNat (48 + n / 10 ^ w % 10) :: toDigits w n := by
      simp [toDigits, List.range_succ]
    have hdigit : (UInt8.ofNat (48 + n / 10 ^ w % 10)).toNat - 48 = n / 10 ^ w % 10 := by
      rw [UInt8.toNat_ofNat']
      omega
    rw [hsucc, digitsValue_cons, hdigit, length_toDigits, ih, Nat.mod_pow_succ]
    ring

theorem digitsValue_inj {s t : Text} (hs : s.all isDigit = true) (ht : t.all isDigit = true)
    (hlen : s.length = t.length) (h : digitsValue s = digitsValue t) : s = t := by
  induction s generalizing t with
  | nil => exact (List.length_eq_zero_iff.mp hlen.symm).symm
  | cons b s ih =>
    cases t with
    | nil => cases hlen
    | cons c t =>
      rw [List.all_cons, Bool.and_eq_true] at hs ht
      have hlen' : s.length = t.length := Nat.succ.inj hlen
      have hb := isDigit_range hs.1
      have hc := isDigit_range ht.1
      have hslt := digitsValue_lt hs.2
      have htlt := digitsValue_lt ht.2
      rw [digitsValue_cons, digitsValue_cons, hlen'] at h
      rw [hlen'] at hslt
      -- What is left of the leading digit's place value are the other digits.
      have hrest : digitsValue s = digitsValue t := by
        have hmod := congrArg (· % 10 ^ t.length) h
        simpa only [Nat.mul_add_mod_of_lt hslt, Nat.mul_add_mod_of_lt htlt] using hmod
      have hlead : b.toNat - 48 = c.toNat - 48 := by
        rw [hrest] at h
        exact Nat.eq_of_mul_eq_mul_right (Nat.pow_pos (by decide)) (Nat.add_right_cancel h)
      have hbc : b = c := UInt8.toNat_inj.mp (by omega)
      rw [hbc, ih hs.2 ht.2 hlen' hrest]

theorem isInk_isDigit {b : UInt8} (h : isDigit b = true) : isInk b = true ∧ b ≠ 34 ∧ b ≠ 43 := by
  have hrange := isDigit_range h
  have hall : ∀ n < 58, 48 ≤ n → isInk (.ofNat n) = true ∧ UInt8.ofNat n ≠ 34 ∧
      UInt8.ofNat n ≠ 43 := by decide
  have := hall b.toNat (by omega) hrange.1
  rwa [UInt8.ofNat_toNat] at this

theorem clean_digits {d : Text} (h : d.all isDigit = true) : clean (32 :: d) = d := by
  rw [List.all_eq_true] at h
  exact clean_plain (plain_ink (fun b hb => (isInk_isDigit (h b hb)).1)
    fun h34 => (isInk_isDigit (h 34 h34)).2.1 rfl)

theorem parseU32_digits {d : Text} (h : d.all isDigit = true) (hne : d ≠ []) (hlen : d.length ≤ 9) :
    parseU32 d = some (digitsValue d) := by
  have hplus : (stripPrefix [43] d).getD d = d := by
    cases d with
    | nil => exact absurd rfl hne
    | cons b d =>
      rw [List.all_cons, Bool.and_eq_true] at h
      have hfirst : ¬ (b :: d).take (List.length (α := UInt8) [43]) = [43] :=
        fun heq => (isInk_isDigit h.1).2.2 (List.cons.inj heq).1
      rw [stripPrefix, if_neg hfirst]
      rfl
  have hlt := digitsValue_lt h
  have hpow : 10 ^ d.length ≤ 10 ^ 9 := Nat.pow_le_pow_right (by decide) hlen
  rw [parseU32, hplus, ite_self, if_pos ⟨hne, h, by omega⟩]

theorem findKey_blurred {key : Text} (hkey : digitFree key = true) (block : Text) :
    findKey (blurred block) key = findKey block key := by
  have hslice (i : Nat) : slice (blurred block) i key.length = blurred (slice block i key.length) := by
    rw [slice, slice, blurred, blurred, List.map_take, List.map_drop]
  have hlen : (blurred block).length = block.length := List.length_map ..
  have hbeq (s : Text) : (blurred s == key) = (s == key) := by
    rw [Bool.eq_iff_iff, beq_iff_eq, beq_iff_eq, blurred_eq_iff hkey]
  simp only [findKey, hlen, hslice, hbeq]

theorem isFence_blurred (l : Text) : isFence (blurred l) = isFence l := by
  rw [isFence, isFence, trim_blurred, Bool.eq_iff_iff, beq_iff_eq, beq_iff_eq,
    blurred_eq_iff (by decide)]

theorem keyOf_blurred {key : Text} (hkey : digitFree key = true) (l : Text) :
    (keyOf (blurred l) != some key) = (keyOf l != some key) := by
  have hkeyOf : keyOf (blurred l) = (keyOf l).map blurred := by
    rw [keyOf, keyOf, splitOnce_blurred (by decide), Option.map_map, Option.map_map]
    congr 1
    funext r
    exact trim_blurred r.1
  rw [hkeyOf]
  cases keyOf l with
  | none => rfl
  | some k =>
    rw [Bool.eq_iff_iff, bne_iff_ne, bne_iff_ne, Option.map_some, ne_eq, ne_eq, Option.some.injEq,
      Option.some.injEq, blurred_eq_iff hkey]

end Kb

end Perenne

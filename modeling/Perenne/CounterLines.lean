import Perenne.Counters
import Perenne.Heads

namespace Perenne

namespace Kb

/-- What `clean` leaves of the text before an ink character. -/
def cleanStart (s : Text) : Text := trimStart ((stripPrefix [34] (trimStart s)).getD (trimStart s))

/-- What it leaves of the text after one. -/
def cleanEnd (t : Text) : Text := trimEnd ((stripSuffix [34] (trimEnd t)).getD (trimEnd t))

theorem clean_append_ink {a : UInt8} (ha : isInk a = true) (hquote : a ≠ 34) (s t : Text) :
    clean (s ++ a :: t) = cleanStart s ++ a :: cleanEnd t := by
  have hpre (s t : Text) : (stripPrefix [34] (s ++ a :: t)).getD (s ++ a :: t) =
      (stripPrefix [34] s).getD s ++ a :: t := by
    cases s with
    | nil =>
      have hfirst : ¬ (a :: t).take (List.length (α := UInt8) [34]) = [34] :=
        fun heq => hquote (List.cons.inj heq).1
      rw [List.nil_append, stripPrefix, if_neg hfirst]
      rfl
    | cons b s =>
      simp only [stripPrefix, List.cons_append, List.length_singleton, List.take_succ_cons,
        List.take_zero, List.drop_succ_cons, List.drop_zero]
      split
      · rfl
      · rfl
  have hrev (s : Text) : (stripSuffix [34] s).getD s =
      ((stripPrefix [34] s.reverse).getD s.reverse).reverse := by
    change ((stripPrefix [34] s.reverse).map List.reverse).getD s = _
    cases stripPrefix [34] s.reverse with
    | none => simp
    | some x => rfl
  have hsuf (s t : Text) : (stripSuffix [34] (s ++ a :: t)).getD (s ++ a :: t) =
      s ++ a :: (stripSuffix [34] t).getD t := by
    have hswap : (s ++ a :: t).reverse = t.reverse ++ a :: s.reverse := by simp
    rw [hrev, hswap, hpre, hrev]
    simp
  have htrim := trim_append_ink ha
  simp only [clean, htrim, hpre, hsuf, cleanStart, cleanEnd]

theorem clean_digits_append {d : Text} (h : d.all isDigit = true) (hne : d ≠ []) (v : Text) :
    clean (32 :: (d ++ v)) = d ++ cleanEnd v := by
  obtain ⟨d, a, rfl⟩ := List.eq_nil_or_concat d |>.resolve_left hne
  have ha : isDigit a = true := List.all_eq_true.mp h a (by simp)
  obtain ⟨hink, hquote, -⟩ := isInk_isDigit ha
  have halone := clean_digits h
  have hsplit (t : Text) : 32 :: (d.concat a ++ t) = (32 :: d) ++ a :: t := by simp
  rw [← List.append_nil (d.concat a), hsplit, clean_append_ink hink hquote] at halone
  rw [hsplit, clean_append_ink hink hquote]
  have hend : cleanEnd [] = [] := rfl
  rw [hend] at halone
  rw [← List.append_nil (d.concat a), ← halone]
  simp

/-- The same counters, and the playbook read as far. -/
structure Fields.Agree (f f' : Fields) : Prop where
  seen : f'.seen = f.seen
  escalated : f'.escalated = f.escalated
  inPlaybook : f'.inPlaybook = f.inPlaybook
  playbook : f'.playbook.isNone = f.playbook.isNone

theorem Fields.Agree.refl (f : Fields) : f.Agree f := ⟨rfl, rfl, rfl, rfl⟩

theorem Fields.Agree.item {f f' : Fields} (h : f.Agree f') (l : Text) : f'.item l = f.item l := by
  rw [Fields.item, Fields.item, h.inPlaybook, h.playbook]

theorem Fields.Agree.set {f f' : Fields} (h : f.Agree f') {key v v' : Text}
    (hseen : key = utf8 "seen" → parseU32 (clean v') = parseU32 (clean v))
    (hescalated : key = utf8 "escalated" → (clean v' == utf8 "1") = (clean v == utf8 "1")) :
    (f.set key v).Agree (f'.set key v') := by
  obtain ⟨hs, he, hin, hpb⟩ := h
  unfold Fields.set
  split_ifs with h₁ h₂ h₃ h₄ h₅ h₆
  · exact ⟨hs, he, hin, hpb⟩
  · exact ⟨hs, he, hin, hpb⟩
  · exact ⟨hs, he, hin, hpb⟩
  · exact ⟨by rw [hseen h₄], he, hin, hpb⟩
  · exact ⟨hs, hescalated h₅, hin, hpb⟩
  · exact ⟨hs, he, rfl, hpb⟩
  · exact ⟨hs, he, hin, hpb⟩

theorem Fields.Agree.line {f f' : Fields} (h : f.Agree f') (l : Text) :
    (f.line l).Agree (f'.line l) := by
  rw [Fields.line, Fields.line, h.item]
  cases f.item l with
  | some item => exact ⟨h.seen, h.escalated, h.inPlaybook, rfl⟩
  | none =>
    cases splitOnce 58 l with
    | none => exact h
    | some kv => exact h.set (fun _ => rfl) fun _ => rfl

theorem Fields.Agree.scan {f f' : Fields} (h : f.Agree f') (ls : List Text) :
    (scan f ls).Agree (scan f' ls) := by
  induction ls generalizing f f' with
  | nil => exact h
  | cons l ls ih =>
    rw [Kb.scan, Kb.scan]
    split
    · exact h
    · exact ih (h.line l)

def isCounter (key : Text) : Prop := key = utf8 "seen" ∨ key = utf8 "escalated"

theorem parseU32_letter {a : UInt8} (hdigit : isDigit a = false) (hplus : a ≠ 43) {s : Text}
    (ha : a ∈ s) : parseU32 s = none := by
  have hmem : a ∈ (if 1 < s.length then (stripPrefix [43] s).getD s else s) := by
    split
    · rw [stripPrefix]
      split
      case isTrue h =>
        cases s with
        | nil => cases ha
        | cons b s =>
          obtain rfl := (List.cons.inj h).1
          exact (List.mem_cons.mp ha).resolve_left hplus
      case isFalse => exact ha
    · exact ha
  rw [parseU32]
  refine if_neg fun h => ?_
  rw [List.all_eq_true] at h
  rw [h.2.1 a hmem] at hdigit
  cases hdigit

theorem isCounter.letter {key : Text} (hkey : isCounter key) :
    ∃ a key', key = a :: key' ∧ isInk a = true ∧ isDigit a = false ∧ a ≠ 34 ∧ a ≠ 43 ∧ a ≠ 32 ∧
      a ≠ 45 := by
  obtain rfl | rfl := hkey
  · exact ⟨115, _, rfl, rfl, rfl, by decide, by decide, by decide, by decide⟩
  · exact ⟨101, _, rfl, rfl, rfl, by decide, by decide, by decide, by decide⟩

theorem isCounter.one_line {key : Text} (hkey : isCounter key) : 58 ∉ key ∧ 10 ∉ key := by
  obtain rfl | rfl := hkey
  · decide
  · decide

theorem isCounter.isKey {key : Text} (hkey : isCounter key) : isKey key = true := by
  obtain rfl | rfl := hkey
  · decide
  · decide

theorem isCounter.append {key key' x : Text} (hkey : isCounter key) (hkey' : isCounter key')
    (h : x ++ key = key') : x = [] := by
  have hseen : (utf8 "seen").getLast? = some 110 := by decide
  have hescalated : (utf8 "escalated").getLast? = some 100 := by decide
  have hlast := congrArg List.getLast? h
  rw [List.getLast?_append] at hlast
  obtain rfl | rfl := hkey
  · obtain rfl | rfl := hkey'
    · exact List.append_left_eq_self.mp h
    · rw [hseen, hescalated] at hlast
      cases hlast
  · obtain rfl | rfl := hkey'
    · rw [hseen, hescalated] at hlast
      cases hlast
    · exact List.append_left_eq_self.mp h

theorem isCounter.trim_append {key : Text} (hkey : isCounter key) (u : Text) :
    trim (u ++ key) = trimStart u ++ key := by
  obtain ⟨a, key', rfl, ha, -⟩ := hkey.letter
  have htrim : trim (a :: key') = a :: key' := by
    obtain h | h := hkey
    · rw [h]
      decide
    · rw [h]
      decide
  rw [← List.nil_append (a :: key'), trim_append_ink ha] at htrim
  rw [trim_append_ink ha, (List.cons.inj htrim).2]

theorem item_foreign {f : Fields} {key u : Text} (hkey : isCounter key) (hu : trimStart u ≠ [])
    (w w' : Text) :
    (f.item (u ++ (key ++ 58 :: w))).isSome = (f.item (u ++ (key ++ 58 :: w'))).isSome := by
  obtain ⟨a, key', rfl, ha, -, -, -, hblank, -⟩ := hkey.letter
  have hdash : utf8 "- " = [45, 32] := by decide
  rw [Fields.item, Fields.item, hdash]
  split
  case isFalse => rfl
  case isTrue =>
    rw [List.cons_append, List.cons_append, trimStart_append_ink ha, trimStart_append_ink ha]
    cases hx : trimStart u with
    | nil => exact absurd hx hu
    | cons b x =>
      cases x with
      | nil =>
        have hno (r : Text) :
            ¬ ([b] ++ a :: r).take (List.length (α := UInt8) [45, 32]) = [45, 32] :=
          fun h => hblank (List.cons.inj (List.cons.inj h).2).1
        rw [stripPrefix, stripPrefix, if_neg (hno _), if_neg (hno _)]
      | cons c x =>
        have htake (r : Text) :
            (b :: c :: x ++ r).take (List.length (α := UInt8) [45, 32]) = [b, c] := rfl
        rw [stripPrefix, stripPrefix, htake, htake]
        split
        · rfl
        · rfl

/-- A line on which the key of a counter is not the key of the line leaves the counters as they
are, whatever stands behind it. -/
theorem line_foreign {f : Fields} {key u : Text} (hkey : isCounter key) (hu : trimStart u ≠ [])
    (w w' : Text) : (f.line (u ++ (key ++ 58 :: w))).Agree (f.line (u ++ (key ++ 58 :: w'))) := by
  have hitem := item_foreign (f := f) hkey hu w w'
  rw [Fields.line, Fields.line]
  cases h : f.item (u ++ (key ++ 58 :: w)) with
  | some item =>
    rw [h] at hitem
    obtain ⟨item', h'⟩ := Option.isSome_iff_exists.mp hitem.symm
    rw [h']
    exact ⟨rfl, rfl, rfl, rfl⟩
  | none =>
    rw [h] at hitem
    rw [Option.isNone_iff_eq_none.mp (Option.isSome_eq_false_iff.mp hitem.symm)]
    dsimp only
    by_cases hcolon : 58 ∈ u
    · -- The key of the line stands before, and the value is no number.
      obtain ⟨u₁, u₂, rfl, hfirst⟩ := List.eq_append_cons_of_mem hcolon
      obtain ⟨a, key', rfl, ha, hdigit, hquote, hplus, -⟩ := hkey.letter
      have hsplit (w : Text) : splitOnce 58 (u₁ ++ 58 :: u₂ ++ (a :: key' ++ 58 :: w)) =
          some (u₁, u₂ ++ a :: (key' ++ 58 :: w)) := by
        rw [List.append_assoc, List.cons_append, List.cons_append, splitOnce_append hfirst]
      have hmem (w : Text) : a ∈ clean (u₂ ++ a :: (key' ++ 58 :: w)) := by
        rw [clean_append_ink ha hquote]
        exact List.mem_append_right _ List.mem_cons_self
      have hone (w : Text) : (clean (u₂ ++ a :: (key' ++ 58 :: w)) == utf8 "1") = false := by
        refine beq_false_of_ne fun heq => ?_
        have := hmem w
        rw [heq, show utf8 "1" = [49] by decide, List.mem_singleton] at this
        rw [this] at hdigit
        cases hdigit
      rw [hsplit, hsplit]
      refine (Fields.Agree.refl f).set (fun _ => ?_) fun _ => ?_
      · rw [parseU32_letter hdigit hplus (hmem w), parseU32_letter hdigit hplus (hmem w')]
      · rw [hone, hone]
    · -- The key of the line ends in the counter's and is longer.
      have hnone : 58 ∉ u ++ key := fun h =>
        (List.mem_append.mp h).elim hcolon hkey.one_line.1
      rw [← List.append_assoc, ← List.append_assoc, splitOnce_append hnone, splitOnce_append hnone]
      dsimp only
      rw [hkey.trim_append]
      exact (Fields.Agree.refl f).set (fun h => absurd (hkey.append (.inl rfl) h) hu)
        fun h => absurd (hkey.append (.inr rfl) h) hu

theorem splitOnce_eq {c : UInt8} {l : Text} {kv : Text × Text} (h : splitOnce c l = some kv) :
    l = kv.1 ++ c :: kv.2 := by
  induction l generalizing kv with
  | nil => cases h
  | cons b l ih =>
    rw [splitOnce] at h
    split at h
    case isTrue hb =>
      obtain rfl := Option.some.inj h
      rw [hb]
      rfl
    case isFalse =>
      obtain ⟨kv', hkv', rfl⟩ := Option.map_eq_some_iff.mp h
      exact congrArg (b :: ·) (ih hkv')

section Counter

variable {key : Text} {upd : Text → Fields → Fields} (hkey : isCounter key) (hC : Counter key upd)

include hkey

theorem item_keyOf {f : Fields} {l : Text} (hl : keyOf l = some key) : f.item l = none := by
  obtain ⟨⟨k, v⟩, hsplit, htrim⟩ := Option.map_eq_some_iff.mp hl
  obtain rfl := splitOnce_eq hsplit
  obtain ⟨a, key', rfl, -, -, -, -, -, hdash⟩ := hkey.letter
  have hend := List.reverse_prefix.mpr (dropWhite_suffix (fun a b => white₂ b a)
    (fun a b c => white₃ c b a) (trimStart k).reverse)
  rw [List.reverse_reverse] at hend
  obtain ⟨t, ht⟩ := hend
  have hstart : trimStart (k ++ 58 :: v) = a :: (key' ++ t ++ 58 :: v) := by
    rw [trimStart_append_ink rfl, ← ht]
    change trim k ++ t ++ 58 :: v = _
    rw [htrim]
    rfl
  have hstrip : stripPrefix (utf8 "- ") (a :: (key' ++ t ++ 58 :: v)) = none :=
    if_neg fun heq => hdash (List.cons.inj heq).1
  rw [Fields.item, hstart, hstrip, ite_self]

include hC

theorem line_counter (f : Fields) {u : Text} (hu : trimStart u = []) (v : Text) :
    f.line (u ++ (key ++ 58 :: v)) = upd v f := by
  have h58 : 58 ∉ u := by
    intro h
    obtain ⟨u₁, u₂, rfl, -⟩ := List.eq_append_cons_of_mem h
    rw [trimStart_append_ink rfl] at hu
    exact absurd hu (List.append_ne_nil_of_right_ne_nil _ (List.cons_ne_nil _ _))
  have hsplit : splitOnce 58 (u ++ (key ++ 58 :: v)) = some (u ++ key, v) := by
    rw [← List.append_assoc]
    exact splitOnce_append (fun h => (List.mem_append.mp h).elim h58 hkey.one_line.1) v
  have hown : trim (u ++ key) = key := by rw [hkey.trim_append, hu, List.nil_append]
  have hitem : f.item (u ++ (key ++ 58 :: v)) = none := by
    refine item_keyOf hkey ?_
    rw [keyOf, hsplit, Option.map_some, hown]
  rw [Fields.line, hitem, hsplit]
  dsimp only
  rw [hown, hC.set]

theorem Counter.scan_later (hagain : ∀ f v v', upd v (upd v' f) = upd v f) {ls : List Text}
    (hls : ∃ l ∈ ls.takeWhile (!isFence ·), keyOf l = some key) (f : Fields) (v v' : Text) :
    Kb.scan (upd v f) ls = Kb.scan (upd v' f) ls := by
  induction ls generalizing f with
  | nil =>
    obtain ⟨l, hl, -⟩ := hls
    cases hl
  | cons l ls ih =>
    obtain ⟨m, hm, hown⟩ := hls
    rw [Kb.scan, Kb.scan]
    split
    case isTrue hfence =>
      have hclosed : ¬ (!isFence l) = true := by simpa [isFence] using hfence
      rw [List.takeWhile_cons_of_neg (p := fun l => !isFence l) hclosed] at hm
      cases hm
    case isFalse hfence =>
      have hopen : (!isFence l) = true := by simpa [isFence] using hfence
      rw [List.takeWhile_cons_of_pos (p := fun l => !isFence l) hopen] at hm
      by_cases hl : keyOf l = some key
      · obtain ⟨kv, hsplit, htrim⟩ := Option.map_eq_some_iff.mp hl
        have hset (v : Text) : (upd v f).line l = upd kv.2 f := by
          rw [Fields.line, item_keyOf hkey hl, hsplit]
          dsimp only
          rw [htrim, hC.set, hagain]
        rw [hset, hset]
      · rw [hC.line hl, hC.line hl]
        obtain _ | ⟨_, hm⟩ := hm
        · exact absurd hown hl
        · exact ih ⟨m, hm, hown⟩ _

end Counter

end Kb

end Perenne

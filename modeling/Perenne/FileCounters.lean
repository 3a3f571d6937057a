import Perenne.Overwrite
import Perenne.InPlace

namespace Perenne

namespace Kb

theorem blurred_reverse (s : Text) : blurred s.reverse = (blurred s).reverse := List.map_reverse

theorem newline_blur (b : UInt8) : decide (blur b ≠ 10) = decide (b ≠ 10) := by
  rw [decide_eq_decide, ne_eq, ne_eq, blur_eq_iff (by decide)]

theorem takeWhile_newline_blurred (s : Text) :
    (blurred s).takeWhile (· ≠ 10) = blurred (s.takeWhile (· ≠ 10)) := by
  rw [blurred, List.takeWhile_map, blurred]
  congr 2
  funext b
  exact newline_blur b

theorem dropWhile_newline_blurred (s : Text) :
    (blurred s).dropWhile (· ≠ 10) = blurred (s.dropWhile (· ≠ 10)) := by
  rw [blurred, List.dropWhile_map, blurred]
  congr 2
  funext b
  exact newline_blur b

theorem readsBack_blurred {key : Text} (hkey : digitFree key = true) (before after : Text) :
    readsBack key (blurred before) (blurred after) = readsBack key before after := by
  have hbefore : linesBefore (blurred before) = (linesBefore before).map blurred := by
    rw [linesBefore, ← blurred_reverse, dropWhile_newline_blurred, ← blurred_reverse, lines_blurred,
      linesBefore]
  have hstart : lineStart (blurred before) = blurred (lineStart before) := by
    rw [lineStart, ← blurred_reverse, takeWhile_newline_blurred, ← blurred_reverse, lineStart]
  have hend : lineEnd (blurred after) = blurred (lineEnd after) := takeWhile_newline_blurred after
  have hclean (e : Text) : (clean (48 :: blurred e) == [48]) = (clean (48 :: e) == [48]) := by
    -- what is cleaned begins with the zero, so only what follows may differ
    have hink : clean (48 :: e) = 48 :: cleanEnd e :=
      clean_append_ink (a := 48) (by decide) (by decide) [] e
    have hhead : (48 :: blurred e : Text) = blurred (48 :: e) := rfl
    have hcons (s : Text) : blurred (48 :: s) = 48 :: blurred s := rfl
    rw [hhead, clean_blurred, hink, hcons, Bool.eq_iff_iff, beq_iff_eq, beq_iff_eq,
      List.cons_inj_right, List.cons_inj_right, blurred, List.map_eq_nil_iff]
  have hfences (ls : List Text) : (ls.map blurred).all (!isFence ·) = ls.all (!isFence ·) := by
    rw [List.all_map]
    congr 1
    funext l
    exact congrArg (!·) (isFence_blurred l)
  have hkeys (ls : List Text) :
      ((ls.map blurred).takeWhile (!isFence ·)).all (keyOf · != some key) =
        (ls.takeWhile (!isFence ·)).all (keyOf · != some key) := by
    have htake : (ls.map blurred).takeWhile (!isFence ·) =
        (ls.takeWhile (!isFence ·)).map blurred := by
      rw [List.takeWhile_map]
      congr 2
      funext l
      exact congrArg (!·) (isFence_blurred l)
    rw [htake, List.all_map]
    congr 1
    funext l
    exact keyOf_blurred hkey l
  have hblank (s : Text) : (trimStart (blurred s) == []) = (trimStart s == []) := by
    rw [trimStart_blurred, Bool.eq_iff_iff, beq_iff_eq, beq_iff_eq, blurred, List.map_eq_nil_iff]
  rw [readsBack, readsBack, hbefore, hstart, hend, hclean, hblank, lines_blurred, ← List.map_tail,
    ← List.map_tail, hfences, hkeys]

theorem inPlace_blurred {key : Text} (hkey : digitFree key = true) (block : Text) (width : Nat) :
    inPlace (blurred block) key width = inPlace block key width := by
  have hfree : digitFree (key ++ [58, 32]) = true := by
    rw [digitFree, List.all_append, Bool.and_eq_true]
    exact ⟨hkey, by decide⟩
  have hlen : (blurred block).length = block.length := List.length_map ..
  have htake (n : Nat) : (blurred block).take n = blurred (block.take n) := List.map_take.symm
  have hdrop (n : Nat) : (blurred block).drop n = blurred (block.drop n) := List.map_drop.symm
  rw [inPlace, inPlace, findKey_blurred hfree]
  cases findKey block (key ++ [58, 32]) with
  | none => rfl
  | some pos =>
    dsimp only
    rw [hlen, slice_blurred, all_isDigit_blurred, htake, hdrop, readsBack_blurred hkey]

abbrev headOf (contents : Text) : Text := contents.take (kbHeadBlocks * blockSize)

/-- The first block carries the counters of the file: the first `seen: ` and the first
`escalated: ` in it have their digits behind them, and are the fields that `parse` reads. -/
structure Carries (contents : Text) : Prop where
  seen : ∃ p, Field.seen.Stands (contents.take blockSize) p
  escalated : ∃ q, Field.escalated.Stands (contents.take blockSize) q
  seenRead : inPlace (headOf contents) (utf8 "seen") 5 = true
  escalatedRead : inPlace (headOf contents) (utf8 "escalated") 1 = true

/-- Where the digits of the counters stand. -/
def inCounters (contents : Text) (k : Nat) : Prop :=
  (∃ p, FirstAt (contents.take blockSize) (utf8 "seen: ") p ∧ p + 6 ≤ k ∧ k < p + 11) ∨
    ∃ p, FirstAt (contents.take blockSize) (utf8 "escalated: ") p ∧ k = p + 11

section Rewritten

variable {contents contents' : Text} (hblur : blurred contents' = blurred contents)

include hblur

theorem take_blurred (n : Nat) : blurred (contents'.take n) = blurred (contents.take n) := by
  have htake (s : Text) : blurred (s.take n) = (blurred s).take n := List.map_take
  rw [htake, htake, hblur]

theorem Carries.rewritten (h : Carries contents) : Carries contents' := by
  have hblock := take_blurred hblur blockSize
  have hhead := take_blurred hblur (kbHeadBlocks * blockSize)
  obtain ⟨⟨p, hp⟩, ⟨q, hq⟩, hseen, hesc⟩ := h
  refine ⟨⟨p, (Field.stands_blurred hblock _ p).mpr hp⟩, ⟨q, (Field.stands_blurred hblock _ q).mpr hq⟩,
    ?_, ?_⟩
  · rw [← inPlace_blurred (by decide), hhead, inPlace_blurred (by decide)]
    exact hseen
  · rw [← inPlace_blurred (by decide), hhead, inPlace_blurred (by decide)]
    exact hesc

theorem inCounters_blurred (k : Nat) : inCounters contents' k ↔ inCounters contents k := by
  have hfirst (key : Text) (hkey : digitFree key = true) (p : Nat) :
      FirstAt (contents'.take blockSize) key p ↔ FirstAt (contents.take blockSize) key p :=
    firstAt_blurred (take_blurred hblur blockSize) hkey p
  simp only [inCounters, hfirst (utf8 "seen: ") (by decide),
    hfirst (utf8 "escalated: ") (by decide)]

end Rewritten

theorem Carries.ne_nil {contents : Text} (h : Carries contents) : contents ≠ [] := by
  rintro rfl
  obtain ⟨p, hp⟩ := h.seen
  have hlen := hp.2.1
  have hsix : Field.seen.key.length = 6 := by decide
  rw [List.take_nil, List.length_nil, hsix] at hlen
  omega

theorem setUintField_stands {f : Field} {block : Text} {pos : Nat} (h : f.Stands block pos)
    (value : Nat) : setUintField block f.key value f.width =
      some (splice block (pos + f.key.length) (toDigits f.width (min value (10 ^ f.width - 1)))) := by
  have hok : ¬ (pos + f.key.length + f.width > block.length ∨
      ¬ (slice block (pos + f.key.length) f.width).all isDigit = true) := by
    rw [not_or, Nat.not_lt, not_not]
    exact h.2
  rw [setUintField, (findKey_eq_some_iff f.key_ne_nil).mpr h.1]
  exact if_neg hok

theorem FirstAt.append {block key : Text} {pos : Nat} (hkey : key ≠ []) (h : FirstAt block key pos)
    (rest : Text) : FirstAt (block ++ rest) key pos := by
  have hpos := List.length_pos_of_ne_nil hkey
  have hlen := congrArg List.length h.1
  rw [slice, List.length_take, List.length_drop] at hlen
  have hslice (i : Nat) (hi : i ≤ pos) :
      slice (block ++ rest) i key.length = slice block i key.length := by
    rw [slice, slice, List.drop_append_of_le_length (by omega),
      List.take_append_of_le_length (by rw [List.length_drop]; omega)]
  refine ⟨(hslice pos (Nat.le_refl pos)).trans h.1, fun i hi => ?_⟩
  rw [hslice i (Nat.le_of_lt hi)]
  exact h.2 i hi

theorem setUintField_append {block block' key : Text} {value width : Nat} (hkey : key ≠ [])
    (h : setUintField block key value width = some block') (rest : Text) :
    setUintField (block ++ rest) key value width = some (block' ++ rest) := by
  unfold setUintField at h
  split at h
  case h_1 => cases h
  case h_2 pos hfind =>
    dsimp only at h
    split at h
    case isTrue => cases h
    case isFalse hok =>
      rw [not_or, Nat.not_lt, not_not] at hok
      obtain rfl := Option.some.inj h
      have hfirst := ((findKey_eq_some_iff hkey).mp hfind).append hkey rest
      have hslice : slice (block ++ rest) (pos + key.length) width =
          slice block (pos + key.length) width := by
        rw [slice, slice, List.drop_append_of_le_length (by omega),
          List.take_append_of_le_length (by rw [List.length_drop]; omega)]
      have hok' : ¬ (pos + key.length + width > (block ++ rest).length ∨
          ¬ (slice (block ++ rest) (pos + key.length) width).all isDigit = true) := by
        rw [hslice, not_or, not_not, List.length_append]
        exact ⟨by omega, hok.2⟩
      rw [setUintField, (findKey_eq_some_iff hkey).mpr hfirst]
      dsimp only
      rw [if_neg hok', splice, splice, length_toDigits,
        List.take_append_of_le_length (by omega), List.drop_append_of_le_length hok.1]
      simp only [List.append_assoc]

end Kb

theorem updatedBlock_append {block block' : Text} {issue : KnownIssue}
    (h : updatedBlock block issue = some block') (rest : Text) :
    updatedBlock (block ++ rest) issue = some (block' ++ rest) := by
  unfold updatedBlock at h
  split at h
  case h_1 => cases h
  case h_2 block₁ hseen =>
    rw [updatedBlock, Kb.setSeenInBlock, Kb.setUintField_append (by decide) hseen rest]
    exact Kb.setUintField_append (by decide) h rest

namespace Kb

theorem parse_seen {head head' : Text} {rec : KbRecord} (hrec : parse head = some rec)
    (hin : inPlace head (utf8 "seen") 5 = true) {n : Nat}
    (hset : setSeenInBlock head n = some head') :
    parse head' = some { rec with seen := min n 99999 } := by
  -- the writer caps the number, so it may be taken for one that fits a word
  have hfits : (UInt32.ofNat (min n 99999)).toNat = min n 99999 := by
    rw [UInt32.toNat_ofNat']
    omega
  have hkey : utf8 "seen: " = utf8 "seen" ++ [58, 32] := by decide
  have hcap : setUintField head (utf8 "seen" ++ [58, 32]) (min n 99999) 5 = some head' := by
    rw [← hset, setSeenInBlock, hkey, setUintField, setUintField]
    have hmin : min (min n 99999) (10 ^ 5 - 1) = min n (10 ^ seenWidth - 1) := by
      change min (min n 99999) 99999 = min n 99999
      omega
    rw [hmin]
    rfl
  have hupdate := (seenSlot.updates_iff hrec).mpr hin (.ofNat (min n 99999)) head'
  change setUintField head (utf8 "seen" ++ [58, 32]) (UInt32.ofNat (min n 99999)).toNat 5 = _ →
    parse head' = some { rec with seen := min (UInt32.ofNat (min n 99999)).toNat 99999 } at hupdate
  rw [hfits] at hupdate
  rw [hupdate hcap]
  congr 2
  omega

theorem parse_escalated {head head' : Text} {rec : KbRecord} (hrec : parse head = some rec)
    (hin : inPlace head (utf8 "escalated") 1 = true) {b : Bool}
    (hset : setEscalatedInBlock head b = some head') :
    parse head' = some { rec with escalated := b } := by
  have hkey : utf8 "escalated: " = utf8 "escalated" ++ [58, 32] := by decide
  rw [setEscalatedInBlock, hkey] at hset
  exact (escalatedSlot.updates_iff hrec).mpr hin b head' hset

theorem toDigits_digitsValue {d : Text} (hd : d.all isDigit = true) :
    toDigits d.length (digitsValue d) = d := by
  refine digitsValue_inj (toDigits_isDigit ..) hd (length_toDigits ..) ?_
  rw [digitsValue_toDigits, Nat.mod_eq_of_lt (digitsValue_lt hd)]

theorem setUintField_self {f : Field} {block : Text} {pos : Nat} (h : f.Stands block pos) :
    setUintField block f.key (digitsValue (slice block (pos + f.key.length) f.width)) f.width =
      some block := by
  have hlen : (slice block (pos + f.key.length) f.width).length = f.width := length_slice h.2.1
  have hlt := digitsValue_lt h.2.2
  have hdigits := toDigits_digitsValue h.2.2
  rw [hlen] at hlt hdigits
  rw [setUintField_stands h, Nat.min_eq_left (Nat.le_sub_one_of_lt hlt), hdigits, splice, hlen]
  generalize pos + f.key.length = start
  rw [slice, List.append_assoc, ← List.drop_drop, List.take_append_drop, List.take_append_drop]

theorem Carries.seen_le {contents : Text} {rec : KbRecord} (h : Carries contents)
    (hrec : parse (headOf contents) = some rec) : rec.seen ≤ 99999 := by
  obtain ⟨p, hp⟩ := h.seen
  have hhead : contents.take blockSize ++ (headOf contents).drop blockSize = headOf contents := by
    have htake : contents.take blockSize = (headOf contents).take blockSize := by
      rw [List.take_take, Nat.min_eq_left (by decide)]
    rw [htake, List.take_append_drop]
  have hset := setUintField_append (by decide) (setUintField_self hp)
    ((headOf contents).drop blockSize)
  rw [hhead] at hset
  have hagain := (parse_seen hrec h.seenRead hset).symm.trans hrec
  rw [← Option.some.inj hagain]
  exact Nat.min_le_right ..

/-- What the persist loop makes of a file that carries its counters: they are rewritten, what
`parse` reads is the new record, and no other byte changes. -/
theorem carries_update {contents : Text} {rec : KbRecord} (h : Carries contents)
    (hrec : parse (headOf contents) = some rec) (issue : KnownIssue) :
    ∃ contents', updatedBlock (contents.take blockSize) issue = some (contents'.take blockSize) ∧
      contents'.drop blockSize = contents.drop blockSize ∧ blurred contents' = blurred contents ∧
      parse (headOf contents') =
        some { rec with seen := min issue.seen 99999, escalated := issue.escalated } ∧
      ∀ k, ¬ inCounters contents k → contents'[k]? = contents[k]? := by
  obtain ⟨⟨p, hp⟩, ⟨q, hq⟩, hseenIn, hescIn⟩ := h
  generalize hblock : contents.take blockSize = block at hp hq ⊢
  generalize hrest : contents.drop blockSize = rest
  have hcontents : block ++ rest = contents := by rw [← hblock, ← hrest, List.take_append_drop]
  have hfull : block.length = blockSize ∨ rest = [] := by
    rw [← hblock, ← hrest, List.length_take, List.drop_eq_nil_iff]
    omega
  have hle : block.length ≤ blockSize := by
    rw [← hblock, List.length_take]
    omega
  -- a text in the place of the block
  have hcut {x : Text} (hx : x.length = block.length) : (x ++ rest).take blockSize = x ∧
      (x ++ rest).drop blockSize = rest ∧ headOf (x ++ rest) = x ++ rest.take blockSize := by
    have htwo : kbHeadBlocks * blockSize = blockSize + blockSize := rfl
    obtain hfull | rfl := hfull
    · have hsize : x.length = blockSize := hx.trans hfull
      refine ⟨List.take_left' hsize, List.drop_left' hsize, ?_⟩
      rw [headOf, htwo, ← hsize, List.take_length_add_append, hsize]
    · rw [List.append_nil, List.take_nil, List.append_nil]
      exact ⟨List.take_of_length_le (by omega), List.drop_eq_nil_of_le (by omega),
        List.take_of_length_le (by omega)⟩
  have hset₁ : setSeenInBlock block issue.seen =
      some (splice block (p + 6) (toDigits 5 (min issue.seen 99999))) :=
    setUintField_stands hp issue.seen
  obtain ⟨hlen₁, hblur₁⟩ := setUintField_blurred hset₁
  have hbytes₁ (k : Nat) (hk : ¬ (p + 6 ≤ k ∧ k < p + 11)) :
      (splice block (p + 6) (toDigits 5 (min issue.seen 99999)))[k]? = block[k]? := by
    have hend : p + 6 + (toDigits 5 (min issue.seen 99999)).length ≤ block.length := by
      rw [length_toDigits]
      exact hp.2.1
    rw [getElem?_splice hend, length_toDigits, if_neg (by omega)]
  generalize splice block (p + 6) (toDigits 5 (min issue.seen 99999)) = block₁ at *
  have hq₁ := (Field.stands_blurred hblur₁ .escalated q).mpr hq
  have hset₂ : setEscalatedInBlock block₁ issue.escalated =
      some (splice block₁ (q + 11) (toDigits 1 (min issue.escalated.toNat 9))) :=
    setUintField_stands hq₁ issue.escalated.toNat
  obtain ⟨hlen₂, hblur₂⟩ := setUintField_blurred hset₂
  have hbytes₂ (k : Nat) (hk : k ≠ q + 11) :
      (splice block₁ (q + 11) (toDigits 1 (min issue.escalated.toNat 9)))[k]? = block₁[k]? := by
    have hend : q + 11 + (toDigits 1 (min issue.escalated.toNat 9)).length ≤ block₁.length := by
      rw [length_toDigits]
      exact hq₁.2.1
    rw [getElem?_splice hend, length_toDigits, if_neg (by omega)]
  generalize splice block₁ (q + 11) (toDigits 1 (min issue.escalated.toNat 9)) = block₂ at *
  have happ (s t : Text) : blurred (s ++ t) = blurred s ++ blurred t := List.map_append
  refine ⟨block₂ ++ rest, ?_, ?_, ?_, ?_, fun k hk => ?_⟩
  · rw [(hcut (hlen₂.trans hlen₁)).1, updatedBlock, hset₁]
    exact hset₂
  · exact (hcut (hlen₂.trans hlen₁)).2.1
  · rw [happ, hblur₂, hblur₁, ← happ, hcontents]
  · rw [← hcontents, (hcut rfl).2.2] at hrec hseenIn hescIn
    rw [(hcut (hlen₂.trans hlen₁)).2.2]
    have hparse₁ := parse_seen hrec hseenIn (setUintField_append (by decide) hset₁ _)
    refine parse_escalated hparse₁ ?_ (setUintField_append (by decide) hset₂ _)
    rw [← inPlace_blurred (by decide), happ, hblur₁, ← happ, inPlace_blurred (by decide)]
    exact hescIn
  · have hseen : ¬ (p + 6 ≤ k ∧ k < p + 11) := fun hin => hk (.inl ⟨p, hblock ▸ hp.1, hin⟩)
    have hesc : k ≠ q + 11 := fun heq => hk (.inr ⟨q, hblock ▸ hq.1, heq⟩)
    rw [← hcontents, List.getElem?_append, List.getElem?_append, hlen₂, hlen₁, hbytes₂ k hesc,
      hbytes₁ k hseen]

end Kb

end Perenne

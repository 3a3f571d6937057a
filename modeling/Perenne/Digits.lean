import Perenne.Kb
import Perenne.Loader

namespace Perenne

/-- The byte with every digit read as `0`. -/
def blur (b : UInt8) : UInt8 := if isDigit b then 48 else b

/-- The text with every digit read as `0`. -/
def blurred (s : Text) : Text := s.map blur

theorem blurred_blurred (s : Text) : blurred (blurred s) = blurred s := by
  have hblur (b : UInt8) : blur (blur b) = blur b := by
    by_cases hb : isDigit b = true
    · have h : blur b = 48 := if_pos hb
      rw [h]
      rfl
    · have h : blur b = b := if_neg hb
      rw [h, h]
  simp only [blurred, List.map_map, Function.comp_def, hblur]

theorem isDigit_range {b : UInt8} (h : isDigit b = true) : 48 ≤ b.toNat ∧ b.toNat ≤ 57 := by
  simp only [isDigit, Bool.and_eq_true, decide_eq_true_eq, UInt8.le_iff_toNat_le] at h
  exact h

theorem blur_test {p : UInt8 → Bool} (hp : ∀ b, isDigit b = true → p b = false) (b : UInt8) :
    p (blur b) = p b := by
  unfold blur
  split
  case isTrue hb => rw [hp b hb, hp 48 (by decide)]
  case isFalse => rfl

theorem blur_beq {c : UInt8} (hc : isDigit c = false) (b : UInt8) : (blur b == c) = (b == c) := by
  refine blur_test (p := (· == c)) (fun b hb => beq_false_of_ne ?_) b
  rintro rfl
  rw [hb] at hc
  cases hc

theorem blur_eq_iff {b c : UInt8} (hc : isDigit c = false) : blur b = c ↔ b = c := by
  rw [← beq_iff_eq, ← beq_iff_eq (a := b), blur_beq hc]

theorem blur_le {c : UInt8} (hc : 57 < c.toNat) (b : UInt8) :
    (decide (c ≤ blur b)) = decide (c ≤ b) := by
  refine blur_test (p := fun b => decide (c ≤ b)) (fun b hb => ?_) b
  have := isDigit_range hb
  simp only [decide_eq_false_iff_not, UInt8.le_iff_toNat_le]
  omega

theorem blur_lt {c : UInt8} (hc : 57 < c.toNat) (b : UInt8) : (blur b < c) = (b < c) := by
  have h := blur_le hc b
  simp only [decide_eq_decide] at h
  rw [← UInt8.not_le, h, UInt8.not_le]

theorem blur_of_not_lt {b : UInt8} (h : ¬ b < 0x80) : blur b = b := by
  refine if_neg fun hb => h ?_
  have := isDigit_range hb
  rw [UInt8.lt_iff_toNat_lt]
  have h128 : (0x80 : UInt8).toNat = 128 := rfl
  omega

theorem blur_between {l : UInt8} (hl : 57 < l.toNat) (r b : UInt8) :
    (decide (l ≤ blur b) && decide (blur b ≤ r)) = (decide (l ≤ b) && decide (b ≤ r)) := by
  refine blur_test (p := fun b => decide (l ≤ b) && decide (b ≤ r)) (fun b hb => ?_) b
  have := isDigit_range hb
  rw [Bool.and_eq_false_iff]
  left
  simp only [decide_eq_false_iff_not, UInt8.le_iff_toNat_le]
  omega

theorem isCont_blur (b : UInt8) : isCont (blur b) = isCont b := blur_between (by decide) _ b

theorem white₁_blur (b : UInt8) : white₁ (blur b) = white₁ b := by
  refine blur_test (fun b hb => ?_) b
  have := isDigit_range hb
  have h13 : (13 : UInt8).toNat = 13 := rfl
  have hle : (decide (b ≤ 13)) = false := by
    simp only [decide_eq_false_iff_not, UInt8.le_iff_toNat_le]
    omega
  have hne : (b == 32) = false := by
    refine beq_false_of_ne ?_
    rintro rfl
    have h32 : (32 : UInt8).toNat = 32 := rfl
    omega
  simp [white₁, hle, hne]

theorem white₂_blur (a b : UInt8) : white₂ (blur a) (blur b) = white₂ a b := by
  simp only [white₂, blur_beq (c := 0xC2) (by decide), blur_beq (c := 0x85) (by decide),
    blur_beq (c := 0xA0) (by decide)]

theorem white₃_blur (a b c : UInt8) : white₃ (blur a) (blur b) (blur c) = white₃ a b c := by
  simp only [white₃, blur_beq (c := 0xE1) (by decide), blur_beq (c := 0xE2) (by decide),
    blur_beq (c := 0xE3) (by decide), blur_beq (c := 0x9A) (by decide),
    blur_beq (c := 0x80) (by decide), blur_beq (c := 0x81) (by decide),
    blur_beq (c := 0x9F) (by decide), blur_beq (c := 0xA8) (by decide),
    blur_beq (c := 0xA9) (by decide), blur_beq (c := 0xAF) (by decide),
    blur_between (l := 0x80) (by decide)]

theorem validUtf8_blurred (s : Text) : validUtf8 (blurred s) = validUtf8 s := by
  unfold blurred
  fun_induction validUtf8 s
  all_goals first | rfl | rw [List.map_cons, validUtf8.eq_def]
  all_goals simp only [List.map_cons, List.map_nil, blur_lt (c := 0x80) (by decide), blur_of_not_lt,
    isCont_blur, blur_between (l := 0xA0) (by decide), blur_between (l := 0x80) (by decide),
    blur_between (l := 0x90) (by decide), Bool.false_eq_true, not_false_eq_true, if_true,
    if_false, *]

theorem lines_blurred (s : Text) : lines (blurred s) = (lines s).map blurred := by
  have hcons (c : UInt8) (s : Text) : blurred (c :: s) = blur c :: blurred s := rfl
  have hreturn : blur 13 = 13 := rfl
  have hnewline : blur 10 = 10 := rfl
  match s with
  | [] => rfl
  | c :: s =>
    rw [hcons]
    by_cases hc : c = 10
    · subst hc
      rw [hnewline, lines_newline, lines_newline, lines_blurred s]
      rfl
    by_cases hcr : c = 13 ∧ s.head? = some 10
    · obtain ⟨rfl, hs⟩ := hcr
      match s with
      | [] => cases hs
      | d :: s =>
        obtain rfl := Option.some.inj hs
        rw [hcons, hreturn, hnewline, lines_return_newline, lines_return_newline, lines_blurred s]
        rfl
    · have hc' : blur c ≠ 10 := fun h => hc ((blur_eq_iff rfl).mp h)
      have hcr' : ¬ (blur c = 13 ∧ (blurred s).head? = some 10) := by
        rintro ⟨h13, hs⟩
        refine hcr ⟨(blur_eq_iff rfl).mp h13, ?_⟩
        match s with
        | [] => cases hs
        | d :: s => exact congrArg some ((blur_eq_iff rfl).mp (Option.some.inj hs))
      rw [lines_cons_other hc' hcr', lines_cons_other hc hcr, lines_blurred s]
      cases lines s with
      | nil => rfl
      | cons l ls => rfl

section White

variable {two : UInt8 → UInt8 → Bool} {three : UInt8 → UInt8 → UInt8 → Bool}
  (htwo : ∀ a b, two (blur a) (blur b) = two a b)
  (hthree : ∀ a b c, three (blur a) (blur b) (blur c) = three a b c)

include htwo hthree

theorem dropWhite_blurred (s : Text) :
    dropWhite two three (blurred s) = blurred (dropWhite two three s) := by
  unfold blurred
  fun_induction dropWhite two three s
  all_goals simp only [List.map_cons, List.map_nil]
  all_goals rw [dropWhite.eq_def]
  all_goals simp_all [white₁_blur]

end White

theorem trimStart_blurred (s : Text) : trimStart (blurred s) = blurred (trimStart s) :=
  dropWhite_blurred white₂_blur white₃_blur s

theorem trimEnd_blurred (s : Text) : trimEnd (blurred s) = blurred (trimEnd s) := by
  have hrev (s : Text) : (blurred s).reverse = blurred s.reverse := by
    rw [blurred, blurred, List.map_reverse]
  rw [trimEnd, trimEnd, hrev, dropWhite_blurred (fun a b => white₂_blur b a)
    (fun a b c => white₃_blur c b a), hrev]

theorem trim_blurred (s : Text) : trim (blurred s) = blurred (trim s) := by
  rw [trim, trim, trimStart_blurred, trimEnd_blurred]

def digitFree (s : Text) : Bool := s.all fun b => !isDigit b

theorem blurred_eq_iff {s t : Text} (ht : digitFree t = true) : blurred s = t ↔ s = t := by
  induction s generalizing t with
  | nil => simp [blurred]
  | cons b s ih =>
    cases t with
    | nil => simp [blurred]
    | cons c t =>
      simp only [digitFree, List.all_cons, Bool.and_eq_true, Bool.not_eq_true'] at ht
      rw [blurred, List.map_cons, List.cons.injEq, List.cons.injEq, blur_eq_iff ht.1]
      exact and_congr_right fun _ => ih ht.2

theorem stripPrefix_blurred {p : Text} (hp : digitFree p = true) (s : Text) :
    stripPrefix p (blurred s) = (stripPrefix p s).map blurred := by
  have htake : (blurred s).take p.length = blurred (s.take p.length) := by
    rw [blurred, blurred, List.map_take]
  have hdrop : (blurred s).drop p.length = blurred (s.drop p.length) := by
    rw [blurred, blurred, List.map_drop]
  rw [stripPrefix, stripPrefix, htake, hdrop]
  simp only [blurred_eq_iff hp]
  split
  · rfl
  · rfl

theorem stripSuffix_blurred {p : Text} (hp : digitFree p = true) (s : Text) :
    stripSuffix p (blurred s) = (stripSuffix p s).map blurred := by
  have hrev : digitFree p.reverse = true := by simpa [digitFree] using hp
  have hrev' (s : Text) : (blurred s).reverse = blurred s.reverse := by
    rw [blurred, blurred, List.map_reverse]
  rw [stripSuffix, stripSuffix, hrev', stripPrefix_blurred hrev, Option.map_map, Option.map_map]
  congr 1
  funext x
  exact hrev' x

theorem splitOnce_blurred {c : UInt8} (hc : isDigit c = false) (s : Text) :
    splitOnce c (blurred s) = (splitOnce c s).map fun r => (blurred r.1, blurred r.2) := by
  induction s with
  | nil => rfl
  | cons b s ih =>
    have ih : splitOnce c (s.map blur) = _ := ih
    rw [blurred, List.map_cons, splitOnce, splitOnce, ih]
    simp only [blur_eq_iff hc]
    split
    · rfl
    · simp [blurred, Function.comp_def]

theorem clean_blurred (v : Text) : Kb.clean (blurred v) = blurred (Kb.clean v) := by
  have hget (o : Option Text) (d : Text) : (o.map blurred).getD (blurred d) = blurred (o.getD d) := by
    cases o with
    | none => rfl
    | some x => rfl
  simp only [Kb.clean, trim_blurred, stripPrefix_blurred (p := [34]) rfl,
    stripSuffix_blurred (p := [34]) rfl, hget]

namespace Kb

/-- The same fields up to digits and counters. -/
structure Fields.Alike (f f' : Fields) : Prop where
  id : f'.id = f.id.map blurred
  title : f'.title = f.title.map blurred
  playbook : f'.playbook = f.playbook.map blurred
  matchCause : f'.matchCause = f.matchCause.map blurred
  inPlaybook : f'.inPlaybook = f.inPlaybook

theorem Fields.Alike.set {f f' : Fields} (h : f.Alike f') (key value : Text) :
    (f.set key value).Alike (f'.set (blurred key) (blurred value)) := by
  obtain ⟨hid, htitle, hplaybook, hcause, hin⟩ := h
  simp only [Fields.set, blurred_eq_iff (t := utf8 "id") (by decide),
    blurred_eq_iff (t := utf8 "title") (by decide),
    blurred_eq_iff (t := utf8 "match-cause") (by decide),
    blurred_eq_iff (t := utf8 "seen") (by decide),
    blurred_eq_iff (t := utf8 "escalated") (by decide),
    blurred_eq_iff (t := utf8 "playbook") (by decide), clean_blurred]
  repeat' split
  all_goals exact ⟨by simp [hid], by simp [htitle], by simp [hplaybook], by simp [hcause], by simp [hin]⟩

theorem Fields.Alike.line {f f' : Fields} (h : f.Alike f') (l : Text) :
    (f.line l).Alike (f'.line (blurred l)) := by
  have hitem : f'.item (blurred l) = (f.item l).map blurred := by
    have hnone : f'.playbook.isNone = f.playbook.isNone := by rw [h.playbook, Option.isNone_map]
    rw [Fields.item, Fields.item, h.inPlaybook, hnone]
    split
    · rw [trimStart_blurred, stripPrefix_blurred (by decide)]
    · rfl
  rw [Fields.line, Fields.line, hitem]
  cases f.item l with
  | some item =>
    obtain ⟨hid, htitle, -, hcause, hin⟩ := h
    exact ⟨hid, htitle, by simp [clean_blurred], hcause, hin⟩
  | none =>
    dsimp only [Option.map_none]
    rw [splitOnce_blurred (by decide)]
    cases splitOnce 58 l with
    | none => exact h
    | some kv =>
      dsimp only [Option.map_some]
      rw [trim_blurred]
      exact h.set _ _

theorem Fields.Alike.scan {f f' : Fields} (h : f.Alike f') (ls : List Text) :
    (scan f ls).Alike (scan f' (ls.map blurred)) := by
  induction ls generalizing f f' with
  | nil => exact h
  | cons l ls ih =>
    rw [List.map_cons, Kb.scan, Kb.scan, trim_blurred]
    simp only [blurred_eq_iff (t := utf8 "---") (by decide)]
    split
    · exact h
    · exact ih (h.line l)

/-- The texts of a record, up to digits. -/
def texts (r : KbRecord) : Text × Text × Text × Option Text :=
  (blurred r.id, blurred r.title, blurred r.playbook, r.matchCause.map blurred)

theorem parse_blurred (s : Text) :
    (parse (blurred s)).map (fun r => (r.id, r.title, r.playbook, r.matchCause)) =
      (parse s).map texts := by
  rw [parse, parse, validUtf8_blurred, lines_blurred]
  split
  case isTrue => rfl
  case isFalse =>
    cases lines s with
    | nil => rfl
    | cons first rest =>
      rw [List.map_cons]
      dsimp only
      rw [trim_blurred]
      simp only [ne_eq, blurred_eq_iff (t := utf8 "---") (by decide)]
      split
      case isTrue => rfl
      case isFalse =>
        have hscan : (scan .none rest).Alike (scan .none (rest.map blurred)) :=
          Fields.Alike.scan ⟨rfl, rfl, rfl, rfl, rfl⟩ rest
        rw [hscan.id, hscan.title, hscan.playbook, hscan.matchCause]
        cases (scan .none rest).id with
        | none => rfl
        | some id =>
        cases (scan .none rest).title with
        | none => rfl
        | some title =>
        cases (scan .none rest).playbook with
        | none => rfl
        | some playbook => rfl

end Kb

theorem isCharBoundary_blurred (s : Text) (k : Nat) :
    isCharBoundary (blurred s) k = isCharBoundary s k := by
  have hdigit (b : UInt8) (hb : isDigit b = true) : (b &&& 0xC0 == 0x80) = false := by
    have hrange := isDigit_range hb
    have hlist : ∀ n < 58, (UInt8.ofNat n &&& 0xC0 == 0x80) = false := by decide
    have := hlist b.toNat (by omega)
    rwa [UInt8.ofNat_toNat] at this
  have hget : (blurred s)[k]? = s[k]?.map blur := List.getElem?_map
  rw [isCharBoundary, isCharBoundary, hget]
  cases s[k]? with
  | none => simp [blurred]
  | some b => exact congrArg (! ·) (blur_test hdigit b)

theorem boundaryBelow_blurred (s : Text) (k : Nat) :
    boundaryBelow (blurred s) k = boundaryBelow s k := by
  induction k with
  | zero => rfl
  | succ k ih => rw [boundaryBelow, boundaryBelow, isCharBoundary_blurred, ih]

theorem Buf.fromStr_blurred (N : Nat) (s : Text) :
    (Buf.fromStr N (blurred s)).text = blurred (Buf.fromStr N s).text := by
  change (blurred s).take _ = blurred (s.take _)
  rw [boundaryBelow_blurred, blurred, blurred, List.length_map, List.map_take]

/-- Entries of equal fault class, as a list of their tokens up to digits. -/
def classes (issues : List KnownIssue) : List Text := issues.map fun i => blurred i.matchCause.text

theorem Kb.parse_head_blurred {s s' : Text} (h : blurred s' = blurred s) :
    (parse (s'.take (kbHeadBlocks * blockSize))).map texts =
      (parse (s.take (kbHeadBlocks * blockSize))).map texts := by
  have htake (s : Text) : blurred (s.take (kbHeadBlocks * blockSize)) =
      (blurred s).take (kbHeadBlocks * blockSize) := List.map_take
  rw [← parse_blurred, ← parse_blurred, htake, htake, h]

theorem loadFile_blurred {f f' : DirEntry × List UInt8} (h : blurred f'.2 = blurred f.2) :
    (loadFile f').map (fun i => blurred i.matchCause.text) =
      (loadFile f).map fun i => blurred i.matchCause.text := by
  have hload (f : DirEntry × List UInt8) : (loadFile f).map (fun i => blurred i.matchCause.text) =
      ((Kb.parse (f.2.take (kbHeadBlocks * blockSize))).map Kb.texts).bind fun t =>
        t.2.2.2.map fun m => (Buf.fromStr 24 m).text := by
    rw [loadFile]
    cases Kb.parse (f.2.take (kbHeadBlocks * blockSize)) with
    | none => rfl
    | some rec =>
      obtain ⟨id, title, playbook, matchCause, seen, escalated⟩ := rec
      cases matchCause with
      | none => rfl
      | some m => exact congrArg some (Buf.fromStr_blurred 24 m).symm
  rw [hload, hload, Kb.parse_head_blurred h]

def countOf (token : Text) (issues : List KnownIssue) : Nat :=
  issues.countP fun i => i.matchCause.text == token

theorem countOf_eq {token : Text} (ht : digitFree token = true) (issues : List KnownIssue) :
    countOf token issues = (classes issues).count token := by
  rw [countOf, classes, List.count, List.countP_map]
  refine List.countP_congr fun i _ => ?_
  simp only [beq_iff_eq, Function.comp_apply, blurred_eq_iff ht]

theorem blurred_digits {s : Text} (h : s.all isDigit = true) :
    blurred s = List.replicate s.length 48 := by
  refine List.eq_replicate_iff.mpr ⟨List.length_map .., fun b hb => ?_⟩
  obtain ⟨c, hc, rfl⟩ := List.mem_map.mp hb
  exact if_pos (List.all_eq_true.mp h c hc)

theorem blurred_splice {block part : Text} {start : Nat} (hend : start + part.length ≤ block.length)
    (hold : (slice block start part.length).all isDigit = true) (hnew : part.all isDigit = true) :
    blurred (splice block start part) = blurred block := by
  have hslice := length_slice hend
  have hsplit : block = block.take start ++ slice block start part.length ++
      block.drop (start + part.length) := by
    rw [slice, List.append_assoc, ← List.drop_drop, List.take_append_drop, List.take_append_drop]
  have happ (s t : Text) : blurred (s ++ t) = blurred s ++ blurred t := List.map_append
  have hblur := congrArg blurred hsplit
  rw [happ, happ, blurred_digits hold, hslice] at hblur
  rw [splice, happ, happ, blurred_digits hnew, ← hblur]

theorem toDigits_isDigit (width n : Nat) : (toDigits width n).all isDigit = true := by
  rw [List.all_eq_true]
  intro b hb
  obtain ⟨i, -, rfl⟩ := List.mem_map.mp hb
  have hdigit : ∀ d < 10, isDigit (.ofNat (48 + d)) = true := by decide
  exact hdigit _ (Nat.mod_lt _ (by decide))

namespace Kb

theorem setUintField_blurred {block block' key : Text} {value width : Nat}
    (h : setUintField block key value width = some block') :
    block'.length = block.length ∧ blurred block' = blurred block := by
  unfold setUintField at h
  split at h
  case h_1 => cases h
  case h_2 pos _ =>
    dsimp only at h
    split at h
    case isTrue => cases h
    case isFalse hok =>
      rw [not_or, Nat.not_lt, not_not] at hok
      obtain rfl := Option.some.inj h
      have hlen : (toDigits width (min value (10 ^ width - 1))).length = width := by simp [toDigits]
      refine ⟨length_splice (by rw [hlen]; exact hok.1), ?_⟩
      apply blurred_splice
      · rw [hlen]
        exact hok.1
      · rw [hlen]
        exact hok.2
      · exact toDigits_isDigit ..

end Kb

theorem updatedBlock_blurred {block block' : Text} {issue : KnownIssue}
    (h : updatedBlock block issue = some block') :
    block'.length = block.length ∧ blurred block' = blurred block := by
  unfold updatedBlock at h
  split at h
  case h_1 => cases h
  case h_2 block₁ hseen =>
    obtain ⟨hlen₁, hblur₁⟩ := Kb.setUintField_blurred hseen
    obtain ⟨hlen₂, hblur₂⟩ := Kb.setUintField_blurred h
    exact ⟨hlen₂.trans hlen₁, hblur₂.trans hblur₁⟩

/-- The same superblock and directory, and the same contents up to digits. -/
structure Volume.Alike (v v' : Volume) : Prop where
  superblock : v'.superblock = v.superblock
  files : v'.files.map (fun f => (f.1, blurred f.2)) = v.files.map fun f => (f.1, blurred f.2)

namespace Volume.Alike

variable {v v' v'' : Volume}

theorem refl (v : Volume) : v.Alike v := ⟨rfl, rfl⟩

theorem trans (h : v.Alike v') (h' : v'.Alike v'') : v.Alike v'' :=
  ⟨h'.superblock.trans h.superblock, h'.files.trans h.files⟩

theorem file (h : v.Alike v') {f' : DirEntry × List UInt8} (hf : f' ∈ v'.files) :
    ∃ f ∈ v.files, f.1 = f'.1 := by
  have hmem := List.mem_map_of_mem (f := fun f : DirEntry × List UInt8 => (f.1, blurred f.2)) hf
  rw [h.files] at hmem
  obtain ⟨f, hf, heq⟩ := List.mem_map.mp hmem
  exact ⟨f, hf, (Prod.mk.inj heq).1⟩

theorem loadable (h : v.Alike v') (hv : v.Loadable) : v'.Loadable := by
  refine ⟨⟨?_, ?_, ?_, ?_, fun f hf => ?_⟩, fun f hf => ?_⟩
  · rw [h.superblock]
    exact hv.directory
  · rw [h.superblock]
    exact hv.count
  · rw [h.superblock]
    exact hv.data
  · rw [h.superblock]
    exact hv.room
  · obtain ⟨f₀, hf₀, heq⟩ := h.file hf
    rw [h.superblock, ← heq]
    exact hv.inside f₀ hf₀
  · obtain ⟨f₀, hf₀, heq⟩ := h.file hf
    rw [← heq]
    exact hv.sizes f₀ hf₀

theorem classes_entries (h : v.Alike v') : classes v'.entries = classes v.entries := by
  have hclasses (fs : List (DirEntry × List UInt8)) : classes (fs.filterMap loadFile) =
      (fs.map fun f => (f.1, blurred f.2)).filterMap fun f =>
        (loadFile f).map fun i => blurred i.matchCause.text := by
    rw [classes, List.map_filterMap, List.filterMap_map]
    congr 1
    funext f
    exact (loadFile_blurred (blurred_blurred f.2)).symm
  rw [Volume.entries, Volume.entries, hclasses, hclasses, h.files]

end Volume.Alike

/-- The volume of a disk with the same superblock and directory. -/
def Volume.onDisk (v : Volume) (disk : Nat → Block) : Volume :=
  ⟨v.superblock, v.files.map fun f => (f.1, extent disk f.1.startBlock.toNat f.1.byteLen.toNat)⟩

theorem readVolume_onDisk {disk disk' : Nat → Block} {v : Volume} (hv : v.WellFormed)
    (hread : readVolume disk = some v) (h0 : disk' 0 = disk 0) (h1 : disk' 1 = disk 1) :
    readVolume disk' = some (v.onDisk disk') := by
  obtain ⟨hsb, hentries, -⟩ := readVolume_eq_some.mp hread
  have hdir : v.superblock.dirBlock.toNat = 1 := by rw [hv.directory]; rfl
  refine readVolume_eq_some.mpr ⟨?_, ?_, fun f hf => ?_⟩
  · rw [h0]
    exact hsb
  · dsimp only [Volume.onDisk]
    rw [hdir] at hentries ⊢
    rw [h1, hentries, List.map_map]
    rfl
  · obtain ⟨f₀, -, rfl⟩ := List.mem_map.mp hf
    rfl

theorem readVolume_alike {disk disk' : Nat → Block} {v : Volume} (hv : v.WellFormed)
    (hread : readVolume disk = some v) (h0 : disk' 0 = disk 0) (h1 : disk' 1 = disk 1)
    (hblur : ∀ n, blurred (disk' n).list = blurred (disk n).list) :
    ∃ v', readVolume disk' = some v' ∧ v.Alike v' := by
  obtain ⟨-, -, hdata⟩ := readVolume_eq_some.mp hread
  refine ⟨_, readVolume_onDisk hv hread h0 h1, rfl, ?_⟩
  rw [Volume.onDisk, List.map_map]
  refine List.map_congr_left fun f hf => ?_
  have hext (start len : Nat) : blurred (extent disk' start len) =
      blurred (extent disk start len) := by
    simp only [blurred, extent, List.map_take, List.map_flatMap] at hblur ⊢
    simp only [hblur]
  simp only [Function.comp_apply, hext, ← hdata f hf]

end Perenne

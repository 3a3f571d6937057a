import Perenne.CounterLines

namespace Perenne

namespace Kb

/-- The beginning of a line that a text ends with. -/
def lineStart (s : Text) : Text := (s.reverse.takeWhile (· ≠ 10)).reverse

def linesBefore (s : Text) : List Text := lines (s.reverse.dropWhile (· ≠ 10)).reverse

/-- The end of a line that a text begins with. -/
def lineEnd (s : Text) : Text := s.takeWhile (· ≠ 10)

theorem not_mem_takeWhile (s : Text) : 10 ∉ s.takeWhile (· ≠ 10) := by
  intro h
  simpa using List.mem_takeWhile_imp h

theorem dropWhile_newline {s t : Text} {b : UInt8} (h : s.dropWhile (· ≠ 10) = b :: t) :
    b = 10 := by
  have hhead := List.head?_dropWhile_not (fun b : UInt8 => decide (b ≠ 10)) s
  rw [h] at hhead
  simpa using hhead

theorem lines_linesBefore (s t : Text) :
    lines (s ++ t) = linesBefore s ++ lines (lineStart s ++ t) := by
  have hsplit : s = (s.reverse.dropWhile (· ≠ 10)).reverse ++ lineStart s := by
    rw [lineStart, ← List.reverse_append, List.takeWhile_append_dropWhile, List.reverse_reverse]
  conv => lhs; rw [hsplit]
  rw [List.append_assoc, linesBefore]
  cases hpre : s.reverse.dropWhile (· ≠ 10) with
  | nil => rfl
  | cons b pre =>
    obtain rfl := dropWhile_newline hpre
    exact lines_append (by simp) _

theorem lines_lineEnd (after : Text) :
    ∃ v, (lineEnd after = v ∨ lineEnd after = v ++ [13]) ∧ ∀ l, 10 ∉ l → l ≠ [] →
      l.getLast? ≠ some 13 → lines (l ++ after) = (l ++ v) :: (lines after).tail := by
  have hafter : after = lineEnd after ++ after.dropWhile (· ≠ 10) :=
    List.takeWhile_append_dropWhile.symm
  have hv : 10 ∉ lineEnd after := not_mem_takeWhile after
  have happ {l v : Text} (hl : 10 ∉ l) (hv : 10 ∉ v) : 10 ∉ l ++ v :=
    fun h => (List.mem_append.mp h).elim hl hv
  cases hrest : after.dropWhile (· ≠ 10) with
  | nil =>
    rw [hrest, List.append_nil] at hafter
    refine ⟨lineEnd after, .inl rfl, fun l hl hne _ => ?_⟩
    have htail : (lines after).tail = [] := by
      by_cases hnil : after = []
      · rw [hnil]
        rfl
      · rw [lines_single (hafter ▸ hv) hnil]
        rfl
    rw [htail, ← hafter]
    exact lines_single (happ hl (hafter ▸ hv)) (List.append_ne_nil_of_left_ne_nil hne _)
  | cons b s =>
    obtain rfl := dropWhile_newline hrest
    rw [hrest] at hafter
    generalize lineEnd after = e at hafter hv ⊢
    subst hafter
    by_cases hreturn : e.getLast? = some 13
    · obtain ⟨v, rfl⟩ := List.getLast?_eq_some_iff.mp hreturn
      have hv' : 10 ∉ v := fun h => hv (List.mem_append_left _ h)
      refine ⟨v, .inr rfl, fun l hl hne _ => ?_⟩
      rw [List.append_assoc, List.singleton_append, lines_return hv', ← List.append_assoc,
        lines_return (happ hl hv')]
      rfl
    · refine ⟨e, .inl rfl, fun l hl hne hlast => ?_⟩
      have hend : (l ++ e).getLast? ≠ some 13 := by
        rw [List.getLast?_append]
        cases he : e.getLast? with
        | none => exact hlast
        | some b => exact fun h => hreturn (he.trans h)
      rw [lines_cons ⟨hv, hreturn⟩, ← List.append_assoc, lines_cons ⟨happ hl hv, hend⟩]
      rfl

/-- The digits of a counter, between two texts. -/
def fieldText (key before d after : Text) : Text := before ++ (key ++ 58 :: 32 :: (d ++ after))

theorem lines_fieldText {key : Text} (hkey : isCounter key) (before after : Text) :
    ∃ v, (lineEnd after = v ∨ lineEnd after = v ++ [13]) ∧ ∀ d, d.all isDigit = true → d ≠ [] →
      lines (fieldText key before d after) = linesBefore before ++
        (lineStart before ++ (key ++ 58 :: 32 :: (d ++ v))) :: (lines after).tail := by
  obtain ⟨v, hv, hlines⟩ := lines_lineEnd after
  refine ⟨v, hv, fun d hd hne => ?_⟩
  have hdigit (b : UInt8) (hb : b ∈ d) : b ≠ 10 ∧ b ≠ 13 := by
    have hrange := isDigit_range (List.all_eq_true.mp hd b hb)
    constructor
    · rintro rfl
      exact absurd hrange.1 (by decide)
    · rintro rfl
      exact absurd hrange.1 (by decide)
  have hstart : 10 ∉ lineStart before := by
    rw [lineStart, List.mem_reverse]
    exact not_mem_takeWhile _
  have hline := hlines (lineStart before ++ (key ++ 58 :: 32 :: d)) ?_ ?_ ?_
  · rw [fieldText, lines_linesBefore]
    simpa using hline
  · simp only [List.mem_append, List.mem_cons, not_or]
    exact ⟨hstart, hkey.one_line.2, by decide, by decide, fun h => (hdigit _ h).1 rfl⟩
  · simp
  · obtain ⟨d, a, rfl⟩ := List.eq_nil_or_concat d |>.resolve_left hne
    have hcat : lineStart before ++ (key ++ 58 :: 32 :: d.concat a) =
        (lineStart before ++ (key ++ 58 :: 32 :: d)).concat a := by simp
    rw [hcat, List.concat_eq_append, List.getLast?_concat]
    exact fun h => (hdigit a (by simp)).2 (Option.some.inj h)

/-- Between these texts, the field is in the frontmatter, on a line of its own, with nothing but
its digits for a value, and no later line has its key. -/
def readsBack (key before after : Text) : Bool :=
  (linesBefore before).tail.all (!isFence ·) && trimStart (lineStart before) == [] &&
    clean (48 :: lineEnd after) == [48] &&
    ((lines after).tail.takeWhile (!isFence ·)).all (keyOf · != some key)

section Field

variable {key : Text} {upd : Text → Fields → Fields} (hkey : isCounter key) (hC : Counter key upd)
  (hagain : ∀ f v v', upd v (upd v' f) = upd v f) {α : Type} {own : Fields → α}
  (hown : ∀ f f', f.Agree f' → own f' = own f)

/-- Digits that are written for a field of this width. -/
structure IsDigits (width : Nat) (d : Text) : Prop where
  digits : d.all isDigit = true
  size : d.length = width + 1

theorem IsDigits.ne_nil {width : Nat} {d : Text} (h : IsDigits width d) : d ≠ [] := by
  rintro rfl
  cases h.size

theorem validUtf8_fieldText {width : Nat} {d d' : Text} (hd : IsDigits width d)
    (hd' : IsDigits width d') (before after : Text) :
    validUtf8 (fieldText key before d' after) = validUtf8 (fieldText key before d after) := by
  have hcons (b : UInt8) (s : Text) : blurred (b :: s) = blur b :: blurred s := rfl
  have happ (s t : Text) : blurred (s ++ t) = blurred s ++ blurred t := List.map_append
  have hblur :
      blurred (fieldText key before d' after) = blurred (fieldText key before d after) := by
    simp only [fieldText, happ, hcons, blurred_digits hd.digits, blurred_digits hd'.digits, hd.size,
      hd'.size]
  rw [← validUtf8_blurred, hblur, validUtf8_blurred]

include hkey

theorem isFence_field (u w : Text) : isFence (u ++ (key ++ 58 :: w)) = false := by
  obtain ⟨a, key', rfl, ha, -, -, -, -, hdash⟩ := hkey.letter
  have hfence : utf8 "---" = [45, 45, 45] := by decide
  have hmem : a ∈ trim (u ++ a :: (key' ++ 58 :: w)) := by
    rw [trim_append_ink ha]
    exact List.mem_append_right _ List.mem_cons_self
  refine beq_false_of_ne fun heq => ?_
  rw [List.cons_append] at heq
  rw [heq, hfence] at hmem
  exact hdash (by simpa using hmem)

theorem frontmatter_lines {width : Nat} {before after d₀ : Text} {f₀ : Fields}
    (hd₀ : IsDigits width d₀) (h₀ : frontmatter (fieldText key before d₀ after) = some f₀) :
    ∃ v, (lineEnd after = v ∨ lineEnd after = v ++ [13]) ∧ ∀ d, IsDigits width d →
      frontmatter (fieldText key before d after) = some (scan .none ((linesBefore before).tail ++
        (lineStart before ++ (key ++ 58 :: 32 :: (d ++ v))) :: (lines after).tail)) := by
  obtain ⟨v, hv, hlines⟩ := lines_fieldText hkey before after
  refine ⟨v, hv, fun d hd => ?_⟩
  rw [frontmatter, hlines d₀ hd₀.digits hd₀.ne_nil] at h₀
  rw [frontmatter, validUtf8_fieldText hd₀ hd, hlines d hd.digits hd.ne_nil]
  split at h₀
  case isTrue => cases h₀
  case isFalse hvalid =>
    rw [if_neg hvalid]
    cases hfirst : linesBefore before with
    | nil =>
      rw [hfirst] at h₀
      dsimp only [List.nil_append] at h₀
      rw [isFence_field hkey] at h₀
      cases h₀
    | cons first mid =>
      rw [hfirst] at h₀
      dsimp only [List.cons_append] at h₀ ⊢
      split at h₀
      case isTrue hfence =>
        rw [if_pos hfence]
        rfl
      case isFalse => cases h₀

omit hkey in
theorem scan_fence {a : List Text} (ha : a.all (!isFence ·) = false) (f : Fields)
    (b b' : List Text) : scan f (a ++ b) = scan f (a ++ b') := by
  induction a generalizing f with
  | nil => cases ha
  | cons l a ih =>
    rw [List.cons_append, List.cons_append, scan, scan]
    split
    case isTrue => rfl
    case isFalse hfence =>
      have hopen : (!isFence l) = true := by simpa [isFence] using hfence
      rw [List.all_cons, hopen, Bool.true_and] at ha
      exact ih ha _

omit hkey in
theorem clean_lineEnd {after v : Text} (hv : lineEnd after = v ∨ lineEnd after = v ++ [13]) :
    clean (48 :: lineEnd after) = 48 :: cleanEnd v := by
  have hreturn (s : Text) : clean (s ++ [13]) = clean s := by
    rw [clean, clean, trim_append_return]
  have hclean : clean (48 :: v) = 48 :: cleanEnd v := by
    rw [← clean_space]
    exact clean_digits_append (d := [48]) rfl (List.cons_ne_nil _ _) v
  obtain h | h := hv
  · rw [h, hclean]
  · rw [h, ← List.cons_append, hreturn, hclean]

include hC hagain hown

/-- In an accepted block, either the counter is read from the digits and what follows them on
the line, or it does not depend on the digits. -/
theorem frontmatter_fieldText {width : Nat} {before after d₀ : Text} {f₀ : Fields}
    (hd₀ : IsDigits width d₀) (h₀ : frontmatter (fieldText key before d₀ after) = some f₀) :
    (∃ v base, (∀ d, IsDigits width d → frontmatter (fieldText key before d after) =
        some (upd (32 :: (d ++ v)) base)) ∧
      (readsBack key before after = true ↔ cleanEnd v = [])) ∨
    (readsBack key before after = false ∧ ∀ d d', IsDigits width d → IsDigits width d' →
      (frontmatter (fieldText key before d' after)).map own =
        (frontmatter (fieldText key before d after)).map own) := by
  obtain ⟨v, hv, hread⟩ := frontmatter_lines hkey hd₀ h₀
  by_cases hmid : (linesBefore before).tail.all (!isFence ·) = true
  case neg =>
    refine .inr ⟨?_, fun d d' hd hd' => ?_⟩
    · rw [readsBack, Bool.eq_false_iff.mpr hmid, Bool.false_and, Bool.false_and, Bool.false_and]
    · rw [hread d hd, hread d' hd', scan_fence (Bool.eq_false_iff.mpr hmid)]
  case pos =>
  have hopen (l : Text) (hl : l ∈ (linesBefore before).tail) : isFence l = false := by
    simpa using List.all_eq_true.mp hmid l hl
  generalize hg : (linesBefore before).tail.foldl Fields.line .none = g
  have hscan (d : Text) (hd : IsDigits width d) : frontmatter (fieldText key before d after) =
      some (scan (g.line (lineStart before ++ (key ++ 58 :: 32 :: (d ++ v))))
        (lines after).tail) := by
    have hfence := isFence_field hkey (lineStart before) (32 :: (d ++ v))
    rw [hread d hd, scan_append hopen, hg, Kb.scan, if_neg (by simpa [isFence] using hfence)]
  by_cases hstart : trimStart (lineStart before) = []
  case neg =>
    refine .inr ⟨?_, fun d d' hd hd' => ?_⟩
    · rw [readsBack, beq_false_of_ne hstart, Bool.and_false, Bool.false_and, Bool.false_and]
    · rw [hscan d hd, hscan d' hd', Option.map_some, Option.map_some]
      exact congrArg some (hown _ _ ((line_foreign hkey hstart _ _).scan _))
  case pos =>
  by_cases hlater : ((lines after).tail.takeWhile (!isFence ·)).all (keyOf · != some key) = true
  case neg =>
    refine .inr ⟨?_, fun d d' hd hd' => ?_⟩
    · rw [readsBack, Bool.eq_false_iff.mpr hlater, Bool.and_false]
    · have hlater : ∃ l ∈ (lines after).tail.takeWhile (!isFence ·), keyOf l = some key := by
        simpa using hlater
      rw [hscan d hd, hscan d' hd', line_counter hkey hC _ hstart, line_counter hkey hC _ hstart,
        hC.scan_later hkey hagain hlater]
  case pos =>
  have hnone : ∀ l ∈ (lines after).tail.takeWhile (!isFence ·), keyOf l ≠ some key := by
    simpa using hlater
  refine .inl ⟨v, Kb.scan g (lines after).tail, fun d hd => ?_, ?_⟩
  · rw [hscan d hd, line_counter hkey hC _ hstart, hC.scan hnone]
  · rw [readsBack, hmid, hlater, hstart, clean_lineEnd hv]
    simp

end Field

/-- A counter of the record, of `width + 1` digits: how `parse` reads it, and what is written
for its values. -/
structure Slot (α β : Type) where
  key : Text
  isCounter : isCounter key
  width : Nat
  upd : Text → Fields → Fields
  counter : Counter key upd
  again (f : Fields) (v v' : Text) : upd v (upd v' f) = upd v f
  own : Fields → α
  agree (f f' : Fields) (h : f.Agree f') : own f' = own f
  read : Text → α
  get : KbRecord → α
  put : α → KbRecord → KbRecord
  get_put (x : α) (r : KbRecord) : get (put x r) = x
  put_put (x y : α) (r : KbRecord) : put x (put y r) = put x r
  get_record (f : Fields) (r : KbRecord) (h : f.record = some r) : get r = own f
  record_upd (f : Fields) (v : Text) : (upd v f).record = f.record.map (put (read (clean v)))
  number : β → Nat
  val : β → α
  read_val (c : β) : read (toDigits (width + 1) (min (number c) (10 ^ (width + 1) - 1))) = val c
  differ : ∃ c₀ c₁, val c₁ ≠ val c₀ ∧ ∀ t, t ≠ [] →
    read (toDigits (width + 1) (min (number c₁) (10 ^ (width + 1) - 1)) ++ t) ≠ val c₁

section Slot

variable {α β : Type} (S : Slot α β)

def Slot.digits (c : β) : Text :=
  toDigits (S.width + 1) (min (S.number c) (10 ^ (S.width + 1) - 1))

theorem Slot.isDigits (c : β) : IsDigits S.width (S.digits c) :=
  ⟨toDigits_isDigit .., length_toDigits ..⟩

/-- Every value written is read back, and nothing else changes, exactly where the field is the
one that is read. -/
theorem Slot.reads_back_iff {before after d₀ : Text} (hd₀ : IsDigits S.width d₀) {r : KbRecord}
    (hr : parse (fieldText S.key before d₀ after) = some r) :
    (∀ c, parse (fieldText S.key before (S.digits c) after) = some (S.put (S.val c) r)) ↔
      readsBack S.key before after = true := by
  obtain ⟨c₀, c₁, hne, hodd⟩ := S.differ
  obtain ⟨f₀, h₀, -⟩ := Option.bind_eq_some_iff.mp ((parse_eq _).symm.trans hr)
  obtain ⟨v, base, hbase, hback⟩ | ⟨hback, hsame⟩ :=
    frontmatter_fieldText S.isCounter S.counter S.again S.agree hd₀ h₀
  · have hparse (d : Text) (hd : IsDigits S.width d) : parse (fieldText S.key before d after) =
        base.record.map (S.put (S.read (d ++ cleanEnd v))) := by
      rw [parse_eq, hbase d hd, Option.bind_some, S.record_upd,
        clean_digits_append hd.digits hd.ne_nil]
    rw [hparse d₀ hd₀] at hr
    obtain ⟨rb, hrb, rfl⟩ := Option.map_eq_some_iff.mp hr
    rw [hback]
    constructor
    · intro h
      by_contra ht
      have h₁ := h c₁
      rw [hparse _ (S.isDigits c₁), hrb, Option.map_some, S.put_put] at h₁
      have hval := congrArg S.get (Option.some.inj h₁)
      rw [S.get_put, S.get_put] at hval
      exact hodd _ ht hval
    · intro ht c
      rw [hparse _ (S.isDigits c), hrb, ht, List.append_nil, Slot.digits, S.read_val,
        Option.map_some, S.put_put]
  · have hgot {d : Text} {r : KbRecord} (h : parse (fieldText S.key before d after) = some r) :
        (frontmatter (fieldText S.key before d after)).map S.own = some (S.get r) := by
      rw [parse_eq] at h
      obtain ⟨f, hf, hfr⟩ := Option.bind_eq_some_iff.mp h
      rw [hf, Option.map_some, S.get_record f r hfr]
    rw [hback]
    refine iff_of_false (fun h => ?_) (by decide)
    have heq := hsame _ _ (S.isDigits c₀) (S.isDigits c₁)
    rw [hgot (h c₀), hgot (h c₁), S.get_put, S.get_put] at heq
    exact hne (Option.some.inj heq)

end Slot

/-- The first occurrence of the key in the block, with digits behind it, is the field that
`parse` reads. -/
def inPlace (block key : Text) (width : Nat) : Bool :=
  match findKey block (key ++ [58, 32]) with
  | none => true
  | some pos =>
    let start := pos + (key ++ [58, 32]).length
    decide (start + width > block.length) || !(slice block start width).all isDigit ||
      readsBack key (block.take pos) (block.drop (start + width))

theorem setUintField_cases (block key : Text) (width : Nat) :
    ((∀ value, setUintField block (key ++ [58, 32]) value (width + 1) = none) ∧
      inPlace block key (width + 1) = true) ∨
    ∃ before d after, block = fieldText key before d after ∧ IsDigits width d ∧
      inPlace block key (width + 1) = readsBack key before after ∧
      ∀ value, setUintField block (key ++ [58, 32]) value (width + 1) = some (fieldText key before
        (toDigits (width + 1) (min value (10 ^ (width + 1) - 1))) after) := by
  cases hfind : findKey block (key ++ [58, 32]) with
  | none =>
    refine .inl ⟨fun value => ?_, ?_⟩
    · rw [setUintField, hfind]
    · rw [inPlace, hfind]
  | some pos =>
    by_cases hrefuse : pos + (key ++ [58, 32]).length + (width + 1) > block.length ∨
        ¬ (slice block (pos + (key ++ [58, 32]).length) (width + 1)).all isDigit = true
    · refine .inl ⟨fun value => ?_, ?_⟩
      · rw [setUintField, hfind]
        exact if_pos hrefuse
      · rw [inPlace, hfind]
        dsimp only
        obtain hshort | hother := hrefuse
        · rw [decide_eq_true hshort, Bool.true_or, Bool.true_or]
        · rw [Bool.eq_false_iff.mpr hother, Bool.not_false, Bool.or_true, Bool.true_or]
    · have hkeyAt : slice block pos (key ++ [58, 32]).length = key ++ [58, 32] := by
        simpa using List.find?_some hfind
      rw [not_or, not_not, Nat.not_lt] at hrefuse
      obtain ⟨hend, hdigits⟩ := hrefuse
      generalize hstart : pos + (key ++ [58, 32]).length = start at hend hdigits
      have htake : block.take start = block.take pos ++ (key ++ [58, 32]) := by
        rw [← hstart, List.take_add]
        exact congrArg (block.take pos ++ ·) hkeyAt
      have htext : block = fieldText key (block.take pos) (slice block start (width + 1))
          (block.drop (start + (width + 1))) := by
        conv => lhs; rw [← List.take_append_drop start block, htake]
        rw [fieldText, slice, ← List.drop_drop, List.take_append_drop]
        simp
      refine .inr ⟨_, _, _, htext, ⟨hdigits, length_slice hend⟩, ?_, fun value => ?_⟩
      · rw [inPlace, hfind]
        dsimp only
        rw [hstart, decide_eq_false (Nat.not_lt.mpr hend), hdigits]
        rfl
      · rw [setUintField, hfind]
        dsimp only
        rw [hstart, if_neg (by simp [hdigits, hend]), splice, htake, length_toDigits, fieldText]
        simp

theorem Slot.updates_iff {α β : Type} (S : Slot α β) {block : Text} {r : KbRecord}
    (h : parse block = some r) :
    (∀ c block', setUintField block (S.key ++ [58, 32]) (S.number c) (S.width + 1) = some block' →
      parse block' = some (S.put (S.val c) r)) ↔ inPlace block S.key (S.width + 1) = true := by
  obtain ⟨hnone, hin⟩ | ⟨before, d, after, rfl, hd, hin, hset⟩ :=
    setUintField_cases block S.key S.width
  · rw [hin]
    refine iff_of_true (fun c block' hsome => ?_) rfl
    rw [hnone] at hsome
    cases hsome
  · rw [hin, ← S.reads_back_iff hd h]
    constructor
    · exact fun hall c => hall c _ (hset _)
    · intro hall c block' hsome
      rw [hset] at hsome
      rw [← Option.some.inj hsome]
      exact hall c

theorem record_eq_some {f : Fields} {r : KbRecord} (h : f.record = some r) :
    ∃ id title playbook, r = ⟨id, title, playbook, f.matchCause, f.seen, f.escalated⟩ := by
  unfold Fields.record at h
  split at h
  case h_1 id title playbook _ _ _ => exact ⟨id, title, playbook, (Option.some.inj h).symm⟩
  case h_2 => cases h

theorem record_setSeen (f : Fields) (v : Text) : (setSeen v f).record =
    f.record.map fun r => { r with seen := (parseU32 (clean v)).getD 0 } := by
  simp only [Fields.record, setSeen]
  cases f.id with
  | none => rfl
  | some id =>
  cases f.title with
  | none => rfl
  | some title =>
  cases f.playbook with
  | none => rfl
  | some playbook => rfl

theorem record_setEscalated (f : Fields) (v : Text) : (setEscalated v f).record =
    f.record.map fun r => { r with escalated := clean v == utf8 "1" } := by
  simp only [Fields.record, setEscalated]
  cases f.id with
  | none => rfl
  | some id =>
  cases f.title with
  | none => rfl
  | some title =>
  cases f.playbook with
  | none => rfl
  | some playbook => rfl

theorem parseU32_longer {t : Text} (ht : t ≠ []) : (parseU32 (toDigits 5 1 ++ t)).getD 0 ≠ 1 := by
  have hdigits : toDigits 5 1 = [48, 48, 48, 48, 49] := by decide
  have hplus : stripPrefix [43] (toDigits 5 1 ++ t) = none := by
    rw [hdigits]
    exact if_neg fun heq => absurd (List.cons.inj heq).1 (by decide)
  rw [parseU32, hplus, Option.getD_none, ite_self]
  split
  case isFalse => exact Nat.zero_ne_one
  case isTrue hall =>
    have hvalue : digitsValue (toDigits 5 1 ++ t) = 10 ^ t.length + digitsValue t := by
      rw [digitsValue, List.foldl_append, ← digitsValue, digitsValue_toDigits, foldl_digits]
      simp
    have hpos : 10 ≤ 10 ^ t.length := Nat.le_self_pow (List.length_pos_iff.mpr ht).ne' 10
    rw [Option.getD_some, hvalue]
    omega

theorem parseU32_seen (n : Nat) :
    (parseU32 (toDigits 5 (min n (10 ^ 5 - 1)))).getD 0 = min n 99999 := by
  have hd : IsDigits 4 (toDigits 5 (min n (10 ^ 5 - 1))) :=
    ⟨toDigits_isDigit .., length_toDigits ..⟩
  have hlt : min n (10 ^ 5 - 1) < 10 ^ 5 := by omega
  rw [parseU32_digits hd.digits hd.ne_nil (by rw [hd.size]; decide), digitsValue_toDigits,
    Option.getD_some, Nat.mod_eq_of_lt hlt, show 10 ^ 5 - 1 = 99999 by decide]

/-- The `seen` counter. -/
def seenSlot : Slot Nat UInt32 where
  key := utf8 "seen"
  isCounter := .inl rfl
  width := 4
  upd := setSeen
  counter := counter_seen
  again _ _ _ := by simp only [setSeen]
  own := Fields.seen
  agree _ _ h := h.seen
  read t := (parseU32 t).getD 0
  get := KbRecord.seen
  put x r := { r with seen := x }
  get_put _ _ := rfl
  put_put _ _ _ := rfl
  get_record f r h := by
    obtain ⟨id, title, playbook, rfl⟩ := record_eq_some h
    rfl
  record_upd := record_setSeen
  number c := c.toNat
  val c := min c.toNat 99999
  read_val c := parseU32_seen c.toNat
  differ := by
    have hone : min (UInt32.toNat 1) (10 ^ 5 - 1) = 1 ∧ min (UInt32.toNat 1) 99999 = 1 := by decide
    refine ⟨0, 1, by decide, fun t ht => ?_⟩
    rw [hone.1, hone.2]
    exact parseU32_longer ht

/-- The `escalated` flag. -/
def escalatedSlot : Slot Bool Bool where
  key := utf8 "escalated"
  isCounter := .inr rfl
  width := 0
  upd := setEscalated
  counter := counter_escalated
  again _ _ _ := by simp only [setEscalated]
  own := Fields.escalated
  agree _ _ h := h.escalated
  read t := t == utf8 "1"
  get := KbRecord.escalated
  put x r := { r with escalated := x }
  get_put _ _ := rfl
  put_put _ _ _ := rfl
  get_record f r h := by
    obtain ⟨id, title, playbook, rfl⟩ := record_eq_some h
    rfl
  record_upd := record_setEscalated
  number e := e.toNat
  val e := e
  read_val e := by
    cases e with
    | false => decide
    | true => decide
  differ := by
    have hone : toDigits 1 (min true.toNat (10 ^ 1 - 1)) = [49] ∧ utf8 "1" = [49] := by decide
    refine ⟨false, true, by decide, fun t ht h => ht ?_⟩
    rw [hone.1, hone.2] at h
    exact (List.cons.inj (beq_iff_eq.mp h)).2

/-- The updates of a block with this record do what they are for. -/
structure UpdatesExactly (block : Text) (r : KbRecord) : Prop where
  seen (c : UInt32) (block' : Text) (h : setSeenInBlock block c.toNat = some block') :
    parse block' = some { r with seen := min c.toNat 99999 }
  escalated (e : Bool) (block' : Text) (h : setEscalatedInBlock block e = some block') :
    parse block' = some { r with escalated := e }

/-- A block that `parse` accepts is updated exactly, whatever is written, if and only if the
first `seen: ` and the first `escalated: ` in it, where digits follow, are the fields that
`parse` reads. -/
theorem in_place_update_iff (block : Text) (r : KbRecord) (h : parse block = some r) :
    UpdatesExactly block r ↔
      inPlace block (utf8 "seen") 5 = true ∧ inPlace block (utf8 "escalated") 1 = true := by
  have hseenKey : utf8 "seen: " = utf8 "seen" ++ [58, 32] := by decide
  have hescalatedKey : utf8 "escalated: " = utf8 "escalated" ++ [58, 32] := by decide
  have hseen := seenSlot.updates_iff h
  have hescalated := escalatedSlot.updates_iff h
  constructor
  · intro hup
    refine ⟨hseen.mp fun c block' hset => hup.seen c block' ?_,
      hescalated.mp fun e block' hset => hup.escalated e block' ?_⟩
    · rw [setSeenInBlock, hseenKey]
      exact hset
    · rw [setEscalatedInBlock, hescalatedKey]
      exact hset
  · rintro ⟨hs, he⟩
    refine ⟨fun c block' hset => hseen.mpr hs c block' ?_, fun e block' hset =>
      hescalated.mpr he e block' ?_⟩
    · rw [setSeenInBlock, hseenKey] at hset
      exact hset
    · rw [setEscalatedInBlock, hescalatedKey] at hset
      exact hset

/-- The entry of `kb.rs`'s own tests. -/
def plainEntry : Text := utf8 ("---\nid: KB-0005\ntitle: \"t\"\nmatch-cause: page-fault\n" ++
  "seen: 00000\nescalated: 0\nplaybook:\n  - \"R.\"\n---\n")

theorem in_place_update_plain : ∃ r, parse plainEntry = some r ∧ UpdatesExactly plainEntry r := by
  have hsome : (parse plainEntry).isSome := by decide +kernel
  obtain ⟨r, hr⟩ := Option.isSome_iff_exists.mp hsome
  exact ⟨r, hr, (in_place_update_iff plainEntry r hr).mpr ⟨by decide +kernel, by decide +kernel⟩⟩

/-- An entry with `seen: ` in its title. -/
def titledEntry : Text := utf8 ("---\nid: KB-0005\ntitle: \"last seen: 00000\"\n" ++
  "match-cause: page-fault\nseen: 00000\nescalated: 0\nplaybook:\n  - \"R.\"\n---\n")

/-- `set_seen_in_block` writes into the title of it. -/
theorem in_place_update_title : ∃ block r, parse block = some r ∧ ¬ UpdatesExactly block r := by
  have hsome : (parse titledEntry).isSome := by decide +kernel
  obtain ⟨r, hr⟩ := Option.isSome_iff_exists.mp hsome
  refine ⟨titledEntry, r, hr, fun h => ?_⟩
  have hwritten : (setSeenInBlock titledEntry 7).any fun block' =>
      (parse block').any fun r' => r'.title == utf8 "last seen: 00007" && r'.seen == 0 := by
    decide +kernel
  obtain ⟨block', hset, hread⟩ := Option.any_eq_true _ _ |>.mp hwritten
  rw [h.seen 7 block' hset, Option.any_some, Bool.and_eq_true, beq_iff_eq] at hread
  have hseen : (min (UInt32.toNat 7) 99999 == 0) = true := hread.2
  exact absurd hseen (by decide)

end Kb

end Perenne

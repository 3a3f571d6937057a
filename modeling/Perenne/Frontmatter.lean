import Perenne.Kb
import Perenne.Utf8

namespace Perenne

/-- An ASCII character that is not white space. -/
def isInk (a : UInt8) : Bool := a < 0x80 && !white₁ a

theorem dropWhite_ink {two : UInt8 → UInt8 → Bool} {three : UInt8 → UInt8 → UInt8 → Bool}
    {a : UInt8} (hone : white₁ a = false) (htwo : ∀ b, two a b = false ∧ two b a = false)
    (hthree : ∀ b c, three a b c = false ∧ three b a c = false ∧ three b c a = false) (l t : Text) :
    dropWhite two three (l ++ a :: t) = dropWhite two three l ++ a :: t := by
  fun_induction dropWhite two three l
  case case1 =>
    rw [List.nil_append, dropWhite.eq_def]
    cases t with
    | nil => simp [hone]
    | cons b t =>
      cases t with
      | nil => simp [hone, htwo]
      | cons c t => simp [hone, htwo, hthree]
  case case2 x l hx ih =>
    rw [List.cons_append, dropWhite.eq_def]
    simp only [hx, if_true, ih]
  case case3 x hx =>
    rw [dropWhite.eq_def]
    cases t with
    | nil => simp [hx, htwo]
    | cons c t => simp [hx, htwo, hthree]
  case case4 x hx y l hxy ih =>
    rw [List.cons_append, List.cons_append, dropWhite.eq_def]
    simp [hx, hxy, ih]
  case case5 x hx y hxy =>
    rw [dropWhite.eq_def]
    simp [hx, hxy, hthree]
  case case6 x hx y hxy z l hxyz ih =>
    rw [List.cons_append, List.cons_append, List.cons_append, dropWhite.eq_def]
    simp [hx, hxy, hxyz, ih]
  case case7 x hx y hxy z l hxyz =>
    rw [List.cons_append, List.cons_append, List.cons_append, dropWhite.eq_def]
    simp [hx, hxy, hxyz]

section Ink

variable {a : UInt8} (ha : isInk a = true)

include ha

theorem white₁_ink : white₁ a = false := by
  simp only [isInk, Bool.and_eq_true, Bool.not_eq_true'] at ha
  exact ha.2

theorem ink_lt : a.toNat < 0x80 := by
  simp only [isInk, Bool.and_eq_true, decide_eq_true_eq] at ha
  exact ha.1

theorem ink_ne {b : UInt8} (hb : 0x80 ≤ b.toNat) : (a == b) = false := by
  have := ink_lt ha
  refine beq_false_of_ne ?_
  rintro rfl
  omega

theorem white₂_ink (b : UInt8) : white₂ a b = false ∧ white₂ b a = false := by
  simp [white₂, ink_ne ha]

theorem white₃_ink (b c : UInt8) :
    white₃ a b c = false ∧ white₃ b a c = false ∧ white₃ b c a = false := by
  have hlt := ink_lt ha
  have hrange : (0x80 ≤ a) = False := by
    simp only [UInt8.le_iff_toNat_le, eq_iff_iff, iff_false]
    exact Nat.not_le.mpr hlt
  simp [white₃, ink_ne ha, hrange]

theorem trimStart_append_ink (s t : Text) : trimStart (s ++ a :: t) = trimStart s ++ a :: t :=
  dropWhite_ink (white₁_ink ha) (white₂_ink ha) (white₃_ink ha) s t

theorem trimEnd_append_ink (s t : Text) : trimEnd (s ++ a :: t) = s ++ a :: trimEnd t := by
  have hrev : (s ++ a :: t).reverse = t.reverse ++ a :: s.reverse := by simp
  rw [trimEnd, hrev, dropWhite_ink (white₁_ink ha) (fun b => (white₂_ink ha b).symm)
    fun b c => ⟨(white₃_ink ha c b).2.2, (white₃_ink ha c b).2.1, (white₃_ink ha c b).1⟩]
  simp [trimEnd]

theorem trim_append_ink (s t : Text) : trim (s ++ a :: t) = trimStart s ++ a :: trimEnd t := by
  rw [trim, trimStart_append_ink ha, trimEnd_append_ink ha]

theorem trimStart_ink (s : Text) : trimStart (a :: s) = a :: s := trimStart_append_ink ha [] s

theorem trimEnd_ink (s : Text) : trimEnd (s ++ [a]) = s ++ [a] := trimEnd_append_ink ha s []

theorem trim_ink (s : Text) : trim (a :: s) = a :: trimEnd s := trim_append_ink ha [] s

theorem trim_ink_ends {b : UInt8} (hb : isInk b = true) (s : Text) :
    trim (a :: (s ++ [b])) = a :: (s ++ [b]) := by
  rw [trim_ink ha, trimEnd_ink hb]

end Ink

theorem trim_space (s : Text) : trim (32 :: s) = trim s := by
  rw [trim, trim, trimStart, trimStart, dropWhite.eq_def]
  rfl

theorem getLast?_trimmed {s : Text} (h : trim s = s) : s.getLast? ≠ some 13 := by
  intro hlast
  obtain ⟨t, rfl⟩ := List.getLast?_eq_some_iff.mp hlast
  have hstart : (trimStart (t ++ [13])).length ≤ (t ++ [13]).length :=
    (dropWhite_suffix ..).length_le
  have hend (x : Text) : (trimEnd x).length ≤ x.length := by
    rw [trimEnd, List.length_reverse]
    exact (dropWhite_suffix ..).length_le.trans (Nat.le_of_eq List.length_reverse)
  have hlen := congrArg List.length h
  rw [trim] at hlen
  have hsame : trimStart (t ++ [13]) = t ++ [13] := by
    refine (dropWhite_suffix ..).eq_of_length ?_
    have := hend (trimStart (t ++ [13]))
    change (trimStart (t ++ [13])).length = _
    omega
  have hdrop : (trimEnd (t ++ [13])).length ≤ t.length := by
    have hrev : (t ++ [13]).reverse = 13 :: t.reverse := by simp
    rw [trimEnd, hrev, dropWhite.eq_def, List.length_reverse]
    refine (dropWhite_suffix ..).length_le.trans ?_
    rw [List.length_reverse]
  rw [hsame, List.length_append, List.length_singleton] at hlen
  omega

/-- A value that goes through a document unchanged: no newline, no double quote, and no
white space at its ends. -/
structure Plain (s : Text) : Prop where
  valid : validUtf8 s = true
  noNewline : 10 ∉ s
  noQuote : 34 ∉ s
  trimmed : trim s = s

namespace Kb

theorem stripPrefix_quote {s : Text} (h : 34 ∉ s) : (stripPrefix [34] s).getD s = s := by
  rw [stripPrefix, if_neg]
  · rfl
  · cases s with
    | nil => simp
    | cons b s =>
      simp only [List.length_singleton, List.take_succ_cons, List.take_zero, List.cons.injEq,
        and_true]
      rintro rfl
      simp at h

theorem stripSuffix_quote {s : Text} (h : 34 ∉ s) : (stripSuffix [34] s).getD s = s := by
  have hrev : 34 ∉ s.reverse := by simpa using h
  rw [stripSuffix, stripPrefix, if_neg]
  · rfl
  · cases hs : s.reverse with
    | nil => simp
    | cons b s' =>
      simp only [List.reverse_singleton, List.length_singleton, List.take_succ_cons, List.take_zero,
        List.cons.injEq, and_true]
      rintro rfl
      simp [hs] at hrev

theorem clean_space (s : Text) : clean (32 :: s) = clean s := by
  simp only [clean, trim_space]

theorem clean_plain {s : Text} (h : Plain s) : clean (32 :: s) = s := by
  simp only [clean, trim_space, h.trimmed, stripPrefix_quote h.noQuote, stripSuffix_quote h.noQuote]

theorem clean_quoted {s : Text} (h : Plain s) : clean (34 :: (s ++ [34])) = s := by
  have htrim : trim (34 :: (s ++ [34])) = 34 :: (s ++ [34]) := trim_ink_ends (by decide) (by decide) s
  have hpre : (stripPrefix [34] (34 :: (s ++ [34]))).getD (34 :: (s ++ [34])) = s ++ [34] := rfl
  have hsuf : (stripSuffix [34] (s ++ [34])).getD (s ++ [34]) = s := by
    simp [stripSuffix, stripPrefix]
  simp only [clean, htrim, hpre, hsuf, h.trimmed]

end Kb

/-- A line without newline or closing carriage return. -/
structure IsLine (l : Text) : Prop where
  noNewline : 10 ∉ l
  noReturn : l.getLast? ≠ some 13

theorem lines_cons {l : Text} (h : IsLine l) (s : Text) : lines (l ++ 10 :: s) = l :: lines s := by
  induction l with
  | nil => simp [lines]
  | cons c l ih =>
    have hc : c ≠ 10 := fun hc => h.noNewline (hc ▸ .head _)
    have htail : IsLine l := by
      refine ⟨fun hmem => h.noNewline (.tail _ hmem), fun hlast => ?_⟩
      cases l with
      | nil => cases hlast
      | cons d l => exact h.noReturn (by rwa [List.getLast?_cons_cons])
    -- A carriage return is followed by a newline at the end of the line only.
    have hreturn : ¬ (c = 13 ∧ l = []) := by
      rintro ⟨rfl, rfl⟩
      exact h.noReturn rfl
    rw [List.cons_append, lines.eq_def]
    simp only [hc, if_false]
    split
    case h_1 s' heq =>
      cases l with
      | nil => exact absurd ⟨rfl, rfl⟩ hreturn
      | cons d l =>
        obtain ⟨rfl, -⟩ := List.cons.inj heq
        exact absurd (.tail _ (.head _)) h.noNewline
    case h_2 => rw [ih htail]

theorem lines_flatMap {ls : List Text} (h : ∀ l ∈ ls, IsLine l) :
    lines (ls.flatMap fun l => l ++ [10]) = ls := by
  induction ls with
  | nil => rfl
  | cons l ls ih =>
    rw [List.flatMap_cons, List.append_assoc, List.singleton_append, lines_cons (h l (.head _)),
      ih fun l hl => h l (.tail _ hl)]

namespace Kb

theorem splitOnce_append {key : Text} (hkey : 58 ∉ key) (value : Text) :
    splitOnce 58 (key ++ 58 :: value) = some (key, value) := by
  induction key with
  | nil => simp [splitOnce]
  | cons b key ih =>
    have hb : b ≠ 58 := fun hb => hkey (hb ▸ .head _)
    rw [List.cons_append, splitOnce, if_neg hb, ih fun h => hkey (.tail _ h)]
    rfl

theorem trim_ne_fence {a : UInt8} (ha : isInk a = true) (hdash : a ≠ 45) (s : Text) :
    trim (a :: s) ≠ utf8 "---" := by
  rw [trim_ink ha]
  intro heq
  exact hdash (List.cons.inj heq).1

/-- The key of a field: it starts with a letter, has no colon, and is trimmed. -/
def isKey (key : Text) : Bool :=
  (key.head?.any fun a => isInk a && a != 45) && !key.contains 58 && trim key == key

theorem line_field {f : Fields} {key : Text} (hkey : isKey key = true) (value : Text) :
    f.line (key ++ 58 :: value) = f.set key value ∧
      trim (key ++ 58 :: value) ≠ utf8 "---" := by
  cases key with
  | nil => cases hkey
  | cons a key =>
    simp only [isKey, List.head?_cons, Option.any_some, Bool.and_eq_true, bne_iff_ne, ne_eq,
      Bool.not_eq_true', beq_iff_eq] at hkey
    obtain ⟨⟨⟨ha, hdash⟩, hcolon⟩, htrim⟩ := hkey
    have hcolon : 58 ∉ a :: key := by simpa using hcolon
    have hitem : f.item (a :: (key ++ 58 :: value)) = none := by
      have hstrip : stripPrefix (utf8 "- ") (a :: (key ++ 58 :: value)) = none :=
        if_neg fun heq => hdash (List.cons.inj heq).1
      rw [Fields.item, trimStart_ink ha, hstrip, ite_self]
    refine ⟨?_, trim_ne_fence ha hdash _⟩
    rw [Fields.line, List.cons_append, hitem, ← List.cons_append, splitOnce_append hcolon]
    dsimp only
    rw [htrim]

theorem scan_field {f : Fields} {key : Text} (hkey : isKey key = true) (value : Text)
    (rest : List Text) : scan f ((key ++ 58 :: value) :: rest) = scan (f.set key value) rest := by
  obtain ⟨hline, hfence⟩ := line_field (f := f) hkey value
  rw [scan, if_neg hfence, hline]

section Set

variable (f : Fields) (value : Text)

theorem Fields.set_id : f.set (utf8 "id") value = { f with id := some (clean value) } :=
  if_pos rfl

theorem Fields.set_title :
    f.set (utf8 "title") value = { f with title := some (clean value) } := by
  rw [set, if_neg (by decide), if_pos rfl]

theorem Fields.set_matchCause :
    f.set (utf8 "match-cause") value = { f with matchCause := some (clean value) } := by
  rw [set, if_neg (by decide), if_neg (by decide), if_pos rfl]

theorem Fields.set_seen :
    f.set (utf8 "seen") value = { f with seen := (parseU32 (clean value)).getD 0 } := by
  rw [set, if_neg (by decide), if_neg (by decide), if_neg (by decide), if_pos rfl]

theorem Fields.set_escalated :
    f.set (utf8 "escalated") value = { f with escalated := clean value == utf8 "1" } := by
  rw [set, if_neg (by decide), if_neg (by decide), if_neg (by decide), if_neg (by decide),
    if_pos rfl]

theorem Fields.set_playbook : f.set (utf8 "playbook") value = { f with inPlaybook := true } := by
  rw [set, if_neg (by decide), if_neg (by decide), if_neg (by decide), if_neg (by decide),
    if_neg (by decide), if_pos rfl]

end Set

end Kb

namespace Kb

def documentLines (id title playbook matchCause : Text) : List Text :=
  [utf8 "---", utf8 "id: " ++ id, utf8 "title: \"" ++ title ++ utf8 "\"",
    utf8 "match-cause: " ++ matchCause, utf8 "seen: 00000", utf8 "escalated: 0", utf8 "playbook:",
    utf8 "  - \"" ++ playbook ++ utf8 "\"", utf8 "---"]

theorem document_lines (id title playbook matchCause : Text) :
    (document id title playbook matchCause).flatten =
      (documentLines id title playbook matchCause).flatMap fun l => l ++ [10] := by
  have hfence : utf8 "---\n" = utf8 "---" ++ [10] := rfl
  have hend : utf8 "\n" = [10] := rfl
  have hquote : utf8 "\"\n" = utf8 "\"" ++ [10] := rfl
  have hseen : utf8 "seen: 00000\n" = utf8 "seen: 00000" ++ [10] := rfl
  have hescalated : utf8 "escalated: 0\n" = utf8 "escalated: 0" ++ [10] := rfl
  have hplaybook : utf8 "playbook:\n" = utf8 "playbook:" ++ [10] := rfl
  simp only [document, documentLines, List.flatten_cons, List.flatten_nil, List.flatMap_cons,
    List.flatMap_nil, hfence, hend, hquote, hseen, hescalated, hplaybook, List.append_assoc]

section Document

variable {id title playbook matchCause : Text}

theorem serialize_eq (room : Nat) : serialize id title playbook matchCause room =
    if (document id title playbook matchCause).flatten.length ≤ room then
      some (document id title playbook matchCause).flatten else none := by
  have hfold (ss : List Text) (out : Text) (hout : out.length ≤ room) :
      ss.foldlM (fun out s => if out.length + s.length > room then none else some (out ++ s)) out =
        if out.length + ss.flatten.length ≤ room then some (out ++ ss.flatten) else none := by
    induction ss generalizing out with
    | nil => simp [hout]
    | cons s ss ih =>
      rw [List.foldlM_cons, List.flatten_cons, List.length_append]
      by_cases hs : out.length + s.length > room
      · rw [if_pos hs, if_neg (by omega)]
        rfl
      · rw [if_neg hs, ← List.append_assoc]
        refine (ih (out ++ s) (by rw [List.length_append]; omega)).trans ?_
        rw [List.length_append, Nat.add_assoc]
  refine (hfold _ [] (Nat.zero_le _)).trans ?_
  rw [List.length_nil, Nat.zero_add, List.nil_append]

variable (hid : Plain id) (htitle : Plain title) (hplaybook : Plain playbook)
  (hcause : Plain matchCause)

theorem isLine_plain {key value : Text} (hkey : IsLine key) (h : Plain value) :
    IsLine (key ++ value) := by
  refine ⟨fun hmem => (List.mem_append.mp hmem).elim hkey.noNewline h.noNewline, ?_⟩
  rw [List.getLast?_append]
  cases hlast : value.getLast? with
  | none => exact hkey.noReturn
  | some c =>
    rw [Option.some_or, ← hlast]
    exact getLast?_trimmed h.trimmed

theorem isLine_quoted {key value : Text} (hkey : 10 ∉ key) (h : Plain value) :
    IsLine (key ++ value ++ utf8 "\"") := by
  have hquote : utf8 "\"" = [34] := rfl
  refine ⟨fun hmem => ?_, by simp [hquote]⟩
  rw [List.mem_append, List.mem_append, hquote] at hmem
  rcases hmem with (hmem | hmem) | hmem
  · exact hkey hmem
  · exact h.noNewline hmem
  · simp at hmem

include hid htitle hplaybook hcause

theorem documentLines_isLine : ∀ l ∈ documentLines id title playbook matchCause, IsLine l := by
  have hfixed : ∀ l ∈ [utf8 "---", utf8 "id: ", utf8 "match-cause: ", utf8 "seen: 00000",
      utf8 "escalated: 0", utf8 "playbook:"], 10 ∉ l ∧ l.getLast? ≠ some 13 := by decide
  intro l hl
  simp only [documentLines, List.mem_cons, List.not_mem_nil, or_false] at hl
  rcases hl with rfl | rfl | rfl | rfl | rfl | rfl | rfl | rfl | rfl
  · exact ⟨(hfixed _ (by simp)).1, (hfixed _ (by simp)).2⟩
  · exact isLine_plain ⟨(hfixed _ (by simp)).1, (hfixed _ (by simp)).2⟩ hid
  · exact isLine_quoted (by decide) htitle
  · exact isLine_plain ⟨(hfixed _ (by simp)).1, (hfixed _ (by simp)).2⟩ hcause
  · exact ⟨(hfixed _ (by simp)).1, (hfixed _ (by simp)).2⟩
  · exact ⟨(hfixed _ (by simp)).1, (hfixed _ (by simp)).2⟩
  · exact ⟨(hfixed _ (by simp)).1, (hfixed _ (by simp)).2⟩
  · exact isLine_quoted (by decide) hplaybook
  · exact ⟨(hfixed _ (by simp)).1, (hfixed _ (by simp)).2⟩

theorem validUtf8_document : validUtf8 (document id title playbook matchCause).flatten = true := by
  have hflat (ss : List Text) (hss : ∀ s ∈ ss, validUtf8 s = true) :
      validUtf8 ss.flatten = true := by
    induction ss with
    | nil => rfl
    | cons s ss ih =>
      rw [List.flatten_cons, validUtf8_append (hss s (.head _))]
      exact ih fun s hs => hss s (.tail _ hs)
  refine hflat _ fun s hs => ?_
  simp only [document, List.mem_cons, List.not_mem_nil, or_false] at hs
  rcases hs with rfl | rfl | rfl | rfl | rfl | rfl | rfl | rfl | rfl | rfl | rfl | rfl | rfl | rfl |
    rfl | rfl | rfl
  · decide
  · decide
  · exact hid.valid
  · decide
  · decide
  · exact htitle.valid
  · decide
  · decide
  · exact hcause.valid
  · decide
  · decide
  · decide
  · decide
  · decide
  · exact hplaybook.valid
  · decide
  · decide

omit hid hcause htitle in
theorem scan_playbook {f : Fields} (hf : f.inPlaybook = true) (hnone : f.playbook = none) :
    scan f [utf8 "  - \"" ++ playbook ++ utf8 "\"", utf8 "---"] =
      { f with playbook := some playbook } := by
  have hline : utf8 "  - \"" ++ playbook ++ utf8 "\"" =
      32 :: 32 :: 45 :: ((32 :: 34 :: playbook) ++ [34]) := rfl
  have hnofence : trim (32 :: 32 :: 45 :: ((32 :: 34 :: playbook) ++ [34])) ≠ utf8 "---" := by
    rw [trim_space, trim_space, trim_ink_ends (by decide) (by decide)]
    exact fun heq => absurd (List.cons.inj (List.cons.inj heq).2).1 (by decide)
  have hstart : trimStart (32 :: 32 :: 45 :: ((32 :: 34 :: playbook) ++ [34])) =
      45 :: ((32 :: 34 :: playbook) ++ [34]) :=
    trimStart_ink (a := 45) (by decide) _
  have hitem : f.item (32 :: 32 :: 45 :: ((32 :: 34 :: playbook) ++ [34])) =
      some (34 :: (playbook ++ [34])) := by
    rw [Fields.item, hf, hnone, hstart]
    rfl
  have hclose : trim (utf8 "---") = utf8 "---" := by decide
  rw [hline, scan, if_neg hnofence, Fields.line, hitem, scan, if_pos hclose]
  dsimp only
  rw [clean_quoted hplaybook]

theorem scan_document : scan .none (documentLines id title playbook matchCause).tail =
    ⟨some id, some title, some playbook, some matchCause, 0, false, true⟩ := by
  have hquoted : clean (32 :: 34 :: (title ++ [34])) = title := by
    rw [clean_space, clean_quoted htitle]
  have hzeros : (parseU32 (clean (utf8 " 00000"))).getD 0 = 0 := by decide
  have hzero : (clean (utf8 " 0") == utf8 "1") = false := by decide
  -- The lines as keys and values.
  have hline₁ : utf8 "id: " ++ id = utf8 "id" ++ 58 :: 32 :: id := rfl
  have hline₂ : utf8 "title: \"" ++ title ++ utf8 "\"" =
      utf8 "title" ++ 58 :: 32 :: 34 :: (title ++ [34]) := rfl
  have hline₃ : utf8 "match-cause: " ++ matchCause =
      utf8 "match-cause" ++ 58 :: 32 :: matchCause := rfl
  have hline₄ : utf8 "seen: 00000" = utf8 "seen" ++ 58 :: utf8 " 00000" := rfl
  have hline₅ : utf8 "escalated: 0" = utf8 "escalated" ++ 58 :: utf8 " 0" := rfl
  have hline₆ : utf8 "playbook:" = utf8 "playbook" ++ 58 :: [] := rfl
  rw [documentLines, List.tail_cons, hline₁, scan_field (by decide), Fields.set_id,
    clean_plain hid, hline₂, scan_field (by decide), Fields.set_title, hquoted,
    hline₃, scan_field (by decide), Fields.set_matchCause, clean_plain hcause,
    hline₄, scan_field (by decide), Fields.set_seen, hzeros,
    hline₅, scan_field (by decide), Fields.set_escalated, hzero,
    hline₆, scan_field (by decide), Fields.set_playbook]
  exact scan_playbook hplaybook rfl rfl

theorem parse_document : parse (document id title playbook matchCause).flatten =
    some ⟨id, title, playbook, some matchCause, 0, false⟩ := by
  have hlines : lines (document id title playbook matchCause).flatten =
      utf8 "---" :: (documentLines id title playbook matchCause).tail := by
    rw [document_lines, lines_flatMap (documentLines_isLine hid htitle hplaybook hcause)]
    rfl
  have hfence : trim (utf8 "---") = utf8 "---" := by decide
  rw [parse, if_neg (by simp [validUtf8_document hid htitle hplaybook hcause]), hlines]
  dsimp only
  rw [if_neg (by simp [hfence]), scan_document hid htitle hplaybook hcause]

/-- `serialize` refuses exactly a buffer the document does not fit in, and `parse` returns what
was serialized. -/
theorem serialize_parse_inverse (room : Nat) :
    (serialize id title playbook matchCause room = none ↔
      room < (document id title playbook matchCause).flatten.length) ∧
    ∀ out, serialize id title playbook matchCause room = some out →
      out.length = (document id title playbook matchCause).flatten.length ∧
      parse out = some ⟨id, title, playbook, some matchCause, 0, false⟩ := by
  rw [serialize_eq]
  by_cases hroom : (document id title playbook matchCause).flatten.length ≤ room
  · rw [if_pos hroom]
    refine ⟨iff_of_false (by simp) (Nat.not_lt.mpr hroom), ?_⟩
    rintro out ⟨⟩
    exact ⟨rfl, parse_document hid htitle hplaybook hcause⟩
  · rw [if_neg hroom]
    exact ⟨iff_of_true rfl (Nat.not_le.mp hroom), fun out h => by cases h⟩

end Document

instance (s : Text) : Decidable (Plain s) :=
  decidable_of_iff (validUtf8 s = true ∧ s.contains 10 = false ∧ s.contains 34 = false ∧ trim s = s)
    ⟨fun h => ⟨h.1, by simpa using h.2.1, by simpa using h.2.2.1, h.2.2.2⟩,
      fun h => ⟨h.valid, by simpa using h.noNewline, by simpa using h.noQuote, h.trimmed⟩⟩

/-- Values that look like keys, items and fences. -/
theorem serialize_parse_inverse_lookalikes :
    ∃ out, serialize (utf8 "id: ---") (utf8 "- title: #1") (utf8 "- seen: 7") (utf8 "---") 512 =
        some out ∧
      parse out = some ⟨utf8 "id: ---", utf8 "- title: #1", utf8 "- seen: 7", some (utf8 "---"),
        0, false⟩ := by
  have h := @serialize_parse_inverse (utf8 "id: ---") (utf8 "- title: #1") (utf8 "- seen: 7")
    (utf8 "---") (by decide +kernel) (by decide +kernel) (by decide +kernel) (by decide +kernel)
    512
  obtain ⟨out, hout⟩ := Option.ne_none_iff_exists'.mp fun hnone =>
    absurd (h.1.mp hnone) (by decide +kernel)
  exact ⟨out, hout, (h.2 out hout).2⟩

end Kb

end Perenne

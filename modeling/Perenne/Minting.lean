import Perenne.Counters

namespace Perenne

/-- The arguments of one `heal::install`. -/
structure Installation where
  record : KbRecord
  startBlock : Nat

namespace Heal

/-- The statics after `heal::install`. -/
def installed (h : Heal) (r : Installation) : Heal :=
  (h.install r.record.id r.record.title r.record.playbook r.record.matchCause r.record.seen
    r.record.escalated r.startBlock).1

/-- The statics after some records were installed, in this order. -/
def installAll (l : List Installation) : Heal := l.foldl installed empty

/-- The id `kb_writer_task` mints; the addition is a checked one. -/
def mint (h : Heal) : Except Panic Text :=
  if h.maxKbNumber + 1 < 2 ^ 32 then .ok (mintId (h.maxKbNumber + 1)) else .error .overflow

/-- A diagnosis counts for the entry it found, and for no other. -/
def CountsDiagnosed (h : Heal) : Prop :=
  ∀ cause pos, h.diagnose cause = some pos → (h.noteDiagnosis pos).table = h.table.modify pos bump

/-- What the writer relies on: an id is minted, no entry has it, and with the new entry
installed every diagnosis still counts for the entry it found. -/
def MintsFresh (h : Heal) : Prop :=
  ∃ id, h.mint = .ok id ∧ (∀ i ∈ h.table, i.id.text ≠ id) ∧ ∀ token start,
    (h.install id (mintTitle token) defaultPlaybook (some token) 0 false start).1.CountsDiagnosed

/-- An earlier entry has the id of the one at `pos`. -/
def Shadowed (h : Heal) (pos : Nat) : Prop :=
  ∃ k < pos, ∃ i j, h.table[k]? = some i ∧ h.table[pos]? = some j ∧ i.id.text = j.id.text

end Heal

/-- An id of seven bytes that ends in four digits. -/
def FourDigits (id : Text) : Prop := id.length = 7 ∧ (id.drop 3).all isDigit = true

/-- What `kb_writer_task` does under a minted id. -/
def recordAs (token id : Text) : Io Bool := do
  match Kb.serialize id (mintTitle token) defaultPlaybook token blockSize with
  | none => return false
  | some doc =>
    match ← fsAppendFile id doc with
    | none => return false
    | some start =>
      let _ ← onHeal fun h =>
        let r := h.install id (mintTitle token) defaultPlaybook (some token) 0 false start.toNat
        (r.2, r.1)
      return true

theorem recordNovel_mint (token : Text) : recordNovel token =
    ((Prog.read fun w => w.heal.mint) >>= Prog.lift) >>= recordAs token := by
  change Prog.act _ _ = Prog.act _ _
  congr 1
  funext w
  change Prog.bind (Prog.lift _) _ = Prog.bind (Prog.lift w.heal.mint) _
  unfold Heal.mint
  by_cases hmax : w.heal.maxKbNumber + 1 < 2 ^ 32
  · rw [if_pos hmax, if_pos hmax]
    rfl
  · rw [if_neg hmax, if_neg hmax]
    rfl

namespace Heal

theorem kbNumber_le_max {h : Heal} {i : KnownIssue} {n : Nat} (hi : i ∈ h.table)
    (hn : kbNumber i = some n) : n ≤ h.maxKbNumber := by
  have hmem : n ∈ h.table.filterMap kbNumber := List.mem_filterMap.mpr ⟨i, hi, hn⟩
  have hfold (l : List Nat) (m : Nat) (hm : n ≤ m ∨ n ∈ l) : n ≤ l.foldl max m := by
    induction l generalizing m with
    | nil => exact hm.elim id fun hm => absurd hm List.not_mem_nil
    | cons a l ih =>
      refine ih _ ?_
      rcases hm with hm | hm
      · exact .inl (hm.trans (Nat.le_max_left _ _))
      · rcases List.mem_cons.mp hm with rfl | hm
        · exact .inl (Nat.le_max_right _ _)
        · exact .inr hm
  exact hfold _ 0 (.inr hmem)

/-- An id is the one minted for `num` when it has four digits that read `num`, up to
multiples of ten thousand. -/
theorem id_eq_mintId_iff (i : KnownIssue) (num : Nat) : i.id.text = mintId num ↔
    FourDigits i.id.text ∧ kbNumber i = some (num % 10000) := by
  have hdigits := toDigits_isDigit 4 num
  have hlen := length_toDigits 4 num
  have hvalue : digitsValue (toDigits 4 num) = num % 10000 := Kb.digitsValue_toDigits 4 num
  have hthree : (utf8 "KB-").length = 3 := by decide +kernel
  constructor
  · intro h
    have hnumber : stripPrefix (utf8 "KB-") i.id.text = some (toDigits 4 num) := by
      rw [h, stripPrefix, mintId, List.take_left, if_pos rfl, List.drop_left]
    have hne : toDigits 4 num ≠ [] := fun h => (by rw [h] at hlen; cases hlen)
    refine ⟨⟨?_, ?_⟩, ?_⟩
    · rw [h, mintId, List.length_append, hthree, hlen]
    · rw [h, mintId, ← hthree, List.drop_left]
      exact hdigits
    · rw [kbNumber, hnumber, Option.bind_some, Kb.parseU32_digits hdigits hne (by omega), hvalue]
  · rintro ⟨⟨hseven, hall⟩, hnum⟩
    rw [kbNumber, stripPrefix] at hnum
    split at hnum
    case isFalse => cases hnum
    case isTrue hpre =>
      rw [Option.bind_some] at hnum
      rw [hthree] at hpre hnum
      have hfour : (i.id.text.drop 3).length = 4 := by rw [List.length_drop, hseven]
      have hne : i.id.text.drop 3 ≠ [] := fun h => (by rw [h] at hfour; cases hfour)
      rw [Kb.parseU32_digits hall hne (by omega)] at hnum
      have hsame : i.id.text.drop 3 = toDigits 4 num :=
        Kb.digitsValue_inj hall hdigits (by omega) ((Option.some.inj hnum).trans hvalue.symm)
      rw [← List.take_append_drop 3 i.id.text, hpre, hsame, mintId]

theorem install_clean {h : Heal} {id title playbook : Text} {matchCause : Option Text} {seen : Nat}
    {escalated : Bool} {start : Nat} (hh : ∀ i ∈ h.table, i.dirty = false) :
    ∀ i ∈ (h.install id title playbook matchCause seen escalated start).1.table,
      i.dirty = false := by
  intro i hi
  rw [install] at hi
  split at hi
  · exact hh i hi
  · rcases List.mem_append.mp hi with hi | hi
    · exact hh i hi
    · rw [List.mem_singleton.mp hi]
      rfl

theorem installAll_clean (l : List Installation) : ∀ i ∈ (installAll l).table, i.dirty = false := by
  have hrun (l : List Installation) (h : Heal) (hh : ∀ i ∈ h.table, i.dirty = false) :
      ∀ i ∈ (l.foldl installed h).table, i.dirty = false := by
    induction l generalizing h with
    | nil => exact hh
    | cons r l ih => exact ih _ (install_clean hh)
  exact hrun l empty fun i hi => (by cases hi)

theorem noteDiagnosis_table {h : Heal} {pos : Nat} {j : KnownIssue} (hj : h.table[pos]? = some j) :
    ∃ k ≤ pos, (∃ i, h.table[k]? = some i ∧ i.id.text = j.id.text) ∧
      (∀ m < k, ∀ i, h.table[m]? = some i → i.id.text ≠ j.id.text) ∧
      (h.noteDiagnosis pos).table = h.table.modify k bump := by
  obtain ⟨hlt, hget⟩ := List.getElem?_eq_some_iff.mp hj
  cases hfind : h.table.findIdx? fun i => i.id.text == j.id.text with
  | none =>
    have hno := List.findIdx?_eq_none_iff.mp hfind j (hget ▸ List.getElem_mem hlt)
    rw [beq_self_eq_true] at hno
    cases hno
  | some k =>
    obtain ⟨hk, hid, hbefore⟩ := List.findIdx?_eq_some_iff_getElem.mp hfind
    refine ⟨k, ?_, ⟨h.table[k], List.getElem?_eq_getElem hk, by simpa using hid⟩, ?_, ?_⟩
    · by_contra hkpos
      exact hbefore pos (by omega) (by simp [hget])
    · intro m hm i hi
      obtain ⟨hmlt, rfl⟩ := List.getElem?_eq_some_iff.mp hi
      simpa using hbefore m hm
    · simp only [noteDiagnosis, hj, hfind]

theorem diagnose_some {h : Heal} {cause : Cause} {pos : Nat} (hd : h.diagnose cause = some pos) :
    ∃ j, h.table[pos]? = some j := by
  rw [diagnose, matchIssue] at hd
  split at hd
  · cases hd
  · obtain ⟨hlt, -⟩ := List.findIdx?_eq_some_iff_getElem.mp hd
    exact ⟨_, List.getElem?_eq_getElem hlt⟩

/-- In a table where nothing is dirty, diagnoses count right as long as none finds an entry
behind another with its id. -/
theorem countsDiagnosed_iff {h : Heal} (hclean : ∀ i ∈ h.table, i.dirty = false) :
    h.CountsDiagnosed ↔ ∀ cause pos, h.diagnose cause = some pos → ¬ h.Shadowed pos := by
  refine forall_congr' fun cause => forall_congr' fun pos => imp_congr_right fun hd => ?_
  obtain ⟨j, hj⟩ := diagnose_some hd
  obtain ⟨k, hkpos, ⟨i, hi, hid⟩, hfirst, htable⟩ := noteDiagnosis_table hj
  rw [htable]
  constructor
  · rintro hcount ⟨m, hm, i', j', hi', hj', hid'⟩
    have hmj : i'.id.text = j.id.text := by rw [hid', Option.some.inj (hj'.symm.trans hj)]
    have hkm : k ≤ m := not_lt.mp fun hmk => hfirst m hmk i' hi' hmj
    -- The update left a mark in an entry that was not the diagnosed one.
    have hmark := congrArg (fun t => t[k]?) hcount
    have hne : pos ≠ k := by omega
    rw [List.getElem?_modify_eq, List.getElem?_modify_ne bump _ hne, hi] at hmark
    have hdirty := congrArg KnownIssue.dirty (Option.some.inj hmark)
    rw [hclean i (List.mem_of_getElem? hi)] at hdirty
    cases hdirty
  · intro hshadow
    rcases Nat.lt_or_ge k pos with hlt | hge
    · exact absurd ⟨k, hlt, i, j, hi, hj, hid⟩ hshadow
    · rw [Nat.le_antisymm hkpos hge]

theorem diagnose_append {h h' : Heal} {i : KnownIssue} (htable : h'.table = h.table ++ [i])
    (cause : Cause) (pos : Nat) : h'.diagnose cause = some pos ↔ h.diagnose cause = some pos ∨
      h.diagnose cause = none ∧ pos = h.table.length ∧
        causeToken cause = some i.matchCause.text := by
  rw [diagnose, diagnose, matchIssue, matchIssue, htable]
  split
  case h_1 htoken => simp [htoken]
  case h_2 token htoken =>
    rw [List.findIdx?_append]
    cases hfind : h.table.findIdx? fun i => i.matchCause.text == token with
    | some k => simp
    | none =>
      by_cases hi : i.matchCause.text = token
      · simp [List.findIdx?_cons, hi, htoken, eq_comm (a := pos)]
      · simp [List.findIdx?_cons, hi, htoken, Ne.symm hi]

theorem install_table (h : Heal) (id title playbook : Text) (matchCause : Option Text)
    (seen : Nat) (escalated : Bool) (start : Nat) :
    (h.install id title playbook matchCause seen escalated start).1 = h ∨
      (h.install id title playbook matchCause seen escalated start).1.table = h.table ++
        [.new id title playbook (matchCause.getD []) seen escalated start] := by
  unfold install
  split
  · exact .inl rfl
  · exact .inr rfl

theorem shadowed_append {h h' : Heal} {i : KnownIssue} (htable : h'.table = h.table ++ [i])
    (hi : ∀ j ∈ h.table, j.id.text ≠ i.id.text) (pos : Nat) : h'.Shadowed pos → h.Shadowed pos := by
  rintro ⟨k, hk, a, b, ha, hb, hab⟩
  rw [htable] at ha hb
  have hpos : pos < h.table.length + 1 := by
    obtain ⟨hlt, -⟩ := List.getElem?_eq_some_iff.mp hb
    simpa using hlt
  rw [List.getElem?_append_left (by omega)] at ha
  rcases Nat.lt_or_ge pos h.table.length with hlt | hge
  · rw [List.getElem?_append_left hlt] at hb
    exact ⟨k, hk, a, b, ha, hb, hab⟩
  · rw [show pos = h.table.length by omega, List.getElem?_concat_length] at hb
    rw [← Option.some.inj hb] at hab
    exact absurd hab (hi a (List.mem_of_getElem? ha))

end Heal

open Heal

theorem newIssue_id (num : Nat) (title playbook matchCause : Text) (seen : Nat) (escalated : Bool)
    (start : Nat) :
    (KnownIssue.new (mintId num) title playbook matchCause seen escalated start).id.text =
      mintId num := by
  refine Buf.fromStr_text ?_
  have hthree : (utf8 "KB-").length = 3 := by decide +kernel
  rw [mintId, List.length_append, length_toDigits, hthree]
  decide

theorem mintId_free_iff (h : Heal) : (∀ i ∈ h.table, i.id.text ≠ mintId (h.maxKbNumber + 1)) ↔
    (9999 ≤ h.maxKbNumber → ∀ i ∈ h.table, FourDigits i.id.text →
      kbNumber i ≠ some ((h.maxKbNumber + 1) % 10000)) := by
  constructor
  · intro hfree _ i hi hfour hnum
    exact hfree i hi ((id_eq_mintId_iff i _).mpr ⟨hfour, hnum⟩)
  · intro hwrap i hi hid
    obtain ⟨hfour, hnum⟩ := (id_eq_mintId_iff i _).mp hid
    rcases Nat.lt_or_ge h.maxKbNumber 9999 with hlt | hge
    · have hle := kbNumber_le_max hi hnum
      omega
    · exact hwrap hge i hi hfour hnum

/-- Minting is fresh, and diagnoses count right, in exactly these tables: the next number
fits in 32 bits; once it has more than four digits no installed id has its last four;
and no diagnosis finds an entry behind another one with the same id. -/
theorem mintsFresh_iff (l : List Installation) : (installAll l).MintsFresh ↔
    (installAll l).maxKbNumber + 1 < 2 ^ 32 ∧
    (9999 ≤ (installAll l).maxKbNumber → ∀ i ∈ (installAll l).table, FourDigits i.id.text →
      kbNumber i ≠ some (((installAll l).maxKbNumber + 1) % 10000)) ∧
    ∀ cause pos, (installAll l).diagnose cause = some pos → ¬ (installAll l).Shadowed pos := by
  have hclean := installAll_clean l
  generalize installAll l = h at hclean
  rw [← mintId_free_iff]
  constructor
  · rintro ⟨id, hmint, hfree, hcount⟩
    rw [mint] at hmint
    split at hmint
    case isFalse => cases hmint
    case isTrue hmax =>
      cases hmint
      refine ⟨hmax, hfree, fun cause pos hd hshadow => ?_⟩
      have hcount' := (countsDiagnosed_iff (install_clean hclean)).mp (hcount [] 0) cause pos
      rcases install_table h (mintId (h.maxKbNumber + 1)) (mintTitle []) defaultPlaybook (some []) 0
        false 0 with hfull | htable
      · rw [hfull] at hcount'
        exact hcount' hd hshadow
      · obtain ⟨k, hk, a, b, ha, hb, hab⟩ := hshadow
        refine hcount' ((diagnose_append htable cause pos).mpr (.inl hd)) ⟨k, hk, a, b, ?_, ?_, hab⟩
        · rw [htable, List.getElem?_append_left (List.getElem?_eq_some_iff.mp ha).1, ha]
        · rw [htable, List.getElem?_append_left (List.getElem?_eq_some_iff.mp hb).1, hb]
  · rintro ⟨hmax, hfree, hfirst⟩
    refine ⟨mintId (h.maxKbNumber + 1), if_pos hmax, hfree, fun token start => ?_⟩
    rw [countsDiagnosed_iff (install_clean hclean)]
    intro cause pos hd
    rcases install_table h (mintId (h.maxKbNumber + 1)) (mintTitle token) defaultPlaybook
      (some token) 0 false start with hfull | htable
    · rw [hfull] at hd ⊢
      exact hfirst cause pos hd
    · intro hshadow
      have hshadow' := shadowed_append htable (fun j hj => by
        rw [newIssue_id]
        exact hfree j hj) pos hshadow
      rcases (diagnose_append htable cause pos).mp hd with hd' | ⟨-, rfl, -⟩
      · exact hfirst cause pos hd' hshadow'
      · -- Past the end of the table nothing is shadowed.
        obtain ⟨k, -, a, b, -, hb, -⟩ := hshadow'
        rw [List.getElem?_eq_none (Nat.le_refl _)] at hb
        cases hb

/-- Two files of a knowledge base that has counted to the last four-digit number. -/
def lastNumbers : List Installation :=
  [⟨⟨utf8 "KB-0000", [], [], none, 0, false⟩, 2⟩, ⟨⟨utf8 "KB-9999", [], [], none, 0, false⟩, 3⟩]

/-- With `KB-9999` installed the next id is `KB-0000`, which is taken. -/
theorem mints_taken_id : ∃ l : List Installation, ¬ (installAll l).MintsFresh := by
  refine ⟨lastNumbers, ?_⟩
  rintro ⟨id, hmint, hfree, -⟩
  have hid : (installAll lastNumbers).mint.toOption = some (utf8 "KB-0000") := by decide +kernel
  have htaken : ∃ i ∈ (installAll lastNumbers).table, i.id.text = utf8 "KB-0000" := by
    decide +kernel
  obtain ⟨i, hi, hsame⟩ := htaken
  rw [hmint] at hid
  exact hfree i hi (hsame.trans (Option.some.inj hid).symm)

end Perenne

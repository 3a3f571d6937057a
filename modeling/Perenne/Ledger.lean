import Perenne.Identities
import Mathlib.Data.List.Nodup

namespace Perenne

namespace Heal

/-- What `note_diagnosis` returns: the counter, if the diagnosis has just escalated the entry. -/
def escalation (h : Heal) (pos : Nat) : Option Nat :=
  match h.table[pos]? with
  | none => none
  | some issue =>
    match h.table.find? fun i => i.id.text == issue.id.text with
    | none => none
    | some slot =>
      let seen := saturatingSucc slot.seen
      if escalateAt ≤ seen ∧ slot.escalated = false then some seen else none

end Heal

/-- What is noted of an entry: the counters it was installed with, how often it was diagnosed, and
the numbers of the diagnoses that were reported as an escalation. -/
structure Account where
  loaded : Nat
  flagged : Bool
  diagnoses : Nat
  reports : List Nat

namespace Account

def opened (i : KnownIssue) : Account := ⟨i.seen, i.escalated, 0, []⟩

/-- One more diagnosis, reported or not. -/
def diagnosed (reported : Bool) (a : Account) : Account :=
  { a with
    diagnoses := a.diagnoses + 1
    reports := if reported then a.reports ++ [a.diagnoses + 1] else a.reports }

/-- The counter after so many diagnoses, which saturates. -/
def seenAfter (a : Account) (n : Nat) : Nat := min (a.loaded + n) (2 ^ 32 - 1)

/-- The diagnosis that has escalated the entry: the first after which the counter is at the
threshold, unless the entry was installed escalated. -/
def escalatedBy (a : Account) : Option Nat :=
  if a.flagged then none
  else (List.range' 1 a.diagnoses).find? fun n => escalateAt ≤ a.seenAfter n

/-- The entry has the counters that the account says, and its escalation was reported when the
account says. -/
structure Right (a : Account) (i : KnownIssue) : Prop where
  seen : i.seen = a.seenAfter a.diagnoses
  escalated : i.escalated = (a.flagged || a.escalatedBy.isSome)
  reports : a.reports = a.escalatedBy.toList

theorem right_opened {i : KnownIssue} (hi : i.seen < 2 ^ 32) : Right (opened i) i := by
  have hnone : (opened i).escalatedBy = none := ite_self none
  refine ⟨?_, ?_, ?_⟩
  · change i.seen = min (i.seen + 0) (2 ^ 32 - 1)
    omega
  · rw [hnone, Option.isSome_none, Bool.or_false]
    rfl
  · rw [hnone]
    rfl

theorem escalatedBy_diagnosed (a : Account) (reported : Bool) :
    (a.diagnosed reported).escalatedBy = if a.flagged then none else
      a.escalatedBy.or (if escalateAt ≤ a.seenAfter (a.diagnoses + 1) then some (a.diagnoses + 1)
        else none) := by
  unfold escalatedBy
  change (if a.flagged = true then none else
    (List.range' 1 (a.diagnoses + 1)).find? fun n => escalateAt ≤ a.seenAfter n) = _
  cases a.flagged with
  | true => rfl
  | false =>
    rw [if_neg Bool.false_ne_true, if_neg Bool.false_ne_true, if_neg Bool.false_ne_true,
      List.range'_concat, List.find?_append, Nat.one_mul, Nat.add_comm 1]
    simp only [List.find?_cons, List.find?_nil]
    congr 1
    split
    case h_1 h => rw [if_pos (of_decide_eq_true h)]
    case h_2 h => rw [if_neg (of_decide_eq_false h)]

theorem Right.diagnosed {a : Account} {i : KnownIssue} (h : Right a i) :
    Right (a.diagnosed (decide (escalateAt ≤ Heal.saturatingSucc i.seen ∧ i.escalated = false)))
      (Heal.bump i) := by
  have hseen : Heal.saturatingSucc i.seen = a.seenAfter (a.diagnoses + 1) := by
    rw [h.seen, seenAfter, seenAfter, Heal.saturatingSucc]
    omega
  have hreports := h.reports
  have hesc := h.escalated
  have hbump : (Heal.bump i).escalated =
      (i.escalated || decide (escalateAt ≤ a.seenAfter (a.diagnoses + 1))) := by
    rw [← hseen]
    rfl
  refine ⟨hseen, ?_, ?_⟩
  · change _ = (a.flagged || _)
    rw [hbump, hesc, escalatedBy_diagnosed]
    cases a.flagged with
    | true => rfl
    | false =>
      rw [if_neg Bool.false_ne_true, Bool.false_or, Bool.false_or]
      cases a.escalatedBy with
      | some n => rfl
      | none =>
        rw [Option.none_or]
        split
        case isTrue hle => simp [hle]
        case isFalse hle => simp [hle]
  · rw [escalatedBy_diagnosed, hseen, hesc]
    change (if decide _ = true then a.reports ++ [a.diagnoses + 1] else a.reports) = _
    rw [hreports]
    cases hflag : a.flagged with
    | true =>
      have hnone : a.escalatedBy = none := if_pos hflag
      rw [hnone]
      simp
    | false =>
      rw [if_neg Bool.false_ne_true]
      cases a.escalatedBy with
      | some n => simp
      | none =>
        by_cases hle : escalateAt ≤ a.seenAfter (a.diagnoses + 1)
        · simp [hle]
        · simp [hle]

end Account

/-- The accounts are right, entry by entry. -/
abbrev Balanced (l : List Account) (t : List KnownIssue) : Prop := List.Forall₂ Account.Right l t

theorem Balanced.extended {l : List Account} {t t' : List KnownIssue} (h : Balanced l t)
    (ht : Extended t t') : Balanced (l ++ (t'.drop l.length).map .opened) t' := by
  have hclear (l : List Account) (t : List KnownIssue) :
      Balanced l (t.map KnownIssue.clear) ↔ Balanced l t := by
    rw [Balanced, List.forall₂_map_right_iff]
    exact ⟨fun h => h.imp fun _ _ h => ⟨h.seen, h.escalated, h.reports⟩,
      fun h => h.imp fun _ _ h => ⟨h.seen, h.escalated, h.reports⟩⟩
  obtain ⟨hkept, hnew, -⟩ := ht
  have hold : Balanced l (t'.take t.length) := by
    rw [← hclear, hkept, hclear]
    exact h
  rw [h.length_eq]
  nth_rewrite 2 [← List.take_append_drop t.length t']
  refine List.rel_append hold ?_
  rw [List.forall₂_map_left_iff, List.forall₂_same]
  exact fun i hi => Account.right_opened (hnew i hi)

theorem Balanced.modify {l : List Account} {t : List KnownIssue} {pos : Nat} {f : Account → Account}
    {g : KnownIssue → KnownIssue} (h : Balanced l t)
    (hfg : ∀ a i, t[pos]? = some i → a.Right i → (f a).Right (g i)) :
    Balanced (l.modify pos f) (t.modify pos g) := by
  induction h generalizing pos with
  | nil =>
    rw [List.modify_nil, List.modify_nil]
    exact .nil
  | cons hi hrest ih =>
    cases pos with
    | zero => exact .cons (hfg _ _ rfl hi) hrest
    | succ pos => exact .cons hi (ih hfg)

theorem noteDiagnosis_distinct {h : Heal} (hids : (idsOf h.table).Nodup) {pos : Nat}
    {j : KnownIssue} (hj : h.table[pos]? = some j) :
    (h.noteDiagnosis pos).table = h.table.modify pos Heal.bump ∧
      (h.escalation pos).isSome =
        decide (escalateAt ≤ Heal.saturatingSucc j.seen ∧ j.escalated = false) := by
  constructor
  · obtain ⟨k, hk, ⟨i, hi, hid⟩, -, htable⟩ := Heal.noteDiagnosis_table hj
    have hlt : k < (idsOf h.table).length := by
      obtain ⟨hlt, -⟩ := List.getElem?_eq_some_iff.mp hi
      rwa [idsOf, List.length_map]
    have hsame : (idsOf h.table)[k]? = (idsOf h.table)[pos]? := by
      rw [idsOf, List.getElem?_map, List.getElem?_map, hi, hj, Option.map_some, Option.map_some,
        hid]
    rw [htable, (List.getElem?_inj hlt hids).mp hsame]
  · have hmem : j ∈ h.table := List.mem_of_getElem? hj
    unfold Heal.escalation
    rw [hj]
    dsimp only
    cases hfind : h.table.find? fun i => i.id.text == j.id.text with
    | none =>
      have hno := List.find?_eq_none.mp hfind j hmem
      rw [beq_self_eq_true] at hno
      exact absurd rfl hno
    | some slot =>
      have hid := List.find?_some hfind
      obtain rfl : slot = j := List.inj_on_of_nodup_map hids (List.mem_of_find?_eq_some hfind) hmem
        (beq_iff_eq.mp hid)
      dsimp only
      split
      case isTrue h => rw [decide_eq_true h, Option.isSome_some]
      case isFalse h => rw [decide_eq_false h, Option.isSome_none]

namespace Organism

/-- What the observer does: a boot starts with an empty ledger, a crash goes to the account of the
entry that it is diagnosed as, and accounts are opened for the entries that have come. -/
def note (s : Organism) (e : Event) (s' : Organism) (l : List Account) : List Account :=
  match e with
  | .cut _ => []
  | .move (.env cause) =>
    match s.world.heal.diagnose cause with
    | some pos => l.modify pos (.diagnosed (s.world.heal.escalation pos).isSome)
    | none => l
  | _ => l ++ (s'.world.heal.table.drop l.length).map .opened

def ledger (s : Organism) (es : List Event) : List Account := Transition.observe step note s [] es

end Organism

namespace Organism

/-- The task that is running does no more to the table than extend it. -/
def Extending (s : Organism) : Prop :=
  match s.phase with
  | .loading p => Extends p
  | .idle => True
  | .recording _ p => Extends p
  | .persisting p => Extends p

/-- What a step does to the table. -/
inductive TableStep (s : Organism) : Event → Organism → Prop where
  | cut {page : Block} {s' : Organism} (h : s'.world.heal.table = []) : TableStep s (.cut page) s'
  | crash {cause : Cause} {s' : Organism} (h : s'.world.heal = (s.world.heal.onCrash cause).1) :
    TableStep s (.move (.env cause)) s'
  | task {e : Event} {s' : Organism} (hcut : ∀ page, e ≠ .cut page)
    (hcrash : ∀ cause, e ≠ .move (.env cause))
    (h : Extended s.world.heal.table s'.world.heal.table) : TableStep s e s'

section Steps

variable {s s' : Organism} {e : Event}

theorem task_table {α : Type} {p p' : Io α} {w w' : World} {m : Prog.Move Fate Cause}
    (h : Extends p) (hm : Prog.step World.serve crash (p, w) m = some (p', w'))
    {K : Io α → Phase} : Extends p' ∧ TableStep ⟨K p, w⟩ (.move m) ⟨K p', w'⟩ := by
  obtain ⟨hp', ⟨rfl, hrun⟩ | ⟨f, i, o, rfl, hserve⟩ | ⟨cause, rfl, hcrash⟩⟩ := h.step hm
  · exact ⟨hp', .task (fun _ he => (by cases he)) (fun _ he => by cases he) hrun⟩
  · refine ⟨hp', .task (fun _ he => (by cases he)) (fun _ he => by cases he) ?_⟩
    rw [serve_heal hserve]
    exact .refl _
  · obtain rfl := Option.some.inj hcrash
    exact ⟨hp', .crash rfl⟩

theorem extending_step (h : s.Extending) (hstep : step s e = some s') :
    s'.Extending ∧ TableStep s e s' := by
  have hgoes {w : World} {p q : Phase} : TableStep ⟨p, w⟩ .next ⟨q, w⟩ :=
    .task (fun _ he => (by cases he)) (fun _ he => by cases he) (.refl _)
  cases stepped hstep with
  | loading hm => exact task_table h hm
  | recording hm => exact task_table (K := .recording _) h hm
  | persisting hm => exact task_table h hm
  | crash => exact ⟨trivial, .crash rfl⟩
  | loaded => exact ⟨trivial, hgoes⟩
  | poll =>
    unfold Organism.poll
    split
    case h_1 w heal htake =>
      obtain ⟨-, rfl⟩ := Prod.mk.inj htake
      exact ⟨extends_persistOne,
        .task (fun _ he => (by cases he)) (fun _ he => by cases he) (.refl _)⟩
    case h_2 w token heal htake =>
      obtain ⟨-, rfl⟩ := Prod.mk.inj htake
      exact ⟨extends_recordNovel token,
        .task (fun _ he => (by cases he)) (fun _ he => by cases he) (.refl _)⟩
  | recorded => exact ⟨extends_persistOne, hgoes⟩
  | persisted => exact ⟨extends_persistOne, hgoes⟩
  | clean => exact ⟨trivial, hgoes⟩
  | cut => exact ⟨extends_kbLoader, .cut rfl⟩

theorem balanced_crash {h : Heal} {l : List Account} (hl : Balanced l h.table)
    (hids : (idsOf h.table).Nodup) {cause : Cause} {pos : Nat} (hd : h.diagnose cause = some pos) :
    Balanced (l.modify pos (.diagnosed (h.escalation pos).isSome)) (h.onCrash cause).1.table := by
  obtain ⟨j, hj⟩ := Heal.diagnose_some hd
  obtain ⟨htable, hreport⟩ := noteDiagnosis_distinct hids hj
  have hcrash : (h.onCrash cause).1 = h.noteDiagnosis pos := by rw [Heal.onCrash, hd]
  rw [hcrash, htable, hreport]
  refine hl.modify fun a i hi hright => ?_
  obtain rfl := Option.some.inj (hi.symm.trans hj)
  exact hright.diagnosed

theorem balanced_step {l : List Account} (hl : Balanced l s.world.heal.table)
    (hids : (idsOf s.world.heal.table).Nodup) (h : TableStep s e s') :
    Balanced (note s e s' l) s'.world.heal.table := by
  cases h with
  | cut hempty =>
    rw [hempty]
    exact .nil
  | crash hheal =>
    rename_i cause
    rw [hheal, note]
    cases hd : s.world.heal.diagnose cause with
    | some pos => exact balanced_crash hl hids hd
    | none =>
      have hcrash : (s.world.heal.onCrash cause).1 = s.world.heal.noteUnmatched cause := by
        rw [Heal.onCrash, hd]
      have htable : (s.world.heal.noteUnmatched cause).table = s.world.heal.table := by
        unfold Heal.noteUnmatched
        split
        · rfl
        · rfl
      rw [hcrash, htable]
      exact hl
  | task hcut hcrash hext =>
    unfold note
    split
    case h_1 page => exact absurd rfl (hcut page)
    case h_2 cause => exact absurd rfl (hcrash cause)
    case h_3 => exact hl.extended hext

end Steps

/-- What holds of the machine at every moment of a run that mints no taken id. -/
structure Bookkept (s : Organism) (l : List Account) : Prop where
  tracks : s.Tracks (fun _ => True) Behind
  names : s.Names
  extending : s.Extending
  balanced : Balanced l s.world.heal.table

theorem Bookkept.step {s s' : Organism} {e : Event} {l : List Account} (h : s.Bookkept l)
    (hfree : s.MintsFree e) (hstep : step s e = some s') : s'.Bookkept (note s e s' l) := by
  obtain ⟨hextending, htable⟩ := extending_step h.extending hstep
  obtain ⟨v, -, hnamed⟩ := h.names.named
  refine ⟨?_, h.names.step h.tracks hfree hstep, hextending,
    balanced_step h.balanced hnamed.nodup htable⟩
  exact (h.tracks.step behind_bookkeeping (fun _ _ h _ => h)
    (fun _ _ _ => ⟨Nat.le_refl _, id⟩) (fun _ _ _ _ => trivial) hstep).1

theorem bookkept_run {s s' : Organism} {es : List Event} {l : List Account} (h : s.Bookkept l)
    (hfree : Transition.StepsMeet step MintsFree s es) (hrun : run s es = some s') :
    s'.Bookkept (Transition.observe step note s l es) := by
  refine Transition.invariant_observe Bookkept (fun s e s' l h hfree hstep => ?_) h hfree hrun
  exact h.step hfree hstep

theorem grows_run {s s' : Organism} {es : List Event} (h : s.Tracks (fun _ => True) Behind)
    (hrun : run s es = some s') : Grows s.world s'.world := by
  have hstep (s₁ : Organism) (e : Event) (s₂ : Organism)
      (h : s₁.Tracks (fun _ => True) Behind ∧ Grows s.world s₁.world) (_ : True)
      (hstep : step s₁ e = some s₂) :
      s₂.Tracks (fun _ => True) Behind ∧ Grows s.world s₂.world := by
    obtain ⟨htracks, hgrows⟩ := h.1.step behind_bookkeeping (fun _ _ h _ => h)
      (fun _ _ _ => ⟨Nat.le_refl _, id⟩) (fun _ _ _ _ => trivial) hstep
    exact ⟨htracks, h.2.trans hgrows⟩
  exact (Transition.invariant_run hstep ⟨h, .of_disk rfl⟩ (Transition.stepsMeet_true _) hrun).2

end Organism

/-- The entries stay where they are in the table, and what is escalated stays so. -/
def FlagsKept (t t' : List KnownIssue) : Prop :=
  List.Forall₂ (fun i i' => i'.id = i.id ∧ (i.escalated = true → i'.escalated = true)) t
    (t'.take t.length)

theorem FlagsKept.refl (t : List KnownIssue) : FlagsKept t t := by
  rw [FlagsKept, List.take_length]
  exact List.forall₂_same.mpr fun _ _ => ⟨rfl, id⟩

theorem FlagsKept.trans {t t' t'' : List KnownIssue} (h : FlagsKept t t')
    (h' : FlagsKept t' t'') : FlagsKept t t'' := by
  have hlen : t.length ≤ t'.length := by
    have := h.length_eq
    rw [List.length_take] at this
    omega
  have htake := List.forall₂_take t.length h'
  rw [List.take_take, Nat.min_eq_left hlen] at htake
  exact forall₂_trans (fun _ _ _ h h' => ⟨h'.1.trans h.1, fun he => h'.2 (h.2 he)⟩) h htake

theorem flagsKept_bumped {t t' : List KnownIssue} (h : TableBumped t t') : FlagsKept t t' := by
  rw [FlagsKept, h.length_eq, List.take_length]
  refine h.imp fun i i' hb => ⟨hb.face.1, ?_⟩
  obtain ⟨n, rfl⟩ := hb
  intro hesc
  induction n generalizing i with
  | zero => exact hesc
  | succ n ih =>
    refine ih (i := Heal.bump i) ?_
    change (i.escalated || _) = true
    rw [hesc, Bool.true_or]

theorem flagsKept_extended {t t' : List KnownIssue} (h : Extended t t') : FlagsKept t t' := by
  have hsame : List.Forall₂ Eq (t.map KnownIssue.clear)
      ((t'.take t.length).map KnownIssue.clear) := by
    rw [List.forall₂_eq_eq_eq, h.kept]
  rw [List.forall₂_map_left_iff, List.forall₂_map_right_iff] at hsame
  refine hsame.imp fun i i' heq => ?_
  have hid : i.clear.id = i'.clear.id := congrArg _ heq
  have hesc : i.clear.escalated = i'.clear.escalated := congrArg _ heq
  exact ⟨hid.symm, fun he => hesc.symm.trans he⟩

theorem flagsKept_run {s s' : Organism} {es : List Organism.Event} (h : s.Extending)
    (hpower : ∀ e ∈ es, ∀ page, e ≠ .cut page) (hrun : Organism.run s es = some s') :
    FlagsKept s.world.heal.table s'.world.heal.table := by
  have hstep (s₁ : Organism) (e : Organism.Event) (s₂ : Organism)
      (h : s₁.Extending ∧ FlagsKept s.world.heal.table s₁.world.heal.table)
      (hpower : True ∧ ∀ page, e ≠ .cut page) (hstep : s₁.step e = some s₂) :
      s₂.Extending ∧ FlagsKept s.world.heal.table s₂.world.heal.table := by
    obtain ⟨hext, hkept⟩ := h
    obtain ⟨hext', htable⟩ := Organism.extending_step hext hstep
    refine ⟨hext', hkept.trans ?_⟩
    cases htable with
    | cut hempty => exact absurd rfl (hpower.2 _)
    | crash hheal =>
      rw [hheal]
      exact flagsKept_bumped (Heal.onCrash_bumped ..)
    | task hcut hcrash htable => exact flagsKept_extended htable
  exact (Transition.invariant_run hstep ⟨h, .refl _⟩
    (Transition.stepsMeet_and_of_mem (Transition.stepsMeet_true _) hpower) hrun).2

/-- An entry of the volume, later: its counters did not go back, and nothing else has changed. -/
def EntryKept (f f' : DirEntry × List UInt8) : Prop :=
  ∀ rec, Kb.parse (Kb.headOf f.2) = some rec → f'.1 = f.1 ∧
    ∃ rec', Kb.parse (Kb.headOf f'.2) = some rec' ∧ rec.seen ≤ rec'.seen ∧
      (rec.escalated = true → rec'.escalated = true) ∧
      ∀ k, ¬ Kb.inCounters f.2 k → f'.2[k]? = f.2[k]?

section Memory

variable {disk : Nat → Block} {page : Block} {v : Volume} {es es' : List Organism.Event}
  {s s' : Organism}

theorem boot_bookkept (hv : v.Loadable) (hapart : v.Apart) (hread : readVolume disk = some v)
    (hcount : v.Counted) (hids : v.Distinct) (page : Block) :
    (Organism.boot disk page).Bookkept [] where
  tracks := boot_tracks behind_bookkeeping hv hapart hread page
  names := named_loader (w := ⟨disk, page, -1, .empty⟩) hv hread hcount hids page
  extending := extends_kbLoader
  balanced := .nil

/-- The memory of recurrences is monotone, as long as the writer mints no id that an entry of the
volume has. Over any number of boots, between any two moments of a run, the counters of an entry on
the disk do not go back and the rest of it stays. In one boot no flag is cleared. At every moment
each entry in the table has the counter it was installed with plus its diagnoses, and of these
the first that takes it to the threshold, and no other, was reported. -/
theorem recurrence_memory_monotone (hv : v.Loadable) (hapart : v.Apart)
    (hread : readVolume disk = some v) (hcount : v.Counted) (hids : v.Distinct)
    (hfree : Transition.StepsMeet Organism.step Organism.MintsFree (.boot disk page) (es ++ es'))
    (hrun : Organism.run (.boot disk page) es = some s) (hrun' : Organism.run s es' = some s') :
    (∃ v₁ v₂, readVolume s.world.disk = some v₁ ∧ readVolume s'.world.disk = some v₂ ∧
      List.Forall₂ EntryKept v₁.files (v₂.files.take v₁.files.length)) ∧
    ((∀ e ∈ es', ∀ page, e ≠ .cut page) →
      FlagsKept s.world.heal.table s'.world.heal.table) ∧
    List.Forall₂ Account.Right (Organism.ledger (.boot disk page) (es ++ es'))
      s'.world.heal.table := by
  have hboot := boot_bookkept hv hapart hread hcount hids page
  have hmid := Organism.bookkept_run hboot (Transition.stepsMeet_append hfree hrun).1 hrun
  have hend := Organism.bookkept_run hboot hfree (Transition.run_append.mpr ⟨s, hrun, hrun'⟩)
  refine ⟨?_, fun hpower => flagsKept_run hmid.extending hpower hrun', hend.balanced⟩
  obtain ⟨v₁, hread₁, hnamed⟩ := hmid.names.named
  obtain ⟨v₂, hread₂, hgrown⟩ := Organism.grows_run hmid.tracks hrun' v₁ hread₁
  refine ⟨v₁, v₂, hread₁, hread₂, ?_⟩
  have hfiles := (List.forall₂_and_left (p := (· ∈ v₁.files)) _ _).mpr ⟨fun f hf => hf, hgrown⟩
  refine hfiles.imp fun f f' hf rec hrec => ?_
  exact ⟨hf.2.entry, hf.2.own rec (hnamed.counted f hf.1 rec hrec) hrec⟩

end Memory

namespace Organism

instance (s : Organism) (e : Event) : Decidable (s.MintsFree e) :=
  match e with
  | .next =>
    decidable_of_iff (s.phase.isIdle = true → s.world.heal.novelToken ≠ none →
        ∀ v ∈ readVolume s.world.disk, mintId (s.world.heal.maxKbNumber + 1) ∉ idsOf v.entries)
      Iff.rfl
  | .move _ => isTrue trivial
  | .cut _ => isTrue trivial

/-- The loader on a directory with two entries of one block. -/
def loadTwo : List Event :=
  loadBlank ++ (([.run, .serve .done, .run, .run, .run, .run, .serve .done, .run, .run, .run] :
    List (Prog.Move Fate Cause)).map .move)

/-- A fault class is recorded and diagnosed once. -/
def recordDiagnosed : List Event :=
  [.next, illegal, .next] ++ recordOnce ++ [.next, .move .run, .next, illegal]

end Organism

/-- A recurrence of a fault that was recorded in the same boot. -/
theorem recurrence_memory_monotone_second : ∃ s s', Organism.run (.boot blankWorld.disk
      (.pad blockSize [])) Organism.loadBlank = some s ∧
    Organism.run s Organism.recordDiagnosed = some s' ∧
    s'.world.heal.table.map KnownIssue.seen = [1] ∧
    List.Forall₂ Account.Right (Organism.ledger (.boot blankWorld.disk (.pad blockSize []))
      (Organism.loadBlank ++ Organism.recordDiagnosed)) s'.world.heal.table := by
  have hruns : ((Organism.run (.boot blankWorld.disk (.pad blockSize []))
      Organism.loadBlank).bind fun s => Organism.run s Organism.recordDiagnosed).any
        fun s => s.world.heal.table.map KnownIssue.seen == [1] := by
    decide +kernel
  have hfree : Transition.StepsMeet Organism.step Organism.MintsFree (.boot blankWorld.disk
      (.pad blockSize [])) (Organism.loadBlank ++ Organism.recordDiagnosed) := by
    decide +kernel
  obtain ⟨s', hs', hseen⟩ := Option.any_eq_true _ _ |>.mp hruns
  obtain ⟨s, hrun, hrun'⟩ := Option.bind_eq_some_iff.mp hs'
  exact ⟨s, s', hrun, hrun', beq_iff_eq.mp hseen,
    (recurrence_memory_monotone blankWorld_loadable blankWorld_apart blankWorld_volume
      (fun _ hf => by cases hf) List.Pairwise.nil hfree hrun hrun').2.2⟩

/-- Two entries of a knowledge base that has counted to the last four-digit number. -/
def lastVolume : Volume :=
  (Volume.appended ⟨⟨fsMagic, fsVersion, 512, dirBlockNumber, 0, dataStartBlock⟩, []⟩
    (mintId 0) (mintedDoc 0 (utf8 "page-fault"))).appended
      (mintId 9999) (mintedDoc 9999 (utf8 "page-fault"))

def lastDisk : Nat → Block
  | 0 => .pad blockSize (lastVolume.superblock.encode (List.replicate blockSize 0))
  | 1 => .pad blockSize (lastVolume.files.flatMap fun f => f.1.encode (List.replicate direntSize 0))
  | 2 => .pad blockSize (mintedDoc 0 (utf8 "page-fault"))
  | 3 => .pad blockSize (mintedDoc 9999 (utf8 "page-fault"))
  | _ => .pad blockSize []

theorem Balanced.seen {l : List Account} {t : List KnownIssue} (h : Balanced l t) :
    t.map KnownIssue.seen = l.map fun a => a.seenAfter a.diagnoses := by
  induction h with
  | nil => rfl
  | cons hi _ ih => rw [List.map_cons, List.map_cons, ih, hi.seen]

/-- The ids wrap: the entry that is minted after `KB-9999` is `KB-0000` again, and its diagnosis
counts for the entry that has that id already. -/
theorem recurrence_misattributed : ∃ v s, v.Loadable ∧ v.Apart ∧ readVolume lastDisk = some v ∧
    v.Counted ∧ v.Distinct ∧
    Organism.run (.boot lastDisk (.pad blockSize []))
      (Organism.loadTwo ++ Organism.recordDiagnosed) = some s ∧
    ¬ List.Forall₂ Account.Right (Organism.ledger (.boot lastDisk (.pad blockSize []))
      (Organism.loadTwo ++ Organism.recordDiagnosed)) s.world.heal.table := by
  have htoken : Heal.causeToken .loadPageFault = some (utf8 "page-fault") := rfl
  have hloadable : lastVolume.Loadable :=
    (blankWorld_loadable.appended _ ⟨length_mintedDoc htoken 0, by decide⟩).appended _
      ⟨length_mintedDoc htoken 9999, by decide⟩
  have hapart : lastVolume.Apart :=
    (blankWorld_apart.appended blankWorld_loadable.toWellFormed _ _).appended
      (blankWorld_loadable.appended _ ⟨length_mintedDoc htoken 0, by decide⟩).toWellFormed _ _
  have hread : readVolume lastDisk = some lastVolume := by decide +kernel
  have hcount : lastVolume.Counted := by
    intro f hf _ _
    obtain rfl | hf := List.mem_cons.mp hf
    · exact carries_mintedDoc htoken 0
    · obtain rfl := List.mem_singleton.mp hf
      exact carries_mintedDoc htoken 9999
  have hids : lastVolume.Distinct := by
    rw [Volume.Distinct, lastVolume, idsOf_appended htoken, idsOf_appended htoken]
    decide +kernel
  have hruns : (Organism.run (.boot lastDisk (.pad blockSize []))
      (Organism.loadTwo ++ Organism.recordDiagnosed)).any fun s =>
        s.world.heal.table.map KnownIssue.seen == [1, 0, 0] := by
    decide +kernel
  have hledger : ((Organism.ledger (.boot lastDisk (.pad blockSize []))
      (Organism.loadTwo ++ Organism.recordDiagnosed)).map fun a => a.seenAfter a.diagnoses) =
        [0, 0, 1] := by
    decide +kernel
  obtain ⟨s, hrun, hs⟩ := Option.any_eq_true _ _ |>.mp hruns
  refine ⟨lastVolume, s, hloadable, hapart, hread, hcount, hids, hrun, fun hbalanced => ?_⟩
  have hseen := Balanced.seen hbalanced
  rw [hledger, beq_iff_eq.mp hs] at hseen
  cases hseen

end Perenne

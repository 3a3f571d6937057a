import Perenne.Counters
import Perenne.InPlace
import Perenne.Minting
import Perenne.Persist
import Perenne.Tandem

namespace Perenne

namespace Kb

theorem parseU32_lt {s : Text} {n : Nat} (h : parseU32 s = some n) : n < 2 ^ 32 := by
  unfold parseU32 at h
  generalize (if 1 < s.length then (stripPrefix [43] s).getD s else s) = digits at h
  change (if digits ≠ [] ∧ digits.all isDigit ∧ digitsValue digits < 2 ^ 32 then
    some (digitsValue digits) else none) = some n at h
  split at h
  case isTrue hdigits =>
    obtain rfl := Option.some.inj h
    exact hdigits.2.2
  case isFalse => cases h

theorem Fields.set_fits {f : Fields} (hf : f.seen < 2 ^ 32) (key value : Text) :
    (f.set key value).seen < 2 ^ 32 := by
  have hvalue (s : Text) : (parseU32 s).getD 0 < 2 ^ 32 := by
    cases hs : parseU32 s with
    | none => exact Nat.two_pow_pos 32
    | some n => exact parseU32_lt hs
  have hvalue := hvalue (clean value)
  generalize hn : (parseU32 (clean value)).getD 0 = n at hvalue
  simp only [Fields.set, hn]
  split
  · exact hf
  · split
    · exact hf
    · split
      · exact hf
      · split
        · exact hvalue
        · split
          · exact hf
          · split
            · exact hf
            · exact hf

theorem Fields.line_fits {f : Fields} (hf : f.seen < 2 ^ 32) (l : Text) :
    (f.line l).seen < 2 ^ 32 := by
  unfold Fields.line
  split
  · exact hf
  · split
    · exact Fields.set_fits hf _ _
    · exact hf

theorem scan_fits {f : Fields} (hf : f.seen < 2 ^ 32) (ls : List Text) :
    (scan f ls).seen < 2 ^ 32 := by
  induction ls generalizing f with
  | nil => exact hf
  | cons l ls ih =>
    unfold scan
    split
    · exact hf
    · exact ih (Fields.line_fits hf l)

theorem parse_fits {s : Text} {rec : KbRecord} (h : parse s = some rec) : rec.seen < 2 ^ 32 := by
  rw [parse_eq, frontmatter] at h
  obtain ⟨f, hf, hrec⟩ := Option.bind_eq_some_iff.mp h
  obtain ⟨_, _, _, rfl⟩ := record_eq_some hrec
  have hnone : Fields.none.seen < 2 ^ 32 := Nat.two_pow_pos 32
  split at hf
  · cases hf
  · split at hf
    · cases hf
    · split at hf
      · obtain rfl := Option.some.inj hf
        exact scan_fits hnone _
      · cases hf

end Kb

/-- The entries that were there keep their counters, new ones stand behind them, and no entry
becomes dirty. -/
structure Extended (t t' : List KnownIssue) : Prop where
  kept : (t'.take t.length).map KnownIssue.clear = t.map KnownIssue.clear
  new : ∀ i ∈ t'.drop t.length, i.seen < 2 ^ 32
  clean (h : ∀ i ∈ t, i.dirty = false) : ∀ i ∈ t', i.dirty = false

theorem extended_clear {t t' : List KnownIssue}
    (h : t'.map KnownIssue.clear = t.map KnownIssue.clear)
    (hclean : (∀ i ∈ t, i.dirty = false) → ∀ i ∈ t', i.dirty = false) : Extended t t' := by
  have hlen : t'.length = t.length := by
    simpa only [List.length_map] using congrArg List.length h
  refine ⟨?_, ?_, hclean⟩
  · rw [← hlen, List.take_length]
    exact h
  · rw [← hlen, List.drop_length]
    exact List.forall_mem_nil _

theorem Extended.refl (t : List KnownIssue) : Extended t t := extended_clear rfl id

theorem extended_append (t : List KnownIssue) {i : KnownIssue} (hi : i.seen < 2 ^ 32)
    (hclean : i.dirty = false) : Extended t (t ++ [i]) := by
  refine ⟨?_, ?_, fun h => List.forall_mem_append.mpr ⟨h, List.forall_mem_singleton.mpr hclean⟩⟩
  · rw [List.take_left' rfl]
  · rw [List.drop_left' rfl]
    exact List.forall_mem_singleton.mpr hi

theorem extended_install {h : Heal} {id title playbook : Text} {matchCause : Option Text}
    {seen : Nat} {escalated : Bool} {start : Nat} (hseen : seen < 2 ^ 32) :
    Extended h.table
      (h.install id title playbook matchCause seen escalated start).1.table := by
  obtain hfull | htable :=
    Heal.install_table h id title playbook matchCause seen escalated start
  · rw [hfull]
    exact .refl _
  · rw [htable]
    exact extended_append _ hseen rfl

/-- The task extends the table, in each of its own steps. -/
abbrev Extends {α : Type} (p : Io α) : Prop :=
  Prog.Acts (fun w w' : World => Extended w.heal.table w'.heal.table) p

section Extends

open Prog

theorem extends_modify {u : World → World} (hu : ∀ w, (u w).heal = w.heal) :
    Extends (Prog.modify u) :=
  acts_modify fun w => by rw [hu]; exact .refl _

theorem extends_read {α : Type} (g : World → α) : Extends (Prog.read g) :=
  acts_read (fun _ => .refl _) g

theorem extends_onHeal {α : Type} {g : Heal → α × Heal}
    (hg : ∀ h, Extended h.table (g h).2.table) : Extends (onHeal g) :=
  acts_update fun w => hg w.heal

theorem extends_fsReadBlock (n : UInt32) : Extends (fsReadBlock n) := by
  refine (extends_read _).bind fun cached => ?_
  split
  · trivial
  · refine (acts_request _).bind fun status => ?_
    split
    · exact (extends_modify fun _ => rfl).bind fun _ => trivial
    · exact (extends_modify fun _ => rfl).bind fun _ => trivial

theorem extends_fsCopyBlock (n : UInt32) : Extends (fsCopyBlock n) := by
  refine (extends_fsReadBlock n).bind fun ok => ?_
  split
  · exact (extends_read _).bind fun _ => trivial
  · trivial

theorem extends_fsWriteBlock (n : UInt32) (bytes : List UInt8) : Extends (fsWriteBlock n bytes) :=
  (extends_modify fun _ => rfl).bind fun _ => (extends_modify fun _ => rfl).bind fun _ =>
    (extends_modify fun _ => rfl).bind fun _ => (acts_request _).bind fun _ => trivial

theorem extends_fsCommit (plan : AppendPlan) (dirBlock : UInt32) (contents : List UInt8) :
    Extends (fsCommit plan dirBlock contents) := by
  refine (extends_fsWriteBlock _ _).bind fun _ => ?_
  split
  · refine (extends_fsWriteBlock _ _).bind fun _ => ?_
    split
    · refine (extends_fsWriteBlock _ _).bind fun _ => ?_
      split
      · trivial
      · trivial
    · trivial
  · trivial

theorem extends_fsAppendFile (name : Text) (contents : List UInt8) :
    Extends (fsAppendFile name contents) := by
  unfold fsAppendFile
  split
  · trivial
  · refine (extends_fsCopyBlock 0).bind fun sbBuf => ?_
    split
    · trivial
    · split
      · trivial
      · refine (extends_fsCopyBlock _).bind fun dirBuf => ?_
        split
        · trivial
        · refine (acts_lift _).bind fun plan => ?_
          split
          · trivial
          · exact extends_fsCommit _ _ _

theorem extends_fsReadBlocks (start : UInt32) (len : Nat) (i n : Nat) (buf : Text) :
    Extends (fsReadBlocks start len i n buf) := by
  induction n generalizing i buf with
  | zero => trivial
  | succ n ih =>
    refine (acts_lift _).bind fun block => (extends_fsCopyBlock block).bind fun blk => ?_
    split
    · trivial
    · exact ih _ _

theorem extends_fsReadExtentHead (start byteLen : UInt32) :
    Extends (fsReadExtentHead start byteLen) := by
  unfold fsReadExtentHead
  generalize blockCount byteLen = b
  refine (acts_lift b).bind fun count => ?_
  exact extends_fsReadBlocks start _ 0 _ []

theorem extends_loadEntries (dir : List UInt8) (idx : List Nat) :
    Extends (loadEntries dir idx) := by
  induction idx with
  | nil => trivial
  | cons i idx ih =>
    unfold loadEntries
    split
    · trivial
    · refine (extends_fsReadExtentHead _ _).bind fun bytes => ?_
      split
      · exact ih
      · split
        · exact ih
        case h_2 bytes rec hrec =>
          refine Acts.bind ?_ fun _ => ih
          unfold installRecord
          split
          · exact extends_onHeal fun h => extended_install (Kb.parse_fits hrec)
          · trivial

theorem extends_kbLoader : Extends kbLoader := by
  refine (extends_fsCopyBlock 0).bind fun sbBuf => ?_
  split
  · trivial
  · split
    · trivial
    · refine (extends_fsCopyBlock _).bind fun dir => ?_
      split
      · trivial
      · exact extends_loadEntries _ _

theorem extends_recordNovel (token : Text) : Extends (recordNovel token) := by
  refine (extends_read _).bind fun max => (acts_lift _).bind fun num => ?_
  split
  · trivial
  · refine (extends_fsAppendFile _ _).bind fun start => ?_
    split
    · trivial
    · exact (extends_onHeal fun h => extended_install (Nat.two_pow_pos 32)).bind fun _ => trivial

theorem extends_persistOne : Extends persistOne := by
  refine (extends_onHeal fun h => extended_clear (Heal.dirtySlot_clear h.table) fun hclean => ?_).bind
    fun r => ?_
  · rw [Heal.dirtyEntry, Tandem.dirtySlot_clean hclean]
    exact hclean
  split
  · trivial
  · refine (extends_fsCopyBlock _).bind fun block => ?_
    split
    · trivial
    · split
      · trivial
      · exact (extends_fsWriteBlock _ _).bind fun _ => trivial

end Extends

end Perenne

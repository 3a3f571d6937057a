import Perenne.TrapFrame
import Mathlib.Data.List.Basic

namespace Perenne

/-- The bytes of a `&str`. -/
abbrev Text := List UInt8

def utf8 (s : String) : Text := s.toUTF8.data.toList

/-- `str::is_char_boundary`: the end of the string, or a byte that is not a
continuation byte. -/
def isCharBoundary (s : Text) (k : Nat) : Bool :=
  match s[k]? with
  | some b => b &&& 0xC0 != 0x80
  | none => k == s.length

/-- The loop of `Buf::from_str`: step back to a character boundary. -/
def boundaryBelow (s : Text) : Nat → Nat
  | 0 => 0
  | k + 1 => if isCharBoundary s (k + 1) then k + 1 else boundaryBelow s k

theorem boundaryBelow_le (s : Text) (k : Nat) : boundaryBelow s k ≤ k := by
  induction k with
  | zero => exact le_rfl
  | succ k ih =>
    unfold boundaryBelow
    split
    · exact le_rfl
    · exact ih.trans (Nat.le_succ k)

/-- `Buf<N>`: an owned string of at most `N` bytes. -/
structure Buf (N : Nat) where
  text : Text
  fits : text.length ≤ N
deriving DecidableEq

/-- `Buf::from_str`: the prefix that fits, cut at a character boundary. -/
def Buf.fromStr (N : Nat) (s : Text) : Buf N where
  text := s.take (boundaryBelow s (min s.length N))
  fits := (List.length_take_le _ _).trans
    ((boundaryBelow_le _ _).trans (Nat.min_le_right _ _))

structure KnownIssue where
  id : Buf 16
  title : Buf 96
  playbook : Buf 256
  matchCause : Buf 24
  seen : Nat
  escalated : Bool
  startBlock : Nat
  dirty : Bool
deriving DecidableEq

/-- `KnownIssue::new`. -/
def KnownIssue.new (id title playbook matchCause : Text) (seen : Nat) (escalated : Bool)
    (startBlock : Nat) : KnownIssue :=
  ⟨.fromStr 16 id, .fromStr 96 title, .fromStr 256 playbook, .fromStr 24 matchCause,
    seen, escalated, startBlock, false⟩

/-- `MAX_ISSUES`. -/
def maxIssues : Nat := 8

/-- `ESCALATE_AT`. -/
def escalateAt : Nat := 6

/-- The statics of `heal.rs`: the filled part of `KB_TABLE`, `LAST_DIAGNOSIS`
and `NOVEL_TOKEN`. -/
structure Heal where
  table : List KnownIssue
  lastDiagnosis : Option KnownIssue
  novelToken : Option Text
deriving DecidableEq

namespace Heal

def empty : Heal := ⟨[], none, none⟩

/-- `cause_token`. -/
def causeToken : Cause → Option Text
  | .loadPageFault | .storePageFault | .instructionPageFault => some (utf8 "page-fault")
  | .illegalInstruction => some (utf8 "illegal-instruction")
  | _ => none

/-- `install`: refused once the table is full. -/
def install (h : Heal) (id title playbook : Text) (matchCause : Option Text) (seen : Nat)
    (escalated : Bool) (startBlock : Nat) : Heal × Bool :=
  if h.table.length ≥ maxIssues then (h, false)
  else ({ h with table := h.table ++
      [.new id title playbook (matchCause.getD []) seen escalated startBlock] }, true)

/-- `match_issue`, as the position of the entry it returns a reference to. -/
def matchIssue (table : List KnownIssue) (cause : Cause) : Option Nat :=
  match causeToken cause with
  | none => none
  | some token => table.findIdx? fun i => i.matchCause.text == token

/-- `diagnose`. -/
def diagnose (h : Heal) (cause : Cause) : Option Nat := matchIssue h.table cause

/-- `u32::saturating_add(1)`. -/
def saturatingSucc (n : Nat) : Nat := min (n + 1) (2 ^ 32 - 1)

/-- The counter update `note_diagnosis` makes in one entry. -/
def bump (i : KnownIssue) : KnownIssue :=
  let seen := saturatingSucc i.seen
  { i with seen, dirty := true, escalated := i.escalated || decide (escalateAt ≤ seen) }

/-- `note_diagnosis`: copy the entry out, then update the first entry with its id. -/
def noteDiagnosis (h : Heal) (pos : Nat) : Heal :=
  match h.table[pos]? with
  | none => h
  | some issue =>
    { h with
      lastDiagnosis := some issue
      table := match h.table.findIdx? fun i => i.id.text == issue.id.text with
        | none => h.table
        | some k => h.table.modify k bump }

/-- `note_unmatched`: latch the token unless one is still waiting. -/
def noteUnmatched (h : Heal) (cause : Cause) : Heal :=
  match causeToken cause, h.novelToken with
  | some token, none => { h with novelToken := some token }
  | _, _ => h

/-- The crash path's consultation of the table: the updated statics, and whether the
diagnosed issue is now escalated, so that the component is quarantined. -/
def onCrash (h : Heal) (cause : Cause) : Heal × Bool :=
  match h.diagnose cause with
  | some pos =>
    let h := h.noteDiagnosis pos
    (h, (h.table[pos]?.map KnownIssue.escalated).getD false)
  | none => (h.noteUnmatched cause, false)

end Heal

end Perenne

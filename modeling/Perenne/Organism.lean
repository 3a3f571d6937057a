import Perenne.Kb
import Perenne.Blk

/-!
# The loader and the writer of the knowledge base

`kb_loader_task` and `kb_writer_task`: the first fills the runtime table from the disk at
boot, the second records new fault classes and rewrites counters in place.
-/

namespace Perenne

namespace Heal

/-- `take_novel`. -/
def takeNovel (h : Heal) : Option Text × Heal := (h.novelToken, { h with novelToken := none })

/-- The number in an id of the form `KB-NNNN`. -/
def kbNumber (i : KnownIssue) : Option Nat := (stripPrefix (utf8 "KB-") i.id.text).bind parseU32

/-- `max_kb_number`. -/
def maxKbNumber (h : Heal) : Nat := (h.table.filterMap kbNumber).foldl max 0

/-- The loop of `dirty_entry`: entries that cannot be persisted are cleared on the way. -/
def dirtySlot : List KnownIssue → Option KnownIssue × List KnownIssue
  | [] => (none, [])
  | i :: rest =>
    if i.dirty then
      if i.startBlock ≠ 0 then (some i, { i with dirty := false } :: rest)
      else ((dirtySlot rest).1, { i with dirty := false } :: (dirtySlot rest).2)
    else ((dirtySlot rest).1, i :: (dirtySlot rest).2)

/-- `dirty_entry`: one entry that changed, with its flag cleared. -/
def dirtyEntry (h : Heal) : Option KnownIssue × Heal :=
  ((dirtySlot h.table).1, { h with table := (dirtySlot h.table).2 })

end Heal

/-- An operation on the statics of `heal.rs`. -/
def onHeal {α : Type} (g : Heal → α × Heal) : Io α :=
  Prog.update fun w => ((g w.heal).1, { w with heal := (g w.heal).2 })

/-- `KB_HEAD_BLOCKS`. -/
def kbHeadBlocks : Nat := 2

/-- `FS_FILEBUF_LEN`. -/
def fsFilebufLen : Nat := 4096

/-- The loop of `fs_read_extent_head`: blocks `i`, `i + 1`, ... of the extent, `len` bytes
in all. -/
def fsReadBlocks (start : UInt32) (len : Nat) : (i n : Nat) → Text → Io (Option Text)
  | _, 0, buf => return some buf
  | i, n + 1, buf => do
    let block ← Prog.lift (addU32 start (.ofNat i))
    match ← fsCopyBlock block with
    | none => return none
    | some blk =>
      fsReadBlocks start len (i + 1) n (buf ++ blk.list.take (min blockSize (len - i * blockSize)))

/-- `fs_read_extent_head`. -/
@[irreducible] def fsReadExtentHead (start byteLen : UInt32) : Io (Option Text) := do
  let count ← Prog.lift (blockCount byteLen)
  let nblocks := min count.toNat kbHeadBlocks
  let len := min (min byteLen.toNat (nblocks * blockSize)) fsFilebufLen
  fsReadBlocks start len 0 nblocks []

/-- `heal::install` of a parsed record that names a cause. -/
def installRecord (rec : KbRecord) (start : UInt32) : Io Bool :=
  if rec.matchCause.isSome then
    onHeal fun h =>
      let r := h.install rec.id rec.title rec.playbook rec.matchCause rec.seen rec.escalated
        start.toNat
      (r.2, r.1)
  else return false

/-- The loop of `kb_loader_task` over the directory. -/
def loadEntries (dir : List UInt8) : List Nat → Io Unit
  | [] => return ()
  | i :: rest =>
    match dirEntryAt dir i with
    | none => return ()
    | some ent => do
      match ← fsReadExtentHead ent.startBlock ent.byteLen with
      | none => loadEntries dir rest
      | some bytes =>
        match Kb.parse bytes with
        | none => loadEntries dir rest
        | some rec => do
          let _ ← installRecord rec ent.startBlock
          loadEntries dir rest

/-- `kb_loader_task` with a disk, up to the release of the gate. -/
def kbLoader : Io Unit := do
  match ← fsCopyBlock 0 with
  | none => return ()
  | some sbBuf =>
    match Superblock.decode sbBuf.list with
    | none => return ()
    | some sb =>
      match ← fsCopyBlock sb.dirBlock with
      | none => return ()
      | some dir => loadEntries dir.list (List.range sb.dirEntries.toNat)

/-- `DEFAULT_PLAYBOOK`. -/
def defaultPlaybook : Text := utf8 "Restart the component, up to a bounded number of retries."

/-- The minted id: `KB-` and four digits. -/
def mintId (num : Nat) : Text := utf8 "KB-" ++ toDigits 4 num

/-- The title, in a buffer of 96 bytes. -/
def mintTitle (token : Text) : Text :=
  let title := (utf8 "Observed fault: " ++ token ++ utf8 " (auto-recorded)").take 96
  if validUtf8 title then title else utf8 "Observed fault"

/-- What `kb_writer_task` does with a novel token: mint an entry, append it, install it.
Whether it was recorded to disk. -/
def recordNovel (token : Text) : Io Bool := do
  let max ← Prog.read fun w => w.heal.maxKbNumber
  let num ← Prog.lift (if max + 1 < 2 ^ 32 then .ok (max + 1) else .error .overflow)
  match Kb.serialize (mintId num) (mintTitle token) defaultPlaybook token blockSize with
  | none => return false
  | some doc =>
    match ← fsAppendFile (mintId num) doc with
    | none => return false
    | some start =>
      let _ ← onHeal fun h =>
        let r := h.install (mintId num) (mintTitle token) defaultPlaybook (some token) 0 false
          start.toNat
        (r.2, r.1)
      return true

/-- The block with both counters of the entry. -/
def updatedBlock (block : Text) (issue : KnownIssue) : Option Text :=
  match Kb.setSeenInBlock block issue.seen with
  | none => none
  | some block => Kb.setEscalatedInBlock block issue.escalated

/-- One round of the persist loop; `false` when no entry is dirty. -/
def persistOne : Io Bool := do
  match ← onHeal Heal.dirtyEntry with
  | none => return false
  | some issue =>
    match ← fsCopyBlock (.ofNat issue.startBlock) with
    | none => return true
    | some block =>
      match updatedBlock block.list issue with
      | none => return true
      | some block => do
        let _ ← fsWriteBlock (.ofNat issue.startBlock) block
        return true

end Perenne

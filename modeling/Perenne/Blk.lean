import Perenne.Fs
import Perenne.Lib.Prog
import Mathlib.Data.Nat.Bitwise

namespace Perenne

/-- What the filesystem tasks work on: the disk, the data page of the DMA frame,
`FS_CACHED_BLOCK`, and the statics of `heal.rs`. -/
structure World where
  disk : Nat → Block
  page : Block
  cached : Int
  heal : Heal

/-- A kernel task: it may panic, and it blocks in `call_message` on the block server. -/
abbrev Io := Prog Panic Nat Nat World

/-- How the device meets a request: it does it, or reports an error. After an error a
write may have reached the disk or not, and a read may have left anything in the page. -/
inductive Fate where
  | done
  | failed (status : Nat) (stored : Bool) (page : Block)

/-- `BLK_WRITE_FLAG`. -/
def blkWriteFlag : Nat := 2 ^ 31

namespace World

/-- `blk_req`: one sector between the data page and the disk. -/
def transfer (w : World) (write : Bool) (sector : Nat) : World :=
  if write then { w with disk := Function.update w.disk sector w.page }
  else { w with page := w.disk sector }

/-- What an erroneous request leaves behind. -/
def spoil (w : World) (write : Bool) (sector : Nat) (stored : Bool) (page : Block) : World :=
  if write then (if stored then w.transfer true sector else w) else { w with page }

/-- The loop body of `blk_component`: the badge is the block number, with
`BLK_WRITE_FLAG` for a write, and the reply is the status byte. -/
def serve (fate : Fate) (w : World) (badge : Nat) : Option (Nat × World) :=
  let write := badge &&& blkWriteFlag != 0
  let block := badge - (badge &&& blkWriteFlag)
  match fate with
  | .done => some (0, w.transfer write block)
  | .failed status stored page =>
    if status = 0 then none else some (status, w.spoil write block stored page)

def Coherent (w : World) : Prop := ∀ n : Nat, w.cached = n → w.page = w.disk n

end World

/-- `fs_read_block`: whether the data page holds the block. -/
def fsReadBlock (n : UInt32) : Io Bool := do
  let cached ← Prog.read World.cached
  if cached = n.toNat then return true
  else
    let status ← Prog.request n.toNat
    if status ≠ 0 then
      Prog.modify fun w => { w with cached := -1 }
      return false
    else
      Prog.modify fun w => { w with cached := n.toNat }
      return true

/-- `fs_read_block`, and a copy of the page it returned a view of. -/
def fsCopyBlock (n : UInt32) : Io (Option Block) := do
  if ← fsReadBlock n then
    let page ← Prog.read World.page
    return some page
  else return none

/-- `fs_write_block`: fill the page, pad it, drop the cache tag, ask for the write. -/
def fsWriteBlock (n : UInt32) (bytes : List UInt8) : Io Bool := do
  Prog.modify fun w =>
    { w with page := .pad blockSize (splice w.page.list 0 (bytes.take blockSize)) }
  Prog.modify fun w => { w with page := .pad blockSize (w.page.list.take bytes.length) }
  Prog.modify fun w => { w with cached := -1 }
  let status ← Prog.request (n.toNat ||| blkWriteFlag)
  return status == 0

/-- The writes of `fs_append_file`: data, directory, superblock. -/
def fsCommit (plan : AppendPlan) (dirBlock : UInt32) (contents : List UInt8) :
    Io (Option UInt32) := do
  if ← fsWriteBlock plan.startBlock contents then
    if ← fsWriteBlock dirBlock plan.dirBlock.list then
      if ← fsWriteBlock 0 (plan.newSuperblock.encode (List.replicate blockSize 0)) then
        return some plan.startBlock
      else return none
    else return none
  else return none

/-- `fs_append_file`. -/
def fsAppendFile (name : Text) (contents : List UInt8) : Io (Option UInt32) := do
  if contents.length > blockSize then return none
  else
    match ← fsCopyBlock 0 with
    | none => return none
    | some sbBuf =>
      match Superblock.decode sbBuf.list with
      | none => return none
      | some sb =>
        match ← fsCopyBlock sb.dirBlock with
        | none => return none
        | some dirBuf =>
          match ← Prog.lift (appendPlan sb dirBuf.list name (.ofNat contents.length)) with
          | none => return none
          | some plan => fsCommit plan sb.dirBlock contents

end Perenne

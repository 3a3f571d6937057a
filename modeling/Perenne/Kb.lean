import Perenne.Str
import Perenne.Fs

namespace Perenne

/-- `KbRecord`. -/
structure KbRecord where
  id : Text
  title : Text
  playbook : Text
  matchCause : Option Text
  seen : Nat
  escalated : Bool
deriving DecidableEq

namespace Kb

/-- `clean`: trimmed, without one pair of double quotes. -/
def clean (v : Text) : Text :=
  let v := trim v
  let v := (stripPrefix [34] v).getD v
  trim ((stripSuffix [34] v).getD v)

/-- The variables of `parse`. -/
structure Fields where
  id : Option Text
  title : Option Text
  playbook : Option Text
  matchCause : Option Text
  seen : Nat
  escalated : Bool
  inPlaybook : Bool
deriving DecidableEq

def Fields.none : Fields := ⟨.none, .none, .none, .none, 0, false, false⟩

/-- The item of a list line, where it is wanted. -/
def Fields.item (f : Fields) (line : Text) : Option Text :=
  if f.inPlaybook && f.playbook.isNone then stripPrefix (utf8 "- ") (trimStart line) else .none

/-- The `match` on the key. -/
def Fields.set (f : Fields) (key value : Text) : Fields :=
  if key = utf8 "id" then { f with id := some (clean value) }
  else if key = utf8 "title" then { f with title := some (clean value) }
  else if key = utf8 "match-cause" then { f with matchCause := some (clean value) }
  else if key = utf8 "seen" then { f with seen := (parseU32 (clean value)).getD 0 }
  else if key = utf8 "escalated" then { f with escalated := clean value == utf8 "1" }
  else if key = utf8 "playbook" then { f with inPlaybook := true }
  else f

/-- The body of the loop, past the test for the closing fence. -/
def Fields.line (f : Fields) (line : Text) : Fields :=
  match f.item line with
  | some item => { f with playbook := some (clean item) }
  | .none => match splitOnce 58 line with
    | some (key, value) => f.set (trim key) value
    | .none => f

/-- The loop of `parse`, which the closing fence ends. -/
def scan (f : Fields) : List Text → Fields
  | [] => f
  | line :: rest => if trim line = utf8 "---" then f else scan (f.line line) rest

/-- `parse`. -/
def parse (bytes : Text) : Option KbRecord :=
  if validUtf8 bytes = false then none
  else match lines bytes with
    | [] => none
    | first :: rest =>
      if trim first ≠ utf8 "---" then none
      else
        let f := scan .none rest
        match f.id, f.title, f.playbook with
        | some id, some title, some playbook =>
          some ⟨id, title, playbook, f.matchCause, f.seen, f.escalated⟩
        | _, _, _ => none

/-- The strings `serialize` emits. -/
def document (id title playbook matchCause : Text) : List Text :=
  [utf8 "---\n", utf8 "id: ", id, utf8 "\n", utf8 "title: \"", title, utf8 "\"\n",
    utf8 "match-cause: ", matchCause, utf8 "\n", utf8 "seen: 00000\n", utf8 "escalated: 0\n",
    utf8 "playbook:\n", utf8 "  - \"", playbook, utf8 "\"\n", utf8 "---\n"]

/-- `serialize`, into a buffer of `room` bytes: what is written, if all of it fits. -/
def serialize (id title playbook matchCause : Text) (room : Nat) : Option Text :=
  (document id title playbook matchCause).foldlM
    (fun out s => if out.length + s.length > room then none else some (out ++ s)) []

/-- `SEEN_WIDTH`. -/
def seenWidth : Nat := 5

def findKey (block key : Text) : Option Nat :=
  (List.range (block.length + 1 - key.length)).find? fun i => slice block i key.length == key

/-- `set_uint_field`: overwrite the digits behind the key's first occurrence, if there
are `width` of them. -/
def setUintField (block key : Text) (value width : Nat) : Option Text :=
  match findKey block key with
  | none => none
  | some pos =>
    let start := pos + key.length
    if start + width > block.length ∨ ¬ (slice block start width).all isDigit then none
    else some (splice block start (toDigits width (min value (10 ^ width - 1))))

/-- `set_seen_in_block`. -/
def setSeenInBlock (block : Text) (count : Nat) : Option Text :=
  setUintField block (utf8 "seen: ") count seenWidth

/-- `set_escalated_in_block`. -/
def setEscalatedInBlock (block : Text) (escalated : Bool) : Option Text :=
  setUintField block (utf8 "escalated: ") escalated.toNat 1

end Kb

end Perenne

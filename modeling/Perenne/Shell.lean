import Perenne.Str

/-!
# The line discipline of the shell

`LineBuffer` collects what is typed and says what to echo. A terminal that follows the echoes
shows the line that will be executed, whatever is typed.
-/

namespace Perenne

namespace Shell

/-- `CAP`. -/
def cap : Nat := 64

/-- `LineEvent`. -/
inductive LineEvent where
  | none
  | echo (byte : UInt8)
  | backspace
  | line
deriving DecidableEq

/-- `LineBuffer`. -/
structure LineBuffer where
  buf : Vector UInt8 cap
  len : Nat

namespace LineBuffer

/-- `LineBuffer::new`. -/
def new : LineBuffer := ⟨Vector.replicate cap 0, 0⟩

/-- `push`. -/
def push (self : LineBuffer) (byte : UInt8) : LineBuffer × LineEvent :=
  if byte = 13 ∨ byte = 10 then (self, .line)
  else if byte = 0x08 ∨ byte = 0x7f then
    if 0 < self.len then ({ self with len := self.len - 1 }, .backspace) else (self, .none)
  else if 0x20 ≤ byte ∧ byte ≤ 0x7e then
    if h : self.len < cap then (⟨self.buf.set self.len byte h, self.len + 1⟩, .echo byte)
    else (self, .none)
  else (self, .none)

/-- `buf[..len]`. -/
def text (self : LineBuffer) : Text := self.buf.toList.take self.len

/-- `take`, which stops where the slice is out of range. -/
def take (self : LineBuffer) : Option (LineBuffer × Text) :=
  if self.len ≤ cap then
    some ({ self with len := 0 }, if validUtf8 self.text then self.text else [])
  else none

end LineBuffer

/-- A terminal: the lines that are finished, and the one the cursor is on. -/
structure Terminal where
  above : List Text
  line : Text

/-- What an event does to the terminal. -/
def Terminal.react (t : Terminal) : LineEvent → Terminal
  | .none => t
  | .echo byte => { t with line := t.line ++ [byte] }
  | .backspace => { t with line := t.line.dropLast }
  | .line => ⟨t.above ++ [t.line], []⟩

/-- The shell, its terminal, and the commands it was given. -/
structure Session where
  buffer : LineBuffer
  terminal : Terminal
  taken : List Text

def Session.start : Session := ⟨.new, ⟨[], []⟩, []⟩

def Session.feed (s : Session) (byte : UInt8) : Option Session :=
  let r := s.buffer.push byte
  match r.2 with
  | .line => r.1.take.map fun t => ⟨t.1, s.terminal.react .line, s.taken ++ [t.2]⟩
  | event => some ⟨r.1, s.terminal.react event, s.taken⟩

def Session.run (s : Session) (bytes : List UInt8) : Option Session := bytes.foldlM Session.feed s

def isEnter (b : UInt8) : Bool := b == 13 || b == 10

def isPrintable (b : UInt8) : Bool := decide (0x20 ≤ b) && decide (b ≤ 0x7e)

def edit (line : Text) (b : UInt8) : Text :=
  if b = 0x08 ∨ b = 0x7f then line.dropLast
  else if isPrintable b = true ∧ line.length < cap then line ++ [b]
  else line

def typed (bytes : List UInt8) : Text := bytes.foldl edit []

theorem validUtf8_printable {s : Text} (h : ∀ b ∈ s, isPrintable b = true) : validUtf8 s = true := by
  induction s with
  | nil => rfl
  | cons a s ih =>
    have ha : a < 0x80 := by
      have hle := (Bool.and_eq_true_iff.mp (h a (.head _))).2
      exact UInt8.lt_of_le_of_lt (of_decide_eq_true hle) (by decide)
    rw [validUtf8_ascii ha]
    exact ih fun b hb => h b (.tail _ hb)

namespace LineBuffer

variable {self : LineBuffer}

theorem length_text (h : self.len ≤ cap) : self.text.length = self.len := by
  rw [text, List.length_take, Vector.length_toList, Nat.min_eq_left h]

theorem text_erase (h : self.len ≤ cap) :
    { self with len := self.len - 1 }.text = self.text.dropLast := by
  rw [List.dropLast_eq_take, length_text h, text, text, List.take_take,
    Nat.min_eq_left (Nat.sub_le _ _)]

theorem text_set (byte : UInt8) (h : self.len < cap) :
    (⟨self.buf.set self.len byte h, self.len + 1⟩ : LineBuffer).text = self.text ++ [byte] := by
  rw [text, text, Vector.toList_set, List.take_add_one, List.take_set_of_le (Nat.le_refl _),
    List.getElem?_set_self (by simpa using h)]
  rfl

end LineBuffer

/-- The terminal shows what the buffer holds, and that is printable. -/
structure Session.Shown (s : Session) : Prop where
  line : s.terminal.line = s.buffer.text
  bound : s.buffer.len ≤ cap
  printable : ∀ b ∈ s.buffer.text, isPrintable b = true

theorem Session.start_shown : Session.start.Shown := ⟨rfl, by decide, fun b hb => (by cases hb)⟩

theorem Session.feed_of_push {s : Session} {byte : UInt8} {buffer : LineBuffer} {event : LineEvent}
    (hpush : s.buffer.push byte = (buffer, event)) (hevent : event ≠ .line) :
    s.feed byte = some ⟨buffer, s.terminal.react event, s.taken⟩ := by
  rw [Session.feed, hpush]
  cases event with
  | line => exact absurd rfl hevent
  | none => rfl
  | echo b => rfl
  | backspace => rfl

section Feed

variable {s : Session} (h : s.Shown)

include h

theorem Session.feed_enter {byte : UInt8} (hbyte : isEnter byte = true) :
    ∃ s', s.feed byte = some s' ∧ s'.Shown ∧ s'.terminal.line = [] ∧
      s'.terminal.above = s.terminal.above ++ [s.terminal.line] ∧
      s'.taken = s.taken ++ [s.terminal.line] := by
  have henter : byte = 13 ∨ byte = 10 := by simpa [isEnter] using hbyte
  refine ⟨⟨{ s.buffer with len := 0 }, s.terminal.react .line, s.taken ++ [s.terminal.line]⟩, ?_,
    ⟨rfl, Nat.zero_le _, fun b hb => (by cases hb)⟩, rfl, rfl, rfl⟩
  have hpush : s.buffer.push byte = (s.buffer, .line) := if_pos henter
  have htake : s.buffer.take = some ({ s.buffer with len := 0 }, s.terminal.line) := by
    rw [LineBuffer.take, if_pos h.bound, if_pos (validUtf8_printable h.printable), h.line]
  rw [Session.feed, hpush]
  dsimp only
  rw [htake]
  rfl

theorem Session.feed_edit {byte : UInt8} (hbyte : isEnter byte = false) :
    ∃ s', s.feed byte = some s' ∧ s'.Shown ∧ s'.terminal.line = edit s.terminal.line byte ∧
      s'.terminal.above = s.terminal.above ∧ s'.taken = s.taken := by
  have henter : ¬ (byte = 13 ∨ byte = 10) := by simpa [isEnter] using hbyte
  have hlen := LineBuffer.length_text h.bound
  -- a byte without effect on the buffer is one without effect on the line
  have hsame (hpush : s.buffer.push byte = (s.buffer, .none))
      (hedit : edit s.terminal.line byte = s.terminal.line) :
      ∃ s', s.feed byte = some s' ∧ s'.Shown ∧ s'.terminal.line = edit s.terminal.line byte ∧
        s'.terminal.above = s.terminal.above ∧ s'.taken = s.taken :=
    ⟨_, Session.feed_of_push hpush (fun h => (by cases h)), ⟨h.line, h.bound, h.printable⟩,
      hedit.symm, rfl, rfl⟩
  by_cases hback : byte = 0x08 ∨ byte = 0x7f
  · have hedit : edit s.terminal.line byte = s.terminal.line.dropLast := if_pos hback
    by_cases hpos : 0 < s.buffer.len
    · have hpush : s.buffer.push byte =
          ({ s.buffer with len := s.buffer.len - 1 }, .backspace) := by
        rw [LineBuffer.push, if_neg henter, if_pos hback, if_pos hpos]
      have htext := LineBuffer.text_erase h.bound
      refine ⟨_, Session.feed_of_push hpush (fun h => (by cases h)), ⟨?_, ?_, ?_⟩, hedit.symm, rfl, rfl⟩
      · rw [htext, ← h.line]
        rfl
      · exact Nat.le_trans (Nat.sub_le _ _) h.bound
      · rw [htext]
        exact fun b hb => h.printable b (List.dropLast_subset _ hb)
    · refine hsame ?_ ?_
      · rw [LineBuffer.push, if_neg henter, if_pos hback, if_neg hpos]
      · have hnil : s.terminal.line = [] := List.length_eq_zero_iff.mp (by rw [h.line]; omega)
        rw [hedit, hnil]
        rfl
  by_cases hprint : isPrintable byte = true
  · have hrange : 0x20 ≤ byte ∧ byte ≤ 0x7e := by simpa [isPrintable] using hprint
    by_cases hroom : s.buffer.len < cap
    · have hpush : s.buffer.push byte =
          (⟨s.buffer.buf.set s.buffer.len byte hroom, s.buffer.len + 1⟩, .echo byte) := by
        rw [LineBuffer.push, if_neg henter, if_neg hback, if_pos hrange, dif_pos hroom]
      have htext := LineBuffer.text_set byte hroom
      have hedit : edit s.terminal.line byte = s.terminal.line ++ [byte] := by
        rw [edit, if_neg hback, if_pos ⟨hprint, by rw [h.line]; omega⟩]
      refine ⟨_, Session.feed_of_push hpush (fun h => (by cases h)), ⟨?_, hroom, ?_⟩, hedit.symm, rfl,
        rfl⟩
      · rw [htext, ← h.line]
        rfl
      · rw [htext]
        intro b hb
        rcases List.mem_append.mp hb with hb | hb
        · exact h.printable b hb
        · rw [List.mem_singleton.mp hb]
          exact hprint
    · refine hsame ?_ ?_
      · rw [LineBuffer.push, if_neg henter, if_neg hback, if_pos hrange, dif_neg hroom]
      · rw [edit, if_neg hback, if_neg]
        rintro ⟨-, hlt⟩
        rw [h.line] at hlt
        omega
  · refine hsame ?_ ?_
    · rw [LineBuffer.push, if_neg henter, if_neg hback, if_neg]
      simpa [isPrintable] using hprint
    · rw [edit, if_neg hback, if_neg fun h => hprint h.1]

end Feed

/-- The lines that bytes come to, where the first is begun already. -/
def linesFrom (line : Text) (bytes : List UInt8) : List Text :=
  match bytes.splitOnP isEnter with
  | [] => []
  | first :: rest => first.foldl edit line :: rest.map typed

theorem linesFrom_start (bytes : List UInt8) :
    linesFrom [] bytes = (bytes.splitOnP isEnter).map typed := by
  rw [linesFrom]
  cases bytes.splitOnP isEnter with
  | nil => rfl
  | cons first rest => rfl

theorem linesFrom_enter (line : Text) {b : UInt8} (hb : isEnter b = true) (bytes : List UInt8) :
    linesFrom line (b :: bytes) = line :: linesFrom [] bytes := by
  rw [linesFrom_start, linesFrom, List.splitOnP_cons_eq_if_modifyHead, if_pos hb]
  rfl

theorem linesFrom_edit (line : Text) {b : UInt8} (hb : isEnter b = false) (bytes : List UInt8) :
    linesFrom line (b :: bytes) = linesFrom (edit line b) bytes := by
  rw [linesFrom, linesFrom, List.splitOnP_cons_eq_if_modifyHead, if_neg (by rw [hb]; decide)]
  cases bytes.splitOnP isEnter with
  | nil => rfl
  | cons first rest => rfl

theorem Session.run_shown {s : Session} (h : s.Shown) (bytes : List UInt8) :
    ∃ s' done line, s.run bytes = some s' ∧ s'.Shown ∧
      linesFrom s.terminal.line bytes = done ++ [line] ∧ s'.terminal.line = line ∧
      s'.terminal.above = s.terminal.above ++ done ∧ s'.taken = s.taken ++ done := by
  induction bytes generalizing s with
  | nil => exact ⟨s, [], s.terminal.line, rfl, h, rfl, rfl, by simp, by simp⟩
  | cons b bytes ih =>
    rw [Session.run, List.foldlM_cons]
    cases hb : isEnter b with
    | true =>
      obtain ⟨s₁, hfeed, hshown, hline, habove, htaken⟩ := Session.feed_enter h hb
      obtain ⟨s', done, line, hrun, hshown', hlines, hlast, habove', htaken'⟩ := ih hshown
      refine ⟨s', s.terminal.line :: done, line, ?_, hshown', ?_, hlast, ?_, ?_⟩
      · rw [hfeed]
        exact hrun
      · rw [linesFrom_enter _ hb, ← hline, hlines]
        rfl
      · rw [habove', habove, List.append_assoc]
        rfl
      · rw [htaken', htaken, List.append_assoc]
        rfl
    | false =>
      obtain ⟨s₁, hfeed, hshown, hline, habove, htaken⟩ := Session.feed_edit h hb
      obtain ⟨s', done, line, hrun, hshown', hlines, hlast, habove', htaken'⟩ := ih hshown
      refine ⟨s', done, line, ?_, hshown', ?_, hlast, ?_, ?_⟩
      · rw [hfeed]
        exact hrun
      · rw [linesFrom_edit _ hb, ← hline, hlines]
      · rw [habove', habove]
      · rw [htaken', htaken]

/-- What is on the screen is what is executed. Whatever bytes come in, the terminal shows the
contents of the buffer, which are printable and fit in it; the commands are the lines that were
shown when Enter was pressed, each the fold of the bytes since the Enter before. -/
theorem shown_is_executed (bytes : List UInt8) :
    ∃ s, Session.start.run bytes = some s ∧ s.terminal.line = s.buffer.text ∧ s.buffer.len ≤ cap ∧
      (∀ b ∈ s.buffer.text, isPrintable b = true) ∧ s.taken = s.terminal.above ∧
      (bytes.splitOnP isEnter).map typed = s.taken ++ [s.terminal.line] := by
  obtain ⟨s, done, line, hrun, hshown, hlines, hline, habove, htaken⟩ :=
    Session.run_shown Session.start_shown bytes
  refine ⟨s, hrun, hshown.line, hshown.bound, hshown.printable, ?_, ?_⟩
  · rw [htaken, habove]
    rfl
  · rw [← linesFrom_start, hline, htaken]
    exact hlines

end Shell

end Perenne

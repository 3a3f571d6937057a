import Perenne.Heal

namespace Perenne

def isCont (b : UInt8) : Bool := 0x80 ≤ b && b ≤ 0xBF

/-- `core::str::from_utf8` accepts the bytes: no stray or missing continuation bytes, no
overlong forms, no surrogates, nothing past U+10FFFF. -/
def validUtf8 : Text → Bool
  | [] => true
  | a :: s =>
    if a < 0x80 then validUtf8 s
    else match s with
      | [] => false
      | b :: s =>
        if 0xC2 ≤ a && a ≤ 0xDF then isCont b && validUtf8 s
        else match s with
          | [] => false
          | c :: s =>
            if a == 0xE0 then 0xA0 ≤ b && b ≤ 0xBF && isCont c && validUtf8 s
            else if a == 0xED then 0x80 ≤ b && b ≤ 0x9F && isCont c && validUtf8 s
            else if 0xE1 ≤ a && a ≤ 0xEF then isCont b && isCont c && validUtf8 s
            else match s with
              | [] => false
              | d :: s =>
                if a == 0xF0 then 0x90 ≤ b && b ≤ 0xBF && isCont c && isCont d && validUtf8 s
                else if a == 0xF4 then 0x80 ≤ b && b ≤ 0x8F && isCont c && isCont d && validUtf8 s
                else if 0xF1 ≤ a && a ≤ 0xF3 then isCont b && isCont c && isCont d && validUtf8 s
                else false

/-- `str::lines`: a line ends at a newline, which takes a carriage return before it along. -/
def lines : Text → List Text
  | [] => []
  | c :: s =>
    if c = 10 then [] :: lines s
    else match c, s with
      | 13, 10 :: s => [] :: lines s
      | c, s => match lines s with
        | [] => [[c]]
        | l :: ls => (c :: l) :: ls

def white₁ (a : UInt8) : Bool := 9 ≤ a && a ≤ 13 || a == 32

def white₂ (a b : UInt8) : Bool := a == 0xC2 && (b == 0x85 || b == 0xA0)

/-- U+1680, U+2000 to U+200A, U+2028, U+2029, U+202F, U+205F and U+3000. -/
def white₃ (a b c : UInt8) : Bool :=
  a == 0xE1 && b == 0x9A && c == 0x80 ||
  a == 0xE2 && b == 0x80 && (0x80 ≤ c && c ≤ 0x8A || c == 0xA8 || c == 0xA9 || c == 0xAF) ||
  a == 0xE2 && b == 0x81 && c == 0x9F ||
  a == 0xE3 && b == 0x80 && c == 0x80

/-- Drop white space from the front, given how the longer ones are spelled. -/
def dropWhite (two : UInt8 → UInt8 → Bool) (three : UInt8 → UInt8 → UInt8 → Bool) : Text → Text
  | [] => []
  | a :: s =>
    if white₁ a then dropWhite two three s
    else match s with
      | [] => [a]
      | b :: s =>
        if two a b then dropWhite two three s
        else match s with
          | [] => [a, b]
          | c :: s => if three a b c then dropWhite two three s else a :: b :: c :: s

/-- `str::trim_start`. -/
def trimStart (s : Text) : Text := dropWhite white₂ white₃ s

/-- `str::trim_end`: the same from the other end. -/
def trimEnd (s : Text) : Text :=
  (dropWhite (fun a b => white₂ b a) (fun a b c => white₃ c b a) s.reverse).reverse

/-- `str::trim`. -/
def trim (s : Text) : Text := trimEnd (trimStart s)

/-- `str::strip_prefix`. -/
def stripPrefix (pre s : Text) : Option Text :=
  if s.take pre.length = pre then some (s.drop pre.length) else none

/-- `str::strip_suffix`. -/
def stripSuffix (suf s : Text) : Option Text :=
  (stripPrefix suf.reverse s.reverse).map List.reverse

/-- `str::split_once`, at an ASCII character. -/
def splitOnce (c : UInt8) : Text → Option (Text × Text)
  | [] => none
  | b :: s => if b = c then some ([], s) else (splitOnce c s).map fun r => (b :: r.1, r.2)

/-- `u8::is_ascii_digit`. -/
def isDigit (b : UInt8) : Bool := 48 ≤ b && b ≤ 57

/-- The number a string of digits spells. -/
def digitsValue (s : Text) : Nat := s.foldl (fun n b => 10 * n + (b.toNat - 48)) 0

/-- `str::parse::<u32>`: an optional plus sign, and digits of a number that fits. -/
def parseU32 (s : Text) : Option Nat :=
  let digits := if 1 < s.length then (stripPrefix [43] s).getD s else s
  if digits ≠ [] ∧ digits.all isDigit ∧ digitsValue digits < 2 ^ 32 then some (digitsValue digits)
  else none

/-- The decimal digits of a number, zero-padded to `width` and cut to it. -/
def toDigits (width n : Nat) : Text :=
  (List.range width).reverse.map fun i => .ofNat (48 + n / 10 ^ i % 10)

theorem validUtf8_ascii {a : UInt8} (ha : a < 0x80) (s : Text) :
    validUtf8 (a :: s) = validUtf8 s := by
  rw [validUtf8.eq_def]
  exact if_pos ha

theorem lines_newline (s : Text) : lines (10 :: s) = [] :: lines s := by
  rw [lines.eq_def]
  exact if_pos rfl

theorem lines_return_newline (s : Text) : lines (13 :: 10 :: s) = [] :: lines s := by
  rw [lines.eq_def]
  rfl

theorem lines_cons_other {c : UInt8} {s : Text} (hc : c ≠ 10)
    (h : ¬ (c = 13 ∧ s.head? = some 10)) :
    lines (c :: s) = match lines s with
      | [] => [[c]]
      | l :: ls => (c :: l) :: ls := by
  rw [lines.eq_def]
  simp only [hc, if_false]
  split
  case h_1 s' _ => exact absurd ⟨rfl, rfl⟩ h
  case h_2 => rfl

theorem dropWhite_suffix (two : UInt8 → UInt8 → Bool) (three : UInt8 → UInt8 → UInt8 → Bool)
    (s : Text) : dropWhite two three s <:+ s := by
  fun_induction dropWhite two three s with
  | case1 => exact List.suffix_refl _
  | case2 a s _ ih => exact ih.trans (List.suffix_cons ..)
  | case3 => exact List.suffix_refl _
  | case4 a _ b s _ ih => exact ih.trans ((List.suffix_cons ..).trans (List.suffix_cons ..))
  | case5 => exact List.suffix_refl _
  | case6 a _ b _ c s _ ih =>
    exact ih.trans ((List.suffix_cons ..).trans ((List.suffix_cons ..).trans (List.suffix_cons ..)))
  | case7 => exact List.suffix_refl _

end Perenne

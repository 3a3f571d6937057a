import Perenne.Dt
import Perenne.Lib.Loop

namespace Perenne

namespace Net

/-- What a hostile packet might do to the kernel. -/
inductive Fault where
  | outOfBounds
  | lengthMismatch
  | overflow
  | hang
deriving DecidableEq, Repr

abbrev Checked := Except Fault

abbrev Bytes := List UInt8

def addUsize (x y : Nat) : Checked Nat := if x + y < 2 ^ 64 then .ok (x + y) else .error .overflow

def subUsize (x y : Nat) : Checked Nat := if y ≤ x then .ok (x - y) else .error .overflow

def mulUsize (x y : Nat) : Checked Nat := if x * y < 2 ^ 64 then .ok (x * y) else .error .overflow

def addU32 (x y : Nat) : Checked Nat := if x + y < 2 ^ 32 then .ok (x + y) else .error .overflow

/-- `bs[i]`. -/
def index (bs : Bytes) (i : Nat) : Checked UInt8 :=
  match bs[i]? with
  | some b => .ok b
  | none => .error .outOfBounds

/-- `bs[start..stop]`. -/
def sub (bs : Bytes) (start stop : Nat) : Checked Bytes :=
  if start ≤ stop ∧ stop ≤ bs.length then .ok (slice bs start (stop - start))
  else .error .outOfBounds

/-- `out[i] = b`. -/
def store (out : Bytes) (i : Nat) (b : UInt8) : Checked Bytes :=
  if i < out.length then .ok (out.set i b) else .error .outOfBounds

/-- `out[start..stop].copy_from_slice(part)`. -/
def copy (out : Bytes) (start stop : Nat) (part : Bytes) : Checked Bytes :=
  if start ≤ stop ∧ stop ≤ out.length then
    if part.length = stop - start then .ok (splice out start part) else .error .lengthMismatch
  else .error .outOfBounds

/-- `u16::to_be_bytes`. -/
def toBeBytes (n : Nat) : Bytes := [.ofNat (n / 256), .ofNat n]

/-- `be16`. -/
def be16 (b : Bytes) : Checked Nat := do
  let hi ← index b 0
  let lo ← index b 1
  return hi.toNat * 256 + lo.toNat

/-- `be16(&bs[start..stop])`. -/
def field (bs : Bytes) (start stop : Nat) : Checked Nat := do
  let b ← sub bs start stop
  be16 b

/-- `be16(&bs[pos + start..pos + stop])`. -/
def fieldAt (bs : Bytes) (pos start stop : Nat) : Checked Nat := do
  let start ← addUsize pos start
  let stop ← addUsize pos stop
  field bs start stop

/-- An array of `n` bytes, filled from `bs[start..stop]`. -/
def array (n : Nat) (bs : Bytes) (start stop : Nat) : Checked Bytes := do
  let part ← sub bs start stop
  copy (List.replicate n 0) 0 n part

/-- `parse_reply`. -/
def parseReply (frame : Bytes) (wantIp : Vector UInt8 4) : Checked (Option Bytes) := do
  if frame.length < 42 then return none
  let ethertype ← field frame 12 14
  if ethertype ≠ 0x0806 then return none
  let opcode ← field frame 20 22
  if opcode ≠ 2 then return none
  let ip ← sub frame 28 32
  if ip ≠ wantIp.toList then return none
  let mac ← array 6 frame 22 28
  return some mac

namespace Ipv4

/-- The loop of `checksum` over the words, and the odd byte behind them. -/
def addWords (bytes : Bytes) (s : Nat × Nat) : Checked (Iter (Nat × Nat) Nat) := do
  let (sum, i) := s
  let i1 ← addUsize i 1
  if i1 < bytes.length then
    let hi ← index bytes i
    let lo ← index bytes i1
    let sum ← addU32 sum (hi.toNat * 256 + lo.toNat)
    let i ← addUsize i 2
    return .next (sum, i)
  else if i < bytes.length then
    let b ← index bytes i
    let sum ← addU32 sum (b.toNat * 256)
    return .done sum
  else return .done sum

/-- The carries: `while sum >> 16 != 0`. -/
def foldCarry (sum : Nat) : Checked (Iter Nat Nat) := do
  if sum / 2 ^ 16 ≠ 0 then
    let sum ← addU32 (sum % 2 ^ 16) (sum / 2 ^ 16)
    return .next sum
  else return .done sum

/-- `checksum`. -/
def checksum (bytes : Bytes) : Checked Nat := do
  let sum ← Iter.run .hang (addWords bytes) (bytes.length + 1) (0, 0)
  let sum ← Iter.run .hang foldCarry (sum + 1) sum
  return 2 ^ 16 - 1 - sum % 2 ^ 16

/-- `build_header`, on the buffer it writes to. -/
def buildHeader (srcIp dstIp : Bytes) (proto : UInt8) (payloadLen ident : Nat) (out : Bytes) :
    Checked Bytes := do
  let h ← sub out 0 20
  let h ← store h 0 0x45
  let h ← store h 1 0
  let total ← addUsize 20 payloadLen
  let h ← copy h 2 4 (toBeBytes (total % 2 ^ 16))
  let h ← copy h 4 6 (toBeBytes ident)
  let h ← copy h 6 8 (toBeBytes 0)
  let h ← store h 8 64
  let h ← store h 9 proto
  let h ← copy h 10 12 (toBeBytes 0)
  let h ← copy h 12 16 srcIp
  let h ← copy h 16 20 dstIp
  let csum ← checksum h
  let h ← copy h 10 12 (toBeBytes csum)
  return splice out 0 h

end Ipv4

/-- The length of the IPv4 header, `(frame[eth] & 0x0f) as usize * 4`, if it is long enough
and the frame has eight bytes behind it. -/
def ihl (frame : Bytes) : Checked (Option Nat) := do
  let b ← index frame 14
  let ihl ← mulUsize (b &&& 0x0f).toNat 4
  if ihl < 20 then return none
  let start ← addUsize 14 ihl
  let need ← addUsize start 8
  if frame.length < need then return none
  return some ihl

namespace Udp

/-- `udp::parse`. -/
def parse (frame : Bytes) (wantDstPort : UInt16) : Checked (Option Bytes) := do
  if frame.length < 42 then return none
  let ethertype ← field frame 12 14
  if ethertype ≠ 0x0800 then return none
  let some ihl ← ihl frame | return none
  let proto ← index frame 23
  if proto ≠ 17 then return none
  let u ← addUsize 14 ihl
  let port ← fieldAt frame u 2 4
  if port ≠ wantDstPort.toNat then return none
  let ulen ← fieldAt frame u 4 6
  if ulen < 8 then return none
  let stop ← addUsize u ulen
  if stop > frame.length then return none
  let start ← addUsize u 8
  let payload ← sub frame start stop
  return some payload

end Udp

namespace Dhcp

/-- The loop of `option`. -/
def optionRound (opts : Bytes) (code : UInt8) (i : Nat) : Checked (Iter Nat (Option Bytes)) := do
  if i < opts.length then
    let c ← index opts i
    if c = 0 then
      let i ← addUsize i 1
      return .next i
    else if c = 255 then return .done none
    else
      let i1 ← addUsize i 1
      if i1 ≥ opts.length then return .done none
      let len ← index opts i1
      let i2 ← addUsize i 2
      let stop ← addUsize i2 len.toNat
      if stop > opts.length then return .done none
      if c = code then
        let value ← sub opts i2 stop
        return .done (some value)
      let step ← addUsize 2 len.toNat
      let i ← addUsize i step
      return .next i
  else return .done none

/-- `option`. -/
def option (opts : Bytes) (code : UInt8) : Checked (Option Bytes) :=
  Iter.run .hang (optionRound opts code) (opts.length + 1) 0

/-- `is_reply`. -/
def isReply (payload : Bytes) (xid : UInt32) (msgType : UInt8) : Checked Bool := do
  if payload.length < 240 then return false
  let op ← index payload 0
  if op ≠ 2 then return false
  let id ← sub payload 4 8
  if id ≠ [.ofNat (xid.toNat / 2 ^ 24), .ofNat (xid.toNat / 2 ^ 16), .ofNat (xid.toNat / 2 ^ 8),
    .ofNat xid.toNat] then return false
  let magic ← sub payload 236 240
  if magic ≠ [0x63, 0x82, 0x53, 0x63] then return false
  let opts ← sub payload 240 payload.length
  let value ← option opts 53
  return (value.bind List.head?) == some msgType

/-- `parse_ack`. -/
def parseAck (payload : Bytes) (xid : UInt32) : Checked (Option Bytes) := do
  let reply ← isReply payload xid 5
  if !reply then return none
  let ip ← array 4 payload 16 20
  return some ip

/-- `Offer`. -/
structure Offer where
  yiaddr : Bytes
  serverId : Bytes
deriving DecidableEq

/-- `parse_offer`. -/
def parseOffer (payload : Bytes) (xid : UInt32) : Checked (Option Offer) := do
  let reply ← isReply payload xid 2
  if !reply then return none
  let yiaddr ← array 4 payload 16 20
  let opts ← sub payload 240 payload.length
  let server ← option opts 54
  match server with
  | none => return some ⟨yiaddr, [0, 0, 0, 0]⟩
  | some s =>
    if s.length ≥ 4 then
      let serverId ← array 4 s 0 4
      return some ⟨yiaddr, serverId⟩
    else return some ⟨yiaddr, [0, 0, 0, 0]⟩

end Dhcp

namespace Icmp

/-- `parse_echo_reply`. -/
def parseEchoReply (frame : Bytes) (ident seq : UInt16) : Checked Bool := do
  if frame.length < 42 then return false
  let ethertype ← field frame 12 14
  if ethertype ≠ 0x0800 then return false
  let some ihl ← ihl frame | return false
  let proto ← index frame 23
  if proto ≠ 1 then return false
  let c ← addUsize 14 ihl
  let type ← index frame c
  if type ≠ 0 then return false
  let id ← fieldAt frame c 4 6
  if id ≠ ident.toNat then return false
  let number ← fieldAt frame c 6 8
  return number == seq.toNat

/-- `is_echo_request`. -/
def isEchoRequest (frame : Bytes) (ourIp : Vector UInt8 4) : Checked Bool := do
  if frame.length < 42 then return false
  let ethertype ← field frame 12 14
  if ethertype ≠ 0x0800 then return false
  let some ihl ← ihl frame | return false
  let proto ← index frame 23
  if proto ≠ 1 then return false
  let dst ← sub frame 30 34
  if dst ≠ ourIp.toList then return false
  let c ← addUsize 14 ihl
  let type ← index frame c
  return type == 8

/-- `build_echo_reply`: the length and the buffer. -/
def buildEchoReply (request out : Bytes) : Checked (Option (Nat × Bytes)) := do
  if request.length < 42 then return none
  let ethertype ← field request 12 14
  if ethertype ≠ 0x0800 then return none
  let proto ← index request 23
  if proto ≠ 1 then return none
  let some ihl ← ihl request | return none
  let src ← sub request 6 12
  let out ← copy out 0 6 src
  let dst ← sub request 0 6
  let out ← copy out 6 12 dst
  let out ← copy out 12 14 (toBeBytes 0x0800)
  let srcIp ← array 4 request 30 34
  let dstIp ← array 4 request 26 30
  let rest ← subUsize request.length 14
  let icmpLen ← subUsize rest ihl
  let h ← sub out 14 34
  let h ← Ipv4.buildHeader srcIp dstIp 1 icmpLen 0 h
  let out ← copy out 14 34 h
  let rc ← addUsize 14 ihl
  let stop ← addUsize 34 icmpLen
  let rstop ← addUsize rc icmpLen
  let msg ← sub request rc rstop
  let out ← copy out 34 stop msg
  let out ← store out 34 0
  let out ← store out 35 0
  let out ← copy out 36 38 (toBeBytes 0)
  let msg ← sub out 34 stop
  let csum ← Ipv4.checksum msg
  let out ← copy out 36 38 (toBeBytes csum)
  return some (stop, out)

end Icmp

namespace Dns

/-- The loop of `skip_name`. -/
def skipRound (payload : Bytes) (i : Nat) : Checked (Iter Nat (Option Nat)) := do
  match payload[i]? with
  | none => return .done none
  | some b =>
    if b &&& 0xc0 = 0xc0 then
      let i ← addUsize i 2
      return .done (some i)
    else if b = 0 then
      let i ← addUsize i 1
      return .done (some i)
    else
      let step ← addUsize 1 b.toNat
      let i ← addUsize i step
      return .next i

/-- `skip_name`. -/
def skipName (payload : Bytes) (i : Nat) : Checked (Option Nat) :=
  Iter.run .hang (skipRound payload) (payload.length + 1) i

def questions (payload : Bytes) : Nat → Nat → Checked (Option Nat)
  | 0, i => return some i
  | n + 1, i => do
    let some i ← skipName payload i | return none
    let i ← addUsize i 4
    questions payload n i

def answers (payload : Bytes) : Nat → Nat → Checked (Option Bytes)
  | 0, _ => return none
  | n + 1, i => do
    let some i ← skipName payload i | return none
    let i10 ← addUsize i 10
    if i10 > payload.length then return none
    let atype ← fieldAt payload i 0 2
    let rdlength ← fieldAt payload i 8 10
    let i14 ← addUsize i10 4
    if atype = 1 ∧ rdlength = 4 ∧ i14 ≤ payload.length then
      let a ← index payload i10
      let b ← index payload (i10 + 1)
      let c ← index payload (i10 + 2)
      let d ← index payload (i10 + 3)
      return some [a, b, c, d]
    let i ← addUsize i10 rdlength
    answers payload n i

/-- `parse_response`. -/
def parseResponse (payload : Bytes) (txid : UInt16) : Checked (Option Bytes) := do
  if payload.length < 12 then return none
  let id ← field payload 0 2
  if id ≠ txid.toNat then return none
  let flags ← field payload 2 4
  if flags &&& 0x8000 = 0 then return none
  let qdcount ← field payload 4 6
  let ancount ← field payload 6 8
  if ancount = 0 then return none
  let some i ← questions payload qdcount 12 | return none
  answers payload ancount i

end Dns

/-- The computation returns, and what it returns is in `P`. -/
abbrev Returns {α : Type} (P : α → Prop) (x : Checked α) : Prop := x.Meets (fun _ => False) P

section Accesses

variable {α : Type} {P : α → Prop} {x y i start stop n : Nat} {bs out part : Bytes} {b : UInt8}

theorem returns_ok {a : α} (h : P a) : Returns P (pure a : Checked α) := h

theorem returns_ite {c : Prop} [Decidable c] {p q : Checked α} (hp : c → Returns P p)
    (hq : ¬ c → Returns P q) : Returns P (if c then p else q) := by
  split
  case isTrue h => exact hp h
  case isFalse h => exact hq h

theorem addUsize_returns (h : x + y < 2 ^ 64) : Returns (· = x + y) (addUsize x y) := by
  rw [addUsize, if_pos h]
  rfl

theorem subUsize_returns (h : y ≤ x) : Returns (· = x - y) (subUsize x y) := by
  rw [subUsize, if_pos h]
  rfl

theorem addU32_returns (h : x + y < 2 ^ 32) : Returns (· = x + y) (addU32 x y) := by
  rw [addU32, if_pos h]
  rfl

theorem index_returns (h : i < bs.length) : Returns (fun _ => True) (index bs i) := by
  rw [index, List.getElem?_eq_getElem h]
  trivial

theorem sub_returns (h : start ≤ stop ∧ stop ≤ bs.length) :
    Returns (fun s => s.length = stop - start) (sub bs start stop) := by
  rw [sub, if_pos h]
  change (slice bs start (stop - start)).length = stop - start
  rw [slice, List.length_take, List.length_drop]
  omega

theorem store_returns (h : i < out.length) :
    Returns (fun s => s.length = out.length) (store out i b) := by
  rw [store, if_pos h]
  exact List.length_set

theorem copy_returns (h : start ≤ stop ∧ stop ≤ out.length) (hpart : part.length = stop - start) :
    Returns (fun s => s.length = out.length) (copy out start stop part) := by
  rw [copy, if_pos h, if_pos hpart]
  change (splice out start part).length = out.length
  rw [splice, List.length_append, List.length_append, List.length_take, List.length_drop]
  omega

theorem be16_returns (h : 2 ≤ bs.length) : Returns (· < 2 ^ 16) (be16 bs) := by
  refine (index_returns (by omega)).bind fun hi _ => (index_returns (by omega)).bind fun lo _ => ?_
  have hhi := hi.toNat_lt
  have hlo := lo.toNat_lt
  change hi.toNat * 256 + lo.toNat < 2 ^ 16
  omega

theorem field_returns (h : start + 2 ≤ stop ∧ stop ≤ bs.length) :
    Returns (· < 2 ^ 16) (field bs start stop) :=
  (sub_returns (by omega)).bind fun s hs => be16_returns (by omega)

theorem fieldAt_returns (h : start + 2 ≤ stop) (hstop : x + stop ≤ bs.length)
    (hsize : bs.length < 2 ^ 63) : Returns (· < 2 ^ 16) (fieldAt bs x start stop) := by
  refine (addUsize_returns (by omega)).bind fun a ha => ?_
  refine (addUsize_returns (by omega)).bind fun b hb => ?_
  exact field_returns (by omega)

theorem array_returns (h : start ≤ stop ∧ stop ≤ bs.length) (hn : n = stop - start) :
    Returns (fun s => s.length = n) (array n bs start stop) := by
  refine (sub_returns h).bind fun s hs => ?_
  refine (copy_returns ⟨Nat.zero_le n, ?_⟩ (by omega)).mono fun t ht => ?_
  · rw [List.length_replicate]
  · rw [ht, List.length_replicate]

theorem ihl_returns (h : 15 ≤ bs.length) :
    Returns (fun r => ∀ n, r = some n → 20 ≤ n ∧ n + 22 ≤ bs.length) (ihl bs) := by
  have hno : ∀ n, none = some n → 20 ≤ n ∧ n + 22 ≤ bs.length := fun n h => (by cases h)
  refine (index_returns (by omega)).bind fun b _ => ?_
  have hb : (b &&& 0x0f).toNat ≤ 15 := by
    rw [UInt8.toNat_and]
    exact Nat.and_le_right
  rw [mulUsize, if_pos (by omega)]
  refine returns_ite (fun _ => hno) fun hlong => ?_
  refine (addUsize_returns (by omega)).bind fun start hstart => ?_
  refine (addUsize_returns (by omega)).bind fun need hneed => ?_
  refine returns_ite (fun _ => hno) fun hfit => returns_ok fun n hn => ?_
  cases hn
  omega

end Accesses

theorem parseReply_returns (frame : Bytes) (wantIp : Vector UInt8 4) :
    Returns (fun _ => True) (parseReply frame wantIp) := by
  refine returns_ite (fun _ => trivial) fun hlen => ?_
  refine (field_returns (by omega)).bind fun ethertype _ => ?_
  refine returns_ite (fun _ => trivial) fun _ => ?_
  refine (field_returns (by omega)).bind fun opcode _ => ?_
  refine returns_ite (fun _ => trivial) fun _ => ?_
  refine (sub_returns (by omega)).bind fun ip _ => ?_
  refine returns_ite (fun _ => trivial) fun _ => ?_
  exact (array_returns (by omega) (by omega)).bind fun mac _ => trivial

theorem udp_parse_returns (frame : Dt.Blob) (wantDstPort : UInt16) :
    Returns (fun _ => True) (Udp.parse frame.bytes wantDstPort) := by
  have hsize := frame.size
  refine returns_ite (fun _ => trivial) fun hlen => ?_
  refine (field_returns (by omega)).bind fun ethertype _ => ?_
  refine returns_ite (fun _ => trivial) fun _ => ?_
  refine (ihl_returns (by omega)).bind fun r hr => ?_
  cases r with
  | none => trivial
  | some len =>
    obtain ⟨_, hlen⟩ := hr len rfl
    refine (index_returns (by omega)).bind fun proto _ => ?_
    refine returns_ite (fun _ => trivial) fun _ => ?_
    refine (addUsize_returns (by omega)).bind fun u hu => ?_
    refine (fieldAt_returns (by omega) (by omega) hsize).bind fun port _ => ?_
    refine returns_ite (fun _ => trivial) fun _ => ?_
    refine (fieldAt_returns (by omega) (by omega) hsize).bind fun ulen _ => ?_
    refine returns_ite (fun _ => trivial) fun _ => ?_
    refine (addUsize_returns (by omega)).bind fun stop hstop => ?_
    refine returns_ite (fun _ => trivial) fun _ => ?_
    refine (addUsize_returns (by omega)).bind fun start hstart => ?_
    exact (sub_returns (by omega)).bind fun payload _ => trivial

theorem option_returns (opts : Bytes) (code : UInt8) (hsize : opts.length < 2 ^ 63) :
    Returns (fun _ => True) (Dhcp.option opts code) := by
  refine Iter.run_meets (I := fun _ => True) (m := fun i => opts.length - i) (fun i _ => ?_) trivial
    (Nat.lt_succ_of_le (Nat.sub_le _ _))
  refine returns_ite (fun hi => ?_) fun _ => trivial
  refine (index_returns hi).bind fun c _ => ?_
  refine returns_ite (fun _ => ?_) fun _ => returns_ite (fun _ => trivial) fun _ => ?_
  · refine (addUsize_returns (by omega)).bind fun j hj => ?_
    exact ⟨trivial, Nat.sub_lt_sub_left hi (by omega)⟩
  · refine (addUsize_returns (by omega)).bind fun i1 hi1 => ?_
    refine returns_ite (fun _ => trivial) fun _ => ?_
    refine (index_returns (by omega)).bind fun len _ => ?_
    have hlen := len.toNat_lt
    refine (addUsize_returns (by omega)).bind fun i2 hi2 => ?_
    refine (addUsize_returns (by omega)).bind fun stop hstop => ?_
    refine returns_ite (fun _ => trivial) fun _ => ?_
    refine returns_ite (fun _ => ?_) fun _ => ?_
    · exact (sub_returns (by omega)).bind fun value _ => trivial
    · refine (addUsize_returns (by omega)).bind fun step hstep => ?_
      refine (addUsize_returns (by omega)).bind fun j hj => ?_
      exact ⟨trivial, Nat.sub_lt_sub_left hi (by omega)⟩

theorem isReply_returns (payload : Dt.Blob) (xid : UInt32) (msgType : UInt8) :
    Returns (fun r => r = true → 240 ≤ payload.bytes.length)
      (Dhcp.isReply payload.bytes xid msgType) := by
  have hsize := payload.size
  have hno : (false = true → 240 ≤ payload.bytes.length) := fun h => (by cases h)
  refine returns_ite (fun _ => hno) fun hlen => ?_
  refine (index_returns (by omega)).bind fun op _ => ?_
  refine returns_ite (fun _ => hno) fun _ => ?_
  refine (sub_returns (by omega)).bind fun id _ => ?_
  refine returns_ite (fun _ => hno) fun _ => ?_
  refine (sub_returns (by omega)).bind fun magic _ => ?_
  refine returns_ite (fun _ => hno) fun _ => ?_
  refine (sub_returns (by omega)).bind fun opts hopts => ?_
  refine (option_returns opts 53 (by omega)).bind fun value _ => ?_
  exact returns_ok fun _ => by omega

theorem parseAck_returns (payload : Dt.Blob) (xid : UInt32) :
    Returns (fun _ => True) (Dhcp.parseAck payload.bytes xid) := by
  refine (isReply_returns payload xid 5).bind fun reply hreply => ?_
  refine returns_ite (fun _ => trivial) fun hpass => ?_
  have hlen := hreply (by simpa using hpass)
  exact (array_returns (by omega) (by omega)).bind fun ip _ => trivial

theorem parseOffer_returns (payload : Dt.Blob) (xid : UInt32) :
    Returns (fun _ => True) (Dhcp.parseOffer payload.bytes xid) := by
  have hsize := payload.size
  refine (isReply_returns payload xid 2).bind fun reply hreply => ?_
  refine returns_ite (fun _ => trivial) fun hpass => ?_
  have hlen := hreply (by simpa using hpass)
  refine (array_returns (by omega) (by omega)).bind fun yiaddr _ => ?_
  refine (sub_returns (by omega)).bind fun opts hopts => ?_
  refine (option_returns opts 54 (by omega)).bind fun server _ => ?_
  cases server with
  | none => trivial
  | some s =>
    refine returns_ite (fun hs => ?_) fun _ => trivial
    exact (array_returns (by omega) (by omega)).bind fun serverId _ => trivial

theorem parseEchoReply_returns (frame : Dt.Blob) (ident seq : UInt16) :
    Returns (fun _ => True) (Icmp.parseEchoReply frame.bytes ident seq) := by
  have hsize := frame.size
  refine returns_ite (fun _ => trivial) fun hlen => ?_
  refine (field_returns (by omega)).bind fun ethertype _ => ?_
  refine returns_ite (fun _ => trivial) fun _ => ?_
  refine (ihl_returns (by omega)).bind fun r hr => ?_
  cases r with
  | none => trivial
  | some len =>
    obtain ⟨_, hlen⟩ := hr len rfl
    refine (index_returns (by omega)).bind fun proto _ => ?_
    refine returns_ite (fun _ => trivial) fun _ => ?_
    refine (addUsize_returns (by omega)).bind fun c hc => ?_
    refine (index_returns (by omega)).bind fun type _ => ?_
    refine returns_ite (fun _ => trivial) fun _ => ?_
    refine (fieldAt_returns (by omega) (by omega) hsize).bind fun id _ => ?_
    refine returns_ite (fun _ => trivial) fun _ => ?_
    exact (fieldAt_returns (by omega) (by omega) hsize).bind fun number _ => trivial

theorem isEchoRequest_returns (frame : Dt.Blob) (ourIp : Vector UInt8 4) :
    Returns (fun _ => True) (Icmp.isEchoRequest frame.bytes ourIp) := by
  have hsize := frame.size
  refine returns_ite (fun _ => trivial) fun hlen => ?_
  refine (field_returns (by omega)).bind fun ethertype _ => ?_
  refine returns_ite (fun _ => trivial) fun _ => ?_
  refine (ihl_returns (by omega)).bind fun r hr => ?_
  cases r with
  | none => trivial
  | some len =>
    obtain ⟨_, hlen⟩ := hr len rfl
    refine (index_returns (by omega)).bind fun proto _ => ?_
    refine returns_ite (fun _ => trivial) fun _ => ?_
    refine (sub_returns (by omega)).bind fun dst _ => ?_
    refine returns_ite (fun _ => trivial) fun _ => ?_
    refine (addUsize_returns (by omega)).bind fun c hc => ?_
    exact (index_returns (by omega)).bind fun type _ => trivial

theorem checksum_returns {bytes : Bytes} (h : bytes.length ≤ 65549) :
    Returns (fun _ => True) (Ipv4.checksum bytes) := by
  have hwords : Returns (· < 2 ^ 32)
      (Iter.run .hang (Ipv4.addWords bytes) (bytes.length + 1) (0, 0)) := by
    refine Iter.run_meets
      (I := fun s : Nat × Nat => 2 * s.1 ≤ s.2 * 65535 ∧ s.2 ≤ bytes.length + 1)
      (m := fun s => bytes.length - s.2) (fun s hs => ?_) ⟨Nat.le_refl 0, Nat.zero_le _⟩
      (Nat.lt_succ_of_le (Nat.sub_le _ _))
    obtain ⟨sum, i⟩ := s
    obtain ⟨hsum, hi⟩ := hs
    refine (addUsize_returns (by omega)).bind fun i1 hi1 => ?_
    refine returns_ite (fun hlt => ?_) fun _ => returns_ite (fun hlt => ?_) fun _ => ?_
    · refine (index_returns (by omega)).bind fun hi _ => ?_
      refine (index_returns (by omega)).bind fun lo _ => ?_
      have hhi := hi.toNat_lt
      have hlo := lo.toNat_lt
      refine (addU32_returns (by omega)).bind fun sum' hsum' => ?_
      refine (addUsize_returns (by omega)).bind fun j hj => ?_
      exact ⟨⟨by simp only; omega, by simp only; omega⟩, Nat.sub_lt_sub_left (by omega) (by omega)⟩
    · refine (index_returns (by omega)).bind fun b _ => ?_
      have hb := b.toNat_lt
      refine (addU32_returns (by omega)).bind fun sum' hsum' => ?_
      change sum' < 2 ^ 32
      omega
    · change sum < 2 ^ 32
      omega
  refine hwords.bind fun sum hsum => ?_
  have hcarry : Returns (fun _ => True) (Iter.run .hang Ipv4.foldCarry (sum + 1) sum) := by
    refine Iter.run_meets (I := (· < 2 ^ 32)) (m := id) (fun sum hsum => ?_) hsum (Nat.lt_succ_self _)
    refine returns_ite (fun hbig => ?_) fun _ => trivial
    refine (addU32_returns (by omega)).bind fun sum' hsum' => ?_
    exact ⟨by omega, by simp only [id_eq]; omega⟩
  exact hcarry.bind fun sum _ => trivial

theorem buildHeader_returns {srcIp dstIp out : Bytes} {proto : UInt8} {payloadLen ident : Nat}
    (hsrc : srcIp.length = 4) (hdst : dstIp.length = 4) (hout : out.length = 20)
    (hlen : payloadLen < 2 ^ 63) : Returns (fun h => h.length = 20)
      (Ipv4.buildHeader srcIp dstIp proto payloadLen ident out) := by
  have htwo (n : Nat) : (toBeBytes n).length = 2 := rfl
  refine (sub_returns (by omega)).bind fun h h0 => ?_
  refine (store_returns (by omega)).bind fun h h1 => ?_
  refine (store_returns (by omega)).bind fun h h2 => ?_
  refine (addUsize_returns (by omega)).bind fun total _ => ?_
  refine (copy_returns (by omega) (htwo _)).bind fun h h3 => ?_
  refine (copy_returns (by omega) (htwo _)).bind fun h h4 => ?_
  refine (copy_returns (by omega) (htwo _)).bind fun h h5 => ?_
  refine (store_returns (by omega)).bind fun h h6 => ?_
  refine (store_returns (by omega)).bind fun h h7 => ?_
  refine (copy_returns (by omega) (htwo _)).bind fun h h8 => ?_
  refine (copy_returns (by omega) hsrc).bind fun h h9 => ?_
  refine (copy_returns (by omega) hdst).bind fun h h10 => ?_
  refine (checksum_returns (by omega)).bind fun csum _ => ?_
  refine (copy_returns (by omega) (htwo _)).bind fun h h11 => ?_
  change (splice out 0 h).length = 20
  rw [splice, List.take_zero, List.nil_append, List.length_append, List.length_drop]
  omega

theorem buildEchoReply_returns {request out : Bytes} (hreq : request.length ≤ 65549)
    (hout : request.length ≤ out.length) :
    Returns (fun r => ∀ n out', r = some (n, out') → n ≤ request.length)
      (Icmp.buildEchoReply request out) := by
  have htwo (n : Nat) : (toBeBytes n).length = 2 := rfl
  have hno : ∀ n (out' : Bytes), none = some (n, out') → n ≤ request.length :=
    fun n out' h => (by cases h)
  refine returns_ite (fun _ => hno) fun hlen => ?_
  refine (field_returns (by omega)).bind fun ethertype _ => ?_
  refine returns_ite (fun _ => hno) fun _ => ?_
  refine (index_returns (by omega)).bind fun proto _ => ?_
  refine returns_ite (fun _ => hno) fun _ => ?_
  refine (ihl_returns (by omega)).bind fun r hr => ?_
  cases r with
  | none => exact hno
  | some len =>
    obtain ⟨hlong, hfit⟩ := hr len rfl
    refine (sub_returns (by omega)).bind fun src hsrc => ?_
    refine (copy_returns (by omega) (by omega)).bind fun out₁ h₁ => ?_
    refine (sub_returns (by omega)).bind fun dst hdst => ?_
    refine (copy_returns (by omega) (by omega)).bind fun out₂ h₂ => ?_
    refine (copy_returns (by omega) (htwo _)).bind fun out₃ h₃ => ?_
    refine (array_returns (by omega) (by omega)).bind fun srcIp hsrcIp => ?_
    refine (array_returns (by omega) (by omega)).bind fun dstIp hdstIp => ?_
    refine (subUsize_returns (by omega)).bind fun rest hrest => ?_
    refine (subUsize_returns (by omega)).bind fun icmpLen hicmp => ?_
    refine (sub_returns (by omega)).bind fun h hh => ?_
    refine (buildHeader_returns hsrcIp hdstIp hh (by omega)).bind fun h' hh' => ?_
    refine (copy_returns (by omega) hh').bind fun out₄ h₄ => ?_
    refine (addUsize_returns (by omega)).bind fun rc hrc => ?_
    refine (addUsize_returns (by omega)).bind fun stop hstop => ?_
    refine (addUsize_returns (by omega)).bind fun rstop hrstop => ?_
    refine (sub_returns (by omega)).bind fun msg hmsg => ?_
    refine (copy_returns (by omega) (by omega)).bind fun out₅ h₅ => ?_
    refine (store_returns (by omega)).bind fun out₆ h₆ => ?_
    refine (store_returns (by omega)).bind fun out₇ h₇ => ?_
    refine (copy_returns (by omega) (htwo _)).bind fun out₈ h₈ => ?_
    refine (sub_returns (by omega)).bind fun msg' hmsg' => ?_
    refine (checksum_returns (by omega)).bind fun csum _ => ?_
    refine (copy_returns (by omega) (htwo _)).bind fun out₉ h₉ => returns_ok fun n out' hn => ?_
    cases hn
    omega

theorem skipName_returns (payload : Dt.Blob) (i : Nat) :
    Returns (fun r => ∀ j, r = some j → j ≤ payload.bytes.length + 1)
      (Dns.skipName payload.bytes i) := by
  have hsize := payload.size
  have hno : ∀ j, none = some j → j ≤ payload.bytes.length + 1 := fun j h => (by cases h)
  refine Iter.run_meets (I := fun _ => True) (m := fun i => payload.bytes.length - i) (fun i _ => ?_)
    trivial (Nat.lt_succ_of_le (Nat.sub_le _ _))
  rw [Dns.skipRound]
  cases hb : payload.bytes[i]? with
  | none => exact hno
  | some b =>
    obtain ⟨hi, -⟩ := List.getElem?_eq_some_iff.mp hb
    have hlt := b.toNat_lt
    refine returns_ite (fun _ => ?_) fun _ => returns_ite (fun _ => ?_) fun _ => ?_
    · refine (addUsize_returns (by omega)).bind fun j hj => returns_ok fun k hk => ?_
      cases hk
      omega
    · refine (addUsize_returns (by omega)).bind fun j hj => returns_ok fun k hk => ?_
      cases hk
      omega
    · refine (addUsize_returns (by omega)).bind fun step hstep => ?_
      refine (addUsize_returns (by omega)).bind fun j hj => ?_
      exact ⟨trivial, Nat.sub_lt_sub_left hi (by omega)⟩

theorem questions_returns (payload : Dt.Blob) (n i : Nat) :
    Returns (fun _ => True) (Dns.questions payload.bytes n i) := by
  have hsize := payload.size
  induction n generalizing i with
  | zero => trivial
  | succ n ih =>
    refine (skipName_returns payload i).bind fun r hr => ?_
    cases r with
    | none => trivial
    | some j =>
      have hj := hr j rfl
      exact (addUsize_returns (by omega)).bind fun i _ => ih i

theorem answers_returns (payload : Dt.Blob) (n i : Nat) :
    Returns (fun _ => True) (Dns.answers payload.bytes n i) := by
  have hsize := payload.size
  induction n generalizing i with
  | zero => trivial
  | succ n ih =>
    refine (skipName_returns payload i).bind fun r hr => ?_
    cases r with
    | none => trivial
    | some j =>
      have hj := hr j rfl
      refine (addUsize_returns (by omega)).bind fun i10 h10 => ?_
      refine returns_ite (fun _ => trivial) fun hfit => ?_
      refine (fieldAt_returns (by omega) (by omega) hsize).bind fun atype _ => ?_
      refine (fieldAt_returns (by omega) (by omega) hsize).bind fun rdlength hrd => ?_
      refine (addUsize_returns (by omega)).bind fun i14 h14 => ?_
      refine returns_ite (fun hfound => ?_) fun _ => ?_
      · refine (index_returns (by omega)).bind fun a _ => ?_
        refine (index_returns (by omega)).bind fun b _ => ?_
        refine (index_returns (by omega)).bind fun c _ => ?_
        exact (index_returns (by omega)).bind fun d _ => trivial
      · exact (addUsize_returns (by omega)).bind fun i _ => ih i

theorem parseResponse_returns (payload : Dt.Blob) (txid : UInt16) :
    Returns (fun _ => True) (Dns.parseResponse payload.bytes txid) := by
  refine returns_ite (fun _ => trivial) fun hlen => ?_
  refine (field_returns (by omega)).bind fun id _ => ?_
  refine returns_ite (fun _ => trivial) fun _ => ?_
  refine (field_returns (by omega)).bind fun flags _ => ?_
  refine returns_ite (fun _ => trivial) fun _ => ?_
  refine (field_returns (by omega)).bind fun qdcount _ => ?_
  refine (field_returns (by omega)).bind fun ancount _ => ?_
  refine returns_ite (fun _ => trivial) fun _ => ?_
  refine (questions_returns payload qdcount 12).bind fun r _ => ?_
  cases r with
  | none => trivial
  | some i => exact answers_returns payload ancount i

/-- Every parser returns on every slice, and the echo reply to a request of at most an IPv4
packet in an Ethernet frame fits where the request did. -/
theorem packet_parsers_return (frame : Dt.Blob) (ip : Vector UInt8 4) (port ident seq txid : UInt16)
    (xid : UInt32) :
    (∃ r, parseReply frame.bytes ip = .ok r) ∧
    (∃ r, Udp.parse frame.bytes port = .ok r) ∧
    (∃ r, Dhcp.parseOffer frame.bytes xid = .ok r) ∧
    (∃ r, Dhcp.parseAck frame.bytes xid = .ok r) ∧
    (∃ r, Icmp.parseEchoReply frame.bytes ident seq = .ok r) ∧
    (∃ r, Icmp.isEchoRequest frame.bytes ip = .ok r) ∧
    (∃ r, Dns.parseResponse frame.bytes txid = .ok r) ∧
    ∀ out : Dt.Blob, frame.bytes.length ≤ 65549 → frame.bytes.length ≤ out.bytes.length →
      ∃ r, Icmp.buildEchoReply frame.bytes out.bytes = .ok r ∧
        ∀ n out', r = some (n, out') → n ≤ frame.bytes.length := by
  have hok {α : Type} {x : Checked α} (h : Returns (fun _ => True) x) : ∃ r, x = .ok r :=
    h.exists_ok.imp fun _ h => h.1
  refine ⟨hok (parseReply_returns _ ip), hok (udp_parse_returns frame port),
    hok (parseOffer_returns frame xid), hok (parseAck_returns frame xid),
    hok (parseEchoReply_returns frame ident seq), hok (isEchoRequest_returns frame ip),
    hok (parseResponse_returns frame txid), fun out hlen hout => ?_⟩
  exact (buildEchoReply_returns hlen hout).exists_ok

/-- A ping with no payload: an Ethernet header, an IPv4 header of five words, an ICMP header. -/
def ping : Dt.Blob where
  bytes := List.replicate 12 0x52 ++ [8, 0] ++ [0x45, 0, 0, 28, 0, 0, 0, 0, 64, 1, 0, 0, 10, 0, 2,
    2, 10, 0, 2, 15] ++ [8, 0, 0, 0, 0, 1, 0, 1]
  size := by decide

/-- The ping is answered, in the buffer it came in. -/
theorem packet_parsers_return_ping :
    (Icmp.buildEchoReply ping.bytes ping.bytes).toOption.join.isSome = true ∧
      ∃ r, Icmp.buildEchoReply ping.bytes ping.bytes = .ok r ∧
        ∀ n out', r = some (n, out') → n ≤ ping.bytes.length :=
  ⟨by decide +kernel, (packet_parsers_return ping #v[10, 0, 2, 15] 0 0 0 0 0).2.2.2.2.2.2.2 ping
    (by decide) (Nat.le_refl _)⟩

end Net

end Perenne

import Perenne.Datagram

namespace Perenne

namespace Net

namespace Icmp

/-- `build_echo_request`: the length and the buffer. -/
def buildEchoRequest (srcMac dstMac : Mac) (srcIp dstIp : Ip) (ident seq : UInt16)
    (payload frame : Bytes) : Checked (Nat × Bytes) := do
  let frame ← copy frame 0 6 dstMac.toList
  let frame ← copy frame 6 12 srcMac.toList
  let frame ← copy frame 12 14 (toBeBytes 0x0800)
  let icmpLen ← addUsize 8 payload.length
  let h ← sub frame 14 34
  let h ← Ipv4.buildHeader srcIp.toList dstIp.toList 1 icmpLen ident.toNat h
  let frame ← copy frame 14 34 h
  let frame ← store frame 34 8
  let frame ← store frame 35 0
  let frame ← copy frame 36 38 (toBeBytes 0)
  let frame ← copy frame 38 40 (toBeBytes ident.toNat)
  let frame ← copy frame 40 42 (toBeBytes seq.toNat)
  let stop ← addUsize 42 payload.length
  let frame ← copy frame 42 stop payload
  let stop ← addUsize 34 icmpLen
  let msg ← sub frame 34 stop
  let csum ← Ipv4.checksum msg
  let frame ← copy frame 36 38 (toBeBytes csum)
  return (stop, frame)

/-- A message of code zero with its checksum, from the identifier on. -/
def message (type : UInt8) (body : Bytes) : Bytes :=
  [type, 0] ++ (toBeBytes (Ipv4.filled ([type, 0] ++ ([0, 0] ++ body))) ++ body)

@[simp] theorem length_message (type : UInt8) (body : Bytes) :
    (message type body).length = 4 + body.length := by
  simp only [message, List.length_append, List.length_cons, List.length_nil, length_toBeBytes]
  omega

theorem checksum_message (type : UInt8) {body : Bytes} (h : body.length ≤ 131066) :
    Ipv4.checksum (message type body) = .ok 0 := by
  refine Ipv4.checksum_filled (p := [type, 0]) (by simp) body ?_
  simp only [List.length_append, List.length_cons, List.length_nil]
  omega

/-- What the identifier and the sequence number of an echo are followed by. -/
def echoBody (ident seq : UInt16) (data : Bytes) : Bytes :=
  toBeBytes ident.toNat ++ (toBeBytes seq.toNat ++ data)

@[simp] theorem length_echoBody (ident seq : UInt16) (data : Bytes) :
    (echoBody ident seq data).length = 4 + data.length := by
  simp only [echoBody, List.length_append, length_toBeBytes]
  omega

/-- The frame carries an ICMP message of at least eight bytes. -/
structure IsIcmp (frame : Bytes) : Prop where
  long : 42 ≤ frame.length
  ethertype : wordAt frame 12 = 0x0800
  header : 20 ≤ headerLen frame
  fits : headerLen frame + 22 ≤ frame.length
  proto : byteAt frame 23 = 1

instance (frame : Bytes) : Decidable (IsIcmp frame) :=
  decidable_of_iff (42 ≤ frame.length ∧ wordAt frame 12 = 0x0800 ∧ 20 ≤ headerLen frame ∧
    headerLen frame + 22 ≤ frame.length ∧ byteAt frame 23 = 1)
    ⟨fun ⟨h₁, h₂, h₃, h₄, h₅⟩ => ⟨h₁, h₂, h₃, h₄, h₅⟩,
      fun ⟨h₁, h₂, h₃, h₄, h₅⟩ => ⟨h₁, h₂, h₃, h₄, h₅⟩⟩

/-- The checks that both parsers begin with. -/
def guarded {α : Type} (frame : Bytes) (fail : α) (accept : Nat → Checked α) : Checked α := do
  if frame.length < 42 then return fail
  let ethertype ← field frame 12 14
  if ethertype ≠ 0x0800 then return fail
  let some ihl ← ihl frame | return fail
  let proto ← index frame 23
  if proto ≠ 1 then return fail
  accept ihl

theorem guarded_eq {α : Type} (frame : Bytes) (fail : α) (accept : Nat → Checked α) :
    guarded frame fail accept = if IsIcmp frame then accept (headerLen frame) else .ok fail := by
  rw [guarded]
  by_cases hlong : frame.length < 42
  · rw [if_pos hlong, if_neg fun h => absurd h.long (by omega)]
    rfl
  rw [if_neg hlong, field_ok (by omega), ok_bind]
  by_cases hether : wordAt frame 12 = 0x0800
  case neg =>
    rw [if_pos hether, if_neg fun h => hether h.ethertype]
    rfl
  rw [if_neg (not_not.mpr hether), ihl_ok (by omega), ok_bind]
  by_cases hfit : 20 ≤ headerLen frame ∧ headerLen frame + 22 ≤ frame.length
  case neg =>
    rw [if_neg hfit, if_neg fun h => hfit ⟨h.header, h.fits⟩]
    rfl
  rw [if_pos hfit]
  dsimp only
  rw [index_ok (by omega), ok_bind]
  by_cases hproto : byteAt frame 23 = 1
  case neg =>
    rw [if_pos hproto, if_neg fun h => hproto h.proto]
    rfl
  rw [if_neg (not_not.mpr hproto), if_pos ⟨by omega, hether, hfit.1, hfit.2, hproto⟩]

theorem isEchoRequest_eq (frame : Bytes) (ourIp : Ip) :
    isEchoRequest frame ourIp = .ok (decide (IsIcmp frame ∧ slice frame 30 4 = ourIp.toList ∧
      byteAt frame (14 + headerLen frame) = 8)) := by
  have hguard : isEchoRequest frame ourIp = guarded frame false fun ihl => do
      let dst ← sub frame 30 34
      if dst ≠ ourIp.toList then return false
      let c ← addUsize 14 ihl
      let type ← index frame c
      return type == 8 := rfl
  rw [hguard, guarded_eq]
  by_cases hicmp : IsIcmp frame
  case neg => rw [if_neg hicmp, decide_eq_false fun h => hicmp h.1]
  have hle := headerLen_le frame
  have hfits := hicmp.fits
  have hheader := hicmp.header
  rw [if_pos hicmp, sub_ok (by omega), ok_bind]
  by_cases hdst : slice frame 30 4 = ourIp.toList
  · rw [if_neg (not_not.mpr hdst), addUsize_ok (by omega), ok_bind, index_ok (by omega), ok_bind]
    simp only [hicmp, hdst, true_and]
    rfl
  · rw [if_pos hdst, decide_eq_false fun h => hdst h.2.1]
    rfl

theorem parseEchoReply_eq (frame : Bytes) (ident seq : UInt16) :
    parseEchoReply frame ident seq = .ok (decide (IsIcmp frame ∧
      byteAt frame (14 + headerLen frame) = 0 ∧
      wordAt frame (14 + headerLen frame + 4) = ident.toNat ∧
      wordAt frame (14 + headerLen frame + 6) = seq.toNat)) := by
  have hguard : parseEchoReply frame ident seq = guarded frame false fun ihl => do
      let c ← addUsize 14 ihl
      let type ← index frame c
      if type ≠ 0 then return false
      let id ← fieldAt frame c 4 6
      if id ≠ ident.toNat then return false
      let number ← fieldAt frame c 6 8
      return number == seq.toNat := rfl
  rw [hguard, guarded_eq]
  by_cases hicmp : IsIcmp frame
  case neg => rw [if_neg hicmp, decide_eq_false fun h => hicmp h.1]
  have hle := headerLen_le frame
  have hfits := hicmp.fits
  rw [if_pos hicmp, addUsize_ok (by omega), ok_bind, index_ok (by omega), ok_bind]
  by_cases htype : byteAt frame (14 + headerLen frame) = 0
  case neg =>
    rw [if_pos htype, decide_eq_false fun h => htype h.2.1]
    rfl
  rw [if_neg (not_not.mpr htype), fieldAt_ok (by omega) (by omega), ok_bind]
  by_cases hident : wordAt frame (14 + headerLen frame + 4) = ident.toNat
  · rw [if_neg (not_not.mpr hident), fieldAt_ok (by omega) (by omega), ok_bind]
    simp only [hicmp, htype, hident, true_and]
    rfl
  · rw [if_pos hident, decide_eq_false fun h => hident h.2.2.1]
    rfl

theorem buildEchoRequest_ok (srcMac dstMac : Mac) (srcIp dstIp : Ip) (ident seq : UInt16)
    {payload frame : Bytes} (hpayload : payload.length ≤ 65507)
    (hframe : 42 + payload.length ≤ frame.length) :
    buildEchoRequest srcMac dstMac srcIp dstIp ident seq payload frame =
      .ok (42 + payload.length,
        ipFrame dstMac srcMac (Ipv4.blank srcIp dstIp 1 (8 + payload.length) ident).stamped
          (message 8 (echoBody ident seq payload)) ++ frame.drop (42 + payload.length)) := by
  have hstop : 34 + (8 + payload.length) = 42 + payload.length := by omega
  rw [buildEchoRequest, ethernet_written dstMac srcMac _ (by omega), addUsize_ok (by omega), ok_bind,
    header_written dstMac srcMac _ srcIp dstIp 1 ident rfl (by omega) (by omega),
    store_next (by simp) (by omega), ok_bind, store_next (by simp) (by omega), ok_bind,
    copy_next (by simp) (by simp) (by omega), ok_bind,
    copy_next (by simp) (by simp) (by omega), ok_bind,
    copy_next (by simp) (by simp) (by omega), ok_bind, addUsize_ok (by omega), ok_bind,
    copy_next (by simp) rfl hframe, ok_bind, addUsize_ok (by omega), ok_bind, hstop]
  generalize frame.drop (42 + payload.length) = tail
  generalize (Ipv4.blank srcIp dstIp 1 (8 + payload.length) ident).stamped = h
  -- the message with a zero checksum, then with its own
  have hbuf : ipFrame dstMac srcMac h [] ++ [8] ++ [0] ++ toBeBytes 0 ++ toBeBytes ident.toNat ++
      toBeBytes seq.toNat ++ payload ++ tail = ipFrame dstMac srcMac h
        ([8, 0] ++ ([0, 0] ++ echoBody ident seq payload) ++ tail) := by
    simp only [echoBody, ipFrame_append, List.append_assoc, List.nil_append]
    rfl
  have hmsg : ([8, 0] ++ ([0, 0] ++ echoBody ident seq payload)).length = 8 + payload.length := by
    simp only [List.length_append, List.length_cons, List.length_nil, length_echoBody]
    omega
  rw [hbuf, sub_ipFrame (by omega), ok_bind, Ipv4.checksum_ok (by omega), ok_bind, List.append_assoc,
    List.append_assoc, copy_ipFrame (by rfl) (by rfl) (length_toBeBytes _), ok_bind]
  simp only [message, ipFrame_append, List.append_assoc]
  rfl

/-- The bytes of a message from its identifier on. -/
def bodyOf (frame : Bytes) : Bytes := frame.drop (18 + headerLen frame)

section Reply

variable {request out : Bytes} (hicmp : IsIcmp request) {dstMac srcMac : Mac} {srcIp dstIp : Ip}
  (hdst : slice request 0 6 = dstMac.toList) (hsrc : slice request 6 6 = srcMac.toList)
  (hsrcIp : slice request 26 4 = srcIp.toList) (hdstIp : slice request 30 4 = dstIp.toList)

include hicmp hdst hsrc hsrcIp hdstIp in
/-- `build_echo_reply` turns the message around, whatever its type was, once the checksum is
found. -/
theorem buildEchoReply_eq (hsize : request.length < 2 ^ 63)
    (hout : request.length + 20 ≤ out.length + headerLen request) :
    buildEchoReply request out = Ipv4.checksum ([0, 0] ++ ([0, 0] ++ bodyOf request)) >>= fun csum =>
      .ok (some (38 + (bodyOf request).length,
        ipFrame srcMac dstMac (Ipv4.blank dstIp srcIp 1 (4 + (bodyOf request).length) 0).stamped
          ([0, 0] ++ (toBeBytes csum ++ bodyOf request)) ++
        out.drop (38 + (bodyOf request).length))) := by
  have hle := headerLen_le request
  have hheader := hicmp.header
  have hfits := hicmp.fits
  have hbody : (bodyOf request).length = request.length - 18 - headerLen request := by
    rw [bodyOf, List.length_drop]
    omega
  have hsub₁ : sub request 6 12 = .ok srcMac.toList := by rw [sub_ok (by omega), hsrc]
  have hsub₂ : sub request 0 6 = .ok dstMac.toList := by rw [sub_ok (by omega), hdst]
  have harray₁ : array 4 request 30 34 = .ok dstIp.toList := by rw [array_ok (by omega), hdstIp]
  have harray₂ : array 4 request 26 30 = .ok srcIp.toList := by rw [array_ok (by omega), hsrcIp]
  have hlen : request.length - 14 - headerLen request = 4 + (bodyOf request).length := by omega
  -- the old type, code and checksum
  have hsplit : request.drop (14 + headerLen request) =
      slice request (14 + headerLen request) 4 ++ bodyOf request := by
    have h := List.take_append_drop 4 (request.drop (14 + headerLen request))
    rw [List.drop_drop, show 14 + headerLen request + 4 = 18 + headerLen request by omega] at h
    exact h.symm
  have hmsg : sub request (14 + headerLen request) (14 + headerLen request +
      (4 + (bodyOf request).length)) = .ok (slice request (14 + headerLen request) 4 ++
        bodyOf request) := by
    rw [sub_ok (by omega), ← hsplit, slice, List.take_of_length_le]
    rw [List.length_drop]
    omega
  have hfour : (slice request (14 + headerLen request) 4).length = 4 := length_slice (by omega)
  obtain ⟨t, c, k₀, k₁, hold⟩ := List.length_eq_four.mp hfour
  rw [hold] at hmsg
  rw [buildEchoReply, if_neg (by omega), field_ok (by omega), ok_bind, hicmp.ethertype,
    if_neg (not_not.mpr rfl), index_ok (by omega), ok_bind, hicmp.proto, if_neg (not_not.mpr rfl),
    ihl_ok (by omega), ok_bind, if_pos ⟨hheader, hfits⟩]
  simp only [hsub₁, hsub₂, harray₁, harray₂, ok_bind]
  rw [ethernet_written srcMac dstMac _ (by omega), subUsize_ok (by omega), ok_bind,
    subUsize_ok (by omega), ok_bind, hlen,
    header_written srcMac dstMac _ dstIp srcIp 1 0 (by rfl) (by omega) (by omega), addUsize_ok (by omega),
    ok_bind, addUsize_ok (by omega), ok_bind, addUsize_ok (by omega), ok_bind, hmsg, ok_bind,
    copy_next (by simp) (by rw [List.length_append]; rfl) (by omega), ok_bind]
  have hstop : 34 + (4 + (bodyOf request).length) = 38 + (bodyOf request).length := by omega
  rw [hstop]
  generalize out.drop (38 + (bodyOf request).length) = tail
  generalize (Ipv4.blank dstIp srcIp 1 (4 + (bodyOf request).length) 0).stamped = h
  rw [ipFrame_append, ipFrame_append, List.nil_append, List.append_assoc]
  have htype : store (ipFrame srcMac dstMac h ([t, c, k₀, k₁] ++ (bodyOf request ++ tail))) 34 0 =
      .ok (ipFrame srcMac dstMac h ([0, c, k₀, k₁] ++ (bodyOf request ++ tail))) :=
    store_ipFrame (w := []) rfl
  have hcode : store (ipFrame srcMac dstMac h ([0, c, k₀, k₁] ++ (bodyOf request ++ tail))) 35 0 =
      .ok (ipFrame srcMac dstMac h ([0, 0] ++ ([k₀, k₁] ++ (bodyOf request ++ tail)))) :=
    store_ipFrame (w := [0]) rfl
  have hzero : toBeBytes 0 = [0, 0] := rfl
  have hzeros : ([0, 0] ++ ([0, 0] ++ bodyOf request)).length = 4 + (bodyOf request).length := by
    simp only [List.length_append, List.length_cons, List.length_nil]
    omega
  rw [htype, ok_bind, hcode, ok_bind, copy_ipFrame (by rfl) (by rfl) (by rfl), ok_bind, hzero,
    ← List.append_assoc [0, 0] (bodyOf request), ← List.append_assoc [0, 0],
    sub_ipFrame (by omega), ok_bind]
  cases Ipv4.checksum ([0, 0] ++ ([0, 0] ++ bodyOf request)) with
  | error e => rfl
  | ok csum =>
    rw [ok_bind, ok_bind, List.append_assoc, List.append_assoc,
      copy_ipFrame (by rfl) (by rfl) (length_toBeBytes _), ok_bind, ipFrame_append, List.append_assoc,
      List.append_assoc]
    rfl

end Reply

theorem buildEchoReply_none {request : Bytes} (h : ¬ IsIcmp request) (out : Bytes) :
    buildEchoReply request out = .ok none := by
  rw [buildEchoReply]
  by_cases hlong : request.length < 42
  · rw [if_pos hlong]
    rfl
  rw [if_neg hlong, field_ok (by omega), ok_bind]
  by_cases hether : wordAt request 12 = 0x0800
  case neg =>
    rw [if_pos hether]
    rfl
  rw [if_neg (not_not.mpr hether), index_ok (by omega), ok_bind]
  by_cases hproto : byteAt request 23 = 1
  case neg =>
    rw [if_pos hproto]
    rfl
  rw [if_neg (not_not.mpr hproto), ihl_ok (by omega), ok_bind, if_neg]
  · rfl
  · exact fun hfit => h ⟨by omega, hether, hfit.1, hfit.2, hproto⟩

/-- The frame is answered exactly when it is an echo request to the address it carries. -/
def AnswersRequests (frame out : Bytes) : Prop :=
  ∃ r, buildEchoReply frame out = .ok r ∧
    (r.isSome = true ↔ ∃ ip : Ip, ip.toList = slice frame 30 4 ∧ isEchoRequest frame ip = .ok true)

theorem isEchoRequest_own_iff (frame : Bytes) :
    (∃ ip : Ip, ip.toList = slice frame 30 4 ∧ isEchoRequest frame ip = .ok true) ↔
      IsIcmp frame ∧ byteAt frame (14 + headerLen frame) = 8 := by
  simp only [isEchoRequest_eq, Except.ok.injEq, decide_eq_true_eq]
  constructor
  · rintro ⟨ip, -, hicmp, -, htype⟩
    exact ⟨hicmp, htype⟩
  · rintro ⟨hicmp, htype⟩
    have hlong := hicmp.long
    obtain ⟨ip, hip⟩ := exists_array 30 4 (show 30 + 4 ≤ frame.length by omega)
    exact ⟨ip, hip.symm, hicmp, hip, htype⟩

/-- `build_echo_reply` does not look at the type: the frames that it answers as it should are those
that carry no ICMP at all, and the requests that its checksum can add up. -/
theorem answers_requests_iff (frame out : Dt.Blob) (hout : frame.bytes.length ≤ out.bytes.length) :
    AnswersRequests frame.bytes out.bytes ↔ (IsIcmp frame.bytes →
      byteAt frame.bytes (14 + headerLen frame.bytes) = 8 ∧
        (words ([0, 0] ++ ([0, 0] ++ bodyOf frame.bytes))).sum < 2 ^ 32) := by
  have hsize := frame.size
  rw [AnswersRequests, isEchoRequest_own_iff]
  by_cases hicmp : IsIcmp frame.bytes
  case neg =>
    rw [buildEchoReply_none hicmp]
    simp [hicmp]
  have hlong := hicmp.long
  have hheader := hicmp.header
  obtain ⟨dstMac, hdst⟩ := exists_array 0 6 (show 0 + 6 ≤ frame.bytes.length by omega)
  obtain ⟨srcMac, hsrc⟩ := exists_array 6 6 (show 6 + 6 ≤ frame.bytes.length by omega)
  obtain ⟨srcIp, hsrcIp⟩ := exists_array 26 4 (show 26 + 4 ≤ frame.bytes.length by omega)
  obtain ⟨dstIp, hdstIp⟩ := exists_array 30 4 (show 30 + 4 ≤ frame.bytes.length by omega)
  have hbody : (bodyOf frame.bytes).length ≤ frame.bytes.length - 18 := by
    rw [bodyOf, List.length_drop]
    omega
  have hzeros : ([0, 0] ++ ([0, 0] ++ bodyOf frame.bytes)).length < 2 ^ 63 := by
    simp only [List.length_append, List.length_cons, List.length_nil]
    omega
  rw [buildEchoReply_eq hicmp hdst hsrc hsrcIp hdstIp hsize (by omega),
    Ipv4.checksum_eq hzeros]
  by_cases hsum : (words ([0, 0] ++ ([0, 0] ++ bodyOf frame.bytes))).sum < 2 ^ 32
  · rw [if_pos hsum, ok_bind]
    constructor
    · rintro ⟨r, hr, hiff⟩ _
      cases hr
      exact ⟨(hiff.mp rfl).2, hsum⟩
    · intro h
      exact ⟨_, rfl, iff_of_true rfl ⟨hicmp, (h hicmp).1⟩⟩
  · rw [if_neg hsum]
    constructor
    · rintro ⟨r, hr, -⟩
      cases hr
    · intro h
      exact absurd (h hicmp).2 hsum

/-- A ping with no payload is answered as it should be. -/
theorem answers_requests_ping :
    ping.bytes.length ≤ ping.bytes.length ∧ AnswersRequests ping.bytes ping.bytes :=
  ⟨Nat.le_refl _, (answers_requests_iff ping ping (Nat.le_refl _)).mpr fun _ => by decide +kernel⟩

def pong : Dt.Blob where
  bytes := ping.bytes.set 34 0
  size := by decide

/-- An echo reply is answered, too. -/
theorem answers_reply :
    (buildEchoReply pong.bytes pong.bytes).toOption.join.isSome = true ∧
      isEchoRequest pong.bytes #v[10, 0, 2, 15] = .ok false ∧
      ¬ AnswersRequests pong.bytes pong.bytes := by
  refine ⟨by decide +kernel, by decide +kernel, ?_⟩
  rintro ⟨r, hr, hiff⟩
  have hsome : (buildEchoReply pong.bytes pong.bytes).toOption.join.isSome = true := by
    decide +kernel
  rw [hr] at hsome
  have htype := ((isEchoRequest_own_iff _).mp (hiff.mp hsome)).2
  revert htype
  decide +kernel

section Built

variable (dstMac srcMac : Mac) {h : Ipv4.Header} (hihl : h.ihl = 5) (hproto : h.proto = 1)
  (type : UInt8) (ident seq : UInt16) (data : Bytes)

variable (h) in
theorem length_built :
    (ipFrame dstMac srcMac h (message type (echoBody ident seq data))).length = 42 + data.length := by
  rw [length_ipFrame, length_message, length_echoBody]
  omega

variable {data} (h) in
theorem checksums_built (hdata : data.length ≤ 131062) :
    Ipv4.checksum (slice (ipFrame dstMac srcMac h.stamped (message type (echoBody ident seq data)))
      14 20) = .ok 0 ∧
    Ipv4.checksum ((ipFrame dstMac srcMac h.stamped (message type (echoBody ident seq data))).drop
      34) = .ok 0 := by
  refine ⟨?_, ?_⟩
  · rw [(ipFrame_fields dstMac srcMac h.stamped _).header]
    exact h.checksum_stamped
  · rw [drop_ipFrame dstMac srcMac h.stamped _ 0]
    exact checksum_message type (by rw [length_echoBody]; omega)

include hihl hproto

theorem isIcmp_built :
    IsIcmp (ipFrame dstMac srcMac h (message type (echoBody ident seq data))) := by
  have hfields := ipFrame_fields dstMac srcMac h (message type (echoBody ident seq data))
  have hheader := headerLen_ipFrame dstMac srcMac h (message type (echoBody ident seq data))
    (by omega)
  have hlen := length_built dstMac srcMac h type ident seq data
  rw [hihl] at hheader
  exact ⟨by omega, hfields.ethertype, by omega, by omega, hfields.proto.trans hproto⟩

theorem isEchoRequest_built (ip : Ip) :
    isEchoRequest (ipFrame dstMac srcMac h (message type (echoBody ident seq data))) ip =
      .ok (decide (ip = h.dstIp ∧ type = 8)) := by
  have hfields := ipFrame_fields dstMac srcMac h (message type (echoBody ident seq data))
  have hicmp := isIcmp_built dstMac srcMac hihl hproto type ident seq data
  rw [isEchoRequest_eq, hfields.dstIp, headerLen_ipFrame _ _ _ _ (by omega), hihl]
  have htype : byteAt (ipFrame dstMac srcMac h (message type (echoBody ident seq data)))
      (14 + 5 * 4) = type := byteAt_ipFrame dstMac srcMac h _ 0
  rw [htype]
  simp only [hicmp, true_and, Vector.toList_inj, eq_comm]

theorem parseEchoReply_built (i s : UInt16) :
    parseEchoReply (ipFrame dstMac srcMac h (message type (echoBody ident seq data))) i s =
      .ok (decide (type = 0 ∧ i = ident ∧ s = seq)) := by
  have hicmp := isIcmp_built dstMac srcMac hihl hproto type ident seq data
  have htype := byteAt_ipFrame dstMac srcMac h (message type (echoBody ident seq data)) 0
  have hident := wordAt_ipFrame dstMac srcMac h (message type (echoBody ident seq data)) 4
  have hseq := wordAt_ipFrame dstMac srcMac h (message type (echoBody ident seq data)) 6
  rw [show byteAt (message type (echoBody ident seq data)) 0 = type from rfl] at htype
  rw [show wordAt (message type (echoBody ident seq data)) 4 = ident.toNat from
    wordAt_toBeBytes ident.toNat_lt []] at hident
  rw [show wordAt (message type (echoBody ident seq data)) 6 = seq.toNat from
    wordAt_toBeBytes seq.toNat_lt []] at hseq
  rw [parseEchoReply_eq, headerLen_ipFrame _ _ _ _ (by omega), hihl]
  simp only [hicmp, true_and, htype, hident, hseq, UInt16.toNat_inj, eq_comm]

omit hproto in
theorem bodyOf_built : bodyOf (ipFrame dstMac srcMac h (message type (echoBody ident seq data))) =
    echoBody ident seq data := by
  rw [bodyOf, headerLen_ipFrame _ _ _ _ (by omega), hihl]
  exact drop_ipFrame dstMac srcMac h _ 4

variable {data} in
theorem buildEchoReply_built {out : Bytes} (hdata : data.length ≤ 65507)
    (hout : 42 + data.length ≤ out.length) :
    buildEchoReply (ipFrame dstMac srcMac h (message type (echoBody ident seq data))) out =
      .ok (some (42 + data.length,
        ipFrame srcMac dstMac (Ipv4.blank h.dstIp h.srcIp 1 (8 + data.length) 0).stamped
          (message 0 (echoBody ident seq data)) ++ out.drop (42 + data.length))) := by
  have hicmp := isIcmp_built dstMac srcMac hihl hproto type ident seq data
  have hfields := ipFrame_fields dstMac srcMac h (message type (echoBody ident seq data))
  have hheader := headerLen_ipFrame dstMac srcMac h (message type (echoBody ident seq data))
    (by omega)
  have hlen := length_built dstMac srcMac h type ident seq data
  have hzeros : ([0, 0] ++ ([0, 0] ++ echoBody ident seq data)).length ≤ 131070 := by
    simp only [List.length_append, List.length_cons, List.length_nil, length_echoBody]
    omega
  rw [buildEchoReply_eq hicmp hfields.dst hfields.src hfields.srcIp hfields.dstIp (by omega)
    (by omega), bodyOf_built dstMac srcMac hihl type ident seq data, Ipv4.checksum_ok hzeros, ok_bind, length_echoBody,
    ← Nat.add_assoc, ← Nat.add_assoc]
  rfl

end Built

/-- A ping between two hosts of this stack. The request is one to its destination alone and is
not taken for a reply; what it is answered with has its length and is the reply to this request
and no other; and all four checksums hold. -/
theorem ping_completes (srcMac dstMac : Mac) (srcIp dstIp : Ip) (ident seq : UInt16)
    (payload frame : Bytes) (hpayload : payload.length ≤ 65507)
    (hframe : 42 + payload.length ≤ frame.length) :
    ∃ n frame', buildEchoRequest srcMac dstMac srcIp dstIp ident seq payload frame =
        .ok (n, frame') ∧ n ≤ frame'.length ∧
      (∀ ip, isEchoRequest (frame'.take n) ip = .ok (decide (ip = dstIp))) ∧
      (∀ i s, parseEchoReply (frame'.take n) i s = .ok false) ∧
      Ipv4.checksum (slice (frame'.take n) 14 20) = .ok 0 ∧
      Ipv4.checksum ((frame'.take n).drop 34) = .ok 0 ∧
      ∀ out, n ≤ out.length → ∃ out', buildEchoReply (frame'.take n) out = .ok (some (n, out')) ∧
        n ≤ out'.length ∧
        (∀ i s, parseEchoReply (out'.take n) i s = .ok (decide (i = ident ∧ s = seq))) ∧
        Ipv4.checksum (slice (out'.take n) 14 20) = .ok 0 ∧
        Ipv4.checksum ((out'.take n).drop 34) = .ok 0 := by
  refine ⟨_, _, buildEchoRequest_ok srcMac dstMac srcIp dstIp ident seq hpayload hframe, ?_⟩
  rw [List.take_left' (length_built ..)]
  have hsums := checksums_built dstMac srcMac
    (Ipv4.blank srcIp dstIp 1 (8 + payload.length) ident) 8 ident seq (show payload.length ≤ 131062 by omega)
  refine ⟨?_, fun ip => ?_, fun i s => ?_, hsums.1, hsums.2, fun out hout => ?_⟩
  · rw [List.length_append, length_built]
    omega
  · rw [isEchoRequest_built dstMac srcMac rfl rfl 8 ident seq payload]
    simp only [and_true]
    rfl
  · rw [parseEchoReply_built dstMac srcMac rfl rfl 8 ident seq payload, decide_eq_false fun h => absurd h.1 (by decide)]
  · refine ⟨_, buildEchoReply_built dstMac srcMac rfl rfl 8 ident seq hpayload hout, ?_⟩
    rw [List.take_left' (length_built ..)]
    have hsums := checksums_built srcMac dstMac
      (Ipv4.blank dstIp srcIp 1 (8 + payload.length) 0) 0 ident seq (show payload.length ≤ 131062 by omega)
    refine ⟨?_, fun i s => ?_, hsums.1, hsums.2⟩
    · rw [List.length_append, length_built]
      omega
    · rw [parseEchoReply_built srcMac dstMac rfl rfl 0 ident seq payload]
      simp only [true_and]

/-- Three bytes there and back. -/
theorem ping_completes_three :
    [1, 2, 3].length ≤ 65507 ∧ 42 + [1, 2, 3].length ≤ (List.replicate 64 (0 : UInt8)).length ∧
      ∃ n frame', buildEchoRequest #v[2, 0, 0, 0, 0, 1] #v[2, 0, 0, 0, 0, 2] #v[10, 0, 2, 15]
          #v[10, 0, 2, 2] 7 1 [1, 2, 3] (List.replicate 64 0) = .ok (n, frame') ∧
        isEchoRequest (frame'.take n) #v[10, 0, 2, 2] = .ok true := by
  refine ⟨by decide, by decide, ?_⟩
  obtain ⟨n, frame', hbuild, -, hrequest, -⟩ := ping_completes #v[2, 0, 0, 0, 0, 1]
    #v[2, 0, 0, 0, 0, 2] #v[10, 0, 2, 15] #v[10, 0, 2, 2] 7 1 [1, 2, 3] (List.replicate 64 0)
    (by decide) (by decide)
  exact ⟨n, frame', hbuild, hrequest #v[10, 0, 2, 2]⟩

/-- An echo request as it comes in, with a header of any length. -/
structure Request where
  dstMac : Mac
  srcMac : Mac
  header : Ipv4.Header
  options : Bytes
  code : UInt8
  csum : UInt16
  ident : UInt16
  seq : UInt16
  data : Bytes
  header_range : 5 ≤ header.ihl ∧ header.ihl ≤ 15
  options_length : 20 + options.length = header.ihl * 4
  icmp : header.proto = 1
  total : header.total.toNat = header.ihl * 4 + (8 + data.length)

namespace Request

variable (r : Request) (pad : Bytes)

/-- The frame of a request, with the padding of the link behind the packet. -/
def frame : Bytes :=
  ipFrame r.dstMac r.srcMac r.header (r.options ++ ([8, r.code] ++ toBeBytes r.csum.toNat ++
    (echoBody r.ident r.seq r.data ++ pad)))

theorem length_frame : (r.frame pad).length = 14 + r.header.ihl * 4 + 8 + r.data.length +
    pad.length := by
  have hopt := r.options_length
  simp only [frame, length_ipFrame, List.length_append, List.length_cons, List.length_nil,
    length_toBeBytes, length_echoBody]
  omega

theorem headerLen_frame : headerLen (r.frame pad) = r.header.ihl * 4 :=
  headerLen_ipFrame _ _ _ _ (by have := r.header_range; omega)

theorem isIcmp_frame : IsIcmp (r.frame pad) := by
  have hlen := r.length_frame pad
  have hheader := r.headerLen_frame pad
  have hrange := r.header_range
  have hfields := ipFrame_fields r.dstMac r.srcMac r.header (r.options ++ ([8, r.code] ++
    toBeBytes r.csum.toNat ++ (echoBody r.ident r.seq r.data ++ pad)))
  exact ⟨by omega, hfields.ethertype, by omega, by omega, hfields.proto.trans r.icmp⟩

theorem bodyOf_frame : bodyOf (r.frame pad) = echoBody r.ident r.seq r.data ++ pad := by
  have hopt := r.options_length
  rw [bodyOf, headerLen_frame, frame,
    show 18 + r.header.ihl * 4 = 34 + (r.options.length + 4) by omega, drop_ipFrame,
    List.drop_length_add_append]
  rfl

/-- The request comes back: addresses turned around, valid checksums, the identifier, the sequence
number and the data of the packet. -/
def Echoed (out : Bytes) : Prop :=
  ∃ n out', buildEchoReply (r.frame pad) out = .ok (some (n, out')) ∧
    slice (out'.take n) 0 6 = r.srcMac.toList ∧ slice (out'.take n) 6 6 = r.dstMac.toList ∧
    slice (out'.take n) 26 4 = r.header.dstIp.toList ∧
    slice (out'.take n) 30 4 = r.header.srcIp.toList ∧
    Ipv4.checksum (slice (out'.take n) 14 20) = .ok 0 ∧
    Ipv4.checksum ((out'.take n).drop 34) = .ok 0 ∧
    byteAt (out'.take n) 34 = 0 ∧ wordAt (out'.take n) 38 = r.ident.toNat ∧
    wordAt (out'.take n) 40 = r.seq.toNat ∧ (out'.take n).drop 42 = r.data

variable {r pad} {out : Bytes}

theorem buildEchoReply_frame (hout : (r.frame pad).length ≤ out.length) (hsize : out.length < 2 ^ 63) :
    buildEchoReply (r.frame pad) out =
      Ipv4.checksum ([0, 0] ++ ([0, 0] ++ (echoBody r.ident r.seq r.data ++ pad))) >>= fun csum =>
        .ok (some (42 + r.data.length + pad.length,
          ipFrame r.srcMac r.dstMac (Ipv4.blank r.header.dstIp r.header.srcIp 1
            (8 + r.data.length + pad.length) 0).stamped ([0, 0] ++ (toBeBytes csum ++
              (echoBody r.ident r.seq r.data ++ pad))) ++
          out.drop (42 + r.data.length + pad.length))) := by
  have hfields := ipFrame_fields r.dstMac r.srcMac r.header (r.options ++ ([8, r.code] ++
    toBeBytes r.csum.toNat ++ (echoBody r.ident r.seq r.data ++ pad)))
  have hheader := r.headerLen_frame pad
  have hrange := r.header_range
  have hbody : (bodyOf (r.frame pad)).length = 4 + r.data.length + pad.length := by
    rw [bodyOf_frame, List.length_append, length_echoBody]
  have hstop : 38 + (bodyOf (r.frame pad)).length = 42 + r.data.length + pad.length := by omega
  have hlen : 4 + (bodyOf (r.frame pad)).length = 8 + r.data.length + pad.length := by omega
  rw [buildEchoReply_eq (r.isIcmp_frame pad) hfields.dst hfields.src hfields.srcIp hfields.dstIp
    (by omega) (by omega), hstop, hlen, bodyOf_frame]

theorem Echoed.pad_eq_nil (hout : (r.frame pad).length ≤ out.length) (hsize : out.length < 2 ^ 63)
    (h : r.Echoed pad out) : pad = [] := by
  obtain ⟨n, out', hreply, -, -, -, -, -, -, -, -, -, hdata⟩ := h
  rw [buildEchoReply_frame hout hsize, Except.bind_eq_ok_iff] at hreply
  obtain ⟨csum, -, hreply⟩ := hreply
  cases hreply
  have hlen (h : Ipv4.Header) : (ipFrame r.srcMac r.dstMac h ([0, 0] ++ (toBeBytes csum ++
      (echoBody r.ident r.seq r.data ++ pad)))).length = 42 + r.data.length + pad.length := by
    simp only [length_ipFrame, List.length_append, List.length_cons, List.length_nil,
      length_toBeBytes, length_echoBody]
    omega
  rw [List.take_left' (hlen _)] at hdata
  have hdrop : r.data ++ pad = r.data := (drop_ipFrame _ _ _ _ 8).symm.trans hdata
  exact List.append_right_eq_self.mp hdrop

theorem echoed_nil (hout : (r.frame []).length ≤ out.length) (hsize : out.length < 2 ^ 63) :
    r.Echoed [] out := by
  have htotal := r.total
  have hlt := r.header.total.toNat_lt
  have hzeros : ([0, 0] ++ ([0, 0] ++ echoBody r.ident r.seq r.data)).length ≤ 131070 := by
    simp only [List.length_append, List.length_cons, List.length_nil, length_echoBody]
    omega
  have hmessage : [0, 0] ++ (toBeBytes (Ipv4.filled ([0, 0] ++ ([0, 0] ++
      echoBody r.ident r.seq r.data))) ++ echoBody r.ident r.seq r.data) =
      message 0 (echoBody r.ident r.seq r.data) := rfl
  have hreply := buildEchoReply_frame hout hsize
  rw [List.append_nil, Ipv4.checksum_ok hzeros, ok_bind, List.length_nil, Nat.add_zero,
    Nat.add_zero, hmessage] at hreply
  refine ⟨_, _, hreply, ?_⟩
  rw [List.take_left' (length_built ..)]
  have hfields := ipFrame_fields r.srcMac r.dstMac (Ipv4.blank r.header.dstIp r.header.srcIp 1
    (8 + r.data.length) 0).stamped (message 0 (echoBody r.ident r.seq r.data))
  have hsums := checksums_built r.srcMac r.dstMac (Ipv4.blank r.header.dstIp r.header.srcIp 1
    (8 + r.data.length) 0) 0 r.ident r.seq (show r.data.length ≤ 131062 by omega)
  refine ⟨hfields.dst, hfields.src, hfields.srcIp, hfields.dstIp, hsums.1, hsums.2, ?_, ?_, ?_, ?_⟩
  · exact byteAt_ipFrame _ _ _ _ 0
  · exact (wordAt_ipFrame _ _ _ _ 4).trans (wordAt_toBeBytes r.ident.toNat_lt [])
  · exact (wordAt_ipFrame _ _ _ _ 6).trans (wordAt_toBeBytes r.seq.toNat_lt [])
  · exact drop_ipFrame _ _ _ _ 8

end Request

/-- The responder returns the data of a request exactly when the frame ends with the packet. -/
theorem echo_returns_data_iff (r : Request) (pad : Bytes) (out : Dt.Blob)
    (hout : (r.frame pad).length ≤ out.bytes.length) : r.Echoed pad out.bytes ↔ pad = [] := by
  constructor
  · exact Request.Echoed.pad_eq_nil hout out.size
  · rintro rfl
    exact Request.echoed_nil hout out.size

def shortPing : Request where
  dstMac := #v[2, 0, 0, 0, 0, 2]
  srcMac := #v[2, 0, 0, 0, 0, 1]
  header := ⟨5, 0, 32, 1, 0, 64, 1, 0x62cc, #v[10, 0, 2, 2], #v[10, 0, 2, 15]⟩
  options := []
  code := 0
  csum := 0xf3f1
  ident := 7
  seq := 1
  data := [1, 2, 3, 4]
  header_range := by decide
  options_length := rfl
  icmp := rfl
  total := rfl

/-- The shortest Ethernet frame has sixty bytes. -/
def smallest : Dt.Blob := ⟨List.replicate 60 0, by decide⟩

theorem echo_returns_data_short :
    (shortPing.frame []).length ≤ smallest.bytes.length ∧ shortPing.Echoed [] smallest.bytes :=
  ⟨by decide +kernel, (echo_returns_data_iff shortPing [] smallest (by decide +kernel)).mpr rfl⟩

/-- Padded to the smallest frame, the ping comes back with fourteen zeros behind its data. -/
theorem echo_returns_padding :
    (buildEchoReply (shortPing.frame (List.replicate 14 0)) smallest.bytes).toOption.join.map
        (fun r => (r.2.take r.1).drop 42) = some ([1, 2, 3, 4] ++ List.replicate 14 0) ∧
      ¬ shortPing.Echoed (List.replicate 14 0) smallest.bytes := by
  refine ⟨by decide +kernel, fun h => ?_⟩
  have hpad := h.pad_eq_nil (by decide +kernel) smallest.size
  cases hpad

end Icmp

end Net

end Perenne

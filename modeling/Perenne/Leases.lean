import Perenne.Wire

namespace Perenne

namespace Net

namespace Dhcp

/-- An option with a value. -/
structure Tlv where
  code : UInt8
  value : Bytes
  code_ne_pad : code ≠ 0
  code_ne_end : code ≠ 255
  size : value.length ≤ 255

/-- What stands in the option area before the end marker. -/
inductive Opt where
  | pad
  | tlv (t : Tlv)

def Opt.bytes : Opt → Bytes
  | .pad => [0]
  | .tlv t => t.code :: .ofNat t.value.length :: t.value

def optBytes (opts : List Opt) : Bytes := opts.flatMap Opt.bytes

/-- The value of the first option with this code. -/
def lookup (code : UInt8) : List Opt → Option Bytes
  | [] => none
  | .pad :: opts => lookup code opts
  | .tlv t :: opts => if t.code = code then some t.value else lookup code opts

theorem length_le_optBytes (opts : List Opt) : opts.length ≤ (optBytes opts).length := by
  induction opts with
  | nil => exact Nat.zero_le _
  | cons o opts ih =>
    have hpos : 0 < o.bytes.length := by
      cases o with
      | pad => exact Nat.one_pos
      | tlv t => exact Nat.succ_pos _
    rw [optBytes, List.flatMap_cons, List.length_append, List.length_cons]
    change _ ≤ _ + (optBytes opts).length
    omega

/-- The walker stays aligned: behind the options it has passed, it finds the first one with its
code, or the end. -/
theorem option_run {area : Bytes} (hsize : area.length < 2 ^ 63) (code : UInt8) (opts : List Opt)
    {rest : Bytes} {n i : Nat} (harea : area.drop i = optBytes opts ++ 255 :: rest)
    (hn : opts.length < n) :
    Iter.run .hang (optionRound area code) n i = .ok (lookup code opts) := by
  induction opts generalizing n i with
  | nil =>
    obtain ⟨hi, hend, -⟩ := rest_cons harea
    obtain ⟨n, rfl⟩ := Nat.exists_eq_add_of_lt hn
    rw [Iter.run, optionRound, if_pos hi, index_ok hi, ok_bind, hend]
    rfl
  | cons o opts ih =>
    obtain ⟨n, rfl⟩ : ∃ m, n = m + 1 := ⟨n - 1, by rw [List.length_cons] at hn; omega⟩
    rw [List.length_cons] at hn
    have harea' : area.drop i = o.bytes ++ (optBytes opts ++ 255 :: rest) := by
      rw [harea, optBytes, List.flatMap_cons, List.append_assoc]
      rfl
    have hbehind := rest_append harea'
    cases o with
    | pad =>
      obtain ⟨hi, hpad, -⟩ := rest_cons harea'
      rw [Iter.run, optionRound, if_pos hi, index_ok hi, ok_bind, hpad, if_pos rfl,
        addUsize_ok (by omega), ok_bind]
      exact ih hbehind (by omega)
    | tlv t =>
      have htlv : area.drop i = t.code :: .ofNat t.value.length ::
        (t.value ++ (optBytes opts ++ 255 :: rest)) := harea'
      obtain ⟨hi, hcode, h₁⟩ := rest_cons htlv
      obtain ⟨hi₁, hlen, h₂⟩ := rest_cons h₁
      have hvalue : (UInt8.ofNat t.value.length).toNat = t.value.length :=
        UInt8.toNat_ofNat_of_lt' (Nat.lt_succ_of_le t.size)
      have hfit : i + 2 + t.value.length ≤ area.length := by
        have h := length_rest h₂
        rw [List.length_append, List.length_append, List.length_cons] at h
        omega
      have hstop : i + 2 + t.value.length - (i + 2) = t.value.length := by omega
      rw [Iter.run, optionRound, if_pos hi, index_ok hi, ok_bind, hcode, if_neg t.code_ne_pad,
        if_neg t.code_ne_end, addUsize_ok (by omega), ok_bind, if_neg (by omega), index_ok hi₁,
        ok_bind, hlen, hvalue, addUsize_ok (by omega), ok_bind, addUsize_ok (by omega), ok_bind,
        if_neg (by omega), lookup]
      by_cases hmatch : t.code = code
      · rw [if_pos hmatch, if_pos hmatch, sub_ok (by omega), ok_bind, hstop, slice_rest h₂]
        rfl
      · rw [if_neg hmatch, if_neg hmatch, addUsize_ok (by omega), ok_bind, addUsize_ok (by omega),
          ok_bind]
        have hnext : i + (2 + t.value.length) = i + (Opt.tlv t).bytes.length := by
          change _ = i + (t.value.length + 1 + 1)
          omega
        rw [← hnext] at hbehind
        exact ih hbehind (by omega)

theorem option_optBytes {opts : List Opt} {rest : Bytes}
    (hsize : (optBytes opts ++ 255 :: rest).length < 2 ^ 63) (code : UInt8) :
    option (optBytes opts ++ 255 :: rest) code = .ok (lookup code opts) := by
  refine option_run hsize code opts (List.drop_zero ..) ?_
  have := length_le_optBytes opts
  rw [List.length_append]
  omega

/-- `u32::to_be_bytes`. -/
def beBytes32 (x : UInt32) : Bytes :=
  [.ofNat (x.toNat / 2 ^ 24), .ofNat (x.toNat / 2 ^ 16), .ofNat (x.toNat / 2 ^ 8), .ofNat x.toNat]

/-- A message: the fixed part, the options, the end marker and anything behind it. -/
def message (fixed : Vector UInt8 240) (opts : List Opt) (rest : Bytes) : Bytes :=
  fixed.toList ++ (optBytes opts ++ 255 :: rest)

/-- The message is a reply of this type to this transaction. -/
structure IsReply (fixed : Vector UInt8 240) (opts : List Opt) (xid : UInt32) (msgType : UInt8) :
    Prop where
  op : byteAt fixed.toList 0 = 2
  xid : slice fixed.toList 4 4 = beBytes32 xid
  magic : slice fixed.toList 236 4 = [0x63, 0x82, 0x53, 0x63]
  msgType : (lookup 53 opts).bind List.head? = some msgType

instance (fixed : Vector UInt8 240) (opts : List Opt) (xid : UInt32) (msgType : UInt8) :
    Decidable (IsReply fixed opts xid msgType) :=
  decidable_of_iff (byteAt fixed.toList 0 = 2 ∧ slice fixed.toList 4 4 = beBytes32 xid ∧
    slice fixed.toList 236 4 = [0x63, 0x82, 0x53, 0x63] ∧
    (lookup 53 opts).bind List.head? = some msgType)
    ⟨fun ⟨h₁, h₂, h₃, h₄⟩ => ⟨h₁, h₂, h₃, h₄⟩, fun ⟨h₁, h₂, h₃, h₄⟩ => ⟨h₁, h₂, h₃, h₄⟩⟩

section Replies

variable {fixed : Vector UInt8 240} {opts : List Opt} {rest : Bytes}
  (hsize : (message fixed opts rest).length < 2 ^ 63) (xid : UInt32)

omit hsize in
variable (fixed opts rest) in
theorem length_message : (message fixed opts rest).length =
    240 + (optBytes opts ++ 255 :: rest).length := by
  rw [message, List.length_append, fixed.length_toList]

omit hsize in
theorem sub_options : sub (message fixed opts rest) 240 (message fixed opts rest).length =
    .ok (optBytes opts ++ 255 :: rest) := by
  have hsub := sub_append (a := fixed.toList) fixed.length_toList rfl
    (b := optBytes opts ++ 255 :: rest) []
  rwa [List.append_nil, ← length_message] at hsub

include hsize in
theorem option_message (code : UInt8) :
    option (optBytes opts ++ 255 :: rest) code = .ok (lookup code opts) :=
  option_optBytes (by rw [length_message] at hsize; omega) code

include hsize in
theorem isReply_message (msgType : UInt8) :
    isReply (message fixed opts rest) xid msgType = .ok (decide (IsReply fixed opts xid msgType)) := by
  have hlen := length_message fixed opts rest
  have hfixed : fixed.toList.length = 240 := fixed.length_toList
  have hsub (i n : Nat) (h : i + n ≤ 240) :
      sub (message fixed opts rest) i (i + n) = .ok (slice fixed.toList i n) := by
    rw [sub_ok (by omega), Nat.add_sub_cancel_left, message, slice_append_left (by omega)]
  have hxid : [.ofNat (xid.toNat / 2 ^ 24), .ofNat (xid.toNat / 2 ^ 16),
    .ofNat (xid.toNat / 2 ^ 8), .ofNat xid.toNat] = beBytes32 xid := rfl
  have hop : byteAt (message fixed opts rest) 0 = byteAt fixed.toList 0 :=
    byteAt_append_left (by omega)
  rw [isReply, if_neg (by omega), index_ok (by omega), ok_bind, hop]
  by_cases h₁ : byteAt fixed.toList 0 = 2
  case neg =>
    rw [if_pos h₁, decide_eq_false fun h => h₁ h.op]
    rfl
  rw [if_neg (not_not.mpr h₁), hsub 4 4 (by omega), ok_bind, hxid]
  by_cases h₂ : slice fixed.toList 4 4 = beBytes32 xid
  case neg =>
    rw [if_pos h₂, decide_eq_false fun h => h₂ h.xid]
    rfl
  rw [if_neg (not_not.mpr h₂), hsub 236 4 (by omega), ok_bind]
  by_cases h₃ : slice fixed.toList 236 4 = [0x63, 0x82, 0x53, 0x63]
  case neg =>
    rw [if_pos h₃, decide_eq_false fun h => h₃ h.magic]
    rfl
  rw [if_neg (not_not.mpr h₃), sub_options, ok_bind, option_message hsize, ok_bind]
  by_cases h₄ : (lookup 53 opts).bind List.head? = some msgType
  · rw [h₄, decide_eq_true ⟨h₁, h₂, h₃, h₄⟩, beq_self_eq_true]
    rfl
  · rw [beq_false_of_ne h₄, decide_eq_false fun h => h₄ h.msgType]
    rfl

def yourIp (fixed : Vector UInt8 240) : Bytes := slice fixed.toList 16 4

/-- The server that a reply names, or zeros. -/
def serverId (opts : List Opt) : Bytes :=
  match lookup 54 opts with
  | some s => if 4 ≤ s.length then s.take 4 else [0, 0, 0, 0]
  | none => [0, 0, 0, 0]

include hsize in
theorem parseAck_message : parseAck (message fixed opts rest) xid =
    .ok (if IsReply fixed opts xid 5 then some (yourIp fixed) else none) := by
  have hlen := length_message fixed opts rest
  have hip : slice (message fixed opts rest) 16 4 = yourIp fixed :=
    slice_append_left (by rw [fixed.length_toList]; omega)
  rw [parseAck, isReply_message hsize, ok_bind]
  by_cases h : IsReply fixed opts xid 5
  · rw [decide_eq_true h, if_pos h, if_neg (by decide), array_ok (by omega), ok_bind, hip]
    rfl
  · rw [decide_eq_false h, if_neg h, if_pos (by decide)]
    rfl

include hsize in
theorem parseOffer_message : parseOffer (message fixed opts rest) xid =
    .ok (if IsReply fixed opts xid 2 then some ⟨yourIp fixed, serverId opts⟩ else none) := by
  have hlen := length_message fixed opts rest
  have hip : slice (message fixed opts rest) 16 4 = yourIp fixed :=
    slice_append_left (by rw [fixed.length_toList]; omega)
  rw [parseOffer, isReply_message hsize, ok_bind]
  by_cases h : IsReply fixed opts xid 2
  case neg =>
    rw [decide_eq_false h, if_neg h, if_pos (by decide)]
    rfl
  rw [decide_eq_true h, if_pos h, if_neg (by decide), array_ok (by omega), ok_bind, hip, sub_options,
    ok_bind, option_message hsize, ok_bind, serverId]
  cases lookup 54 opts with
  | none => rfl
  | some s =>
    by_cases hs : 4 ≤ s.length
    · simp only [ge_iff_le, if_pos hs]
      rw [array_ok (by omega)]
      rfl
    · simp only [ge_iff_le, if_neg hs]
      rfl

end Replies

theorem isReply_msgType {payload : Bytes} {xid : UInt32} {msgType : UInt8}
    (h : isReply payload xid msgType = .ok true) :
    ∃ opts value, sub payload 240 payload.length = .ok opts ∧ option opts 53 = .ok value ∧
      value.bind List.head? = some msgType := by
  rw [isReply] at h
  have hstop {c : Prop} [Decidable c] {k : Checked Bool}
      (h : (if c then pure false else k) = .ok true) : k = .ok true := by
    by_cases hc : c
    · rw [if_pos hc] at h
      cases h
    · rwa [if_neg hc] at h
  obtain ⟨op, -, h⟩ := Except.bind_eq_ok_iff.mp (hstop h)
  obtain ⟨id, -, h⟩ := Except.bind_eq_ok_iff.mp (hstop h)
  obtain ⟨magic, -, h⟩ := Except.bind_eq_ok_iff.mp (hstop h)
  obtain ⟨opts, hopts, h⟩ := Except.bind_eq_ok_iff.mp (hstop h)
  obtain ⟨value, hvalue, h⟩ := Except.bind_eq_ok_iff.mp h
  exact ⟨opts, value, hopts, hvalue, eq_of_beq (Except.pure_eq_ok_iff.mp h)⟩

theorem offer_not_ack {payload : Bytes} {xid : UInt32} {offer : Offer} {ip : Bytes}
    (hoffer : parseOffer payload xid = .ok (some offer)) :
    parseAck payload xid ≠ .ok (some ip) := by
  intro hack
  have hpass {msgType : UInt8} {α : Type} {k : Checked (Option α)} {a : α}
      (h : (isReply payload xid msgType >>= fun reply => if !reply then pure none else k) =
        .ok (some a)) : isReply payload xid msgType = .ok true := by
    obtain ⟨reply, hreply, h⟩ := Except.bind_eq_ok_iff.mp h
    cases reply with
    | false => cases h
    | true => exact hreply
  obtain ⟨opts, value, hopts, hvalue, htype⟩ := isReply_msgType (hpass hoffer)
  obtain ⟨opts', value', hopts', hvalue', htype'⟩ := isReply_msgType (hpass hack)
  obtain rfl := Except.ok.inj (hopts.symm.trans hopts')
  obtain rfl := Except.ok.inj (hvalue.symm.trans hvalue')
  exact absurd (htype.symm.trans htype') (by decide)

/-- What `build_discover` and `build_request` write in front of the options. -/
def buildFixed (xid : UInt32) (clientMac : Mac) (p : Bytes) : Checked Bytes := do
  let p ← store p 0 1
  let p ← store p 1 1
  let p ← store p 2 6
  let p ← copy p 4 8 (beBytes32 xid)
  let p ← copy p 10 12 (toBeBytes 0x8000)
  let p ← copy p 28 34 clientMac.toList
  copy p 236 240 [0x63, 0x82, 0x53, 0x63]

/-- `build_discover`: the length and the buffer. -/
def buildDiscover (xid : UInt32) (clientMac : Mac) (out : Bytes) : Checked (Nat × Bytes) := do
  let p ← sub out 0 244
  let p ← buildFixed xid clientMac (List.replicate p.length 0)
  let p ← store p 240 53
  let p ← store p 241 1
  let p ← store p 242 1
  let p ← store p 243 255
  return (244, splice out 0 p)

/-- `build_request`: the length and the buffer. -/
def buildRequest (xid : UInt32) (clientMac : Mac) (requestedIp serverId : Ip) (out : Bytes) :
    Checked (Nat × Bytes) := do
  let p ← sub out 0 256
  let p ← buildFixed xid clientMac (List.replicate p.length 0)
  let p ← store p 240 53
  let p ← store p 241 1
  let p ← store p 242 3
  let p ← store p 243 50
  let p ← store p 244 4
  let p ← copy p 245 249 requestedIp.toList
  let p ← store p 249 54
  let p ← store p 250 4
  let p ← copy p 251 255 serverId.toList
  let p ← store p 255 255
  return (256, splice out 0 p)

def requestFixed (xid : UInt32) (clientMac : Mac) : Bytes :=
  [1, 1, 6, 0] ++ beBytes32 xid ++ [0, 0, 0x80, 0] ++ List.replicate 16 0 ++ clientMac.toList ++
    List.replicate 202 0 ++ [0x63, 0x82, 0x53, 0x63]

theorem zeros_next (w : Bytes) (n : Nat) {i j : Nat} (hij : i ≤ j) (hj : j ≤ n) :
    w ++ (List.replicate n (0 : UInt8)).drop i =
      w ++ List.replicate (j - i) 0 ++ (List.replicate n (0 : UInt8)).drop j := by
  rw [List.drop_replicate, List.drop_replicate, List.append_assoc, List.replicate_append_replicate]
  congr 2
  omega

theorem buildFixed_ok (xid : UInt32) (clientMac : Mac) {n : Nat} (hn : 240 ≤ n) :
    buildFixed xid clientMac (List.replicate n 0) =
      .ok (requestFixed xid clientMac ++ (List.replicate n 0).drop 240) := by
  have hlen : (List.replicate n (0 : UInt8)).length = n := List.length_replicate
  have hfirst : store (List.replicate n 0) 0 1 = .ok ([1] ++ (List.replicate n 0).drop 1) :=
    store_next (w := []) rfl (by omega)
  rw [buildFixed, hfirst, ok_bind, store_next (by rfl) (by omega), ok_bind,
    store_next (by rfl) (by omega), ok_bind, zeros_next _ n (j := 4) (by omega) (by omega),
    copy_next (by rfl) (by rfl) (by omega), ok_bind, zeros_next _ n (j := 10) (by omega) (by omega),
    copy_next (by rfl) (by rfl) (by omega), ok_bind, zeros_next _ n (j := 28) (by omega) (by omega),
    copy_next (by rfl) (by simp) (by omega), ok_bind,
    zeros_next _ n (j := 236) (by omega) (by omega), copy_next ?_ (by rfl) (by omega)]
  · rfl
  · simp only [List.length_append, List.length_replicate, Vector.length_toList]
    rfl

@[simp] theorem length_requestFixed (xid : UInt32) (clientMac : Mac) :
    (requestFixed xid clientMac).length = 240 := by
  simp only [requestFixed, List.length_append, List.length_replicate, Vector.length_toList]
  rfl

def requestOpts (requestedIp serverId : Ip) : List Opt :=
  [.tlv ⟨53, [3], by decide, by decide, by decide⟩,
    .tlv ⟨50, requestedIp.toList, by decide, by decide, by simp⟩,
    .tlv ⟨54, serverId.toList, by decide, by decide, by simp⟩]

theorem optBytes_requestOpts (requestedIp serverId : Ip) :
    optBytes (requestOpts requestedIp serverId) ++ [255] =
      [53, 1, 3] ++ [50, 4] ++ requestedIp.toList ++ [54, 4] ++ serverId.toList ++ [255] := by
  simp [optBytes, requestOpts, Opt.bytes]

theorem buildRequest_ok (xid : UInt32) (clientMac : Mac) (requestedIp serverId : Ip) {out : Bytes}
    (hout : 256 ≤ out.length) :
    buildRequest xid clientMac requestedIp serverId out = .ok (256, requestFixed xid clientMac ++
      (optBytes (requestOpts requestedIp serverId) ++ [255]) ++ out.drop 256) := by
  have hlen : (List.replicate 256 (0 : UInt8)).length = 256 := List.length_replicate
  have hslice : (slice out 0 (256 - 0)).length = 256 := length_slice (by omega)
  rw [buildRequest, sub_ok (by omega), ok_bind, hslice, buildFixed_ok xid clientMac (by omega),
    ok_bind, store_next (by simp) (by omega), ok_bind, store_next (by simp) (by omega), ok_bind,
    store_next (by simp) (by omega), ok_bind, store_next (by simp) (by omega), ok_bind,
    store_next (by simp) (by omega), ok_bind, copy_next (by simp) (by simp) (by omega), ok_bind,
    store_next (by simp) (by omega), ok_bind, store_next (by simp) (by omega), ok_bind,
    copy_next (by simp) (by simp) (by omega), ok_bind, store_next (by simp) (by omega), ok_bind,
    List.drop_of_length_le hlen.le, List.append_nil]
  have hbytes : requestFixed xid clientMac ++ [53] ++ [1] ++ [3] ++ [50] ++ [4] ++
      requestedIp.toList ++ [54] ++ [4] ++ serverId.toList ++ [255] = requestFixed xid clientMac ++
        (optBytes (requestOpts requestedIp serverId) ++ [255]) := by
    rw [optBytes_requestOpts]
    simp only [List.append_assoc]
    rfl
  have hwhole : (requestFixed xid clientMac ++
      (optBytes (requestOpts requestedIp serverId) ++ [255])).length = 256 := by
    rw [optBytes_requestOpts]
    simp
  rw [hbytes, splice, hwhole, List.take_zero, List.nil_append]
  rfl

theorem option_request (xid : UInt32) (clientMac : Mac) {opts : List Opt} {n : Nat}
    (hn : 240 + (optBytes opts ++ [255]).length = n) (hsize : n < 2 ^ 63) (l : Bytes) (code : UInt8) :
    option (((requestFixed xid clientMac ++ (optBytes opts ++ [255]) ++ l).take n).drop 240) code =
      .ok (lookup code opts) := by
  rw [List.take_left' (by rw [List.length_append, length_requestFixed, hn]),
    List.drop_left' (length_requestFixed xid clientMac)]
  exact option_optBytes (by omega) code

theorem buildDiscover_ok (xid : UInt32) (clientMac : Mac) {out : Bytes} (hout : 244 ≤ out.length) :
    buildDiscover xid clientMac out = .ok (244, requestFixed xid clientMac ++
      (optBytes [.tlv ⟨53, [1], by decide, by decide, by decide⟩] ++ [255]) ++ out.drop 244) := by
  have hlen : (List.replicate 244 (0 : UInt8)).length = 244 := List.length_replicate
  have hslice : (slice out 0 (244 - 0)).length = 244 := length_slice (by omega)
  rw [buildDiscover, sub_ok (by omega), ok_bind, hslice, buildFixed_ok xid clientMac (by omega),
    ok_bind, store_next (by simp) (by omega), ok_bind, store_next (by simp) (by omega), ok_bind,
    store_next (by simp) (by omega), ok_bind, store_next (by simp) (by omega), ok_bind,
    List.drop_of_length_le hlen.le, List.append_nil, List.append_assoc, List.append_assoc,
    List.append_assoc, splice, List.length_append, length_requestFixed, List.take_zero,
    List.nil_append]
  rfl

theorem discover_reads_back (xid : UInt32) (clientMac : Mac) {out : Bytes} (hout : 244 ≤ out.length) :
    ∃ n out', buildDiscover xid clientMac out = .ok (n, out') ∧
      ∀ code, option ((out'.take n).drop 240) code =
        .ok (if code = 53 then some [1] else none) := by
  refine ⟨_, _, buildDiscover_ok xid clientMac hout, fun code => ?_⟩
  rw [option_request xid clientMac (by rfl) (by decide)]
  simp only [lookup, eq_comm]

end Dhcp

/-- DHCP messages are decoded as their grammar says, no payload is both an offer and an
acknowledgement, and a request reads back as what it asks for. -/
theorem dhcp_decodes (fixed : Vector UInt8 240) (opts : List Dhcp.Opt) (rest payload : Bytes)
    (xid : UInt32) (clientMac : Mac) (requestedIp serverId : Ip) (out : Bytes)
    (hsize : (Dhcp.message fixed opts rest).length < 2 ^ 63) (hout : 256 ≤ out.length) :
    Dhcp.parseOffer (Dhcp.message fixed opts rest) xid = .ok (if Dhcp.IsReply fixed opts xid 2 then
      some ⟨Dhcp.yourIp fixed, Dhcp.serverId opts⟩ else none) ∧
    Dhcp.parseAck (Dhcp.message fixed opts rest) xid = .ok (if Dhcp.IsReply fixed opts xid 5 then
      some (Dhcp.yourIp fixed) else none) ∧
    (∀ offer ip, Dhcp.parseOffer payload xid = .ok (some offer) →
      Dhcp.parseAck payload xid ≠ .ok (some ip)) ∧
    ∃ n out', Dhcp.buildRequest xid clientMac requestedIp serverId out = .ok (n, out') ∧
      ∀ code, Dhcp.option ((out'.take n).drop 240) code = .ok (if code = 53 then some [3]
        else if code = 50 then some requestedIp.toList
        else if code = 54 then some serverId.toList else none) := by
  refine ⟨Dhcp.parseOffer_message hsize xid, Dhcp.parseAck_message hsize xid,
    fun offer ip hoffer => Dhcp.offer_not_ack hoffer, _, _,
    Dhcp.buildRequest_ok xid clientMac requestedIp serverId hout, fun code => ?_⟩
  rw [Dhcp.option_request xid clientMac (by rw [Dhcp.optBytes_requestOpts]; simp) (by decide)]
  simp only [Dhcp.requestOpts, Dhcp.lookup, eq_comm]

/-- The fixed part of an offer of 10.0.2.15. -/
def sampleFixed : Vector UInt8 240 :=
  ⟨([2, 1, 6, 0, 0x12, 0x34, 0x56, 0x78] ++ List.replicate 8 0 ++ [10, 0, 2, 15] ++
    List.replicate 216 0 ++ [0x63, 0x82, 0x53, 0x63] : Bytes).toArray, by decide +kernel⟩

/-- A pad before the type of the message. -/
def sampleOpts : List Dhcp.Opt := [.pad, .tlv ⟨53, [2], by decide, by decide, by decide⟩]

theorem dhcp_decodes_sample :
    (Dhcp.message sampleFixed sampleOpts []).length < 2 ^ 63 ∧
      256 ≤ (List.replicate 300 (0 : UInt8)).length ∧
      Dhcp.parseOffer (Dhcp.message sampleFixed sampleOpts []) 0x12345678 =
        .ok (some ⟨[10, 0, 2, 15], [0, 0, 0, 0]⟩) := by
  refine ⟨by decide +kernel, by decide +kernel, ?_⟩
  have h := (dhcp_decodes sampleFixed sampleOpts [] [] 0x12345678 #v[2, 0, 0, 0, 0, 1]
    #v[10, 0, 2, 15] #v[10, 0, 2, 2] (List.replicate 300 0) (by decide +kernel)
    (by decide +kernel)).1
  rw [h]
  decide +kernel

end Net

end Perenne

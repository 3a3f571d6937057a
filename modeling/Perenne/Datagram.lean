import Perenne.Checksum
import Mathlib.Data.List.Basic

namespace Perenne

namespace Net

theorem exists_mac (v : Mac) : ∃ a b c d e f, v.toList = [a, b, c, d, e, f] := by
  obtain ⟨⟨l⟩, h⟩ := v
  obtain ⟨a, l, rfl⟩ := List.exists_cons_of_length_eq_add_one h
  obtain ⟨b, l, rfl⟩ := List.exists_cons_of_length_eq_add_one (Nat.succ.inj h)
  obtain ⟨c, d, e, f, rfl⟩ := List.length_eq_four.mp (Nat.succ.inj (Nat.succ.inj h))
  exact ⟨a, b, c, d, e, f, rfl⟩

theorem exists_ip (v : Ip) : ∃ a b c d, v.toList = [a, b, c, d] := List.length_eq_four.mp (by simp)

namespace Ipv4

/-- An IPv4 header up to its options. -/
structure Header where
  ihl : Nat
  tos : UInt8
  total : UInt16
  ident : UInt16
  flags : UInt16
  ttl : UInt8
  proto : UInt8
  csum : UInt16
  srcIp : Ip
  dstIp : Ip

def Header.before (h : Header) : Bytes :=
  [.ofNat (0x40 + h.ihl), h.tos] ++ toBeBytes h.total.toNat ++ toBeBytes h.ident.toNat ++
    toBeBytes h.flags.toNat ++ [h.ttl, h.proto]

def Header.bytes (h : Header) : Bytes :=
  h.before ++ (toBeBytes h.csum.toNat ++ (h.srcIp.toList ++ h.dstIp.toList))

@[simp] theorem Header.length_before (h : Header) : h.before.length = 10 := by
  simp [before]

@[simp] theorem Header.length_bytes (h : Header) : h.bytes.length = 20 := by
  simp [bytes]

theorem Header.bytes_csum (h : Header) (csum : UInt16) : { h with csum := csum }.bytes =
    h.before ++ (toBeBytes csum.toNat ++ (h.srcIp.toList ++ h.dstIp.toList)) := rfl

def Header.stamped (h : Header) : Header :=
  { h with csum := .ofNat (filled { h with csum := 0 }.bytes) }

theorem Header.bytes_stamped (h : Header) : h.stamped.bytes =
    h.before ++ (toBeBytes (filled { h with csum := 0 }.bytes) ++
      (h.srcIp.toList ++ h.dstIp.toList)) := by
  rw [stamped, bytes_csum, UInt16.toNat_ofNat_of_lt' (filled_lt _)]

theorem Header.checksum_stamped (h : Header) : checksum h.stamped.bytes = .ok 0 := by
  have hzero := h.bytes_csum 0
  rw [show toBeBytes (0 : UInt16).toNat = [0, 0] from rfl] at hzero
  rw [bytes_stamped, hzero]
  exact checksum_filled (by simp) _ (by simp)

/-- The header of a packet of `build_header`, before it is stamped. -/
def blank (srcIp dstIp : Ip) (proto : UInt8) (payloadLen : Nat) (ident : UInt16) : Header :=
  { ihl := 5, tos := 0, total := .ofNat (20 + payloadLen), ident, flags := 0, ttl := 64, proto,
    csum := 0, srcIp, dstIp }

theorem buildHeader_ok (srcIp dstIp : Ip) (proto : UInt8) {payloadLen : Nat} (ident : UInt16)
    {out : Bytes} (hlen : payloadLen < 2 ^ 63) (hout : out.length = 20) :
    buildHeader srcIp.toList dstIp.toList proto payloadLen ident.toNat out =
      .ok (blank srcIp dstIp proto payloadLen ident).stamped.bytes := by
  have hall : slice out 0 (20 - 0) = out := by
    rw [slice, List.drop_zero, List.take_of_length_le (by omega)]
  have hfirst : store out 0 0x45 = .ok ([0x45] ++ out.drop 1) :=
    store_next (w := []) rfl (by omega)
  have hsrc : srcIp.toList.length = 4 := srcIp.length_toList
  have hdst : dstIp.toList.length = 4 := dstIp.length_toList
  have hfields : [0x45] ++ [0] ++ toBeBytes ((20 + payloadLen) % 2 ^ 16) ++ toBeBytes ident.toNat ++
      toBeBytes 0 ++ [64] ++ [proto] = (blank srcIp dstIp proto payloadLen ident).before := by
    rw [Header.before, blank, UInt16.toNat_ofNat']
    rfl
  have hblank : (blank srcIp dstIp proto payloadLen ident).before ++ toBeBytes 0 ++
      srcIp.toList ++ dstIp.toList = (blank srcIp dstIp proto payloadLen ident).bytes := by
    rw [Header.bytes, List.append_assoc, List.append_assoc]
    rfl
  have hstamp : copy (blank srcIp dstIp proto payloadLen ident).bytes 10 12
      (toBeBytes (filled (blank srcIp dstIp proto payloadLen ident).bytes)) =
      .ok (blank srcIp dstIp proto payloadLen ident).stamped.bytes := by
    have hzero : { blank srcIp dstIp proto payloadLen ident with csum := 0 } =
      blank srcIp dstIp proto payloadLen ident := rfl
    rw [Header.bytes_stamped, hzero]
    generalize filled (blank srcIp dstIp proto payloadLen ident).bytes = csum
    exact copy_over (Header.length_before _) rfl rfl
  rw [buildHeader, sub_ok (by omega), ok_bind, hall, hfirst, ok_bind,
    store_next (by rfl) (by omega), ok_bind, addUsize_ok (by omega), ok_bind,
    copy_next (by rfl) (by rfl) (by omega), ok_bind, copy_next (by rfl) (by rfl) (by omega), ok_bind,
    copy_next (by rfl) (by rfl) (by omega), ok_bind, store_next (by rfl) (by omega), ok_bind,
    store_next (by rfl) (by omega), ok_bind, copy_next (by rfl) (by rfl) (by omega), ok_bind,
    copy_next (by rfl) (by rw [hsrc]) (by omega), ok_bind,
    copy_next (by rw [List.length_append, hsrc]; rfl) (by rw [hdst]) (by omega), ok_bind,
    List.drop_of_length_le hout.le, List.append_nil, hfields, hblank, checksum_ok (by simp), ok_bind,
    hstamp, ok_bind, splice, Header.length_bytes, List.take_zero, List.nil_append,
    List.drop_of_length_le (by omega), List.append_nil]
  rfl

end Ipv4

/-- An IPv4 packet in an Ethernet frame, with everything behind the fixed part of its header. -/
def ipFrame (dstMac srcMac : Mac) (h : Ipv4.Header) (rest : Bytes) : Bytes :=
  dstMac.toList ++ (srcMac.toList ++ (toBeBytes 0x0800 ++ (h.bytes ++ rest)))

section Layout

variable (dstMac srcMac : Mac) (h : Ipv4.Header) (rest : Bytes)

@[simp] theorem length_ipFrame : (ipFrame dstMac srcMac h rest).length = 34 + rest.length := by
  simp only [ipFrame, List.length_append, Vector.length_toList, length_toBeBytes,
    Ipv4.Header.length_bytes]
  omega

theorem ipFrame_append (l : Bytes) :
    ipFrame dstMac srcMac h rest ++ l = ipFrame dstMac srcMac h (rest ++ l) := by
  simp only [ipFrame, List.append_assoc]

theorem drop_ipFrame (i : Nat) : (ipFrame dstMac srcMac h rest).drop (34 + i) = rest.drop i := by
  have hhead : (ipFrame dstMac srcMac h []).length = 34 := length_ipFrame ..
  rw [← List.nil_append rest, ← ipFrame_append, ← hhead, List.drop_length_add_append,
    List.nil_append]

theorem byteAt_ipFrame (i : Nat) :
    byteAt (ipFrame dstMac srcMac h rest) (34 + i) = byteAt rest i := by
  have hhead : (ipFrame dstMac srcMac h []).length = 34 := length_ipFrame ..
  rw [← List.nil_append rest, ← ipFrame_append, ← hhead, byteAt_append_right, List.nil_append]

theorem wordAt_ipFrame (i : Nat) :
    wordAt (ipFrame dstMac srcMac h rest) (34 + i) = wordAt rest i := by
  rw [wordAt, wordAt, Nat.add_assoc, byteAt_ipFrame, byteAt_ipFrame]

variable {dstMac srcMac h} in
theorem store_ipFrame {w l : Bytes} {x b : UInt8} {i : Nat} (hi : 34 + w.length = i) :
    store (ipFrame dstMac srcMac h (w ++ x :: l)) i b =
      .ok (ipFrame dstMac srcMac h (w ++ b :: l)) := by
  rw [← ipFrame_append, store_over (by rw [length_ipFrame, hi]), ipFrame_append]

variable {dstMac srcMac h} in
theorem copy_ipFrame {w old part l : Bytes} {i j : Nat} (hi : 34 + w.length = i)
    (hj : i + old.length = j) (hpart : part.length = old.length) :
    copy (ipFrame dstMac srcMac h (w ++ (old ++ l))) i j part =
      .ok (ipFrame dstMac srcMac h (w ++ (part ++ l))) := by
  rw [← ipFrame_append, copy_over (by rw [length_ipFrame, hi]) hj hpart, ipFrame_append]

variable {dstMac srcMac h} in
theorem sub_ipFrame {part l : Bytes} {j : Nat} (hj : 34 + part.length = j) :
    sub (ipFrame dstMac srcMac h (part ++ l)) 34 j = .ok part := by
  rw [← List.nil_append (part ++ l), ← ipFrame_append]
  exact sub_append (a := ipFrame dstMac srcMac h []) (length_ipFrame ..) hj l

/-- What the fixed part of a frame says. -/
structure IpFields (frame : Bytes) : Prop where
  ethertype : wordAt frame 12 = 0x0800
  first : byteAt frame 14 = .ofNat (0x40 + h.ihl)
  total : wordAt frame 16 = h.total.toNat
  proto : byteAt frame 23 = h.proto
  dst : slice frame 0 6 = dstMac.toList
  src : slice frame 6 6 = srcMac.toList
  header : slice frame 14 20 = h.bytes
  srcIp : slice frame 26 4 = h.srcIp.toList
  dstIp : slice frame 30 4 = h.dstIp.toList

theorem ipFrame_fields : IpFields dstMac srcMac h (ipFrame dstMac srcMac h rest) := by
  have hethertype := wordAt_toBeBytes (n := 0x0800) (by decide) []
  have htotal := wordAt_toBeBytes h.total.toNat_lt []
  obtain ⟨d₀, d₁, d₂, d₃, d₄, d₅, hd⟩ := exists_mac dstMac
  obtain ⟨s₀, s₁, s₂, s₃, s₄, s₅, hs⟩ := exists_mac srcMac
  obtain ⟨a₀, a₁, a₂, a₃, ha⟩ := exists_ip h.srcIp
  obtain ⟨b₀, b₁, b₂, b₃, hb⟩ := exists_ip h.dstIp
  have hbytes : ipFrame dstMac srcMac h rest = [d₀, d₁, d₂, d₃, d₄, d₅, s₀, s₁, s₂, s₃, s₄, s₅] ++
      (toBeBytes 0x0800 ++ (h.before ++ (toBeBytes h.csum.toNat ++
        ([a₀, a₁, a₂, a₃, b₀, b₁, b₂, b₃] ++ rest)))) := by
    simp only [ipFrame, Ipv4.Header.bytes, hd, hs, ha, hb, List.append_assoc]
    rfl
  rw [hbytes]
  exact {
    ethertype := hethertype
    first := rfl
    total := htotal
    proto := rfl
    dst := hd.symm
    src := hs.symm
    header := by rw [Ipv4.Header.bytes, ha, hb]; rfl
    srcIp := ha.symm
    dstIp := hb.symm }

theorem headerLen_ipFrame (hihl : h.ihl < 16) :
    headerLen (ipFrame dstMac srcMac h rest) = h.ihl * 4 := by
  have hall : ∀ n < 16, ((UInt8.ofNat (0x40 + n)) &&& 0x0f).toNat = n := by decide
  rw [headerLen, (ipFrame_fields dstMac srcMac h rest).first, hall _ hihl]

end Layout

section Writers

variable (dstMac srcMac : Mac) {out : Bytes} {α : Type} (k : Bytes → Checked α)

theorem ethernet_written (hout : 14 ≤ out.length) :
    (copy out 0 6 dstMac.toList >>= fun out => copy out 6 12 srcMac.toList >>= fun out =>
      copy out 12 14 (toBeBytes 0x0800) >>= k) =
    k (dstMac.toList ++ srcMac.toList ++ toBeBytes 0x0800 ++ out.drop 14) := by
  have hfirst : copy out 0 6 dstMac.toList = .ok (dstMac.toList ++ out.drop 6) :=
    copy_next (w := []) rfl (by simp) (by omega)
  rw [hfirst, ok_bind, copy_next (by simp) (by simp) (by omega), ok_bind,
    copy_next (by simp) (by simp) hout, ok_bind]

theorem header_written (srcIp dstIp : Ip) (proto : UInt8) {payloadLen id : Nat} (ident : UInt16)
    (hid : ident.toNat = id) (hlen : payloadLen < 2 ^ 63) (hout : 34 ≤ out.length) :
    (sub (dstMac.toList ++ srcMac.toList ++ toBeBytes 0x0800 ++ out.drop 14) 14 34 >>= fun h =>
      Ipv4.buildHeader srcIp.toList dstIp.toList proto payloadLen id h >>= fun h =>
        copy (dstMac.toList ++ srcMac.toList ++ toBeBytes 0x0800 ++ out.drop 14) 14 34 h >>= k) =
    k (ipFrame dstMac srcMac (Ipv4.blank srcIp dstIp proto payloadLen ident).stamped [] ++
      out.drop 34) := by
  have hwhole : (dstMac.toList ++ srcMac.toList ++ toBeBytes 0x0800 ++ out.drop 14).length =
      out.length := by
    simp only [List.length_append, Vector.length_toList, length_toBeBytes, List.length_drop]
    omega
  rw [sub_ok (by omega), ok_bind, ← hid,
    Ipv4.buildHeader_ok srcIp dstIp proto ident hlen (length_slice (by omega)), ok_bind,
    copy_next (by simp) (by simp) hout, ok_bind]
  simp only [ipFrame, List.append_nil, List.append_assoc]

end Writers

namespace Udp

/-- `udp::build`: the length and the buffer. -/
def build (srcMac dstMac : Mac) (srcIp dstIp : Ip) (srcPort dstPort ident : UInt16)
    (payload frame : Bytes) : Checked (Nat × Bytes) := do
  let frame ← copy frame 0 6 dstMac.toList
  let frame ← copy frame 6 12 srcMac.toList
  let frame ← copy frame 12 14 (toBeBytes 0x0800)
  let udpLen ← addUsize 8 payload.length
  let h ← sub frame 14 34
  let h ← Ipv4.buildHeader srcIp.toList dstIp.toList 17 udpLen ident.toNat h
  let frame ← copy frame 14 34 h
  let frame ← copy frame 34 36 (toBeBytes srcPort.toNat)
  let frame ← copy frame 36 38 (toBeBytes dstPort.toNat)
  let frame ← copy frame 38 40 (toBeBytes (udpLen % 2 ^ 16))
  let frame ← copy frame 40 42 (toBeBytes 0)
  let stop ← addUsize 42 payload.length
  let frame ← copy frame 42 stop payload
  return (stop, frame)

def datagram (srcPort dstPort : UInt16) (payload : Bytes) : Bytes :=
  toBeBytes srcPort.toNat ++ (toBeBytes dstPort.toNat ++ (toBeBytes (8 + payload.length) ++
    (toBeBytes 0 ++ payload)))

section

variable (srcMac dstMac : Mac) (srcIp dstIp : Ip) (srcPort dstPort ident : UInt16)
  {payload frame : Bytes} (hpayload : payload.length ≤ 65507)

include hpayload

theorem build_ok (hframe : 42 + payload.length ≤ frame.length) :
    build srcMac dstMac srcIp dstIp srcPort dstPort ident payload frame =
      .ok (42 + payload.length,
        ipFrame dstMac srcMac (Ipv4.blank srcIp dstIp 17 (8 + payload.length) ident).stamped
          (datagram srcPort dstPort payload) ++ frame.drop (42 + payload.length)) := by
  rw [build, ethernet_written dstMac srcMac _ (by omega), addUsize_ok (by omega), ok_bind,
    header_written dstMac srcMac _ srcIp dstIp 17 ident rfl (by omega) (by omega),
    copy_next (by simp) (by simp) (by omega), ok_bind,
    copy_next (by simp) (by simp) (by omega), ok_bind,
    copy_next (by simp) (by simp) (by omega), ok_bind,
    copy_next (by simp) (by simp) (by omega), ok_bind, addUsize_ok (by omega), ok_bind,
    copy_next (by simp) rfl hframe, ok_bind, Nat.mod_eq_of_lt (by omega)]
  simp only [ipFrame_append, datagram, List.append_assoc, List.nil_append]
  rfl

theorem parse_datagram (h : Ipv4.Header) (hihl : h.ihl = 5) (hproto : h.proto = 17) (pad : Bytes)
    (port : UInt16) :
    parse (ipFrame dstMac srcMac h (datagram srcPort dstPort payload ++ pad)) port =
      .ok (if port = dstPort then some payload else none) := by
  have hlen : (ipFrame dstMac srcMac h (datagram srcPort dstPort payload ++ pad)).length =
      42 + payload.length + pad.length := by
    simp only [length_ipFrame, datagram, List.length_append, length_toBeBytes]
    omega
  have hfields := ipFrame_fields dstMac srcMac h (datagram srcPort dstPort payload ++ pad)
  have hheader := headerLen_ipFrame dstMac srcMac h (datagram srcPort dstPort payload ++ pad)
    (by omega)
  have hport := wordAt_ipFrame dstMac srcMac h (datagram srcPort dstPort payload ++ pad) 2
  have hsize := wordAt_ipFrame dstMac srcMac h (datagram srcPort dstPort payload ++ pad) 4
  have hdata := drop_ipFrame dstMac srcMac h (datagram srcPort dstPort payload ++ pad) 8
  rw [show wordAt (datagram srcPort dstPort payload ++ pad) 2 = dstPort.toNat from
    wordAt_toBeBytes dstPort.toNat_lt []] at hport
  rw [show wordAt (datagram srcPort dstPort payload ++ pad) 4 = 8 + payload.length from
    wordAt_toBeBytes (by omega) []] at hsize
  rw [show (datagram srcPort dstPort payload ++ pad).drop 8 = payload ++ pad from rfl] at hdata
  generalize ipFrame dstMac srcMac h (datagram srcPort dstPort payload ++ pad) = f at *
  rw [parse, if_neg (by omega), field_ok (by omega), ok_bind, hfields.ethertype,
    if_neg (not_not.mpr rfl), ihl_ok (by omega), ok_bind, hheader, hihl, if_pos (by omega)]
  dsimp only
  rw [index_ok (by omega), ok_bind, hfields.proto, hproto, if_neg (not_not.mpr rfl),
    addUsize_ok (by omega), ok_bind, fieldAt_ok (by omega) (by omega), ok_bind, hport]
  by_cases hmine : port = dstPort
  · rw [if_neg (by rw [hmine]; exact not_not.mpr rfl), fieldAt_ok (by omega) (by omega), ok_bind,
      hsize, if_neg (by omega), addUsize_ok (by omega), ok_bind, if_neg (by omega),
      addUsize_ok (by omega), ok_bind, sub_ok (by omega), ok_bind, if_pos hmine, slice, hdata,
      List.take_left' (by omega)]
    rfl
  · rw [if_pos fun heq => hmine (UInt16.toNat_inj.mp heq).symm, if_neg hmine]
    rfl

end

end Udp

/-- A datagram of `udp::build` is read back by `udp::parse`, on its port and no other, whatever
the frame is padded with; what was in the buffer behind it stays there. -/
theorem udp_round_trip (srcMac dstMac : Mac) (srcIp dstIp : Ip) (srcPort dstPort ident : UInt16)
    (payload frame : Bytes) (hpayload : payload.length ≤ 65507)
    (hframe : 42 + payload.length ≤ frame.length) :
    ∃ n frame', Udp.build srcMac dstMac srcIp dstIp srcPort dstPort ident payload frame =
        .ok (n, frame') ∧
      Ipv4.checksum (slice frame' 14 20) = .ok 0 ∧ wordAt frame' 16 = 28 + payload.length ∧
      (∀ pad port, Udp.parse (frame'.take n ++ pad) port =
        .ok (if port = dstPort then some payload else none)) ∧
      frame'.length = frame.length ∧ frame'.drop n = frame.drop n := by
  refine ⟨_, _, Udp.build_ok srcMac dstMac srcIp dstIp srcPort dstPort ident hpayload hframe, ?_⟩
  have hlen (h : Ipv4.Header) : (ipFrame dstMac srcMac h
      (Udp.datagram srcPort dstPort payload)).length = 42 + payload.length := by
    simp only [length_ipFrame, Udp.datagram, List.length_append, length_toBeBytes]
    omega
  have hfields := ipFrame_fields dstMac srcMac
    (Ipv4.blank srcIp dstIp 17 (8 + payload.length) ident).stamped
    (Udp.datagram srcPort dstPort payload ++ frame.drop (42 + payload.length))
  refine ⟨?_, ?_, fun pad port => ?_, ?_, ?_⟩
  · rw [ipFrame_append, hfields.header]
    exact Ipv4.Header.checksum_stamped _
  · rw [ipFrame_append, hfields.total]
    change (UInt16.ofNat (20 + (8 + payload.length))).toNat = 28 + payload.length
    rw [UInt16.toNat_ofNat_of_lt' (by simp only [UInt16.size]; omega)]
    omega
  · rw [List.take_left' (hlen _), ipFrame_append]
    exact Udp.parse_datagram srcMac dstMac srcPort dstPort hpayload _ rfl rfl pad port
  · rw [List.length_append, hlen, List.length_drop]
    omega
  · rw [List.drop_left' (hlen _)]

/-- Two bytes from port 68 to port 67, in a buffer with room to spare. -/
theorem udp_round_trip_pair :
    [0x68, 0x69].length ≤ 65507 ∧ 42 + [0x68, 0x69].length ≤ (List.replicate 64 (0 : UInt8)).length ∧
      ∃ n frame', Udp.build #v[2, 0, 0, 0, 0, 1] #v[2, 0, 0, 0, 0, 2] #v[10, 0, 2, 15] #v[10, 0, 2, 2]
          68 67 1 [0x68, 0x69] (List.replicate 64 0) = .ok (n, frame') ∧
        Udp.parse (frame'.take n ++ [0xff]) 67 = .ok (some [0x68, 0x69]) := by
  refine ⟨by decide, by decide, ?_⟩
  obtain ⟨n, frame', hbuild, -, -, hparse, -⟩ := udp_round_trip #v[2, 0, 0, 0, 0, 1]
    #v[2, 0, 0, 0, 0, 2] #v[10, 0, 2, 15] #v[10, 0, 2, 2] 68 67 1 [0x68, 0x69] (List.replicate 64 0)
    (by decide) (by decide)
  exact ⟨n, frame', hbuild, hparse [0xff] 67⟩

end Net

end Perenne

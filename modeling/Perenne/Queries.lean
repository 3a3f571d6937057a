import Perenne.Wire

namespace Perenne

namespace Net

namespace Dns

/-- The labels of a name, each behind its length. -/
def labelBytes (labels : List Bytes) : Bytes := labels.flatMap fun l => .ofNat l.length :: l

/-- A label has one to sixty-three bytes. -/
def IsLabel (l : Bytes) : Prop := 1 ≤ l.length ∧ l.length ≤ 63

instance : DecidablePred IsLabel := fun _ => inferInstanceAs (Decidable (_ ∧ _))

/-- How a name ends: with the root, or with a pointer to a name that was given before. -/
inductive Ending where
  | root
  | pointer (offset : Fin (2 ^ 14))

def Ending.bytes : Ending → Bytes
  | .root => [0]
  | .pointer offset => toBeBytes (0xc000 + offset.val)

/-- A name on the wire. -/
structure Name where
  labels : List Bytes
  ending : Ending
  valid : ∀ l ∈ labels, IsLabel l

def Name.bytes (name : Name) : Bytes := labelBytes name.labels ++ name.ending.bytes

theorem labelBytes_cons (l : Bytes) (labels : List Bytes) :
    labelBytes (l :: labels) = .ofNat l.length :: (l ++ labelBytes labels) := rfl

theorem length_le_labelBytes (labels : List Bytes) : labels.length ≤ (labelBytes labels).length := by
  induction labels with
  | nil => exact Nat.zero_le _
  | cons l labels ih =>
    rw [labelBytes_cons, List.length_cons, List.length_cons, List.length_append]
    omega

theorem label_byte {n : Nat} (h : 1 ≤ n ∧ n ≤ 63) :
    UInt8.ofNat n &&& 0xc0 ≠ 0xc0 ∧ UInt8.ofNat n ≠ 0 ∧ (UInt8.ofNat n).toNat = n := by
  have hall : ∀ n < 64, 1 ≤ n → UInt8.ofNat n &&& 0xc0 ≠ 0xc0 ∧ UInt8.ofNat n ≠ 0 ∧
      (UInt8.ofNat n).toNat = n := by decide
  exact hall n (by omega) h.1

theorem pointer_byte (offset : Fin (2 ^ 14)) :
    UInt8.ofNat ((0xc000 + offset.val) / 256) &&& 0xc0 = 0xc0 := by
  have hall : ∀ n < 64, UInt8.ofNat (0xc0 + n) &&& 0xc0 = 0xc0 := by decide
  have hoffset := offset.isLt
  have hdiv : (0xc000 + offset.val) / 256 = 0xc0 + offset.val / 256 := by omega
  rw [hdiv]
  exact hall _ (by omega)

section Skip

variable {payload : Bytes} (hsize : payload.length < 2 ^ 63)

include hsize

theorem skipRound_ending (ending : Ending) {i : Nat} {l : Bytes}
    (h : payload.drop i = ending.bytes ++ l) :
    skipRound payload i = .ok (.done (some (i + ending.bytes.length))) := by
  cases ending with
  | root =>
    obtain ⟨hi, -, -⟩ := rest_cons h
    rw [skipRound, getElem?_rest h]
    dsimp only
    rw [if_neg (by decide), if_pos rfl, addUsize_ok (by omega), ok_bind]
    rfl
  | pointer offset =>
    obtain ⟨hi, -, -⟩ := rest_cons h
    rw [skipRound, getElem?_rest h]
    dsimp only
    rw [if_pos (pointer_byte offset), addUsize_ok (by omega), ok_bind]
    rfl

theorem skipName_run (labels : List Bytes) (hlabels : ∀ l ∈ labels, IsLabel l) (ending : Ending)
    {n i : Nat} {rest : Bytes} (h : payload.drop i = labelBytes labels ++ (ending.bytes ++ rest))
    (hn : labels.length < n) :
    Iter.run .hang (skipRound payload) n i =
      .ok (some (i + (labelBytes labels ++ ending.bytes).length)) := by
  induction labels generalizing n i with
  | nil =>
    obtain ⟨n, rfl⟩ : ∃ m, n = m + 1 := ⟨n - 1, by omega⟩
    rw [Iter.run, skipRound_ending hsize ending h]
    rfl
  | cons l labels ih =>
    rw [List.length_cons] at hn
    obtain ⟨n, rfl⟩ : ∃ m, n = m + 1 := ⟨n - 1, by omega⟩
    have h' : payload.drop i = .ofNat l.length :: (l ++ (labelBytes labels ++
        (ending.bytes ++ rest))) := by
      rw [h, labelBytes_cons, List.cons_append, List.append_assoc]
    obtain ⟨hlabel, hroot, hlen⟩ := label_byte (hlabels l List.mem_cons_self)
    obtain ⟨hi, -, hbehind⟩ := rest_cons h'
    have hle := (hlabels l List.mem_cons_self).2
    rw [Iter.run, skipRound, getElem?_rest h']
    dsimp only
    rw [if_neg hlabel, if_neg hroot, hlen, addUsize_ok (by omega), ok_bind, addUsize_ok (by omega),
      ok_bind]
    have hnext := rest_append hbehind
    rw [Nat.add_assoc] at hnext
    refine (ih (fun l hl => hlabels l (List.mem_cons_of_mem _ hl)) hnext (by omega)).trans ?_
    congr 2
    simp only [labelBytes_cons, List.cons_append, List.length_cons, List.length_append]
    omega

theorem skipName_name (name : Name) {i : Nat} {rest : Bytes}
    (h : payload.drop i = name.bytes ++ rest) :
    skipName payload i = .ok (some (i + name.bytes.length)) := by
  have hlen := length_rest h
  have hlabels := length_le_labelBytes name.labels
  rw [Name.bytes, List.append_assoc] at h
  refine skipName_run hsize name.labels name.valid name.ending h ?_
  rw [Name.bytes, List.length_append, List.length_append] at hlen
  omega

end Skip

structure Question where
  name : Name
  qtype : UInt16
  qclass : UInt16

def Question.bytes (q : Question) : Bytes :=
  q.name.bytes ++ (toBeBytes q.qtype.toNat ++ toBeBytes q.qclass.toNat)

/-- A resource record. -/
structure Record where
  name : Name
  atype : UInt16
  aclass : UInt16
  ttl : UInt32
  rdata : Bytes
  size : rdata.length < 2 ^ 16

def Record.ttlBytes (r : Record) : Bytes :=
  toBeBytes (r.ttl.toNat / 2 ^ 16) ++ toBeBytes r.ttl.toNat

def Record.bytes (r : Record) : Bytes :=
  r.name.bytes ++ (toBeBytes r.atype.toNat ++ (toBeBytes r.aclass.toNat ++ (r.ttlBytes ++
    (toBeBytes r.rdata.length ++ r.rdata))))

def Record.address (r : Record) : Option Bytes :=
  if r.atype = 1 ∧ r.rdata.length = 4 then some r.rdata else none

section Walk

variable {payload : Bytes} (hsize : payload.length < 2 ^ 63)

include hsize

theorem questions_ok (qs : List Question) {i : Nat} {rest : Bytes}
    (h : payload.drop i = qs.flatMap Question.bytes ++ rest) :
    questions payload qs.length i = .ok (some (i + (qs.flatMap Question.bytes).length)) := by
  induction qs generalizing i with
  | nil => rfl
  | cons q qs ih =>
    have h' : payload.drop i = q.name.bytes ++ (toBeBytes q.qtype.toNat ++
        toBeBytes q.qclass.toNat ++ (qs.flatMap Question.bytes ++ rest)) := by
      rw [h, List.flatMap_cons, Question.bytes]
      simp only [List.append_assoc]
    have hlen := length_rest h'
    simp only [List.length_append, length_toBeBytes] at hlen
    rw [List.length_cons, questions, skipName_name hsize q.name h', ok_bind]
    dsimp only
    have hnext : payload.drop (i + q.name.bytes.length + 4) = qs.flatMap Question.bytes ++ rest :=
      rest_append (rest_append h')
    rw [addUsize_ok (by omega), ok_bind, ih hnext]
    simp only [List.flatMap_cons, Question.bytes, List.length_append, length_toBeBytes]
    congr 2
    omega

theorem answers_ok (rs : List Record) {i : Nat} {rest : Bytes}
    (h : payload.drop i = rs.flatMap Record.bytes ++ rest) :
    answers payload rs.length i = .ok (rs.findSome? Record.address) := by
  induction rs generalizing i with
  | nil => rfl
  | cons r rs ih =>
    have hname : payload.drop i = r.name.bytes ++ (toBeBytes r.atype.toNat ++
        (toBeBytes r.aclass.toNat ++ r.ttlBytes ++ (toBeBytes r.rdata.length ++
          (r.rdata ++ (rs.flatMap Record.bytes ++ rest))))) := by
      rw [h, List.flatMap_cons, Record.bytes]
      simp only [List.append_assoc]
    have htype := rest_append hname
    have hlength := rest_append (rest_append htype)
    have hdata : payload.drop (i + r.name.bytes.length + 10) = r.rdata ++
      (rs.flatMap Record.bytes ++ rest) := rest_append hlength
    have hlen := length_rest htype
    have hsix : (toBeBytes r.aclass.toNat ++ r.ttlBytes).length = 6 := rfl
    simp only [List.length_append, length_toBeBytes, hsix] at hlen hlength
    rw [List.length_cons, answers, skipName_name hsize r.name hname, ok_bind]
    dsimp only
    generalize i + r.name.bytes.length = j at *
    have hrd : wordAt payload (j + 8) = r.rdata.length := wordAt_rest hlength r.size
    rw [addUsize_ok (by omega), ok_bind, if_neg (by omega), fieldAt_ok (by omega) (by omega), ok_bind,
      fieldAt_ok (by omega) (by omega), ok_bind, addUsize_ok (by omega), ok_bind, Nat.add_zero,
      wordAt_rest htype r.atype.toNat_lt, hrd, List.findSome?_cons]
    by_cases haddress : r.atype = 1 ∧ r.rdata.length = 4
    · have hfound : r.address = some r.rdata := if_pos haddress
      rw [hfound, if_pos ⟨by rw [haddress.1]; rfl, haddress.2, by omega⟩]
      obtain ⟨a, b, c, d, hbytes⟩ := List.length_eq_four.mp haddress.2
      rw [hbytes] at hdata
      obtain ⟨ha, hget₀, h₁⟩ := rest_cons hdata
      obtain ⟨hb, hget₁, h₂⟩ := rest_cons h₁
      obtain ⟨hc, hget₂, h₃⟩ := rest_cons h₂
      obtain ⟨hd, hget₃, -⟩ := rest_cons h₃
      rw [index_ok ha, ok_bind, index_ok hb, ok_bind, index_ok hc, ok_bind, index_ok hd, ok_bind,
        hget₀, hget₁, hget₂, hget₃, hbytes]
      rfl
    · have hother : r.address = none := if_neg haddress
      rw [hother, if_neg, addUsize_ok (by omega), ok_bind]
      · exact ih (rest_append hdata)
      · rintro ⟨htype, hlen, -⟩
        exact haddress ⟨UInt16.toNat_inj.mp htype, hlen⟩

end Walk

/-- A response with exact counts, and anything behind its answers. -/
structure Response where
  txid : UInt16
  flags : UInt16
  questions : List Question
  answers : List Record
  nscount : UInt16
  arcount : UInt16
  rest : Bytes
  questions_count : questions.length < 2 ^ 16
  answers_count : answers.length < 2 ^ 16
  answers_ne_nil : answers ≠ []

namespace Response

variable (r : Response)

def bytes : Bytes :=
  toBeBytes r.txid.toNat ++ (toBeBytes r.flags.toNat ++ (toBeBytes r.questions.length ++
    (toBeBytes r.answers.length ++ (toBeBytes r.nscount.toNat ++ (toBeBytes r.arcount.toNat ++
      (r.questions.flatMap Question.bytes ++ (r.answers.flatMap Record.bytes ++ r.rest)))))))

def qr : Prop := r.flags.toNat &&& 0x8000 ≠ 0

instance : Decidable r.qr := inferInstanceAs (Decidable (_ ≠ _))

theorem parseResponse_bytes (hsize : r.bytes.length < 2 ^ 63) (txid : UInt16) :
    parseResponse r.bytes txid = .ok (if txid = r.txid ∧ r.qr then
      r.answers.findSome? Record.address else none) := by
  have h₀ : r.bytes.drop 0 = toBeBytes r.txid.toNat ++ _ := rfl
  have h₂ := rest_append h₀
  have h₄ := rest_append h₂
  have h₆ := rest_append h₄
  have hid : wordAt r.bytes 0 = r.txid.toNat := wordAt_rest h₀ r.txid.toNat_lt
  have hflags : wordAt r.bytes 2 = r.flags.toNat := wordAt_rest h₂ r.flags.toNat_lt
  have hqdcount : wordAt r.bytes 4 = r.questions.length := wordAt_rest h₄ r.questions_count
  have hancount : wordAt r.bytes 6 = r.answers.length := wordAt_rest h₆ r.answers_count
  have hquestions : r.bytes.drop 12 = r.questions.flatMap Question.bytes ++
      (r.answers.flatMap Record.bytes ++ r.rest) := rest_append (rest_append (rest_append h₆))
  have hlen : 12 ≤ r.bytes.length := by
    simp only [bytes, List.length_append, length_toBeBytes]
    omega
  have hsome : r.answers.length ≠ 0 := fun h => r.answers_ne_nil (List.length_eq_zero_iff.mp h)
  rw [parseResponse, if_neg (by omega), field_ok (by omega), ok_bind, hid]
  by_cases htxid : txid = r.txid
  case neg =>
    rw [if_pos fun h => htxid (UInt16.toNat_inj.mp h).symm, if_neg fun h => htxid h.1]
    rfl
  rw [if_neg (by rw [htxid]; exact not_not.mpr rfl), field_ok (by omega), ok_bind, hflags]
  by_cases hqr : r.qr
  case neg =>
    rw [if_pos (not_not.mp hqr), if_neg fun h => hqr h.2]
    rfl
  rw [if_neg hqr, field_ok (by omega), ok_bind, field_ok (by omega), ok_bind, hqdcount, hancount,
    if_neg hsome, if_pos ⟨htxid, hqr⟩, questions_ok hsize r.questions hquestions, ok_bind]
  exact answers_ok hsize r.answers (rest_append hquestions)

end Response

/-- The loop of `build_query` over the labels. -/
def putLabels : List Bytes → Nat → Bytes → Checked (Nat × Bytes)
  | [], i, out => return (i, out)
  | label :: labels, i, out => do
    let out ← store out i (.ofNat label.length)
    let i ← addUsize i 1
    let stop ← addUsize i label.length
    let out ← copy out i stop label
    putLabels labels stop out

/-- `build_query`: the length and the buffer. -/
def buildQuery (name : Bytes) (txid : UInt16) (out : Bytes) : Checked (Nat × Bytes) := do
  let out ← copy out 0 2 (toBeBytes txid.toNat)
  let out ← copy out 2 4 (toBeBytes 0x0100)
  let out ← copy out 4 6 (toBeBytes 1)
  let out ← copy out 6 12 (List.replicate 6 0)
  let (i, out) ← putLabels (name.splitOn 46) 12 out
  let out ← store out i 0
  let i ← addUsize i 1
  let i2 ← addUsize i 2
  let out ← copy out i i2 (toBeBytes 1)
  let i4 ← addUsize i 4
  let out ← copy out i2 i4 (toBeBytes 1)
  return (i4, out)

theorem length_labelBytes_splitOn (name : Bytes) :
    (labelBytes (name.splitOn 46)).length = name.length + 1 := by
  induction name with
  | nil => rfl
  | cons b name ih =>
    rw [List.splitOn_cons_eq_if_modifyHead]
    split
    · rw [labelBytes_cons, List.length_cons, List.nil_append, ih, List.length_cons]
    · obtain ⟨l, labels, hsplit⟩ := List.exists_cons_of_ne_nil (List.splitOn_ne_nil (46 : UInt8) name)
      rw [hsplit, labelBytes_cons] at ih
      rw [hsplit, List.modifyHead_cons, labelBytes_cons]
      simp only [List.length_cons, List.length_append] at ih ⊢
      omega

theorem putLabels_ok (labels : List Bytes) {w out : Bytes} {i : Nat} (hw : w.length = i)
    (hout : i + (labelBytes labels).length ≤ out.length) (hsize : out.length < 2 ^ 63) :
    putLabels labels i (w ++ out.drop i) = .ok (i + (labelBytes labels).length,
      w ++ labelBytes labels ++ out.drop (i + (labelBytes labels).length)) := by
  induction labels generalizing w i with
  | nil =>
    rw [labelBytes, List.flatMap_nil, List.append_nil]
    rfl
  | cons l labels ih =>
    simp only [labelBytes_cons, List.length_cons, List.length_append] at hout ⊢
    have hw₁ : (w ++ [UInt8.ofNat l.length]).length = i + 1 := by
      rw [List.length_append, hw]
      rfl
    have hw₂ : (w ++ [UInt8.ofNat l.length] ++ l).length = i + 1 + l.length := by
      rw [List.length_append, hw₁]
    rw [putLabels, store_next hw (by omega), ok_bind, addUsize_ok (by omega), ok_bind,
      addUsize_ok (by omega), ok_bind, copy_next hw₁ rfl (by omega), ok_bind, ih hw₂ (by omega)]
    simp only [List.append_assoc, List.cons_append, List.nil_append]
    have hend : i + 1 + l.length + (labelBytes labels).length =
      i + (l.length + (labelBytes labels).length + 1) := by omega
    rw [hend]

def queryHeader (txid : UInt16) : Bytes :=
  toBeBytes txid.toNat ++ toBeBytes 0x0100 ++ toBeBytes 1 ++ List.replicate 6 0

theorem buildQuery_ok (name : Bytes) (txid : UInt16) {out : Bytes}
    (hout : name.length + 18 ≤ out.length) (hsize : out.length < 2 ^ 63) :
    buildQuery name txid out = .ok (name.length + 18, queryHeader txid ++
      (labelBytes (name.splitOn 46) ++ [0] ++ toBeBytes 1 ++ toBeBytes 1) ++
        out.drop (name.length + 18)) := by
  have hlabels := length_labelBytes_splitOn name
  have hfirst : copy out 0 2 (toBeBytes txid.toNat) = .ok (toBeBytes txid.toNat ++ out.drop 2) :=
    copy_next (w := []) rfl rfl (by omega)
  rw [buildQuery, hfirst, ok_bind, copy_next (by rfl) (by rfl) (by omega), ok_bind,
    copy_next (by rfl) (by rfl) (by omega), ok_bind, copy_next (by rfl) (by rfl) (by omega), ok_bind,
    putLabels_ok _ (by rfl) (by omega) hsize, ok_bind, hlabels]
  dsimp only
  have hw : (queryHeader txid ++ labelBytes (name.splitOn 46)).length = 13 + name.length := by
    rw [List.length_append, hlabels]
    simp only [queryHeader, List.length_append, length_toBeBytes, List.length_replicate]
    omega
  rw [show 12 + (name.length + 1) = 13 + name.length by omega]
  have hfold : toBeBytes txid.toNat ++ toBeBytes 256 ++ toBeBytes 1 ++ List.replicate 6 0 =
    queryHeader txid := rfl
  rw [hfold, store_next hw (by omega), ok_bind, addUsize_ok (by omega), ok_bind,
    addUsize_ok (by omega), ok_bind, copy_next (by rw [List.length_append, hw]; rfl) (by rfl)
      (by omega), ok_bind, addUsize_ok (by omega), ok_bind,
    copy_next (by rw [List.length_append, List.length_append, hw]; rfl) (by rfl) (by omega), ok_bind,
    show 13 + name.length + 1 + 4 = name.length + 18 by omega]
  simp only [List.append_assoc]
  rfl

/-- A name without pointers, read as the grammar has it, and what is behind it. -/
def readName : Nat → Bytes → Option (List Bytes × Bytes)
  | 0, _ => none
  | _ + 1, [] => none
  | n + 1, b :: bs =>
    if b = 0 then some ([], bs)
    else if b.toNat ≤ 63 ∧ b.toNat ≤ bs.length then
      (readName n (bs.drop b.toNat)).map fun r => (bs.take b.toNat :: r.1, r.2)
    else none

/-- A question: its labels, its type, its class, and what is behind it. -/
def readQuestion (bs : Bytes) : Option (List Bytes × Nat × Nat × Bytes) :=
  (readName bs.length bs).bind fun r =>
    if 4 ≤ r.2.length then some (r.1, wordAt r.2 0, wordAt r.2 2, r.2.drop 4) else none

theorem readName_labelBytes (labels : List Bytes) (hlabels : ∀ l ∈ labels, IsLabel l) (rest : Bytes)
    {n : Nat} (hn : labels.length < n) :
    readName n (labelBytes labels ++ (0 :: rest)) = some (labels, rest) := by
  induction labels generalizing n with
  | nil =>
    obtain ⟨n, rfl⟩ : ∃ m, n = m + 1 := ⟨n - 1, by omega⟩
    rfl
  | cons l labels ih =>
    rw [List.length_cons] at hn
    obtain ⟨n, rfl⟩ : ∃ m, n = m + 1 := ⟨n - 1, by omega⟩
    have hlabel := hlabels l List.mem_cons_self
    obtain ⟨-, hroot, hlen⟩ := label_byte hlabel
    rw [labelBytes_cons, List.cons_append, List.append_assoc, readName, if_neg hroot, hlen, if_pos,
      List.drop_left, List.take_left, ih (fun l hl => hlabels l (List.mem_cons_of_mem _ hl)) (by omega)]
    · rfl
    · rw [List.length_append]
      exact ⟨hlabel.2, by omega⟩

theorem readQuestion_query (labels : List Bytes) (hlabels : ∀ l ∈ labels, IsLabel l) :
    readQuestion (labelBytes labels ++ [0] ++ toBeBytes 1 ++ toBeBytes 1) = some (labels, 1, 1, []) := by
  have hcount := length_le_labelBytes labels
  have hbytes : labelBytes labels ++ [0] ++ toBeBytes 1 ++ toBeBytes 1 =
      labelBytes labels ++ (0 :: (toBeBytes 1 ++ toBeBytes 1)) := by
    simp only [List.append_assoc, List.cons_append, List.nil_append]
  have htype : wordAt (toBeBytes 1 ++ toBeBytes 1) 0 = 1 := wordAt_toBeBytes (by decide) _
  have hclass : wordAt (toBeBytes 1 ++ toBeBytes 1) 2 = 1 := wordAt_toBeBytes (by decide) []
  rw [hbytes, readQuestion, readName_labelBytes labels hlabels, Option.bind_some]
  · simp only [htype, hclass]
    rfl
  · rw [List.length_append, List.length_cons]
    omega

end Dns

/-- Queries and responses follow the grammar of DNS messages. A name with labels of one to
sixty-three bytes is asked for by one question of type A and class IN; of a response with the
same transaction, the first A record with four bytes is returned. -/
theorem dns_codecs (name : Bytes) (hname : ∀ l ∈ name.splitOn 46, Dns.IsLabel l) (txid : UInt16)
    (out : Dt.Blob) (hout : name.length + 18 ≤ out.bytes.length) (r : Dns.Response)
    (hsize : r.bytes.length < 2 ^ 63) :
    (∃ out', Dns.buildQuery name txid out.bytes = .ok (name.length + 18, out') ∧
      out'.length = out.bytes.length ∧
      out'.drop (name.length + 18) = out.bytes.drop (name.length + 18) ∧
      wordAt out' 0 = txid.toNat ∧ wordAt out' 2 = 0x0100 ∧ wordAt out' 4 = 1 ∧
      slice out' 6 6 = [0, 0, 0, 0, 0, 0] ∧
      Dns.readQuestion ((out'.take (name.length + 18)).drop 12) =
        some (name.splitOn 46, 1, 1, [])) ∧
    (r.qr → Dns.parseResponse r.bytes r.txid = .ok (r.answers.findSome? Dns.Record.address)) ∧
    (∀ other, other ≠ r.txid ∨ ¬ r.qr → Dns.parseResponse r.bytes other = .ok none) := by
  refine ⟨⟨_, Dns.buildQuery_ok name txid hout out.size, ?_⟩, fun hqr => ?_, fun other hother => ?_⟩
  · have hlabels := Dns.length_labelBytes_splitOn name
    have hquery : (Dns.queryHeader txid ++ (Dns.labelBytes (name.splitOn 46) ++ [0] ++ toBeBytes 1 ++
        toBeBytes 1)).length = name.length + 18 := by
      simp only [Dns.queryHeader, List.length_append, length_toBeBytes, List.length_replicate,
        List.length_cons, List.length_nil, hlabels]
      omega
    refine ⟨?_, List.drop_left' hquery, wordAt_toBeBytes txid.toNat_lt [],
      wordAt_toBeBytes (n := 0x0100) (by decide) [], wordAt_toBeBytes (n := 1) (by decide) [], rfl, ?_⟩
    · rw [List.length_append, hquery, List.length_drop]
      omega
    · rw [List.take_left' hquery, List.drop_left' (by rfl), Dns.readQuestion_query _ hname]
  · rw [r.parseResponse_bytes hsize, if_pos ⟨rfl, hqr⟩]
  · rw [r.parseResponse_bytes hsize, if_neg fun h => hother.elim (· h.1) (· h.2)]

/-- A response with an alias before the address. -/
def sampleResponse : Dns.Response where
  txid := 0xabcd
  flags := 0x8180
  questions := [⟨⟨[[97, 98], [99]], .root, by decide⟩, 1, 1⟩]
  answers := [⟨⟨[], .pointer 12, by decide⟩, 5, 1, 60, [1, 99, 0], by decide⟩,
    ⟨⟨[[99]], .pointer 12, by decide⟩, 1, 1, 60, [93, 184, 216, 34], by decide⟩]
  nscount := 0
  arcount := 0
  rest := []
  questions_count := by decide
  answers_count := by decide
  answers_ne_nil := List.cons_ne_nil _ _

theorem dns_codecs_sample :
    (∀ l ∈ List.splitOn 46 [97, 98, 46, 99], Dns.IsLabel l) ∧
      4 + 18 ≤ (List.replicate 64 (0 : UInt8)).length ∧ sampleResponse.bytes.length < 2 ^ 63 ∧
      Dns.parseResponse sampleResponse.bytes 0xabcd = .ok (some [93, 184, 216, 34]) := by
  have hname : ∀ l ∈ List.splitOn 46 [97, 98, 46, 99], Dns.IsLabel l := by decide +kernel
  refine ⟨hname, by decide, by decide +kernel, ?_⟩
  exact (dns_codecs [97, 98, 46, 99] hname 0xabcd ⟨List.replicate 64 0, by decide⟩ (by decide)
    sampleResponse (by decide +kernel)).2.1 (by decide +kernel)

end Net

end Perenne

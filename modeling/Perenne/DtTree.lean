import Perenne.DtTotal
import Mathlib.Data.List.Induction

namespace Perenne

namespace Dt

abbrev Props := List (Text × List UInt8)

/-- Nodes side by side, each with its properties and its children. -/
inductive Nodes where
  | none
  | node (name : Text) (props : Props) (children rest : Nodes)

/-- A device tree. -/
structure Tree where
  name : Text
  props : Props
  children : Nodes

def propTokens (props : Props) : List Token := props.map fun p => .prop p.1 p.2

def Nodes.tokens : Nodes → List Token
  | .none => []
  | .node name props children rest =>
    .beginNode name :: propTokens props ++ children.tokens ++ .endNode :: rest.tokens

def Tree.tokens (t : Tree) : List Token := (Nodes.node t.name t.props t.children .none).tokens

/-- The bytes stand at `pos`. -/
def Holds (dtb : List UInt8) (pos : Nat) (bs : List UInt8) : Prop := bs <+: dtb.drop pos

instance (dtb : List UInt8) (pos : Nat) (bs : List UInt8) : Decidable (Holds dtb pos bs) :=
  inferInstanceAs (Decidable (bs <+: dtb.drop pos))

/-- Filled up to a multiple of four bytes. -/
def pad4 (bs : List UInt8) : List UInt8 := bs ++ List.replicate ((4 - bs.length % 4) % 4) 0

/-- The structure block from `pos` on is written for these tokens. -/
inductive Encodes (dtb : List UInt8) (offStrings : Nat) : Nat → List Token → Prop
  | stop {pos : Nat} (h : Holds dtb pos (toBeBytes 9)) : Encodes dtb offStrings pos []
  | nop {pos : Nat} {ts : List Token} (h : Holds dtb pos (toBeBytes 4))
      (hrest : Encodes dtb offStrings (pos + 4) ts) : Encodes dtb offStrings pos ts
  | endNode {pos : Nat} {ts : List Token} (h : Holds dtb pos (toBeBytes 2))
      (hrest : Encodes dtb offStrings (pos + 4) ts) : Encodes dtb offStrings pos (.endNode :: ts)
  | beginNode {pos : Nat} {name : Text} {ts : List Token} (hname : 0 ∉ name)
      (h : Holds dtb pos (toBeBytes 1 ++ pad4 (name ++ [0])))
      (hrest : Encodes dtb offStrings (pos + 4 + (pad4 (name ++ [0])).length) ts) :
      Encodes dtb offStrings pos (.beginNode name :: ts)
  | prop {pos : Nat} {pname : Text} {val : List UInt8} {ts : List Token} (nameoff : UInt32)
      (hlen : val.length < 2 ^ 32) (hname : 0 ∉ pname)
      (hstring : Holds dtb (offStrings + nameoff.toNat) (pname ++ [0]))
      (h : Holds dtb pos
        (toBeBytes 3 ++ toBeBytes (.ofNat val.length) ++ toBeBytes nameoff ++ pad4 val))
      (hrest : Encodes dtb offStrings (pos + 12 + (pad4 val).length) ts) :
      Encodes dtb offStrings pos (.prop pname val :: ts)

/-- The blob is the tree, flattened. -/
structure Serialises (dtb : List UInt8) (t : Tree) : Prop where
  magic : Holds dtb 0 (toBeBytes 0xd00dfeed)
  blocks : ∃ offStruct offStrings : UInt32, Holds dtb 8 (toBeBytes offStruct) ∧
    Holds dtb 12 (toBeBytes offStrings) ∧ offStruct.toNat % 4 = 0 ∧
    Encodes dtb offStrings.toNat offStruct.toNat t.tokens

section Holds

variable {dtb bs cs : List UInt8} {pos offStrings n : Nat}

theorem Holds.slice_eq (h : Holds dtb pos bs) : slice dtb pos bs.length = bs :=
  (List.prefix_iff_eq_take.mp h).symm

theorem Holds.length_le (h : Holds dtb pos bs) : bs = [] ∨ pos + bs.length ≤ dtb.length := by
  have hle := List.IsPrefix.length_le h
  rw [List.length_drop] at hle
  cases bs with
  | nil => exact .inl rfl
  | cons b bs =>
    right
    rw [List.length_cons] at hle ⊢
    omega

theorem Holds.left (h : Holds dtb pos (bs ++ cs)) : Holds dtb pos bs :=
  (List.prefix_append bs cs).trans h

theorem Holds.right (h : Holds dtb pos (bs ++ cs)) : Holds dtb (pos + bs.length) cs := by
  obtain ⟨rest, hrest⟩ := h
  refine ⟨rest, ?_⟩
  rw [← List.drop_drop, ← hrest, List.append_assoc, List.drop_left]

@[simp] theorem length_toBeBytes (x : UInt32) : (toBeBytes x).length = 4 := rfl

theorem fromBeBytes_toBeBytes (x : UInt32) : fromBeBytes (toBeBytes x) = x := by
  have hx := x.toNat_lt
  apply UInt32.toNat_inj.mp
  rw [toNat_fromBeBytes (length_toBeBytes x)]
  simp only [toBeBytes, bigEndian, List.foldl_cons, List.foldl_nil, UInt8.toNat_ofNat']
  omega

theorem Holds.cell_eq {x : UInt32} (h : Holds dtb pos (toBeBytes x)) :
    cell dtb pos = x ∧ pos + 4 ≤ dtb.length := by
  have hs := h.slice_eq
  rw [length_toBeBytes] at hs
  refine ⟨by rw [cell, hs, fromBeBytes_toBeBytes], ?_⟩
  obtain hnil | hle := h.length_le
  · cases hnil
  · exact hle

theorem Holds.cstrAt_eq {str : Text} (h : Holds dtb pos (str ++ [0])) (hstr : 0 ∉ str) :
    cstrAt dtb pos = some str := by
  obtain ⟨rest, hrest⟩ := id h
  have hlen : cstrLen dtb pos = some str.length := by
    rw [cstrLen, ← hrest, List.append_assoc, List.findIdx?_append,
      List.findIdx?_eq_none_iff.mpr fun b hb => ?_]
    · rw [Option.none_or, List.singleton_append, List.findIdx?_cons, if_pos (by decide),
        Option.map_some, Nat.zero_add]
    · simp only [beq_eq_false_iff_ne]
      rintro rfl
      exact hstr hb
  rw [cstrAt, hlen, Option.map_some, h.left.slice_eq]

theorem length_pad4 (bs : List UInt8) : (pad4 bs).length = align4 (bs.length + 3) := by
  rw [pad4, List.length_append, List.length_replicate, align4]
  omega

end Holds

section Encodes

variable {dtb : List UInt8} {pos offStrings n : Nat} {ts : List Token}

theorem tokensFrom_cons {t : Token} {pos' : Nat} {raw : List Token}
    (h : tokenAt dtb offStrings pos = some (t, pos')) (ht : t ≠ .stop)
    (hrest : tokensFrom dtb offStrings n pos' = (raw, true)) :
    tokensFrom dtb offStrings (n + 1) pos = (t :: raw, true) := by
  rw [tokensFrom, h]
  cases t with
  | stop => exact absurd rfl ht
  | beginNode name => simp only [hrest]
  | endNode => simp only [hrest]
  | prop pname val => simp only [hrest]
  | nop => simp only [hrest]

theorem Holds.tokenAt_beginNode {name : Text} (h : Holds dtb pos (toBeBytes 1 ++ pad4 (name ++ [0])))
    (hname : 0 ∉ name) (hpos : pos % 4 = 0) : tokenAt dtb offStrings pos =
      some (.beginNode name, pos + 4 + (pad4 (name ++ [0])).length) := by
  obtain ⟨hcell, hin⟩ := h.left.cell_eq
  have hstr : cstrAt dtb (pos + 4) = some name := h.right.left.cstrAt_eq hname
  have hnext : align4 (pos + 4 + name.length + 1 + 3) =
      pos + 4 + (pad4 (name ++ [0])).length := by
    rw [length_pad4, List.length_append, List.length_singleton, align4, align4]
    omega
  rw [← hnext, tokenAt, if_pos hin, hcell]
  change (cstrAt dtb (pos + 4)).map _ = _
  rw [hstr, Option.map_some]

theorem Holds.tokenAt_prop {pname : Text} {val : List UInt8} {nameoff : UInt32}
    (h : Holds dtb pos
      (toBeBytes 3 ++ toBeBytes (.ofNat val.length) ++ toBeBytes nameoff ++ pad4 val))
    (hlen : val.length < 2 ^ 32) (hname : 0 ∉ pname)
    (hstring : Holds dtb (offStrings + nameoff.toNat) (pname ++ [0])) (hpos : pos % 4 = 0) :
    tokenAt dtb offStrings pos = some (.prop pname val, pos + 12 + (pad4 val).length) := by
  obtain ⟨hcell, hin⟩ := h.left.left.left.cell_eq
  obtain ⟨hsize, -⟩ := h.left.left.right.cell_eq
  obtain ⟨hoff, hend⟩ := h.left.right.cell_eq
  have hval : Holds dtb (pos + 12) val := h.right.left
  have hstr := hstring.cstrAt_eq hname
  have hnat : (UInt32.ofNat val.length).toNat = val.length := UInt32.toNat_ofNat_of_lt' hlen
  rw [length_toBeBytes] at hsize
  rw [List.length_append, length_toBeBytes, length_toBeBytes] at hoff hend
  have hfits : pos + 4 + 8 + val.length ≤ dtb.length := by
    obtain rfl | hle := hval.length_le
    · rw [List.length_nil]
      omega
    · omega
  have hnext : align4 (pos + 12 + val.length + 3) = pos + 12 + (pad4 val).length := by
    rw [length_pad4, align4, align4]
    omega
  rw [← hnext, tokenAt, if_pos hin, hcell]
  change (propAt dtb offStrings (pos + 4)).map _ = _
  rw [propAt, hsize, hnat, if_pos hfits, hoff, hstr, Option.map_some, Option.map_some,
    hval.slice_eq]

theorem Encodes.tokensFrom_eq (h : Encodes dtb offStrings pos ts) (hpos : pos % 4 = 0)
    (hn : 0 < n) (hfuel : dtb.length + 1 ≤ pos + n) :
    ∃ raw, tokensFrom dtb offStrings n pos = (raw, true) ∧ raw.filter (· ≠ .nop) = ts := by
  -- each token leaves fuel for the rest, since it is at least four bytes long
  have hstep {n pos pos' : Nat} {t : Token} {ts : List Token}
      (htok : tokenAt dtb offStrings pos = some (t, pos')) (ht : t ≠ .stop) (hn : 0 < n)
      (hfuel : dtb.length + 1 ≤ pos + n)
      (hrest : ∀ {n : Nat}, 0 < n → dtb.length + 1 ≤ pos' + n →
        ∃ raw, tokensFrom dtb offStrings n pos' = (raw, true) ∧ raw.filter (· ≠ .nop) = ts) :
      ∃ raw, tokensFrom dtb offStrings n pos = (t :: raw, true) ∧ raw.filter (· ≠ .nop) = ts := by
    obtain ⟨n, rfl⟩ := Nat.exists_eq_succ_of_ne_zero hn.ne'
    obtain ⟨hin, hmore, -⟩ := tokenAt_bounds htok
    obtain ⟨raw, hraw, hts⟩ := hrest (n := n) (by omega) (by omega)
    exact ⟨raw, tokensFrom_cons htok ht hraw, hts⟩
  induction h generalizing n with
  | stop h =>
    obtain ⟨hcell, hin⟩ := h.cell_eq
    obtain ⟨n, rfl⟩ := Nat.exists_eq_succ_of_ne_zero hn.ne'
    refine ⟨[], ?_, rfl⟩
    rw [tokensFrom, tokenAt, if_pos hin, hcell]
    rfl
  | @nop pos ts h _ ih =>
    obtain ⟨hcell, hin⟩ := h.cell_eq
    have htok : tokenAt dtb offStrings pos = some (.nop, pos + 4) := by
      rw [tokenAt, if_pos hin, hcell]
      rfl
    obtain ⟨raw, hraw, hts⟩ := hstep htok (by simp) hn hfuel (ih (by omega))
    exact ⟨_, hraw, hts⟩
  | @endNode pos ts h _ ih =>
    obtain ⟨hcell, hin⟩ := h.cell_eq
    have htok : tokenAt dtb offStrings pos = some (.endNode, pos + 4) := by
      rw [tokenAt, if_pos hin, hcell]
      rfl
    obtain ⟨raw, hraw, hts⟩ := hstep htok (by simp) hn hfuel (ih (by omega))
    exact ⟨_, hraw, congrArg (Token.endNode :: ·) hts⟩
  | @beginNode pos name ts hname h _ ih =>
    have haligned : (pos + 4 + (pad4 (name ++ [0])).length) % 4 = 0 := by
      rw [length_pad4, align4]
      omega
    obtain ⟨raw, hraw, hts⟩ :=
      hstep (h.tokenAt_beginNode hname hpos) (by simp) hn hfuel (ih haligned)
    exact ⟨_, hraw, congrArg (Token.beginNode name :: ·) hts⟩
  | @prop pos pname val ts nameoff hlen hname hstring h _ ih =>
    have haligned : (pos + 12 + (pad4 val).length) % 4 = 0 := by
      rw [length_pad4, align4]
      omega
    obtain ⟨raw, hraw, hts⟩ :=
      hstep (h.tokenAt_prop hlen hname hstring hpos) (by simp) hn hfuel (ih haligned)
    exact ⟨_, hraw, congrArg (Token.prop pname val :: ·) hts⟩

theorem Encodes.val_lt {pname : Text} {val : List UInt8} (h : Encodes dtb offStrings pos ts)
    (hp : .prop pname val ∈ ts) : val.length < 2 ^ 32 := by
  induction h with
  | stop => cases hp
  | nop _ _ ih => exact ih hp
  | endNode _ _ ih => exact ih (by simpa using hp)
  | beginNode _ _ _ ih => exact ih (by simpa using hp)
  | prop nameoff hlen _ _ _ _ ih =>
    obtain heq | hp := List.mem_cons.mp hp
    · obtain ⟨-, rfl⟩ := Token.prop.inj heq
      exact hlen
    · exact ih hp

theorem State.applyAll_filter (s : State) (raw : List Token) :
    s.applyAll (raw.filter (· ≠ .nop)) = s.applyAll raw := by
  induction raw generalizing s with
  | nil => rfl
  | cons t raw ih =>
    by_cases ht : t = .nop
    · rw [List.filter_cons_of_neg (by simpa using ht), ih, ht]
      rfl
    · rw [List.filter_cons_of_pos (by simpa using ht), State.applyAll, State.applyAll]
      congr 1
      funext s'
      exact ih s'

theorem Serialises.parse_eq {dtb : Blob} {t : Tree} (h : Serialises dtb.bytes t) :
    parse dtb = some (State.init.applyAll t.tokens >>= fun s => .ofOption s.finish) := by
  obtain ⟨offStruct, offStrings, hstruct, hstrings, haligned, hts⟩ := h.blocks
  obtain ⟨hmagic, hm⟩ := h.magic.cell_eq
  obtain ⟨hs, hs8⟩ := hstruct.cell_eq
  obtain ⟨hn, hn12⟩ := hstrings.cell_eq
  have hheader : header dtb.bytes = .some (offStruct.toNat, offStrings.toNat) := by
    rw [header, beU32_eq (by decide), beU32_eq (by decide), beU32_eq (by decide), if_pos hm,
      if_pos hs8, if_pos hn12, hmagic, hs, hn]
    rfl
  obtain ⟨raw, hraw, hfilter⟩ := hts.tokensFrom_eq haligned (Nat.succ_pos dtb.bytes.length) (by omega)
  have htokens : tokens dtb.bytes = (raw, true) := by
    rw [tokens, hheader]
    exact hraw
  rw [Dt.parse_eq, htokens, ← hfilter, State.applyAll_filter]
  rfl

end Encodes

/-- The variables after a token that is applied. -/
def State.after (s : State) : Token → State
  | .beginNode name => { s with
      depth := s.depth + 1
      isMem := if h : s.depth + 1 < 32 then
        s.isMem.set (s.depth + 1) ((utf8 "memory").isPrefixOf name) h else s.isMem
      node := .fresh }
  | .endNode => { s with found := s.found.commit s.node, depth := s.depth - 1 }
  | .prop pname val => s.withProp pname val
  | .nop => s
  | .stop => s

theorem State.apply_eq_some {s s' : State} {t : Token}
    (ht : ∀ pname val, t = .prop pname val → val.length < 2 ^ 32) (h : s.apply t = .some s') :
    s' = s.after t := by
  cases t with
  | beginNode name =>
    obtain ⟨depth, hdepth, hs⟩ := Outcome.bind_eq_some_iff.mp h
    unfold addUsize at hdepth
    split at hdepth
    · cases hdepth
      cases hs
      rfl
    · cases hdepth
  | endNode =>
    rw [State.apply, State.endNode] at h
    split at h
    · cases h
    · cases h
      rfl
  | prop pname val =>
    have hlen := ht pname val rfl
    rw [State.apply, State.prop_eq (by omega)] at h
    split at h
    · cases h
    · cases h
      rfl
  | nop =>
    cases h
    rfl
  | stop =>
    cases h
    rfl

theorem State.applyAll_eq_some {s s' : State} {ts : List Token}
    (hts : ∀ pname val, .prop pname val ∈ ts → val.length < 2 ^ 32) (h : s.applyAll ts = .some s') :
    s' = ts.foldl State.after s := by
  induction ts generalizing s with
  | nil =>
    cases h
    rfl
  | cons t ts ih =>
    obtain ⟨s₁, hs₁, hrest⟩ := Outcome.bind_eq_some_iff.mp h
    obtain rfl := State.apply_eq_some (fun pname val ht => hts pname val (ht ▸ .head _)) hs₁
    exact ih (fun pname val hp => hts pname val (.tail _ hp)) hrest

theorem Serialises.finish_eq {dtb : Blob} {t : Tree} {mi : MachineInfo}
    (h : Serialises dtb.bytes t) (hp : parse dtb = some (.some mi)) :
    (t.tokens.foldl State.after .init).finish = some mi := by
  rw [h.parse_eq] at hp
  obtain ⟨s, hs, hmi⟩ := Outcome.bind_eq_some_iff.mp (Option.some.inj hp)
  obtain ⟨offStruct, offStrings, -, -, -, hts⟩ := h.blocks
  rw [← State.applyAll_eq_some (fun pname val hp => hts.val_lt hp) hs]
  cases hf : s.finish with
  | none =>
    rw [hf] at hmi
    cases hmi
  | some mi' =>
    rw [hf] at hmi
    cases hmi
    rfl

/-- The last value under a name that is at least so long. -/
def lastValue (props : Props) (pname : Text) (size : Nat) : Option (List UInt8) :=
  (props.reverse.find? fun p => p.1 = pname ∧ size ≤ p.2.length).map (·.2)

/-- One of the `compatible` values has the string in it. -/
def isCompatible (props : Props) (device : String) : Bool :=
  props.any fun p => p.1 = utf8 "compatible" ∧ hasWindow p.2 (utf8 device)

/-- A node by its properties, with its base read in so many cells. -/
def describe (addrCells : UInt32) (props : Props) : NodeState where
  isUart := isCompatible props "ns16550"
  reg := (lastValue props (utf8 "reg") (addrCells.toNat * 4)).map (cellsAt · 0 addrCells.toNat)
  shift := ((lastValue props (utf8 "reg-shift") 4).map (cell · 0)).getD 0
  isRtc := isCompatible props "goldfish"
  isVirtio := isCompatible props "virtio,mmio"
  virtioIrq := (lastValue props (utf8 "interrupts") 4).map (cell · 0)
  isPlic := isCompatible props "riscv,plic0"

/-- The first base and size of a `reg`. -/
def firstPair (addrCells sizeCells : UInt32) (reg : List UInt8) : Nat × Nat :=
  (cellsAt reg 0 addrCells.toNat, cellsAt reg (addrCells.toNat * 4) sizeCells.toNat)

/-- The first base and size among the properties of a memory node. -/
def pairOf (addrCells sizeCells : UInt32) (props : Props) : Option (Nat × Nat) :=
  (lastValue props (utf8 "reg") ((addrCells.toNat + sizeCells.toNat) * 4)).map
    (firstPair addrCells sizeCells)

section Props

variable {props : Props} {p : Text × List UInt8} {s : State}

theorem lastValue_append (pname : Text) (size : Nat) : lastValue (props ++ [p]) pname size =
    if p.1 = pname ∧ size ≤ p.2.length then some p.2 else lastValue props pname size := by
  rw [lastValue, List.reverse_append, List.reverse_singleton, List.singleton_append, List.find?_cons]
  by_cases h : p.1 = pname ∧ size ≤ p.2.length
  · simp only [h, and_self, decide_true, Option.map_some, if_true]
  · simp only [h, decide_false, if_false]
    rfl

theorem isCompatible_append (device : String) : isCompatible (props ++ [p]) device =
    (isCompatible props device ||
      decide (p.1 = utf8 "compatible") && hasWindow p.2 (utf8 device)) := by
  rw [isCompatible, List.any_append, List.any_cons, List.any_nil, Bool.or_false,
    Bool.decide_and, Bool.decide_eq_true]
  rfl

theorem describe_append (addrCells : UInt32) : describe addrCells (props ++ [p]) =
    (describe addrCells props).withProp addrCells p.1 p.2 := by
  simp only [describe, NodeState.withProp, isCompatible_append, lastValue_append, apply_ite,
    Option.map_some]
  congr 1
  split
  · rfl
  · rfl

theorem describe_eq_foldl (addrCells : UInt32) (props : Props) : describe addrCells props =
    props.foldl (fun n p => n.withProp addrCells p.1 p.2) .fresh := by
  induction props using List.reverseRecOn with
  | nil => rfl
  | append_singleton props p ih => 
    rw [describe_append, ih, List.foldl_append]
    rfl

theorem pairOf_append (ac sc : UInt32) : pairOf ac sc (props ++ [p]) =
    if p.1 = utf8 "reg" ∧ (ac.toNat + sc.toNat) * 4 ≤ p.2.length then some (firstPair ac sc p.2)
    else pairOf ac sc props := by
  rw [pairOf, lastValue_append]
  split
  · rfl
  · rfl

theorem State.foldl_props (hd : s.depth ≠ 1) (props : Props) :
    ∃ timebase, (propTokens props).foldl State.after s = { s with
      timebase
      node := props.foldl (fun n p => n.withProp s.addrCells p.1 p.2) s.node
      ram := (if s.inMemory then pairOf s.addrCells s.sizeCells props else none).or s.ram } := by
  induction props using List.reverseRecOn with
  | nil =>
    refine ⟨s.timebase, ?_⟩
    simp only [pairOf, lastValue, List.reverse_nil, List.find?_nil, Option.map_none, ite_self,
      Option.none_or]
    rfl
  | append_singleton props p ih =>
    obtain ⟨timebase, ih⟩ := ih
    refine ⟨if p.1 = utf8 "timebase-frequency" ∧ 4 ≤ p.2.length then some (cell p.2 0).toNat
      else timebase, ?_⟩
    rw [propTokens, List.map_append, List.foldl_append, ← propTokens, ih, List.foldl_append,
      pairOf_append]
    have hmem (timebase : Option Nat) (node : NodeState) (ram : Option (Nat × Nat)) :
        ({ s with timebase, node, ram } : State).inMemory = s.inMemory := rfl
    simp only [List.map_cons, List.map_nil, List.foldl_cons, List.foldl_nil, State.after,
      State.withProp, State.cellsAfter, hd, false_and, if_false, State.RamReg, hmem]
    congr 1
    by_cases hin : s.inMemory = true
    · by_cases hreg : p.1 = utf8 "reg" ∧ (s.addrCells.toNat + s.sizeCells.toNat) * 4 ≤ p.2.length
      · simp [hin, hreg, firstPair]
      · simp [hin, hreg]
    · simp [hin]

end Props

namespace Nodes

/-- What is buffered after these nodes: the node opened last. -/
def buffered (addrCells : UInt32) : Nodes → NodeState → NodeState
  | .none, n => n
  | .node _ props children rest, _ =>
    rest.buffered addrCells (children.buffered addrCells (describe addrCells props))

/-- What is committed where these nodes close. -/
def committed (addrCells : UInt32) : Nodes → List NodeState
  | .none => []
  | .node _ props children rest => children.committed addrCells ++
    children.buffered addrCells (describe addrCells props) :: rest.committed addrCells

/-- The first base and size of each node named `memory*`, in document order, with these nodes
at depth `d`. -/
def memories (addrCells sizeCells : UInt32) : Nodes → Nat → List (Nat × Nat)
  | .none, _ => []
  | .node name props children rest, d =>
    (if d < 32 ∧ (utf8 "memory").isPrefixOf name then pairOf addrCells sizeCells props
      else .none).toList ++ children.memories addrCells sizeCells (d + 1) ++
      rest.memories addrCells sizeCells d

end Nodes

/-- The variables after a walk over nodes below the root. -/
structure State.Walked (ns : Nodes) (s s' : State) : Prop where
  depth : s'.depth = s.depth
  addrCells : s'.addrCells = s.addrCells
  sizeCells : s'.sizeCells = s.sizeCells
  node : s'.node = ns.buffered s.addrCells s.node
  found : s'.found = (ns.committed s.addrCells).foldl Found.commit s.found
  ram : s'.ram = (ns.memories s.addrCells s.sizeCells (s.depth + 1)).getLast?.or s.ram

theorem State.opened {s : State} (hd : 1 ≤ s.depth) (name : Text) (props : Props) :
    let s' := (propTokens props).foldl State.after (s.after (.beginNode name))
    s'.depth = s.depth + 1 ∧ s'.addrCells = s.addrCells ∧ s'.sizeCells = s.sizeCells ∧
      s'.node = describe s.addrCells props ∧ s'.found = s.found ∧
      s'.ram = (if s.depth + 1 < 32 ∧ (utf8 "memory").isPrefixOf name then
        pairOf s.addrCells s.sizeCells props else none).or s.ram := by
  have hbelow : (s.after (.beginNode name)).depth ≠ 1 := by
    change s.depth + 1 ≠ 1
    omega
  have hmem : (s.after (.beginNode name)).inMemory =
      decide (s.depth + 1 < 32 ∧ (utf8 "memory").isPrefixOf name) := by
    simp only [State.inMemory, State.after]
    by_cases h : s.depth + 1 < 32
    · simp only [h, dite_true, true_and, Bool.decide_eq_true, Vector.getElem_set_self]
    · simp only [h, dite_false, false_and, decide_false]
  obtain ⟨timebase, heq⟩ := State.foldl_props hbelow props
  dsimp only
  rw [heq, hmem]
  refine ⟨rfl, rfl, rfl, (describe_eq_foldl _ _).symm, rfl, ?_⟩
  simp only [decide_eq_true_eq]
  rfl

theorem State.walked (ns : Nodes) {s : State} (hd : 1 ≤ s.depth) :
    s.Walked ns (ns.tokens.foldl State.after s) := by
  induction ns generalizing s with
  | none => exact ⟨rfl, rfl, rfl, rfl, rfl, rfl⟩
  | node name props children rest ihc ihr =>
    have hsplit : (Nodes.node name props children rest).tokens.foldl State.after s =
        rest.tokens.foldl State.after ((children.tokens.foldl State.after
          ((propTokens props).foldl State.after (s.after (.beginNode name)))).after .endNode) := by
      simp only [Nodes.tokens, List.cons_append, List.foldl_cons, List.foldl_append]
    obtain ⟨hdepth, hac, hsc, hnode, hfound, hram⟩ := State.opened hd name props
    generalize (propTokens props).foldl State.after (s.after (.beginNode name)) = s₁ at *
    have hc := ihc (s := s₁) (by omega)
    generalize children.tokens.foldl State.after s₁ = s₂ at *
    have hd₂ := hc.depth
    have hr := ihr (s := s₂.after .endNode) (by change 1 ≤ s₂.depth - 1; omega)
    rw [hsplit]
    generalize rest.tokens.foldl State.after (s₂.after .endNode) = s₃ at *
    have hdepth₂ : (s₂.after .endNode).depth = s.depth := by
      change s₂.depth - 1 = s.depth
      omega
    have hac₂ : (s₂.after .endNode).addrCells = s.addrCells := hc.addrCells.trans hac
    have hsc₂ : (s₂.after .endNode).sizeCells = s.sizeCells := hc.sizeCells.trans hsc
    have hnode₂ : s₂.node = children.buffered s.addrCells (describe s.addrCells props) := by
      rw [hc.node, hac, hnode]
    refine ⟨hr.depth.trans hdepth₂, hr.addrCells.trans hac₂, hr.sizeCells.trans hsc₂, ?_, ?_, ?_⟩
    · have hkept : (s₂.after .endNode).node = s₂.node := rfl
      rw [hr.node, hac₂, hkept, hnode₂, Nodes.buffered]
    · have hfound₂ : (s₂.after .endNode).found = s₂.found.commit s₂.node := rfl
      rw [hr.found, hac₂, hfound₂, hc.found, hac, hfound, hnode₂, Nodes.committed,
        List.foldl_append, List.foldl_cons]
    · have hram₂ : (s₂.after .endNode).ram = s₂.ram := rfl
      rw [hr.ram, hac₂, hsc₂, hdepth₂, hram₂, hc.ram, hac, hsc, hdepth, hram, Nodes.memories]
      simp only [List.getLast?_append, Option.or_assoc]
      congr 2
      split
      · cases pairOf s.addrCells s.sizeCells props <;> rfl
      · rfl

/-- A number of cells the root declares. -/
def declaredCells (props : Props) (pname : String) : UInt32 :=
  ((lastValue props (utf8 pname) 4).map (cell · 0)).getD 2

namespace Tree

/-- The root's `#address-cells`. -/
def addrCells (t : Tree) : UInt32 := declaredCells t.props "#address-cells"

/-- The root's `#size-cells`. -/
def sizeCells (t : Tree) : UInt32 := declaredCells t.props "#size-cells"

end Tree

/-- The root after one of its properties, in the cells declared so far. -/
def rootProp (r : UInt32 × NodeState) (p : Text × List UInt8) : UInt32 × NodeState :=
  let cells := if p.1 = utf8 "#address-cells" ∧ 4 ≤ p.2.length then cell p.2 0 else r.1
  (cells, r.2.withProp cells p.1 p.2)

def readRoot (props : Props) : NodeState := (props.foldl rootProp (2, .fresh)).2

theorem declaredCells_append (props : Props) (p : Text × List UInt8) (pname : String) :
    declaredCells (props ++ [p]) pname = if p.1 = utf8 pname ∧ 4 ≤ p.2.length then cell p.2 0
      else declaredCells props pname := by
  rw [declaredCells, lastValue_append]
  split
  · rfl
  · rfl

theorem State.foldl_rootProps {s : State} (hd : s.depth = 1) (hac : s.addrCells = 2)
    (hsc : s.sizeCells = 2) (hnode : s.node = .fresh) (props : Props) :
    let s' := (propTokens props).foldl State.after s
    s'.depth = 1 ∧ s'.addrCells = declaredCells props "#address-cells" ∧
      s'.sizeCells = declaredCells props "#size-cells" ∧
      (s'.addrCells, s'.node) = props.foldl rootProp (2, .fresh) ∧ s'.found = s.found := by
  induction props using List.reverseRecOn with
  | nil => exact ⟨hd, hac, hsc, by rw [← hac, ← hnode]; rfl, rfl⟩
  | append_singleton props p ih =>
    rw [propTokens, List.map_append, List.foldl_append, ← propTokens]
    generalize (propTokens props).foldl State.after s = s₁ at ih
    obtain ⟨hd₁, hac₁, hsc₁, hroot, hfound⟩ := ih
    have hcells : (s₁.withProp p.1 p.2).addrCells =
        declaredCells (props ++ [p]) "#address-cells" := by
      rw [declaredCells_append, ← hac₁]
      simp only [State.withProp, State.cellsAfter, hd₁, true_and]
      by_cases hlen : 4 ≤ p.2.length
      · simp only [hlen, if_true, and_true]
      · simp only [hlen, if_false, and_false]
    refine ⟨hd₁, hcells, ?_, ?_, hfound⟩
    · rw [declaredCells_append, ← hsc₁]
      simp only [List.map_cons, List.map_nil, List.foldl_cons, List.foldl_nil, State.after,
        State.withProp, State.cellsAfter, hd₁, true_and]
      by_cases hlen : 4 ≤ p.2.length
      · simp only [hlen, if_true, and_true]
      · simp only [hlen, if_false, and_false]
    · have hnode' : (s₁.withProp p.1 p.2).node =
          s₁.node.withProp (s₁.withProp p.1 p.2).addrCells p.1 p.2 := rfl
      rw [List.foldl_append, ← hroot]
      change ((s₁.withProp p.1 p.2).addrCells, (s₁.withProp p.1 p.2).node) =
        rootProp (s₁.addrCells, s₁.node) p
      rw [hnode', hcells, declaredCells_append, ← hac₁]
      rfl

namespace Tree

/-- What is committed where the nodes of the tree close, the root last. -/
def committed (t : Tree) : List NodeState :=
  t.children.committed t.addrCells ++ [t.children.buffered t.addrCells (readRoot t.props)]

theorem walked (t : Tree) :
    let s := t.tokens.foldl State.after .init
    s.found = t.committed.foldl Found.commit .init ∧
      ∃ ram, s.ram = (t.children.memories t.addrCells t.sizeCells 2).getLast?.or ram := by
  have hsplit : t.tokens.foldl State.after .init = (t.children.tokens.foldl State.after
      ((propTokens t.props).foldl State.after (State.init.after (.beginNode t.name)))).after
        .endNode := by
    simp only [tokens, Nodes.tokens, List.cons_append, List.foldl_cons, List.foldl_append,
      List.foldl_nil]
  obtain ⟨hd, hac, hsc, hroot, hfound⟩ := State.foldl_rootProps
    (show (State.init.after (.beginNode t.name)).depth = 1 from rfl) rfl rfl rfl t.props
  generalize (propTokens t.props).foldl State.after (State.init.after (.beginNode t.name)) = s₁ at *
  have hw := State.walked t.children (show 1 ≤ s₁.depth by omega)
  have hac' : s₁.addrCells = t.addrCells := hac
  have hsc' : s₁.sizeCells = t.sizeCells := hsc
  have hread : s₁.node = readRoot t.props := congrArg Prod.snd hroot
  have hnode := hw.node
  have hcommit := hw.found
  have hram := hw.ram
  rw [hac'] at hnode hcommit
  rw [hac', hsc', hd] at hram
  dsimp only
  rw [hsplit]
  refine ⟨?_, s₁.ram, hram⟩
  change Found.commit _ _ = _
  rw [hcommit, hnode, hfound, hread, committed, List.foldl_append]
  rfl

end Tree

def stringNames : List Text :=
  ["#address-cells", "#size-cells", "compatible", "reg", "interrupts", "timebase-frequency"].map utf8

def Token.encode : Token → List UInt8
  | .beginNode name => toBeBytes 1 ++ pad4 (name ++ [0])
  | .endNode => toBeBytes 2
  | .prop pname val => toBeBytes 3 ++ toBeBytes (.ofNat val.length) ++
    toBeBytes (.ofNat ((stringNames.takeWhile (· ≠ pname)).map fun n => n.length + 1).sum) ++ pad4 val
  | .nop => toBeBytes 4
  | .stop => toBeBytes 9

/-- The tree as a blob of version 17, with no reserved memory. -/
def Tree.flatten (t : Tree) : List UInt8 :=
  let struct := (t.tokens ++ [Token.stop]).flatMap Token.encode
  let strings := stringNames.flatMap (· ++ [0])
  [0xd00dfeed, .ofNat (56 + struct.length + strings.length), 56, .ofNat (56 + struct.length), 40,
    17, 16, 0, .ofNat strings.length, .ofNat struct.length].flatMap toBeBytes ++
    List.replicate 16 0 ++ struct ++ strings

/-- The structure block is written for these tokens, with no `FDT_NOP`s. -/
def encodesCheck (dtb : List UInt8) (offStrings : Nat) : Nat → List Token → Bool
  | pos, [] => Holds dtb pos (toBeBytes 9)
  | pos, .beginNode name :: ts => 0 ∉ name ∧ Holds dtb pos (toBeBytes 1 ++ pad4 (name ++ [0])) ∧
    encodesCheck dtb offStrings (pos + 4 + (pad4 (name ++ [0])).length) ts
  | pos, .endNode :: ts => Holds dtb pos (toBeBytes 2) ∧ encodesCheck dtb offStrings (pos + 4) ts
  | pos, .prop pname val :: ts => val.length < 2 ^ 32 ∧ 0 ∉ pname ∧
    Holds dtb (offStrings + (cell dtb (pos + 8)).toNat) (pname ++ [0]) ∧
    Holds dtb pos (toBeBytes 3 ++ toBeBytes (.ofNat val.length) ++ toBeBytes (cell dtb (pos + 8)) ++
      pad4 val) ∧ encodesCheck dtb offStrings (pos + 12 + (pad4 val).length) ts
  | _, _ => false

theorem encodes_of_check {dtb : List UInt8} {offStrings pos : Nat} {ts : List Token}
    (h : encodesCheck dtb offStrings pos ts = true) : Encodes dtb offStrings pos ts := by
  induction ts generalizing pos with
  | nil => exact .stop (of_decide_eq_true h)
  | cons t ts ih =>
    cases t with
    | beginNode name =>
      obtain ⟨hname, hbytes, hrest⟩ := of_decide_eq_true h
      exact .beginNode hname hbytes (ih hrest)
    | endNode =>
      obtain ⟨hbytes, hrest⟩ := of_decide_eq_true h
      exact .endNode hbytes (ih hrest)
    | prop pname val =>
      obtain ⟨hlen, hname, hstring, hbytes, hrest⟩ := of_decide_eq_true h
      exact .prop _ hlen hname hstring hbytes (ih hrest)
    | nop => cases h
    | stop => cases h

def serialisesCheck (dtb : List UInt8) (t : Tree) : Bool :=
  Holds dtb 0 (toBeBytes 0xd00dfeed) ∧ Holds dtb 8 (toBeBytes (cell dtb 8)) ∧
    Holds dtb 12 (toBeBytes (cell dtb 12)) ∧ (cell dtb 8).toNat % 4 = 0 ∧
    encodesCheck dtb (cell dtb 12).toNat (cell dtb 8).toNat t.tokens

theorem serialises_of_check {dtb : List UInt8} {t : Tree} (h : serialisesCheck dtb t = true) :
    Serialises dtb t := by
  obtain ⟨hmagic, hstruct, hstrings, haligned, hts⟩ := of_decide_eq_true h
  exact ⟨hmagic, _, _, hstruct, hstrings, haligned, encodes_of_check hts⟩

end Dt

end Perenne

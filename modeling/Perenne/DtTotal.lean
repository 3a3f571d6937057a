import Perenne.DtTokens

namespace Perenne

namespace Dt

/-- The tokens from `pos` on, up to the first one that cannot be read or ends the block, and
whether the block ends there. -/
def tokensFrom (dtb : List UInt8) (offStrings : Nat) : Nat → Nat → List Token × Bool
  | 0, _ => ([], false)
  | n + 1, pos =>
    match tokenAt dtb offStrings pos with
    | none => ([], false)
    | some (.stop, _) => ([], true)
    | some (t, pos) =>
      let (ts, ended) := tokensFrom dtb offStrings n pos
      (t :: ts, ended)

def State.applyAll (s : State) : List Token → Fallible State
  | [] => .some s
  | t :: ts => s.apply t >>= fun s => s.applyAll ts

/-- The tokens of a blob with a readable header, up to the first one that is not readable. -/
def tokens (dtb : List UInt8) : List Token × Bool :=
  match header dtb with
  | .some (offStruct, offStrings) => tokensFrom dtb offStrings (dtb.length + 1) offStruct
  | _ => ([], false)

section Rounds

variable {dtb : List UInt8} {offStrings pos n : Nat}

/-- The loop reads tokens and applies them. It always ends, since each one is at least four
bytes long. -/
theorem rounds_eq (hsize : dtb.length < 2 ^ 63) (hstrings : offStrings < 2 ^ 32)
    (hpos : pos < 2 ^ 63 + 2 ^ 32) (hn : 0 < n) (hfuel : dtb.length + 1 ≤ pos + n) (s : State) :
    rounds dtb offStrings n pos s = some (s.applyAll (tokensFrom dtb offStrings n pos).1 >>=
      fun s => if (tokensFrom dtb offStrings n pos).2 then .some s else .none) := by
  induction n generalizing pos s with
  | zero => cases hn
  | succ n ih =>
    have hround := round_eq hsize hstrings hpos s
    cases htok : tokenAt dtb offStrings pos with
    | none =>
      rw [rounds, hround, tokensFrom, htok]
      rfl
    | some tp =>
    obtain ⟨t, pos'⟩ := tp
    obtain ⟨hin, hmore, hend⟩ := tokenAt_bounds htok
    have hrest := @ih pos' (by omega) (by omega) (by omega)
    rw [htok] at hround
    -- a token that does not end the block is applied, and the loop goes on behind it
    have hgo (hnext : roundOf s (some (t, pos')) = s.apply t >>= fun s => .some (.next pos' s)) :
        rounds dtb offStrings (n + 1) pos s =
        some (s.applyAll (t :: (tokensFrom dtb offStrings n pos').1) >>= fun s =>
          if (tokensFrom dtb offStrings n pos').2 then .some s else .none) := by
      rw [rounds, hround, hnext, State.applyAll]
      cases s.apply t with
      | some s' => exact hrest s'
      | none => rfl
      | stop e => rfl
    cases t with
    | stop =>
      rw [rounds, hround, tokensFrom, htok]
      rfl
    | beginNode name =>
      rw [tokensFrom, htok]
      exact hgo rfl
    | endNode =>
      rw [tokensFrom, htok]
      exact hgo rfl
    | prop pname val =>
      rw [tokensFrom, htok]
      exact hgo rfl
    | nop =>
      rw [tokensFrom, htok]
      exact hgo rfl

theorem tokensFrom_length : (tokensFrom dtb offStrings n pos).1.length ≤ n := by
  induction n generalizing pos with
  | zero => exact Nat.zero_le _
  | succ n ih =>
    rw [tokensFrom]
    split
    · exact Nat.zero_le _
    · exact Nat.zero_le _
    · exact Nat.succ_le_succ ih

theorem tokensFrom_val {pname : Text} {val : List UInt8}
    (h : .prop pname val ∈ (tokensFrom dtb offStrings n pos).1) : val.length < 2 ^ 32 := by
  induction n generalizing pos with
  | zero => cases h
  | succ n ih =>
    rw [tokensFrom] at h
    split at h
    case h_1 => cases h
    case h_2 => cases h
    case h_3 t pos' _ htok =>
      obtain heq | h := List.mem_cons.mp h
      · rw [← heq] at htok
        exact tokenAt_val htok
      · exact ih h

theorem header_eq (dtb : List UInt8) : header dtb = .none ∨
    ∃ offStruct offStrings, header dtb = .some (offStruct, offStrings) ∧ offStruct < 2 ^ 32 ∧
      offStrings < 2 ^ 32 := by
  rw [header, beU32_eq (by decide), beU32_eq (by decide), beU32_eq (by decide)]
  split
  case isFalse => exact .inl rfl
  case isTrue =>
  rw [Outcome.some_bind]
  split
  case isTrue => exact .inl rfl
  case isFalse =>
  split
  case isFalse => exact .inl rfl
  case isTrue =>
  split
  case isFalse => exact .inl rfl
  case isTrue =>
    exact .inr ⟨_, _, rfl, UInt32.toNat_lt _, UInt32.toNat_lt _⟩

theorem parse_eq (dtb : Blob) : parse dtb = some (State.init.applyAll (tokens dtb.bytes).1 >>=
    fun s => if (tokens dtb.bytes).2 then .ofOption s.finish else .none) := by
  obtain hnone | ⟨offStruct, offStrings, hsome, hstruct, hstrings⟩ := header_eq dtb.bytes
  · rw [parse, tokens, hnone]
    rfl
  · rw [parse, tokens, hsome]
    dsimp only
    rw [rounds_eq dtb.size hstrings (by omega) (by omega) (by omega), Option.map_some]
    congr 1
    cases State.init.applyAll (tokensFrom dtb.bytes offStrings (dtb.bytes.length + 1) offStruct).1 with
    | none => rfl
    | stop e => rfl
    | some s =>
      simp only [Outcome.some_bind]
      split
      · rfl
      · rfl

end Rounds

/-- What a token is met in: the names of the open nodes, the innermost first, and the cells
the root has declared so far. -/
structure Context where
  names : List Text
  addrCells : UInt32
  sizeCells : UInt32

namespace Context

def init : Context := ⟨[], 2, 2⟩

/-- The context after a token; `none` where a node is closed that is not open. -/
def step (c : Context) : Token → Option Context
  | .beginNode name => some { c with names := name :: c.names }
  | .endNode => match c.names with
    | [] => none
    | _ :: names => some { c with names }
  | .prop pname val =>
    if c.names.length = 1 ∧ 4 ≤ val.length then some { c with
      addrCells := if pname = utf8 "#address-cells" then cell val 0 else c.addrCells
      sizeCells := if pname = utf8 "#size-cells" then cell val 0 else c.sizeCells }
    else some c
  | .nop => some c
  | .stop => some c

/-- The innermost open node is named `memory*`, and less than 32 nodes are open. -/
def inMemory (c : Context) : Bool :=
  decide (c.names.length < 32) && c.names.head?.any fun name => (utf8 "memory").isPrefixOf name

/-- A `reg` of such a node, long enough for a base, where the cells of a base and a size are
`2 ^ 32` or more. -/
def Overflows (c : Context) : Token → Prop
  | .prop pname val => pname = utf8 "reg" ∧ c.inMemory = true ∧
    c.addrCells.toNat * 4 ≤ val.length ∧ 2 ^ 32 ≤ c.addrCells.toNat + c.sizeCells.toNat
  | _ => False

/-- No such `reg` is met. -/
def Fits (c : Context) : List Token → Prop
  | [] => True
  | t :: ts => ¬ c.Overflows t ∧ ∀ c', c.step t = some c' → c'.Fits ts

end Context

/-- The variables agree with the context. -/
structure State.Agrees (s : State) (c : Context) : Prop where
  depth : s.depth = c.names.length
  isMem {name : Text} {outer : List Text} (hopen : (name :: outer) <:+ c.names)
    (hd : outer.length + 1 < 32) : s.isMem[outer.length + 1] = (utf8 "memory").isPrefixOf name
  outside : s.isMem[0] = false
  addrCells : s.addrCells = c.addrCells
  sizeCells : s.sizeCells = c.sizeCells

section Agrees

variable {s s' : State} {c : Context}

theorem agrees_init : State.init.Agrees .init where
  depth := rfl
  isMem := fun hopen _ => absurd hopen.length_le (by simp [Context.init])
  outside := rfl
  addrCells := rfl
  sizeCells := rfl

theorem State.Agrees.inMemory (h : s.Agrees c) : s.inMemory = c.inMemory := by
  have hdepth := h.depth
  rw [State.inMemory, Context.inMemory]
  cases hnames : c.names with
  | nil =>
    simp only [hnames, List.length_nil] at hdepth
    simp only [hdepth, h.outside, Nat.zero_lt_succ, dite_true, List.head?_nil, Option.any_none,
      Bool.and_false]
  | cons name outer =>
    simp only [hnames, List.length_cons] at hdepth
    simp only [hdepth, List.length_cons, List.head?_cons, Option.any_some]
    by_cases hd : outer.length + 1 < 32
    · simp only [hd, dite_true, decide_true, Bool.true_and]
      exact h.isMem (hnames ▸ List.suffix_rfl) hd
    · simp only [hd, dite_false, decide_false, Bool.false_and]

theorem State.Agrees.overflows (h : s.Agrees c) (pname : Text) (val : List UInt8) :
    s.Overflows pname val ↔ c.Overflows (.prop pname val) := by
  rw [State.Overflows, Context.Overflows, h.inMemory, h.addrCells, h.sizeCells]

theorem State.Agrees.beginNode (h : s.Agrees c) (hdepth : s.depth + 1 < 2 ^ 64) (name : Text) :
    ∃ s' c', s.beginNode name = .some s' ∧ c.step (.beginNode name) = some c' ∧ s'.Agrees c' ∧
      s'.depth ≤ s.depth + 1 := by
  refine ⟨_, _, by rw [State.beginNode, addUsize_of_lt hdepth]; rfl, rfl, ?_, Nat.le_refl _⟩
  refine ⟨congrArg (· + 1) h.depth, fun {inner outer} hopen hd => ?_, ?_, h.addrCells, h.sizeCells⟩
  · dsimp only
    have hlen := h.depth
    obtain heq | hold := List.suffix_cons_iff.mp hopen
    · obtain ⟨rfl, rfl⟩ := List.cons.inj heq
      simp only [hlen, hd, dite_true, Vector.getElem_set_self]
    · have hle := hold.length_le
      rw [List.length_cons] at hle
      split
      · rw [Vector.getElem_set_ne _ _ (by omega)]
        exact h.isMem hold hd
      · exact h.isMem hold hd
  · dsimp only
    split
    · rw [Vector.getElem_set_ne _ _ (by omega)]
      exact h.outside
    · exact h.outside

theorem State.Agrees.endNode (h : s.Agrees c) :
    (s.endNode = .none ∧ c.step .endNode = none) ∨
      ∃ s' c', s.endNode = .some s' ∧ c.step .endNode = some c' ∧ s'.Agrees c' ∧
        s'.depth ≤ s.depth + 1 := by
  have hdepth := h.depth
  rw [State.endNode, Context.step]
  cases hnames : c.names with
  | nil =>
    rw [hnames, List.length_nil] at hdepth
    exact .inl ⟨if_pos hdepth, rfl⟩
  | cons name outer =>
    rw [hnames, List.length_cons] at hdepth
    right
    refine ⟨_, _, if_neg (by omega), rfl, ?_, by dsimp only; omega⟩
    refine ⟨by dsimp only; omega, fun hopen hd => ?_, h.outside, h.addrCells, h.sizeCells⟩
    exact h.isMem (hopen.trans (hnames ▸ List.suffix_cons name outer)) hd

theorem State.Agrees.withProp (h : s.Agrees c) (pname : Text) (val : List UInt8) :
    ∃ c', c.step (.prop pname val) = some c' ∧ (s.withProp pname val).Agrees c' := by
  rw [Context.step, ← h.depth]
  by_cases hroot : s.depth = 1 ∧ 4 ≤ val.length
  · rw [if_pos hroot]
    refine ⟨_, rfl, h.depth, h.isMem, h.outside, ?_, ?_⟩
    · simp only [State.withProp, State.cellsAfter, hroot, and_self, if_true, h.addrCells]
    · simp only [State.withProp, State.cellsAfter, hroot, and_self, if_true, h.sizeCells]
  · rw [if_neg hroot]
    refine ⟨_, rfl, h.depth, h.isMem, h.outside, ?_, ?_⟩
    · simp only [State.withProp, State.cellsAfter, hroot, if_false, h.addrCells]
    · simp only [State.withProp, State.cellsAfter, hroot, if_false, h.sizeCells]

/-- One token: the kernel stops where the sum overflows, `parse` gives up where the context
ends, and otherwise they go on together. -/
theorem State.Agrees.apply (h : s.Agrees c) (hdepth : s.depth + 1 < 2 ^ 64) {t : Token}
    (ht : ∀ pname val, t = .prop pname val → val.length < 2 ^ 32) :
    (c.Overflows t ∧ s.apply t = .stop .overflow) ∨
      (¬ c.Overflows t ∧ s.apply t = .none ∧ c.step t = none) ∨
      ∃ s' c', ¬ c.Overflows t ∧ s.apply t = .some s' ∧ c.step t = some c' ∧ s'.Agrees c' ∧
        s'.depth ≤ s.depth + 1 := by
  cases t with
  | beginNode name =>
    obtain ⟨s', c', hs, hc, hagrees⟩ := h.beginNode hdepth name
    exact .inr (.inr ⟨s', c', id, hs, hc, hagrees⟩)
  | endNode =>
    obtain ⟨hs, hc⟩ | ⟨s', c', hs, hc, hagrees⟩ := h.endNode
    · exact .inr (.inl ⟨id, hs, hc⟩)
    · exact .inr (.inr ⟨s', c', id, hs, hc, hagrees⟩)
  | prop pname val =>
    have hlen := ht pname val rfl
    have hprop : s.apply (.prop pname val) = _ := State.prop_eq (by omega)
    by_cases hover : s.Overflows pname val
    · rw [if_pos hover] at hprop
      exact .inl ⟨(h.overflows pname val).mp hover, hprop⟩
    · rw [if_neg hover] at hprop
      obtain ⟨c', hc, hagrees⟩ := h.withProp pname val
      exact .inr (.inr ⟨_, c', mt (h.overflows pname val).mpr hover, hprop, hc, hagrees,
        Nat.le_succ _⟩)
  | nop => exact .inr (.inr ⟨s, c, id, rfl, rfl, h, Nat.le_succ _⟩)
  | stop => exact .inr (.inr ⟨s, c, id, rfl, rfl, h, Nat.le_succ _⟩)

theorem State.Agrees.applyAll (h : s.Agrees c) {ts : List Token}
    (hdepth : s.depth + ts.length < 2 ^ 64)
    (hts : ∀ pname val, .prop pname val ∈ ts → val.length < 2 ^ 32) :
    (∃ e, s.applyAll ts = .stop e) ↔ ¬ c.Fits ts := by
  induction ts generalizing s c with
  | nil =>
    constructor
    · rintro ⟨e, he⟩
      cases he
    · exact fun hno => absurd trivial hno
  | cons t ts ih =>
    rw [List.length_cons] at hdepth
    have hval (pname : Text) (val : List UInt8) (ht : t = .prop pname val) : val.length < 2 ^ 32 :=
      hts pname val (ht ▸ .head _)
    rw [State.applyAll, Context.Fits]
    obtain ⟨hover, hs⟩ | ⟨hover, hs, hc⟩ | ⟨s', c', hover, hs, hc, hagrees, hle⟩ :=
      h.apply (by omega) hval
    · rw [hs]
      exact ⟨fun _ hfits => hfits.1 hover, fun _ => ⟨_, rfl⟩⟩
    · rw [hs]
      constructor
      · rintro ⟨e, he⟩
        cases he
      · intro hno
        refine absurd ⟨hover, fun c' hc' => ?_⟩ hno
        rw [hc] at hc'
        cases hc'
    · rw [hs, Outcome.some_bind, ih hagrees (by omega) fun pname val hp => hts pname val (.tail _ hp)]
      refine not_congr ⟨fun hfits => ⟨hover, fun c'' hc'' => ?_⟩, fun hfits => hfits.2 c' hc⟩
      obtain rfl := Option.some.inj (hc.symm.trans hc'')
      exact hfits

end Agrees

/-- On every blob `parse` comes to an end, and it returns exactly if no `reg` of a node named
`memory*` is met whose cells overflow their sum. -/
theorem parse_returns_iff (dtb : Blob) : (∃ r : Option MachineInfo, parse dtb = some (.ofOption r)) ↔
    Context.init.Fits (tokens dtb.bytes).1 := by
  have hlen : (tokens dtb.bytes).1.length ≤ dtb.bytes.length + 1 := by
    rw [tokens]
    split
    · exact tokensFrom_length
    · exact Nat.zero_le _
  have hvals (pname : Text) (val : List UInt8) (h : .prop pname val ∈ (tokens dtb.bytes).1) :
      val.length < 2 ^ 32 := by
    rw [tokens] at h
    split at h
    · exact tokensFrom_val h
    · cases h
  have hsize := dtb.size
  have hstop := agrees_init.applyAll (by change 0 + _ < _; omega) hvals
  rw [← not_iff_not, ← hstop, parse_eq]
  cases State.init.applyAll (tokens dtb.bytes).1 with
  | some s =>
    refine ⟨fun hno => absurd ?_ hno, fun ⟨e, he⟩ => by cases he⟩
    rw [Outcome.some_bind]
    split
    · exact ⟨s.finish, rfl⟩
    · exact ⟨none, rfl⟩
  | none => exact ⟨fun hno => absurd ⟨none, rfl⟩ hno, fun ⟨e, he⟩ => by cases he⟩
  | stop e =>
    refine ⟨fun _ => ⟨e, rfl⟩, fun _ => ?_⟩
    rintro ⟨r, hr⟩
    cases r <;> cases Option.some.inj hr

/-- A root with `#size-cells = 0xffffffff`, and a child `memory` with a `reg` of two cells. -/
def hostileBlob : Blob where
  bytes := ([0xd00dfeed, 88, 16, 72,
    1, 0, 3, 4, 0, 0xffffffff,
    1, 0x6d656d6f, 0x72790000, 3, 8, 12, 0, 0x80000000] : List UInt32).flatMap toBeBytes ++
    utf8 "#size-cells" ++ [0] ++ utf8 "reg" ++ [0]
  size := by decide

/-- The sum of the two cell counts overflows. -/
theorem parse_overflows : parse hostileBlob = some (.stop .overflow) := by
  decide +kernel

end Dt

end Perenne

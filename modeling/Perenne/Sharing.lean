import Perenne.Requests

/-!
# Several filesystem clients

`kb` and `kbw` both call `fs_read_block` and `fs_write_block`. They share the DMA data page and
`FS_CACHED_BLOCK`, and either may be preempted or block between any two steps of a call.
-/

namespace Perenne

/-- A filesystem call: `fs_read_block` and the copy of what it returned, or `fs_write_block`. -/
inductive FsOp where
  | copy (n : UInt32)
  | write (n : UInt32) (bytes : List UInt8)
deriving DecidableEq

inductive FsResult where
  | copied (page : Option Block)
  | wrote (ok : Bool)
deriving DecidableEq

namespace FsOp

def block : FsOp → UInt32
  | .copy n | .write n _ => n

def prog : FsOp → Io FsResult
  | .copy n => fsCopyBlock n >>= fun page => pure (.copied page)
  | .write n bytes => fsWriteBlock n bytes >>= fun ok => pure (.wrote ok)

/-- What the call may do to the disk, at most and when it returns true. -/
def stores (op : FsOp) (disk : Nat → Block) : Nat → Block :=
  match op with
  | .copy _ => disk
  | .write n bytes => Function.update disk n.toNat (.pad blockSize bytes)

/-- The step changes the disk only as the call may. -/
def StoredBy (op : FsOp) (w w' : World) : Prop :=
  w'.disk = w.disk ∨ w'.disk = op.stores w.disk

theorem stores_stores (op : FsOp) (disk : Nat → Block) :
    op.stores (op.stores disk) = op.stores disk := by
  cases op with
  | copy n => rfl
  | write n bytes => exact Function.update_idem ..

end FsOp

/-- The page that was copied out. -/
def FsResult.page : FsResult → Option Block
  | .copied page => page
  | .wrote _ => none

theorem FsResult.eq_copied {r : FsResult} {page : Block} (h : r.page = some page) :
    r = .copied (some page) := by
  cases r with
  | copied page' => exact congrArg FsResult.copied h
  | wrote ok => cases h

def FsOp.reads (n : UInt32) : FsOp → Bool
  | .copy n' => n' == n
  | .write _ _ => false

theorem FsOp.eq_copy {n : UInt32} {op : FsOp} (h : FsOp.reads n op = true) : op = .copy n := by
  cases op with
  | copy n' => exact congrArg FsOp.copy (beq_iff_eq.mp h)
  | write n' bytes => cases h

/-- A call that is not over: what is left of it, the world it began in, and the worlds since. -/
structure Session where
  op : FsOp
  prog : Io FsResult
  began : World
  since : List World

/-- The world and the calls of the client tasks. -/
structure Sharing (τ : Type) where
  world : World
  session : τ → Option Session

/-- What happens next: a client makes a call, takes its next step, has its request served,
or goes on with what the call returned; or the statics of `heal.rs` change. -/
inductive SharingEvent (τ : Type) where
  | start (c : τ) (op : FsOp)
  | run (c : τ)
  | serve (c : τ) (fate : Fate)
  | finish (c : τ)
  | heal (heal : Heal)

namespace Sharing

variable {τ : Type} [DecidableEq τ]

def init (w : World) : Sharing τ := ⟨w, fun _ => none⟩

/-- The world is `w` now. -/
def note (σ : Sharing τ) (w : World) : Sharing τ :=
  ⟨w, fun c => (σ.session c).map fun s => { s with since := s.since ++ [w] }⟩

/-- A move of the call of `c`. -/
def move (σ : Sharing τ) (c : τ) (m : Prog.Move Fate Empty) : Option (Sharing τ) := do
  let s ← σ.session c
  let (prog, w) ← Prog.step World.serve (fun e _ => e.elim) (s.prog, σ.world) m
  return note { σ with session := Function.update σ.session c (some { s with prog }) } w

def step (σ : Sharing τ) : SharingEvent τ → Option (Sharing τ)
  | .start c op =>
    if (σ.session c).isNone then
      some { σ with
        session := Function.update σ.session c (some ⟨op, op.prog, σ.world, [σ.world]⟩) }
    else none
  | .run c => σ.move c .run
  | .serve c fate => σ.move c (.serve fate)
  | .finish c =>
    if (σ.session c).any (·.prog.result.isSome) then
      some { σ with session := Function.update σ.session c none }
    else none
  | .heal heal => some (σ.note { σ.world with heal })

/-- Bytes that were copied out are the contents of the block at some moment of the call. -/
def ReadsBlocks (σ : Sharing τ) : Prop :=
  ∀ c s n page, σ.session c = some s → s.op = .copy n → s.prog = .ret (.copied (some page)) →
    ∃ w ∈ s.since, page = w.disk n.toNat

/-- A step of a call changes the disk in no other way than storing its bytes, and stores them
if the call returns true with it. -/
def StoresBytes (σ : Sharing τ) (c : τ) (σ' : Sharing τ) : Prop :=
  ∀ s s', σ.session c = some s → σ'.session c = some s' →
    s.op.StoredBy σ.world σ'.world ∧
    (s.prog.result = none → s'.prog = .ret (.wrote true) →
      σ'.world.disk = s.op.stores σ.world.disk)

/-- A call begins only while no other is open, and for a block number without the write flag. -/
def Exclusive (σ : Sharing τ) : SharingEvent τ → Prop
  | .start _ op => (∀ c, σ.session c = none) ∧ op.block.toNat < 2 ^ 31
  | _ => True

/-- A call that is not a cache hit begins only with nothing cached. -/
def Untagged (σ : Sharing τ) : SharingEvent τ → Prop
  | .start _ op => σ.world.cached = -1 ∨ ∃ n, op = .copy n ∧ σ.world.cached = n.toNat
  | _ => True

/-- The requests may meet any fate, and the other tasks may do anything to the statics of
`heal.rs`. -/
theorem any_client {G : World → World → Prop} (hG : ∀ w w', w'.disk = w.disk → G w w') :
    Client World.serve (fun _ => True) (fun _ _ => True) G where
  fate h := ⟨_, trivial, h⟩
  refl _ := trivial
  trans _ _ _ _ _ := trivial
  same := hG

/-- What is said of a call, whatever the device answers: `G` of its steps, `Inv` at every
moment, `Post` when it returns. -/
abbrev OpSound (G : World → World → Prop) (Inv : World → Prop) (Post : FsResult → World → Prop)
    (p : Io FsResult) (w : World) : Prop :=
  FsSound World.serve (fun _ _ => True) G Inv (fun _ => False) Post p w

theorem lawful (G : World → World → Prop) (Inv : World → Prop) (Stop : Panic → Prop) :
    (Prog.Spec.mk World.serve (Others fun _ _ => True) G Inv Stop).Lawful :=
  ⟨fun _ => ⟨rfl, rfl, rfl, trivial⟩, fun _ _ _ h12 h23 =>
    ⟨h23.disk.trans h12.disk, h23.page.trans h12.page, h23.cached.trans h12.cached, trivial⟩⟩

section Held

variable {G : FsOp → World → World → Prop} {Inv : FsOp → World → World → Prop}
  {Post : FsOp → World → FsResult → World → Prop} {σ σ' : Sharing τ}

/-- At most one call is open, it is sound, and the cache tag is true while none is. -/
structure Held (G : FsOp → World → World → Prop) (Inv : FsOp → World → World → Prop)
    (Post : FsOp → World → FsResult → World → Prop) (σ : Sharing τ) : Prop where
  rest (h : ∀ c, σ.session c = none) : σ.world.Coherent
  alone {c c' : τ} {s s' : Session} (hs : σ.session c = some s) (hs' : σ.session c' = some s') :
    c' = c
  began {c : τ} {s : Session} (hs : σ.session c = some s) : s.began ∈ s.since
  sound {c : τ} {s : Session} (hs : σ.session c = some s) :
    OpSound (G s.op) (Inv s.op s.began) (Post s.op s.began) s.prog σ.world

theorem held_start {c : τ} {op : FsOp} (hnone : ∀ c, σ.session c = none)
    (hsound : OpSound (G op) (Inv op σ.world) (Post op σ.world) op.prog σ.world)
    (hstep : σ.step (.start c op) = some σ') : σ'.Held G Inv Post := by
  rw [step, if_pos (by simp [hnone])] at hstep
  obtain rfl := Option.some.inj hstep
  have hopen {c' : τ} {s : Session}
      (hs : Function.update σ.session c (some ⟨op, op.prog, σ.world, [σ.world]⟩) c' = some s) :
      c' = c ∧ s = ⟨op, op.prog, σ.world, [σ.world]⟩ := by
    rw [Function.update_apply] at hs
    split at hs
    case isTrue hc => exact ⟨hc, (Option.some.inj hs).symm⟩
    case isFalse => cases (hnone c').symm.trans hs
  refine ⟨fun hall => ?_, fun hs hs' => ?_, fun hs => ?_, fun hs => ?_⟩
  · have := hall c
    simp at this
  · exact (hopen hs').1.trans (hopen hs).1.symm
  · obtain ⟨-, rfl⟩ := hopen hs
    exact .head _
  · obtain ⟨-, rfl⟩ := hopen hs
    exact hsound

theorem Held.move (h : σ.Held G Inv Post) {c : τ} {m : Prog.Move Fate Empty}
    (hstep : σ.move c m = some σ') : σ'.Held G Inv Post := by
  obtain ⟨s, hs, hstep⟩ := Option.bind_eq_some_iff.mp hstep
  obtain ⟨⟨prog, w⟩, hprog, hstep⟩ := Option.bind_eq_some_iff.mp hstep
  obtain rfl := Option.some.inj hstep
  have hsound := ((h.sound hs).step (lawful _ _ _) (fun f _ _ _ hf => ⟨f, hf⟩)
    (fun e => e.elim) hprog).1
  -- the call of `c` is the only one, before and after
  have hopen {c' : τ} {s' : Session}
      (hs' : (Function.update σ.session c (some { s with prog }) c').map
        (fun s => { s with since := s.since ++ [w] }) = some s') :
      c' = c ∧ s' = { s with prog, since := s.since ++ [w] } := by
    rw [Function.update_apply] at hs'
    split at hs'
    case isTrue hc => exact ⟨hc, (Option.some.inj hs').symm⟩
    case isFalse hc =>
      obtain ⟨s'', hs'', -⟩ := Option.map_eq_some_iff.mp hs'
      exact absurd (h.alone hs hs'') hc
  refine ⟨fun hall => ?_, fun hs hs' => ?_, fun hs' => ?_, fun hs' => ?_⟩
  · have := hall c
    simp [note] at this
  · exact (hopen hs').1.trans (hopen hs).1.symm
  · obtain ⟨-, rfl⟩ := hopen hs'
    exact List.mem_append_left _ (h.began hs)
  · obtain ⟨-, rfl⟩ := hopen hs'
    exact hsound

theorem Held.step (h : σ.Held G Inv Post) (hpost : ∀ op b r w, Post op b r w → w.Coherent)
    {e : SharingEvent τ} (hbegin : ∀ c op, e = .start c op → (∀ c, σ.session c = none) ∧
      OpSound (G op) (Inv op σ.world) (Post op σ.world) op.prog σ.world)
    (hstep : σ.step e = some σ') : σ'.Held G Inv Post := by
  cases e with
  | start c op =>
    obtain ⟨hnone, hsound⟩ := hbegin c op rfl
    exact held_start hnone hsound hstep
  | run c => exact h.move hstep
  | serve c fate => exact h.move hstep
  | finish c =>
    simp only [Sharing.step] at hstep
    split at hstep
    case isFalse => cases hstep
    case isTrue hdone =>
      obtain rfl := Option.some.inj hstep
      obtain ⟨s, hs, hret⟩ := (Option.any_eq_true _ _).mp hdone
      obtain ⟨r, hr⟩ := Option.isSome_iff_exists.mp hret
      have hsound := h.sound hs
      rw [Prog.eq_ret_of_result hr] at hsound
      have hclosed (c' : τ) : Function.update σ.session c none c' = none := by
        rw [Function.update_apply]
        split
        case isTrue => rfl
        case isFalse hc =>
          by_contra hne
          obtain ⟨s', hs'⟩ := Option.ne_none_iff_exists'.mp hne
          exact hc (h.alone hs hs')
      have hnot {c' : τ} {s' : Session} (hs' : Function.update σ.session c none c' = some s') :
          False := by cases (hclosed c').symm.trans hs'
      exact ⟨fun _ => hpost _ _ _ _ (hsound _ ⟨rfl, rfl, rfl, trivial⟩).2,
        fun hs' _ => (hnot hs').elim, fun hs' => (hnot hs').elim, fun hs' => (hnot hs').elim⟩
  | heal heal =>
    obtain rfl := Option.some.inj hstep
    have hopen {c : τ} {s' : Session} (hs' : (σ.session c).map
        (fun s => { s with since := s.since ++ [{ σ.world with heal }] }) = some s') :
        ∃ s, σ.session c = some s ∧ s' = { s with since := s.since ++ [{ σ.world with heal }] } := by
      obtain ⟨s, hs, rfl⟩ := Option.map_eq_some_iff.mp hs'
      exact ⟨s, hs, rfl⟩
    refine ⟨fun hall => ?_, fun hs hs' => ?_, fun hs' => ?_, fun hs' => ?_⟩
    · exact h.rest fun c => Option.map_eq_none_iff.mp (hall c)
    · obtain ⟨s₁, hs₁, -⟩ := hopen hs
      obtain ⟨s₂, hs₂, -⟩ := hopen hs'
      exact h.alone hs₁ hs₂
    · obtain ⟨s, hs, rfl⟩ := hopen hs'
      exact List.mem_append_left _ (h.began hs)
    · obtain ⟨s, hs, rfl⟩ := hopen hs'
      exact (h.sound hs).others (lawful _ _ _) ⟨rfl, rfl, rfl, trivial⟩

end Held

/-- What a call returns: the block as it was when the call began, or the bytes stored. -/
def Returned (op : FsOp) (b : World) (r : FsResult) (w : World) : Prop :=
  w.Coherent ∧ (∀ n page, op = .copy n → r = .copied (some page) → page = b.disk n.toNat) ∧
    (r = .wrote true → w.disk = op.stores b.disk)

theorem prog_sound {w : World} (hw : w.Coherent) {op : FsOp} (hn : op.block.toNat < 2 ^ 31) :
    OpSound op.StoredBy (fun w' => w'.disk = w.disk ∨ w'.disk = op.stores w.disk) (Returned op w) op.prog
      w := by
  cases op with
  | copy n =>
    apply Prog.Sound.bind (lawful _ _ _)
    apply (fsCopyBlock_sound (any_client fun _ _ h => .inl h) hn hw fun w' hd _ => .inl hd).mono
    rintro page w₁ ⟨hd, -, hco, hpage, -⟩ w₂ h₂
    refine ⟨.inl (h₂.disk.trans hd), hco.others h₂, fun n' page' hop hr => ?_, fun hr => by cases hr⟩
    obtain rfl := FsOp.copy.inj hop
    exact hpage page' (FsResult.copied.inj hr)
  | write n bytes =>
    apply Prog.Sound.bind (lawful _ _ _)
    apply (fsWriteBlock_sound (any_client fun _ _ h => .inl h) hn bytes (fun w' hd _ => hd)
      fun w₁ w₂ h₁ h₂ => .inr (h₂.trans (h₁ ▸ rfl))).mono
    rintro ok w₁ ⟨-, hco, hd, -⟩ w₂ h₂
    refine ⟨?_, hco.others h₂, fun n' page' hop => ?_, fun hr => ?_⟩
    · change w₂.disk = w.disk ∨ _
      rw [h₂.disk]
      exact hd.symm.imp_left And.right
    · cases hop
    · obtain rfl := FsResult.wrote.inj hr
      rw [h₂.disk]
      exact hd.resolve_right fun h => by cases h.1

theorem coherent_of_untagged {w : World} (h : w.cached = -1) : w.Coherent := by
  intro n hn
  rw [h] at hn
  omega

theorem copied_sound {w : World} (hw : w.Coherent) :
    OpSound (fun _ _ => True) World.Coherent (fun _ w => w.Coherent)
      (Prog.read World.page >>= fun page => pure (.copied (some page))) w := by
  intro w₁ h₁
  refine ⟨hw.others h₁, trivial, fun w₂ h₂ => ?_⟩
  have hco := (hw.others h₁).others h₂
  exact ⟨hco, hco⟩

theorem prog_coherent {w : World} (hw : w.Coherent) {op : FsOp} (hn : op.block.toNat < 2 ^ 31)
    (htag : w.cached = -1 ∨ ∃ n, op = .copy n ∧ w.cached = n.toNat) :
    OpSound (fun _ _ => True) World.Coherent (fun _ w => w.Coherent) op.prog w := by
  cases op with
  | copy n =>
    intro w₁ h₁
    refine ⟨hw.others h₁, trivial, ?_⟩
    by_cases hhit : w₁.cached = n.toNat
    · change OpSound _ _ _ ((if w₁.cached = n.toNat then _ else _) >>= _ >>= _) w₁
      rw [if_pos hhit]
      exact copied_sound (hw.others h₁)
    · have hnone : w₁.cached = -1 := by
        rw [h₁.cached] at hhit ⊢
        obtain hnone | ⟨n', hop, hcached⟩ := htag
        · exact hnone
        · obtain rfl := FsOp.copy.inj hop
          exact absurd hcached hhit
      change OpSound _ _ _ ((if w₁.cached = n.toNat then _ else _) >>= _ >>= _) w₁
      rw [if_neg hhit]
      intro w₂ h₂
      have hnone := h₂.cached.trans hnone
      refine ⟨coherent_of_untagged hnone, fun fate status w₃ hserve => ⟨trivial, ?_⟩⟩
      obtain ⟨hdisk, hcached, -, hpage, -⟩ := World.serve_read hn hserve
      have hnone := hcached.trans hnone
      change OpSound _ _ _ ((if status ≠ 0 then _ else _) >>= _ >>= _) w₃
      by_cases hst : status = 0
      · rw [if_neg (not_not.mpr hst)]
        intro w₄ h₄
        refine ⟨coherent_of_untagged (h₄.cached.trans hnone), trivial, copied_sound fun m hm => ?_⟩
        change (n.toNat : Int) = m at hm
        change w₄.page = w₄.disk m
        rw [h₄.page, h₄.disk, hpage hst, hdisk]
        exact congrArg w₂.disk (Int.ofNat.inj hm)
      · rw [if_pos hst]
        intro w₄ h₄
        refine ⟨coherent_of_untagged (h₄.cached.trans hnone), trivial, fun w₅ h₅ => ?_⟩
        have hco : w₅.Coherent := coherent_of_untagged h₅.cached
        exact ⟨hco, hco⟩
  | write n bytes =>
    have hnone : w.cached = -1 := by
      obtain hnone | ⟨n', hop, -⟩ := htag
      · exact hnone
      · cases hop
    intro w₁ h₁
    have hnone := h₁.cached.trans hnone
    refine ⟨coherent_of_untagged hnone, trivial, fun w₂ h₂ => ?_⟩
    have hnone := h₂.cached.trans hnone
    refine ⟨coherent_of_untagged hnone, trivial, fun w₃ h₃ => ?_⟩
    have hnone := h₃.cached.trans hnone
    refine ⟨coherent_of_untagged hnone, trivial, fun w₄ h₄ => ?_⟩
    refine ⟨coherent_of_untagged h₄.cached, fun fate status w₅ hserve => ⟨trivial, fun w₆ h₆ => ?_⟩⟩
    obtain ⟨-, hcached, -⟩ := World.serve_write hn hserve
    have hco : w₆.Coherent :=
      coherent_of_untagged (h₆.cached.trans (hcached.trans h₄.cached))
    exact ⟨hco, hco⟩

section Runs

open Transition

variable {w₀ : World} {es : List (SharingEvent τ)} {σ σ' : Sharing τ}

theorem exclusive_held (hw : w₀.Coherent) (hexcl : StepsMeet step Exclusive (init w₀) es)
    (hrun : run step (init w₀) es = some σ) : σ.Held FsOp.StoredBy
      (fun op b w => w.disk = b.disk ∨ w.disk = op.stores b.disk) Returned := by
  have hinit : (init w₀ : Sharing τ).Held FsOp.StoredBy
      (fun op b w => w.disk = b.disk ∨ w.disk = op.stores b.disk) Returned :=
    ⟨fun _ => hw, fun hs => (by cases hs), fun hs => (by cases hs), fun hs => (by cases hs)⟩
  refine invariant_run (fun σ e σ' h hexcl hstep => ?_) hinit hexcl hrun
  refine h.step (fun _ _ _ _ hpost => hpost.1) (fun c op he => ?_) hstep
  subst he
  exact ⟨hexcl.1, prog_sound (h.rest hexcl.1) hexcl.2⟩

theorem untagged_held (hw : w₀.Coherent)
    (hgood : StepsMeet step (fun σ e => Exclusive σ e ∧ Untagged σ e) (init w₀) es)
    (hrun : run step (init w₀) es = some σ) : σ.Held (fun _ _ _ => True)
      (fun _ _ w => w.Coherent) (fun _ _ _ w => w.Coherent) := by
  have hinit : (init w₀ : Sharing τ).Held (fun _ _ _ => True)
      (fun _ _ w => w.Coherent) (fun _ _ _ w => w.Coherent) :=
    ⟨fun _ => hw, fun hs => (by cases hs), fun hs => (by cases hs), fun hs => (by cases hs)⟩
  refine invariant_run (fun σ e σ' h hgood hstep => ?_) hinit hgood hrun
  refine h.step (fun _ _ _ _ hpost => hpost) (fun c op he => ?_) hstep
  subst he
  exact ⟨hgood.1.1, prog_coherent (h.rest hgood.1.1) hgood.1.2 hgood.2⟩

theorem Held.storesBytes (h : σ.Held FsOp.StoredBy
      (fun op b w => w.disk = b.disk ∨ w.disk = op.stores b.disk) Returned) {c : τ}
    {m : Prog.Move Fate Empty} (hstep : σ.move c m = some σ') : StoresBytes σ c σ' := by
  have h' := h.move hstep
  obtain ⟨s, hs, hstep⟩ := Option.bind_eq_some_iff.mp hstep
  obtain ⟨⟨prog, w⟩, hprog, hstep⟩ := Option.bind_eq_some_iff.mp hstep
  obtain rfl := Option.some.inj hstep
  have hguar := ((h.sound hs).step (lawful _ _ _) (fun f _ _ _ hf => ⟨f, hf⟩)
    (fun e => e.elim) hprog).2
  intro s₁ s' hs₁ hs'
  obtain rfl := Option.some.inj (hs.symm.trans hs₁)
  refine ⟨hguar.elim id fun henv => .inl henv.disk, fun _ hret => ?_⟩
  have hsound := h'.sound hs'
  rw [hret] at hsound
  have hself : s'.op = s.op ∧ s'.began = s.began := by
    simp only [note, Function.update_self, Option.map_some, Option.some.injEq] at hs'
    rw [← hs']
    exact ⟨rfl, rfl⟩
  have hstored := (hsound _ ⟨rfl, rfl, rfl, trivial⟩).2.2.2 rfl
  rw [hself.1, hself.2] at hstored
  -- before the step the block held the old contents, or the bytes already
  obtain hold | hold := (h.sound hs).inv ⟨rfl, rfl, rfl, trivial⟩
  · rw [hstored, hold]
  · rw [hstored, hold, FsOp.stores_stores]

/-- In every run of any number of clients in which no filesystem call begins while another is
open or with a block number that has the write flag: what is copied out is the block at some
moment of the call, a call stores no more than its bytes and has stored them when it returns
true, the cache tag is true whenever no call is open, and it is true in every state if besides
no call but a hit begins with a block cached. -/
theorem exclusive_calls_coherent (hw : w₀.Coherent)
    (hexcl : StepsMeet step Exclusive (init w₀) es) (hrun : run step (init w₀) es = some σ) :
    σ.ReadsBlocks ∧
    (∀ c e σ', σ.step e = some σ' → (e = .run c ∨ ∃ fate, e = .serve c fate) →
      StoresBytes σ c σ') ∧
    ((∀ c, σ.session c = none) → σ.world.Coherent) ∧
    (StepsMeet step Untagged (init w₀) es → σ.world.Coherent) := by
  have h := exclusive_held hw hexcl hrun
  refine ⟨fun c s n page hs hop hret => ?_, fun c e σ' hstep he => ?_, h.rest, fun htag => ?_⟩
  · have hsound := h.sound hs
    rw [hret] at hsound
    have hpage := (hsound _ ⟨rfl, rfl, rfl, trivial⟩).2.2.1 n page hop rfl
    exact ⟨s.began, h.began hs, hpage⟩
  · obtain rfl | ⟨fate, rfl⟩ := he
    · exact h.storesBytes hstep
    · exact h.storesBytes hstep
  · have hheld := untagged_held hw (stepsMeet_and hexcl htag) hrun
    by_cases hrest : ∀ c, σ.session c = none
    · exact hheld.rest hrest
    · obtain ⟨c, hc⟩ := not_forall.mp hrest
      obtain ⟨s, hs⟩ := Option.ne_none_iff_exists'.mp hc
      exact (hheld.sound hs).inv ⟨rfl, rfl, rfl, trivial⟩

/-- A disk whose blocks begin with their numbers. -/
def numberedDisk : World := ⟨fun n => .pad blockSize [.ofNat n], .pad blockSize [], -1, .empty⟩

/-- One client writes block 1; then the other reads it. -/
def inTurn : List (SharingEvent Bool) :=
  [.start true (.write 1 [7]), .run true, .run true, .run true, .serve true .done, .finish true,
    .start false (.copy 1), .run false, .serve false .done, .run false, .run false]

theorem exclusive_calls_coherent_in_turn : ∃ σ s page, run step (init numberedDisk) inTurn = some σ ∧
    σ.session false = some s ∧ s.prog = .ret (.copied (some page)) ∧
    page.list.head? = some 7 ∧ ∃ w ∈ s.since, page = w.disk 1 := by
  have heval : (run step (init numberedDisk) inTurn).any fun σ => (σ.session false).any fun s =>
      FsOp.reads 1 s.op && s.prog.result.any fun r => r.page.any fun page =>
        page.list.head? == some 7 := by
    decide +kernel
  obtain ⟨σ, hrun, hcall⟩ := (Option.any_eq_true _ _).mp heval
  obtain ⟨s, hs, hcall⟩ := (Option.any_eq_true _ _).mp hcall
  obtain ⟨hop, hret⟩ := Bool.and_eq_true_iff.mp hcall
  obtain ⟨r, hr, hret⟩ := (Option.any_eq_true _ _).mp hret
  obtain ⟨page, hpage, hhead⟩ := (Option.any_eq_true _ _).mp hret
  have hprog : s.prog = .ret (.copied (some page)) := by
    rw [Prog.eq_ret_of_result hr, FsResult.eq_copied hpage]
  have hexcl : StepsMeet step Exclusive (init numberedDisk) inTurn := by
    refine ⟨⟨fun c => rfl, by decide⟩, fun σ₁ h₁ => ⟨trivial, fun σ₂ h₂ => ⟨trivial, fun σ₃ h₃ =>
      ⟨trivial, fun σ₄ h₄ => ⟨trivial, fun σ₅ h₅ => ⟨trivial, fun σ₆ h₆ => ⟨⟨fun c => ?_, by decide⟩,
      fun σ₇ h₇ => ?_⟩⟩⟩⟩⟩⟩⟩
    · obtain rfl := Option.some.inj h₁
      obtain rfl := Option.some.inj h₂
      obtain rfl := Option.some.inj h₃
      obtain rfl := Option.some.inj h₄
      obtain rfl := Option.some.inj h₅
      obtain rfl := Option.some.inj h₆
      cases c <;> rfl
    · exact ⟨trivial, fun _ _ => ⟨trivial, fun _ _ => ⟨trivial, fun _ _ => ⟨trivial, fun _ _ =>
        trivial⟩⟩⟩⟩
  have hcalls := exclusive_calls_coherent (coherent_of_untagged rfl) hexcl hrun
  exact ⟨σ, s, page, hrun, hs, hprog, beq_iff_eq.mp hhead,
    hcalls.1 false s 1 page hs (FsOp.eq_copy hop) hprog⟩

/-- Both requests are served before the first reader goes on: it copies out the other block, and
the tag is left on the wrong one. -/
def crossedReads : List (SharingEvent Bool) :=
  [.start false (.copy 0), .run false, .start true (.copy 1), .run true, .serve false .done,
    .serve true .done, .run true, .run true, .finish true, .run false, .run false]

/-- The second writer fills the page before the first request is served. -/
def crossedWrites : List (SharingEvent Bool) :=
  [.start false (.write 5 [1]), .run false, .run false, .run false, .start true (.write 6 [2]),
    .run true]

/-- A client that reads block 0 and then begins to write. -/
def tagLags : List (SharingEvent Bool) :=
  [.start false (.copy 0), .run false, .serve false .done, .run false, .run false, .finish false,
    .start false (.write 1 [7]), .run false]

/-- A reader gets another block, a writer that returns true has stored another's bytes, and the
tag is wrong, for two clients after their calls and even for one during its call. -/
theorem calls_cross :
    (∃ σ, run step (init numberedDisk) crossedReads = some σ ∧ ¬ σ.ReadsBlocks ∧
      ¬ σ.world.Coherent) ∧
    (∃ σ σ', run step (init numberedDisk) crossedWrites = some σ ∧
      σ.step (.serve false .done) = some σ' ∧ ¬ StoresBytes σ false σ') ∧
    ∃ σ, run step (init numberedDisk) tagLags = some σ ∧ ¬ σ.world.Coherent := by
  have hwrong {σ : Sharing Bool} (hcached : σ.world.cached = 0)
      (hpage : σ.world.page ≠ σ.world.disk 0) : ¬ σ.world.Coherent :=
    fun h => hpage (h 0 hcached)
  refine ⟨?_, ?_, ?_⟩
  · have heval : (run step (init numberedDisk) crossedReads).any fun σ =>
        decide (σ.world.cached = 0 ∧ σ.world.page ≠ σ.world.disk 0) &&
        (σ.session false).any fun s => decide (s.op = .copy 0) &&
          decide (s.prog.result = some (.copied (some (numberedDisk.disk 1)))) &&
          s.since.all fun w => decide (numberedDisk.disk 1 ≠ w.disk 0) := by
      decide +kernel
    obtain ⟨σ, hrun, heval⟩ := (Option.any_eq_true _ _).mp heval
    obtain ⟨htag, heval⟩ := Bool.and_eq_true_iff.mp heval
    obtain ⟨s, hs, heval⟩ := (Option.any_eq_true _ _).mp heval
    simp only [Bool.and_eq_true, decide_eq_true_eq, List.all_eq_true] at htag heval
    obtain ⟨⟨hop, hret⟩, hother⟩ := heval
    refine ⟨σ, hrun, fun hreads => ?_, hwrong htag.1 htag.2⟩
    obtain ⟨w, hw, hpage⟩ := hreads false s 0 _ hs hop (Prog.eq_ret_of_result hret)
    exact hother w hw hpage
  · have heval : (run step (init numberedDisk) crossedWrites).any fun σ =>
        (σ.step (.serve false .done)).any fun σ' =>
          decide (σ'.world.disk 5 = .pad blockSize [2] ∧ σ.world.disk 5 = .pad blockSize [5]) &&
          (σ.session false).any (fun s => decide (s.op = .write 5 [1])) &&
          (σ'.session false).isSome := by
      decide +kernel
    obtain ⟨σ, hrun, heval⟩ := (Option.any_eq_true _ _).mp heval
    obtain ⟨σ', hstep, heval⟩ := (Option.any_eq_true _ _).mp heval
    simp only [Bool.and_eq_true, decide_eq_true_eq, Option.isSome_iff_exists] at heval
    obtain ⟨⟨⟨hnew, hold⟩, hany⟩, s', hs'⟩ := heval
    obtain ⟨s, hs, hop⟩ := (Option.any_eq_true _ _).mp hany
    refine ⟨σ, σ', hrun, hstep, fun hstores => ?_⟩
    obtain ⟨hby, -⟩ := hstores s s' hs hs'
    rw [FsOp.StoredBy, of_decide_eq_true hop] at hby
    obtain hsame | hstored := hby
    · rw [hsame, hold] at hnew
      exact absurd hnew (by decide +kernel)
    · have hown : (FsOp.write 5 [1]).stores σ.world.disk 5 = .pad blockSize [1] := by
        rw [FsOp.stores, show (5 : UInt32).toNat = 5 from rfl, Function.update_self]
      rw [hstored, hown] at hnew
      exact absurd hnew (by decide +kernel)
  · have heval : (run step (init numberedDisk) tagLags).any fun σ =>
        decide (σ.world.cached = 0 ∧ σ.world.page ≠ σ.world.disk 0) := by
      decide +kernel
    obtain ⟨σ, hrun, htag⟩ := (Option.any_eq_true _ _).mp heval
    obtain ⟨hcached, hpage⟩ := of_decide_eq_true htag
    exact ⟨σ, hrun, hwrong hcached hpage⟩

end Runs

end Sharing

end Perenne

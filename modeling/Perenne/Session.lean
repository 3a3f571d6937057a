import Perenne.Channel

namespace Perenne

/-- `kernel_crypto` with `open`, which returns the plaintext if the tag verifies. -/
structure Aead extends Crypto where
  openInPlace : (key : Bytes 32) → (nonce : Bytes 12) → Bytes 8 → Bytes 16 → Option (Bytes 8)

/-- What the AEAD promises: it opens what it sealed under the same key and nonce, and what
it opens to a plaintext is the sealing of that plaintext. -/
structure Aead.Lawful (aead : Aead) : Prop where
  opens : ∀ key nonce plain, aead.openInPlace key nonce (aead.sealInPlace key nonce plain).1
    (aead.sealInPlace key nonce plain).2 = some plain
  sealed : ∀ {key nonce ct tag plain}, aead.openInPlace key nonce ct tag = some plain →
    aead.sealInPlace key nonce plain = (ct, tag)

/-- A system call of the channel; `open` is made as `seal` is, by a task with a frame. -/
inductive ChannelCall where
  | sealing (call : SealCall)
  | opening (call : SealCall)

namespace ChannelCall

/-- The task that makes the call, and its frame. -/
def made : ChannelCall → SealCall
  | sealing call => call
  | opening call => call

/-- The caller holds the session capability. -/
def admitted (call : ChannelCall) : Bool := call.made.task.caps.hasSession 0

end ChannelCall

theorem Bytes.ext_list {n : Nat} {a b : Bytes n} (h : a.list = b.list) : a = b := by
  obtain ⟨as, ha⟩ := a
  obtain ⟨bs, hb⟩ := b
  cases h
  rfl

/-- The two halves of a tag, as `open` puts them together from `a1` and `a2`. -/
def tagBytes (lo hi : Nat) : Bytes 16 where
  list := (wordBytes lo).list ++ (wordBytes hi).list
  size := by rw [List.length_append, (wordBytes lo).size, (wordBytes hi).size]

namespace Channel

variable (aead : Aead)

/-- `open_word`. -/
def openWord (c : Channel) (ct : Bytes 8) (tag : Bytes 16) (nonce : Nat) : Option (Bytes 8) :=
  aead.openInPlace c.key (nonceBytes nonce) ct tag

/-- The `open` system call. -/
def openCall (c : Channel) (call : SealCall) : TrapFrame :=
  let regs := call.frame.regs
  let opened := openWord aead c (wordBytes (regs 9)) (tagBytes (regs 10) (regs 11)) (regs 12)
  Perenne.openWord call.task (opened.map fun plain => bytesWord plain.list) call.frame

/-- A call, the frame its task resumes with, and the channel after it. -/
def serve (c : Channel) : ChannelCall → Except Panic (TrapFrame × Channel)
  | .sealing call => do
    let (frame, _, c) ← sealCall aead.toCrypto c call
    return (frame, c)
  | .opening call => return (openCall aead c call, c)

/-- The calls of a boot from this channel on, each with the frame it returned. -/
def served (c : Channel) : List ChannelCall → Except Panic (List (ChannelCall × TrapFrame))
  | [] => return []
  | call :: calls => do
    let (frame, c) ← serve aead c call
    let rest ← served c calls
    return (call, frame) :: rest

def sessions : List (List ChannelCall) → Except Panic (List (ChannelCall × TrapFrame))
  | [] => return []
  | calls :: boots => do
    let now ← served aead (establish aead.toCrypto init kmainSeed) calls
    let later ← sessions boots
    return now ++ later

/-- The key of every boot: `kmain` passes the same seed each time. -/
def sessionKeyOf : Bytes 32 := (aead.mlKem768Agree kmainSeed).getD (.pad 32 [])

theorem bytesWord_wordBytes_mod (n : Nat) : bytesWord (wordBytes n).list = n % 2 ^ 64 := by
  have hbyte (k : Nat) : (UInt8.ofNat k).toNat = k % 256 := UInt8.toNat_ofNat'
  simp only [bytesWord, wordBytes, List.range_succ, List.range_zero, List.map_cons, List.map_nil,
    List.nil_append, List.cons_append, List.foldr_cons, List.foldr_nil, hbyte]
  omega

theorem bytesWord_lt (bs : List UInt8) : bytesWord bs < 256 ^ bs.length := by
  induction bs with
  | nil => decide
  | cons b bs ih =>
    have hb := b.toNat_lt
    rw [List.length_cons, pow_succ]
    change b.toNat + 256 * bytesWord bs < _
    omega

theorem bytesWord_inj {as bs : List UInt8} (hlen : as.length = bs.length)
    (h : bytesWord as = bytesWord bs) : as = bs := by
  induction as generalizing bs with
  | nil => exact (List.length_eq_zero_iff.mp hlen.symm).symm
  | cons a as ih =>
    obtain _ | ⟨b, bs⟩ := bs
    · cases hlen
    · have ha := a.toNat_lt
      have hb := b.toNat_lt
      change a.toNat + 256 * bytesWord as = b.toNat + 256 * bytesWord bs at h
      have hhead : a = b := UInt8.toNat_inj.mp (by omega)
      have htail : as = bs := ih (Nat.succ.inj hlen) (by omega)
      rw [hhead, htail]

theorem wordBytes_bytesWord {bs : List UInt8} (hlen : bs.length = 8) :
    (wordBytes (bytesWord bs)).list = bs := by
  have hlt : bytesWord bs < 2 ^ 64 := by
    have := bytesWord_lt bs
    rw [hlen] at this
    exact this
  exact bytesWord_inj ((wordBytes _).size.trans hlen.symm) (bytesWord_wordBytes hlt)

theorem wordBytes_ct (ct : Bytes 8) : wordBytes (bytesWord ct.list) = ct :=
  Bytes.ext_list (wordBytes_bytesWord ct.size)

theorem tagBytes_halves (tag : Bytes 16) :
    tagBytes (bytesWord (tag.list.take 8)) (bytesWord (tag.list.drop 8)) = tag := by
  have hsize := tag.size
  have hlo : (tag.list.take 8).length = 8 := by
    rw [List.length_take]
    omega
  have hhi : (tag.list.drop 8).length = 8 := by
    rw [List.length_drop]
    omega
  refine Bytes.ext_list ?_
  change (wordBytes _).list ++ (wordBytes _).list = _
  rw [wordBytes_bytesWord hlo, wordBytes_bytesWord hhi, List.take_append_drop]

/-- The registers `a1`..`a4` of a sealed word. -/
def sealedWords (key : Bytes 32) (nonce : Nat) (plain : Bytes 8) : Nat × Nat × Nat × Nat :=
  let (ct, tag) := aead.sealInPlace key (nonceBytes nonce) plain
  (bytesWord ct.list, bytesWord (tag.list.take 8), bytesWord (tag.list.drop 8), nonce)

/-- What a call is answered under `key`; which nonce a sealed word gets is left open. -/
inductive Answered (key : Bytes 32) : ChannelCall → TrapFrame → Prop where
  | sealing (call : SealCall) (nonce : Nat) : Answered key (.sealing call)
      (Perenne.sealWord call.task (sealedWords aead key nonce (wordBytes (call.frame.regs 9)))
        call.frame)
  | opening (call : SealCall) : Answered key (.opening call) (openCall aead ⟨some key, 0⟩ call)

variable {c : Channel}

theorem sealWord_refused {t : Task} (h : t.caps.hasSession 0 = false) (w : Nat × Nat × Nat × Nat)
    (frame : TrapFrame) : Perenne.sealWord t w frame = frame.setStatus false := by
  rw [Perenne.sealWord, h]
  rfl

theorem serve_answered (call : ChannelCall) (hnext : c.nonce + 1 < 2 ^ 64) :
    ∃ frame next, serve aead c call = .ok (frame, next) ∧ Answered aead c.key call frame ∧
      next.key = c.key ∧ next.nonce ≤ c.nonce + 1 := by
  cases call with
  | sealing call =>
    by_cases hcap : call.task.caps.hasSession 0 = true
    · refine ⟨Perenne.sealWord call.task
        (sealedWords aead c.key c.nonce (wordBytes (call.frame.regs 9))) call.frame,
        { c with nonce := c.nonce + 1 }, ?_, .sealing call c.nonce, rfl, le_rfl⟩
      rw [serve, sealCall, if_pos hcap, sealWord, if_pos hnext]
      rfl
    · rw [Bool.not_eq_true] at hcap
      have hanswer : Answered aead c.key (.sealing call) _ := .sealing call 0
      rw [sealWord_refused hcap] at hanswer
      refine ⟨call.frame.setStatus false, c, ?_, hanswer, rfl, by omega⟩
      rw [serve, sealCall, if_neg (by rw [hcap]; decide), sealWord_refused hcap]
      rfl
  | opening call => exact ⟨_, c, rfl, .opening call, rfl, by omega⟩

theorem served_answered {calls : List ChannelCall} (hfew : c.nonce + calls.length < 2 ^ 64) :
    ∃ done, served aead c calls = .ok done ∧ done.map Prod.fst = calls ∧
      ∀ p ∈ done, Answered aead c.key p.1 p.2 := by
  induction calls generalizing c with
  | nil => exact ⟨[], rfl, rfl, fun p hp => absurd hp List.not_mem_nil⟩
  | cons call calls ih =>
    rw [List.length_cons] at hfew
    obtain ⟨frame, next, hserve, hanswer, hkey, hnonce⟩ :=
      serve_answered aead (c := c) call (by omega)
    obtain ⟨rest, hrest, hcalls, hall⟩ := ih (c := next) (by omega)
    refine ⟨(call, frame) :: rest, ?_, by rw [List.map_cons, hcalls], ?_⟩
    · rw [served, hserve]
      change (served aead next calls >>= _) = _
      rw [hrest]
      rfl
    · intro p hp
      obtain rfl | hp := List.mem_cons.mp hp
      · exact hanswer
      · exact hkey ▸ hall p hp

theorem sessions_answered {boots : List (List ChannelCall)}
    (hfew : ∀ calls ∈ boots, calls.length < 2 ^ 64) :
    ∃ done, sessions aead boots = .ok done ∧ done.map Prod.fst = boots.flatten ∧
      ∀ p ∈ done, Answered aead (sessionKeyOf aead) p.1 p.2 := by
  induction boots with
  | nil => exact ⟨[], rfl, rfl, fun p hp => absurd hp List.not_mem_nil⟩
  | cons calls boots ih =>
    have hlen := hfew calls (.head _)
    have hroom : (establish aead.toCrypto init kmainSeed).nonce + calls.length < 2 ^ 64 := by
      change 0 + _ < _
      omega
    obtain ⟨now, hnow, hcalls, hall⟩ := served_answered aead hroom
    obtain ⟨later, hlater, hboots, hrest⟩ := ih fun calls hc => hfew calls (.tail _ hc)
    refine ⟨now ++ later, ?_, by rw [List.map_append, hcalls, hboots, List.flatten_cons], ?_⟩
    · rw [sessions, hnow, hlater]
      rfl
    · intro p hp
      obtain hp | hp := List.mem_append.mp hp
      · exact hall p hp
      · exact hrest p hp

end Channel

/-- The frame of an `open` call holds what a `seal` call returned. -/
def HandsOver (sealed frame : TrapFrame) : Prop :=
  frame.regs 9 = sealed.regs 10 ∧ frame.regs 10 = sealed.regs 11 ∧
    frame.regs 11 = sealed.regs 12 ∧ frame.regs 12 = sealed.regs 13

namespace Channel

variable {aead : Aead} {key : Bytes 32} {call : SealCall} {frame : TrapFrame}

theorem openWord_some {t : Task} (h : t.caps.hasSession 0 = true) (plain : Nat)
    (frame : TrapFrame) :
    Perenne.openWord t (some plain) frame = (frame.setReg 9 0).setReg 10 plain := if_pos h

theorem openWord_none (t : Task) (frame : TrapFrame) :
    Perenne.openWord t none frame = frame.setStatus false := ite_self _

theorem openWord_refused {t : Task} (h : t.caps.hasSession 0 = false) (opened : Option Nat)
    (frame : TrapFrame) : Perenne.openWord t opened frame = frame.setStatus false :=
  if_neg (by rw [h]; decide)

theorem openCall_carries (hlaw : aead.Lawful) {sealed : SealCall} {nonce : Nat}
    (hseal : sealed.task.caps.hasSession 0 = true) (hopen : call.task.caps.hasSession 0 = true)
    (hcarries : HandsOver (Perenne.sealWord sealed.task
      (sealedWords aead key nonce (wordBytes (sealed.frame.regs 9))) sealed.frame) call.frame) :
    openCall aead ⟨some key, 0⟩ call =
      (call.frame.setReg 9 0).setReg 10 (sealed.frame.regs 9 % 2 ^ 64) := by
  rw [Perenne.sealWord, if_pos hseal] at hcarries
  obtain ⟨hct, hlo, hhi, hnonce⟩ := hcarries
  simp only [TrapFrame.setWords, sealedWords, TrapFrame.setReg_regs_self,
    TrapFrame.setReg_regs_ne, ne_eq, Fin.reduceEq, not_false_eq_true] at hct hlo hhi hnonce
  have hopened := hlaw.opens key (nonceBytes nonce) (wordBytes (sealed.frame.regs 9))
  rw [openCall, openWord, hct, hlo, hhi, hnonce, wordBytes_ct, tagBytes_halves]
  change Perenne.openWord _ (Option.map _ (aead.openInPlace key _ _ _)) _ = _
  rw [hopened, Option.map_some, openWord_some hopen, bytesWord_wordBytes_mod]

theorem openCall_opened (hlaw : aead.Lawful) (h : (openCall aead ⟨some key, 0⟩ call).regs 9 = 0) :
    call.task.caps.hasSession 0 = true ∧ ∃ plain : Bytes 8,
      (openCall aead ⟨some key, 0⟩ call).regs 10 = bytesWord plain.list ∧
      sealedWords aead key (call.frame.regs 12) plain =
        (call.frame.regs 9 % 2 ^ 64, call.frame.regs 10 % 2 ^ 64, call.frame.regs 11 % 2 ^ 64,
          call.frame.regs 12) := by
  have hrefused : (call.frame.setStatus false).regs 9 ≠ 0 := by
    rw [TrapFrame.setStatus, TrapFrame.setReg_regs_self]
    decide
  obtain hcap | hcap := Bool.eq_false_or_eq_true (call.task.caps.hasSession 0)
  · refine ⟨hcap, ?_⟩
    unfold openCall openWord at h ⊢
    change (Perenne.openWord _ (Option.map _ (aead.openInPlace key _ _ _)) _).regs 9 = 0 at h
    change ∃ plain : Bytes 8,
      (Perenne.openWord _ (Option.map _ (aead.openInPlace key _ _ _)) _).regs 10 = _ ∧ _
    obtain hnone | ⟨plain, hsome⟩ := Option.eq_none_or_eq_some (aead.openInPlace key
      (nonceBytes (call.frame.regs 12)) (wordBytes (call.frame.regs 9))
      (tagBytes (call.frame.regs 10) (call.frame.regs 11)))
    · rw [hnone, Option.map_none, openWord_none] at h
      exact absurd h hrefused
    · rw [hsome, Option.map_some, openWord_some hcap]
      refine ⟨plain, TrapFrame.setReg_regs_self .., ?_⟩
      have hlo : (wordBytes (call.frame.regs 10)).list.length = 8 := (wordBytes _).size
      rw [sealedWords, hlaw.sealed hsome]
      change (bytesWord _, bytesWord (List.take 8 (_ ++ _)), bytesWord (List.drop 8 (_ ++ _)), _) =
        _
      rw [List.take_left' hlo, List.drop_left' hlo, bytesWord_wordBytes_mod,
        bytesWord_wordBytes_mod, bytesWord_wordBytes_mod]
  · rw [openCall, openWord_refused hcap] at h
    exact absurd h hrefused

end Channel

/-- In any number of boots with fewer than `2^64` calls each, made in any order: a call
without the session capability is refused and gets no word; an `open` whose frame carries
what a `seal` of this or another boot returned gets the sealed word; and an `open` gets a
word only from a frame that carries the sealing of that word under the session's key. -/
theorem sealed_words_open (aead : Aead) (hlaw : aead.Lawful) (boots : List (List ChannelCall))
    (hfew : ∀ calls ∈ boots, calls.length < 2 ^ 64) :
    ∃ done, Channel.sessions aead boots = .ok done ∧ done.map Prod.fst = boots.flatten ∧
      (∀ call frame, (call, frame) ∈ done → call.admitted = false →
        frame = call.made.frame.setStatus false) ∧
      (∀ sealing opening sealed opened, (.sealing sealing, sealed) ∈ done →
        (.opening opening, opened) ∈ done → sealing.task.caps.hasSession 0 = true →
        opening.task.caps.hasSession 0 = true → HandsOver sealed opening.frame →
        opened = (opening.frame.setReg 9 0).setReg 10 (sealing.frame.regs 9 % 2 ^ 64)) ∧
      (∀ opening opened, (.opening opening, opened) ∈ done → opened.regs 9 = 0 →
        opening.task.caps.hasSession 0 = true ∧ ∃ plain : Bytes 8,
          opened.regs 10 = bytesWord plain.list ∧
          Channel.sealedWords aead (Channel.sessionKeyOf aead) (opening.frame.regs 12) plain =
            (opening.frame.regs 9 % 2 ^ 64, opening.frame.regs 10 % 2 ^ 64,
              opening.frame.regs 11 % 2 ^ 64, opening.frame.regs 12)) := by
  obtain ⟨done, hdone, hcalls, hall⟩ := Channel.sessions_answered aead hfew
  refine ⟨done, hdone, hcalls, ?_, ?_, ?_⟩
  · intro call frame hmem hcap
    cases hall _ hmem with
    | sealing call nonce => exact Channel.sealWord_refused hcap _ _
    | opening call => exact Channel.openWord_refused hcap _ _
  · intro sealing opening sealed opened hsealed hopened hseal hopen hcarries
    cases hall _ hsealed with
    | sealing _ nonce =>
      cases hall _ hopened with
      | opening => exact Channel.openCall_carries hlaw hseal hopen hcarries
  · intro opening opened hopened hzero
    cases hall _ hopened with
    | opening => exact Channel.openCall_opened hlaw hzero

/-- A stream cipher whose key stream is all ones, with the ciphertext as its own tag. -/
def onesAead : Aead where
  mlKem768Agree := some
  sealInPlace _ _ plain :=
    let ct : Bytes 8 := ⟨plain.list.map (0xff ^^^ ·), by rw [List.length_map, plain.size]⟩
    (ct, .pad 16 ct.list)
  openInPlace _ _ ct tag :=
    if tag = .pad 16 ct.list then
      some ⟨ct.list.map (0xff ^^^ ·), by rw [List.length_map, ct.size]⟩
    else none

theorem onesAead_lawful : onesAead.Lawful := by
  have hones (b : UInt8) : 0xff ^^^ (0xff ^^^ b) = b := by rw [← UInt8.xor_assoc]; simp
  have htwice (bs : List UInt8) : (bs.map (0xff ^^^ ·)).map (0xff ^^^ ·) = bs := by
    rw [List.map_map, show ((0xff ^^^ ·) ∘ (0xff ^^^ ·) : UInt8 → UInt8) = id from funext hones,
      List.map_id]
  refine ⟨fun key nonce plain => ?_, fun {key nonce ct tag plain} h => ?_⟩
  · refine (if_pos rfl).trans (congrArg some (Bytes.ext_list ?_))
    exact htwice plain.list
  · obtain ⟨htag, hplain⟩ := Option.ite_none_right_eq_some.mp h
    obtain rfl := Option.some.inj hplain
    have hct : (onesAead.sealInPlace key nonce ⟨ct.list.map (0xff ^^^ ·), by
        rw [List.length_map, ct.size]⟩).1 = ct := Bytes.ext_list (htwice ct.list)
    rw [htag]
    exact Prod.ext hct (congrArg (fun b : Bytes 8 => Bytes.pad 16 b.list) hct)

/-- The `seal` of the word 5, and the `open` of what it returns. -/
def sealFive : SealCall := ⟨sealerTask, TrapFrame.zeroed.setReg 9 5⟩

def openFive : SealCall :=
  ⟨sealerTask, (TrapFrame.zeroed.setReg 9 0xfffffffffffffffa).setReg 10 0xfffffffffffffffa⟩

/-- One boot seals a word, and the next one opens it. -/
theorem sealed_words_open_later : ∃ sealed opened : TrapFrame,
    Channel.sessions onesAead [[.sealing sealFive], [.opening openFive]] =
      .ok [(.sealing sealFive, sealed), (.opening openFive, opened)] ∧
    HandsOver sealed openFive.frame ∧ opened.regs 9 = 0 ∧ opened.regs 10 = 5 := by
  obtain ⟨done, hdone, -, -, hopens, -⟩ := sealed_words_open onesAead onesAead_lawful
    [[.sealing sealFive], [.opening openFive]] (by decide)
  have hrun : Channel.sessions onesAead [[.sealing sealFive], [.opening openFive]] = .ok
      [(.sealing sealFive, Perenne.sealWord sealerTask
          (0xfffffffffffffffa, 0xfffffffffffffffa, 0, 0) sealFive.frame),
        (.opening openFive, Channel.openCall onesAead
          (Channel.establish onesAead.toCrypto .init Channel.kmainSeed) openFive)] := rfl
  have hcarries : HandsOver (Perenne.sealWord sealerTask
      (0xfffffffffffffffa, 0xfffffffffffffffa, 0, 0) sealFive.frame) openFive.frame :=
    ⟨rfl, rfl, rfl, rfl⟩
  obtain rfl := Except.ok.inj (hdone.symm.trans hrun)
  have hopened := hopens sealFive openFive _ _ (.head _) (.tail _ (.head _)) (by decide) (by decide)
    hcarries
  refine ⟨_, _, hrun, hcarries, ?_, ?_⟩
  · rw [hopened]
    rfl
  · rw [hopened]
    rfl

end Perenne

/-
# `Mnvkd.RingFlags` — what a ring's flags say of the last operation

Two flags steer the scheduling of the coroutines on a ring.

A blocked flag asks for the poller.  `vk_vectoring_read` and
`vk_vectoring_write` set it when the transfer was smaller than what was asked
for, comparing with the lengths before the transfer; `vk_vectoring_splice`
compares with the lengths left after it.  The two rules agree except when the
longer side is left with no more than was moved (`splice_blocked_iff`).

The effect flag wakes the coroutine.  Most operations set it through the
helpers that change the ring; a read of nothing and a failed call write `eof`
and `error` directly, and are seen only if an effect was pending already
(`effect_complete_iff`).
-/
import Mnvkd.VectoringSpec

namespace Vk

open Lib Errno

namespace Vectoring

/-! ## Blocked -/

/-- The blocked flags a splice leaves are those of the descriptor operations
that move as many bytes: a `readv` into `rx`, and a `writev` out of `tx` that
is not held back by an earlier block. -/
structure SplicedAsRead (rx tx : Vectoring) (s : Spliced) : Prop where
  rxBlocked : s.rx.rxBlocked = decide (s.rc < rx.rxLen)
  txBlocked : s.tx.txBlocked = decide (s.rc < tx.txLen)
  asRead : ∀ (bytes : List UInt8) (errno : Errno), (bytes.length : Int) = s.rc →
    s.rx.rxBlocked = (rx.read (.ok bytes) errno).ring.rxBlocked
  asWrite : ∀ (sent : Nat) (errno : Errno), (sent : Int) = s.rc →
    s.tx.txBlocked = ((tx.setTxBlocked false).write (.ok sent) errno).ring.txBlocked

variable {rx tx ring : Vectoring}

theorem spliceLen_all (rx tx : Vectoring) : spliceLen rx tx (-1) = min rx.rxLen tx.txLen := by
  simp [spliceLen]

/-- What `vk_vectoring_splice` does to the blocked flags, as the code has it. -/
theorem Wf.splice_flags (hrx : rx.Wf) (htx : tx.Wf) (errno : Errno) :
    (rx.splice tx (-1) errno).rc = min rx.rxLen tx.txLen ∧
      (rx.splice tx (-1) errno).rx.rxBlocked
        = decide (min rx.rxLen tx.txLen < rx.rxLen - min rx.rxLen tx.txLen) ∧
      (rx.splice tx (-1) errno).tx.txBlocked
        = decide (min rx.rxLen tx.txLen < tx.txLen - min rx.rxLen tx.txLen) := by
  obtain ⟨hrc, -, hr, ht⟩ := hrx.splice htx (-1) errno
  rw [spliceLen_all] at hrc hr ht
  exact ⟨hrc, hr.flags.rxBlocked, ht.flags.txBlocked⟩

theorem Wf.read_rxBlocked (h : ring.Wf) {bytes : List UInt8} (hb : bytes.length ≤ ring.rxLen)
    (errno : Errno) :
    (ring.read (.ok bytes) errno).ring.rxBlocked = decide (bytes.length < ring.rxLen) :=
  (h.read_ok hb errno).2.2.flags.rxBlocked

theorem Wf.write_txBlocked (h : ring.Wf) {sent : Nat} (hn : sent ≤ ring.txLen) (errno : Errno) :
    ((ring.setTxBlocked false).write (.ok sent) errno).ring.txBlocked
      = decide (sent < ring.txLen) :=
  ((h.setTxBlocked false).write_ok rfl hn errno).2.2.flags.txBlocked

/-- Comparing the bytes moved with what is left in place of what there was
changes nothing when nothing is left, or more than was moved. -/
theorem lt_sub_iff_lt {n len : Nat} (hn : n ≤ len) :
    (decide (n < len - n) = decide (n < len)) ↔ len = n ∨ 2 * n < len := by
  rw [decide_eq_decide]
  omega

/-- A splice of all there is leaves the blocked flags of the descriptor
operations exactly when room and bytes were equal, or one was more than twice
the other. -/
theorem splice_blocked_iff (hrx : rx.Wf) (htx : tx.Wf) (errno : Errno) :
    SplicedAsRead rx tx (rx.splice tx (-1) errno) ↔
      rx.rxLen = tx.txLen ∨ 2 * rx.rxLen < tx.txLen ∨ 2 * tx.txLen < rx.rxLen := by
  obtain ⟨hrc, hr, ht⟩ := hrx.splice_flags htx errno
  have hle : min rx.rxLen tx.txLen ≤ rx.rxLen := Nat.min_le_left _ _
  have hle' : min rx.rxLen tx.txLen ≤ tx.txLen := Nat.min_le_right _ _
  constructor
  · intro h
    have h₁ := h.rxBlocked
    have h₂ := h.txBlocked
    rw [hr, hrc] at h₁
    rw [ht, hrc] at h₂
    simp only [Int.ofNat_lt] at h₁ h₂
    rw [lt_sub_iff_lt hle] at h₁
    rw [lt_sub_iff_lt hle'] at h₂
    omega
  · intro h
    have h₁ : (rx.splice tx (-1) errno).rx.rxBlocked = decide (min rx.rxLen tx.txLen < rx.rxLen) := by
      rw [hr, lt_sub_iff_lt hle]
      omega
    have h₂ : (rx.splice tx (-1) errno).tx.txBlocked = decide (min rx.rxLen tx.txLen < tx.txLen) := by
      rw [ht, lt_sub_iff_lt hle']
      omega
    refine ⟨by rw [h₁, hrc]; simp only [Int.ofNat_lt], by rw [h₂, hrc]; simp only [Int.ofNat_lt],
      ?_, ?_⟩
    · intro bytes errno' hlen
      have hlen : bytes.length = min rx.rxLen tx.txLen := by rw [hrc] at hlen; exact Int.ofNat_inj.mp hlen
      rw [h₁, hrx.read_rxBlocked (hlen ▸ hle), hlen]
    · intro sent errno' hlen
      have hlen : sent = min rx.rxLen tx.txLen := by rw [hrc] at hlen; exact Int.ofNat_inj.mp hlen
      rw [h₂, htx.write_txBlocked (hlen ▸ hle'), hlen]

/-- A ring of `len` bytes that holds `held`. -/
def holding (len held : Nat) : Vectoring :=
  (((cleared.init (fun _ => 0) len).send (fun a => a.toUInt8) 0 held)).1

theorem wf_holding {len : Nat} (h : 0 < len) (held : Nat) : (holding len held).Wf :=
  (wf_init cleared (fun _ => 0) h).of_send _ _ _

theorem splice_blocked_iff_holding :
    SplicedAsRead (holding 8 3) (holding 8 2) ((holding 8 3).splice (holding 8 2) (-1) 0) ↔
      (holding 8 3).rxLen = (holding 8 2).txLen ∨
        2 * (holding 8 3).rxLen < (holding 8 2).txLen ∨
          2 * (holding 8 2).txLen < (holding 8 3).rxLen :=
  splice_blocked_iff (wf_holding (by decide) 3) (wf_holding (by decide) 2) 0

/-- Three bytes into five free: the receiver could have taken more, and its
flag says it could not. -/
theorem splice_leaves_unblocked :
    (holding 8 3).Wf ∧ (holding 8 3).rxLen = 5 ∧ (holding 4 3).Wf ∧ (holding 4 3).txLen = 3 ∧
      ((holding 8 3).splice (holding 4 3) (-1) 0).rc = 3 ∧
      ((holding 8 3).splice (holding 4 3) (-1) 0).rx.rxBlocked = false ∧
      ¬SplicedAsRead (holding 8 3) (holding 4 3) ((holding 8 3).splice (holding 4 3) (-1) 0) := by
  refine ⟨wf_holding (by decide) 3, by decide, wf_holding (by decide) 3, by decide, by decide,
    by decide, ?_⟩
  intro h
  exact absurd h.rxBlocked (by decide)

/-! ## Effect -/

/-- A ring operation that runs on behalf of a coroutine, as one of its rings
sees it: `spliceRx` is the ring that receives, `spliceTx` the one that sends,
and likewise for `forwardhup`. -/
inductive RingOp where
  | send (src : Memory UInt8) (buf len : Nat)
  | recv (dst : Memory UInt8) (buf len : Nat)
  | spliceRx (ringTx : Vectoring) (len : Int)
  | spliceTx (ringRx : Vectoring) (len : Int)
  | hup
  | readhup
  | forwardhupTx (ringRx : Vectoring)
  | forwardhupRx (ringTx : Vectoring)
  | read (readv : SysResult (List UInt8))
  | write (writev : SysResult Nat)
  | accept (alloc : Nat) (accepted : SysResult (List UInt8))
  | close (rc : SysResult Unit)
  | rxShutdown (rc : SysResult Unit)
  | txShutdown (rc : SysResult Unit)

/-- The ring after the operation. -/
def RingOp.apply (op : RingOp) (ring : Vectoring) (errno : Errno) : Vectoring :=
  match op with
  | .send src buf len => (ring.send src buf len).1
  | .recv dst buf len => (ring.recv dst buf len).ring
  | .spliceRx ringTx len => (ring.splice ringTx len errno).rx
  | .spliceTx ringRx len => (ringRx.splice ring len errno).tx
  | .hup => (ring.hup errno).ring
  | .readhup => (ring.readhup errno).ring
  | .forwardhupTx ringRx => (ring.forwardhup ringRx).1
  | .forwardhupRx ringTx => (ringTx.forwardhup ring).2.1
  | .read readv => (ring.read readv errno).ring
  | .write writev => (ring.write writev errno).ring
  | .accept alloc accepted => (ring.accept alloc accepted errno).ring
  | .close rc => (ring.close rc errno).ring
  | .rxShutdown rc => (ring.rxShutdown rc errno).ring
  | .txShutdown rc => (ring.txShutdown rc errno).ring

/-- The operation makes its call, and the call would block. -/
def RingOp.WouldBlock (op : RingOp) (ring : Vectoring) : Prop :=
  match op with
  | .read readv => readv = .err EAGAIN
  | .write writev => ring.txBlocked = false ∧ writev = .err EAGAIN
  | .accept alloc accepted => alloc ≤ ring.rxLen ∧ accepted = .err EAGAIN
  | _ => False

/-- What a coroutine can wait for has not changed. -/
structure Unchanged (ring ring' : Vectoring) : Prop where
  txLen : ring'.txLen = ring.txLen
  eof : ring'.eof = ring.eof
  error : ring'.error = ring.error
  closed : ring'.closed = ring.closed

/-- The operation tells the coroutine of every change. -/
def RingOp.Complete (op : RingOp) (ring : Vectoring) (errno : Errno) : Prop :=
  ¬op.WouldBlock ring → ¬Unchanged ring (op.apply ring errno) →
    (op.apply ring errno).effect = true

/-- The call failed, other than by blocking, with an error the ring does not
have yet, and no effect is pending. -/
def FailsAnew (ring : Vectoring) {α : Type} (result : SysResult α) : Prop :=
  ∃ e : Errno, result = .err e ∧ e ≠ EAGAIN ∧ ring.error ≠ e ∧ ring.effect = false

/-- The operation writes `eof` or `error` past the helpers that set the effect. -/
def RingOp.Bypasses (op : RingOp) (ring : Vectoring) : Prop :=
  match op with
  | .read readv => (readv = .ok [] ∧ ring.eof = false ∧ ring.effect = false) ∨ ring.FailsAnew readv
  | .write writev => ring.txBlocked = false ∧ ring.FailsAnew writev
  | .accept alloc accepted => alloc ≤ ring.rxLen ∧ ring.FailsAnew accepted
  | _ => False

/-- From `ring` to `ring'` the effect is set, or nothing happened to tell. -/
def Tells (ring ring' : Vectoring) : Prop :=
  ring'.effect = true ∨ (Unchanged ring ring' ∧ ring'.effect = ring.effect)

theorem Unchanged.refl (ring : Vectoring) : Unchanged ring ring := ⟨rfl, rfl, rfl, rfl⟩

theorem Unchanged.trans {a b c : Vectoring} (h : Unchanged a b) (h' : Unchanged b c) :
    Unchanged a c :=
  ⟨h'.txLen.trans h.txLen, h'.eof.trans h.eof, h'.error.trans h.error, h'.closed.trans h.closed⟩

theorem tells_refl (ring : Vectoring) : Tells ring ring := .inr ⟨.refl ring, rfl⟩

theorem Tells.trans {a b c : Vectoring} (h : Tells a b) (h' : Tells b c) : Tells a c := by
  rcases h' with he | ⟨hu', he'⟩
  · exact .inl he
  · rcases h with he | ⟨hu, he⟩
    · exact .inl (he'.trans he)
    · exact .inr ⟨hu.trans hu', he'.trans he⟩

theorem Tells.effect (h : Tells rx ring) (hc : ¬Unchanged rx ring) : ring.effect = true := by
  rcases h with he | ⟨hu, -⟩
  · exact he
  · exact absurd hu hc

/-- Only flags of the transfer and bytes of the buffer change. -/
theorem tells_of_same {ring' : Vectoring} (h₁ : ring'.txLen = ring.txLen)
    (h₂ : ring'.eof = ring.eof) (h₃ : ring'.error = ring.error) (h₄ : ring'.closed = ring.closed)
    (h₅ : ring'.effect = ring.effect) : Tells ring ring' := .inr ⟨⟨h₁, h₂, h₃, h₄⟩, h₅⟩

section Operations

variable (ring : Vectoring) (errno : Errno)

theorem tells_markReceived (n : Nat) : Tells ring (ring.markReceived n) := by
  by_cases hn : n = 0
  · simpa [markReceived, hn] using tells_refl ring
  · exact .inl (by simp [markReceived, hn])

theorem tells_markSent (n : Nat) : Tells ring (ring.markSent n) := by
  by_cases hn : n = 0
  · simpa [markSent, hn] using tells_refl ring
  · exact .inl (by simp [markSent, hn])

theorem effect_signedReceived {n : Nat} (h : 0 < n) :
    (ring.signedReceived n errno).ring.effect = true := by
  have hneg : ¬(n : Int) < 0 := by omega
  have hne : n ≠ 0 := Nat.ne_of_gt h
  simp [signedReceived, markReceived, hneg, hne]

theorem tells_clearEof : Tells ring ring.clearEof := by
  cases he : ring.eof with
  | true => exact .inl (by simp [clearEof, he])
  | false => simpa [clearEof, he] using tells_refl ring

theorem tells_markEof : Tells ring ring.markEof := by
  cases he : ring.eof with
  | true => simpa [markEof, he] using tells_refl ring
  | false => exact .inl (by simp [markEof, he])

theorem tells_store (start : Memory UInt8) : Tells ring { ring with bufStart := start } :=
  tells_of_same rfl rfl rfl rfl rfl

theorem tells_send (src : Memory UInt8) (buf len : Nat) : Tells ring (ring.send src buf len).1 := by
  generalize hs : ring.send src buf len = s
  unfold send at hs
  split at hs
  · subst hs
    exact tells_refl ring
  · extract_lets lengths start start' ring' at hs
    have hstored : Tells ring ring' := tells_store ring start'
    split at hs
    · subst hs
      exact hstored
    · subst hs
      exact hstored.trans (tells_markReceived ring' _)

theorem tells_recv (dst : Memory UInt8) (buf len : Nat) :
    Tells ring (ring.recv dst buf len).ring := by
  simp only [recv]
  split
  · exact tells_refl ring
  · exact tells_markSent ring _

/-- One of the two parts of a splice, which is skipped when it is empty. -/
theorem tells_recv_part {dst : Memory UInt8} {buf k : Nat} {r : Received}
    (hr : r = if k > 0 then ring.recv dst buf k else ⟨ring, dst, k⟩) : Tells ring r.ring := by
  subst hr
  split
  · exact tells_recv ring dst buf k
  · exact tells_refl ring

theorem tells_recvSplice (ringRx ringTx : Vectoring) (len : Int) :
    Tells ringRx (recvSplice ringRx ringTx len errno).rx ∧
      Tells ringTx (recvSplice ringRx ringTx len errno).tx := by
  generalize hs : recvSplice ringRx ringTx len errno = s
  unfold recvSplice at hs
  extract_lets _ _ lengths r0 r1 ring' at hs
  have h0 : Tells ringTx r0.ring := tells_recv_part ringTx (r := r0) rfl
  have h1 : Tells ringTx r1.ring := h0.trans (tells_recv_part r0.ring (r := r1) rfl)
  split at hs
  · subst hs
    exact ⟨tells_store ringRx _, h0⟩
  · split at hs
    · subst hs
      exact ⟨tells_store ringRx _, h1⟩
    · subst hs
      exact ⟨(tells_store ringRx _).trans (tells_markReceived ring' _), h1⟩

theorem tells_splice (ringRx ringTx : Vectoring) (len : Int) :
    Tells ringRx (splice ringRx ringTx len errno).rx ∧
      Tells ringTx (splice ringRx ringTx len errno).tx := by
  obtain ⟨hrx, htx⟩ := tells_recvSplice errno ringRx ringTx len
  exact ⟨hrx.trans (tells_of_same rfl rfl rfl rfl rfl), htx.trans (tells_of_same rfl rfl rfl rfl rfl)⟩

theorem tells_hup : Tells ring (ring.hup errno).ring := by
  cases he : ring.eof with
  | true => simpa [hup, he] using tells_refl ring
  | false => simpa [hup, he] using tells_markEof ring

theorem tells_readhup : Tells ring (ring.readhup errno).ring := by
  cases he : ring.eof with
  | true => simpa [readhup, he] using tells_clearEof ring
  | false => simpa [readhup, he] using tells_refl ring

theorem tells_forwardhup (ringTx ringRx : Vectoring) :
    Tells ringTx (ringTx.forwardhup ringRx).1 ∧ Tells ringRx (ringTx.forwardhup ringRx).2.1 := by
  cases he : ringTx.eof with
  | true => simpa [forwardhup, he] using ⟨tells_clearEof ringTx, tells_markEof ringRx⟩
  | false => simpa [forwardhup, he] using ⟨tells_refl ringTx, tells_refl ringRx⟩

theorem effect_close (rc : SysResult Unit) : (ring.close rc errno).ring.effect = true := by
  cases rc with
  | ok _ => simp [close, signedSent, markSent]
  | err e => simp [close, signedSent]

end Operations

/-- A failed call that does not block leaves its error and the effect there was. -/
theorem complete_of_fails (ring ring' : Vectoring) {e : Errno} (he : e ≠ EAGAIN)
    (h₁ : ring'.txLen = ring.txLen) (h₂ : ring'.eof = ring.eof) (h₃ : ring'.error = e)
    (h₄ : ring'.closed = ring.closed) (h₅ : ring'.effect = ring.effect) {α : Type} :
    (¬Unchanged ring ring' → ring'.effect = true) ↔ ¬ring.FailsAnew (.err e : SysResult α) := by
  constructor
  · rintro h ⟨e', heq, -, hne, heff⟩
    cases heq
    have hc : ¬Unchanged ring ring' := fun hu => hne (hu.error.symm.trans h₃)
    simpa [h₅, heff] using h hc
  · intro h hc
    rw [h₅]
    by_contra heff
    refine h ⟨e, rfl, he, fun heq => hc ⟨h₁, h₂, h₃.trans heq.symm, h₄⟩, ?_⟩
    simpa using heff

/-- An operation that tells of all it does follows the rule. -/
theorem RingOp.complete_of_tells {op : RingOp} {errno : Errno}
    (h : Tells ring (op.apply ring errno)) (hb : ¬op.Bypasses ring) :
    op.Complete ring errno ↔ ¬op.Bypasses ring :=
  ⟨fun _ => hb, fun _ _ hc => h.effect hc⟩

theorem not_failsAnew_ok {α : Type} (a : α) : ¬ring.FailsAnew (.ok a) := by
  rintro ⟨e, he, -⟩
  cases he

/-- A call that would block is neither held to the rule nor counted against it. -/
theorem not_failsAnew_blocked {α : Type} : ¬ring.FailsAnew (.err EAGAIN : SysResult α) := by
  rintro ⟨e, he, hne, -⟩
  cases he
  exact hne rfl

theorem read_effect_iff (readv : SysResult (List UInt8)) (errno : Errno) :
    (RingOp.read readv).Complete ring errno ↔ ¬(RingOp.read readv).Bypasses ring := by
  simp only [RingOp.Complete, RingOp.Bypasses, RingOp.WouldBlock, RingOp.apply]
  cases readv with
  | err e =>
      by_cases he : e = EAGAIN
      · simp [he, not_failsAnew_blocked]
      · rw [read_err]
        simpa [he] using complete_of_fails (α := List UInt8) ring
          { ring with rxBlocked := false, error := e } he rfl rfl rfl rfl rfl
  | ok bytes =>
      cases bytes with
      | nil =>
          -- nothing is received, so only `eof` can differ
          have hread : (ring.read (.ok []) errno).ring
              = { ring.scatter [] with
                  rxBlocked := decide (0 < ring.vectorRxLen), eof := true } := rfl
          cases heof : ring.eof with
          | true =>
              have hu : Unchanged ring (ring.read (.ok []) errno).ring := by
                rw [hread]
                exact ⟨rfl, heof.symm, rfl, rfl⟩
              simp [hu, not_failsAnew_ok]
          | false =>
              have hc : ¬Unchanged ring (ring.read (.ok []) errno).ring := fun hu => by
                have := hu.eof
                rw [hread, heof] at this
                cases this
              have heff : (ring.read (.ok []) errno).ring.effect = ring.effect := rfl
              simp [hc, heff, not_failsAnew_ok]
      | cons b bs =>
          have heff : (ring.read (.ok (b :: bs)) errno).ring.effect = true := by
            exact effect_signedReceived _ errno (Nat.succ_pos bs.length)
          simp [heff, not_failsAnew_ok]

theorem write_effect_iff (writev : SysResult Nat) (errno : Errno) :
    (RingOp.write writev).Complete ring errno ↔ ¬(RingOp.write writev).Bypasses ring := by
  simp only [RingOp.Complete, RingOp.Bypasses, RingOp.WouldBlock, RingOp.apply]
  cases hb : ring.txBlocked with
  | true => simp [write_of_blocked hb, Unchanged.refl]
  | false =>
      cases writev with
      | err e =>
          by_cases he : e = EAGAIN
          · simp [he, not_failsAnew_blocked]
          · rw [write_err hb]
            simpa [he] using complete_of_fails (α := Nat) ring
              { ring with txBlocked := false, error := e } he rfl rfl rfl rfl rfl
      | ok sent =>
          have ht : Tells ring (ring.write (.ok sent) errno).ring := by
            have hset : Tells ring { ring with txBlocked := decide (sent < ring.vectorTxLen) } :=
              tells_of_same rfl rfl rfl rfl rfl
            have hneg : ¬(sent : Int) < 0 := by omega
            simpa [write, hb, signedSent, hneg] using hset.trans (tells_markSent _ sent)
          simpa [not_failsAnew_ok] using ht.effect

theorem accept_effect_iff (alloc : Nat) (accepted : SysResult (List UInt8)) (errno : Errno) :
    (RingOp.accept alloc accepted).Complete ring errno ↔
      ¬(RingOp.accept alloc accepted).Bypasses ring := by
  simp only [RingOp.Complete, RingOp.Bypasses, RingOp.WouldBlock, RingOp.apply]
  by_cases hlt : ring.rxLen < alloc
  · have hu : Unchanged ring (ring.setRxBlocked false) := ⟨rfl, rfl, rfl, rfl⟩
    simp [accept_of_lt hlt, hu, Nat.not_le.mpr hlt]
  · have hle : alloc ≤ ring.rxLen := Nat.le_of_not_lt hlt
    cases accepted with
    | err e =>
        by_cases he : e = EAGAIN
        · simp [he, hle, not_failsAnew_blocked]
        · rw [accept_err hlt]
          simpa [he, hle] using complete_of_fails (α := List UInt8) ring
            { ring with rxBlocked := false, error := e } he rfl rfl rfl rfl rfl
    | ok record =>
        have ht : Tells ring (ring.accept alloc (.ok record) errno).ring := by
          have hset : Tells ring { ring with rxBlocked := false } :=
            tells_of_same rfl rfl rfl rfl rfl
          have hlt' : ¬rxLen { ring with rxBlocked := false } < alloc := hlt
          simpa [accept, hlt'] using hset.trans (tells_send _ _ 0 alloc)
        simpa [not_failsAnew_ok] using ht.effect

/-- An operation that does not block leaves no change untold exactly when it
does not write past the helpers with no effect pending. -/
theorem effect_complete_iff (op : RingOp) (ring : Vectoring) (errno : Errno) :
    op.Complete ring errno ↔ ¬op.Bypasses ring := by
  cases op with
  | send src buf len => exact RingOp.complete_of_tells (tells_send ring src buf len) id
  | recv dst buf len => exact RingOp.complete_of_tells (tells_recv ring dst buf len) id
  | spliceRx ringTx len => exact RingOp.complete_of_tells (tells_splice errno ring ringTx len).1 id
  | spliceTx ringRx len => exact RingOp.complete_of_tells (tells_splice errno ringRx ring len).2 id
  | hup => exact RingOp.complete_of_tells (tells_hup ring errno) id
  | readhup => exact RingOp.complete_of_tells (tells_readhup ring errno) id
  | forwardhupTx ringRx => exact RingOp.complete_of_tells (tells_forwardhup ring ringRx).1 id
  | forwardhupRx ringTx => exact RingOp.complete_of_tells (tells_forwardhup ringTx ring).2 id
  | read readv => exact read_effect_iff readv errno
  | write writev => exact write_effect_iff writev errno
  | accept alloc accepted => exact accept_effect_iff alloc accepted errno
  | close rc | rxShutdown rc | txShutdown rc =>
      exact RingOp.complete_of_tells (.inl (effect_close ring errno rc)) id

/-- A read of nothing marks the end of the stream and tells nobody. -/
theorem read_eof_untold :
    (holding 8 3).eof = false ∧
      ((RingOp.read (.ok [])).apply (holding 8 3).handleEffect.1 0).eof = true ∧
      ((RingOp.read (.ok [])).apply (holding 8 3).handleEffect.1 0).effect = false ∧
      ¬∀ (op : RingOp) (ring : Vectoring) (errno : Errno), op.Complete ring errno := by
  refine ⟨by decide, by decide, by decide, ?_⟩
  intro h
  exact absurd (h (.read (.ok [])) (holding 8 3).handleEffect.1 0)
    (by rw [read_effect_iff]; exact not_not_intro (.inl ⟨rfl, by decide, by decide⟩))

end Vectoring

end Vk

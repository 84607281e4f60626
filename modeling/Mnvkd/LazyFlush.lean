/-
# `Mnvkd.LazyFlush` — the flush that follows a blocked read

A coroutine that answers requests writes into its transmit ring and goes back to
reading.  What it wrote leaves when its read blocks: `vk_socket_handler` then
writes out the transmit ring too.  The flush looks at the read's blocked flag,
which compares what was read with the room there was.  A read that had no room
asks for nothing, gets it, and is not blocked; so a thread that waits with its
receive ring full would keep its output (`flushed_iff`).

No read waits so: each of `vk_read`, `vk_readline` and `vk_pollread` has emptied
the receive ring when it waits (`readWaits_readProceeds`).
-/
import Mnvkd.HandlerFrame
import Mnvkd.Unblock

namespace Vk

open Lib Errno

namespace Vectoring

variable {ring : Vectoring}

/-- Nothing is left to send, or the poller is to say when it can be sent. -/
def Unstranded (ring : Vectoring) : Prop := ring.isEmpty = true ∨ ring.txBlocked = true

instance (ring : Vectoring) : Decidable ring.Unstranded :=
  inferInstanceAs (Decidable (_ ∨ _))

theorem SameRing.unstranded {ring' : Vectoring} (h : SameRing ring ring') :
    ring'.Unstranded ↔ ring.Unstranded := by
  rw [Unstranded, Unstranded, h.isEmpty, h.txBlocked]

/-- A write that does not fail leaves nothing, or blocks. -/
theorem Wf.write_unstranded (h : ring.Wf) {writev : SysResult Nat}
    (hfit : ∀ n, writev = .ok n → n ≤ ring.txLen) (hsoft : ∀ e, writev = .err e → e = EAGAIN)
    (errno : Errno) : (ring.write writev errno).ring.Unstranded := by
  cases hb : ring.txBlocked with
  | true =>
      rw [write_of_blocked hb]
      exact Or.inr hb
  | false =>
      cases writev with
      | ok n =>
          obtain ⟨-, -, hm⟩ := h.write_ok hb (hfit n rfl) errno
          rcases Nat.lt_or_ge n ring.txLen with hlt | hge
          · exact Or.inr (by rw [hm.flags.txBlocked]; exact decide_eq_true hlt)
          · refine Or.inl (hm.wf.isEmpty_iff.mpr ?_)
            rw [hm.queue, List.drop_eq_nil_iff, length_queue]
            exact hge
      | err e =>
          rw [write_err hb, hsoft e rfl]
          exact Or.inr rfl

/-- A splice of everything that fits: an effect or a block on the receiving
side says that there was room, or an effect before. -/
theorem Wf.splice_moves {rx tx : Vectoring} (hrx : rx.Wf) (htx : tx.Wf) (errno : Errno) :
    ((rx.splice tx (-1) errno).rx.effect = true ∨ (rx.splice tx (-1) errno).tx.effect = true ∨
        (rx.splice tx (-1) errno).rx.rxBlocked = true) ↔
      (0 < rx.rxLen ∨ rx.effect = true ∨ tx.effect = true) := by
  obtain ⟨-, -, hmrx, hmtx⟩ := hrx.splice htx (-1) errno
  have hlen : spliceLen rx tx (-1) = min rx.rxLen tx.txLen := by simp [spliceLen]
  rw [hmrx.effect, hmtx.effect, hmrx.flags.rxBlocked, hlen]
  simp only [Vectoring.setRxBlocked, Vectoring.setTxBlocked, Bool.or_eq_true, decide_eq_true_eq]
  constructor
  · rintro ((h | h) | (h | h) | h)
    · exact Or.inr (Or.inl h)
    · exact Or.inl (by omega)
    · exact Or.inr (Or.inr h)
    · exact Or.inl (by omega)
    · exact Or.inl (by omega)
  · rintro (h | h | h)
    · rcases Nat.eq_zero_or_pos tx.txLen with h0 | hpos
      · exact Or.inr (Or.inr (by omega))
      · exact Or.inl (Or.inr (by omega))
    · exact Or.inl (Or.inl h)
    · exact Or.inr (Or.inl (Or.inl h))

/-- A ring spliced into its own socket: bytes move, or none are left, or it
blocks. -/
theorem Wf.splice_unstranded {rx tx : Vectoring} (hrx : rx.Wf) (htx : tx.Wf) (errno : Errno)
    (h : (rx.splice tx (-1) errno).tx.effect = false) :
    (rx.splice tx (-1) errno).tx.Unstranded := by
  obtain ⟨-, -, -, hmtx⟩ := hrx.splice htx (-1) errno
  rw [hmtx.effect, Bool.or_eq_false_iff, decide_eq_false_iff_not, Nat.not_lt, Nat.le_zero] at h
  rw [h.2] at hmtx
  rcases Nat.eq_zero_or_pos tx.txLen with h0 | hpos
  · refine Or.inl (hmtx.wf.isEmpty_iff.mpr ?_)
    rw [hmtx.queue, List.drop_zero, ← List.length_eq_zero_iff, length_queue]
    exact h0
  · exact Or.inr (by rw [hmtx.flags.txBlocked]; exact decide_eq_true hpos)

end Vectoring

open Vectoring (SameRing)

/-- Every call that fails only would have blocked. -/
structure Os.Soft (os : Os) : Prop where
  readv : ∀ e, os.readv = .err e → e = EAGAIN
  writev : ∀ e, os.writev = .err e → e = EAGAIN
  accept : ∀ e, os.accept = .err e → e = EAGAIN

namespace ProcLocal

variable {pl pl' : ProcLocal} {s w : Nat} {os : Os}

/-! ## Who still waits -/

/-- The thread that socket `s` blocks waits. -/
def Asleep (pl : ProcLocal) (s : Nat) : Prop := (pl.threads (pl.blockedVk s)).status = .wait

theorem asleep_congr (ht : pl'.threads = pl.threads) (hb : pl'.blockedVk s = pl.blockedVk s) :
    pl'.Asleep s ↔ pl.Asleep s := by
  rw [Asleep, Asleep, ht, hb]

theorem blockedVk_of_sameData (h : SameData pl pl') (s : Nat) :
    pl'.blockedVk s = pl.blockedVk s := (h.socket s).block.blockedVk

theorem not_asleep_enqueueSelf (pl : ProcLocal) (s : Nat) : ¬(pl.enqueueSelf s).Asleep s :=
  not_wait_ready pl _

/-- Taking an effect wakes the thread, and no effect leaves it. -/
theorem asleep_ite {pl₁ : ProcLocal} {effect : Bool} (hdata : pl₁.Asleep s ↔ pl.Asleep s)
    (hwake : ¬pl'.Asleep s) :
    (if effect = true then pl' else pl₁).Asleep s ↔ pl.Asleep s ∧ effect = false := by
  cases effect with
  | false => simpa using hdata
  | true => simpa using hwake

theorem setRx_blockedVk (pl : ProcLocal) (s w : Nat) (ring : Vectoring) :
    (pl.setRx w ring).blockedVk s = pl.blockedVk s := by
  rw [blockedVk, setRx_block]
  rfl

theorem setTx_blockedVk (pl : ProcLocal) (s w : Nat) (ring : Vectoring) :
    (pl.setTx w ring).blockedVk s = pl.blockedVk s := by
  rw [blockedVk, setTx_block]
  rfl

theorem asleep_enqueueRead (pl : ProcLocal) (s : Nat) :
    (pl.enqueueRead s).Asleep s ↔ pl.Asleep s ∧ (pl.sockets s).rx.effect = false :=
  asleep_ite (asleep_congr rfl (setRx_blockedVk pl s s _)) (not_asleep_enqueueSelf _ s)

theorem asleep_enqueueReadwriter (pl : ProcLocal) (s w : Nat) :
    (pl.enqueueReadwriter s w).Asleep s ↔ pl.Asleep s ∧ (pl.sockets w).tx.effect = false :=
  asleep_ite (asleep_congr rfl (setTx_blockedVk pl s w _)) (not_asleep_enqueueSelf _ s)

@[simp] theorem enqueueBlocked_threads (pl : ProcLocal) (s : Nat) :
    (pl.enqueueBlocked s).threads = pl.threads := by
  simp only [enqueueBlocked]
  split
  · rfl
  · rfl

@[simp] theorem handleBlock_threads (pl : ProcLocal) (s : Nat) :
    (pl.handleBlock s).threads = pl.threads := by
  have hside : ∀ (pl : ProcLocal) (p : Prop) [Decidable p] (f g : Socket → Socket),
      (if p then (pl.updSocket s f).enqueueBlocked s else pl.updSocket s g).threads
        = pl.threads := by
    intro pl p _ f g
    split
    · exact enqueueBlocked_threads _ s
    · rfl
  simp only [handleBlock, hside, updSocket_threads]

theorem asleep_handled (pl : ProcLocal) (s : Nat) : (pl.handled s).pl.Asleep s ↔ pl.Asleep s :=
  asleep_congr (handleBlock_threads pl s)
    (blockedVk_of_sameData (settles_handleBlock pl s).toSameData s)

theorem asleep_absorbRx (pl : ProcLocal) (s : Nat) (io : Io) :
    (pl.absorbRx s io).Asleep s ↔ pl.Asleep s := by
  have hthreads : (pl.absorbRx s io).threads = pl.threads := by
    simp only [absorbRx]
    split
    · rfl
    · rfl
  refine asleep_congr hthreads ?_
  rw [blockedVk_of_sameData (settles_absorbRx pl s io).toSameData, setRx_blockedVk]

theorem asleep_spliceFrom (pl : ProcLocal) (s w : Nat) :
    (pl.spliceFrom s w).Asleep s ↔ pl.Asleep s := by
  have hthreads : (pl.spliceFrom s w).threads = pl.threads := by
    simp only [spliceFrom]
    split
    · rfl
    · rfl
  refine asleep_congr hthreads ?_
  rw [blockedVk_of_sameData (settles_spliceFrom pl s w).toSameData, spliced, setRx_blockedVk,
    setTx_blockedVk]

/-! ## What the read leaves -/

/-- What a read of socket `s` has done, its ring being spliced from socket `w`. -/
def fromPeer (pl : ProcLocal) (s w : Nat) : Vectoring.Spliced :=
  (pl.sockets s).rx.splice (pl.sockets w).tx (-1) pl.errno

/-- A thread in a read of socket `s`, whose output goes to a descriptor. -/
structure WaitsToRead (pl : ProcLocal) (s : Nat) : Prop where
  asleep : pl.Asleep s
  op : (pl.sockets s).block.op = .read
  rxWf : (pl.sockets s).rx.Wf
  txWf : (pl.sockets s).tx.Wf
  peerWf : ∀ w, (pl.sockets s).rxFd.ref = .vkTx w → (pl.sockets w).tx.Wf
  reads : ∀ r, (pl.sockets s).rxFd.ref ≠ .vkRx r
  writes : ∃ fd, (pl.sockets s).txFd.ref = .osFd fd

/-- Answers that fit the rings: what is read fits the room, and what is written
was there to write after the read. -/
structure FitsRead (pl : ProcLocal) (s : Nat) (os : Os) : Prop where
  readv : ∀ bytes, os.readv = .ok bytes → bytes.length ≤ (pl.sockets s).rx.rxLen
  accept : ∀ record, os.accept = .ok record → record.length = acceptedAllocSize
  writev : ∀ n, os.writev = .ok n → n ≤ ((pl.handleRead s os).pl.sockets s).tx.txLen

/-- Whether a read gets anywhere: bytes move, it blocks, or there is an effect
that wakes its thread.  A read of a socket's own output blocks that output. -/
def readProceeds (pl : ProcLocal) (s : Nat) (os : Os) : Bool :=
  let socket := pl.sockets s
  match socket.rxFd.ref with
  | .osFd _ =>
      (if socket.rxFd.fdType = .socketListen then socket.rx.acceptMoves acceptedAllocSize os.accept
        else socket.rx.readMoves os.readv) || socket.rx.effect
  | .vkTx w =>
      decide (w = s) || decide (0 < socket.rx.rxLen) || socket.rx.effect ||
        (pl.sockets w).tx.effect
  | .vkRx _ => false

@[simp] theorem absorbRx_rx (pl : ProcLocal) (s : Nat) (io : Io) :
    ((pl.absorbRx s io).sockets s).rx = io.ring := by
  simp only [absorbRx]
  split
  · simp [handleError, setErrno, setRx, updSocket]
  · exact setRx_rx_self pl s io.ring

theorem spliced_rx (pl : ProcLocal) (s w : Nat) :
    ((pl.spliced w s).sockets s).rx = (pl.fromPeer s w).rx := setRx_rx_self _ s _

theorem spliced_tx (pl : ProcLocal) (s w : Nat) :
    ((pl.spliced w s).sockets w).tx = (pl.fromPeer s w).tx := by
  rw [spliced, setRx_tx, setTx_tx_self]
  rfl

/-- Reporting an error leaves every ring. -/
theorem handleError_rings (pl : ProcLocal) (s w : Nat) :
    ((pl.handleError s).sockets w).rx = (pl.sockets w).rx ∧
      ((pl.handleError s).sockets w).tx = (pl.sockets w).tx := by
  rw [handleError, updSocket_sockets]
  split
  · subst w
    exact ⟨rfl, rfl⟩
  · exact ⟨rfl, rfl⟩

theorem spliceFrom_rings (pl : ProcLocal) (s w a : Nat) :
    ((pl.spliceFrom s w).sockets a).rx = ((pl.spliced w s).sockets a).rx ∧
      ((pl.spliceFrom s w).sockets a).tx = ((pl.spliced w s).sockets a).tx := by
  simp only [spliceFrom]
  split
  · exact handleError_rings _ s a
  · exact ⟨rfl, rfl⟩

@[simp] theorem enqueueRead_tx (pl : ProcLocal) (s w : Nat) :
    ((pl.enqueueRead s).sockets w).tx = (pl.sockets w).tx := by
  have hset := setRx_tx pl s w (pl.sockets s).rx.handleEffect.1
  unfold enqueueRead handleRxEffect
  dsimp only
  split
  · exact hset
  · exact hset

/-- After a read of a descriptor. -/
theorem handleRead_fd {fd : Int} (h : (pl.sockets s).rxFd.ref = .osFd fd) (os : Os) :
    (pl.handleRead s os).rc = 0 ∧
      SameData (pl.setRx s (pl.received s os).ring) (pl.handleRead s os).pl ∧
      ((pl.handleRead s os).pl.Asleep s ↔ pl.Asleep s ∧ (pl.received s os).ring.effect = false) := by
  have hread : pl.handleRead s os
      = ((pl.absorbRx s (pl.received s os)).enqueueRead s).handled s := by
    by_cases hl : (pl.sockets s).rxFd.fdType = .socketListen
    · simp only [handleRead, received, h, if_pos hl]
    · simp only [handleRead, received, h, if_neg hl]
  have habsorb := settles_absorbRx pl s (pl.received s os)
  rw [hread, asleep_handled, asleep_enqueueRead, asleep_absorbRx, absorbRx_rx]
  exact ⟨rfl, (habsorb.trans ((settles_enqueueRead _ _).trans (settles_handleBlock _ _))).toSameData,
    Iff.rfl⟩

/-- After a read of the output of socket `w`. -/
theorem handleRead_peer (h : (pl.sockets s).rxFd.ref = .vkTx w) (os : Os) :
    (pl.handleRead s os).rc = 0 ∧ SameData (pl.spliced w s) (pl.handleRead s os).pl ∧
      ((pl.handleRead s os).pl.Asleep s ↔
        pl.Asleep s ∧ (pl.fromPeer s w).rx.effect = false ∧
          (pl.fromPeer s w).tx.effect = false) := by
  have hread : pl.handleRead s os
      = (((pl.spliceFrom s w).enqueueRead s).enqueueReadwriter s w).handled s := by
    simp only [handleRead, h]
  have hrx : ((pl.spliceFrom s w).sockets s).rx = (pl.fromPeer s w).rx :=
    (spliceFrom_rings pl s w s).1.trans (spliced_rx pl s w)
  have htx : ((pl.spliceFrom s w).sockets w).tx = (pl.fromPeer s w).tx :=
    (spliceFrom_rings pl s w w).2.trans (spliced_tx pl s w)
  refine ⟨by rw [hread]; rfl, sameData_handleRead_vkTx pl s w os h, ?_⟩
  rw [hread, asleep_handled, asleep_enqueueReadwriter, asleep_enqueueRead, asleep_spliceFrom,
    enqueueRead_tx, hrx, htx, and_assoc]

/-- What a read leaves in `pl'`.  One that gets somewhere wakes the thread or
blocks, or leaves nothing stranded; one that does not leaves the thread waiting,
its ring not blocked, and the output as it was. -/
structure ReadLeaves (pl : ProcLocal) (s : Nat) (os : Os) (pl' : ProcLocal) : Prop where
  proceeds : pl.readProceeds s os = true →
    ¬pl'.Asleep s ∨ (pl'.sockets s).rx.rxBlocked = true ∨ (pl'.sockets s).tx.Unstranded
  stuck : pl.readProceeds s os = false → pl'.Asleep s ∧ (pl'.sockets s).rx.rxBlocked = false ∧
    ((pl'.sockets s).tx.Unstranded ↔ (pl.sockets s).tx.Unstranded)
  kept : (pl.sockets s).tx.Unstranded → pl'.Asleep s → (pl'.sockets s).tx.Unstranded
  txWf : (pl'.sockets s).tx.Wf

theorem readLeaves_fd {fd : Int} (h : pl.WaitsToRead s) (hfit : pl.FitsRead s os)
    (href : (pl.sockets s).rxFd.ref = .osFd fd) : ReadLeaves pl s os (pl.handleRead s os).pl := by
  obtain ⟨-, hdata, hasleep⟩ := handleRead_fd href os
  have hrx : SameRing (pl.received s os).ring ((pl.handleRead s os).pl.sockets s).rx := by
    have hsame := (hdata.socket s).rx
    rwa [setRx_rx_self] at hsame
  have htx : SameRing (pl.sockets s).tx ((pl.handleRead s os).pl.sockets s).tx := by
    have hsame := (hdata.socket s).tx
    rwa [setRx_tx] at hsame
  have hmoves : ((pl.received s os).ring.effect = true ∨ (pl.received s os).ring.rxBlocked = true)
      ↔ pl.readProceeds s os = true := by
    simp only [received, readProceeds, href]
    by_cases hl : (pl.sockets s).rxFd.fdType = .socketListen
    · simp only [if_pos hl, h.rxWf.accept_moves (by decide) hfit.accept, Bool.or_eq_true]
    · simp only [if_neg hl, h.rxWf.read_moves hfit.readv, Bool.or_eq_true]
  refine ⟨fun hp => ?_, fun hp => ?_, fun hu _ => htx.unstranded.mpr hu, htx.wf h.txWf⟩
  · rcases hmoves.mpr hp with heffect | hblocked
    · exact Or.inl fun ha => by simp [heffect] at hasleep; exact hasleep ha
    · exact Or.inr (Or.inl (hrx.rxBlocked.trans hblocked))
  · rw [← Bool.not_eq_true, ← hmoves, not_or, Bool.not_eq_true, Bool.not_eq_true] at hp
    exact ⟨hasleep.mpr ⟨h.asleep, hp.1⟩, hrx.rxBlocked.trans hp.2, htx.unstranded⟩

theorem readLeaves_peer (h : pl.WaitsToRead s) (href : (pl.sockets s).rxFd.ref = .vkTx w) :
    ReadLeaves pl s os (pl.handleRead s os).pl := by
  obtain ⟨-, hdata, hasleep⟩ := handleRead_peer href os
  have hmoves := h.rxWf.splice_moves (h.peerWf w href) pl.errno
  have hrx : SameRing (pl.fromPeer s w).rx ((pl.handleRead s os).pl.sockets s).rx := by
    have hsame := (hdata.socket s).rx
    rwa [spliced_rx] at hsame
  by_cases hself : w = s
  · subst w
    have htx : SameRing (pl.fromPeer s s).tx ((pl.handleRead s os).pl.sockets s).tx := by
      have hsame := (hdata.socket s).tx
      rwa [spliced_tx] at hsame
    have hunstranded : (pl.handleRead s os).pl.Asleep s →
        ((pl.handleRead s os).pl.sockets s).tx.Unstranded := fun ha =>
      htx.unstranded.mpr (h.rxWf.splice_unstranded h.txWf pl.errno (hasleep.mp ha).2.2)
    refine ⟨fun _ => ?_, fun hp => ?_, fun _ => hunstranded, htx.wf ?_⟩
    · by_cases ha : (pl.handleRead s os).pl.Asleep s
      · exact Or.inr (Or.inr (hunstranded ha))
      · exact Or.inl ha
    · simp [readProceeds, href] at hp
    · obtain ⟨-, -, -, hmtx⟩ := h.rxWf.splice h.txWf (-1) pl.errno
      exact hmtx.wf
  · have hne : s ≠ w := fun he => hself he.symm
    have htx : SameRing (pl.sockets s).tx ((pl.handleRead s os).pl.sockets s).tx := by
      have hsame := (hdata.socket s).tx
      rwa [spliced, setRx_tx, setTx_tx, if_neg hne] at hsame
    have hproceeds : pl.readProceeds s os = true ↔ (pl.fromPeer s w).rx.effect = true ∨
        (pl.fromPeer s w).tx.effect = true ∨ (pl.fromPeer s w).rx.rxBlocked = true := by
      rw [fromPeer, hmoves]
      simp [readProceeds, href, hself, or_assoc]
    refine ⟨fun hp => ?_, fun hp => ?_, fun hu _ => htx.unstranded.mpr hu, htx.wf h.txWf⟩
    · rcases hproceeds.mp hp with he | he | hblocked
      · exact Or.inl fun ha => by simp [(hasleep.mp ha).2.1] at he
      · exact Or.inl fun ha => by simp [(hasleep.mp ha).2.2] at he
      · exact Or.inr (Or.inl (hrx.rxBlocked.trans hblocked))
    · rw [← Bool.not_eq_true, hproceeds, not_or, not_or] at hp
      simp only [Bool.not_eq_true] at hp
      exact ⟨hasleep.mpr ⟨h.asleep, hp.1, hp.2.1⟩, hrx.rxBlocked.trans hp.2.2, htx.unstranded⟩

theorem readLeaves (h : pl.WaitsToRead s) (hfit : pl.FitsRead s os) :
    (pl.handleRead s os).rc = 0 ∧ ReadLeaves pl s os (pl.handleRead s os).pl := by
  cases href : (pl.sockets s).rxFd.ref with
  | osFd fd => exact ⟨(handleRead_fd href os).1, readLeaves_fd h hfit href⟩
  | vkTx w => exact ⟨(handleRead_peer href os).1, readLeaves_peer h href⟩
  | vkRx r => exact absurd href (h.reads r)

/-! ## The flush -/

theorem handleWrite_fd {fd : Int} (h : (pl.sockets s).txFd.ref = .osFd fd) (os : Os) :
    SameData (pl.setTx s ((pl.sockets s).tx.write os.writev pl.errno).ring)
      (pl.handleWrite s os).pl := by
  have hwrite : pl.handleWrite s os
      = ((pl.absorbTx s ((pl.sockets s).tx.write os.writev pl.errno)).enqueueWrite s).handled s := by
    simp only [handleWrite, h]
  rw [hwrite]
  exact ((settles_absorbTx pl s _).trans
    ((settles_enqueueWrite _ _).trans (settles_handleBlock _ _))).toSameData

/-- The flush leaves nothing stranded. -/
theorem flush_unstranded (h : pl.WaitsToRead s) (hfit : pl.FitsRead s os) (hsoft : os.Soft)
    (hread : ReadLeaves pl s os (pl.handleRead s os).pl) :
    (((pl.handleRead s os).pl.handleWrite s os).pl.sockets s).tx.Unstranded := by
  obtain ⟨fd, hfd⟩ := h.writes
  have hfd' : ((pl.handleRead s os).pl.sockets s).txFd.ref = .osFd fd :=
    ((handles_handleRead pl s os).txRef s).trans hfd
  have htx := ((handleWrite_fd hfd' os).socket s).tx
  rw [setTx_tx_self] at htx
  exact htx.unstranded.mpr (hread.txWf.write_unstranded hfit.writev hsoft.writev _)

/-- When `vk_socket_handler` has applied a read and leaves the thread waiting,
nothing is left to send or the write is blocked: exactly when that was so
before, or the read gets somewhere. -/
theorem flushed_iff (h : pl.WaitsToRead s) (hfit : pl.FitsRead s os) (hsoft : os.Soft) :
    ((pl.socketHandler s os).pl.Asleep s →
        ((pl.socketHandler s os).pl.sockets s).tx.Unstranded) ↔
      ((pl.sockets s).tx.Unstranded ∨ pl.readProceeds s os = true) := by
  obtain ⟨hrc, hread⟩ := readLeaves h hfit
  have hhandler : pl.socketHandler s os
      = if lazyFlush ((pl.handleRead s os).pl.sockets s) = true then
          (pl.handleRead s os).pl.handleWrite s os
        else pl.handleRead s os := by
    simp only [socketHandler, h.op, hrc]
    rw [if_neg (by decide)]
  by_cases hflush : lazyFlush ((pl.handleRead s os).pl.sockets s) = true
  · rw [hhandler, if_pos hflush]
    have hblocked : ((pl.handleRead s os).pl.sockets s).rx.rxBlocked = true := by
      simp only [lazyFlush, Bool.and_eq_true] at hflush
      exact hflush.1.1
    have hproceeds : pl.readProceeds s os = true := by
      cases hp : pl.readProceeds s os with
      | true => rfl
      | false => rw [(hread.stuck hp).2.1] at hblocked; cases hblocked
    exact iff_of_true (fun _ => flush_unstranded h hfit hsoft hread) (Or.inr hproceeds)
  · rw [hhandler, if_neg hflush]
    -- a blocked read that is not flushed had nothing to flush, or could not
    have hunflushed : ((pl.handleRead s os).pl.sockets s).rx.rxBlocked = true →
        ((pl.handleRead s os).pl.sockets s).tx.Unstranded := fun hb => by
      simp only [lazyFlush, hb, Bool.true_and, Bool.and_eq_true, Bool.not_eq_true', not_and,
        Bool.not_eq_false] at hflush
      cases ht : ((pl.handleRead s os).pl.sockets s).tx.txBlocked with
      | true => exact Or.inr ht
      | false => exact Or.inl (hflush ht)
    constructor
    · intro hafter
      cases hp : pl.readProceeds s os with
      | true => exact Or.inr rfl
      | false =>
          obtain ⟨hasleep, -, hsame⟩ := hread.stuck hp
          exact Or.inl (hsame.mp (hafter hasleep))
    · rintro (hu | hp) hasleep
      · exact hread.kept hu hasleep
      · rcases hread.proceeds hp with hawake | hb | hu
        · exact absurd hasleep hawake
        · exact hunflushed hb
        · exact hu

/-! ## A full ring -/

/-- A thread that waits to read with three bytes to send. -/
def sendingThread : ProcLocal :=
  waitingThread.updSocket 0 fun socket =>
    { socket with tx := { socket.tx.markReceived 3 with effect := false } }

theorem waitsToRead_sendingThread : sendingThread.WaitsToRead 0 := by
  refine ⟨by unfold Asleep; decide, by decide, waitsOnFds_waitingThread.rxWf, ?_,
    fun w h => ?_, fun r h => ?_, 4, by decide⟩
  · exact Vectoring.Wf.congr (Vectoring.Wf.of_markReceived waitsOnFds_waitingThread.txWf 3)
      rfl rfl rfl rfl rfl (by decide)
  · cases h
  · cases h

/-- Where every call would block, the poller is to say when the bytes can go. -/
theorem flushed_iff_sendingThread :
    ((sendingThread.socketHandler 0
      ⟨.err EAGAIN, .err EAGAIN, .err EAGAIN, .ok (), .ok ()⟩).pl.sockets 0).tx.Unstranded :=
  (flushed_iff waitsToRead_sendingThread
    ⟨by rintro _ ⟨⟩, by rintro _ ⟨⟩, by rintro _ ⟨⟩⟩
    ⟨by rintro _ ⟨⟩; rfl, by rintro _ ⟨⟩; rfl, by rintro _ ⟨⟩; rfl⟩).mpr (Or.inr (by decide))
    (by simp only [Asleep]; decide)

/-- And with its receive ring full besides. -/
def fullThread : ProcLocal :=
  sendingThread.updSocket 0 fun socket =>
    { socket with rx := { socket.rx.markReceived Socket.bufLen with effect := false } }

theorem waitsToRead_fullThread : fullThread.WaitsToRead 0 := by
  refine ⟨by unfold Asleep; decide, by decide, ?_, waitsToRead_sendingThread.txWf,
    fun w h => ?_, fun r h => ?_, 4, by decide⟩
  · exact Vectoring.Wf.congr
      (Vectoring.Wf.of_markReceived waitsToRead_sendingThread.rxWf Socket.bufLen)
      rfl rfl rfl rfl rfl (by decide)
  · cases h
  · cases h

/-- It reads nothing into no room, and keeps its output. -/
theorem full_read_strands :
    ¬∀ (pl : ProcLocal) (s : Nat) (os : Os), pl.WaitsToRead s → pl.FitsRead s os → os.Soft →
      (pl.socketHandler s os).pl.Asleep s →
        ((pl.socketHandler s os).pl.sockets s).tx.Unstranded := fun h => by
  have hstranded := h fullThread 0 (answer (.ok [])) waitsToRead_fullThread
    ⟨by rintro _ ⟨⟩; exact Nat.zero_le _, by rintro _ ⟨⟩, by rintro _ ⟨⟩; exact Nat.zero_le _⟩
    ⟨by rintro _ ⟨⟩, by rintro _ ⟨⟩, by rintro _ ⟨⟩; rfl⟩
  revert hstranded
  unfold Asleep
  decide

end ProcLocal

/-! ## The reads that wait -/

/-- The reads of a socket: `vk_read`, `vk_readline` and `vk_pollread`. -/
def reads (s : Nat) : List (Loop ProcLocal) := [readLoop s, readlineLoop s, pollreadLoop s]

namespace ProcLocal

variable {pl pl' : ProcLocal} {s : Nat} {os : Os}

/-- What takes all the block asks for and leaves it asking has emptied the ring. -/
theorem recvCommit_drains (hwf : (pl.sockets s).rx.Wf) (h : 0 < (pl.recvCommit s).uncommitted s) :
    ((pl.recvCommit s).sockets s).rx.Wf ∧ ((pl.recvCommit s).sockets s).rx.queue = [] := by
  have hle : pl.recvCount s ≤ (pl.sockets s).rx.txLen := Nat.min_le_right _ _
  have hsent := hwf.markSent hle
  rw [recvCommit_eq hwf] at h ⊢
  rw [uncommitted, updSocket_sockets_self] at h
  rw [updSocket_sockets_self]
  refine ⟨hsent.wf, hsent.queue.trans (List.drop_eq_nil_iff.mpr ?_)⟩
  have hlt : pl.recvCount s < pl.uncommitted s := Nat.lt_of_sub_pos h
  rw [Vectoring.length_queue]
  simp only [recvCount] at hlt ⊢
  omega

theorem read_drains (hwf : (pl.sockets s).rx.Wf) (h : (readLoop s).turn pl = .wait pl') :
    (pl'.sockets s).rx.Wf ∧ (pl'.sockets s).rx.queue = [] := by
  obtain ⟨-, rfl, -, -, hwaits⟩ := (Loop.turn_eq_wait _).mp h
  exact recvCommit_drains hwf (of_decide_eq_true hwaits)

theorem readline_drains (hwf : (pl.sockets s).rx.Wf) (h : (readlineLoop s).turn pl = .wait pl') :
    (pl'.sockets s).rx.Wf ∧ (pl'.sockets s).rx.queue = [] := by
  obtain ⟨-, rfl, -, -, hwaits⟩ := (Loop.turn_eq_wait _).mp h
  simp only [readlineLoop, Bool.and_eq_true, decide_eq_true_eq] at hwaits
  have hwf₁ : ((requestLine pl s).sockets s).rx.Wf := by
    rw [requestLine, updBlock, updSocket_sockets_self]
    exact hwf
  exact recvCommit_drains hwf₁ hwaits.1

/-- A poll that waits has found its ring empty. -/
theorem pollread_drains (hwf : (pl.sockets s).rx.Wf) (hone : pl.uncommitted s ≤ 1)
    (h : (pollreadLoop s).turn pl = .wait pl') :
    (pl'.sockets s).rx.Wf ∧ (pl'.sockets s).rx.queue = [] := by
  obtain ⟨-, rfl, -, -, hwaits⟩ := (Loop.turn_eq_wait _).mp h
  have hrx : (((pollreadLoop s).body pl).sockets s).rx = (pl.sockets s).rx := by
    simp only [pollreadLoop, blockCommit, updBlock, updSocket_sockets_self]
  have hempty : (pl.sockets s).rx.isEmpty = true := by
    cases he : (pl.sockets s).empty with
    | true => exact he
    | false =>
        simp only [pollreadLoop, he, blockCommit, updBlock, uncommitted, updSocket_sockets_self,
          decide_eq_true_eq] at hwaits
        rw [if_neg (by decide), show (1 : Int) = ((1 : Nat) : Int) from rfl,
          Block.commit_natCast] at hwaits
        exact absurd hwaits (Nat.not_lt.mpr (Nat.le_of_eq (Nat.sub_eq_zero_of_le hone)))
  rw [hrx]
  exact ⟨hwf, hwf.isEmpty_iff.mp hempty⟩

/-- A read that waits has emptied its ring, short of a hang-up. -/
theorem reads_drain {l : Loop ProcLocal} (hl : l ∈ reads s)
    (hpoll : l = pollreadLoop s → pl.uncommitted s ≤ 1) (hwf : (pl.sockets s).rx.Wf)
    (h : l.turn pl = .wait pl') :
    (pl'.sockets s).rx.Wf ∧ (pl'.sockets s).rx.queue = [] ∧ pl'.pollhup s = false := by
  obtain ⟨-, -, -, hleaves, -⟩ := (Loop.turn_eq_wait l).mp h
  simp only [reads, List.mem_cons, List.not_mem_nil, or_false] at hl
  rcases hl with rfl | rfl | rfl
  · obtain ⟨hwf', hempty⟩ := read_drains hwf h
    exact ⟨hwf', hempty, hleaves⟩
  · obtain ⟨hwf', hempty⟩ := readline_drains hwf h
    exact ⟨hwf', hempty, hleaves⟩
  · obtain ⟨hwf', hempty⟩ := pollread_drains hwf (hpoll rfl) h
    exact ⟨hwf', hempty, hleaves⟩

/-- A read with an empty ring gets somewhere. -/
theorem readProceeds_of_drained (hwf : (pl.sockets s).rx.Wf) (hempty : (pl.sockets s).rx.queue = [])
    (hhup : pl.pollhup s = false) (hroom : acceptedAllocSize ≤ (pl.sockets s).rx.bufLen)
    (hreads : ∀ r, (pl.sockets s).rxFd.ref ≠ .vkRx r) (hsoft : os.Soft) :
    pl.readProceeds s os = true := by
  have hrxLen : (pl.sockets s).rx.rxLen = (pl.sockets s).rx.bufLen := by
    rw [Vectoring.rxLen, ← Vectoring.length_queue, hempty]
    rfl
  have hpos := hwf.bufLen_pos
  cases href : (pl.sockets s).rxFd.ref with
  | osFd fd =>
      have heof : (pl.sockets s).rx.eof = false := by
        cases he : (pl.sockets s).rx.eof with
        | false => rfl
        | true =>
            have hnone : (pl.sockets s).rxFd.getSocket = none := by rw [Pipe.getSocket, href]
            rw [pollhup_eq, Socket.empty, hwf.isEmpty_iff.mpr hempty, hupSignalled, hnone, he] at hhup
            cases hhup
      by_cases hl : (pl.sockets s).rxFd.fdType = .socketListen
      · cases ha : os.accept with
        | ok record =>
            simp [readProceeds, href, hl, Vectoring.acceptMoves, ha, hrxLen, hroom, heof]
        | err e =>
            simp [readProceeds, href, hl, Vectoring.acceptMoves, ha, hrxLen, hroom,
              hsoft.accept e ha]
      · cases hr : os.readv with
        | ok bytes => simp [readProceeds, href, hl, Vectoring.readMoves, hr, hrxLen, hpos]
        | err e => simp [readProceeds, href, hl, Vectoring.readMoves, hr, hsoft.readv e hr]
  | vkTx w => simp [readProceeds, href, hrxLen, hpos]
  | vkRx r => exact absurd href (hreads r)

/-- So no read that waits strands its output. -/
theorem reads_flush {l : Loop ProcLocal} {pl₀ : ProcLocal} (hl : l ∈ reads s)
    (hpoll : l = pollreadLoop s → pl₀.uncommitted s ≤ 1) (hwf : (pl₀.sockets s).rx.Wf)
    (hturn : l.turn pl₀ = .wait pl') (hs : pl.sockets = pl'.sockets) (h : pl.WaitsToRead s) (hroom : acceptedAllocSize ≤ (pl.sockets s).rx.bufLen)
    (hfit : pl.FitsRead s os) (hsoft : os.Soft) (hasleep : (pl.socketHandler s os).pl.Asleep s) :
    ((pl.socketHandler s os).pl.sockets s).tx.Unstranded := by
  obtain ⟨hwf', hempty, hhup⟩ := reads_drain hl hpoll hwf hturn
  have hhup' : pl.pollhup s = false := by
    rw [← hhup]
    unfold pollhup getReaderNodata
    rw [hs]
  rw [← hs] at hwf' hempty
  exact (flushed_iff h hfit hsoft).mpr
    (Or.inr (readProceeds_of_drained hwf' hempty hhup' hroom h.reads hsoft)) hasleep

end ProcLocal

end Vk

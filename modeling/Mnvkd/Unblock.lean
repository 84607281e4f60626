/-
# `Mnvkd.Unblock` — what becomes of a thread that waits

When a thread comes back waiting, `vk_unblock` applies the operation it waits
for.  Then the executor goes on with it if it is ready, and otherwise forgets
it: from there only the poller, through the blocked queue, or another thread
brings it back.  So on a socket of two descriptors the thread must be ready or
its socket must be queued (`Kept`).

Each function a handler is made of has one lemma that says when it makes a
thread kept and what rings it leaves (`Leaves`).  The handlers are chains of
these, and the condition under which an operation keeps its thread is read off
the chain (`kept_unblock_iff`).
-/
import Mnvkd.Readline

namespace Vk

open Lib Errno

namespace ProcLocal

/-- Thread `t` is ready to run, or the poller has its socket `s`. -/
def Kept (pl : ProcLocal) (t s : Nat) : Prop :=
  (pl.threads t).isReady = true ∨ s ∈ pl.blockedQ

/-- Socket `s`, of two descriptors, blocks thread `t`. -/
structure Blocks (pl : ProcLocal) (t s : Nat) : Prop where
  blockedVk : pl.blockedVk s = t
  live : (pl.threads t).status ≠ .ended
  enq : (pl.sockets s).blockedEnq = true ↔ s ∈ pl.blockedQ
  rxFd : 0 ≤ (pl.sockets s).rxFd.getFd
  txFd : 0 ≤ (pl.sockets s).txFd.getFd

/-- From `pl` to `pl'` the thread is kept if it was, or if `wakes`; and the
rings left are these. -/
structure Leaves (t s : Nat) (pl pl' : ProcLocal) (wakes : Prop) (rx tx : Vectoring) : Prop where
  blocks : pl'.Blocks t s
  kept : pl'.Kept t s ↔ pl.Kept t s ∨ wakes
  rx : (pl'.sockets s).rx = rx
  tx : (pl'.sockets s).tx = tx

variable {pl pl' : ProcLocal} {t s : Nat}

theorem Leaves.trans {pl'' : ProcLocal} {p q : Prop} {rx tx rx' tx' : Vectoring}
    (h : Leaves t s pl pl' p rx tx) (h' : Leaves t s pl' pl'' q rx' tx') :
    Leaves t s pl pl'' (p ∨ q) rx' tx' :=
  ⟨h'.blocks, by rw [h'.kept, h.kept, or_assoc], h'.rx, h'.tx⟩

/-- Only data of the socket and `errno` change. -/
theorem leaves_of_data (socket : Socket) (h : pl.Blocks t s)
    (hs : pl'.sockets = Function.update pl.sockets s socket) (ht : pl'.threads = pl.threads)
    (hq : pl'.blockedQ = pl.blockedQ) (hb : socket.block.blockedVk = (pl.sockets s).block.blockedVk)
    (he : socket.blockedEnq = (pl.sockets s).blockedEnq)
    (hrx : socket.rxFd.getFd = (pl.sockets s).rxFd.getFd)
    (htx : socket.txFd.getFd = (pl.sockets s).txFd.getFd) :
    Leaves t s pl pl' False socket.rx socket.tx := by
  have hself : pl'.sockets s = socket := by rw [hs, Function.update_self]
  refine ⟨⟨?_, ?_, ?_, ?_, ?_⟩, ?_, by rw [hself], by rw [hself]⟩
  · rw [ProcLocal.blockedVk, hself, hb]
    exact h.blockedVk
  · rw [ht]
    exact h.live
  · rw [hself, he, hq]
    exact h.enq
  · rw [hself, hrx]
    exact h.rxFd
  · rw [hself, htx]
    exact h.txFd
  · rw [Kept, Kept, ht, hq, or_false]

/-! ## The parts of a handler -/

theorem leaves_absorbRx (h : pl.Blocks t s) (io : Io) :
    Leaves t s pl (pl.absorbRx s io) False io.ring (pl.sockets s).tx := by
  unfold absorbRx
  dsimp only
  split
  · have hset : (((pl.setRx s io.ring).setErrno io.errno).handleError s).sockets
        = Function.update pl.sockets s
          { pl.sockets s with rx := io.ring, error := io.errno } := by
      simp [handleError, setErrno, setRx, updSocket]
    exact leaves_of_data _ h hset rfl rfl rfl rfl rfl rfl
  · exact leaves_of_data { pl.sockets s with rx := io.ring } h rfl rfl rfl rfl rfl rfl rfl

theorem leaves_absorbTx (h : pl.Blocks t s) (io : Io) :
    Leaves t s pl (pl.absorbTx s io) False (pl.sockets s).rx io.ring := by
  unfold absorbTx
  dsimp only
  split
  · have hset : (((pl.setTx s io.ring).setErrno io.errno).handleError s).sockets
        = Function.update pl.sockets s
          { pl.sockets s with tx := io.ring, error := io.errno } := by
      simp [handleError, setErrno, setTx, updSocket]
    exact leaves_of_data _ h hset rfl rfl rfl rfl rfl rfl
  · exact leaves_of_data { pl.sockets s with tx := io.ring } h rfl rfl rfl rfl rfl rfl rfl

/-- Its thread is ready after `vk_socket_enqueue_self`. -/
theorem leaves_enqueueSelf (h : pl.Blocks t s) :
    Leaves t s pl (pl.enqueueSelf s) True (pl.sockets s).rx (pl.sockets s).tx := by
  have hready : ((pl.enqueueSelf s).threads t).isReady = true := by
    rw [enqueueSelf, h.blockedVk]
    exact isReady_ready h.live
  have hlive : ((pl.enqueueSelf s).threads t).status ≠ .ended := fun he => by
    simp [Thread.isReady, he] at hready
  exact ⟨⟨h.blockedVk, hlive, h.enq, h.rxFd, h.txFd⟩, by simp [Kept, hready], rfl, rfl⟩

/-- A branch that keeps the thread where `p` holds, and leaves it where not. -/
theorem leaves_ite {a b : ProcLocal} {p : Prop} [Decidable p] {rx tx : Vectoring}
    (ha : Leaves t s pl a True rx tx) (hb : Leaves t s pl b False rx tx) :
    Leaves t s pl (if p then a else b) p rx tx := by
  split
  · exact ⟨ha.blocks, by simp [ha.kept, *], ha.rx, ha.tx⟩
  · exact ⟨hb.blocks, by simp [hb.kept, *], hb.rx, hb.tx⟩

theorem Leaves.andThen {pl'' : ProcLocal} {p : Prop} {rx tx rx' tx' : Vectoring}
    (h : Leaves t s pl pl' False rx tx) (h' : Leaves t s pl' pl'' p rx' tx') :
    Leaves t s pl pl'' p rx' tx' := by
  have := h.trans h'
  rwa [false_or] at this

/-- The effect of the receive ring wakes the thread, and is used up. -/
theorem leaves_enqueueRead (h : pl.Blocks t s) :
    Leaves t s pl (pl.enqueueRead s) ((pl.sockets s).rx.effect = true)
      { (pl.sockets s).rx with effect := false } (pl.sockets s).tx := by
  have hset : Leaves t s pl (pl.setRx s { (pl.sockets s).rx with effect := false }) False
      { (pl.sockets s).rx with effect := false } (pl.sockets s).tx :=
    leaves_of_data { pl.sockets s with rx := { (pl.sockets s).rx with effect := false } }
      h rfl rfl rfl rfl rfl rfl rfl
  have hself := leaves_enqueueSelf hset.blocks
  rw [hset.rx, hset.tx] at hself
  exact leaves_ite (hset.andThen hself) hset

theorem leaves_enqueueWrite (h : pl.Blocks t s) :
    Leaves t s pl (pl.enqueueWrite s) ((pl.sockets s).tx.effect = true)
      (pl.sockets s).rx { (pl.sockets s).tx with effect := false } := by
  have hset : Leaves t s pl (pl.setTx s { (pl.sockets s).tx with effect := false }) False
      (pl.sockets s).rx { (pl.sockets s).tx with effect := false } :=
    leaves_of_data { pl.sockets s with tx := { (pl.sockets s).tx with effect := false } }
      h rfl rfl rfl rfl rfl rfl rfl
  have hself := leaves_enqueueSelf hset.blocks
  rw [hset.rx, hset.tx] at hself
  exact leaves_ite (hset.andThen hself) hset

/-- The poller has its socket after `vk_proc_local_enqueue_blocked`. -/
theorem leaves_enqueueBlocked (h : pl.Blocks t s) :
    Leaves t s pl (pl.enqueueBlocked s) True (pl.sockets s).rx (pl.sockets s).tx := by
  by_cases hb : (pl.sockets s).blockedEnq = true
  · rw [enqueueBlocked, if_pos hb]
    exact ⟨h, by simp [Kept, h.enq.mp hb], rfl, rfl⟩
  · rw [enqueueBlocked, if_neg hb]
    refine ⟨⟨?_, h.live, ?_, ?_, ?_⟩, ?_, ?_, ?_⟩
    · rw [ProcLocal.blockedVk, updSocket_sockets_self]
      exact h.blockedVk
    · simp
    · rw [updSocket_sockets_self]
      exact h.rxFd
    · rw [updSocket_sockets_self]
      exact h.txFd
    · simp [Kept]
    · rw [updSocket_sockets_self]
    · rw [updSocket_sockets_self]

/-- A change of a socket's block that leaves the thread it blocks. -/
theorem leaves_block (h : pl.Blocks t s) {f : Socket → Socket} {block : Block}
    (hf : f (pl.sockets s) = { pl.sockets s with block := block })
    (hb : block.blockedVk = (pl.sockets s).block.blockedVk) :
    Leaves t s pl (pl.updSocket s f) False (pl.sockets s).rx (pl.sockets s).tx :=
  leaves_of_data { pl.sockets s with block := block } h (by rw [updSocket, hf]) rfl rfl
    hb rfl rfl rfl

/-- One side of `vk_socket_handle_block`: mark the side and queue the socket, or
clear the side. -/
theorem leaves_blockSide (h : pl.Blocks t s) {fd : Int} {b : Bool} {f g : Socket → Socket}
    {block block' : Block} (hfd : 0 ≤ fd)
    (hf : f (pl.sockets s) = { pl.sockets s with block := block })
    (hb : block.blockedVk = (pl.sockets s).block.blockedVk)
    (hg : g (pl.sockets s) = { pl.sockets s with block := block' })
    (hb' : block'.blockedVk = (pl.sockets s).block.blockedVk) :
    Leaves t s pl (if 0 ≤ fd ∧ b = true then (pl.updSocket s f).enqueueBlocked s
      else pl.updSocket s g) (b = true) (pl.sockets s).rx (pl.sockets s).tx := by
  have hmark := leaves_block h hf hb
  have hqueue := leaves_enqueueBlocked hmark.blocks
  rw [hmark.rx, hmark.tx] at hqueue
  have hside := leaves_ite (p := 0 ≤ fd ∧ b = true) (hmark.andThen hqueue) (leaves_block h hg hb')
  exact ⟨hside.blocks, by rw [hside.kept]; simp [hfd], hside.rx, hside.tx⟩

/-- `vk_socket_handle_block` gives the poller a socket one of whose sides is
blocked. -/
theorem leaves_handleBlock (h : pl.Blocks t s) :
    Leaves t s pl (pl.handleBlock s)
      ((pl.sockets s).rx.rxBlocked = true ∨ (pl.sockets s).tx.txBlocked = true)
      (pl.sockets s).rx (pl.sockets s).tx := by
  unfold handleBlock
  have hclosed : Leaves t s pl (pl.updSocket s forwardClosed) False (pl.sockets s).rx
      (pl.sockets s).tx :=
    leaves_of_data (forwardClosed (pl.sockets s)) h rfl rfl rfl rfl rfl rfl rfl
  generalize pl.updSocket s forwardClosed = pl₁ at hclosed ⊢
  have hrx := leaves_blockSide (f := Socket.markReadBlock) (g := Socket.clearReadBlock)
    (b := (pl₁.sockets s).rx.rxBlocked) hclosed.blocks hclosed.blocks.rxFd rfl rfl rfl rfl
  dsimp only
  generalize (if 0 ≤ (pl₁.sockets s).rxFd.getFd ∧ (pl₁.sockets s).rx.rxBlocked = true then
    (pl₁.updSocket s Socket.markReadBlock).enqueueBlocked s
    else pl₁.updSocket s Socket.clearReadBlock) = pl₂ at hrx ⊢
  have htx := leaves_blockSide (f := Socket.markWriteBlock) (g := Socket.clearWriteBlock)
    (b := (pl₂.sockets s).tx.txBlocked) hrx.blocks hrx.blocks.txFd rfl rfl rfl rfl
  rw [hclosed.rx, hclosed.tx] at hrx
  rw [hrx.rx, hrx.tx] at htx
  rw [hrx.tx]
  exact hclosed.andThen (hrx.trans htx)

/-- The end of the handlers. -/
theorem leaves_handled (h : pl.Blocks t s) :
    Leaves t s pl (pl.handled s).pl
      ((pl.sockets s).rx.rxBlocked = true ∨ (pl.sockets s).tx.txBlocked = true)
      (pl.sockets s).rx (pl.sockets s).tx := leaves_handleBlock h

end ProcLocal

/-! ## What a system call does to its ring -/

/-- Answers that fit the rings of a socket. -/
structure Fits (socket : Socket) (os : Os) : Prop where
  readv : ∀ bytes, os.readv = .ok bytes → bytes.length ≤ socket.rx.rxLen
  writev : ∀ n, os.writev = .ok n → n ≤ socket.tx.txLen
  accept : ∀ record, os.accept = .ok record → record.length = acceptedAllocSize

namespace Vectoring

variable {ring : Vectoring}

/-- A read that moves bytes or blocks. -/
def readMoves (ring : Vectoring) : SysResult (List UInt8) → Bool
  | .ok bytes => !bytes.isEmpty || decide (0 < ring.rxLen)
  | .err e => e == EAGAIN

/-- An accept that has room for its record, and moves it or blocks. -/
def acceptMoves (ring : Vectoring) (alloc : Nat) (accepted : SysResult (List UInt8)) : Bool :=
  decide (alloc ≤ ring.rxLen) &&
    match accepted with
    | .ok _ => !ring.eof
    | .err e => e == EAGAIN

/-- A write that moves bytes or blocks; a blocked ring stays so. -/
def writeMoves (ring : Vectoring) (writev : SysResult Nat) : Bool :=
  ring.txBlocked ||
    match writev with
    | .ok n => decide (0 < n) || decide (0 < ring.txLen)
    | .err e => e == EAGAIN

theorem Wf.read_moves (h : ring.Wf) {readv : SysResult (List UInt8)}
    (hfit : ∀ bytes, readv = .ok bytes → bytes.length ≤ ring.rxLen) (errno : Errno) :
    ((ring.read readv errno).ring.effect = true ∨ (ring.read readv errno).ring.rxBlocked = true) ↔
      (ring.readMoves readv = true ∨ ring.effect = true) := by
  cases readv with
  | ok bytes =>
      obtain ⟨-, -, hm⟩ := h.read_ok (hfit bytes rfl) errno
      rw [hm.effect, hm.flags.rxBlocked]
      cases bytes with
      | nil => simp [readMoves, or_comm]
      | cons b bs => simp [readMoves]
  | err e =>
      rw [read_err]
      by_cases he : e = EAGAIN
      · simp [readMoves, he]
      · simp [readMoves, he]

theorem Wf.write_moves (h : ring.Wf) {writev : SysResult Nat}
    (hfit : ∀ n, writev = .ok n → n ≤ ring.txLen) (errno : Errno) :
    ((ring.write writev errno).ring.effect = true ∨
        (ring.write writev errno).ring.txBlocked = true) ↔
      (ring.writeMoves writev = true ∨ ring.effect = true) := by
  cases hb : ring.txBlocked with
  | true => simp [write_of_blocked hb, writeMoves, hb]
  | false =>
      cases writev with
      | ok n =>
          obtain ⟨-, -, hm⟩ := h.write_ok hb (hfit n rfl) errno
          rw [hm.effect, hm.flags.txBlocked]
          cases Nat.eq_zero_or_pos n with
          | inl h0 => simp [writeMoves, hb, h0, or_comm]
          | inr hpos => simp [writeMoves, hb, hpos]
      | err e =>
          rw [write_err hb]
          by_cases he : e = EAGAIN
          · simp [writeMoves, he]
          · simp [writeMoves, hb, he]

theorem Wf.accept_moves (h : ring.Wf) {alloc : Nat} {accepted : SysResult (List UInt8)}
    {errno : Errno} (hpos : 0 < alloc)
    (hfit : ∀ record, accepted = .ok record → record.length = alloc) :
    ((ring.accept alloc accepted errno).ring.effect = true ∨
        (ring.accept alloc accepted errno).ring.rxBlocked = true) ↔
      (ring.acceptMoves alloc accepted = true ∨ ring.effect = true) := by
  by_cases hlt : ring.rxLen < alloc
  · rw [accept_of_lt hlt]
    simp [acceptMoves, Vectoring.setRxBlocked, Nat.not_le.mpr hlt]
  · have hle : alloc ≤ ring.rxLen := Nat.le_of_not_lt hlt
    cases accepted with
    | err e =>
        rw [accept_err hlt]
        by_cases he : e = EAGAIN
        · simp [acceptMoves, hle, he]
        · simp [acceptMoves, he]
    | ok record =>
        cases heof : ring.eof with
        | true =>
            rw [accept_ok_of_eof hlt hpos heof]
            simp [acceptMoves, Vectoring.setRxBlocked, heof]
        | false =>
            obtain ⟨-, hm⟩ := h.accept_ok hlt (hfit record rfl) (by simp [heof]) errno
            rw [hm.effect]
            simp [acceptMoves, hle, heof, hpos]

end Vectoring

/-! ## The handlers -/

namespace ProcLocal

variable {pl : ProcLocal} {t s : Nat} {os : Os}

theorem exists_osFd {pipe : Pipe} (h : 0 ≤ pipe.getFd) : ∃ fd, pipe.ref = .osFd fd := by
  unfold Pipe.getFd at h
  cases hr : pipe.ref with
  | osFd fd => exact ⟨fd, rfl⟩
  | vkRx w | vkTx w => simp [hr] at h

/-- What the receive side leaves of its ring, for the kind of descriptor it has. -/
def received (pl : ProcLocal) (s : Nat) (os : Os) : Io :=
  if (pl.sockets s).rxFd.fdType = .socketListen then
    (pl.sockets s).rx.accept acceptedAllocSize os.accept pl.errno
  else (pl.sockets s).rx.read os.readv pl.errno

theorem leaves_handleRead (h : pl.Blocks t s) (os : Os) :
    (pl.handleRead s os).rc = 0 ∧
      Leaves t s pl (pl.handleRead s os).pl
        ((pl.received s os).ring.effect = true ∨ (pl.received s os).ring.rxBlocked = true ∨
          (pl.sockets s).tx.txBlocked = true)
        { (pl.received s os).ring with effect := false } (pl.sockets s).tx := by
  obtain ⟨fd, hfd⟩ := exists_osFd h.rxFd
  have hread : pl.handleRead s os
      = ((pl.absorbRx s (pl.received s os)).enqueueRead s).handled s := by
    by_cases hl : (pl.sockets s).rxFd.fdType = .socketListen
    · simp only [handleRead, received, hfd, if_pos hl]
    · simp only [handleRead, received, hfd, if_neg hl]
  have habsorb := leaves_absorbRx h (pl.received s os)
  have hwake := leaves_enqueueRead habsorb.blocks
  have hblock := leaves_handled hwake.blocks
  rw [hwake.rx, hwake.tx, habsorb.rx, habsorb.tx] at hblock
  rw [habsorb.rx, habsorb.tx] at hwake
  rw [hread]
  exact ⟨rfl, habsorb.andThen (hwake.trans hblock)⟩

theorem leaves_handleWrite (h : pl.Blocks t s) (os : Os) :
    Leaves t s pl (pl.handleWrite s os).pl
      (((pl.sockets s).tx.write os.writev pl.errno).ring.effect = true ∨
        (pl.sockets s).rx.rxBlocked = true ∨
        ((pl.sockets s).tx.write os.writev pl.errno).ring.txBlocked = true)
      (pl.sockets s).rx
      { ((pl.sockets s).tx.write os.writev pl.errno).ring with effect := false } := by
  obtain ⟨fd, hfd⟩ := exists_osFd h.txFd
  have hwrite : pl.handleWrite s os
      = ((pl.absorbTx s ((pl.sockets s).tx.write os.writev pl.errno)).enqueueWrite s).handled s := by
    simp only [handleWrite, hfd]
  have habsorb := leaves_absorbTx h ((pl.sockets s).tx.write os.writev pl.errno)
  have hwake := leaves_enqueueWrite habsorb.blocks
  have hblock := leaves_handled hwake.blocks
  rw [hwake.rx, hwake.tx, habsorb.rx, habsorb.tx] at hblock
  rw [habsorb.rx, habsorb.tx] at hwake
  rw [hwrite]
  exact habsorb.andThen (hwake.trans hblock)

/-- A forward reads and then writes. -/
theorem kept_handleForward (h : pl.Blocks t s) (os : Os) :
    ∃ errno, (pl.handleForward s os).pl.Kept t s ↔
      pl.Kept t s ∨
        ((((pl.sockets s).rx.read os.readv pl.errno).ring.effect = true ∨
          ((pl.sockets s).rx.read os.readv pl.errno).ring.rxBlocked = true) ∨
        (((pl.sockets s).tx.write os.writev errno).ring.effect = true ∨
          ((pl.sockets s).tx.write os.writev errno).ring.txBlocked = true)) := by
  obtain ⟨rfd, hrfd⟩ := exists_osFd h.rxFd
  obtain ⟨wfd, hwfd⟩ := exists_osFd h.txFd
  have habsorb := leaves_absorbRx h ((pl.sockets s).rx.read os.readv pl.errno)
  have hwake := leaves_enqueueRead habsorb.blocks
  rw [habsorb.rx, habsorb.tx] at hwake
  have hread := habsorb.andThen hwake
  have hforward : pl.handleForward s os
      = (((((pl.absorbRx s ((pl.sockets s).rx.read os.readv pl.errno)).enqueueRead s).absorbTx s
        ((pl.sockets s).tx.write os.writev
          ((pl.absorbRx s ((pl.sockets s).rx.read os.readv pl.errno)).enqueueRead s).errno)
        ).enqueueWrite s).handled s) := by
    simp only [handleForward, hrfd, hwfd, hread.tx]
  generalize (pl.absorbRx s ((pl.sockets s).rx.read os.readv pl.errno)).enqueueRead s = pl₁
    at hread hforward
  have habsorb' := leaves_absorbTx hread.blocks ((pl.sockets s).tx.write os.writev pl₁.errno)
  have hwake' := leaves_enqueueWrite habsorb'.blocks
  have hblock := leaves_handled hwake'.blocks
  rw [hwake'.rx, hwake'.tx, habsorb'.rx, habsorb'.tx, hread.rx] at hblock
  rw [habsorb'.rx, habsorb'.tx] at hwake'
  refine ⟨pl₁.errno, ?_⟩
  rw [hforward, (hread.trans (habsorb'.andThen (hwake'.trans hblock))).kept]
  show _ ∨ _ ∨ _ ∨ ((pl.sockets s).rx.read os.readv pl.errno).ring.rxBlocked = true ∨
    ((pl.sockets s).tx.write os.writev pl₁.errno).ring.txBlocked = true ↔ _
  tauto

/-- The closes ready the thread whatever happened. -/
theorem kept_closed (h : pl.Blocks t s) : (pl.closed s).pl.Kept t s :=
  (leaves_enqueueSelf (leaves_handleBlock h).blocks).kept.mpr (Or.inr trivial)

theorem leaves_markClosedRx (h : pl.Blocks t s) :
    Leaves t s pl (pl.setRx s (pl.sockets s).rx.markClosed) False (pl.sockets s).rx.markClosed
      (pl.sockets s).tx :=
  leaves_of_data { pl.sockets s with rx := (pl.sockets s).rx.markClosed } h
    rfl rfl rfl rfl rfl rfl rfl

theorem leaves_markClosedTx (h : pl.Blocks t s) :
    Leaves t s pl (pl.setTx s (pl.sockets s).tx.markClosed) False (pl.sockets s).rx
      (pl.sockets s).tx.markClosed :=
  leaves_of_data { pl.sockets s with tx := (pl.sockets s).tx.markClosed } h
    rfl rfl rfl rfl rfl rfl rfl

theorem kept_closeRx (h : pl.Blocks t s) (rc : SysResult Unit) : (pl.closeRx s rc).pl.Kept t s := by
  obtain ⟨fd, hfd⟩ := exists_osFd h.rxFd
  have hclose : pl.closeRx s rc
      = ((((pl.absorbRx s ((pl.sockets s).rx.close rc pl.errno)).setRx s
        ((pl.absorbRx s ((pl.sockets s).rx.close rc pl.errno)).sockets s).rx.markClosed
        ).enqueueRead s).closed s) := by
    simp only [closeRx, hfd]
  have hmark := leaves_markClosedRx (leaves_absorbRx h ((pl.sockets s).rx.close rc pl.errno)).blocks
  rw [hclose]
  exact kept_closed (leaves_enqueueRead hmark.blocks).blocks

/-- The two closes of the transmit side, whose calls leave their ring in `io`. -/
theorem kept_closeTx (h : pl.Blocks t s) (io : Io) :
    ((((pl.absorbTx s io).setTx s ((pl.absorbTx s io).sockets s).tx.markClosed).enqueueWrite s
      ).closed s).pl.Kept t s :=
  kept_closed (leaves_enqueueWrite (leaves_markClosedTx (leaves_absorbTx h io).blocks).blocks).blocks

/-! ## Keeping the thread -/

/-- A thread in `vk_wait` on a socket of two descriptors. -/
structure WaitsOnFds (pl : ProcLocal) (t s : Nat) : Prop where
  status : (pl.threads t).status = .wait
  waiting : (pl.threads t).waitingSocketPtr = some s
  blocks : pl.Blocks t s
  rxWf : (pl.sockets s).rx.Wf
  txWf : (pl.sockets s).tx.Wf

/-- The operations that do I/O on descriptors. -/
def ioOps : List Op :=
  [.read, .write, .flush, .forward, .txClose, .rxClose, .txShutdown, .rxShutdown]

/-- What keeps a waiting thread, by the operation it waits for: that the system
call moves bytes or blocks; that an effect was pending on a ring the operation
uses; that the other side was blocked.  A close needs nothing. -/
def keepsThread (socket : Socket) (os : Os) : Bool :=
  match socket.block.op with
  | .read =>
      (if socket.rxFd.fdType = .socketListen then socket.rx.acceptMoves acceptedAllocSize os.accept
        else socket.rx.readMoves os.readv) || socket.rx.effect || socket.tx.txBlocked
  | .write | .flush => socket.tx.writeMoves os.writev || socket.tx.effect || socket.rx.rxBlocked
  | .forward =>
      socket.rx.readMoves os.readv || socket.rx.effect || socket.tx.writeMoves os.writev ||
        socket.tx.effect
  | _ => true

/-- Whether a read keeps its thread.  The flush that may follow it changes
nothing: it follows only a read that has blocked. -/
theorem kept_read_iff (h : pl.WaitsOnFds t s) (hfit : Fits (pl.sockets s) os)
    (hop : (pl.sockets s).block.op = .read) :
    (pl.socketHandler s os).pl.Kept t s ↔ pl.Kept t s ∨ keepsThread (pl.sockets s) os = true := by
  obtain ⟨hrc, hread⟩ := leaves_handleRead h.blocks os
  have hmoves : ((pl.received s os).ring.effect = true ∨ (pl.received s os).ring.rxBlocked = true ∨
      (pl.sockets s).tx.txBlocked = true) ↔ keepsThread (pl.sockets s) os = true := by
    rw [← or_assoc]
    unfold received keepsThread
    rw [hop]
    by_cases hl : (pl.sockets s).rxFd.fdType = .socketListen
    · simp only [if_pos hl, h.rxWf.accept_moves (by decide) hfit.accept, Bool.or_eq_true]
    · simp only [if_neg hl, h.rxWf.read_moves hfit.readv, Bool.or_eq_true]
  rw [hmoves] at hread
  have hflush : (pl.socketHandler s os).pl.Kept t s ↔ (pl.handleRead s os).pl.Kept t s := by
    simp only [socketHandler, hop, hrc]
    rw [if_neg (by decide)]
    by_cases hl : lazyFlush ((pl.handleRead s os).pl.sockets s) = true
    · rw [if_pos hl]
      have hkept : (pl.handleRead s os).pl.Kept t s := by
        simp only [lazyFlush, hread.rx, Bool.and_eq_true] at hl
        exact hread.kept.mpr (Or.inr (hmoves.mp (Or.inr (Or.inl hl.1.1))))
      exact iff_of_true ((leaves_handleWrite hread.blocks os).kept.mpr (Or.inl hkept)) hkept
    · rw [if_neg hl]
  rw [hflush, hread.kept]

theorem kept_write_iff (h : pl.WaitsOnFds t s) (hfit : Fits (pl.sockets s) os)
    (hop : (pl.sockets s).block.op = .write ∨ (pl.sockets s).block.op = .flush) :
    (pl.socketHandler s os).pl.Kept t s ↔ pl.Kept t s ∨ keepsThread (pl.sockets s) os = true := by
  have hwrite : pl.socketHandler s os = pl.handleWrite s os := by
    rcases hop with hop | hop <;> simp only [socketHandler, hop]
  have hkeeps : keepsThread (pl.sockets s) os = ((pl.sockets s).tx.writeMoves os.writev ||
      (pl.sockets s).tx.effect || (pl.sockets s).rx.rxBlocked) := by
    rcases hop with hop | hop <;> simp only [keepsThread, hop]
  have hmoves := h.txWf.write_moves hfit.writev pl.errno
  rw [hwrite, hkeeps, (leaves_handleWrite h.blocks os).kept, Bool.or_eq_true, Bool.or_eq_true,
    ← hmoves]
  tauto

theorem kept_forward_iff (h : pl.WaitsOnFds t s) (hfit : Fits (pl.sockets s) os)
    (hop : (pl.sockets s).block.op = .forward) :
    (pl.socketHandler s os).pl.Kept t s ↔ pl.Kept t s ∨ keepsThread (pl.sockets s) os = true := by
  obtain ⟨errno, hkept⟩ := kept_handleForward h.blocks os
  have hread := h.rxWf.read_moves hfit.readv pl.errno
  have hwrite := h.txWf.write_moves hfit.writev errno
  have hforward : pl.socketHandler s os = pl.handleForward s os := by simp only [socketHandler, hop]
  have hkeeps : keepsThread (pl.sockets s) os = ((pl.sockets s).rx.readMoves os.readv ||
      (pl.sockets s).rx.effect || (pl.sockets s).tx.writeMoves os.writev ||
      (pl.sockets s).tx.effect) := by simp only [keepsThread, hop]
  rw [hforward, hkept, hread, hwrite, hkeeps]
  simp only [Bool.or_eq_true, or_assoc]

theorem kept_close_iff (h : pl.WaitsOnFds t s)
    (hop : (pl.sockets s).block.op ∈ [Op.txClose, .rxClose, .txShutdown, .rxShutdown]) :
    (pl.socketHandler s os).pl.Kept t s ↔ pl.Kept t s ∨ keepsThread (pl.sockets s) os = true := by
  obtain ⟨fd, hfd⟩ := exists_osFd h.blocks.txFd
  simp only [List.mem_cons, List.not_mem_nil, or_false] at hop
  rcases hop with hop | hop | hop | hop
  · simp only [socketHandler, hop, keepsThread, or_true, iff_true, handleTxClose, hfd]
    exact kept_closeTx h.blocks _
  · simp only [socketHandler, hop, keepsThread, or_true, iff_true]
    exact kept_closeRx h.blocks _
  · simp only [socketHandler, hop, keepsThread, or_true, iff_true, handleTxShutdown, hfd]
    exact kept_closeTx h.blocks _
  · simp only [socketHandler, hop, keepsThread, or_true, iff_true]
    exact kept_closeRx h.blocks _

/-- A thread that waits on a socket of two descriptors is ready or with the
poller, after `vk_unblock`, exactly when its socket was with the poller before or
something keeps it. -/
theorem unblock_keeps_iff (h : pl.WaitsOnFds t s) (hfit : Fits (pl.sockets s) os)
    (hop : (pl.sockets s).block.op ∈ ioOps) :
    (pl.unblock t os).pl.Kept t s ↔ s ∈ pl.blockedQ ∨ keepsThread (pl.sockets s) os = true := by
  have hunblock : pl.unblock t os = pl.socketHandler s os := by
    simp only [unblock, h.status, h.waiting]
  have hkept : pl.Kept t s ↔ s ∈ pl.blockedQ := by
    simp [Kept, Thread.isReady, h.status]
  rw [hunblock, ← hkept]
  simp only [ioOps, List.mem_cons, List.not_mem_nil, or_false] at hop
  rcases hop with hop | hop | hop | hop | hop
  · exact kept_read_iff h hfit hop
  · exact kept_write_iff h hfit (Or.inl hop)
  · exact kept_write_iff h hfit (Or.inr hop)
  · exact kept_forward_iff h hfit hop
  · exact kept_close_iff h (by simpa using hop)

/-! ## A read that fails -/

/-- The thread of `oneThread` waiting in `vk_read`. -/
def waitingThread : ProcLocal :=
  let pl := (oneThread.blockInit 0 0 16 .read).updBlock 0 fun block => { block with blockedVk := 0 }
  pl.updThread 0 fun that => { that with status := .wait, waitingSocketPtr := some 0 }

theorem waitsOnFds_waitingThread : waitingThread.WaitsOnFds 0 0 :=
  ⟨by decide, by decide, ⟨by decide, by decide, by decide, by decide, by decide⟩,
    Vectoring.wf_init _ _ (by decide), Vectoring.wf_init _ _ (by decide)⟩

/-- The answer of a system whose connection was reset, or has three bytes. -/
def answer (readv : SysResult (List UInt8)) : Os := ⟨readv, .ok 0, .err EAGAIN, .ok (), .ok ()⟩

theorem fits_answer (readv : SysResult (List UInt8))
    (h : ∀ bytes, readv = .ok bytes → bytes.length ≤ 16384) :
    Fits (waitingThread.sockets 0) (answer readv) :=
  ⟨h, fun n hn => by cases hn; exact Nat.zero_le _, fun _ h => by cases h⟩

/-- Three bytes keep the thread. -/
theorem unblock_keeps_iff_waitingThread :
    (waitingThread.unblock 0 (answer (.ok [97, 98, 99]))).pl.Kept 0 0 :=
  (unblock_keeps_iff waitsOnFds_waitingThread (fits_answer _ (by rintro _ ⟨⟩; decide))
    (by decide)).mpr (Or.inr (by decide))

/-- `ECONNRESET` loses it. -/
theorem unblock_loses_thread :
    ¬∀ (pl : ProcLocal) (t s : Nat) (os : Os), pl.WaitsOnFds t s → Fits (pl.sockets s) os →
      (pl.sockets s).block.op ∈ ioOps → (pl.unblock t os).pl.Kept t s := fun h => by
  have hkept := h waitingThread 0 0 (answer (.err 104)) waitsOnFds_waitingThread
    (fits_answer _ (by rintro _ ⟨⟩)) (by decide)
  revert hkept
  unfold Kept
  decide

end ProcLocal

end Vk

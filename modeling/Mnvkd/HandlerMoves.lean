/-
# `Mnvkd.HandlerMoves` — what a handler is made of

As far as the queues go the handler of socket `s` is a sequence of four moves: it
changes data of sockets, readies a thread, enqueues a thread to run, or queues `s`
itself for the poller (`stirs_socketHandler`).  So whatever the four moves keep,
every handler keeps, whatever its operation and the system's answers; nothing is
ever taken out of a queue.
-/
import Mnvkd.QueueFlags

namespace Vk

open Lib

/-- The queues, the marks, the threads and whom the sockets block are the same. -/
structure SameQueues (pl pl' : ProcLocal) : Prop where
  threads : pl'.threads = pl.threads
  run : pl'.run = pl.run
  runQ : pl'.runQ = pl.runQ
  blocked : pl'.blocked = pl.blocked
  blockedQ : pl'.blockedQ = pl.blockedQ
  blockedEnq : ∀ a, (pl'.sockets a).blockedEnq = (pl.sockets a).blockedEnq
  blockedVk : ∀ a, pl'.blockedVk a = pl.blockedVk a

/-- From `pl` to `pl'` by moves of the handler of `s`. -/
inductive Stirs (s : Nat) : ProcLocal → ProcLocal → Prop where
  | data {pl pl' : ProcLocal} (h : SameQueues pl pl') : Stirs s pl pl'
  | ready (pl : ProcLocal) (t : Nat) : Stirs s pl (pl.ready t)
  | enqueueRun (pl : ProcLocal) (t : Nat) : Stirs s pl (pl.enqueueRun t)
  | enqueueBlocked (pl : ProcLocal) : Stirs s pl (pl.enqueueBlocked s)
  | trans {pl pl' pl'' : ProcLocal} (h : Stirs s pl pl') (h' : Stirs s pl' pl'') : Stirs s pl pl''

variable {s : Nat}

theorem Stirs.refl (pl : ProcLocal) : Stirs s pl pl :=
  .data ⟨rfl, rfl, rfl, rfl, rfl, fun _ => rfl, fun _ => rfl⟩

namespace ProcLocal

variable (pl : ProcLocal)

/-! ## Data -/

theorem stirs_updSocket (w : Nat) {f : Socket → Socket}
    (henq : ∀ socket, (f socket).blockedEnq = socket.blockedEnq)
    (hvk : ∀ socket, (f socket).block.blockedVk = socket.block.blockedVk) :
    Stirs s pl (pl.updSocket w f) := by
  refine .data ⟨rfl, rfl, rfl, rfl, rfl, fun a => ?_, fun a => ?_⟩
  · rw [updSocket_sockets]
    split
    · subst a
      exact henq _
    · rfl
  · rw [blockedVk, updSocket_sockets]
    split
    · subst a
      exact hvk _
    · rfl

theorem stirs_setRx (w : Nat) (ring : Vectoring) : Stirs s pl (pl.setRx w ring) :=
  stirs_updSocket pl w (f := fun socket => { socket with rx := ring }) (fun _ => rfl) fun _ => rfl

theorem stirs_setTx (w : Nat) (ring : Vectoring) : Stirs s pl (pl.setTx w ring) :=
  stirs_updSocket pl w (f := fun socket => { socket with tx := ring }) (fun _ => rfl) fun _ => rfl

theorem stirs_setErrno (e : Errno) : Stirs s pl (pl.setErrno e) :=
  .data ⟨rfl, rfl, rfl, rfl, rfl, fun _ => rfl, fun _ => rfl⟩

theorem stirs_failed (w : Nat) (e : Errno) (p : Prop) [Decidable p] :
    Stirs s pl (if p then (pl.setErrno e).handleError w else pl.setErrno e) := by
  split
  · refine (stirs_setErrno pl e).trans ?_
    exact stirs_updSocket _ w (f := fun socket => { socket with error := (pl.setErrno e).errno })
      (fun _ => rfl) fun _ => rfl
  · exact stirs_setErrno pl e

theorem stirs_absorbRx (w : Nat) (io : Io) : Stirs s pl (pl.absorbRx w io) :=
  (stirs_setRx pl w io.ring).trans (stirs_failed (pl.setRx w io.ring) w io.errno (io.rc = -1))

theorem stirs_absorbTx (w : Nat) (io : Io) : Stirs s pl (pl.absorbTx w io) :=
  (stirs_setTx pl w io.ring).trans (stirs_failed (pl.setTx w io.ring) w io.errno (io.rc = -1))

theorem stirs_spliced (a b : Nat) : Stirs s pl (pl.spliced a b) :=
  (stirs_setTx pl a ((pl.sockets b).rx.splice (pl.sockets a).tx (-1) pl.errno).tx).trans
    (stirs_setRx _ b ((pl.sockets b).rx.splice (pl.sockets a).tx (-1) pl.errno).rx)

theorem stirs_spliceFrom (a b : Nat) : Stirs s pl (pl.spliceFrom a b) :=
  (stirs_spliced pl b a).trans (stirs_failed (pl.spliced b a) a
    ((pl.sockets a).rx.splice (pl.sockets b).tx (-1) pl.errno).errno
    (((pl.sockets a).rx.splice (pl.sockets b).tx (-1) pl.errno).rc = -1))

theorem stirs_spliceTo (a b : Nat) : Stirs s pl (pl.spliceTo a b) :=
  (stirs_spliced pl a b).trans (stirs_failed (pl.spliced a b) a
    ((pl.sockets b).rx.splice (pl.sockets a).tx (-1) pl.errno).errno
    (((pl.sockets b).rx.splice (pl.sockets a).tx (-1) pl.errno).rc = -1))

/-! ## Waking and blocking -/

theorem stirs_enqueueSelf (w : Nat) : Stirs s pl (pl.enqueueSelf w) := .ready pl _

theorem stirs_enqueueOther (w : Nat) : Stirs s pl (pl.enqueueOther w) :=
  (Stirs.enqueueRun pl _).trans (.ready _ _)

theorem stirs_enqueueRead (w : Nat) : Stirs s pl (pl.enqueueRead w) := by
  have heffect : Stirs s pl (pl.handleRxEffect w).1 := stirs_setRx pl w _
  unfold enqueueRead
  dsimp only
  split
  · exact heffect.trans (stirs_enqueueSelf _ w)
  · exact heffect

theorem stirs_enqueueWrite (w : Nat) : Stirs s pl (pl.enqueueWrite w) := by
  have heffect : Stirs s pl (pl.handleTxEffect w).1 := stirs_setTx pl w _
  unfold enqueueWrite
  dsimp only
  split
  · exact heffect.trans (stirs_enqueueSelf _ w)
  · exact heffect

theorem stirs_enqueueReadwriter (w : Nat) : Stirs s pl (pl.enqueueReadwriter s w) := by
  have heffect : Stirs s pl (pl.handleTxEffect w).1 := stirs_setTx pl w _
  unfold enqueueReadwriter
  dsimp only
  split
  · exact heffect.trans ((stirs_enqueueOther _ w).trans (stirs_enqueueSelf _ s))
  · exact heffect

theorem stirs_enqueueWritereader (w : Nat) : Stirs s pl (pl.enqueueWritereader s w) := by
  have heffect : Stirs s pl (pl.handleRxEffect w).1 := stirs_setRx pl w _
  unfold enqueueWritereader
  dsimp only
  split
  · exact heffect.trans ((stirs_enqueueOther _ w).trans (stirs_enqueueSelf _ s))
  · exact heffect

/-- A pipe's side: blocked and queued, or not. -/
theorem stirs_side (p : Prop) [Decidable p] {f g : Socket → Socket}
    (hf : ∀ socket, (f socket).blockedEnq = socket.blockedEnq ∧
      (f socket).block.blockedVk = socket.block.blockedVk)
    (hg : ∀ socket, (g socket).blockedEnq = socket.blockedEnq ∧
      (g socket).block.blockedVk = socket.block.blockedVk) :
    Stirs s pl (if p then (pl.updSocket s f).enqueueBlocked s else pl.updSocket s g) := by
  split
  · exact (stirs_updSocket pl s (fun socket => (hf socket).1) fun socket => (hf socket).2).trans
      (.enqueueBlocked _)
  · exact stirs_updSocket pl s (fun socket => (hg socket).1) fun socket => (hg socket).2

theorem stirs_handleBlock : Stirs s pl (pl.handleBlock s) := by
  have hclosed : Stirs s pl (pl.updSocket s forwardClosed) :=
    stirs_updSocket pl s (fun _ => rfl) fun _ => rfl
  unfold handleBlock
  exact hclosed.trans ((stirs_side (pl.updSocket s forwardClosed) _ (f := Socket.markReadBlock)
    (g := Socket.clearReadBlock) (fun _ => ⟨rfl, rfl⟩) fun _ => ⟨rfl, rfl⟩).trans
      (stirs_side _ _ (f := Socket.markWriteBlock) (g := Socket.clearWriteBlock)
        (fun _ => ⟨rfl, rfl⟩) fun _ => ⟨rfl, rfl⟩))

theorem stirs_closed : Stirs s pl (pl.closed s).pl :=
  (stirs_handleBlock pl).trans (stirs_enqueueSelf _ s)

/-! ## The handlers -/

variable {pl} {os : Os}

theorem stirs_handleRead : Stirs s pl (pl.handleRead s os).pl := by
  cases href : (pl.sockets s).rxFd.ref with
  | osFd fd =>
      simp only [handleRead, href]
      have hread : ∀ io, Stirs s pl (((pl.absorbRx s io).enqueueRead s).handled s).pl := fun io =>
        (stirs_absorbRx pl s io).trans ((stirs_enqueueRead _ s).trans (stirs_handleBlock _))
      split
      · exact hread _
      · exact hread _
  | vkTx w =>
      simp only [handleRead, href]
      exact (stirs_spliceFrom pl s w).trans ((stirs_enqueueRead _ s).trans
        ((stirs_enqueueReadwriter _ w).trans (stirs_handleBlock _)))
  | vkRx w =>
      simp only [handleRead, href]
      exact (stirs_setErrno pl _).trans (stirs_handleBlock _)

/-- What is written to a pipe, and whom it wakes. -/
theorem stirs_writeTo (r : Nat) :
    Stirs s pl (((pl.spliceTo s r).enqueueWrite s).enqueueWritereader s r) :=
  (stirs_spliceTo pl s r).trans ((stirs_enqueueWrite _ s).trans (stirs_enqueueWritereader _ r))

theorem stirs_writeFd (io : Io) : Stirs s pl (((pl.absorbTx s io).enqueueWrite s).handled s).pl :=
  (stirs_absorbTx pl s io).trans ((stirs_enqueueWrite _ s).trans (stirs_handleBlock _))

theorem stirs_handleWrite : Stirs s pl (pl.handleWrite s os).pl := by
  cases href : (pl.sockets s).txFd.ref with
  | osFd fd =>
      simp only [handleWrite, href]
      exact stirs_writeFd _
  | vkRx r =>
      simp only [handleWrite, href]
      exact (stirs_writeTo r).trans (stirs_handleBlock _)
  | vkTx r =>
      simp only [handleWrite, href]
      exact (stirs_setErrno pl _).trans (stirs_handleBlock _)

/-- The transmit half of a forward. -/
theorem stirs_forwardTx (ref : PipeRef) :
    Stirs s pl (pl.forwardTx s os ref).pl := by
  cases ref with
  | osFd fd => exact stirs_writeFd _
  | vkRx r => exact (stirs_writeTo r).trans (stirs_handleBlock _)
  | vkTx r => exact stirs_setErrno pl _

theorem stirs_forwardFromFd (ref : PipeRef) :
    Stirs s pl (pl.forwardFromFd s os ref).pl := by
  cases ref with
  | osFd fd => exact stirs_writeFd _
  | vkRx r =>
      have hwrite : Stirs s pl ((pl.spliceTo s r).enqueueWrite s) :=
        (stirs_spliceTo pl s r).trans (stirs_enqueueWrite _ s)
      simp only [forwardFromFd]
      split
      · exact hwrite.trans ((stirs_enqueueWritereader _ r).trans
          ((Stirs.enqueueRun _ _).trans (stirs_handleBlock _)))
      · exact hwrite.trans (stirs_handleBlock _)
  | vkTx r => exact stirs_setErrno pl _

theorem stirs_handleForward : Stirs s pl (pl.handleForward s os).pl := by
  cases href : (pl.sockets s).rxFd.ref with
  | osFd fd =>
      rw [handleForward_osFd href]
      exact (stirs_absorbRx pl s _).trans ((stirs_enqueueRead _ s).trans (stirs_forwardFromFd _))
  | vkTx w =>
      rw [handleForward_vkTx href]
      exact (stirs_spliceFrom pl s w).trans ((stirs_enqueueRead _ s).trans
        ((stirs_enqueueReadwriter _ w).trans (stirs_forwardTx _)))
  | vkRx w =>
      simp only [handleForward, href]
      exact stirs_setErrno pl _

theorem stirs_handleReadhup : Stirs s pl (pl.handleReadhup s).pl := by
  cases href : (pl.sockets s).rxFd.ref with
  | osFd fd =>
      simp only [handleReadhup, href]
      exact (stirs_enqueueRead pl s).trans (stirs_handleBlock _)
  | vkTx w =>
      rw [handleReadhup_eq href]
      split
      · exact (stirs_setTx pl w _).trans ((stirs_setRx _ s _).trans ((stirs_enqueueRead _ s).trans
          ((stirs_enqueueReadwriter _ w).trans (stirs_handleBlock _))))
      · exact stirs_handleBlock pl
  | vkRx w =>
      simp only [handleReadhup, href]
      exact stirs_setErrno pl _

theorem stirs_handleHup : Stirs s pl (pl.handleHup s).pl := by
  cases href : (pl.sockets s).txFd.ref with
  | osFd fd =>
      simp only [handleHup, href]
      exact (stirs_enqueueWrite pl s).trans (stirs_handleBlock _)
  | vkRx r =>
      simp only [handleHup, href]
      split
      · exact (stirs_enqueueWrite pl s).trans ((stirs_enqueueWritereader _ r).trans
          (stirs_handleBlock _))
      · exact stirs_handleBlock pl
  | vkTx r =>
      simp only [handleHup, href]
      exact stirs_setErrno pl _

/-- A side that is closed by a call on its descriptor. -/
theorem stirs_closeTx (io : Io) : Stirs s pl ((((pl.absorbTx s io).setTx s
    ((pl.absorbTx s io).sockets s).tx.markClosed).enqueueWrite s).closed s).pl :=
  (stirs_absorbTx pl s io).trans ((stirs_setTx _ s _).trans ((stirs_enqueueWrite _ s).trans
    (stirs_closed _)))

theorem stirs_handleTxClose : Stirs s pl (pl.handleTxClose s os).pl := by
  have hmark : ∀ r, Stirs s pl ((((pl.setTx s (pl.sockets s).tx.markEof).enqueueWrite
      s).enqueueWritereader s r).closed s).pl := fun r =>
    (stirs_setTx pl s _).trans ((stirs_enqueueWrite _ s).trans ((stirs_enqueueWritereader _ r).trans
      (stirs_closed _)))
  cases href : (pl.sockets s).txFd.ref with
  | osFd fd =>
      simp only [handleTxClose, href]
      exact stirs_closeTx _
  | vkRx r | vkTx r =>
      simp only [handleTxClose, href]
      exact hmark r

theorem stirs_closeRx (rc : SysResult Unit) : Stirs s pl (pl.closeRx s rc).pl := by
  cases href : (pl.sockets s).rxFd.ref with
  | osFd fd =>
      simp only [closeRx, href]
      exact (stirs_absorbRx pl s _).trans ((stirs_setRx _ s _).trans ((stirs_enqueueRead _ s).trans
        (stirs_closed _)))
  | vkTx w | vkRx w =>
      simp only [closeRx, href]
      exact (stirs_enqueueRead pl s).trans (stirs_closed _)

theorem stirs_handleTxShutdown : Stirs s pl (pl.handleTxShutdown s os).pl := by
  cases href : (pl.sockets s).txFd.ref with
  | osFd fd =>
      simp only [handleTxShutdown, href]
      exact stirs_closeTx _
  | vkTx r | vkRx r =>
      simp only [handleTxShutdown, href]
      exact (stirs_enqueueWrite pl s).trans (stirs_closed _)

/-- Whatever a socket's operation, its handler is made of the four moves. -/
theorem stirs_socketHandler (pl : ProcLocal) (s : Nat) (os : Os) :
    Stirs s pl (pl.socketHandler s os).pl := by
  have hevents : ∀ (f g : Socket → Socket),
      (∀ socket, (f socket).blockedEnq = socket.blockedEnq ∧
        (f socket).block.blockedVk = socket.block.blockedVk) →
      (∀ socket, (g socket).blockedEnq = socket.blockedEnq ∧
        (g socket).block.blockedVk = socket.block.blockedVk) →
      Stirs s pl ((pl.updSocket s f).updSocket s g) := fun f g hf hg =>
    (stirs_updSocket pl s (fun socket => (hf socket).1) fun socket => (hf socket).2).trans
      (stirs_updSocket _ s (fun socket => (hg socket).1) fun socket => (hg socket).2)
  cases hop : (pl.sockets s).block.op <;> simp only [socketHandler, hop]
  case none => exact Stirs.refl pl
  case read =>
      have hread : Stirs s pl (pl.handleRead s os).pl := stirs_handleRead
      split
      · exact hread
      · split
        · exact hread.trans stirs_handleWrite
        · exact hread
  case write => exact stirs_handleWrite
  case forward => exact stirs_handleForward
  case flush => exact stirs_handleWrite
  case hup => exact stirs_handleHup
  case readhup => exact stirs_handleReadhup
  case txClose => exact stirs_handleTxClose
  case rxClose => exact stirs_closeRx _
  case rxShutdown => exact stirs_closeRx _
  case txShutdown => exact stirs_handleTxShutdown
  case readable => exact hevents _ _ (fun _ => ⟨rfl, rfl⟩) fun _ => ⟨rfl, rfl⟩
  case writable => exact hevents _ _ (fun _ => ⟨rfl, rfl⟩) fun _ => ⟨rfl, rfl⟩

end ProcLocal

theorem stirs_unflagged (pl : ProcLocal) (s : Nat) : Stirs s pl (pl.unflagged s) := by
  have hrx : Stirs s pl (pl.unflagRx s) := by
    unfold ProcLocal.unflagRx
    split
    · exact ProcLocal.stirs_setRx pl s ((pl.sockets s).rx.setRxBlocked false)
    · exact Stirs.refl pl
  refine hrx.trans ?_
  unfold ProcLocal.unflagged ProcLocal.unflagTx
  split
  · exact ProcLocal.stirs_setTx _ s (((pl.unflagRx s).sockets s).tx.setTxBlocked false)
  · exact Stirs.refl _

end Vk

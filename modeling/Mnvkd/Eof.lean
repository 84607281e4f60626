/-
# `Mnvkd.Eof` — end of file is the end of the stream

A `readv` of nothing is EOF to `vk_vectoring_read`, and `readv` returns nothing
where the stream has ended, but also where nothing is asked for: where the ring
is full.  A coroutine that waits in a read has an empty ring; but one that waits in
a forward may have a full one, when what it forwards to is slower, and so may one
whose socket the poller still has when it has gone on.

    forward_cuts_stream      a forward to a slow sink takes its full ring for EOF
    eof_of_ended             no run does in which no forward and no retry reads
                             into a full ring
-/
import Mnvkd.Ownership
import Mnvkd.PipeSpec
import Mnvkd.Readline

namespace Vk

open Lib

/-! ## Rings -/

namespace Vectoring

variable {ring : Vectoring}

@[simp] theorem eof_sync (ring : Vectoring) : ring.sync.eof = ring.eof := rfl

theorem eof_markReceived (ring : Vectoring) (n : Nat) : (ring.markReceived n).eof = ring.eof := by
  unfold markReceived
  split
  · rfl
  · split
    · rfl
    · split <;> rfl

/-- A read that gets something, or fails, does not mark EOF. -/
theorem eof_read (h : ring.eof = false) {readv : SysResult (List UInt8)} (hreadv : readv ≠ .ok [])
    (errno : Errno) : (ring.read readv errno).ring.eof = false := by
  cases readv with
  | err e =>
      rw [read_err]
      exact h
  | ok bytes =>
      have hbytes : bytes.isEmpty = false := by
        rw [List.isEmpty_eq_false_iff]
        rintro rfl
        exact hreadv rfl
      unfold Vectoring.read signedReceived
      dsimp only
      split
      · exact hbytes
      · rw [eof_markReceived]
        exact hbytes

theorem eof_close (ring : Vectoring) (rc : SysResult Unit) (errno : Errno) :
    (ring.close rc errno).ring.eof = ring.eof := by
  cases rc <;> rfl

theorem eof_markClosed (ring : Vectoring) : ring.markClosed.eof = ring.eof := by
  unfold markClosed
  split <;> rfl

end Vectoring

/-! ## Handlers -/

/-- Socket `s` reads from a stream, whose end has not been marked. -/
structure Unended (s : Nat) (pl : ProcLocal) : Prop where
  stream : ∃ fd, (pl.sockets s).rxFd.ref = .osFd fd
  notListen : (pl.sockets s).rxFd.fdType ≠ .socketListen
  wf : ∀ a, (pl.sockets a).rx.Wf ∧ (pl.sockets a).tx.Wf
  eof : (pl.sockets s).rx.eof = false

section Handlers

variable {pl pl' : ProcLocal} {s a b : Nat} {os : Os}

theorem Unended.same (h : Unended s pl) (hsame : SameData pl pl') : Unended s pl' where
  stream := by rw [(hsame.socket s).rxRef]; exact h.stream
  notListen := by rw [(hsame.socket s).rxType]; exact h.notListen
  wf a := ⟨(hsame.socket a).rx.wf (h.wf a).1, (hsame.socket a).tx.wf (h.wf a).2⟩
  eof := by rw [(hsame.socket s).rx.eof]; exact h.eof

/-- The rings and the pipe of the socket are all that counts. -/
theorem Unended.congr (h : Unended s pl) (hrx : ∀ a, (pl'.sockets a).rx = (pl.sockets a).rx)
    (htx : ∀ a, (pl'.sockets a).tx = (pl.sockets a).tx)
    (hfd : (pl'.sockets s).rxFd = (pl.sockets s).rxFd) : Unended s pl' where
  stream := by rw [hfd]; exact h.stream
  notListen := by rw [hfd]; exact h.notListen
  wf a := by rw [hrx, htx]; exact h.wf a
  eof := by rw [hrx]; exact h.eof

theorem Unended.of_eq (h : Unended s pl) (hsockets : pl'.sockets = pl.sockets) : Unended s pl' :=
  h.congr (fun _ => by rw [hsockets]) (fun _ => by rw [hsockets]) (by rw [hsockets])

theorem Unended.updBlock (h : Unended s pl) (a : Nat) (f : Block → Block) :
    Unended s (pl.updBlock a f) := by
  have hrest : ∀ c, ((pl.updBlock a f).sockets c).rx = (pl.sockets c).rx ∧
      ((pl.updBlock a f).sockets c).tx = (pl.sockets c).tx ∧
      ((pl.updBlock a f).sockets c).rxFd = (pl.sockets c).rxFd := fun c => by
    rw [ProcLocal.updBlock, ProcLocal.updSocket_sockets]
    split
    · subst c
      exact ⟨rfl, rfl, rfl⟩
    · exact ⟨rfl, rfl, rfl⟩
  exact h.congr (fun c => (hrest c).1) (fun c => (hrest c).2.1) (hrest s).2.2

theorem Unended.settle (h : Unended s pl) (hsettles : Settles pl pl') : Unended s pl' :=
  h.same hsettles.toSameData

theorem Unended.setRx (h : Unended s pl) {ring : Vectoring} (hwf : ring.Wf)
    (heof : a = s → ring.eof = false) : Unended s (pl.setRx a ring) := by
  refine ⟨?_, ?_, fun c => ?_, ?_⟩
  · rw [ProcLocal.setRx_rxFd]
    exact h.stream
  · rw [ProcLocal.setRx_rxFd]
    exact h.notListen
  · rw [ProcLocal.setRx_rx, ProcLocal.setRx_tx]
    refine ⟨?_, (h.wf c).2⟩
    split
    · exact hwf
    · exact (h.wf c).1
  · rw [ProcLocal.setRx_rx]
    split
    · exact heof (Eq.symm ‹_›)
    · exact h.eof

theorem Unended.setTx (h : Unended s pl) {ring : Vectoring} (hwf : ring.Wf) :
    Unended s (pl.setTx a ring) := by
  refine ⟨?_, ?_, fun c => ?_, ?_⟩
  · rw [ProcLocal.setTx_rxFd]
    exact h.stream
  · rw [ProcLocal.setTx_rxFd]
    exact h.notListen
  · rw [ProcLocal.setTx_rx, ProcLocal.setTx_tx]
    refine ⟨(h.wf c).1, ?_⟩
    split
    · exact hwf
    · exact (h.wf c).2
  · rw [ProcLocal.setTx_rx]
    exact h.eof

theorem Unended.spliced (h : Unended s pl) : Unended s (pl.spliced a b) := by
  obtain ⟨-, -, hrx, htx⟩ := (h.wf b).1.splice (h.wf a).2 (-1) pl.errno
  refine (h.setTx htx.wf).setRx hrx.wf fun hb => ?_
  subst hb
  rw [hrx.flags.eof]
  exact h.eof

theorem Unended.spliceFrom (h : Unended s pl) : Unended s (pl.spliceFrom b a) :=
  h.spliced.settle (ProcLocal.settles_spliceFrom pl b a)

theorem Unended.spliceTo (h : Unended s pl) : Unended s (pl.spliceTo a b) :=
  h.spliced.settle (ProcLocal.settles_spliceTo pl a b)

theorem Unended.absorbRx (h : Unended s pl) {io : Io} (hwf : io.ring.Wf)
    (heof : a = s → io.ring.eof = false) : Unended s (pl.absorbRx a io) :=
  (h.setRx hwf heof).settle (ProcLocal.settles_absorbRx pl a io)

theorem Unended.absorbTx (h : Unended s pl) {io : Io} (hwf : io.ring.Wf) :
    Unended s (pl.absorbTx a io) :=
  (h.setTx hwf).settle (ProcLocal.settles_absorbTx pl a io)

theorem Unended.read (h : Unended s pl) (hreadv : a = s → os.readv ≠ .ok []) :
    Unended s (pl.absorbRx a ((pl.sockets a).rx.read os.readv pl.errno)) :=
  h.absorbRx ((h.wf a).1.of_read _ _) fun ha => by
    subst ha
    exact Vectoring.eof_read h.eof (hreadv rfl) _

theorem Unended.write (h : Unended s pl) :
    Unended s (pl.absorbTx a ((pl.sockets a).tx.write os.writev pl.errno)) :=
  h.absorbTx ((h.wf a).2.of_write _ _)

open ProcLocal

theorem Unended.handleRead (h : Unended s pl) (hreadv : a = s → os.readv ≠ .ok []) :
    Unended s (pl.handleRead a os).pl := by
  cases href : (pl.sockets a).rxFd.ref with
  | osFd fd =>
      simp only [ProcLocal.handleRead, href]
      refine Unended.settle ?_ ((settles_enqueueRead _ _).trans (settles_handled _ _))
      split
      · rename_i hlisten
        refine h.absorbRx ((h.wf a).1.of_accept _ _ _) fun ha => ?_
        subst ha
        exact absurd hlisten h.notListen
      · exact h.read hreadv
  | vkTx b =>
      simp only [ProcLocal.handleRead, href]
      exact h.spliceFrom.settle ((settles_enqueueRead _ _).trans
        ((settles_enqueueReadwriter _ _ _).trans (settles_handled _ _)))
  | vkRx b =>
      simp only [ProcLocal.handleRead, href]
      exact h.settle ((settles_setErrno _ _).trans (settles_handleBlock _ _))

theorem Unended.handleWrite (h : Unended s pl) : Unended s (pl.handleWrite a os).pl := by
  cases href : (pl.sockets a).txFd.ref with
  | osFd fd =>
      simp only [ProcLocal.handleWrite, href]
      exact h.write.settle ((settles_enqueueWrite _ _).trans (settles_handled _ _))
  | vkRx b =>
      simp only [ProcLocal.handleWrite, href]
      exact h.spliceTo.settle ((settles_enqueueWrite _ _).trans
        ((settles_enqueueWritereader _ _ _).trans (settles_handled _ _)))
  | vkTx b =>
      simp only [ProcLocal.handleWrite, href]
      exact h.settle ((settles_setErrno _ _).trans (settles_handleBlock _ _))

theorem Unended.forwardTx (h : Unended s pl) (ref : PipeRef) :
    Unended s (pl.forwardTx a os ref).pl := by
  cases ref with
  | osFd fd => exact h.write.settle ((settles_enqueueWrite _ _).trans (settles_handled _ _))
  | vkRx b =>
      exact h.spliceTo.settle ((settles_enqueueWrite _ _).trans
        ((settles_enqueueWritereader _ _ _).trans (settles_handled _ _)))
  | vkTx b => exact h.settle (settles_setErrno _ _)

theorem Unended.forwardFromFd (h : Unended s pl) (ref : PipeRef) :
    Unended s (pl.forwardFromFd a os ref).pl := by
  cases ref with
  | osFd fd => exact h.write.settle ((settles_enqueueWrite _ _).trans (settles_handled _ _))
  | vkRx b =>
      have hwrite : Unended s ((pl.spliceTo a b).enqueueWrite a) :=
        h.spliceTo.settle (settles_enqueueWrite _ a)
      simp only [ProcLocal.forwardFromFd]
      split
      · exact hwrite.settle ((settles_enqueueWritereader _ a b).trans
          ((settles_enqueueRun _ _).trans (settles_handled _ a)))
      · exact hwrite.settle (settles_handled _ a)
  | vkTx b => exact h.settle (settles_setErrno _ _)

theorem Unended.handleForward (h : Unended s pl) (hreadv : a = s → os.readv ≠ .ok []) :
    Unended s (pl.handleForward a os).pl := by
  cases href : (pl.sockets a).rxFd.ref with
  | osFd fd =>
      rw [ProcLocal.handleForward_osFd href]
      exact ((h.read hreadv).settle (settles_enqueueRead _ a)).forwardFromFd _
  | vkTx b =>
      rw [ProcLocal.handleForward_vkTx href]
      exact (h.spliceFrom.settle ((settles_enqueueRead _ a).trans
        (settles_enqueueReadwriter _ a b))).forwardTx _
  | vkRx b =>
      simp only [ProcLocal.handleForward, href]
      exact h.settle (settles_setErrno _ _)

/-- A hang-up is read off another socket, and into one that reads from it. -/
theorem Unended.handleReadhup (h : Unended s pl) : Unended s (pl.handleReadhup a).pl := by
  cases href : (pl.sockets a).rxFd.ref with
  | osFd fd =>
      simp only [ProcLocal.handleReadhup, href]
      exact h.settle ((settles_enqueueRead _ _).trans (settles_handled _ _))
  | vkTx b =>
      rw [handleReadhup_eq href]
      split
      · refine Unended.settle ?_ ((settles_enqueueRead _ a).trans
          ((settles_enqueueReadwriter _ a b).trans (settles_handled _ a)))
        refine (h.setTx (wf_clearEof (h.wf b).2)).setRx (wf_markEof (h.wf a).1) fun ha => ?_
        obtain ⟨fd, hfd⟩ := h.stream
        rw [← ha, href] at hfd
        cases hfd
      · exact h.settle (settles_handled _ _)
  | vkRx b =>
      simp only [ProcLocal.handleReadhup, href]
      exact h.settle (settles_setErrno _ _)

theorem Unended.closeRx (h : Unended s pl) (rc : SysResult Unit) :
    Unended s (pl.closeRx a rc).pl := by
  cases href : (pl.sockets a).rxFd.ref with
  | osFd fd =>
      have hclose : Unended s (pl.absorbRx a ((pl.sockets a).rx.close rc pl.errno)) :=
        h.absorbRx ((h.wf a).1.of_close _ _) fun ha => by
          subst ha
          rw [Vectoring.eof_close]
          exact h.eof
      simp only [ProcLocal.closeRx, href]
      refine Unended.settle ?_ ((settles_enqueueRead _ _).trans (settles_closed _ _))
      exact hclose.setRx (wf_markClosed (hclose.wf a).1) fun ha => by
        subst ha
        rw [Vectoring.eof_markClosed]
        exact hclose.eof
  | vkTx b | vkRx b =>
      simp only [ProcLocal.closeRx, href]
      exact h.settle ((settles_enqueueRead _ _).trans (settles_closed _ _))

theorem Unended.handleTxClose (h : Unended s pl) : Unended s (pl.handleTxClose a os).pl := by
  cases href : (pl.sockets a).txFd.ref with
  | osFd fd =>
      have hclose : Unended s (pl.absorbTx a ((pl.sockets a).tx.close os.close pl.errno)) :=
        h.absorbTx ((h.wf a).2.of_close _ _)
      simp only [ProcLocal.handleTxClose, href]
      exact (hclose.setTx (wf_markClosed (hclose.wf a).2)).settle
        ((settles_enqueueWrite _ _).trans (settles_closed _ _))
  | vkTx b | vkRx b =>
      simp only [ProcLocal.handleTxClose, href]
      exact (h.setTx (wf_markEof (h.wf a).2)).settle ((settles_enqueueWrite _ _).trans
        ((settles_enqueueWritereader _ _ _).trans (settles_closed _ _)))

theorem Unended.handleTxShutdown (h : Unended s pl) : Unended s (pl.handleTxShutdown a os).pl := by
  cases href : (pl.sockets a).txFd.ref with
  | osFd fd =>
      have hclose : Unended s (pl.absorbTx a ((pl.sockets a).tx.txShutdown os.shutdown pl.errno)) :=
        h.absorbTx ((h.wf a).2.of_close _ _)
      simp only [ProcLocal.handleTxShutdown, href]
      exact (hclose.setTx (wf_markClosed (hclose.wf a).2)).settle
        ((settles_enqueueWrite _ _).trans (settles_closed _ _))
  | vkTx b | vkRx b =>
      simp only [ProcLocal.handleTxShutdown, href]
      exact h.settle ((settles_enqueueWrite _ _).trans (settles_closed _ _))

/-- No handler marks EOF, unless it reads the stream and gets nothing. -/
theorem Unended.socketHandler (h : Unended s pl) (hreadv : a = s →
    (pl.sockets s).block.op = .read ∨ (pl.sockets s).block.op = .forward → os.readv ≠ .ok []) :
    Unended s (pl.socketHandler a os).pl := by
  cases hop : (pl.sockets a).block.op <;> simp only [ProcLocal.socketHandler, hop]
  case none => exact h
  case read =>
      have hread := h.handleRead (a := a) fun ha => hreadv ha (Or.inl (ha ▸ hop))
      split
      · exact hread
      · split
        · exact hread.handleWrite
        · exact hread
  case write => exact h.handleWrite
  case forward => exact h.handleForward fun ha => hreadv ha (Or.inr (ha ▸ hop))
  case flush => exact h.handleWrite
  case hup => exact h.settle (settles_handleHup pl a)
  case readhup => exact h.handleReadhup
  case txClose => exact h.handleTxClose
  case rxClose => exact h.closeRx _
  case rxShutdown => exact h.closeRx _
  case txShutdown => exact h.handleTxShutdown
  case readable => exact h.settle (settles_handleReadable pl a)
  case writable => exact h.settle (settles_handleWritable pl a)

theorem Unended.unflagged (h : Unended s pl) (a : Nat) : Unended s (pl.unflagged a) := by
  have hrx : Unended s (pl.unflagRx a) := by
    unfold unflagRx
    split
    · exact h.setRx ((h.wf a).1.setRxBlocked _) fun ha => by
        subst ha
        exact h.eof
    · exact h
  unfold ProcLocal.unflagged unflagTx
  split
  · exact hrx.setTx ((hrx.wf a).2.setTxBlocked _)
  · exact hrx

end Handlers

/-! ## Coroutines -/

section Coroutines

variable {pl : ProcLocal} {m : Machine} {s a t : Nat} {k : IoLoop}

theorem Unended.blockCommit (h : Unended s pl) (a : Nat) (rc : Int) :
    Unended s (pl.blockCommit a rc) :=
  h.updBlock a fun block => block.commit rc

theorem Unended.blockInit (h : Unended s pl) (a buf len : Nat) (op : Op) :
    Unended s (pl.blockInit a buf len op) :=
  h.updBlock a fun block => block.init buf len op

theorem Unended.waitOn (h : Unended s pl) (t a : Nat) : Unended s (pl.waitOn t a) := by
  have hwait : Unended s (pl.updThread t fun that =>
      { that with waitingSocketPtr := some a, status := .wait }) := h.of_eq rfl
  exact hwait.updBlock a fun block => { block with blockedVk := t }

theorem Unended.recvCommit (h : Unended s pl) (a : Nat) : Unended s (pl.recvCommit a) := by
  have hrecv := (h.wf a).1.recv_moved pl.mem (pl.sockets a).block.buf
    (pl.sockets a).block.getUncommitted
  have hmem : Unended s { pl with
      mem := ((pl.sockets a).rx.recv pl.mem (pl.sockets a).block.buf
        (pl.sockets a).block.getUncommitted).dst } := h.of_eq rfl
  have hset : Unended s ({ pl with
      mem := ((pl.sockets a).rx.recv pl.mem (pl.sockets a).block.buf
        (pl.sockets a).block.getUncommitted).dst }.setRx a
      ((pl.sockets a).rx.recv pl.mem (pl.sockets a).block.buf
        (pl.sockets a).block.getUncommitted).ring) :=
    hmem.setRx hrecv.wf fun ha => by
      subst ha
      rw [hrecv.flags.eof]
      exact h.eof
  exact hset.blockCommit a _

theorem Unended.sendCommit (h : Unended s pl) (a : Nat) : Unended s (pl.sendCommit a) := by
  have hset : Unended s (pl.setTx a ((pl.sockets a).tx.send pl.mem (pl.sockets a).block.buf
      (pl.sockets a).block.getUncommitted).1) := h.setTx ((h.wf a).2.of_send _ _ _)
  exact hset.blockCommit a _

theorem Unended.forwardCommit (h : Unended s pl) (a : Nat) : Unended s (pl.forwardCommit a) := by
  obtain ⟨-, -, htx, hrx⟩ := (h.wf a).2.splice (h.wf a).1
    (ProcLocal.ssize (pl.sockets a).block.getUncommitted) pl.errno
  refine Unended.blockCommit ?_ a _
  refine Unended.settle ?_ (ProcLocal.settles_setErrno _ _)
  refine (h.setRx hrx.wf fun ha => ?_).setTx htx.wf
  subst ha
  rw [hrx.flags.eof]
  exact h.eof

theorem Unended.body (h : Unended s pl) (k : IoLoop) (a : Nat) :
    Unended s ((k.loop a).body pl) := by
  cases k with
  | read => exact h.recvCommit a
  | readline =>
      have hline : Unended s (requestLine pl a) := h.updBlock a _
      exact hline.recvCommit a
  | pollread | hup => exact h.blockCommit a _
  | once => exact h.updBlock a fun block => block.setUncommitted 0
  | write => exact h.sendCommit a
  | flush | hupFlush => exact h
  | forward => exact h.forwardCommit a

theorem Unended.raise (h : Unended s m.pl) (t : Nat) (e : Errno) : Unended s (m.raise t e).pl :=
  h.of_eq (Machine.raise_sockets m t e)

theorem Unended.leave (h : Unended s m.pl) (t : Nat) (k : IoLoop) (a : Nat) :
    Unended s (m.leave t k a).pl := by
  by_cases hk : k = .hupFlush
  · subst k
    cases heof : (m.pl.sockets a).tx.eof with
    | true =>
        rw [Machine.leave_of_eof heof]
        have hset : Unended s ((m.pl.setTx a (m.pl.sockets a).tx).setErrno Errno.EINVAL) :=
          (h.setTx (h.wf a).2).settle (ProcLocal.settles_setErrno _ _)
        exact Unended.raise (m := { m with
          pl := (m.pl.setTx a (m.pl.sockets a).tx).setErrno Errno.EINVAL }) hset t _
    | false =>
        rw [Machine.leave_of_not_eof heof, Machine.setPos_pl]
        exact (h.setTx (ProcLocal.wf_markEof (h.wf a).2)).blockInit a 0 1 .hup
  · rw [Machine.leave_of_ne hk]
    exact h

theorem Unended.turn (h : Unended s m.pl) (t : Nat) (k : IoLoop) (a : Nat) :
    Unended s (m.turn t k a).pl := by
  have hbody := h.body k a
  have hturned := (k.loop a).turned m.pl
  unfold Machine.turn
  generalize (k.loop a).turn m.pl = outcome at hturned
  cases hturned with
  | left => exact h.leave t k a
  | failed =>
      exact Unended.raise (m := { m with pl := (k.loop a).body m.pl }) hbody t _
  | done => exact Unended.leave (m := { m with pl := (k.loop a).body m.pl }) hbody t k a
  | wait => exact hbody.waitOn t a
  | again => exact hbody

theorem Unended.enter (h : Unended s pl) (c : IoCall) : Unended s (c.enter pl) := by
  cases c with
  | once b op =>
      have hqueue : Unended s (if op = .readable ∨ op = .writable then pl.enqueueBlocked b else pl) := by
        split
        · exact h.settle (ProcLocal.settles_enqueueBlocked pl b)
        · exact h
      exact hqueue.blockInit b 0 1 op
  | _ => exact h.blockInit _ _ _ _

theorem Unended.call (h : Unended s m.pl) (t : Nat) (c : IoCall) : Unended s (m.call t c).pl := by
  unfold Machine.call
  split
  · exact Unended.raise (m := { m with pl := c.enter m.pl }) (h.enter c) t _
  · exact h.enter c

theorem Unended.readhup (h : Unended s m.pl) (t a : Nat) : Unended s (m.readhup t a).pl := by
  unfold Machine.readhup
  split
  · have hhandled := h.handleReadhup (a := a)
    generalize (m.pl.handleReadhup a).pl = pl at hhandled
    have hring : ((pl.sockets a).rx.readhup pl.errno).ring
        = if (pl.sockets a).rx.eof then (pl.sockets a).rx.clearEof else (pl.sockets a).rx := by
      unfold Vectoring.readhup
      split <;> rfl
    have htaken : Unended s ((pl.setRx a ((pl.sockets a).rx.readhup pl.errno).ring).setErrno
        ((pl.sockets a).rx.readhup pl.errno).errno) := by
      refine Unended.settle ?_ (ProcLocal.settles_setErrno _ _)
      rw [hring]
      split
      · exact hhandled.setRx (ProcLocal.wf_clearEof (hhandled.wf a).1) fun _ =>
          ProcLocal.eof_clearEof _
      · exact hhandled.setRx (hhandled.wf a).1 fun ha => by
          subst ha
          exact hhandled.eof
    dsimp only
    split
    · exact Unended.raise (m := { m with
        pl := (pl.setRx a ((pl.sockets a).rx.readhup pl.errno).ring).setErrno
          ((pl.sockets a).rx.readhup pl.errno).errno }) htaken t _
    · exact htaken
  · exact h.raise t _

/-- No step of a coroutine marks EOF. -/
theorem Unended.co {c : CoAct} {m' : Machine} (h : Unended s m.pl) (hco : m.co t c = some m') :
    Unended s m'.pl := by
  cases Machine.coStepped hco with
  | turn k b hpos => exact h.turn t k b
  | call hpos c hknown => exact h.call t c
  | readhup hpos b => exact h.readhup t b
  | play hpos u => exact h.settle (ProcLocal.settles_enqueueRun m.pl u)
  | store hpos mem => exact h.of_eq rfl
  | raise hpos e => exact h.raise t e
  | stop hpos status hstatus => exact h.of_eq rfl

/-- What a turn of a read has waited for is an empty ring. -/
theorem room_of_wait (hwf : (pl.sockets s).rx.Wf) (hk : k ∈ [IoLoop.read, .readline, .pollread])
    (honce : k = .pollread → pl.uncommitted s ≤ 1)
    (hturn : (k.loop s).turn pl = .wait ((k.loop s).body pl)) :
    (((k.loop s).body pl).sockets s).rx.rxLen ≠ 0 := by
  obtain ⟨-, -, -, -, hwaits⟩ := (Loop.turn_eq_wait _).mp hturn
  have hroom : ∀ {ring : Vectoring} {n : Nat} {q : List UInt8}, Vectoring.Moved (pl.sockets s).rx ring n q →
      q = [] → ring.rxLen ≠ 0 := fun {ring n q} hmoved hq => by
    have hlen : ring.txLen = 0 := by
      rw [← Vectoring.length_queue, hmoved.queue, hq]
      rfl
    have hpos := hmoved.wf.bufLen_pos
    unfold Vectoring.rxLen
    omega
  have hlen : (pl.sockets s).rx.queue.length = (pl.sockets s).rx.txLen := Vectoring.length_queue _
  simp only [List.mem_cons, List.not_mem_nil, or_false] at hk
  rcases hk with rfl | rfl | rfl
  · have hbody := ProcLocal.recvCommit_eq hwf
    have hleft : 0 < pl.uncommitted s - pl.recvCount s := by
      have hleft : (readLoop s).waits ((readLoop s).body pl) = true := hwaits
      simp only [readLoop, ProcLocal.uncommitted, hbody, ProcLocal.updSocket_sockets_self,
        Block.getUncommitted] at hleft
      exact of_decide_eq_true hleft
    have hmoved := hwf.markSent (n := pl.recvCount s) (Nat.min_le_right _ _)
    have hrx : (((readLoop s).body pl).sockets s).rx = (pl.sockets s).rx.markSent (pl.recvCount s) := by
      show ((pl.recvCommit s).sockets s).rx = _
      rw [hbody, ProcLocal.updSocket_sockets_self]
    refine hrx ▸ hroom hmoved (List.drop_eq_nil_of_le ?_)
    rw [hlen]
    unfold ProcLocal.recvCount at hleft ⊢
    omega
  · have hleft : 0 < lineRequest pl s - lineCount pl s := by
      rw [← body_uncommitted hwf]
      have hleft : (readlineLoop s).waits ((readlineLoop s).body pl) = true := hwaits
      simp only [readlineLoop, Bool.and_eq_true] at hleft
      exact of_decide_eq_true hleft.1
    refine hroom (body_rx_moved hwf) (List.drop_eq_nil_of_le ?_)
    rw [hlen]
    unfold lineCount at hleft ⊢
    omega
  · have hself := blockCommit_self pl s (if (pl.sockets s).empty then 0 else 1)
    have hleft : 0 < ((pl.blockCommit s (if (pl.sockets s).empty then 0 else 1)).sockets s).block.len :=
      of_decide_eq_true hwaits
    have hempty : (pl.sockets s).empty = true := by
      by_contra hempty
      have hone : (pl.sockets s).block.len ≤ 1 := honce rfl
      rw [hself, if_neg hempty] at hleft
      simp only [Block.commit] at hleft
      omega
    have hqueue := hwf.isEmpty_iff.mp hempty
    have hpos := hwf.bufLen_pos
    rw [hqueue] at hlen
    show ((pl.blockCommit s _).sockets s).rx.rxLen ≠ 0
    rw [hself]
    simp only [List.length_nil] at hlen
    unfold Vectoring.rxLen
    dsimp only
    omega

end Coroutines

/-! ## Reads of the stream -/

/-- The answers to the handler that reads the stream of socket `s`, where a step
runs it. -/
def Machine.readOf (s : Nat) (a : Act) (m : Machine) : Option Os :=
  if (m.pl.sockets s).block.op = .read ∨ (m.pl.sockets s).block.op = .forward then
    match m.stage, a with
    | .kernel, .retry b os => if b = s then some os else none
    | .back t, .unblock os =>
        if (m.pl.threads t).status = .wait ∧ (m.pl.threads t).waitingSocketPtr = some s then some os
        else none
    | _, _ => none
  else none

/-- The stream has not ended: a `readv` gets nothing only where it asks for
nothing. -/
def StreamGoesOn (s : Nat) (a : Act) (m : Machine) : Prop :=
  ∀ os ∈ m.readOf s a, os.readv = .ok [] → (m.pl.sockets s).rx.rxLen = 0

/-- The ring has room where a forward reads into it, and where a retry does. -/
def ReadsInRoom (s : Nat) (a : Act) (m : Machine) : Prop :=
  (m.readOf s a).isSome → (m.pl.sockets s).block.op = .forward ∨ m.stage = .kernel →
    (m.pl.sockets s).rx.rxLen ≠ 0

instance (s : Nat) (a : Act) (m : Machine) : Decidable (StreamGoesOn s a m) :=
  inferInstanceAs (Decidable (∀ os ∈ m.readOf s a, os.readv = .ok [] → _ = 0))

instance (s : Nat) (a : Act) (m : Machine) : Decidable (ReadsInRoom s a m) :=
  inferInstanceAs (Decidable (_ → _ → _ ≠ 0))

/-- Thread `t` reads the stream of socket `s`, whose end has not been marked; and
where it comes back waiting in a read it has emptied the ring. -/
structure ReadsStream (t s : Nat) (m : Machine) : Prop where
  unended : Unended s m.pl
  owned : Owned t s m
  once : m.pos t = some (.pollread, s) → m.pl.uncommitted s ≤ 1
  room : ∀ u, m.stage = .back u → (m.pl.threads u).status = .wait →
    (m.pl.threads u).waitingSocketPtr = some s → (m.pl.sockets s).block.op = .read →
    (m.pl.sockets s).rx.rxLen ≠ 0

section Runs

variable {t s : Nat} {a : Act} {m m' : Machine}

/-- A step whose handler gets something of the stream does not mark EOF. -/
theorem Unended.step (h : Unended s m.pl) (hreadv : ∀ os ∈ m.readOf s a, os.readv ≠ .ok [])
    (hstep : Machine.step a m = some m') : Unended s m'.pl := by
  cases Machine.stepped hstep with
  | start => exact h
  | play hst u => exact h.settle (ProcLocal.settles_enqueueRun m.pl u)
  | answer hst b rx tx =>
      exact h.updBlock b fun block => { block with
        ioftRxRet := { block.ioftRxRet with event := rx }
        ioftTxRet := { block.ioftTxRet with event := tx } }
  | retry hst b os hb =>
      have hsame := ProcLocal.handles_unflagged m.pl b
      have hhandler : Unended s ((m.pl.unflagged b).socketHandler b os).pl :=
        (h.unflagged b).socketHandler fun hbs hop => hreadv os <| by
          rw [(hsame.block s).op] at hop
          unfold Machine.readOf
          rw [if_pos hop, hst]
          dsimp only
          rw [if_pos hbs]
          rfl
      dsimp only
      rw [ProcLocal.retrySocket_eq]
      split
      · exact hhandler
      · exact (hhandler.same (ProcLocal.sameData_dropBlocked _ b)).settle
          (ProcLocal.settles_enqueueRun _ _)
  | exec phase hst => exact h.of_eq (Machine.execute_sockets m phase)
  | co u hst c m' hco => exact h.co hco
  | unblock u hst os =>
      dsimp only
      rcases ProcLocal.afterCall_cases m.pl u os with hsame | ⟨b, hwait, hb, hhandler⟩
      · exact h.same hsame
      · rw [hhandler]
        have hclear : Unended s { m.pl with runningCr := none } := h.of_eq rfl
        refine hclear.socketHandler fun hbs hop => hreadv os ?_
        unfold Machine.readOf
        rw [if_pos hop, hst]
        dsimp only
        rw [if_pos ⟨hwait, by rw [hb, hbs]⟩]
        rfl

/-- No read of the stream is into a full ring. -/
theorem ReadsStream.reads_in_room (h : ReadsStream t s m) (hroom : ReadsInRoom s a m) {os : Os}
    (hos : os ∈ m.readOf s a) : (m.pl.sockets s).rx.rxLen ≠ 0 := by
  have hsome : (m.readOf s a).isSome := by
    rw [Option.mem_def.mp hos]
    rfl
  unfold Machine.readOf at hos
  split at hos
  · rename_i hop
    split at hos
    · rename_i hst
      exact hroom hsome (Or.inr hst)
    · rename_i u os' hst
      split at hos
      · rename_i hwaits
        rcases hop with hread | hforward
        · exact h.room u hst hwaits.1 hwaits.2 hread
        · exact hroom hsome (Or.inl hforward)
      · cases hos
    · cases hos
  · cases hos

/-- A poll asks for one at most. -/
theorem Owned.once_step (h : Owned t s m)
    (honce : m.pos t = some (.pollread, s) → m.pl.uncommitted s ≤ 1) (hby : UsedBy t s a m)
    (hstep : Machine.step a m = some m') (hpos : m'.pos t = some (.pollread, s)) :
    m'.pl.uncommitted s ≤ 1 := by
  by_cases hs : Machine.usedSocket a m = some s
  · obtain ⟨-, ⟨k, hk, rfl⟩ | ⟨c, -, -, hcs, rfl⟩⟩ := h.usedSocket hby hstep hs
    · obtain rfl : k = .pollread := by
        rcases Machine.turn_pos m (t := t) (k := k) (s := s) t with hp | ⟨-, hp | ⟨-, hp⟩⟩
        · rw [hp, hk] at hpos
          cases hpos
          rfl
        · rw [hp] at hpos
          cases hpos
        · rw [hp] at hpos
          cases hpos
      have hbefore : (m.pl.sockets s).block.len ≤ 1 := honce hk
      have hbody : ((((IoLoop.pollread).loop s).body m.pl).sockets s).block.len ≤ 1 := by
        show ((m.pl.blockCommit s _).sockets s).block.len ≤ 1
        rw [blockCommit_self]
        simp only [Block.commit]
        split <;> omega
      have hturned := ((IoLoop.pollread).loop s).turned m.pl
      unfold Machine.turn at hpos ⊢
      generalize ((IoLoop.pollread).loop s).turn m.pl = outcome at hturned hpos ⊢
      cases hturned with
      | left =>
          dsimp only at hpos
          rw [Machine.leave_pos, if_pos rfl] at hpos
          simp at hpos
      | done =>
          dsimp only at hpos
          rw [Machine.leave_pos, if_pos rfl] at hpos
          simp at hpos
      | failed =>
          dsimp only at hpos
          rw [Machine.raise_pos, if_pos rfl] at hpos
          cases hpos
      | wait =>
          show (((((IoLoop.pollread).loop s).body m.pl).waitOn t s).sockets s).block.len ≤ 1
          rw [Machine.waitOn_self]
          exact hbody
      | again => exact hbody
    · unfold Machine.call at hpos ⊢
      split at hpos
      · rw [Machine.raise_pos, if_pos rfl] at hpos
        cases hpos
      · rw [Machine.setPos_pos, if_pos rfl] at hpos
        obtain ⟨b, rfl⟩ : ∃ b, c = .pollread b := by
          cases c <;> simp_all [IoCall.first]
        cases hcs
        show ((m.pl.blockInit b 0 1 .read).sockets b).block.len ≤ 1
        rw [ProcLocal.blockInit, updBlock_self]
        exact Nat.le_refl 1
  · have hlen := (Machine.sameUse_step hstep hs).len
    have hbefore := honce (Machine.pos_of_unused hstep hs hpos)
    unfold ProcLocal.uncommitted Block.getUncommitted at hbefore ⊢
    rw [hlen]
    exact hbefore

theorem ReadsStream.once_step (h : ReadsStream t s m) (hby : UsedBy t s a m)
    (hstep : Machine.step a m = some m') (hpos : m'.pos t = some (.pollread, s)) :
    m'.pl.uncommitted s ≤ 1 :=
  h.owned.once_step h.once hby hstep hpos

theorem ReadsStream.room_step (h : ReadsStream t s m) (hby : UsedBy t s a m)
    (hstep : Machine.step a m = some m') {u : Nat} (hst' : m'.stage = .back u)
    (hwait : (m'.pl.threads u).status = .wait) (hs : (m'.pl.threads u).waitingSocketPtr = some s)
    (hop : (m'.pl.sockets s).block.op = .read) : (m'.pl.sockets s).rx.rxLen ≠ 0 := by
  have hst := Machine.back_step hstep hst'
  obtain ⟨k, b, -, hpos, hturn, rfl⟩ := Machine.waited_step hstep hst hst' hwait
  dsimp only at hs hop ⊢
  rw [Machine.waitOn_threads, if_pos rfl] at hs
  cases hs
  rw [Machine.waitOn_self] at hop ⊢
  obtain rfl := h.owned.alone u k hpos
  have hk : k ∈ [IoLoop.read, .readline, .pollread] := by
    have hadmits := h.owned.admits k hpos
    rw [(body_block m.pl s k).1] at hop
    rw [hop] at hadmits
    cases k <;> simp_all [IoLoop.admits, onceOps]
  exact room_of_wait (h.unended.wf s).1 hk (fun hk => h.once (hk ▸ hpos)) hturn

theorem ReadsStream.step (h : ReadsStream t s m) (hby : UsedBy t s a m)
    (hgoes : StreamGoesOn s a m) (hroom : ReadsInRoom s a m)
    (hstep : Machine.step a m = some m') : ReadsStream t s m' where
  unended := h.unended.step (fun _ hos hnil => h.reads_in_room hroom hos (hgoes _ hos hnil)) hstep
  owned := h.owned.step hby hstep
  once := h.once_step hby hstep
  room _ hst' hwait hs hop := h.room_step hby hstep hst' hwait hs hop

end Runs

/-- EOF is the end of the stream: as long as the stream goes on, no run in which
neither a forward nor a retry reads into a full ring marks it. -/
theorem eof_of_ended {t s : Nat} {as : List Act} {m m' : Machine} (h : ReadsStream t s m)
    (hby : Meets Machine.step (UsedBy t s) as m) (hgoes : Meets Machine.step (StreamGoesOn s) as m)
    (hroom : Meets Machine.step (ReadsInRoom s) as m) (hrun : run Machine.step as m = some m') :
    (m'.pl.sockets s).rx.eof = false := by
  have h' : ReadsStream t s m' := run_of_meets
    (C := fun a m => UsedBy t s a m ∧ StreamGoesOn s a m ∧ ReadsInRoom s a m)
    (fun _ _ _ h hc hstep => h.step hc.1 hc.2.1 hc.2.2 hstep) h (hby.and (hgoes.and hroom)) hrun
  exact h'.unended.eof

/-! ## A slow sink -/

/-- One coroutine, whose socket has a descriptor on either side. -/
def proxy (rx tx : Vectoring) : Machine where
  pl := { ProcLocal.init with
    threads := Thread.init
    sockets := fun s => { Socket.cleared.init s s (Pipe.initFd 3 .socketStream)
      (Pipe.initFd 4 .socketStream) with rx := rx, tx := tx } }
  pos := fun _ => none
  stage := .kernel

def emptyRing : Vectoring := Vectoring.cleared.init (fun _ => 0) Socket.bufLen

/-- A ring that has received as much as it has room for. -/
def fullRing : Vectoring := emptyRing.markReceived Socket.bufLen

theorem wf_emptyRing : emptyRing.Wf := Vectoring.wf_init _ _ (by decide)

theorem readsStream_proxy {rx tx : Vectoring} (hrx : rx.Wf) (htx : tx.Wf) (heof : rx.eof = false) :
    ReadsStream 0 0 (proxy rx tx) where
  unended := {
    stream := ⟨3, rfl⟩
    notListen := fun h => by cases h
    wf := fun _ => ⟨hrx, htx⟩
    eof := heof }
  owned := {
    alone := fun u k h => by cases h
    admits := fun k h => by cases h
    blocks := fun k h => by cases h
    ready := fun u h => by cases h }
  once h := by cases h
  room u h := by cases h

/-- The system has `bytes` to read, and would block otherwise. -/
def readable (bytes : List UInt8) : Os :=
  ⟨.ok bytes, .err Errno.EAGAIN, .err Errno.EAGAIN, .ok (), .ok ()⟩

/-- A forward of at most 100 bytes, which waits; then `bytes` are read. -/
def forwardOnce (bytes : List UInt8) : List Act :=
  [.play 0, .start, .exec, .exec, .co (.call (.forward 0 100)), .co .turn, .unblock (readable bytes)]

theorem eof_of_ended_proxy : ∃ m',
    run Machine.step (forwardOnce [97, 98]) (proxy emptyRing emptyRing) = some m' ∧
      (m'.pl.sockets 0).rx.eof = false := by
  obtain ⟨m', hm'⟩ := Option.isSome_iff_exists.mp
    (by decide : (run Machine.step (forwardOnce [97, 98]) (proxy emptyRing emptyRing)).isSome = true)
  refine ⟨m', hm', eof_of_ended (readsStream_proxy wf_emptyRing wf_emptyRing rfl) (t := 0) ?_ ?_ ?_ hm'⟩
  · decide
  · decide
  · decide

/-- A forward to a sink that takes nothing reads into its full ring. -/
theorem forward_cuts_stream : ¬∀ (t s : Nat) (as : List Act) (m m' : Machine),
    ReadsStream t s m → Meets Machine.step (UsedBy t s) as m →
      Meets Machine.step (StreamGoesOn s) as m → run Machine.step as m = some m' →
        (m'.pl.sockets s).rx.eof = false := by
  intro hall
  obtain ⟨m', hm', heof⟩ := (Option.any_eq_true _ _).mp
    (by decide : (run Machine.step (forwardOnce []) (proxy fullRing fullRing)).any
      (fun m => (m.pl.sockets 0).rx.eof) = true)
  have hwf : fullRing.Wf := wf_emptyRing.of_markReceived _
  have := hall 0 0 _ _ m' (readsStream_proxy hwf hwf (by decide)) (by decide) (by decide) hm'
  rw [this] at heof
  cases heof

end Vk

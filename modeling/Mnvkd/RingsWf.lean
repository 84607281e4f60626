/-
# `Mnvkd.RingsWf` — the rings stay within their buffers

Every operation on a ring keeps its cursors in its buffer and its vectors in step with
them.  A splice works on two rings, a handler on those of its socket and of the
sockets at the other ends of its pipes, and a coroutine on those of whichever socket
it names.  So the rings of all sockets are well formed together: over every run, whatever the
system answers and whatever the coroutines do, the four vectors of each ring keep
covering its buffer once (`rings_stay_partitioned`).
-/
import Mnvkd.VectoringFifo
import Mnvkd.Conduit

namespace Vk

open Lib

/-- All rings are well formed. -/
def RingsWf (pl : ProcLocal) : Prop := ∀ a, (pl.sockets a).rx.Wf ∧ (pl.sockets a).tx.Wf

/-! ## Handlers -/

section Handlers

variable {pl pl' : ProcLocal} {a b : Nat} {os : Os}

theorem RingsWf.same (h : RingsWf pl) (hsame : SameData pl pl') : RingsWf pl' := fun a =>
  ⟨(hsame.socket a).rx.wf (h a).1, (hsame.socket a).tx.wf (h a).2⟩

theorem RingsWf.settle (h : RingsWf pl) (hsettles : Settles pl pl') : RingsWf pl' :=
  h.same hsettles.toSameData

theorem RingsWf.of_eq (h : RingsWf pl) (hsockets : pl'.sockets = pl.sockets) : RingsWf pl' := fun a => by
  rw [hsockets]
  exact h a

theorem RingsWf.updBlock (h : RingsWf pl) (a : Nat) (f : Block → Block) :
    RingsWf (pl.updBlock a f) := fun c => by
  rw [ProcLocal.updBlock, ProcLocal.updSocket_sockets]
  split
  · subst c
    exact h a
  · exact h c

theorem RingsWf.setRx (h : RingsWf pl) {ring : Vectoring} (hwf : ring.Wf) :
    RingsWf (pl.setRx a ring) := fun c => by
  rw [ProcLocal.setRx_rx, ProcLocal.setRx_tx]
  refine ⟨?_, (h c).2⟩
  split
  · exact hwf
  · exact (h c).1

theorem RingsWf.setTx (h : RingsWf pl) {ring : Vectoring} (hwf : ring.Wf) :
    RingsWf (pl.setTx a ring) := fun c => by
  rw [ProcLocal.setTx_rx, ProcLocal.setTx_tx]
  refine ⟨(h c).1, ?_⟩
  split
  · exact hwf
  · exact (h c).2

theorem RingsWf.absorbRx (h : RingsWf pl) {io : Io} (hwf : io.ring.Wf) : RingsWf (pl.absorbRx a io) :=
  (h.setRx hwf).settle (ProcLocal.settles_absorbRx pl a io)

theorem RingsWf.absorbTx (h : RingsWf pl) {io : Io} (hwf : io.ring.Wf) : RingsWf (pl.absorbTx a io) :=
  (h.setTx hwf).settle (ProcLocal.settles_absorbTx pl a io)

/-- A splice, from the transmit ring of `a` to the receive ring of `b`. -/
theorem RingsWf.spliced (h : RingsWf pl) : RingsWf (pl.spliced a b) := by
  obtain ⟨-, -, hrx, htx⟩ := (h b).1.splice (h a).2 (-1) pl.errno
  exact (h.setTx htx.wf).setRx hrx.wf

theorem RingsWf.spliceFrom (h : RingsWf pl) : RingsWf (pl.spliceFrom b a) :=
  h.spliced.settle (ProcLocal.settles_spliceFrom pl b a)

theorem RingsWf.spliceTo (h : RingsWf pl) : RingsWf (pl.spliceTo a b) :=
  h.spliced.settle (ProcLocal.settles_spliceTo pl a b)

theorem RingsWf.read (h : RingsWf pl) (readv : SysResult (List UInt8)) :
    RingsWf (pl.absorbRx a ((pl.sockets a).rx.read readv pl.errno)) :=
  h.absorbRx ((h a).1.of_read _ _)

theorem RingsWf.write (h : RingsWf pl) (writev : SysResult Nat) :
    RingsWf (pl.absorbTx a ((pl.sockets a).tx.write writev pl.errno)) :=
  h.absorbTx ((h a).2.of_write _ _)

open ProcLocal

theorem RingsWf.handleRead (h : RingsWf pl) : RingsWf (pl.handleRead a os).pl := by
  cases href : (pl.sockets a).rxFd.ref with
  | osFd fd =>
      simp only [ProcLocal.handleRead, href]
      refine RingsWf.settle ?_ ((settles_enqueueRead _ _).trans (settles_handled _ _))
      split
      · exact h.absorbRx ((h a).1.of_accept _ _ _)
      · exact h.read os.readv
  | vkTx b =>
      simp only [ProcLocal.handleRead, href]
      exact h.spliceFrom.settle ((settles_enqueueRead _ _).trans
        ((settles_enqueueReadwriter _ _ _).trans (settles_handled _ _)))
  | vkRx b =>
      simp only [ProcLocal.handleRead, href]
      exact h.settle ((settles_setErrno _ _).trans (settles_handleBlock _ _))

theorem RingsWf.handleWrite (h : RingsWf pl) : RingsWf (pl.handleWrite a os).pl := by
  cases href : (pl.sockets a).txFd.ref with
  | osFd fd =>
      simp only [ProcLocal.handleWrite, href]
      exact (h.write os.writev).settle ((settles_enqueueWrite _ _).trans (settles_handled _ _))
  | vkRx b =>
      simp only [ProcLocal.handleWrite, href]
      exact h.spliceTo.settle ((settles_enqueueWrite _ _).trans
        ((settles_enqueueWritereader _ _ _).trans (settles_handled _ _)))
  | vkTx b =>
      simp only [ProcLocal.handleWrite, href]
      exact h.settle ((settles_setErrno _ _).trans (settles_handleBlock _ _))

theorem RingsWf.forwardTx (h : RingsWf pl) (ref : PipeRef) : RingsWf (pl.forwardTx a os ref).pl := by
  cases ref with
  | osFd fd =>
      exact (h.write os.writev).settle ((settles_enqueueWrite _ _).trans (settles_handled _ _))
  | vkRx b =>
      exact h.spliceTo.settle ((settles_enqueueWrite _ _).trans
        ((settles_enqueueWritereader _ _ _).trans (settles_handled _ _)))
  | vkTx b => exact h.settle (settles_setErrno _ _)

theorem RingsWf.forwardFromFd (h : RingsWf pl) (ref : PipeRef) :
    RingsWf (pl.forwardFromFd a os ref).pl := by
  cases ref with
  | osFd fd =>
      exact (h.write os.writev).settle ((settles_enqueueWrite _ _).trans (settles_handled _ _))
  | vkRx b =>
      have hwrite : RingsWf ((pl.spliceTo a b).enqueueWrite a) :=
        h.spliceTo.settle (settles_enqueueWrite _ a)
      simp only [ProcLocal.forwardFromFd]
      split
      · exact hwrite.settle ((settles_enqueueWritereader _ a b).trans
          ((settles_enqueueRun _ _).trans (settles_handled _ a)))
      · exact hwrite.settle (settles_handled _ a)
  | vkTx b => exact h.settle (settles_setErrno _ _)

theorem RingsWf.handleForward (h : RingsWf pl) : RingsWf (pl.handleForward a os).pl := by
  cases href : (pl.sockets a).rxFd.ref with
  | osFd fd =>
      rw [ProcLocal.handleForward_osFd href]
      exact ((h.read os.readv).settle (settles_enqueueRead _ a)).forwardFromFd _
  | vkTx b =>
      rw [ProcLocal.handleForward_vkTx href]
      exact (h.spliceFrom.settle ((settles_enqueueRead _ a).trans
        (settles_enqueueReadwriter _ a b))).forwardTx _
  | vkRx b =>
      simp only [ProcLocal.handleForward, href]
      exact h.settle (settles_setErrno _ _)

theorem RingsWf.handleReadhup (h : RingsWf pl) : RingsWf (pl.handleReadhup a).pl := by
  cases href : (pl.sockets a).rxFd.ref with
  | osFd fd =>
      simp only [ProcLocal.handleReadhup, href]
      exact h.settle ((settles_enqueueRead _ _).trans (settles_handled _ _))
  | vkTx b =>
      rw [handleReadhup_eq href]
      split
      · exact ((h.setTx (wf_clearEof (h b).2)).setRx (wf_markEof (h a).1)).settle
          ((settles_enqueueRead _ a).trans ((settles_enqueueReadwriter _ a b).trans
            (settles_handled _ a)))
      · exact h.settle (settles_handled _ _)
  | vkRx b =>
      simp only [ProcLocal.handleReadhup, href]
      exact h.settle (settles_setErrno _ _)

theorem RingsWf.closeRx (h : RingsWf pl) (rc : SysResult Unit) : RingsWf (pl.closeRx a rc).pl := by
  cases href : (pl.sockets a).rxFd.ref with
  | osFd fd =>
      have hclose : RingsWf (pl.absorbRx a ((pl.sockets a).rx.close rc pl.errno)) :=
        h.absorbRx ((h a).1.of_close _ _)
      simp only [ProcLocal.closeRx, href]
      exact (hclose.setRx (wf_markClosed (hclose a).1)).settle
        ((settles_enqueueRead _ _).trans (settles_closed _ _))
  | vkTx b | vkRx b =>
      simp only [ProcLocal.closeRx, href]
      exact h.settle ((settles_enqueueRead _ _).trans (settles_closed _ _))

/-- The transmit side is closed by a call on its descriptor. -/
theorem RingsWf.closeTx (h : RingsWf pl) (rc : SysResult Unit) :
    let pl' := pl.absorbTx a ((pl.sockets a).tx.close rc pl.errno)
    RingsWf (((pl'.setTx a (pl'.sockets a).tx.markClosed).enqueueWrite a).closed a).pl := by
  have hclose : RingsWf (pl.absorbTx a ((pl.sockets a).tx.close rc pl.errno)) :=
    h.absorbTx ((h a).2.of_close _ _)
  exact (hclose.setTx (wf_markClosed (hclose a).2)).settle
    ((settles_enqueueWrite _ _).trans (settles_closed _ _))

theorem RingsWf.handleTxClose (h : RingsWf pl) : RingsWf (pl.handleTxClose a os).pl := by
  cases href : (pl.sockets a).txFd.ref with
  | osFd fd =>
      simp only [ProcLocal.handleTxClose, href]
      exact h.closeTx os.close
  | vkTx b | vkRx b =>
      simp only [ProcLocal.handleTxClose, href]
      exact (h.setTx (wf_markEof (h a).2)).settle ((settles_enqueueWrite _ _).trans
        ((settles_enqueueWritereader _ _ _).trans (settles_closed _ _)))

theorem RingsWf.handleTxShutdown (h : RingsWf pl) : RingsWf (pl.handleTxShutdown a os).pl := by
  cases href : (pl.sockets a).txFd.ref with
  | osFd fd =>
      simp only [ProcLocal.handleTxShutdown, href]
      exact h.closeTx os.shutdown
  | vkTx b | vkRx b =>
      simp only [ProcLocal.handleTxShutdown, href]
      exact h.settle ((settles_enqueueWrite _ _).trans (settles_closed _ _))

/-- One case for each operation. -/
theorem RingsWf.socketHandler (h : RingsWf pl) : RingsWf (pl.socketHandler a os).pl := by
  cases hop : (pl.sockets a).block.op <;> simp only [ProcLocal.socketHandler, hop]
  case none => exact h
  case read =>
      split
      · exact h.handleRead
      · split
        · exact h.handleRead.handleWrite
        · exact h.handleRead
  case write | flush => exact h.handleWrite
  case forward => exact h.handleForward
  case hup => exact h.settle (settles_handleHup pl a)
  case readhup => exact h.handleReadhup
  case txClose => exact h.handleTxClose
  case rxClose | rxShutdown => exact h.closeRx _
  case txShutdown => exact h.handleTxShutdown
  case readable => exact h.settle (settles_handleReadable pl a)
  case writable => exact h.settle (settles_handleWritable pl a)

theorem RingsWf.unflagged (h : RingsWf pl) (a : Nat) : RingsWf (pl.unflagged a) := by
  have hrx : RingsWf (pl.unflagRx a) := by
    unfold unflagRx
    split
    · exact h.setRx ((h a).1.setRxBlocked _)
    · exact h
  unfold ProcLocal.unflagged unflagTx
  split
  · exact hrx.setTx ((hrx a).2.setTxBlocked _)
  · exact hrx

end Handlers

/-! ## Coroutines -/

/-- From `pl` to `pl'` the rings stay well formed, and in their buffers. -/
structure KeepsWf (pl pl' : ProcLocal) : Prop where
  wf : RingsWf pl → RingsWf pl'
  rxLen : ∀ c, (pl'.sockets c).rx.bufLen = (pl.sockets c).rx.bufLen
  txLen : ∀ c, (pl'.sockets c).tx.bufLen = (pl.sockets c).tx.bufLen

section Coroutines

variable {pl pl' pl'' : ProcLocal} {m : Machine} {a t : Nat} {os : Os}

theorem KeepsWf.refl (pl : ProcLocal) : KeepsWf pl pl := ⟨id, fun _ => rfl, fun _ => rfl⟩

theorem KeepsWf.trans (h : KeepsWf pl pl') (h' : KeepsWf pl' pl'') : KeepsWf pl pl'' :=
  ⟨fun hwf => h'.wf (h.wf hwf), fun c => (h'.rxLen c).trans (h.rxLen c),
    fun c => (h'.txLen c).trans (h.txLen c)⟩

theorem keepsWf_of_eq (h : pl'.sockets = pl.sockets) : KeepsWf pl pl' :=
  ⟨fun hwf => hwf.of_eq h, fun _ => by rw [h], fun _ => by rw [h]⟩

theorem keepsWf_of_sameData (h : SameData pl pl') : KeepsWf pl pl' :=
  ⟨fun hwf => hwf.same h, fun c => (h.socket c).rx.bufLen, fun c => (h.socket c).tx.bufLen⟩

theorem keepsWf_of_settles (h : Settles pl pl') : KeepsWf pl pl' := keepsWf_of_sameData h.toSameData

theorem keepsWf_setRx {ring : Vectoring} (hwf : RingsWf pl → ring.Wf)
    (hlen : ring.bufLen = (pl.sockets a).rx.bufLen) : KeepsWf pl (pl.setRx a ring) := by
  refine ⟨fun h => h.setRx (hwf h), fun c => ?_, fun c => by rw [ProcLocal.setRx_tx]⟩
  rw [ProcLocal.setRx_rx]
  split
  · subst c
    exact hlen
  · rfl

theorem keepsWf_setTx {ring : Vectoring} (hwf : RingsWf pl → ring.Wf)
    (hlen : ring.bufLen = (pl.sockets a).tx.bufLen) : KeepsWf pl (pl.setTx a ring) := by
  refine ⟨fun h => h.setTx (hwf h), fun c => by rw [ProcLocal.setTx_rx], fun c => ?_⟩
  rw [ProcLocal.setTx_tx]
  split
  · subst c
    exact hlen
  · rfl

theorem keepsWf_updBlock (pl : ProcLocal) (a : Nat) (f : Block → Block) :
    KeepsWf pl (pl.updBlock a f) := by
  refine ⟨fun h => h.updBlock a f, fun c => ?_, fun c => ?_⟩
  all_goals rw [ProcLocal.updBlock, ProcLocal.updSocket_sockets]
  all_goals split
  · subst c
    rfl
  · rfl
  · subst c
    rfl
  · rfl

theorem keepsWf_blockCommit (pl : ProcLocal) (a : Nat) (rc : Int) : KeepsWf pl (pl.blockCommit a rc) :=
  keepsWf_updBlock pl a fun block => block.commit rc

theorem keepsWf_blockInit (pl : ProcLocal) (a buf len : Nat) (op : Op) :
    KeepsWf pl (pl.blockInit a buf len op) :=
  keepsWf_updBlock pl a fun block => block.init buf len op

theorem keepsWf_waitOn (pl : ProcLocal) (t a : Nat) : KeepsWf pl (pl.waitOn t a) := by
  have hwait : KeepsWf pl (pl.updThread t fun that =>
      { that with waitingSocketPtr := some a, status := .wait }) := keepsWf_of_eq rfl
  exact hwait.trans (keepsWf_updBlock _ a fun block => { block with blockedVk := t })

theorem keepsWf_unflagged (pl : ProcLocal) (a : Nat) : KeepsWf pl (pl.unflagged a) := by
  refine ⟨fun h => h.unflagged a, fun c => ?_, fun c => ?_⟩
  all_goals by_cases hc : c = a
  · subst hc
    obtain ⟨b, b', hself⟩ := unflagged_self pl c
    rw [hself]
    rfl
  · rw [unflagged_other pl hc]
  · subst hc
    obtain ⟨b, b', hself⟩ := unflagged_self pl c
    rw [hself]
    rfl
  · rw [unflagged_other pl hc]

theorem keepsWf_socketHandler (pl : ProcLocal) (a : Nat) (os : Os) :
    KeepsWf pl (pl.socketHandler a os).pl :=
  have hreach := ProcLocal.reach_socketHandler (a := a) pl os
  ⟨fun h => h.socketHandler, hreach.rxLen, hreach.txLen⟩

theorem keepsWf_handleReadhup (pl : ProcLocal) (a : Nat) : KeepsWf pl (pl.handleReadhup a).pl :=
  have hreach := ProcLocal.reach_handleReadhup (a := a) pl
  ⟨fun h => h.handleReadhup, hreach.rxLen, hreach.txLen⟩

theorem keepsWf_recvCommit (pl : ProcLocal) (a : Nat) : KeepsWf pl (pl.recvCommit a) := by
  have hmem : KeepsWf pl { pl with
      mem := ((pl.sockets a).rx.recv pl.mem (pl.sockets a).block.buf
        (pl.sockets a).block.getUncommitted).dst } := keepsWf_of_eq rfl
  refine (hmem.trans (keepsWf_setRx (fun h => ?_) ?_)).trans (keepsWf_blockCommit _ a _)
  · exact ((h a).1.recv_moved pl.mem (pl.sockets a).block.buf
      (pl.sockets a).block.getUncommitted).wf
  · exact Vectoring.bufLen_recv _ _ _ _

theorem keepsWf_sendCommit (pl : ProcLocal) (a : Nat) : KeepsWf pl (pl.sendCommit a) :=
  (keepsWf_setTx (fun h => (h a).2.of_send _ _ _) (Vectoring.bufLen_send _ _ _ _)).trans
    (keepsWf_blockCommit _ a _)

theorem keepsWf_forwardCommit (pl : ProcLocal) (a : Nat) : KeepsWf pl (pl.forwardCommit a) := by
  have hsplice := fun h : RingsWf pl => (h a).2.splice (h a).1
    (ProcLocal.ssize (pl.sockets a).block.getUncommitted) pl.errno
  have hlen := Vectoring.bufLen_splice (pl.sockets a).tx (pl.sockets a).rx
    (ProcLocal.ssize (pl.sockets a).block.getUncommitted) pl.errno
  refine KeepsWf.trans ?_ (keepsWf_blockCommit _ a _)
  refine KeepsWf.trans ?_ (keepsWf_of_settles (ProcLocal.settles_setErrno _ _))
  refine ⟨fun h => ?_, fun c => ?_, fun c => ?_⟩
  · obtain ⟨-, -, htx, hrx⟩ := hsplice h
    exact (h.setRx hrx.wf).setTx htx.wf
  · rw [ProcLocal.setTx_rx, ProcLocal.setRx_rx]
    split
    · subst c
      exact hlen.2
    · rfl
  · rw [ProcLocal.setTx_tx, ProcLocal.setRx_tx]
    split
    · subst c
      exact hlen.1
    · rfl

/-- One case for each loop. -/
theorem keepsWf_body (pl : ProcLocal) (k : IoLoop) (a : Nat) : KeepsWf pl ((k.loop a).body pl) := by
  cases k with
  | read => exact keepsWf_recvCommit pl a
  | readline =>
      have hline : KeepsWf pl (requestLine pl a) := keepsWf_updBlock pl a _
      exact hline.trans (keepsWf_recvCommit _ a)
  | pollread | hup => exact keepsWf_blockCommit pl a _
  | once => exact keepsWf_updBlock pl a fun block => block.setUncommitted 0
  | write => exact keepsWf_sendCommit pl a
  | flush | hupFlush => exact .refl pl
  | forward => exact keepsWf_forwardCommit pl a

theorem keepsWf_raise (m : Machine) (t : Nat) (e : Errno) : KeepsWf m.pl (m.raise t e).pl :=
  keepsWf_of_eq (Machine.raise_sockets m t e)

theorem keepsWf_leave (m : Machine) (t : Nat) (k : IoLoop) (a : Nat) :
    KeepsWf m.pl (m.leave t k a).pl := by
  by_cases hk : k = .hupFlush
  · subst k
    cases heof : (m.pl.sockets a).tx.eof with
    | true =>
        rw [Machine.leave_of_eof heof]
        have hset : KeepsWf m.pl ((m.pl.setTx a (m.pl.sockets a).tx).setErrno Errno.EINVAL) :=
          (keepsWf_setTx (fun h => (h a).2) rfl).trans
            (keepsWf_of_settles (ProcLocal.settles_setErrno _ _))
        exact hset.trans (keepsWf_raise { m with
          pl := (m.pl.setTx a (m.pl.sockets a).tx).setErrno Errno.EINVAL } t _)
    | false =>
        rw [Machine.leave_of_not_eof heof, Machine.setPos_pl]
        exact (keepsWf_setTx (fun h => ProcLocal.wf_markEof (h a).2)
          (Vectoring.bufLen_markEof _)).trans (keepsWf_blockInit _ a 0 1 .hup)
  · rw [Machine.leave_of_ne hk]
    exact .refl _

theorem keepsWf_turn (m : Machine) (t : Nat) (k : IoLoop) (a : Nat) :
    KeepsWf m.pl (m.turn t k a).pl := by
  have hbody := keepsWf_body m.pl k a
  have hturned := (k.loop a).turned m.pl
  unfold Machine.turn
  generalize (k.loop a).turn m.pl = outcome at hturned
  cases hturned with
  | left => exact keepsWf_leave m t k a
  | failed => exact hbody.trans (keepsWf_raise { m with pl := (k.loop a).body m.pl } t _)
  | done => exact hbody.trans (keepsWf_leave { m with pl := (k.loop a).body m.pl } t k a)
  | wait => exact hbody.trans (keepsWf_waitOn _ t a)
  | again => exact hbody

theorem keepsWf_call (m : Machine) (t : Nat) (c : IoCall) : KeepsWf m.pl (m.call t c).pl := by
  have henter : KeepsWf m.pl (c.enter m.pl) := by
    cases c with
    | once b op =>
        have hqueue : KeepsWf m.pl
            (if op = .readable ∨ op = .writable then m.pl.enqueueBlocked b else m.pl) := by
          split
          · exact keepsWf_of_settles (ProcLocal.settles_enqueueBlocked m.pl b)
          · exact .refl _
        exact hqueue.trans (keepsWf_blockInit _ b 0 1 op)
    | _ => exact keepsWf_blockInit _ _ _ _ _
  unfold Machine.call
  split
  · exact henter.trans (keepsWf_raise { m with pl := c.enter m.pl } t _)
  · exact henter

theorem keepsWf_readhup (m : Machine) (t a : Nat) : KeepsWf m.pl (m.readhup t a).pl := by
  unfold Machine.readhup
  split
  · have hhandled := keepsWf_handleReadhup m.pl a
    generalize (m.pl.handleReadhup a).pl = pl at hhandled
    have htaken : KeepsWf pl ((pl.setRx a ((pl.sockets a).rx.readhup pl.errno).ring).setErrno
        ((pl.sockets a).rx.readhup pl.errno).errno) := by
      have hrests := Vectoring.rests_readhup (pl.sockets a).rx pl.errno
      exact (keepsWf_setRx (fun h => hrests.wf (h a).1) hrests.bufLen).trans
        (keepsWf_of_settles (ProcLocal.settles_setErrno _ _))
    dsimp only
    split
    · exact (hhandled.trans htaken).trans (keepsWf_raise { m with
        pl := (pl.setRx a ((pl.sockets a).rx.readhup pl.errno).ring).setErrno
          ((pl.sockets a).rx.readhup pl.errno).errno } t _)
    · exact hhandled.trans htaken
  · exact keepsWf_raise m t _

end Coroutines

/-! ## Runs -/

section Runs

variable {a : Act} {as : List Act} {m m' : Machine}

/-- One case for each step. -/
theorem keepsWf_step (hstep : Machine.step a m = some m') : KeepsWf m.pl m'.pl := by
  cases Machine.stepped hstep with
  | start => exact .refl _
  | play hst u => exact keepsWf_of_settles (ProcLocal.settles_enqueueRun m.pl u)
  | answer hst b rx tx =>
      exact keepsWf_updBlock m.pl b fun block => { block with
        ioftRxRet := { block.ioftRxRet with event := rx }
        ioftTxRet := { block.ioftTxRet with event := tx } }
  | retry hst b os hb =>
      have hhandler : KeepsWf m.pl ((m.pl.unflagged b).socketHandler b os).pl :=
        (keepsWf_unflagged m.pl b).trans (keepsWf_socketHandler _ b os)
      dsimp only
      rw [ProcLocal.retrySocket_eq]
      split
      · exact hhandler
      · exact hhandler.trans ((keepsWf_of_sameData (ProcLocal.sameData_dropBlocked _ b)).trans
          (keepsWf_of_settles (ProcLocal.settles_enqueueRun _ _)))
  | exec phase hst => exact keepsWf_of_eq (Machine.execute_sockets m phase)
  | co u hst c m' hco =>
      cases Machine.coStepped hco with
      | turn k b hpos => exact keepsWf_turn m u k b
      | call hpos c hknown => exact keepsWf_call m u c
      | readhup hpos b => exact keepsWf_readhup m u b
      | play hpos v => exact keepsWf_of_settles (ProcLocal.settles_enqueueRun m.pl v)
      | store hpos mem => exact keepsWf_of_eq rfl
      | raise hpos e => exact keepsWf_raise m u e
      | stop hpos status hstatus => exact keepsWf_of_eq rfl
  | unblock u hst os =>
      dsimp only
      rcases ProcLocal.afterCall_cases m.pl u os with hsame | ⟨b, -, -, hhandler⟩
      · exact keepsWf_of_sameData hsame
      · rw [hhandler]
        have hclear : KeepsWf m.pl { m.pl with runningCr := none } := keepsWf_of_eq rfl
        exact hclear.trans (keepsWf_socketHandler _ b os)

/-- The places that the vectors of a ring cover are those of its buffer, each once. -/
def Vectoring.Partitioned (ring : Vectoring) (bufLen : Nat) : Prop :=
  (ring.txPlaces ++ ring.rxPlaces).Perm (List.range bufLen)

/-- In every run the vectors of every ring cover the buffer that it began with: what
`readv` writes over is none of what is queued, and both are in the buffer. -/
theorem rings_stay_partitioned (h : RingsWf m.pl) (hrun : run Machine.step as m = some m') (s : Nat) :
    (m'.pl.sockets s).rx.Partitioned (m.pl.sockets s).rx.bufLen ∧
      (m'.pl.sockets s).tx.Partitioned (m.pl.sockets s).tx.bufLen := by
  have hkeeps : KeepsWf m.pl m'.pl :=
    run_induction (I := fun m' => KeepsWf m.pl m'.pl)
      (fun _ _ _ h hstep => h.trans (keepsWf_step hstep)) (.refl m.pl) hrun
  obtain ⟨hrx, htx⟩ := hkeeps.wf h s
  refine ⟨?_, ?_⟩
  · rw [← hkeeps.rxLen s]
    exact hrx.partition
  · rw [← hkeeps.txLen s]
    exact htx.partition

end Runs

theorem ringsWf_pipeline : RingsWf pipeline.pl := joined_pipeline.wf

theorem rings_stay_partitioned_pipeline : ∃ m', run Machine.step writeThenRead pipeline = some m' ∧
    (m'.pl.sockets 1).rx.Partitioned Socket.bufLen ∧ (m'.pl.sockets 1).tx.Partitioned Socket.bufLen := by
  obtain ⟨m', hm'⟩ := Option.isSome_iff_exists.mp
    (by decide : (run Machine.step writeThenRead pipeline).isSome = true)
  exact ⟨m', hm', rings_stay_partitioned ringsWf_pipeline hm' 1⟩

end Vk

/-
# `Mnvkd.SocketHandlerSpec` — what waking and blocking leave alone

A handler transfers bytes and then wakes threads and queues sockets.  The
second half moves no byte and no flag: of a ring it changes the effect, of a
block the futures, and nothing else that a coroutine sees.  `SameData` says so
once, and `Settles` that besides threads have at most been set to run and sockets
at most queued; every function that only wakes or queues has one lemma here.
-/
import Mnvkd.SocketHandler
import Mnvkd.VectoringSpec

namespace Vk

open Lib

/-! ## Rings that differ in their effect -/

namespace Vectoring

variable {ring ring' : Vectoring}

/-- The same ring but for its effect. -/
def SameRing (ring ring' : Vectoring) : Prop := ring' = { ring with effect := ring'.effect }

theorem SameRing.refl (ring : Vectoring) : SameRing ring ring := rfl

theorem SameRing.trans {a b c : Vectoring} (h : SameRing a b) (h' : SameRing b c) :
    SameRing a c := by
  unfold SameRing at h h' ⊢
  rw [h', h]

theorem SameRing.wf (h : SameRing ring ring') (hwf : ring.Wf) : ring'.Wf := by
  rw [h]
  exact hwf.congr rfl rfl rfl rfl rfl hwf.error_nonneg

theorem SameRing.queue (h : SameRing ring ring') : ring'.queue = ring.queue := by rw [h]; rfl

theorem SameRing.eof (h : SameRing ring ring') : ring'.eof = ring.eof := by rw [h]

theorem SameRing.txLen (h : SameRing ring ring') : ring'.txLen = ring.txLen := by rw [h]

theorem SameRing.rxLen (h : SameRing ring ring') : ring'.rxLen = ring.rxLen := by rw [h]; rfl

theorem SameRing.bufLen (h : SameRing ring ring') : ring'.bufLen = ring.bufLen := by rw [h]

theorem SameRing.closed (h : SameRing ring ring') : ring'.closed = ring.closed := by rw [h]

theorem SameRing.rxBlocked (h : SameRing ring ring') : ring'.rxBlocked = ring.rxBlocked := by rw [h]

theorem SameRing.txBlocked (h : SameRing ring ring') : ring'.txBlocked = ring.txBlocked := by rw [h]

theorem SameRing.isEmpty (h : SameRing ring ring') : ring'.isEmpty = ring.isEmpty := by rw [h]; rfl

end Vectoring

open Vectoring (SameRing)

/-! ## The halves of a forward -/

namespace ProcLocal

variable {pl : ProcLocal} {s : Nat}

/-- The transmit half of a forward from another socket. -/
def forwardTx (pl : ProcLocal) (s : Nat) (os : Os) : PipeRef → Handled
  | .osFd _ => ((pl.absorbTx s ((pl.sockets s).tx.write os.writev pl.errno)).enqueueWrite s).handled s
  | .vkRx r => (((pl.spliceTo s r).enqueueWrite s).enqueueWritereader s r).handled s
  | .vkTx _ => pl.invalid

/-- And of one from a descriptor, which also wakes a reader whose ring was blocked. -/
def forwardFromFd (pl : ProcLocal) (s : Nat) (os : Os) : PipeRef → Handled
  | .osFd _ => ((pl.absorbTx s ((pl.sockets s).tx.write os.writev pl.errno)).enqueueWrite s).handled s
  | .vkRx r =>
      let pl := (pl.spliceTo s r).enqueueWrite s
      if (pl.sockets r).rx.rxBlocked then
        let pl := pl.enqueueWritereader s r
        (pl.enqueueRun (pl.blockedVk r)).handled s
      else pl.handled s
  | .vkTx _ => pl.invalid

theorem handleForward_osFd {fd : Int} (h : (pl.sockets s).rxFd.ref = .osFd fd) (os : Os) :
    pl.handleForward s os =
      ((pl.absorbRx s ((pl.sockets s).rx.read os.readv pl.errno)).enqueueRead s).forwardFromFd s os
        (pl.sockets s).txFd.ref := by
  simp only [handleForward, h]
  cases (pl.sockets s).txFd.ref <;> rfl

theorem handleForward_vkTx {w : Nat} (h : (pl.sockets s).rxFd.ref = .vkTx w) (os : Os) :
    pl.handleForward s os =
      (((pl.spliceFrom s w).enqueueRead s).enqueueReadwriter s w).forwardTx s os
        (pl.sockets s).txFd.ref := by
  simp only [handleForward, h]
  cases (pl.sockets s).txFd.ref <;> rfl

end ProcLocal

/-! ## Processes that differ in scheduling -/

/-- The same block but for what it registers with the poller. -/
structure SameBlock (block block' : Block) : Prop where
  op : block'.op = block.op
  buf : block'.buf = block.buf
  len : block'.len = block.len
  copied : block'.copied = block.copied
  rc : block'.rc = block.rc
  ioftRxRet : block'.ioftRxRet = block.ioftRxRet
  ioftTxRet : block'.ioftTxRet = block.ioftTxRet
  blockedVk : block'.blockedVk = block.blockedVk

theorem SameBlock.refl (block : Block) : SameBlock block block := ⟨rfl, rfl, rfl, rfl, rfl, rfl, rfl, rfl⟩

theorem SameBlock.trans {a b c : Block} (h : SameBlock a b) (h' : SameBlock b c) : SameBlock a c :=
  ⟨h'.op.trans h.op, h'.buf.trans h.buf, h'.len.trans h.len, h'.copied.trans h.copied,
    h'.rc.trans h.rc, h'.ioftRxRet.trans h.ioftRxRet, h'.ioftTxRet.trans h.ioftTxRet,
    h'.blockedVk.trans h.blockedVk⟩

/-- The same socket but for effects, registration and closed pipes. -/
structure SameSocket (socket socket' : Socket) : Prop where
  rx : SameRing socket.rx socket'.rx
  tx : SameRing socket.tx socket'.tx
  block : SameBlock socket.block socket'.block
  rxRef : socket'.rxFd.ref = socket.rxFd.ref
  rxType : socket'.rxFd.fdType = socket.rxFd.fdType
  txRef : socket'.txFd.ref = socket.txFd.ref
  txType : socket'.txFd.fdType = socket.txFd.fdType

theorem SameSocket.refl (socket : Socket) : SameSocket socket socket :=
  ⟨rfl, rfl, SameBlock.refl _, rfl, rfl, rfl, rfl⟩

theorem SameSocket.trans {a b c : Socket} (h : SameSocket a b) (h' : SameSocket b c) :
    SameSocket a c :=
  ⟨h.rx.trans h'.rx, h.tx.trans h'.tx, h.block.trans h'.block, h'.rxRef.trans h.rxRef,
    h'.rxType.trans h.rxType, h'.txRef.trans h.txRef, h'.txType.trans h.txType⟩

/-- The same memory and sockets; the threads, the queues and `errno` may differ. -/
structure SameData (pl pl' : ProcLocal) : Prop where
  mem : pl'.mem = pl.mem
  socket : ∀ w, SameSocket (pl.sockets w) (pl'.sockets w)

theorem SameData.refl (pl : ProcLocal) : SameData pl pl := ⟨rfl, fun _ => SameSocket.refl _⟩

theorem SameData.trans {a b c : ProcLocal} (h : SameData a b) (h' : SameData b c) : SameData a c :=
  ⟨h'.mem.trans h.mem, fun w => (h.socket w).trans (h'.socket w)⟩

/-- A change of one socket that keeps its data. -/
theorem sameData_of_update {pl pl' : ProcLocal} (s : Nat) {socket : Socket}
    (hm : pl'.mem = pl.mem) (hs : pl'.sockets = Function.update pl.sockets s socket)
    (h : SameSocket (pl.sockets s) socket) : SameData pl pl' := by
  refine ⟨hm, fun w => ?_⟩
  rw [hs, Function.update_apply]
  split
  · subst w
    exact h
  · exact SameSocket.refl _

theorem sameData_of_eq {pl pl' : ProcLocal} (hm : pl'.mem = pl.mem)
    (hs : pl'.sockets = pl.sockets) : SameData pl pl' :=
  ⟨hm, fun w => by rw [hs]; exact SameSocket.refl _⟩

/-- The same data; threads have been set to run or left alone, and sockets have
joined the blocked queue. -/
structure Settles (pl pl' : ProcLocal) : Prop extends SameData pl pl' where
  status : ∀ t, (pl'.threads t).status = (pl.threads t).status ∨ (pl'.threads t).status = .run
  waiting : ∀ t, (pl'.threads t).waitingSocketPtr = (pl.threads t).waitingSocketPtr
  blockedQ : ∀ s ∈ pl.blockedQ, s ∈ pl'.blockedQ

theorem Settles.refl (pl : ProcLocal) : Settles pl pl :=
  ⟨SameData.refl pl, fun _ => Or.inl rfl, fun _ => rfl, fun _ h => h⟩

theorem Settles.trans {a b c : ProcLocal} (h : Settles a b) (h' : Settles b c) : Settles a c := by
  refine ⟨h.toSameData.trans h'.toSameData, fun t => ?_,
    fun t => (h'.waiting t).trans (h.waiting t), fun s hs => h'.blockedQ s (h.blockedQ s hs)⟩
  rcases h'.status t with ht | ht
  · rw [ht]
    exact h.status t
  · exact Or.inr ht

theorem settles_of_update {pl pl' : ProcLocal} (s : Nat) {socket : Socket} (hm : pl'.mem = pl.mem)
    (ht : pl'.threads = pl.threads) (hs : pl'.sockets = Function.update pl.sockets s socket)
    (hq : ∀ s ∈ pl.blockedQ, s ∈ pl'.blockedQ) (h : SameSocket (pl.sockets s) socket) :
    Settles pl pl' :=
  ⟨sameData_of_update s hm hs h, fun _ => by rw [ht]; exact Or.inl rfl, fun _ => by rw [ht], hq⟩

theorem settles_updSocket (pl : ProcLocal) (s : Nat) {f : Socket → Socket}
    (h : SameSocket (pl.sockets s) (f (pl.sockets s))) : Settles pl (pl.updSocket s f) :=
  settles_of_update s rfl rfl rfl (fun _ h => h) h

namespace ProcLocal

variable (pl : ProcLocal) (t s w : Nat)

/-- To be readied is to be set to run, for one that has not ended. -/
theorem ready_cases (u : Nat) :
    (pl.ready t).threads u = pl.threads u ∨
      (pl.threads u).status ≠ .ended ∧ u = t ∧
        (pl.ready t).threads u = { pl.threads u with status := .run } := by
  rw [ready, updThread_threads]
  split
  · subst u
    split
    · exact Or.inl rfl
    · split
      · exact Or.inl rfl
      · exact Or.inr ⟨‹_›, rfl, rfl⟩
  · exact Or.inl rfl

theorem ready_status : ∀ u, ((pl.ready t).threads u).status = (pl.threads u).status ∨
    ((pl.ready t).threads u).status = .run := by
  intro u
  rcases ready_cases pl t u with hsame | ⟨-, -, hrun⟩
  · exact Or.inl (by rw [hsame])
  · exact Or.inr (by rw [hrun])

theorem ready_waiting (u : Nat) :
    ((pl.ready t).threads u).waitingSocketPtr = (pl.threads u).waitingSocketPtr := by
  rcases ready_cases pl t u with hsame | ⟨-, -, hrun⟩
  · rw [hsame]
  · rw [hrun]

theorem settles_ready : Settles pl (pl.ready t) :=
  ⟨sameData_of_eq rfl rfl, ready_status pl t, ready_waiting pl t, fun _ h => h⟩

theorem settles_enqueueRun : Settles pl (pl.enqueueRun t) := by
  have hready := settles_ready pl t
  unfold enqueueRun
  dsimp only
  split
  · refine hready.trans ⟨sameData_of_eq rfl rfl, fun u => Or.inl ?_, fun u => ?_, fun _ h => h⟩
    · rw [updThread_threads]
      split
      · subst u
        rfl
      · rfl
    · rw [updThread_threads]
      split
      · subst u
        rfl
      · rfl
  · exact hready

theorem sameSocket_blockedEnq (socket : Socket) (b : Bool) :
    SameSocket socket { socket with blockedEnq := b } :=
  ⟨rfl, rfl, SameBlock.refl _, rfl, rfl, rfl, rfl⟩

theorem settles_enqueueBlocked : Settles pl (pl.enqueueBlocked s) := by
  unfold enqueueBlocked
  split
  · exact Settles.refl pl
  · exact settles_of_update s rfl rfl rfl (fun _ h => List.mem_cons_of_mem _ h)
      (sameSocket_blockedEnq _ true)

theorem sameData_dropBlocked : SameData pl (pl.dropBlocked s) := by
  unfold dropBlocked
  dsimp only
  split
  · exact sameData_of_update s rfl rfl (sameSocket_blockedEnq _ false)
  · exact sameData_of_eq rfl rfl

theorem settles_setErrno (errno : Errno) : Settles pl (pl.setErrno errno) :=
  ⟨sameData_of_eq rfl rfl, fun _ => Or.inl rfl, fun _ => rfl, fun _ h => h⟩

theorem settles_handleError : Settles pl (pl.handleError s) :=
  settles_updSocket pl s (f := fun socket => { socket with error := pl.errno })
    ⟨rfl, rfl, SameBlock.refl _, rfl, rfl, rfl, rfl⟩

/-! ## Waking -/

theorem settles_handleRxEffect : Settles pl (pl.handleRxEffect s).1 :=
  settles_updSocket pl s (f := fun socket => { socket with rx := (pl.sockets s).rx.handleEffect.1 })
    ⟨rfl, rfl, SameBlock.refl _, rfl, rfl, rfl, rfl⟩

theorem settles_handleTxEffect : Settles pl (pl.handleTxEffect s).1 :=
  settles_updSocket pl s (f := fun socket => { socket with tx := (pl.sockets s).tx.handleEffect.1 })
    ⟨rfl, rfl, SameBlock.refl _, rfl, rfl, rfl, rfl⟩

theorem settles_enqueueSelf : Settles pl (pl.enqueueSelf s) := settles_ready pl _

theorem settles_enqueueOther : Settles pl (pl.enqueueOther w) :=
  (pl.settles_enqueueRun _).trans (settles_ready _ _)

theorem settles_enqueueRead : Settles pl (pl.enqueueRead s) := by
  unfold enqueueRead
  dsimp only
  split
  · exact (pl.settles_handleRxEffect s).trans (settles_enqueueSelf _ _)
  · exact pl.settles_handleRxEffect s

theorem settles_enqueueWrite : Settles pl (pl.enqueueWrite s) := by
  unfold enqueueWrite
  dsimp only
  split
  · exact (pl.settles_handleTxEffect s).trans (settles_enqueueSelf _ _)
  · exact pl.settles_handleTxEffect s

theorem settles_enqueueReadwriter : Settles pl (pl.enqueueReadwriter s w) := by
  unfold enqueueReadwriter
  dsimp only
  split
  · exact (pl.settles_handleTxEffect w).trans
      ((settles_enqueueOther _ _).trans (settles_enqueueSelf _ _))
  · exact pl.settles_handleTxEffect w

theorem settles_enqueueWritereader : Settles pl (pl.enqueueWritereader s w) := by
  unfold enqueueWritereader
  dsimp only
  split
  · exact (pl.settles_handleRxEffect w).trans
      ((settles_enqueueOther _ _).trans (settles_enqueueSelf _ _))
  · exact pl.settles_handleRxEffect w

/-! ## Blocking -/

theorem sameSocket_forwardClosed (socket : Socket) : SameSocket socket (forwardClosed socket) :=
  ⟨rfl, rfl, ⟨rfl, rfl, rfl, rfl, rfl, rfl, rfl, rfl⟩, rfl, rfl, rfl, rfl⟩

theorem sameSocket_setReadEvents (socket : Socket) (events : Events) :
    SameSocket socket (socket.setReadEvents events) :=
  ⟨rfl, rfl, ⟨rfl, rfl, rfl, rfl, rfl, rfl, rfl, rfl⟩, rfl, rfl, rfl, rfl⟩

theorem sameSocket_setWriteEvents (socket : Socket) (events : Events) :
    SameSocket socket (socket.setWriteEvents events) :=
  ⟨rfl, rfl, ⟨rfl, rfl, rfl, rfl, rfl, rfl, rfl, rfl⟩, rfl, rfl, rfl, rfl⟩

theorem settles_handleBlock : Settles pl (pl.handleBlock s) := by
  have hside : ∀ (pl : ProcLocal) (p : Prop) [Decidable p] {f g : Socket → Socket},
      (∀ socket, SameSocket socket (f socket)) → (∀ socket, SameSocket socket (g socket)) →
      Settles pl (if p then (pl.updSocket s f).enqueueBlocked s else pl.updSocket s g) := by
    intro pl p _ f g hf hg
    split
    · exact (settles_updSocket pl s (hf _)).trans (settles_enqueueBlocked _ _)
    · exact settles_updSocket pl s (hg _)
  unfold handleBlock
  exact (settles_updSocket pl s (sameSocket_forwardClosed _)).trans
    ((hside _ _ (fun _ => sameSocket_setReadEvents _ _) fun _ => sameSocket_setReadEvents _ _).trans
      (hside _ _ (fun _ => sameSocket_setWriteEvents _ _) fun _ => sameSocket_setWriteEvents _ _))

/-! ## Hang-up -/

/-- Whether what a socket reads from has signalled its end, drained or not:
`getReaderNodata` as it is once the socket's own ring is empty. -/
def hupSignalled (pl : ProcLocal) (s : Nat) : Bool :=
  match (pl.sockets s).rxFd.getSocket with
  | none =>
      (pl.sockets s).rx.eof ||
        ((pl.sockets s).block.ioftRxRet.rxClosed &&
          (pl.sockets s).block.ioftRxRet.readable == 0)
  | some w => (pl.sockets w).nodataTx

theorem pollhup_eq : pl.pollhup s = ((pl.sockets s).empty && pl.hupSignalled s) := by
  unfold pollhup getReaderNodata hupSignalled
  cases (pl.sockets s).rxFd.getSocket with
  | some w => rfl
  | none =>
      show ((pl.sockets s).rx.isEmpty && ((pl.sockets s).rx.eof && (pl.sockets s).rx.isEmpty || _))
        = ((pl.sockets s).rx.isEmpty && _)
      cases (pl.sockets s).rx.isEmpty <;> simp

variable {pl s}

theorem pollhup_of_queue (h : (pl.sockets s).rx.Wf) :
    pl.pollhup s = true ↔ (pl.sockets s).rx.queue = [] ∧ pl.hupSignalled s = true := by
  rw [pollhup_eq, Bool.and_eq_true, Socket.empty, h.isEmpty_iff]

/-- The end of the stream is signalled by the pipe, the ring's EOF, the poller's
answer, and the transmit rings. -/
theorem hupSignalled_congr {pl' : ProcLocal}
    (hsocket : (pl'.sockets s).rxFd.ref = (pl.sockets s).rxFd.ref)
    (heof : (pl'.sockets s).rx.eof = (pl.sockets s).rx.eof)
    (hret : (pl'.sockets s).block.ioftRxRet = (pl.sockets s).block.ioftRxRet)
    (htx : ∀ w, (pl'.sockets w).nodataTx = (pl.sockets w).nodataTx) :
    pl'.hupSignalled s = pl.hupSignalled s := by
  have hsocket : (pl'.sockets s).rxFd.getSocket = (pl.sockets s).rxFd.getSocket := by
    rw [Pipe.getSocket, hsocket, Pipe.getSocket]
  unfold hupSignalled
  rw [hsocket, heof, hret]
  cases (pl.sockets s).rxFd.getSocket with
  | none => rfl
  | some w => exact htx w

theorem hupSignalled_of_sameData {pl' : ProcLocal} (h : SameData pl pl') (s : Nat) :
    pl'.hupSignalled s = pl.hupSignalled s := by
  refine hupSignalled_congr (h.socket s).rxRef (h.socket s).rx.eof (h.socket s).block.ioftRxRet
    fun w => ?_
  rw [Socket.nodataTx, Vectoring.hasNodata, (h.socket w).tx.eof, (h.socket w).tx.isEmpty]
  rfl

/-! ## Transfers -/

variable (pl s)

section SetRing
variable (ring : Vectoring)

@[simp] theorem setRx_rx_self : ((pl.setRx s ring).sockets s).rx = ring := by
  rw [setRx, updSocket_sockets_self]

@[simp] theorem setTx_tx_self : ((pl.setTx s ring).sockets s).tx = ring := by
  rw [setTx, updSocket_sockets_self]

theorem setRx_rx : ((pl.setRx s ring).sockets w).rx = if w = s then ring else (pl.sockets w).rx := by
  rw [setRx, updSocket_sockets]
  split <;> rfl

theorem setTx_tx : ((pl.setTx s ring).sockets w).tx = if w = s then ring else (pl.sockets w).tx := by
  rw [setTx, updSocket_sockets]
  split <;> rfl

/-- What a change of one ring leaves of every socket. -/
theorem setRx_rest : ((pl.setRx s ring).sockets w).tx = (pl.sockets w).tx ∧
    ((pl.setRx s ring).sockets w).block = (pl.sockets w).block ∧
    ((pl.setRx s ring).sockets w).rxFd = (pl.sockets w).rxFd ∧
    ((pl.setRx s ring).sockets w).txFd = (pl.sockets w).txFd ∧
    ((pl.setRx s ring).sockets w).blockedEnq = (pl.sockets w).blockedEnq := by
  rw [setRx, updSocket_sockets]
  split
  · subst w
    exact ⟨rfl, rfl, rfl, rfl, rfl⟩
  · exact ⟨rfl, rfl, rfl, rfl, rfl⟩

theorem setTx_rest : ((pl.setTx s ring).sockets w).rx = (pl.sockets w).rx ∧
    ((pl.setTx s ring).sockets w).block = (pl.sockets w).block ∧
    ((pl.setTx s ring).sockets w).rxFd = (pl.sockets w).rxFd ∧
    ((pl.setTx s ring).sockets w).txFd = (pl.sockets w).txFd ∧
    ((pl.setTx s ring).sockets w).blockedEnq = (pl.sockets w).blockedEnq := by
  rw [setTx, updSocket_sockets]
  split
  · subst w
    exact ⟨rfl, rfl, rfl, rfl, rfl⟩
  · exact ⟨rfl, rfl, rfl, rfl, rfl⟩

@[simp] theorem setRx_tx : ((pl.setRx s ring).sockets w).tx = (pl.sockets w).tx :=
  (setRx_rest pl s w ring).1

@[simp] theorem setTx_rx : ((pl.setTx s ring).sockets w).rx = (pl.sockets w).rx :=
  (setTx_rest pl s w ring).1

@[simp] theorem setRx_block : ((pl.setRx s ring).sockets w).block = (pl.sockets w).block :=
  (setRx_rest pl s w ring).2.1

@[simp] theorem setTx_block : ((pl.setTx s ring).sockets w).block = (pl.sockets w).block :=
  (setTx_rest pl s w ring).2.1

@[simp] theorem setRx_rxFd : ((pl.setRx s ring).sockets w).rxFd = (pl.sockets w).rxFd :=
  (setRx_rest pl s w ring).2.2.1

@[simp] theorem setTx_rxFd : ((pl.setTx s ring).sockets w).rxFd = (pl.sockets w).rxFd :=
  (setTx_rest pl s w ring).2.2.1

@[simp] theorem setRx_txFd : ((pl.setRx s ring).sockets w).txFd = (pl.sockets w).txFd :=
  (setRx_rest pl s w ring).2.2.2.1

@[simp] theorem setTx_txFd : ((pl.setTx s ring).sockets w).txFd = (pl.sockets w).txFd :=
  (setTx_rest pl s w ring).2.2.2.1

end SetRing

/-- What a call leaves is the ring it returned, and the rest. -/
theorem settles_absorbRx (io : Io) : Settles (pl.setRx s io.ring) (pl.absorbRx s io) := by
  unfold absorbRx
  dsimp only
  split
  · exact (settles_setErrno _ _).trans (settles_handleError _ _)
  · exact settles_setErrno _ _

theorem settles_absorbTx (io : Io) : Settles (pl.setTx s io.ring) (pl.absorbTx s io) := by
  unfold absorbTx
  dsimp only
  split
  · exact (settles_setErrno _ _).trans (settles_handleError _ _)
  · exact settles_setErrno _ _

/-- What is spliced from socket `w` to socket `r`. -/
def spliced (pl : ProcLocal) (w r : Nat) : ProcLocal :=
  (pl.setTx w ((pl.sockets r).rx.splice (pl.sockets w).tx (-1) pl.errno).tx).setRx r
    ((pl.sockets r).rx.splice (pl.sockets w).tx (-1) pl.errno).rx

theorem settles_spliceFrom : Settles (pl.spliced w s) (pl.spliceFrom s w) := by
  unfold spliceFrom
  dsimp only
  split
  · exact (settles_setErrno _ _).trans (settles_handleError _ _)
  · exact settles_setErrno _ _

theorem settles_spliceTo (r : Nat) : Settles (pl.spliced s r) (pl.spliceTo s r) := by
  unfold spliceTo
  dsimp only
  split
  · exact (settles_setErrno _ _).trans (settles_handleError _ _)
  · exact settles_setErrno _ _

/-- A read of a descriptor is a read of its ring. -/
theorem sameData_handleRead_osFd {fd : Int} (os : Os) (h : (pl.sockets s).rxFd.ref = .osFd fd)
    (htype : (pl.sockets s).rxFd.fdType ≠ .socketListen) :
    SameData (pl.setRx s ((pl.sockets s).rx.read os.readv pl.errno).ring) (pl.handleRead s os).pl := by
  have hread : pl.handleRead s os
      = ((pl.absorbRx s ((pl.sockets s).rx.read os.readv pl.errno)).enqueueRead s).handled s := by
    simp only [handleRead, h, if_neg htype]
  rw [hread]
  exact ((settles_absorbRx pl s _).trans
    ((settles_enqueueRead _ _).trans (settles_handleBlock _ _))).toSameData

/-- A read of another socket is a splice from it. -/
theorem sameData_handleRead_vkTx (os : Os) (h : (pl.sockets s).rxFd.ref = .vkTx w) :
    SameData (pl.spliced w s) (pl.handleRead s os).pl := by
  have hread : pl.handleRead s os
      = (((pl.spliceFrom s w).enqueueRead s).enqueueReadwriter s w).handled s := by
    simp only [handleRead, h]
  rw [hread]
  exact ((settles_spliceFrom pl s w).trans ((settles_enqueueRead _ _).trans
    ((settles_enqueueReadwriter _ _ _).trans (settles_handleBlock _ _)))).toSameData

end ProcLocal

end Vk

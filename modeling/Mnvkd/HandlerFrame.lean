/-
# `Mnvkd.HandlerFrame` — what every handler leaves alone

Whatever a handler does to rings, it leaves memory alone and what every block is
for; it sets threads to run at most, and queues sockets at most (`Handles`).
-/
import Mnvkd.Execute
import Mnvkd.SocketHandlerSpec

namespace Vk

open Lib

/-- The same memory, the same blocks and the same wiring; threads have been set to
run or left alone, and sockets have joined the blocked queue. -/
structure Handles (pl pl' : ProcLocal) : Prop where
  mem : pl'.mem = pl.mem
  block : ∀ s, SameBlock (pl.sockets s).block (pl'.sockets s).block
  rxRef : ∀ s, (pl'.sockets s).rxFd.ref = (pl.sockets s).rxFd.ref
  txRef : ∀ s, (pl'.sockets s).txFd.ref = (pl.sockets s).txFd.ref
  status : ∀ t, (pl'.threads t).status = (pl.threads t).status ∨ (pl'.threads t).status = .run
  waiting : ∀ t, (pl'.threads t).waitingSocketPtr = (pl.threads t).waitingSocketPtr
  blockedQ : ∀ s ∈ pl.blockedQ, s ∈ pl'.blockedQ

theorem Settles.handles {pl pl' : ProcLocal} (h : Settles pl pl') : Handles pl pl' :=
  ⟨h.mem, fun s => (h.socket s).block, fun s => (h.socket s).rxRef, fun s => (h.socket s).txRef,
    h.status, h.waiting, h.blockedQ⟩

theorem Handles.trans {a b c : ProcLocal} (h : Handles a b) (h' : Handles b c) : Handles a c := by
  refine ⟨h'.mem.trans h.mem, fun s => (h.block s).trans (h'.block s),
    fun s => (h'.rxRef s).trans (h.rxRef s), fun s => (h'.txRef s).trans (h.txRef s), fun t => ?_,
    fun t => (h'.waiting t).trans (h.waiting t), fun s hs => h'.blockedQ s (h.blockedQ s hs)⟩
  rcases h'.status t with ht | ht
  · rw [ht]
    exact h.status t
  · exact Or.inr ht

theorem Handles.settle {a b c : ProcLocal} (h : Handles a b) (h' : Settles b c) : Handles a c :=
  h.trans h'.handles

namespace ProcLocal

variable (pl : ProcLocal) (s : Nat) (os : Os)

theorem handles_setRx (ring : Vectoring) : Handles pl (pl.setRx s ring) :=
  ⟨rfl, fun a => by rw [setRx_block]; exact SameBlock.refl _,
    fun a => congrArg Pipe.ref (pl.setRx_rxFd s a ring),
    fun a => congrArg Pipe.ref (pl.setRx_txFd s a ring), fun _ => Or.inl rfl, fun _ => rfl,
    fun _ h => h⟩

theorem handles_setTx (ring : Vectoring) : Handles pl (pl.setTx s ring) :=
  ⟨rfl, fun a => by rw [setTx_block]; exact SameBlock.refl _,
    fun a => congrArg Pipe.ref (pl.setTx_rxFd s a ring),
    fun a => congrArg Pipe.ref (pl.setTx_txFd s a ring), fun _ => Or.inl rfl, fun _ => rfl,
    fun _ h => h⟩

theorem handles_absorbRx (io : Io) : Handles pl (pl.absorbRx s io) :=
  (handles_setRx pl s io.ring).settle (settles_absorbRx pl s io)

theorem handles_absorbTx (io : Io) : Handles pl (pl.absorbTx s io) :=
  (handles_setTx pl s io.ring).settle (settles_absorbTx pl s io)

theorem handles_spliced (a b : Nat) : Handles pl (pl.spliced a b) :=
  ((handles_setTx pl a _).trans (handles_setRx _ b _)).settle (settles_setErrno _ _)

theorem handles_spliceFrom (a : Nat) : Handles pl (pl.spliceFrom s a) :=
  (handles_spliced pl a s).settle (settles_spliceFrom pl s a)

theorem handles_spliceTo (b : Nat) : Handles pl (pl.spliceTo s b) :=
  (handles_spliced pl s b).settle (settles_spliceTo pl s b)

theorem settles_handled : Settles pl (pl.handled s).pl :=
  settles_handleBlock pl s

theorem settles_closed : Settles pl (pl.closed s).pl :=
  (settles_handleBlock pl s).trans (settles_enqueueSelf _ _)

/-! ## The handlers -/

theorem handles_handleRead : Handles pl (pl.handleRead s os).pl := by
  cases href : (pl.sockets s).rxFd.ref with
  | osFd fd =>
      simp only [handleRead, href]
      refine Handles.settle ?_ ((settles_enqueueRead _ _).trans (settles_handled _ _))
      split
      · exact handles_absorbRx pl s _
      · exact handles_absorbRx pl s _
  | vkTx a =>
      simp only [handleRead, href]
      exact (handles_spliceFrom pl s a).settle ((settles_enqueueRead _ _).trans
        ((settles_enqueueReadwriter _ _ _).trans (settles_handled _ _)))
  | vkRx a =>
      simp only [handleRead, href]
      exact ((settles_setErrno _ _).trans (settles_handleBlock _ _)).handles

theorem handles_handleWrite : Handles pl (pl.handleWrite s os).pl := by
  cases href : (pl.sockets s).txFd.ref with
  | osFd fd =>
      simp only [handleWrite, href]
      exact (handles_absorbTx pl s _).settle ((settles_enqueueWrite _ _).trans (settles_handled _ _))
  | vkRx b =>
      simp only [handleWrite, href]
      exact (handles_spliceTo pl s b).settle ((settles_enqueueWrite _ _).trans
        ((settles_enqueueWritereader _ _ _).trans (settles_handled _ _)))
  | vkTx b =>
      simp only [handleWrite, href]
      exact ((settles_setErrno _ _).trans (settles_handleBlock _ _)).handles

/-- The transmit half of a forward from a descriptor. -/
theorem handles_forwardFromFd {pl : ProcLocal} {s : Nat} {os : Os} (ref : PipeRef) :
    Handles pl (pl.forwardFromFd s os ref).pl := by
  cases ref with
  | osFd fd =>
      exact (handles_absorbTx pl s _).settle ((settles_enqueueWrite _ _).trans (settles_handled _ _))
  | vkRx b =>
      have hwrite := (handles_spliceTo pl s b).settle (settles_enqueueWrite _ s)
      simp only [forwardFromFd]
      split
      · exact hwrite.settle ((settles_enqueueWritereader _ s b).trans
          ((settles_enqueueRun _ _).trans (settles_handled _ s)))
      · exact hwrite.settle (settles_handled _ s)
  | vkTx b => exact (settles_setErrno _ _).handles

/-- The transmit half of a forward from another socket. -/
theorem handles_forwardTx {pl : ProcLocal} {s : Nat} {os : Os} (ref : PipeRef) :
    Handles pl (pl.forwardTx s os ref).pl := by
  cases ref with
  | osFd fd =>
      exact (handles_absorbTx pl s _).settle ((settles_enqueueWrite _ _).trans (settles_handled _ _))
  | vkRx b =>
      exact (handles_spliceTo pl s b).settle ((settles_enqueueWrite _ _).trans
        ((settles_enqueueWritereader _ _ _).trans (settles_handled _ _)))
  | vkTx b => exact (settles_setErrno _ _).handles

theorem handles_handleForward : Handles pl (pl.handleForward s os).pl := by
  cases href : (pl.sockets s).rxFd.ref with
  | osFd fd =>
      rw [handleForward_osFd href]
      exact ((handles_absorbRx pl s _).settle (settles_enqueueRead _ s)).trans
        (handles_forwardFromFd _)
  | vkTx a =>
      rw [handleForward_vkTx href]
      exact ((handles_spliceFrom pl s a).settle ((settles_enqueueRead _ s).trans
        (settles_enqueueReadwriter _ s a))).trans (handles_forwardTx _)
  | vkRx a =>
      simp only [handleForward, href]
      exact (settles_setErrno _ _).handles

theorem settles_handleHup : Settles pl (pl.handleHup s).pl := by
  cases href : (pl.sockets s).txFd.ref with
  | osFd fd =>
      simp only [handleHup, href]
      exact (settles_enqueueWrite _ s).trans (settles_handled _ s)
  | vkRx b =>
      simp only [handleHup, href]
      split
      · exact (settles_enqueueWrite _ s).trans
          ((settles_enqueueWritereader _ s b).trans (settles_handled _ s))
      · exact settles_handled _ s
  | vkTx b =>
      simp only [handleHup, href]
      exact settles_setErrno _ _

theorem handles_closeRx (rc : SysResult Unit) : Handles pl (pl.closeRx s rc).pl := by
  cases href : (pl.sockets s).rxFd.ref with
  | osFd fd =>
      simp only [closeRx, href]
      exact ((handles_absorbRx pl s _).trans (handles_setRx _ s _)).settle
        ((settles_enqueueRead _ _).trans (settles_closed _ _))
  | vkTx a | vkRx a =>
      simp only [closeRx, href]
      exact ((settles_enqueueRead _ _).trans (settles_closed _ _)).handles

theorem handles_handleTxClose : Handles pl (pl.handleTxClose s os).pl := by
  cases href : (pl.sockets s).txFd.ref with
  | osFd fd =>
      simp only [handleTxClose, href]
      exact ((handles_absorbTx pl s _).trans (handles_setTx _ s _)).settle
        ((settles_enqueueWrite _ _).trans (settles_closed _ _))
  | vkTx b | vkRx b =>
      simp only [handleTxClose, href]
      exact (handles_setTx pl s _).settle ((settles_enqueueWrite _ _).trans
        ((settles_enqueueWritereader _ _ _).trans (settles_closed _ _)))

theorem handles_handleTxShutdown : Handles pl (pl.handleTxShutdown s os).pl := by
  cases href : (pl.sockets s).txFd.ref with
  | osFd fd =>
      simp only [handleTxShutdown, href]
      exact ((handles_absorbTx pl s _).trans (handles_setTx _ s _)).settle
        ((settles_enqueueWrite _ _).trans (settles_closed _ _))
  | vkTx b | vkRx b =>
      simp only [handleTxShutdown, href]
      exact ((settles_enqueueWrite _ _).trans (settles_closed _ _)).handles

/-- A hang-up that is read is taken off the ring of the socket it is read from. -/
theorem handleReadhup_eq {pl : ProcLocal} {s a : Nat} (href : (pl.sockets s).rxFd.ref = .vkTx a) :
    pl.handleReadhup s =
      if (pl.sockets a).tx.eof then
        (((((pl.setTx a (pl.sockets a).tx.clearEof).setRx s (pl.sockets s).rx.markEof).enqueueRead s
          ).enqueueReadwriter s a).handled s)
      else pl.handled s := by
  by_cases heof : (pl.sockets a).tx.eof = true
  · simp only [handleReadhup, href, Vectoring.forwardhup, if_pos heof, if_true]
  · simp only [handleReadhup, href, Vectoring.forwardhup, if_neg heof, Bool.false_eq_true, if_false]

theorem handles_handleReadhup : Handles pl (pl.handleReadhup s).pl := by
  cases href : (pl.sockets s).rxFd.ref with
  | osFd fd =>
      simp only [handleReadhup, href]
      exact ((settles_enqueueRead _ _).trans (settles_handled _ _)).handles
  | vkTx a =>
      rw [handleReadhup_eq href]
      split
      · exact ((handles_setTx pl a _).trans (handles_setRx _ s _)).settle
          ((settles_enqueueRead _ s).trans ((settles_enqueueReadwriter _ s a).trans
            (settles_handled _ s)))
      · exact (settles_handled _ _).handles
  | vkRx a =>
      simp only [handleReadhup, href]
      exact (settles_setErrno _ _).handles

theorem settles_handleReadable : Settles pl (pl.handleReadable s).pl :=
  (settles_updSocket pl s (sameSocket_setReadEvents _ _)).trans
    (settles_updSocket _ s (sameSocket_setWriteEvents _ _))

theorem settles_handleWritable : Settles pl (pl.handleWritable s).pl :=
  (settles_updSocket pl s (sameSocket_setWriteEvents _ _)).trans
    (settles_updSocket _ s (sameSocket_setReadEvents _ _))

theorem handles_socketHandler : Handles pl (pl.socketHandler s os).pl := by
  cases hop : (pl.sockets s).block.op <;> simp only [socketHandler, hop]
  case none => exact (Settles.refl pl).handles
  case read =>
      have hread := handles_handleRead pl s os
      split
      · exact hread
      · split
        · exact hread.trans (handles_handleWrite _ s os)
        · exact hread
  case write => exact handles_handleWrite pl s os
  case forward => exact handles_handleForward pl s os
  case flush => exact handles_handleWrite pl s os
  case hup => exact (settles_handleHup pl s).handles
  case readhup => exact handles_handleReadhup pl s
  case txClose => exact handles_handleTxClose pl s os
  case rxClose => exact handles_closeRx pl s _
  case rxShutdown => exact handles_closeRx pl s _
  case txShutdown => exact handles_handleTxShutdown pl s os
  case readable => exact (settles_handleReadable pl s).handles
  case writable => exact (settles_handleWritable pl s).handles

/-! ## Their callers -/

/-- A retry begins by clearing the flags that the poller has answered for. -/
def unflagRx (pl : ProcLocal) (s : Nat) : ProcLocal :=
  if (pl.sockets s).block.ioftRxRet.event.revents.any (POLLIN ||| POLLRDHUP ||| POLLERR) then
    pl.updSocket s fun socket => { socket with rx := socket.rx.setRxBlocked false }
  else pl

def unflagTx (pl : ProcLocal) (s : Nat) : ProcLocal :=
  if (pl.sockets s).block.ioftTxRet.event.revents.any (POLLOUT ||| POLLHUP) then
    pl.updSocket s fun socket => { socket with tx := socket.tx.setTxBlocked false }
  else pl

def unflagged (pl : ProcLocal) (s : Nat) : ProcLocal := (pl.unflagRx s).unflagTx s

theorem retrySocket_eq : pl.retrySocket s os =
    if ((pl.unflagged s).socketHandler s os).rc = -1 then (pl.unflagged s).socketHandler s os
    else ⟨(((pl.unflagged s).socketHandler s os).pl.dropBlocked s).enqueueRun (pl.blockedVk s), 0⟩ :=
  rfl

theorem handles_unflagged : Handles pl (pl.unflagged s) := by
  have hrx : Handles pl (pl.unflagRx s) := by
    unfold unflagRx
    split
    · exact handles_setRx pl s ((pl.sockets s).rx.setRxBlocked false)
    · exact (Settles.refl pl).handles
  refine hrx.trans ?_
  unfold unflagged unflagTx
  split
  · exact handles_setTx _ s (((pl.unflagRx s).sockets s).tx.setTxBlocked false)
  · exact (Settles.refl _).handles

theorem sameData_dropBlockedFor (pl : ProcLocal) (t : Nat) : SameData pl (pl.dropBlockedFor t) := by
  unfold dropBlockedFor
  generalize pl.blockedQ = queue
  induction queue generalizing pl with
  | nil => exact SameData.refl pl
  | cons s queue ih =>
      rw [List.foldl_cons]
      split
      · exact (sameData_dropBlocked pl s).trans (ih _)
      · exact ih pl

theorem sameData_dropRun (pl : ProcLocal) (t : Nat) : SameData pl (pl.dropRun t) := by
  refine sameData_of_eq ?_ ?_
  · unfold dropRun
    dsimp only
    split <;> rfl
  · unfold dropRun
    dsimp only
    split <;> rfl

/-- A thread that comes back after its end changes no data; one that waits has
its operation applied, and others do nothing. -/
theorem afterCall_cases (pl : ProcLocal) (t : Nat) (os : Os) :
    SameData pl (pl.afterCall t os).pl ∨
    ∃ s, (pl.threads t).status = .wait ∧ (pl.threads t).waitingSocketPtr = some s ∧
      (pl.afterCall t os).pl = (({ pl with runningCr := none } : ProcLocal).socketHandler s os).pl := by
  unfold afterCall
  dsimp only
  split
  · left
    have hdrop : SameData pl (dropBlockedFor { pl with runningCr := none } t) :=
      SameData.trans (sameData_of_eq (by rfl) (by rfl))
        (sameData_dropBlockedFor { pl with runningCr := none } t)
    split
    · exact hdrop.trans (sameData_dropRun _ t)
    · exact hdrop
  · unfold unblock
    dsimp only
    split
    · rename_i hwait
      cases hs : (pl.threads t).waitingSocketPtr with
      | none => exact Or.inl (sameData_of_eq rfl rfl)
      | some s => exact Or.inr ⟨s, hwait, rfl, rfl⟩
    · exact Or.inl (sameData_of_eq rfl rfl)

/-- The handler of a thread that comes back waiting for socket `s`. -/
theorem afterCall_of_wait {pl : ProcLocal} {t s : Nat} {os : Os}
    (hwait : (pl.threads t).status = .wait) (hs : (pl.threads t).waitingSocketPtr = some s) :
    (pl.afterCall t os).pl = (({ pl with runningCr := none } : ProcLocal).socketHandler s os).pl := by
  unfold afterCall unblock
  simp only [hwait, hs, reduceCtorEq, if_false]

theorem sameBlock_retrySocket (a : Nat) :
    SameBlock (pl.sockets a).block ((pl.retrySocket s os).pl.sockets a).block := by
  have hhandler := (handles_unflagged pl s).trans (handles_socketHandler _ s os)
  rw [retrySocket_eq]
  split
  · exact hhandler.block a
  · exact (hhandler.block a).trans (((sameData_dropBlocked _ s).trans
      (settles_enqueueRun _ _).toSameData).socket a).block

theorem sameBlock_afterCall (t a : Nat) :
    SameBlock (pl.sockets a).block ((pl.afterCall t os).pl.sockets a).block := by
  rcases afterCall_cases pl t os with hsame | ⟨s, -, -, hs⟩
  · exact (hsame.socket a).block
  · rw [hs]
    exact (handles_socketHandler { pl with runningCr := none } s os).block a

/-! ### Threads -/

/-- Threads have been set to run, or keep their status. -/
def Rouses (pl pl' : ProcLocal) : Prop :=
  ∀ t, (pl'.threads t).status = (pl.threads t).status ∨ (pl'.threads t).status = .run

theorem Rouses.trans {a b c : ProcLocal} (h : Rouses a b) (h' : Rouses b c) : Rouses a c := by
  intro t
  rcases h' t with ht | ht
  · rw [ht]
    exact h t
  · exact Or.inr ht

theorem rouses_of_threads {pl pl' : ProcLocal} (h : pl'.threads = pl.threads) : Rouses pl pl' :=
  fun t => by rw [h]; exact Or.inl rfl

@[simp] theorem dropBlocked_threads : (pl.dropBlocked s).threads = pl.threads := by
  unfold dropBlocked
  dsimp only
  split <;> rfl

@[simp] theorem dropBlockedFor_threads (pl : ProcLocal) (t : Nat) :
    (pl.dropBlockedFor t).threads = pl.threads := by
  unfold dropBlockedFor
  generalize pl.blockedQ = queue
  induction queue generalizing pl with
  | nil => rfl
  | cons s queue ih =>
      rw [List.foldl_cons, ih]
      split
      · exact dropBlocked_threads pl s
      · rfl

theorem rouses_dropRun (pl : ProcLocal) (t : Nat) : Rouses pl (pl.dropRun t) := by
  intro u
  left
  unfold dropRun
  dsimp only
  split
  · rw [updThread_threads]
    split
    · subst u
      rfl
    · rfl
  · rfl

theorem rouses_retrySocket : Rouses pl (pl.retrySocket s os).pl := by
  have hhandler : Rouses pl ((pl.unflagged s).socketHandler s os).pl :=
    ((handles_unflagged pl s).trans (handles_socketHandler _ s os)).status
  rw [retrySocket_eq]
  split
  · exact hhandler
  · exact hhandler.trans ((rouses_of_threads (dropBlocked_threads _ s)).trans
      (settles_enqueueRun _ _).status)

theorem rouses_afterCall (t : Nat) : Rouses pl (pl.afterCall t os).pl := by
  unfold afterCall
  dsimp only
  split
  · have hdrop : Rouses pl (dropBlockedFor { pl with runningCr := none } t) :=
      rouses_of_threads (dropBlockedFor_threads _ t)
    split
    · exact hdrop.trans (rouses_dropRun _ t)
    · exact hdrop
  · unfold unblock
    dsimp only
    split
    · split
      · exact (handles_socketHandler { pl with runningCr := none } _ os).status
      · exact rouses_of_threads rfl
    · exact rouses_of_threads rfl

theorem rouses_raiseAt (e : Errno) {t u : Nat} (h : u ≠ t) :
    ((pl.raiseAt t e).threads u).status = (pl.threads u).status ∨
      ((pl.raiseAt t e).threads u).status = .run := by
  unfold raiseAt
  dsimp only
  rw [updThread_threads, if_neg h]
  rcases (settles_enqueueRun (pl.updThread t fun that => { that with error := e }) t).status u with hu | hu
  · left
    rw [hu, updThread_threads, if_neg h]
  · exact Or.inr hu

/-- A thread that is readied runs, or is at its end. -/
theorem ready_status_self (pl : ProcLocal) (t : Nat) :
    ((pl.ready t).threads t).status ∈ [.run, .ended, .err] := by
  rw [ready, updThread_threads_self]
  split
  next h =>
    rw [h]
    decide
  next =>
    split
    next h =>
      rw [h]
      decide
    next => exact List.mem_cons_self

theorem enqueueRun_status_self (pl : ProcLocal) (t : Nat) :
    ((pl.enqueueRun t).threads t).status ∈ [.run, .ended, .err] := by
  have hready := ready_status_self pl t
  simp only [enqueueRun]
  split
  next =>
    rw [updThread_threads_self]
    exact hready
  next => exact hready

/-- So it does not wait, and stays so. -/
theorem not_wait_ready (pl : ProcLocal) (t : Nat) : ((pl.ready t).threads t).status ≠ .wait := by
  intro hwait
  have hready := ready_status_self pl t
  rw [hwait] at hready
  exact absurd hready (by decide)

theorem not_wait_enqueueRun (pl : ProcLocal) (t : Nat) :
    ((pl.enqueueRun t).threads t).status ≠ .wait := by
  intro hwait
  have hready := enqueueRun_status_self pl t
  rw [hwait] at hready
  exact absurd hready (by decide)

theorem Rouses.not_wait {pl pl' : ProcLocal} {t : Nat} (h : Rouses pl pl')
    (ht : (pl.threads t).status ≠ .wait) : (pl'.threads t).status ≠ .wait := by
  rcases h t with hsame | hrun
  · rwa [hsame]
  · simp [hrun]

/-- An effect readies the thread that the socket blocks. -/
theorem not_wait_enqueueRead {pl : ProcLocal} {s : Nat} (h : (pl.sockets s).rx.effect = true) :
    ((pl.enqueueRead s).threads (pl.blockedVk s)).status ≠ .wait := by
  have heffect : (pl.handleRxEffect s).2 = true := h
  have hblocked : (pl.handleRxEffect s).1.blockedVk s = pl.blockedVk s := by
    rw [blockedVk, blockedVk, ((settles_handleRxEffect pl s).socket s).block.blockedVk]
  unfold enqueueRead
  dsimp only
  rw [if_pos heffect, enqueueSelf, hblocked]
  exact not_wait_ready _ _

theorem not_wait_enqueueWritereader {pl : ProcLocal} {s r : Nat}
    (h : (pl.sockets r).rx.effect = true) :
    ((pl.enqueueWritereader s r).threads (pl.blockedVk r)).status ≠ .wait := by
  have heffect : (pl.handleRxEffect r).2 = true := h
  have hblocked : (pl.handleRxEffect r).1.blockedVk r = pl.blockedVk r := by
    rw [blockedVk, blockedVk, ((settles_handleRxEffect pl r).socket r).block.blockedVk]
  unfold enqueueWritereader
  dsimp only
  rw [if_pos heffect]
  refine Rouses.not_wait (settles_enqueueSelf _ s).status ?_
  rw [enqueueOther, hblocked]
  exact not_wait_ready _ _

/-! ### The blocked queue -/

@[simp] theorem enqueueRun_blockedQ (pl : ProcLocal) (t : Nat) :
    (pl.enqueueRun t).blockedQ = pl.blockedQ := by
  unfold enqueueRun
  dsimp only
  split <;> rfl

@[simp] theorem raiseAt_blockedQ (pl : ProcLocal) (t : Nat) (e : Errno) :
    (pl.raiseAt t e).blockedQ = pl.blockedQ :=
  enqueueRun_blockedQ _ t

@[simp] theorem dropRun_blockedQ (pl : ProcLocal) (t : Nat) :
    (pl.dropRun t).blockedQ = pl.blockedQ := by
  unfold dropRun
  dsimp only
  split <;> rfl

theorem dropBlocked_blockedQ (h : ¬(pl.sockets s).blockedEnq = true) :
    (pl.dropBlocked s).blockedQ = pl.blockedQ := by
  unfold dropBlocked
  dsimp only
  rw [if_neg h]

/-- Dropping one socket leaves the others queued. -/
theorem mem_dropBlocked {a : Nat} (ha : a ≠ s) (h : a ∈ pl.blockedQ) :
    a ∈ (pl.dropBlocked s).blockedQ := by
  unfold dropBlocked
  dsimp only
  split
  · exact (List.mem_erase_of_ne ha).mpr h
  · exact h

theorem mem_dropBlockedFor {pl : ProcLocal} {t a : Nat} (ha : pl.blockedVk a ≠ t)
    (h : a ∈ pl.blockedQ) : a ∈ (pl.dropBlockedFor t).blockedQ := by
  have hmem : ∀ (queue : List Nat) (pl : ProcLocal), pl.blockedVk a ≠ t → a ∈ pl.blockedQ →
      a ∈ (queue.foldl (fun pl s => if (pl.sockets s).block.blockedVk = t then pl.dropBlocked s
        else pl) pl).blockedQ := fun queue => by
    induction queue with
    | nil => exact fun _ _ h => h
    | cons s queue ih =>
        intro pl ha h
        rw [List.foldl_cons]
        split
        · rename_i hs
          refine ih _ ?_ (mem_dropBlocked pl s (fun has => ha (has ▸ hs)) h)
          rw [blockedVk, ((sameData_dropBlocked pl s).socket a).block.blockedVk]
          exact ha
        · exact ih pl ha h
  exact hmem pl.blockedQ pl ha h

/-- A retry drops the socket retried, and then has its thread run. -/
theorem mem_retrySocket {a : Nat} (h : a ∈ pl.blockedQ) :
    a ∈ (pl.retrySocket s os).pl.blockedQ ∨
    a = s ∧ ((pl.retrySocket s os).pl.threads (pl.blockedVk s)).status ≠ .wait := by
  have hhandler : a ∈ ((pl.unflagged s).socketHandler s os).pl.blockedQ :=
    ((handles_unflagged pl s).trans (handles_socketHandler _ s os)).blockedQ a h
  rw [retrySocket_eq]
  split
  · exact Or.inl hhandler
  · by_cases ha : a = s
    · right
      exact ⟨ha, not_wait_enqueueRun _ _⟩
    · left
      rw [enqueueRun_blockedQ]
      exact mem_dropBlocked _ s ha hhandler

/-- A thread that comes back from its end takes the sockets that block it out. -/
theorem mem_afterCall {t a : Nat} (h : a ∈ pl.blockedQ) :
    a ∈ (pl.afterCall t os).pl.blockedQ ∨
    (pl.threads t).status = .ended ∧ pl.blockedVk a = t := by
  unfold afterCall
  dsimp only
  split
  · rename_i hended
    by_cases ha : pl.blockedVk a = t
    · exact Or.inr ⟨hended, ha⟩
    · have hdrop : a ∈ (dropBlockedFor { pl with runningCr := none } t).blockedQ :=
        mem_dropBlockedFor ha h
      left
      split
      · rw [dropRun_blockedQ]
        exact hdrop
      · exact hdrop
  · left
    unfold unblock
    dsimp only
    split
    · split
      · exact (handles_socketHandler { pl with runningCr := none } _ os).blockedQ a h
      · exact h
    · exact h

end ProcLocal

end Vk

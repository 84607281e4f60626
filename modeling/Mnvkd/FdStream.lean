/-
# `Mnvkd.FdStream` — what descriptors give and take

A socket with a descriptor on its receive side is the end of a stream: what `readv`
gives goes to the back of the receive ring, and the coroutine takes it off the front.
One with a descriptor on its transmit side is the beginning of one.  Several
operations reach the descriptor: a read, a forward, a write, a flush, and the flush
that follows a read that blocks.  Whichever does, over every run of the machine

    source_exact      what was in the receive ring and what was given is what the
                      coroutine received and what is in the ring
    sink_exact        what was in the transmit ring and what the coroutine sent is what
                      was accepted and what is in the ring

A row of forwards from a descriptor to another, with a virtual pipe between each two,
so hands on what it is given, whatever the order of steps (`relay_exact`).
-/
import Mnvkd.ForwardExact
import Mnvkd.RingsWf

namespace Vk

open Lib Errno
open Vectoring (SameRing Rests)

/-! ## Rings -/

namespace Vectoring

variable {ring ring' ring'' : Vectoring}

/-- The ring has the bytes it had. -/
structure KeepsBytes (ring ring' : Vectoring) : Prop where
  wf : ring.Wf → ring'.Wf
  queue : ring'.queue = ring.queue

theorem KeepsBytes.refl (ring : Vectoring) : KeepsBytes ring ring := ⟨id, rfl⟩

theorem KeepsBytes.trans (h : KeepsBytes ring ring') (h' : KeepsBytes ring' ring'') : KeepsBytes ring ring'' :=
  ⟨fun hwf => h'.wf (h.wf hwf), h'.queue.trans h.queue⟩

theorem SameRing.keepsBytes (h : SameRing ring ring') : KeepsBytes ring ring' := ⟨h.wf, h.queue⟩

theorem Rests.keepsBytes (h : Rests ring ring') : KeepsBytes ring ring' := ⟨h.wf, h.queue⟩

/-- A `writev`, whatever it answers. -/
theorem Wf.written (h : ring.Wf) {writev : SysResult Nat}
    (hfit : ∀ n, writev = .ok n → n ≤ ring.txLen) (errno : Errno) :
    ring.queue = (if ring.txBlocked then [] else
        match writev with
        | .ok n => ring.queue.take n
        | .err _ => []) ++ (ring.write writev errno).ring.queue := by
  cases hb : ring.txBlocked with
  | true =>
      rw [write_of_blocked hb]
      rfl
  | false =>
      cases writev with
      | err e =>
          rw [write_err hb]
          rfl
      | ok n =>
          obtain ⟨-, -, hmoved⟩ := h.write_ok hb (hfit n rfl) errno
          rw [hmoved.queue]
          exact (List.take_append_drop n ring.queue).symm

theorem keepsBytes_markEof (ring : Vectoring) : KeepsBytes ring ring.markEof :=
  ⟨ProcLocal.wf_markEof, ProcLocal.queue_markEof ring⟩

theorem keepsBytes_markClosed (ring : Vectoring) : KeepsBytes ring ring.markClosed := by
  refine ⟨ProcLocal.wf_markClosed, ?_⟩
  unfold markClosed
  split
  · rfl
  · rfl

theorem keepsBytes_close (ring : Vectoring) (rc : SysResult Unit) (errno : Errno) :
    KeepsBytes ring (ring.close rc errno).ring := by
  refine ⟨fun h => h.of_close rc errno, ?_⟩
  cases rc with
  | ok => rfl
  | err e => rfl

end Vectoring

open Vectoring (KeepsBytes)

/-! ## Operations that transfer nothing -/

namespace ProcLocal

/-- Both rings of socket `s` have the bytes they had. -/
structure KeepsRings (s : Nat) (pl pl' : ProcLocal) : Prop where
  rx : KeepsBytes (pl.sockets s).rx (pl'.sockets s).rx
  tx : KeepsBytes (pl.sockets s).tx (pl'.sockets s).tx

section Quiet

variable {pl pl' pl'' : ProcLocal} {s a : Nat} {os : Os}

theorem KeepsRings.trans (h : KeepsRings s pl pl') (h' : KeepsRings s pl' pl'') :
    KeepsRings s pl pl'' :=
  ⟨h.rx.trans h'.rx, h.tx.trans h'.tx⟩

theorem keepsRings_of_sameData (h : SameData pl pl') : KeepsRings s pl pl' :=
  ⟨(h.socket s).rx.keepsBytes, (h.socket s).tx.keepsBytes⟩

theorem keepsRings_of_settles (h : Settles pl pl') : KeepsRings s pl pl' :=
  keepsRings_of_sameData h.toSameData

theorem KeepsRings.settle (h : KeepsRings s pl pl') (h' : Settles pl' pl'') : KeepsRings s pl pl'' :=
  h.trans (keepsRings_of_settles h')

theorem keepsRings_setRx {ring : Vectoring} (h : KeepsBytes (pl.sockets a).rx ring) :
    KeepsRings s pl (pl.setRx a ring) := by
  refine ⟨?_, by rw [setRx_tx]; exact .refl _⟩
  rw [setRx_rx]
  split
  · subst a
    exact h
  · exact .refl _

theorem keepsRings_setTx {ring : Vectoring} (h : KeepsBytes (pl.sockets a).tx ring) :
    KeepsRings s pl (pl.setTx a ring) := by
  refine ⟨by rw [setTx_rx]; exact .refl _, ?_⟩
  rw [setTx_tx]
  split
  · subst a
    exact h
  · exact .refl _

theorem keepsRings_handleReadhup (pl : ProcLocal) (s a : Nat) :
    KeepsRings s pl (pl.handleReadhup a).pl := by
  cases href : (pl.sockets a).rxFd.ref with
  | osFd fd =>
      simp only [handleReadhup, href]
      exact keepsRings_of_settles ((settles_enqueueRead pl a).trans (settles_handled _ a))
  | vkTx w =>
      rw [handleReadhup_eq href]
      split
      · have hset : KeepsRings s pl ((pl.setTx w (pl.sockets w).tx.clearEof).setRx a
            (pl.sockets a).rx.markEof) :=
          (keepsRings_setTx (Vectoring.rests_clearEof _).keepsBytes).trans
            (keepsRings_setRx (by rw [setTx_rx]; exact Vectoring.keepsBytes_markEof _))
        exact hset.settle ((settles_enqueueRead _ a).trans ((settles_enqueueReadwriter _ a w).trans
          (settles_handled _ a)))
      · exact keepsRings_of_settles (settles_handled pl a)
  | vkRx b =>
      simp only [handleReadhup, href]
      exact keepsRings_of_settles (settles_setErrno _ _)

theorem keepsRings_absorbRx {io : Io} (h : KeepsBytes (pl.sockets a).rx io.ring) :
    KeepsRings s pl (pl.absorbRx a io) :=
  (keepsRings_setRx h).settle (settles_absorbRx pl a io)

theorem keepsRings_absorbTx {io : Io} (h : KeepsBytes (pl.sockets a).tx io.ring) :
    KeepsRings s pl (pl.absorbTx a io) :=
  (keepsRings_setTx h).settle (settles_absorbTx pl a io)

theorem keepsRings_closeRx (rc : SysResult Unit) : KeepsRings s pl (pl.closeRx a rc).pl := by
  cases href : (pl.sockets a).rxFd.ref with
  | osFd fd =>
      simp only [closeRx, href]
      exact ((keepsRings_absorbRx (Vectoring.keepsBytes_close _ rc pl.errno)).trans
        (keepsRings_setRx (Vectoring.keepsBytes_markClosed _))).settle
          ((settles_enqueueRead _ a).trans (settles_closed _ a))
  | vkTx b | vkRx b =>
      simp only [closeRx, href]
      exact keepsRings_of_settles ((settles_enqueueRead pl a).trans (settles_closed _ a))

/-- The transmit side is closed by a call on its descriptor. -/
theorem keepsRings_closeTx (rc : SysResult Unit) :
    let pl' := pl.absorbTx a ((pl.sockets a).tx.close rc pl.errno)
    KeepsRings s pl (((pl'.setTx a (pl'.sockets a).tx.markClosed).enqueueWrite a).closed a).pl :=
  ((keepsRings_absorbTx (Vectoring.keepsBytes_close _ rc pl.errno)).trans
    (keepsRings_setTx (Vectoring.keepsBytes_markClosed _))).settle
      ((settles_enqueueWrite _ a).trans (settles_closed _ a))

theorem keepsRings_handleTxClose : KeepsRings s pl (pl.handleTxClose a os).pl := by
  cases href : (pl.sockets a).txFd.ref with
  | osFd fd =>
      simp only [handleTxClose, href]
      exact keepsRings_closeTx os.close
  | vkTx b | vkRx b =>
      simp only [handleTxClose, href]
      exact (keepsRings_setTx (Vectoring.keepsBytes_markEof _)).settle ((settles_enqueueWrite _ a).trans
        ((settles_enqueueWritereader _ a b).trans (settles_closed _ a)))

theorem keepsRings_handleTxShutdown : KeepsRings s pl (pl.handleTxShutdown a os).pl := by
  cases href : (pl.sockets a).txFd.ref with
  | osFd fd =>
      simp only [handleTxShutdown, href]
      exact keepsRings_closeTx os.shutdown
  | vkTx b | vkRx b =>
      simp only [handleTxShutdown, href]
      exact keepsRings_of_settles ((settles_enqueueWrite pl a).trans (settles_closed _ a))

/-- The operations that transfer bytes. -/
def transferOps : List Op := [.read, .write, .flush, .forward]

/-- Every other one keeps the bytes of all rings. -/
theorem keepsRings_socketHandler (h : (pl.sockets a).block.op ∉ transferOps) :
    KeepsRings s pl (pl.socketHandler a os).pl := by
  cases hop : (pl.sockets a).block.op <;> simp only [socketHandler, hop]
  case none => exact keepsRings_of_settles (Settles.refl pl)
  case read | write | flush | forward =>
      rw [hop] at h
      exact absurd (by decide) h
  case hup => exact keepsRings_of_settles (settles_handleHup pl a)
  case readhup => exact keepsRings_handleReadhup pl s a
  case txClose => exact keepsRings_handleTxClose
  case rxClose => exact keepsRings_closeRx _
  case rxShutdown => exact keepsRings_closeRx _
  case txShutdown => exact keepsRings_handleTxShutdown
  case readable => exact keepsRings_of_settles (settles_handleReadable pl a)
  case writable => exact keepsRings_of_settles (settles_handleWritable pl a)

end Quiet

/-! ## Operations that transfer -/

/-- What `writev` takes of what socket `s` has to send. -/
def taken (pl : ProcLocal) (s : Nat) (os : Os) : List UInt8 :=
  if (pl.sockets s).tx.txBlocked then []
  else
    match os.writev with
    | .ok n => (txQueue pl s).take n
    | .err _ => []

/-- What the handler of socket `s` writes to its descriptor.  A read that blocks is
followed by a flush. -/
def accepted (pl : ProcLocal) (s : Nat) (os : Os) : List UInt8 :=
  match (pl.sockets s).block.op with
  | .write | .flush | .forward => pl.taken s os
  | .read =>
      if (pl.handleRead s os).rc = -1 then []
      else if lazyFlush ((pl.handleRead s os).pl.sockets s) then (pl.handleRead s os).pl.taken s os
      else []
  | .none | .hup | .readhup | .txClose | .rxClose | .rxShutdown | .txShutdown | .readable
  | .writable => []

/-- What it reads from it. -/
def given (pl : ProcLocal) (s : Nat) (os : Os) : List UInt8 :=
  match (pl.sockets s).block.op with
  | .read | .forward => os.readv.bytes
  | .none | .write | .flush | .hup | .readhup | .txClose | .rxClose | .rxShutdown | .txShutdown
  | .readable | .writable => []

/-- Of what socket `s` has to send, `bytes` go. -/
structure Goes (s : Nat) (bytes : List UInt8) (pl pl' : ProcLocal) : Prop where
  wf : (pl'.sockets s).tx.Wf
  queue : txQueue pl s = bytes ++ txQueue pl' s

/-- To what it has to receive, `bytes` come. -/
structure Comes (s : Nat) (bytes : List UInt8) (pl pl' : ProcLocal) : Prop where
  wf : (pl'.sockets s).rx.Wf
  queue : rxQueue pl' s = rxQueue pl s ++ bytes

/-- The system takes no more than it is offered, and gives no more than is asked for. -/
def TakesOffered (pl : ProcLocal) (s : Nat) (os : Os) : Prop :=
  ∀ n, os.writev = .ok n → n ≤ (pl.sockets s).tx.txLen

def GivesAsked (pl : ProcLocal) (s : Nat) (os : Os) : Prop :=
  ∀ bytes, os.readv = .ok bytes → bytes.length ≤ (pl.sockets s).rx.rxLen

instance (pl : ProcLocal) (s : Nat) (os : Os) : Decidable (TakesOffered pl s os) := by
  unfold TakesOffered
  cases os.writev with
  | ok n => exact decidable_of_iff (n ≤ (pl.sockets s).tx.txLen) (by simp)
  | err e => exact .isTrue nofun

instance (pl : ProcLocal) (s : Nat) (os : Os) : Decidable (GivesAsked pl s os) := by
  unfold GivesAsked
  cases os.readv with
  | ok bytes => exact decidable_of_iff (bytes.length ≤ (pl.sockets s).rx.rxLen) (by simp)
  | err e => exact .isTrue nofun

section Transfers

variable {pl pl' pl'' : ProcLocal} {s a : Nat} {os : Os} {bytes : List UInt8}

theorem goes_nil (h : KeepsBytes (pl.sockets s).tx (pl'.sockets s).tx) (hwf : (pl.sockets s).tx.Wf) :
    Goes s [] pl pl' :=
  ⟨h.wf hwf, h.queue.symm⟩

theorem comes_nil (h : KeepsBytes (pl.sockets s).rx (pl'.sockets s).rx) (hwf : (pl.sockets s).rx.Wf) :
    Comes s [] pl pl' :=
  ⟨h.wf hwf, by rw [List.append_nil]; exact h.queue⟩

theorem goes_handleWrite {fd : Int} (href : (pl.sockets s).txFd.ref = .osFd fd)
    (hwf : (pl.sockets s).tx.Wf) (hfit : TakesOffered pl s os) :
    Goes s (pl.taken s os) pl (pl.handleWrite s os).pl := by
  have htx := ((handleWrite_fd href os).socket s).tx
  rw [setTx_tx_self] at htx
  refine ⟨htx.wf (hwf.of_write _ _), ?_⟩
  rw [show txQueue (pl.handleWrite s os).pl s = _ from htx.queue]
  exact hwf.written hfit pl.errno

/-- A read leaves the transmit ring of its socket. -/
theorem sameRing_handleRead (h : (pl.sockets s).rxFd.ref ≠ .vkTx s) (os : Os) :
    SameRing (pl.sockets s).tx ((pl.handleRead s os).pl.sockets s).tx := by
  cases href : (pl.sockets s).rxFd.ref with
  | osFd fd =>
      have htx := ((handleRead_fd href os).2.1.socket s).tx
      rwa [setRx_tx] at htx
  | vkTx w =>
      have htx := ((handleRead_peer href os).2.1.socket s).tx
      have hne : s ≠ w := by
        rintro rfl
        exact h href
      rwa [spliced, setRx_tx, setTx_tx, if_neg hne] at htx
  | vkRx r =>
      simp only [handleRead, href]
      exact ((settles_setErrno pl _).trans (settles_handleBlock _ s)).toSameData.socket s |>.tx

/-- A write leaves the receive ring of its socket. -/
theorem sameRing_handleWrite (h : (pl.sockets s).txFd.ref ≠ .vkRx s) (os : Os) :
    SameRing (pl.sockets s).rx ((pl.handleWrite s os).pl.sockets s).rx := by
  cases href : (pl.sockets s).txFd.ref with
  | osFd fd =>
      have hrx := ((handleWrite_fd href os).socket s).rx
      rwa [setTx_rx] at hrx
  | vkRx r =>
      have hne : s ≠ r := by
        rintro rfl
        exact h href
      have hsettles : Settles (pl.spliced s r) (pl.handleWrite s os).pl := by
        simp only [handleWrite, href]
        exact (settles_spliceTo pl s r).trans ((settles_enqueueWrite _ s).trans
          ((settles_enqueueWritereader _ s r).trans (settles_handled _ s)))
      have hrx := (hsettles.toSameData.socket s).rx
      rwa [spliced, setRx_rx, if_neg hne, setTx_rx] at hrx
  | vkTx w =>
      simp only [handleWrite, href]
      exact ((settles_setErrno pl _).trans (settles_handleBlock _ s)).toSameData.socket s |>.rx

/-- The handler of a socket that writes to a descriptor. -/
theorem goes_socketHandler (hw : Wired pl) (h : TxOnFd s pl) (hwf : (pl.sockets s).tx.Wf)
    (hfit : TakesOffered pl s os) : Goes s (pl.accepted s os) pl (pl.socketHandler s os).pl := by
  obtain ⟨fd, href⟩ := h.fd
  have hquiet : (pl.sockets s).block.op ∉ transferOps → Goes s [] pl (pl.socketHandler s os).pl :=
    fun hop => goes_nil (keepsRings_socketHandler hop).tx hwf
  cases hop : (pl.sockets s).block.op with
  | read =>
      have hread := sameRing_handleRead (h.alone s) os
      have hread' : Goes s [] pl (pl.handleRead s os).pl := goes_nil hread.keepsBytes hwf
      simp only [socketHandler, accepted, hop]
      by_cases hrc : (pl.handleRead s os).rc = -1
      · rw [if_pos hrc, if_pos hrc]
        exact hread'
      · rw [if_neg hrc, if_neg hrc]
        by_cases hlazy : lazyFlush ((pl.handleRead s os).pl.sockets s) = true
        · rw [if_pos hlazy, if_pos hlazy]
          have href' : ((pl.handleRead s os).pl.sockets s).txFd.ref = .osFd fd :=
            ((handles_handleRead pl s os).txRef s).trans href
          have hwrite : Goes s _ (pl.handleRead s os).pl ((pl.handleRead s os).pl.handleWrite s os).pl :=
            goes_handleWrite href' hread'.wf fun n hn => by
              rw [hread.txLen]
              exact hfit n hn
          exact ⟨hwrite.wf, hread'.queue.trans hwrite.queue⟩
        · rw [if_neg hlazy, if_neg hlazy]
          exact hread'
  | write | flush =>
      simp only [socketHandler, accepted, hop]
      exact goes_handleWrite href hwf hfit
  | forward =>
      have hself : (pl.sockets s).txFd.ref ≠ .vkRx s := fun hself => by
        rw [href] at hself
        cases hself
      obtain ⟨e, htx, -⟩ := handleForward_tx hw ⟨h.alone s, hself⟩ os href
      simp only [socketHandler, accepted, hop]
      refine ⟨htx.wf (hwf.of_write _ _), ?_⟩
      rw [show txQueue (pl.handleForward s os).pl s = _ from htx.queue]
      exact hwf.written hfit e
  | none | hup | readhup | txClose | rxClose | rxShutdown | txShutdown | readable | writable =>
      simp only [accepted, hop]
      exact hquiet (by rw [hop]; decide)

/-- A `readv`, whatever it answers. -/
theorem comes_read {ring : Vectoring} (hring : SameRing ((pl.sockets s).rx.read os.readv pl.errno).ring
    ring) (hrx : (pl'.sockets s).rx = ring) (hwf : (pl.sockets s).rx.Wf) (hfit : GivesAsked pl s os) :
    Comes s os.readv.bytes pl pl' := by
  refine ⟨by rw [hrx]; exact hring.wf (hwf.of_read _ _), ?_⟩
  rw [rxQueue, hrx, hring.queue]
  cases hreadv : os.readv with
  | err e =>
      rw [Vectoring.read_err, SysResult.bytes, List.append_nil]
      rfl
  | ok bytes =>
      obtain ⟨-, -, hmoved⟩ := hwf.read_ok (hfit bytes hreadv) pl.errno
      exact hmoved.queue

/-- The handler of a socket that reads from a descriptor. -/
theorem comes_socketHandler (hw : Wired pl) (h : RxOnFd s pl)
    (hlisten : (pl.sockets s).rxFd.fdType ≠ .socketListen) (hwf : (pl.sockets s).rx.Wf)
    (hfit : GivesAsked pl s os) : Comes s (pl.given s os) pl (pl.socketHandler s os).pl := by
  obtain ⟨fd, href⟩ := h.fd
  have hquiet : (pl.sockets s).block.op ∉ transferOps → Comes s [] pl (pl.socketHandler s os).pl :=
    fun hop => comes_nil (keepsRings_socketHandler hop).rx hwf
  cases hop : (pl.sockets s).block.op with
  | read =>
      have hread := ((handleRead_fd href os).2.1.socket s).rx
      rw [setRx_rx_self, received, if_neg hlisten] at hread
      have hwrite : SameRing ((pl.handleRead s os).pl.sockets s).rx
          (((pl.handleRead s os).pl.handleWrite s os).pl.sockets s).rx :=
        sameRing_handleWrite (by rw [(handles_handleRead pl s os).txRef]; exact h.alone s) os
      have hring : SameRing ((pl.handleRead s os).pl.sockets s).rx
          ((pl.socketHandler s os).pl.sockets s).rx := by
        simp only [socketHandler, hop]
        split
        · exact SameRing.refl _
        · split
          · exact hwrite
          · exact SameRing.refl _
      simp only [given, hop]
      exact comes_read (hread.trans hring) rfl hwf hfit
  | forward =>
      have hself : (pl.sockets s).rxFd.ref ≠ .vkTx s := fun hself => by
        rw [href] at hself
        cases hself
      have hring := handleForward_rx hw ⟨hself, h.alone s⟩ os
      simp only [filled, href] at hring
      simp only [socketHandler, given, hop]
      exact comes_read hring rfl hwf hfit
  | write | flush =>
      simp only [socketHandler, given, hop]
      exact comes_nil (sameRing_handleWrite (h.alone s) os).keepsBytes hwf
  | none | hup | readhup | txClose | rxClose | rxShutdown | txShutdown | readable | writable =>
      simp only [given, hop]
      exact hquiet (by rw [hop]; decide)

end Transfers

end ProcLocal

/-! ## What a coroutine sends and receives -/

/-- What the body of a loop sends on socket `s`. -/
def sentBy (pl : ProcLocal) (k : IoLoop) (s : Nat) : List UInt8 :=
  match k with
  | .write => sentBytes pl ((k.loop s).body pl) s
  | .forward => forwardedBytes pl ((k.loop s).body pl) s
  | .read | .readline | .pollread | .flush | .hupFlush | .hup | .once => []

/-- What it receives. -/
def receivedBy (pl : ProcLocal) (k : IoLoop) (s : Nat) : List UInt8 :=
  match k with
  | .read | .readline => receivedBytes pl ((k.loop s).body pl) s
  | .forward => forwardedBytes pl ((k.loop s).body pl) s
  | .write | .pollread | .flush | .hupFlush | .hup | .once => []

/-- From `pl` to `pl'` socket `s` has received and sent so much. -/
structure Carries (s : Nat) (received sent : List UInt8) (pl pl' : ProcLocal) : Prop where
  rxWf : (pl'.sockets s).rx.Wf
  txWf : (pl'.sockets s).tx.Wf
  rx : rxQueue pl s = received ++ rxQueue pl' s
  tx : txQueue pl' s = txQueue pl s ++ sent

section Bodies

variable {pl pl' pl'' : ProcLocal} {s : Nat} {received sent : List UInt8}

theorem Carries.keeps (h : Carries s received sent pl pl') (h' : ProcLocal.KeepsRings s pl' pl'') :
    Carries s received sent pl pl'' where
  rxWf := h'.rx.wf h.rxWf
  txWf := h'.tx.wf h.txWf
  rx := h.rx.trans (congrArg (received ++ ·) h'.rx.queue.symm)
  tx := (show txQueue pl'' s = txQueue pl' s from h'.tx.queue).trans h.tx

theorem carries_of_keeps (hrx : (pl.sockets s).rx.Wf) (htx : (pl.sockets s).tx.Wf)
    (h : ProcLocal.KeepsRings s pl pl') : Carries s [] [] pl pl' where
  rxWf := h.rx.wf hrx
  txWf := h.tx.wf htx
  rx := h.rx.queue.symm
  tx := by
    rw [List.append_nil]
    exact h.tx.queue

theorem keepsRings_of_eq (h : pl'.sockets s = pl.sockets s) : ProcLocal.KeepsRings s pl pl' := by
  refine ⟨?_, ?_⟩
  · rw [h]
    exact .refl _
  · rw [h]
    exact .refl _

theorem keepsRings_updBlock (pl : ProcLocal) (s a : Nat) (f : Block → Block) :
    ProcLocal.KeepsRings s pl (pl.updBlock a f) := by
  have hrings : ((pl.updBlock a f).sockets s).rx = (pl.sockets s).rx ∧
      ((pl.updBlock a f).sockets s).tx = (pl.sockets s).tx := by
    rw [ProcLocal.updBlock, ProcLocal.updSocket_sockets]
    split
    · subst a
      exact ⟨rfl, rfl⟩
    · exact ⟨rfl, rfl⟩
  refine ⟨?_, ?_⟩
  · rw [hrings.1]
    exact .refl _
  · rw [hrings.2]
    exact .refl _

theorem keepsRings_blockInit (pl : ProcLocal) (s a buf len : Nat) (op : Op) :
    ProcLocal.KeepsRings s pl (pl.blockInit a buf len op) :=
  keepsRings_updBlock pl s a fun block => block.init buf len op

theorem keepsRings_waitOn (pl : ProcLocal) (s t a : Nat) : ProcLocal.KeepsRings s pl (pl.waitOn t a) := by
  have hthread : ProcLocal.KeepsRings s pl (pl.updThread t fun that =>
      { that with waitingSocketPtr := some a, status := .wait }) := keepsRings_of_eq rfl
  exact hthread.trans (keepsRings_updBlock _ s a fun block => { block with blockedVk := t })

theorem carries_recvCommit (hrx : (pl.sockets s).rx.Wf) (htx : (pl.sockets s).tx.Wf) :
    Carries s (receivedBytes pl (pl.recvCommit s) s) [] pl (pl.recvCommit s) := by
  have hm := hrx.markSent (Nat.min_le_right (pl.uncommitted s) (pl.sockets s).rx.txLen)
  have hlen : ((pl.sockets s).rx.queue.take (pl.uncommitted s)).length = pl.recvCount s := by
    rw [List.length_take, Vectoring.length_queue, ProcLocal.recvCount]
  have hbytes : receivedBytes pl (pl.recvCommit s) s = (pl.sockets s).rx.queue.take (pl.recvCount s) := by
    rw [receivedBytes, ProcLocal.recvCommit_eq hrx, ProcLocal.committed, ProcLocal.committed,
      ProcLocal.updSocket_sockets_self, ProcLocal.updSocket_mem, Block.getCommitted,
      Block.getCommitted, Nat.add_sub_cancel_left, ← hlen, Memory.load_store, List.length_take,
      ← List.take_eq_take_min]
  rw [hbytes]
  have hrx' : ((pl.recvCommit s).sockets s).rx = (pl.sockets s).rx.markSent (pl.recvCount s) := by
    rw [ProcLocal.recvCommit_eq hrx, ProcLocal.updSocket_sockets_self]
  have htx' : ((pl.recvCommit s).sockets s).tx = (pl.sockets s).tx := by
    rw [ProcLocal.recvCommit_eq hrx, ProcLocal.updSocket_sockets_self]
  refine ⟨hrx' ▸ hm.wf, htx' ▸ htx, ?_, ?_⟩
  · rw [rxQueue, rxQueue, hrx']
    exact (congrArg (_ ++ ·) hm.queue).symm ▸ (List.take_append_drop _ _).symm
  · rw [txQueue, htx', List.append_nil]
    rfl

theorem carries_sendCommit (hrx : (pl.sockets s).rx.Wf) (htx : (pl.sockets s).tx.Wf) :
    Carries s [] (sentBytes pl (pl.sendCommit s) s) pl (pl.sendCommit s) := by
  -- what it sends: nothing at EOF, and otherwise what there is room for
  obtain ⟨n, hrc, hwf, hqueue⟩ : ∃ n : Nat,
      ((pl.sockets s).tx.send pl.mem (pl.sockets s).block.buf
        (pl.sockets s).block.getUncommitted).2 = n ∧
      ((pl.sockets s).tx.send pl.mem (pl.sockets s).block.buf
        (pl.sockets s).block.getUncommitted).1.Wf ∧
      ((pl.sockets s).tx.send pl.mem (pl.sockets s).block.buf
        (pl.sockets s).block.getUncommitted).1.queue
          = (pl.sockets s).tx.queue ++ pl.mem.load (pl.sockets s).block.buf n := by
    by_cases he : (pl.sockets s).block.getUncommitted > 0 ∧ (pl.sockets s).tx.eof = true
    · rw [Vectoring.send_of_eof _ _ he.1 he.2]
      exact ⟨0, rfl, htx, by simp⟩
    · obtain ⟨hrc, hm⟩ := htx.send pl.mem (pl.sockets s).block.buf
        (pl.sockets s).block.getUncommitted he
      exact ⟨_, hrc, hm.wf, hm.queue⟩
  have hself : (pl.sendCommit s).sockets s = { pl.sockets s with
      tx := ((pl.sockets s).tx.send pl.mem (pl.sockets s).block.buf
        (pl.sockets s).block.getUncommitted).1
      block := (pl.sockets s).block.commit n } := by
    rw [ProcLocal.sendCommit, blockCommit_self, hrc, ProcLocal.setTx, ProcLocal.updSocket_sockets_self]
  have hbytes : sentBytes pl (pl.sendCommit s) s = pl.mem.load (pl.sockets s).block.buf n := by
    rw [sentBytes, ProcLocal.committed, ProcLocal.committed, hself, Block.commit_natCast,
      Block.getCommitted, Block.getCommitted, Nat.add_sub_cancel_left]
  rw [hbytes]
  refine ⟨?_, ?_, ?_, ?_⟩
  · rw [hself]
    exact hrx
  · rw [hself]
    exact hwf
  · rw [rxQueue, rxQueue, hself]
    rfl
  · rw [txQueue, hself]
    exact hqueue

theorem carries_forwardCommit (hrx : (pl.sockets s).rx.Wf) (htx : (pl.sockets s).tx.Wf) :
    Carries s (forwardedBytes pl (pl.forwardCommit s) s) (forwardedBytes pl (pl.forwardCommit s) s)
      pl (pl.forwardCommit s) := by
  obtain ⟨-, -, hmtx, hmrx⟩ := htx.splice hrx
    (ProcLocal.ssize (pl.sockets s).block.getUncommitted) pl.errno
  generalize hsp : (pl.sockets s).tx.splice (pl.sockets s).rx
    (ProcLocal.ssize (pl.sockets s).block.getUncommitted) pl.errno = sp at hmtx hmrx
  have hforward : pl.forwardCommit s
      = (((pl.setRx s sp.tx).setTx s sp.rx).setErrno sp.errno).blockCommit s sp.rc := by
    rw [ProcLocal.forwardCommit, hsp]
  have hself : ((pl.forwardCommit s).sockets s).rx = sp.tx ∧
      ((pl.forwardCommit s).sockets s).tx = sp.rx := by
    rw [hforward, blockCommit_self]
    simp only [ProcLocal.setErrno, ProcLocal.setTx, ProcLocal.setRx,
      ProcLocal.updSocket_sockets_self, and_self]
  have hbytes : txQueue (pl.forwardCommit s) s
      = txQueue pl s ++ forwardedBytes pl (pl.forwardCommit s) s := by
    rw [forwardedBytes, txQueue, txQueue, hself.2, hmtx.queue, List.drop_left]
  have hmoved := hbytes
  rw [show txQueue (pl.forwardCommit s) s = sp.rx.queue by rw [txQueue, hself.2], hmtx.queue] at hmoved
  refine ⟨by rw [hself.1]; exact hmrx.wf, by rw [hself.2]; exact hmtx.wf, ?_, hbytes⟩
  rw [← List.append_cancel_left hmoved, rxQueue, rxQueue, hself.1, hmrx.queue, List.take_append_drop]

/-- Every body carries what it sends and receives. -/
theorem carries_body (hrx : (pl.sockets s).rx.Wf) (htx : (pl.sockets s).tx.Wf) (k : IoLoop) :
    Carries s (receivedBy pl k s) (sentBy pl k s) pl ((k.loop s).body pl) := by
  have hquiet : ∀ f : Block → Block, Carries s [] [] pl (pl.updBlock s f) := fun f =>
    carries_of_keeps hrx htx (keepsRings_updBlock pl s s f)
  cases k with
  | read => exact carries_recvCommit hrx htx
  | readline =>
      have hline : ProcLocal.KeepsRings s pl (requestLine pl s) := keepsRings_updBlock pl s s _
      have hrecv := carries_recvCommit (hline.rx.wf hrx) (hline.tx.wf htx)
      have hbytes : receivedBytes (requestLine pl s) ((requestLine pl s).recvCommit s) s
          = receivedBytes pl ((requestLine pl s).recvCommit s) s := by
        rw [receivedBytes, receivedBytes, ProcLocal.committed, ProcLocal.committed,
          ProcLocal.committed, requestLine, ProcLocal.updBlock, ProcLocal.updSocket_sockets_self]
        rfl
      rw [hbytes] at hrecv
      exact ⟨hrecv.rxWf, hrecv.txWf, hline.rx.queue.symm.trans hrecv.rx,
        hrecv.tx.trans (congrArg (· ++ []) hline.tx.queue)⟩
  | write => exact carries_sendCommit hrx htx
  | forward => exact carries_forwardCommit hrx htx
  | pollread => exact hquiet fun block => block.commit (if (pl.sockets s).empty then 0 else 1)
  | hup => exact hquiet fun block => block.commit (if (pl.sockets s).eofTx then 0 else 1)
  | once => exact hquiet fun block => block.setUncommitted 0
  | flush | hupFlush => exact carries_of_keeps hrx htx (keepsRings_of_eq rfl)

end Bodies

/-! ## A step -/

namespace Machine

/-- What a step of a coroutine shows of its turn on socket `s`. -/
def turnOn (shows : IoLoop → List UInt8) (s : Nat) (a : Act) (m : Machine) : List UInt8 :=
  match m.stage, a with
  | .inside t, .co .turn =>
      match m.pos t with
      | some (k, b) => if b = s ∧ (k.loop s).test m.pl = true then shows k else []
      | none => []
  | _, _ => []

/-- What a step sends on socket `s`, and receives from it. -/
def sends (s : Nat) (a : Act) (m : Machine) : List UInt8 := m.turnOn (fun k => sentBy m.pl k s) s a

def receives (s : Nat) (a : Act) (m : Machine) : List UInt8 :=
  m.turnOn (fun k => receivedBy m.pl k s) s a

/-- What a step writes to the descriptor of socket `s`, and reads from it. -/
def accepts (s : Nat) (a : Act) (m : Machine) : List UInt8 :=
  match m.handlerOf s a with
  | some os => (m.seen s a).accepted s os
  | none => []

def gives (s : Nat) (a : Act) (m : Machine) : List UInt8 :=
  match m.handlerOf s a with
  | some os => (m.seen s a).given s os
  | none => []

variable {m m' : Machine} {a : Act} {s t : Nat} {os : Os}

theorem turnOn_turn {shows : IoLoop → List UInt8} {k : IoLoop} {b : Nat} (hst : m.stage = .inside t)
    (hpos : m.pos t = some (k, b)) : m.turnOn shows s (.co .turn)
      = if b = s ∧ (k.loop s).test m.pl = true then shows k else [] := by
  unfold turnOn
  simp only [hst, hpos]

theorem turnOn_of_unused {shows : IoLoop → List UInt8} (h : usedSocket a m ≠ some s) :
    m.turnOn shows s a = [] := by
  unfold turnOn
  split
  next t hst =>
    split
    next k b hpos =>
      simp only [usedSocket, hst, hpos, Option.map_some, ne_eq, Option.some.injEq] at h
      rw [if_neg fun hb => h hb.1]
    next => rfl
  next => rfl

/-- Leaving a loop changes no byte, and neither does an error. -/
theorem keepsRings_leave (m : Machine) (t : Nat) (k : IoLoop) (s : Nat) :
    ProcLocal.KeepsRings s m.pl (m.leave t k s).pl := by
  by_cases hk : k = .hupFlush
  · subst k
    cases heof : (m.pl.sockets s).tx.eof with
    | true =>
        rw [leave_of_eof heof]
        exact (ProcLocal.keepsRings_setTx (.refl _)).trans (keepsRings_of_eq (by rw [raise_sockets]; rfl))
    | false =>
        rw [leave_of_not_eof heof]
        exact (ProcLocal.keepsRings_setTx (Vectoring.keepsBytes_markEof _)).trans
          (keepsRings_blockInit _ s s 0 1 .hup)
  · rw [leave_of_ne hk]
    exact keepsRings_of_eq rfl

/-- A turn carries what its body does. -/
theorem carries_turn (hrx : (m.pl.sockets s).rx.Wf) (htx : (m.pl.sockets s).tx.Wf)
    (hst : m.stage = .inside t) {k : IoLoop} (hpos : m.pos t = some (k, s)) :
    Carries s (m.receives s (.co .turn)) (m.sends s (.co .turn)) m.pl (m.turn t k s).pl := by
  have hbody := carries_body hrx htx k
  have hturned := (k.loop s).turned m.pl
  unfold receives sends turn
  rw [turnOn_turn hst hpos, turnOn_turn hst hpos]
  generalize (k.loop s).turn m.pl = outcome at hturned
  cases hturned with
  | left htest =>
      rw [if_neg (by simp [htest]), if_neg (by simp [htest])]
      exact carries_of_keeps hrx htx (keepsRings_leave m t k s)
  | failed htest =>
      rw [if_pos ⟨rfl, htest⟩, if_pos ⟨rfl, htest⟩]
      exact hbody.keeps (keepsRings_of_eq (by rw [raise_sockets]))
  | done htest =>
      rw [if_pos ⟨rfl, htest⟩, if_pos ⟨rfl, htest⟩]
      exact hbody.keeps (keepsRings_leave { m with pl := (k.loop s).body m.pl } t k s)
  | wait htest =>
      rw [if_pos ⟨rfl, htest⟩, if_pos ⟨rfl, htest⟩]
      exact hbody.keeps (keepsRings_waitOn _ s t s)
  | again htest =>
      rw [if_pos ⟨rfl, htest⟩, if_pos ⟨rfl, htest⟩]
      exact hbody

theorem keepsRings_call (m : Machine) (t : Nat) (c : IoCall) (s : Nat) :
    ProcLocal.KeepsRings s m.pl (m.call t c).pl := by
  have henter : ProcLocal.KeepsRings s m.pl (c.enter m.pl) := by
    cases c with
    | once b op =>
        have hqueued : ProcLocal.KeepsRings s m.pl
            (if op = .readable ∨ op = .writable then m.pl.enqueueBlocked b else m.pl) := by
          split
          · exact ProcLocal.keepsRings_of_settles (ProcLocal.settles_enqueueBlocked m.pl b)
          · exact ProcLocal.keepsRings_of_settles (Settles.refl _)
        exact hqueued.trans (keepsRings_blockInit _ s b 0 1 op)
    | read b buf len | readline b buf len => exact keepsRings_blockInit m.pl s b buf len .read
    | pollread b => exact keepsRings_blockInit m.pl s b 0 1 .read
    | write b buf len => exact keepsRings_blockInit m.pl s b buf len .write
    | flush b | hup b => exact keepsRings_blockInit m.pl s b 0 0 .flush
    | forward b len => exact keepsRings_blockInit m.pl s b 0 len .forward
  unfold call
  split
  · exact henter.trans (keepsRings_of_eq (by rw [raise_sockets]))
  · exact henter

/-- A step that operates on socket `s` and is no handler. -/
theorem carries_used (hrx : (m.pl.sockets s).rx.Wf) (htx : (m.pl.sockets s).tx.Wf)
    (hused : usedSocket a m = some s) (hstep : step a m = some m') :
    Carries s (m.receives s a) (m.sends s a) m.pl m'.pl := by
  cases stepped hstep with
  | co t hst c m' hco =>
      cases coStepped hco with
      | turn k b hpos =>
          simp only [usedSocket, hst, hpos, Option.map_some, Option.some.injEq] at hused
          subst hused
          exact carries_turn hrx htx hst hpos
      | call hpos c hknown =>
          have hnone : ∀ shows, m.turnOn shows s (.co (.call c)) = [] := fun shows => by
            simp only [turnOn, hst]
          rw [receives, sends, hnone, hnone]
          exact carries_of_keeps hrx htx (keepsRings_call m t c s)
      | readhup | play | store | raise | stop => simp [usedSocket, hst] at hused
  | start hst | play hst | answer hst | retry hst | exec _ hst | unblock _ hst =>
      simp [usedSocket, hst] at hused

end Machine

/-! ## Carries over descriptors -/

section Steps

variable {m m' : Machine} {a : Act} {s : Nat} {os : Os}

theorem unflagged_fdType (pl : ProcLocal) (b s : Nat) :
    ((pl.unflagged b).sockets s).rxFd.fdType = (pl.sockets s).rxFd.fdType := by
  by_cases hs : s = b
  · subst hs
    obtain ⟨c, c', hself⟩ := unflagged_self pl s
    rw [hself]
  · rw [unflagged_other pl hs]

/-- No step changes what type of descriptor a receive side has. -/
theorem types_step (hstep : Machine.step a m = some m') (s : Nat) :
    (m'.pl.sockets s).rxFd.fdType = (m.pl.sockets s).rxFd.fdType := by
  have hsame : ∀ {pl : ProcLocal}, pl.sockets = m.pl.sockets →
      (pl.sockets s).rxFd.fdType = (m.pl.sockets s).rxFd.fdType := fun h => by rw [h]
  have howned : ∀ {t : Nat} {pl pl' : ProcLocal}, Own t pl pl' →
      (pl'.sockets s).rxFd.fdType = (pl.sockets s).rxFd.fdType := fun hown => by
    rw [(hown.wiring s).1]
  cases Machine.stepped hstep with
  | start => rfl
  | play hst t => exact hsame (ProcLocal.enqueueRun_sockets m.pl t)
  | answer hst b rx tx =>
      exact howned (own_updBlock (t := 0) m.pl b fun block => { block with
        ioftRxRet := { block.ioftRxRet with event := rx }
        ioftTxRet := { block.ioftTxRet with event := tx } })
  | retry hst b os hb =>
      have hhandler := ((ProcLocal.reach_socketHandler (a := b) (m.pl.unflagged b) os).rxFd s).2.trans
        (unflagged_fdType m.pl b s)
      dsimp only
      rw [ProcLocal.retrySocket_eq]
      split
      · exact hhandler
      · exact (((ProcLocal.sameData_dropBlocked _ b).trans
          (ProcLocal.settles_enqueueRun _ _).toSameData).socket s).rxType.trans hhandler
  | exec phase hst => exact hsame (Machine.execute_sockets m phase)
  | unblock t hst os =>
      dsimp only
      rcases ProcLocal.afterCall_cases m.pl t os with hdata | ⟨b, -, -, hhandler⟩
      · exact (hdata.socket s).rxType
      · rw [hhandler]
        exact ((ProcLocal.reach_socketHandler (a := b) { m.pl with runningCr := none } os).rxFd s).2
  | co t hst c m' hco =>
      cases Machine.coStepped hco with
      | turn k b hpos => exact howned (Machine.own_turn m t k b)
      | call hpos call hknown => exact howned (Machine.own_call m t call)
      | readhup hpos b =>
          obtain ⟨pl, rfl | rfl, hown⟩ := Machine.readhup_own m t b
          · exact howned hown
          · exact (howned hown).trans ((ProcLocal.reach_handleReadhup m.pl).rxFd s).2
      | play hpos v => exact hsame (ProcLocal.enqueueRun_sockets m.pl v)
      | store | stop => rfl
      | raise hpos e => exact howned (Machine.own_raise m t e)

/-- What the system gives to the handler of socket `s` is no more than it was asked for. -/
def ReadsWithin (s : Nat) (a : Act) (m : Machine) : Prop :=
  ∀ os ∈ m.handlerOf s a, ProcLocal.GivesAsked m.pl s os

/-- What it takes is no more than it was offered. -/
def WritesWithin (s : Nat) (a : Act) (m : Machine) : Prop :=
  ∀ os ∈ m.handlerOf s a, ProcLocal.TakesOffered m.pl s os

instance (s : Nat) (a : Act) (m : Machine) : Decidable (ReadsWithin s a m) :=
  inferInstanceAs (Decidable (∀ os ∈ m.handlerOf s a, _))

instance (s : Nat) (a : Act) (m : Machine) : Decidable (WritesWithin s a m) :=
  inferInstanceAs (Decidable (∀ os ∈ m.handlerOf s a, _))

/-- Socket `s` reads from a descriptor, and not from a listening one. -/
structure FdSource (s : Nat) (m : Machine) : Prop where
  fd : RxOnFd s m.pl
  notListen : (m.pl.sockets s).rxFd.fdType ≠ .socketListen
  wired : ProcLocal.Wired m.pl
  rings : RingsWf m.pl

/-- Socket `s` writes to a descriptor. -/
structure FdSink (s : Nat) (m : Machine) : Prop where
  fd : TxOnFd s m.pl
  wired : ProcLocal.Wired m.pl
  rings : RingsWf m.pl

/-- The ring of a socket whose handler a step runs, as the handler finds it. -/
theorem seen_rings (s : Nat) (a : Act) (m : Machine) :
    KeepsBytes (m.pl.sockets s).rx ((m.seen s a).sockets s).rx ∧
      KeepsBytes (m.pl.sockets s).tx ((m.seen s a).sockets s).tx ∧
      ((m.seen s a).sockets s).rx.rxLen = (m.pl.sockets s).rx.rxLen ∧
      ((m.seen s a).sockets s).tx.txLen = (m.pl.sockets s).tx.txLen := by
  obtain ⟨b, b', hseen⟩ := seen_self s a m
  rw [hseen]
  exact ⟨⟨fun h => h.setRxBlocked b, rfl⟩, ⟨fun h => h.setTxBlocked b', rfl⟩, rfl, rfl⟩

theorem FdSource.step (h : FdSource s m) (hstep : Machine.step a m = some m') : FdSource s m' where
  fd := by
    refine ⟨?_, fun b => ?_⟩
    · rw [(Machine.refs_step hstep s).1]
      exact h.fd.fd
    · rw [(Machine.refs_step hstep b).2]
      exact h.fd.alone b
  notListen := by
    rw [types_step hstep s]
    exact h.notListen
  wired := Machine.wired_step hstep h.wired
  rings := (keepsWf_step hstep).wf h.rings

theorem FdSink.step (h : FdSink s m) (hstep : Machine.step a m = some m') : FdSink s m' where
  fd := by
    refine ⟨?_, fun b => ?_⟩
    · rw [(Machine.refs_step hstep s).2]
      exact h.fd.fd
    · rw [(Machine.refs_step hstep b).1]
      exact h.fd.alone b
  wired := Machine.wired_step hstep h.wired
  rings := (keepsWf_step hstep).wf h.rings

/-- One step of a source: its handler runs, its coroutine operates on it, or neither. -/
theorem FdSource.queue_step (h : FdSource s m) (hc : ReadsWithin s a m)
    (hstep : Machine.step a m = some m') :
    rxQueue m.pl s ++ m.gives s a = m.receives s a ++ rxQueue m'.pl s := by
  obtain ⟨hrx, htx⟩ := h.rings s
  cases hhandler : m.handlerOf s a with
  | some os =>
      have hseen := handles_seen s a m
      obtain ⟨hkeeps, -, hroom, -⟩ := seen_rings s a m
      have hfd : RxOnFd s (m.seen s a) :=
        ⟨by rw [hseen.rxRef]; exact h.fd.fd, fun b => by rw [hseen.txRef]; exact h.fd.alone b⟩
      have hlisten : ((m.seen s a).sockets s).rxFd.fdType ≠ .socketListen := by
        obtain ⟨b, b', hself⟩ := seen_self s a m
        rw [hself]
        exact h.notListen
      have hcomes : ProcLocal.Comes s ((m.seen s a).given s os) (m.seen s a)
          ((m.seen s a).socketHandler s os).pl :=
        ProcLocal.comes_socketHandler (ProcLocal.Handles.wired hseen h.wired) hfd hlisten
          (hkeeps.wf hrx) fun bytes hbytes => by
            rw [hroom]
            exact hc os hhandler bytes hbytes
      have hafter : rxQueue m'.pl s = rxQueue ((m.seen s a).socketHandler s os).pl s :=
        ((handled_step hstep hhandler).socket s).rx.queue
      have hbefore : rxQueue (m.seen s a) s = rxQueue m.pl s := hkeeps.queue
      have hgives : m.gives s a = (m.seen s a).given s os := by
        rw [Machine.gives, hhandler]
      rw [Machine.receives, Machine.turnOn_of_unused (unused_of_handlerOf hhandler s), hgives, hafter,
        hcomes.queue, hbefore]
      rfl
  | none =>
      have hgives : m.gives s a = [] := by rw [Machine.gives, hhandler]
      rw [hgives, List.append_nil]
      by_cases hused : Machine.usedSocket a m = some s
      · exact (Machine.carries_used hrx htx hused hstep).rx
      · rw [Machine.receives, Machine.turnOn_of_unused hused]
        exact ((undisturbed_step hstep hhandler hused).rx h.fd).queue.symm

/-- One step of a sink. -/
theorem FdSink.queue_step (h : FdSink s m) (hc : WritesWithin s a m)
    (hstep : Machine.step a m = some m') :
    txQueue m.pl s ++ m.sends s a = m.accepts s a ++ txQueue m'.pl s := by
  obtain ⟨hrx, htx⟩ := h.rings s
  cases hhandler : m.handlerOf s a with
  | some os =>
      have hseen := handles_seen s a m
      obtain ⟨-, hkeeps, -, hheld⟩ := seen_rings s a m
      have hfd : TxOnFd s (m.seen s a) :=
        ⟨by rw [hseen.txRef]; exact h.fd.fd, fun b => by rw [hseen.rxRef]; exact h.fd.alone b⟩
      have hgoes : ProcLocal.Goes s ((m.seen s a).accepted s os) (m.seen s a)
          ((m.seen s a).socketHandler s os).pl :=
        ProcLocal.goes_socketHandler (ProcLocal.Handles.wired hseen h.wired) hfd
          (hkeeps.wf htx) fun n hn => by
            rw [hheld]
            exact hc os hhandler n hn
      have hafter : txQueue m'.pl s = txQueue ((m.seen s a).socketHandler s os).pl s :=
        ((handled_step hstep hhandler).socket s).tx.queue
      have hbefore : txQueue (m.seen s a) s = txQueue m.pl s := hkeeps.queue
      have haccepts : m.accepts s a = (m.seen s a).accepted s os := by
        rw [Machine.accepts, hhandler]
      rw [Machine.sends, Machine.turnOn_of_unused (unused_of_handlerOf hhandler s), haccepts, hafter,
        ← hgoes.queue, hbefore, List.append_nil]
  | none =>
      have haccepts : m.accepts s a = [] := by rw [Machine.accepts, hhandler]
      rw [haccepts]
      by_cases hused : Machine.usedSocket a m = some s
      · exact (Machine.carries_used hrx htx hused hstep).tx.symm
      · rw [Machine.sends, Machine.turnOn_of_unused hused, List.append_nil]
        exact ((undisturbed_step hstep hhandler hused).tx h.fd).queue.symm

end Steps

section Runs

variable {m m' : Machine} {as : List Act} {s : Nat}

/-- What was in the receive ring and what the descriptor gave, in this order, is what the
coroutine received and what is still in the ring: nothing is lost, doubled or moved,
whichever of its operations fetched it and whichever took it. -/
theorem source_exact (h : FdSource s m) (hc : Meets Machine.step (ReadsWithin s) as m)
    (hrun : run Machine.step as m = some m') :
    rxQueue m.pl s ++ trace Machine.step (fun a m => m.gives s a) as m
      = trace Machine.step (fun a m => m.receives s a) as m ++ rxQueue m'.pl s :=
  run_queue (fun m => rxQueue m.pl s) (fun _ _ _ (h : FdSource s _) _ hstep => h.step hstep)
    (fun _ _ _ h hc hstep => h.queue_step hc hstep) h hc hrun

/-- What was in the transmit ring and what the coroutine sent is what the descriptor
accepted and what is still in the ring. -/
theorem sink_exact (h : FdSink s m) (hc : Meets Machine.step (WritesWithin s) as m)
    (hrun : run Machine.step as m = some m') :
    txQueue m.pl s ++ trace Machine.step (fun a m => m.sends s a) as m
      = trace Machine.step (fun a m => m.accepts s a) as m ++ txQueue m'.pl s :=
  run_queue (fun m => txQueue m.pl s) (fun _ _ _ (h : FdSink s _) _ hstep => h.step hstep)
    (fun _ _ _ h hc hstep => h.queue_step hc hstep) h hc hrun

end Runs

theorem wired_proxy (rx tx : Vectoring) : ProcLocal.Wired (proxy rx tx).pl := fun _ _ => ⟨nofun, nofun⟩

theorem fdSource_proxy : FdSource 0 (proxy emptyRing emptyRing) where
  fd := ⟨⟨3, rfl⟩, nofun⟩
  notListen := nofun
  wired := wired_proxy emptyRing emptyRing
  rings := fun _ => ⟨wf_emptyRing, wf_emptyRing⟩

theorem fdSink_proxy : FdSink 0 (proxy emptyRing emptyRing) where
  fd := ⟨⟨4, rfl⟩, nofun⟩
  wired := wired_proxy emptyRing emptyRing
  rings := fun _ => ⟨wf_emptyRing, wf_emptyRing⟩

/-- A read of two bytes is given three.  They are written back, and one of them is taken. -/
def echoing : List Act :=
  [.play 0, .start, .exec, .exec, .co (.call (.read 0 0 2))] ++
  waitsOnce (.ok [97, 98, 99]) (.err EAGAIN) ++
  [.co .turn, .co .turn, .co (.call (.write 0 0 2)), .co .turn, .co .turn, .co (.call (.flush 0))] ++
  waitsOnce (.err EAGAIN) (.ok 1)

theorem source_exact_proxy : ∃ m', run Machine.step echoing (proxy emptyRing emptyRing) = some m' ∧
    [97, 98, 99] = [97, 98] ++ rxQueue m'.pl 0 := by
  obtain ⟨m', hm'⟩ := Option.isSome_iff_exists.mp
    (by decide +kernel : (run Machine.step echoing (proxy emptyRing emptyRing)).isSome = true)
  have hexact := source_exact fdSource_proxy (by decide +kernel :
    Meets Machine.step (ReadsWithin 0) echoing (proxy emptyRing emptyRing)) hm'
  have hgives : trace Machine.step (fun a m => m.gives 0 a) echoing (proxy emptyRing emptyRing)
      = [97, 98, 99] := by decide +kernel
  have hreceives : trace Machine.step (fun a m => m.receives 0 a) echoing (proxy emptyRing emptyRing)
      = [97, 98] := by decide +kernel
  rw [hgives, hreceives] at hexact
  exact ⟨m', hm', hexact⟩

theorem sink_exact_proxy : ∃ m', run Machine.step echoing (proxy emptyRing emptyRing) = some m' ∧
    [97, 98] = [97] ++ txQueue m'.pl 0 := by
  obtain ⟨m', hm'⟩ := Option.isSome_iff_exists.mp
    (by decide +kernel : (run Machine.step echoing (proxy emptyRing emptyRing)).isSome = true)
  have hexact := sink_exact fdSink_proxy (by decide +kernel :
    Meets Machine.step (WritesWithin 0) echoing (proxy emptyRing emptyRing)) hm'
  have hsends : trace Machine.step (fun a m => m.sends 0 a) echoing (proxy emptyRing emptyRing)
      = [97, 98] := by decide +kernel
  have haccepts : trace Machine.step (fun a m => m.accepts 0 a) echoing (proxy emptyRing emptyRing)
      = [97] := by decide +kernel
  rw [hsends, haccepts] at hexact
  exact ⟨m', hm', hexact⟩

end Vk

/-
# `Mnvkd.HandlerReach` — which rings a handler works on

The handler of socket `a` works on the rings of `a`, on the transmit ring of the
socket it reads from, and on the receive ring of the socket it writes to.  All
other rings keep what they hold, whatever the system answers
(`reach_socketHandler`).  No ring changes its length.
-/
import Mnvkd.HandlerFrame
import Mnvkd.PipeSpec

namespace Vk

open Lib
open Vectoring (SameRing)

/-! ## The length of a ring -/

namespace Vectoring

variable (ring : Vectoring)

theorem bufLen_markReceived (n : Nat) : (ring.markReceived n).bufLen = ring.bufLen := by
  unfold markReceived
  split
  · rfl
  · split
    · rfl
    · split
      · rfl
      · rfl

theorem bufLen_markSent (n : Nat) : (ring.markSent n).bufLen = ring.bufLen := by
  unfold markSent
  split
  · rfl
  · split
    · rfl
    · rfl

theorem bufLen_signedReceived (n : Int) (errno : Errno) :
    (ring.signedReceived n errno).ring.bufLen = ring.bufLen := by
  unfold signedReceived
  split
  · rfl
  · exact bufLen_markReceived _ _

theorem bufLen_signedSent (n : Int) (errno : Errno) :
    (ring.signedSent n errno).ring.bufLen = ring.bufLen := by
  unfold signedSent
  split
  · rfl
  · exact bufLen_markSent _ _

theorem bufLen_read (readv : SysResult (List UInt8)) (errno : Errno) :
    (ring.read readv errno).ring.bufLen = ring.bufLen := by
  cases readv with
  | err e => rw [read_err]
  | ok bytes => exact bufLen_signedReceived _ _ _

theorem bufLen_write (writev : SysResult Nat) (errno : Errno) :
    (ring.write writev errno).ring.bufLen = ring.bufLen := by
  cases hb : ring.txBlocked with
  | true => rw [write_of_blocked hb]
  | false =>
      cases writev with
      | err e => rw [write_err hb]
      | ok n =>
          simp only [write, hb, Bool.false_eq_true, if_false]
          exact bufLen_signedSent _ _ _

theorem bufLen_send (src : Memory UInt8) (buf len : Nat) :
    (ring.send src buf len).1.bufLen = ring.bufLen := by
  unfold send
  split
  · rfl
  · dsimp only
    split
    · rfl
    · exact bufLen_markReceived _ _

theorem bufLen_accept (alloc : Nat) (accepted : SysResult (List UInt8)) (errno : Errno) :
    (ring.accept alloc accepted errno).ring.bufLen = ring.bufLen := by
  unfold accept
  dsimp only
  split
  · rfl
  · cases accepted with
    | err e =>
        refine (bufLen_signedReceived _ _ _).trans ?_
        split
        · rfl
        · rfl
    | ok record => exact bufLen_send _ _ _ _

theorem bufLen_close (rc : SysResult Unit) (errno : Errno) :
    (ring.close rc errno).ring.bufLen = ring.bufLen := by
  cases rc with
  | err e => exact bufLen_signedSent _ _ _
  | ok => exact bufLen_signedSent _ _ _

theorem bufLen_markClosed : ring.markClosed.bufLen = ring.bufLen := by
  unfold markClosed
  split
  · rfl
  · rfl

theorem bufLen_markEof : ring.markEof.bufLen = ring.bufLen := by
  unfold markEof
  split
  · rfl
  · rfl

theorem bufLen_clearEof : ring.clearEof.bufLen = ring.bufLen := by
  unfold clearEof
  split
  · rfl
  · rfl

theorem bufLen_recv (dst : Memory UInt8) (buf len : Nat) :
    (ring.recv dst buf len).ring.bufLen = ring.bufLen := by
  unfold recv
  dsimp only
  split
  · rfl
  · exact bufLen_markSent _ _

/-- One part of a splice. -/
theorem bufLen_recv_part (dst : Memory UInt8) (buf len : Nat) :
    (if len > 0 then ring.recv dst buf len else ⟨ring, dst, len⟩ : Received).ring.bufLen
      = ring.bufLen := by
  split
  · exact bufLen_recv _ _ _ _
  · rfl

theorem bufLen_splice (ringTx : Vectoring) (len : Int) (errno : Errno) :
    (ring.splice ringTx len errno).rx.bufLen = ring.bufLen ∧
      (ring.splice ringTx len errno).tx.bufLen = ringTx.bufLen := by
  show (ring.recvSplice ringTx len errno).rx.bufLen = ring.bufLen ∧
    (ring.recvSplice ringTx len errno).tx.bufLen = ringTx.bufLen
  unfold recvSplice
  dsimp only
  generalize request ring.vectorRx _ = lengths
  have hfirst := bufLen_recv_part ringTx ring.bufStart ring.vectorRx.v0.addr lengths.1
  generalize (if lengths.1 > 0 then _ else _ : Received) = r₀ at hfirst ⊢
  have hsecond := bufLen_recv_part r₀.ring r₀.dst ring.vectorRx.v1.addr lengths.2
  generalize (if lengths.2 > 0 then _ else _ : Received) = r₁ at hsecond ⊢
  split
  · exact ⟨rfl, hfirst⟩
  · split
    · exact ⟨rfl, hsecond.trans hfirst⟩
    · exact ⟨bufLen_markReceived _ _, hsecond.trans hfirst⟩

end Vectoring

/-! ## The reach of a socket -/

/-- From `pl` to `pl'` rings have changed that the handler of socket `a` works on. -/
structure Reach (a : Nat) (pl pl' : ProcLocal) : Prop where
  rx : ∀ c, c ≠ a → (pl.sockets a).txFd.ref ≠ .vkRx c → SameRing (pl.sockets c).rx (pl'.sockets c).rx
  tx : ∀ c, c ≠ a → (pl.sockets a).rxFd.ref ≠ .vkTx c → SameRing (pl.sockets c).tx (pl'.sockets c).tx
  rxFd : ∀ c, (pl'.sockets c).rxFd.ref = (pl.sockets c).rxFd.ref ∧
    (pl'.sockets c).rxFd.fdType = (pl.sockets c).rxFd.fdType
  txFd : ∀ c, (pl'.sockets c).txFd.ref = (pl.sockets c).txFd.ref
  rxLen : ∀ c, (pl'.sockets c).rx.bufLen = (pl.sockets c).rx.bufLen
  txLen : ∀ c, (pl'.sockets c).tx.bufLen = (pl.sockets c).tx.bufLen

section Reach

variable {a b : Nat} {pl pl' pl'' : ProcLocal} {os : Os}

theorem Reach.trans (h : Reach a pl pl') (h' : Reach a pl' pl'') : Reach a pl pl'' where
  rx c hc hfd := (h.rx c hc hfd).trans (h'.rx c hc (by rw [h.txFd]; exact hfd))
  tx c hc hfd := (h.tx c hc hfd).trans (h'.tx c hc (by rw [(h.rxFd a).1]; exact hfd))
  rxFd c := ⟨(h'.rxFd c).1.trans (h.rxFd c).1, (h'.rxFd c).2.trans (h.rxFd c).2⟩
  txFd c := (h'.txFd c).trans (h.txFd c)
  rxLen c := (h'.rxLen c).trans (h.rxLen c)
  txLen c := (h'.txLen c).trans (h.txLen c)

theorem reach_of_sameData (h : SameData pl pl') : Reach a pl pl' where
  rx c _ _ := (h.socket c).rx
  tx c _ _ := (h.socket c).tx
  rxFd c := ⟨(h.socket c).rxRef, (h.socket c).rxType⟩
  txFd c := (h.socket c).txRef
  rxLen c := (h.socket c).rx.bufLen
  txLen c := (h.socket c).tx.bufLen

theorem Reach.settle (h : Reach a pl pl') (h' : Settles pl' pl'') : Reach a pl pl'' :=
  h.trans (reach_of_sameData h'.toSameData)

theorem Reach.after (h' : Reach a pl' pl'') (h : Settles pl pl') : Reach a pl pl'' :=
  (reach_of_sameData h.toSameData).trans h'

namespace ProcLocal

variable (pl)

/-- A receive ring in reach is set. -/
theorem reach_setRx {c : Nat} (hc : c = a ∨ (pl.sockets a).txFd.ref = .vkRx c) {ring : Vectoring}
    (hlen : ring.bufLen = (pl.sockets c).rx.bufLen) : Reach a pl (pl.setRx c ring) where
  rx b hb hfd := by
    rw [setRx_rx]
    split
    · subst b
      exact absurd hc (not_or.mpr ⟨hb, hfd⟩)
    · exact SameRing.refl _
  tx b _ _ := by
    rw [setRx_tx]
    exact SameRing.refl _
  rxFd b := by
    rw [setRx_rxFd]
    exact ⟨rfl, rfl⟩
  txFd b := by rw [setRx_txFd]
  rxLen b := by
    rw [setRx_rx]
    split
    · subst b
      exact hlen
    · rfl
  txLen b := by rw [setRx_tx]

/-- A transmit ring in reach is set. -/
theorem reach_setTx {c : Nat} (hc : c = a ∨ (pl.sockets a).rxFd.ref = .vkTx c) {ring : Vectoring}
    (hlen : ring.bufLen = (pl.sockets c).tx.bufLen) : Reach a pl (pl.setTx c ring) where
  rx b _ _ := by
    rw [setTx_rx]
    exact SameRing.refl _
  tx b hb hfd := by
    rw [setTx_tx]
    split
    · subst b
      exact absurd hc (not_or.mpr ⟨hb, hfd⟩)
    · exact SameRing.refl _
  rxFd b := by
    rw [setTx_rxFd]
    exact ⟨rfl, rfl⟩
  txFd b := by rw [setTx_txFd]
  rxLen b := by rw [setTx_rx]
  txLen b := by
    rw [setTx_tx]
    split
    · subst b
      exact hlen
    · rfl

theorem reach_absorbRx {io : Io} (hlen : io.ring.bufLen = (pl.sockets a).rx.bufLen) :
    Reach a pl (pl.absorbRx a io) :=
  (reach_setRx pl (Or.inl rfl) hlen).settle (settles_absorbRx pl a io)

theorem reach_absorbTx {io : Io} (hlen : io.ring.bufLen = (pl.sockets a).tx.bufLen) :
    Reach a pl (pl.absorbTx a io) :=
  (reach_setTx pl (Or.inl rfl) hlen).settle (settles_absorbTx pl a io)

theorem reach_read (os : Os) :
    Reach a pl (pl.absorbRx a ((pl.sockets a).rx.read os.readv pl.errno)) :=
  reach_absorbRx pl (Vectoring.bufLen_read _ _ _)

theorem reach_write (os : Os) :
    Reach a pl (pl.absorbTx a ((pl.sockets a).tx.write os.writev pl.errno)) :=
  reach_absorbTx pl (Vectoring.bufLen_write _ _ _)

theorem reach_spliceFrom (h : (pl.sockets a).rxFd.ref = .vkTx b) :
    Reach a pl (pl.spliceFrom a b) := by
  obtain ⟨hrx, htx⟩ := Vectoring.bufLen_splice (pl.sockets a).rx (pl.sockets b).tx (-1) pl.errno
  have hsent := reach_setTx pl (Or.inr h) htx
  refine Reach.settle ?_ (settles_spliceFrom pl a b)
  exact hsent.trans (reach_setRx _ (Or.inl rfl) (by rw [setTx_rx]; exact hrx))

theorem reach_spliceTo (h : (pl.sockets a).txFd.ref = .vkRx b) : Reach a pl (pl.spliceTo a b) := by
  obtain ⟨hrx, htx⟩ := Vectoring.bufLen_splice (pl.sockets b).rx (pl.sockets a).tx (-1) pl.errno
  have hsent := reach_setTx pl (Or.inl rfl) htx
  refine Reach.settle ?_ (settles_spliceTo pl a b)
  exact hsent.trans (reach_setRx _ (Or.inr (by rw [setTx_txFd]; exact h))
    (by rw [setTx_rx]; exact hrx))

theorem reach_handleRead (os : Os) : Reach a pl (pl.handleRead a os).pl := by
  cases href : (pl.sockets a).rxFd.ref with
  | osFd fd =>
      simp only [handleRead, href]
      refine Reach.settle ?_ ((settles_enqueueRead _ _).trans (settles_handled _ _))
      split
      · exact reach_absorbRx pl (Vectoring.bufLen_accept _ _ _ _)
      · exact reach_read pl os
  | vkTx b =>
      simp only [handleRead, href]
      exact (reach_spliceFrom pl href).settle ((settles_enqueueRead _ _).trans
        ((settles_enqueueReadwriter _ _ _).trans (settles_handled _ _)))
  | vkRx b =>
      simp only [handleRead, href]
      exact reach_of_sameData ((settles_setErrno _ _).trans (settles_handleBlock _ _)).toSameData

theorem reach_handleWrite (os : Os) : Reach a pl (pl.handleWrite a os).pl := by
  cases href : (pl.sockets a).txFd.ref with
  | osFd fd =>
      simp only [handleWrite, href]
      exact (reach_write pl os).settle ((settles_enqueueWrite _ _).trans (settles_handled _ _))
  | vkRx b =>
      simp only [handleWrite, href]
      exact (reach_spliceTo pl href).settle ((settles_enqueueWrite _ _).trans
        ((settles_enqueueWritereader _ _ _).trans (settles_handled _ _)))
  | vkTx b =>
      simp only [handleWrite, href]
      exact reach_of_sameData ((settles_setErrno _ _).trans (settles_handleBlock _ _)).toSameData

/-- The transmit half of a forward from another socket. -/
theorem reach_forwardTx {pl : ProcLocal} {ref : PipeRef} (h : (pl.sockets a).txFd.ref = ref) :
    Reach a pl (pl.forwardTx a os ref).pl := by
  cases ref with
  | osFd fd =>
      exact (reach_write pl os).settle ((settles_enqueueWrite _ _).trans (settles_handled _ _))
  | vkRx b =>
      exact (reach_spliceTo pl h).settle ((settles_enqueueWrite _ _).trans
        ((settles_enqueueWritereader _ _ _).trans (settles_handled _ _)))
  | vkTx b => exact reach_of_sameData (settles_setErrno _ _).toSameData

/-- The transmit half of a forward from a descriptor. -/
theorem reach_forwardFromFd {pl : ProcLocal} {ref : PipeRef} (h : (pl.sockets a).txFd.ref = ref) :
    Reach a pl (pl.forwardFromFd a os ref).pl := by
  cases ref with
  | osFd fd =>
      exact (reach_write pl os).settle ((settles_enqueueWrite _ _).trans (settles_handled _ _))
  | vkRx b =>
      have hwrite := (reach_spliceTo pl h).settle (settles_enqueueWrite _ a)
      simp only [forwardFromFd]
      split
      · exact hwrite.settle ((settles_enqueueWritereader _ a b).trans
          ((settles_enqueueRun _ _).trans (settles_handled _ a)))
      · exact hwrite.settle (settles_handled _ a)
  | vkTx b => exact reach_of_sameData (settles_setErrno _ _).toSameData

theorem reach_handleForward (os : Os) : Reach a pl (pl.handleForward a os).pl := by
  cases href : (pl.sockets a).rxFd.ref with
  | osFd fd =>
      have hread := (reach_read (a := a) pl os).settle (settles_enqueueRead _ a)
      rw [handleForward_osFd href]
      exact hread.trans (reach_forwardFromFd (hread.txFd a))
  | vkTx b =>
      have hread := (reach_spliceFrom pl href).settle ((settles_enqueueRead _ a).trans
        (settles_enqueueReadwriter _ a b))
      rw [handleForward_vkTx href]
      exact hread.trans (reach_forwardTx (hread.txFd a))
  | vkRx b =>
      simp only [handleForward, href]
      exact reach_of_sameData (settles_setErrno _ _).toSameData

theorem reach_handleReadhup : Reach a pl (pl.handleReadhup a).pl := by
  cases href : (pl.sockets a).rxFd.ref with
  | osFd fd =>
      simp only [handleReadhup, href]
      exact reach_of_sameData ((settles_enqueueRead _ _).trans (settles_handled _ _)).toSameData
  | vkTx b =>
      rw [handleReadhup_eq href]
      split
      · have htaken := reach_setTx pl (Or.inr href) (Vectoring.bufLen_clearEof (pl.sockets b).tx)
        refine Reach.settle ?_ ((settles_enqueueRead _ a).trans
          ((settles_enqueueReadwriter _ a b).trans (settles_handled _ a)))
        exact htaken.trans (reach_setRx _ (Or.inl rfl)
          (by rw [setTx_rx]; exact Vectoring.bufLen_markEof _))
      · exact reach_of_sameData (settles_handled _ _).toSameData
  | vkRx b =>
      simp only [handleReadhup, href]
      exact reach_of_sameData (settles_setErrno _ _).toSameData

theorem reach_closeRx (rc : SysResult Unit) : Reach a pl (pl.closeRx a rc).pl := by
  cases href : (pl.sockets a).rxFd.ref with
  | osFd fd =>
      have hclose : Reach a pl (pl.absorbRx a ((pl.sockets a).rx.close rc pl.errno)) :=
        reach_absorbRx pl (Vectoring.bufLen_close _ _ _)
      simp only [closeRx, href]
      refine Reach.settle ?_ ((settles_enqueueRead _ _).trans (settles_closed _ _))
      exact hclose.trans (reach_setRx _ (Or.inl rfl) (Vectoring.bufLen_markClosed _))
  | vkTx b | vkRx b =>
      simp only [closeRx, href]
      exact reach_of_sameData ((settles_enqueueRead _ _).trans (settles_closed _ _)).toSameData

/-- A transmit side on a descriptor is closed by a call on its ring. -/
theorem reach_closeTx {io : Io} (hlen : io.ring.bufLen = (pl.sockets a).tx.bufLen) :
    Reach a pl ((((pl.absorbTx a io).setTx a
      ((pl.absorbTx a io).sockets a).tx.markClosed).enqueueWrite a).closed a).pl := by
  refine Reach.settle ?_ ((settles_enqueueWrite _ _).trans (settles_closed _ _))
  exact (reach_absorbTx pl hlen).trans (reach_setTx _ (Or.inl rfl) (Vectoring.bufLen_markClosed _))

theorem reach_handleTxClose (os : Os) : Reach a pl (pl.handleTxClose a os).pl := by
  cases href : (pl.sockets a).txFd.ref with
  | osFd fd =>
      simp only [handleTxClose, href]
      exact reach_closeTx pl (Vectoring.bufLen_close _ _ _)
  | vkTx b | vkRx b =>
      simp only [handleTxClose, href]
      exact (reach_setTx pl (Or.inl rfl) (Vectoring.bufLen_markEof _)).settle
        ((settles_enqueueWrite _ _).trans ((settles_enqueueWritereader _ _ _).trans
          (settles_closed _ _)))

theorem reach_handleTxShutdown (os : Os) : Reach a pl (pl.handleTxShutdown a os).pl := by
  cases href : (pl.sockets a).txFd.ref with
  | osFd fd =>
      simp only [handleTxShutdown, href]
      exact reach_closeTx pl (Vectoring.bufLen_close _ _ _)
  | vkTx b | vkRx b =>
      simp only [handleTxShutdown, href]
      exact reach_of_sameData ((settles_enqueueWrite _ _).trans (settles_closed _ _)).toSameData

/-- A handler works on the rings in the reach of its socket. -/
theorem reach_socketHandler (os : Os) : Reach a pl (pl.socketHandler a os).pl := by
  cases hop : (pl.sockets a).block.op <;> simp only [socketHandler, hop]
  case none => exact reach_of_sameData (SameData.refl pl)
  case read =>
      have hread := reach_handleRead (a := a) pl os
      split
      · exact hread
      · split
        · exact hread.trans (reach_handleWrite _ os)
        · exact hread
  case write => exact reach_handleWrite pl os
  case forward => exact reach_handleForward pl os
  case flush => exact reach_handleWrite pl os
  case hup => exact reach_of_sameData (settles_handleHup pl a).toSameData
  case readhup => exact reach_handleReadhup pl
  case txClose => exact reach_handleTxClose pl os
  case rxClose => exact reach_closeRx pl _
  case rxShutdown => exact reach_closeRx pl _
  case txShutdown => exact reach_handleTxShutdown pl os
  case readable => exact reach_of_sameData (settles_handleReadable pl a).toSameData
  case writable => exact reach_of_sameData (settles_handleWritable pl a).toSameData

end ProcLocal

end Reach

end Vk

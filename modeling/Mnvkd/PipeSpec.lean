/-
# `Mnvkd.PipeSpec` — what the handlers do to a virtual pipe

Two sockets are joined when the transmit ring of one is what the other reads
from (`Joined`).  Whichever socket a handler is for, and whatever it does there,
of the pipe it moves bytes from the front of the writer's transmit ring to the
back of the reader's receive ring, and it leaves EOF alone (`Transfers`); only
closing the writer's side and reading the reader's hang-up change EOF, and these
move nothing.
-/
import Mnvkd.HandlerFrame

namespace Vk

open Lib

/-- Socket `w` writes to socket `r`, and no other socket is at the pipe between
them. -/
structure Joined (pl : ProcLocal) (w r : Nat) : Prop where
  txRef : (pl.sockets w).txFd.ref = .vkRx r
  rxRef : (pl.sockets r).rxFd.ref = .vkTx w
  onlyReader : ∀ s, (pl.sockets s).rxFd.ref = .vkTx w → s = r
  onlyWriter : ∀ s, (pl.sockets s).txFd.ref = .vkRx r → s = w
  ne : w ≠ r
  wf : ∀ s, (pl.sockets s).rx.Wf ∧ (pl.sockets s).tx.Wf

/-- The bytes on the way from `w` to `r`. -/
def txQueue (pl : ProcLocal) (w : Nat) : List UInt8 := (pl.sockets w).tx.queue

def rxQueue (pl : ProcLocal) (r : Nat) : List UInt8 := (pl.sockets r).rx.queue

/-- From `pl` to `pl'` bytes move along the pipe, and the wiring stays. -/
structure Moves (w r : Nat) (pl pl' : ProcLocal) : Prop where
  rxRef : ∀ s, (pl'.sockets s).rxFd.ref = (pl.sockets s).rxFd.ref
  txRef : ∀ s, (pl'.sockets s).txFd.ref = (pl.sockets s).txFd.ref
  wf : ∀ s, (pl'.sockets s).rx.Wf ∧ (pl'.sockets s).tx.Wf
  moved : ∃ n ≤ (txQueue pl w).length, txQueue pl' w = (txQueue pl w).drop n ∧
    rxQueue pl' r = rxQueue pl r ++ (txQueue pl w).take n

/-- Besides, EOF stays as it is on the writer's side. -/
structure Transfers (w r : Nat) (pl pl' : ProcLocal) : Prop extends Moves w r pl pl' where
  eof : (pl'.sockets w).tx.eof = (pl.sockets w).tx.eof

section Pipe

variable {pl pl' pl'' : ProcLocal} {w r s : Nat}

theorem Joined.of_moves (hj : Joined pl w r) (h : Moves w r pl pl') : Joined pl' w r where
  txRef := by rw [h.txRef, hj.txRef]
  rxRef := by rw [h.rxRef, hj.rxRef]
  onlyReader s hs := hj.onlyReader s (by rw [← h.rxRef]; exact hs)
  onlyWriter s hs := hj.onlyWriter s (by rw [← h.txRef]; exact hs)
  ne := hj.ne
  wf := h.wf

/-- Two moves in a row are one. -/
theorem Moves.trans (h : Moves w r pl pl') (h' : Moves w r pl' pl'') : Moves w r pl pl'' := by
  refine ⟨fun s => (h'.rxRef s).trans (h.rxRef s), fun s => (h'.txRef s).trans (h.txRef s), h'.wf, ?_⟩
  obtain ⟨n, hn, htx, hrx⟩ := h.moved
  obtain ⟨k, hk, htx', hrx'⟩ := h'.moved
  rw [htx, List.length_drop] at hk
  refine ⟨n + k, by omega, ?_, ?_⟩
  · rw [htx', htx, List.drop_drop]
  · rw [hrx', hrx, htx, List.append_assoc, List.take_add]

theorem Transfers.trans (h : Transfers w r pl pl') (h' : Transfers w r pl' pl'') :
    Transfers w r pl pl'' :=
  ⟨h.toMoves.trans h'.toMoves, h'.eof.trans h.eof⟩

/-- Where the data is the same nothing has moved. -/
theorem transfers_of_sameData (hj : Joined pl w r) (h : SameData pl pl') : Transfers w r pl pl' where
  rxRef s := (h.socket s).rxRef
  txRef s := (h.socket s).txRef
  wf s := ⟨(h.socket s).rx.wf (hj.wf s).1, (h.socket s).tx.wf (hj.wf s).2⟩
  moved := ⟨0, Nat.zero_le _, by rw [txQueue, (h.socket w).tx.queue]; rfl,
    by rw [rxQueue, (h.socket r).rx.queue]; simp [rxQueue]⟩
  eof := (h.socket w).tx.eof

/-- Waking and blocking move nothing. -/
theorem transfers_of_settles (hj : Joined pl w r) (h : Settles pl pl') : Transfers w r pl pl' :=
  transfers_of_sameData hj h.toSameData

theorem Transfers.settle (h : Transfers w r pl pl') (hj : Joined pl w r) (h' : Settles pl' pl'') :
    Transfers w r pl pl'' :=
  h.trans (transfers_of_settles (hj.of_moves h.toMoves) h')

/-! ## Rings -/

/-- A receive ring changes; the reader's keeps its bytes. -/
theorem transfers_setRx (hj : Joined pl w r) {ring : Vectoring} (hwf : ring.Wf)
    (hq : s = r → ring.queue = rxQueue pl r) : Transfers w r pl (pl.setRx s ring) := by
  refine ⟨⟨fun a => congrArg Pipe.ref (pl.setRx_rxFd s a ring),
    fun a => congrArg Pipe.ref (pl.setRx_txFd s a ring), fun a => ?_, 0, Nat.zero_le _, ?_, ?_⟩, ?_⟩
  · rw [ProcLocal.setRx_tx, ProcLocal.setRx_rx]
    refine ⟨?_, (hj.wf a).2⟩
    split
    · exact hwf
    · exact (hj.wf a).1
  · rw [txQueue, ProcLocal.setRx_tx]
    rfl
  · rw [rxQueue, ProcLocal.setRx_rx, List.take_zero, List.append_nil]
    split
    · exact hq (Eq.symm ‹_›)
    · rfl
  · rw [ProcLocal.setRx_tx]

theorem moves_setTx (hj : Joined pl w r) {ring : Vectoring} (hwf : ring.Wf)
    (hq : s = w → ring.queue = txQueue pl w) : Moves w r pl (pl.setTx s ring) := by
  refine ⟨fun a => congrArg Pipe.ref (pl.setTx_rxFd s a ring),
    fun a => congrArg Pipe.ref (pl.setTx_txFd s a ring), fun a => ?_, 0, Nat.zero_le _, ?_, ?_⟩
  · rw [ProcLocal.setTx_rx, ProcLocal.setTx_tx]
    refine ⟨(hj.wf a).1, ?_⟩
    split
    · exact hwf
    · exact (hj.wf a).2
  · rw [txQueue, ProcLocal.setTx_tx, List.drop_zero]
    split
    · exact hq (Eq.symm ‹_›)
    · rfl
  · rw [rxQueue, ProcLocal.setTx_rx, List.take_zero, List.append_nil]
    rfl

theorem transfers_setTx (hj : Joined pl w r) {ring : Vectoring} (hwf : ring.Wf)
    (hq : s = w → ring.queue = txQueue pl w) (heof : s = w → ring.eof = (pl.sockets w).tx.eof) :
    Transfers w r pl (pl.setTx s ring) := by
  refine ⟨moves_setTx hj hwf hq, ?_⟩
  rw [ProcLocal.setTx_tx]
  split
  · exact heof (Eq.symm ‹_›)
  · rfl

/-- A splice from the transmit ring of `a` to the receive ring of `b` moves bytes
along the pipe if it is the one between them, and none of its bytes if not. -/
theorem transfers_spliced (hj : Joined pl w r) {a b : Nat} (hab : a = w ↔ b = r) :
    Transfers w r pl (pl.spliced a b) := by
  obtain ⟨-, -, hrx, htx⟩ := (hj.wf b).1.splice (hj.wf a).2 (-1) pl.errno
  generalize hn : Vectoring.spliceLen (pl.sockets b).rx (pl.sockets a).tx (-1) = n at hrx htx
  have hle : n ≤ (pl.sockets a).tx.queue.length := by
    rw [← hn, Vectoring.length_queue]
    exact (Vectoring.spliceLen_le _ _ _).2
  have hsockets : ∀ c,
      ((pl.spliced a b).sockets c).tx = (if c = a then
        ((pl.sockets b).rx.splice (pl.sockets a).tx (-1) pl.errno).tx else (pl.sockets c).tx) ∧
      ((pl.spliced a b).sockets c).rx = (if c = b then
        ((pl.sockets b).rx.splice (pl.sockets a).tx (-1) pl.errno).rx else (pl.sockets c).rx) :=
    fun c => by
      unfold ProcLocal.spliced
      rw [ProcLocal.setRx_tx, ProcLocal.setTx_tx, ProcLocal.setRx_rx, ProcLocal.setTx_rx]
      exact ⟨rfl, rfl⟩
  refine ⟨⟨fun c => ?_, fun c => ?_, fun c => ?_, ?_⟩, ?_⟩
  · rw [ProcLocal.spliced, ProcLocal.setRx_rxFd, ProcLocal.setTx_rxFd]
  · rw [ProcLocal.spliced, ProcLocal.setRx_txFd, ProcLocal.setTx_txFd]
  · rw [(hsockets c).1, (hsockets c).2]
    constructor
    · split
      · exact hrx.wf
      · exact (hj.wf c).1
    · split
      · exact htx.wf
      · exact (hj.wf c).2
  · simp only [txQueue, rxQueue, (hsockets w).1, (hsockets r).2]
    by_cases ha : a = w
    · obtain rfl := hab.mp ha
      subst ha
      rw [if_pos rfl, if_pos rfl]
      exact ⟨n, hle, htx.queue, hrx.queue⟩
    · have hb : b ≠ r := fun h => ha (hab.mpr h)
      rw [if_neg (Ne.symm ha), if_neg (Ne.symm hb)]
      exact ⟨0, Nat.zero_le _, rfl, by simp⟩
  · rw [(hsockets w).1]
    split
    · subst a
      rw [htx.flags.eof]
      rfl
    · rfl

end Pipe

/-! ## The handlers -/

namespace ProcLocal

variable {pl : ProcLocal} {w r s : Nat} {os : Os}

theorem transfers_absorbRx (hj : Joined pl w r) (hs : s ≠ r) {io : Io} (hwf : io.ring.Wf) :
    Transfers w r pl (pl.absorbRx s io) :=
  (transfers_setRx hj hwf fun h => absurd h hs).settle hj (settles_absorbRx pl s io)

theorem transfers_absorbTx (hj : Joined pl w r) (hs : s ≠ w) {io : Io} (hwf : io.ring.Wf) :
    Transfers w r pl (pl.absorbTx s io) :=
  (transfers_setTx hj hwf (fun h => absurd h hs) fun h => absurd h hs).settle hj
    (settles_absorbTx pl s io)

theorem transfers_spliceFrom (hj : Joined pl w r) {a : Nat} (ha : a = w ↔ s = r) :
    Transfers w r pl (pl.spliceFrom s a) :=
  (transfers_spliced hj ha).settle hj (settles_spliceFrom pl s a)

theorem transfers_spliceTo (hj : Joined pl w r) {b : Nat} (hb : s = w ↔ b = r) :
    Transfers w r pl (pl.spliceTo s b) :=
  (transfers_spliced hj hb).settle hj (settles_spliceTo pl s b)

/-- A socket that reads from a descriptor is not the reader of the pipe. -/
theorem ne_reader_of_osFd (hj : Joined pl w r) {fd : Int} (h : (pl.sockets s).rxFd.ref = .osFd fd) :
    s ≠ r := by
  rintro rfl
  rw [hj.rxRef] at h
  cases h

theorem ne_writer_of_osFd (hj : Joined pl w r) {fd : Int} (h : (pl.sockets s).txFd.ref = .osFd fd) :
    s ≠ w := by
  rintro rfl
  rw [hj.txRef] at h
  cases h

/-- One that reads from the writer's transmit ring is. -/
theorem reader_iff (hj : Joined pl w r) {a : Nat} (h : (pl.sockets s).rxFd.ref = .vkTx a) :
    a = w ↔ s = r := by
  constructor
  · rintro rfl
    exact hj.onlyReader s h
  · rintro rfl
    rw [hj.rxRef] at h
    cases h
    rfl

theorem writer_iff (hj : Joined pl w r) {b : Nat} (h : (pl.sockets s).txFd.ref = .vkRx b) :
    s = w ↔ b = r := by
  constructor
  · rintro rfl
    rw [hj.txRef] at h
    cases h
    rfl
  · rintro rfl
    exact hj.onlyWriter s h

theorem transfers_handleRead (hj : Joined pl w r) : Transfers w r pl (pl.handleRead s os).pl := by
  cases href : (pl.sockets s).rxFd.ref with
  | osFd fd =>
      simp only [handleRead, href]
      refine Transfers.settle ?_ hj ((settles_enqueueRead _ _).trans (settles_handled _ _))
      split
      · exact transfers_absorbRx hj (ne_reader_of_osFd hj href) ((hj.wf s).1.of_accept _ _ _)
      · exact transfers_absorbRx hj (ne_reader_of_osFd hj href) ((hj.wf s).1.of_read _ _)
  | vkTx a =>
      simp only [handleRead, href]
      exact (transfers_spliceFrom hj (reader_iff hj href)).settle hj ((settles_enqueueRead _ _).trans
        ((settles_enqueueReadwriter _ _ _).trans (settles_handled _ _)))
  | vkRx a =>
      simp only [handleRead, href]
      exact transfers_of_settles hj ((settles_setErrno _ _).trans (settles_handleBlock _ _))

theorem transfers_handleWrite (hj : Joined pl w r) : Transfers w r pl (pl.handleWrite s os).pl := by
  cases href : (pl.sockets s).txFd.ref with
  | osFd fd =>
      simp only [handleWrite, href]
      exact (transfers_absorbTx hj (ne_writer_of_osFd hj href) ((hj.wf s).2.of_write _ _)).settle hj
        ((settles_enqueueWrite _ _).trans (settles_handled _ _))
  | vkRx b =>
      simp only [handleWrite, href]
      exact (transfers_spliceTo hj (writer_iff hj href)).settle hj ((settles_enqueueWrite _ _).trans
        ((settles_enqueueWritereader _ _ _).trans (settles_handled _ _)))
  | vkTx b =>
      simp only [handleWrite, href]
      exact transfers_of_settles hj ((settles_setErrno _ _).trans (settles_handleBlock _ _))

/-- Reading is followed by writing to whatever the transmit side leads to. -/
theorem transfers_forwardTx (hj : Joined pl w r) :
    Transfers w r pl (pl.forwardTx s os (pl.sockets s).txFd.ref).pl := by
  cases href : (pl.sockets s).txFd.ref with
  | osFd fd =>
      exact (transfers_absorbTx hj (ne_writer_of_osFd hj href) ((hj.wf s).2.of_write _ _)).settle hj
        ((settles_enqueueWrite _ _).trans (settles_handled _ _))
  | vkRx b =>
      exact (transfers_spliceTo hj (writer_iff hj href)).settle hj ((settles_enqueueWrite _ _).trans
        ((settles_enqueueWritereader _ _ _).trans (settles_handled _ _)))
  | vkTx b => exact transfers_of_settles hj (settles_setErrno _ _)

/-- Where a descriptor is forwarded to another socket, the reader is also woken
when its receive ring was blocked. -/
theorem transfers_forwardFromFd (hj : Joined pl w r) :
    Transfers w r pl (pl.forwardFromFd s os (pl.sockets s).txFd.ref).pl := by
  cases href : (pl.sockets s).txFd.ref with
  | osFd fd =>
      exact (transfers_absorbTx hj (ne_writer_of_osFd hj href) ((hj.wf s).2.of_write _ _)).settle hj
        ((settles_enqueueWrite _ _).trans (settles_handled _ _))
  | vkRx b =>
      have hwrite := (transfers_spliceTo hj (writer_iff hj href)).settle hj (settles_enqueueWrite _ s)
      simp only [forwardFromFd]
      split
      · exact hwrite.settle hj ((settles_enqueueWritereader _ s b).trans
          ((settles_enqueueRun _ _).trans (settles_handled _ s)))
      · exact hwrite.settle hj (settles_handled _ s)
  | vkTx b => exact transfers_of_settles hj (settles_setErrno _ _)

theorem transfers_handleForward (hj : Joined pl w r) :
    Transfers w r pl (pl.handleForward s os).pl := by
  cases href : (pl.sockets s).rxFd.ref with
  | osFd fd =>
      have hread := (transfers_absorbRx hj (ne_reader_of_osFd hj href)
        ((hj.wf s).1.of_read os.readv pl.errno)).settle hj (settles_enqueueRead _ s)
      rw [handleForward_osFd href, ← hread.txRef s]
      exact hread.trans (transfers_forwardFromFd (hj.of_moves hread.toMoves))
  | vkTx a =>
      have hread := (transfers_spliceFrom hj (reader_iff hj href)).settle hj
        ((settles_enqueueRead _ s).trans (settles_enqueueReadwriter _ s a))
      rw [handleForward_vkTx href, ← hread.txRef s]
      exact hread.trans (transfers_forwardTx (hj.of_moves hread.toMoves))
  | vkRx a =>
      simp only [handleForward, href]
      exact transfers_of_settles hj (settles_setErrno _ _)

theorem transfers_handleHup (hj : Joined pl w r) : Transfers w r pl (pl.handleHup s).pl := by
  refine transfers_of_settles hj ?_
  cases href : (pl.sockets s).txFd.ref with
  | osFd fd =>
      simp only [handleHup, href]
      exact (settles_enqueueWrite _ s).trans (settles_handled _ s)
  | vkRx b =>
      simp only [handleHup, href]
      split
      · exact (settles_enqueueWrite _ s).trans
          ((settles_enqueueWritereader _ s b).trans (settles_handled _ s))
      · exact settles_handled _ s
  | vkTx b =>
      simp only [handleHup, href]
      exact settles_setErrno _ _

theorem wf_markClosed {ring : Vectoring} (h : ring.Wf) : ring.markClosed.Wf := by
  unfold Vectoring.markClosed
  split
  · exact h
  · exact h.congr rfl rfl rfl rfl rfl h.error_nonneg

theorem transfers_closeRx (hj : Joined pl w r) (rc : SysResult Unit) :
    Transfers w r pl (pl.closeRx s rc).pl := by
  cases href : (pl.sockets s).rxFd.ref with
  | osFd fd =>
      have hs := ne_reader_of_osFd hj href
      have hclose := transfers_absorbRx hj hs ((hj.wf s).1.of_close rc pl.errno)
      have hj' := hj.of_moves hclose.toMoves
      simp only [closeRx, href]
      exact (hclose.trans (transfers_setRx hj' (wf_markClosed (hj'.wf s).1)
        fun h => absurd h hs)).settle hj ((settles_enqueueRead _ _).trans (settles_closed _ _))
  | vkTx a | vkRx a =>
      simp only [closeRx, href]
      exact transfers_of_settles hj ((settles_enqueueRead _ _).trans (settles_closed _ _))

/-- A descriptor's transmit side is closed, by a call that leaves its ring in `io`. -/
theorem transfers_closeTx (hj : Joined pl w r) (hs : s ≠ w) {io : Io} (hwf : io.ring.Wf) :
    Transfers w r pl ((((pl.absorbTx s io).setTx s
      ((pl.absorbTx s io).sockets s).tx.markClosed).enqueueWrite s).closed s).pl := by
  have hclose := transfers_absorbTx hj hs hwf
  have hj' := hj.of_moves hclose.toMoves
  exact (hclose.trans (transfers_setTx hj' (wf_markClosed (hj'.wf s).2) (fun h => absurd h hs)
    fun h => absurd h hs)).settle hj ((settles_enqueueWrite _ _).trans (settles_closed _ _))

theorem transfers_handleTxShutdown (hj : Joined pl w r) :
    Transfers w r pl (pl.handleTxShutdown s os).pl := by
  cases href : (pl.sockets s).txFd.ref with
  | osFd fd =>
      simp only [handleTxShutdown, href]
      exact transfers_closeTx hj (ne_writer_of_osFd hj href) ((hj.wf s).2.of_close _ _)
  | vkTx a | vkRx a =>
      simp only [handleTxShutdown, href]
      exact transfers_of_settles hj ((settles_enqueueWrite _ _).trans (settles_closed _ _))

/-! ## EOF -/

theorem wf_markEof {ring : Vectoring} (h : ring.Wf) : ring.markEof.Wf := by
  unfold Vectoring.markEof
  split
  · exact h
  · exact h.congr rfl rfl rfl rfl rfl h.error_nonneg

theorem wf_clearEof {ring : Vectoring} (h : ring.Wf) : ring.clearEof.Wf := by
  unfold Vectoring.clearEof
  split
  · exact h.congr rfl rfl rfl rfl rfl h.error_nonneg
  · exact h

@[simp] theorem queue_markEof (ring : Vectoring) : ring.markEof.queue = ring.queue := by
  unfold Vectoring.markEof
  split <;> rfl

@[simp] theorem queue_clearEof (ring : Vectoring) : ring.clearEof.queue = ring.queue := by
  unfold Vectoring.clearEof
  split <;> rfl

@[simp] theorem eof_markEof (ring : Vectoring) : ring.markEof.eof = true := by
  unfold Vectoring.markEof
  split
  · assumption
  · rfl

@[simp] theorem eof_clearEof (ring : Vectoring) : ring.clearEof.eof = false := by
  unfold Vectoring.clearEof
  split
  · rfl
  · simpa using ‹¬ring.eof = true›

/-- Closing the transmit side marks EOF on the writer's ring, and moves nothing. -/
theorem moves_handleTxClose (hj : Joined pl w r) : Moves w r pl (pl.handleTxClose s os).pl := by
  cases href : (pl.sockets s).txFd.ref with
  | osFd fd =>
      simp only [handleTxClose, href]
      exact (transfers_closeTx hj (ne_writer_of_osFd hj href) ((hj.wf s).2.of_close _ _)).toMoves
  | vkTx b | vkRx b =>
      have hmark := moves_setTx hj (s := s) (wf_markEof (hj.wf s).2) fun h => by
        rw [queue_markEof, h]
        rfl
      simp only [handleTxClose, href]
      exact hmark.trans (transfers_of_settles (hj.of_moves hmark) ((settles_enqueueWrite _ _).trans
        ((settles_enqueueWritereader _ _ _).trans (settles_closed _ _)))).toMoves

theorem transfers_handleTxClose (hj : Joined pl w r) (hs : s ≠ w) :
    Transfers w r pl (pl.handleTxClose s os).pl := by
  refine ⟨moves_handleTxClose hj, ?_⟩
  cases href : (pl.sockets s).txFd.ref with
  | osFd fd =>
      simp only [handleTxClose, href]
      exact (transfers_closeTx hj hs ((hj.wf s).2.of_close _ _)).eof
  | vkTx b | vkRx b =>
      have hmark := transfers_setTx hj (s := s) (wf_markEof (hj.wf s).2) (fun h => absurd h hs)
        fun h => absurd h hs
      simp only [handleTxClose, href]
      exact (hmark.settle hj ((settles_enqueueWrite _ _).trans
        ((settles_enqueueWritereader _ _ _).trans (settles_closed _ _)))).eof

/-- What reading a hang-up does to the two rings it is between. -/
theorem moves_forwardhup (hj : Joined pl w r) (a : Nat) :
    Moves w r pl ((pl.setTx a (pl.sockets a).tx.clearEof).setRx s (pl.sockets s).rx.markEof) := by
  have hclear := moves_setTx hj (s := a) (wf_clearEof (hj.wf a).2) fun h => by
    rw [queue_clearEof, h]
    rfl
  have hj' := hj.of_moves hclear
  refine hclear.trans (transfers_setRx hj' (wf_markEof (hj.wf s).1) fun h => ?_).toMoves
  rw [queue_markEof, rxQueue, setTx_rx, h]

theorem moves_handleReadhup (hj : Joined pl w r) : Moves w r pl (pl.handleReadhup s).pl := by
  cases href : (pl.sockets s).rxFd.ref with
  | osFd fd =>
      simp only [handleReadhup, href]
      exact (transfers_of_settles hj ((settles_enqueueRead _ _).trans (settles_handled _ _))).toMoves
  | vkTx a =>
      have htake := moves_forwardhup hj (s := s) a
      rw [handleReadhup_eq href]
      split
      · exact htake.trans (transfers_of_settles (hj.of_moves htake) ((settles_enqueueRead _ s).trans
          ((settles_enqueueReadwriter _ s a).trans (settles_handled _ s)))).toMoves
      · exact (transfers_of_settles hj (settles_handled _ _)).toMoves
  | vkRx a =>
      simp only [handleReadhup, href]
      exact (transfers_of_settles hj (settles_setErrno _ _)).toMoves

/-- Off the writer's ring it is taken only for the reader. -/
theorem eof_handleReadhup (hj : Joined pl w r) :
    ((pl.handleReadhup s).pl.sockets w).tx.eof = ((pl.sockets w).tx.eof && decide (s ≠ r)) := by
  have hsettles : ∀ {pl' : ProcLocal}, Settles pl pl' → (s = r → (pl.sockets w).tx.eof = false) →
      (pl'.sockets w).tx.eof = ((pl.sockets w).tx.eof && decide (s ≠ r)) := fun h hr => by
    rw [(h.socket w).tx.eof]
    by_cases hs : s = r
    · simp [hr hs]
    · simp [hs]
  cases href : (pl.sockets s).rxFd.ref with
  | osFd fd =>
      simp only [handleReadhup, href]
      exact hsettles ((settles_enqueueRead _ _).trans (settles_handled _ _)) fun h =>
        absurd h (ne_reader_of_osFd hj href)
  | vkTx a =>
      rw [handleReadhup_eq href]
      split
      · have htake : Settles _ ((((pl.setTx a (pl.sockets a).tx.clearEof).setRx s
            (pl.sockets s).rx.markEof).enqueueRead s).enqueueReadwriter s a |>.handled s).pl :=
          (settles_enqueueRead _ s).trans ((settles_enqueueReadwriter _ s a).trans
            (settles_handled _ s))
        rw [(htake.socket w).tx.eof, setRx_tx, setTx_tx]
        by_cases hs : s = r
        · rw [if_pos ((reader_iff hj href).mpr hs).symm, eof_clearEof]
          simp [hs]
        · rw [if_neg fun h => hs ((reader_iff hj href).mp h.symm)]
          simp [hs]
      · rename_i heof
        exact hsettles (settles_handled _ _) fun hs => by
          rw [← (reader_iff hj href).mpr hs]
          simpa using heof
  | vkRx a =>
      simp only [handleReadhup, href]
      exact hsettles (settles_setErrno _ _) fun hs => by
        rw [hs, hj.rxRef] at href
        cases href

theorem transfers_handleReadhup (hj : Joined pl w r) (hs : s ≠ r) :
    Transfers w r pl (pl.handleReadhup s).pl :=
  ⟨moves_handleReadhup hj, by rw [eof_handleReadhup hj]; simp [hs]⟩

/-! ## All of them -/

/-- A read is followed by a flush if need be. -/
theorem transfers_readFlush (hj : Joined pl w r) :
    Transfers w r pl (if (pl.handleRead s os).rc = -1 then pl.handleRead s os
      else if lazyFlush ((pl.handleRead s os).pl.sockets s) then (pl.handleRead s os).pl.handleWrite s os
      else pl.handleRead s os).pl := by
  have hread := @transfers_handleRead pl w r s os hj
  split
  · exact hread
  · split
    · exact hread.trans (transfers_handleWrite (hj.of_moves hread.toMoves))
    · exact hread

/-- The handler of any socket transfers, unless it closes the writer's side or
reads the reader's hang-up. -/
theorem transfers_socketHandler (hj : Joined pl w r)
    (hclose : (pl.sockets s).block.op = .txClose → s ≠ w)
    (hreadhup : (pl.sockets s).block.op = .readhup → s ≠ r) :
    Transfers w r pl (pl.socketHandler s os).pl := by
  cases hop : (pl.sockets s).block.op <;> simp only [socketHandler, hop]
  case none => exact transfers_of_settles hj (Settles.refl pl)
  case read => exact transfers_readFlush hj
  case write => exact transfers_handleWrite hj
  case forward => exact transfers_handleForward hj
  case flush => exact transfers_handleWrite hj
  case hup => exact transfers_handleHup hj
  case readhup => exact transfers_handleReadhup hj (hreadhup hop)
  case txClose => exact transfers_handleTxClose hj (hclose hop)
  case rxClose => exact transfers_closeRx hj _
  case rxShutdown => exact transfers_closeRx hj _
  case txShutdown => exact transfers_handleTxShutdown hj
  case readable => exact transfers_of_settles hj (settles_handleReadable pl s)
  case writable => exact transfers_of_settles hj (settles_handleWritable pl s)

/-- It moves bytes in any case. -/
theorem moves_socketHandler (hj : Joined pl w r) : Moves w r pl (pl.socketHandler s os).pl := by
  by_cases hclose : (pl.sockets s).block.op = .txClose
  · simp only [socketHandler, hclose]
    exact moves_handleTxClose hj
  · by_cases hreadhup : (pl.sockets s).block.op = .readhup
    · simp only [socketHandler, hreadhup]
      exact moves_handleReadhup hj
    · exact (transfers_socketHandler hj (fun h => absurd h hclose) fun h => absurd h hreadhup).toMoves

end ProcLocal

end Vk

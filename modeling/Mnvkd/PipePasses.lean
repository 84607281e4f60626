/-
# `Mnvkd.PipePasses` — bytes that move wake both ends

When bytes move along a virtual pipe they leave an effect on both rings, and the
handler that has moved them readies the threads of both sockets.  So every handler
lets the pipe rest, or readies both threads (`passes_socketHandler`); and the handler
of an end that has something to move readies both (`roused_writer`, `roused_reader`).

One handler moves bytes and may ready nobody: a forward from a descriptor readies the
reader only where the splice leaves its receive ring blocked, with more room left than
it has filled (`HandsOver`).
-/
import Mnvkd.ForwardHandler

namespace Vk

open Lib

/-! ## What moves along a pipe -/

/-- Who does not wait stays so through a handler. -/
theorem Handles.not_asleep {pl pl' : ProcLocal} {s : Nat} (h : Handles pl pl')
    (hawake : ¬pl.Asleep s) : ¬pl'.Asleep s := by
  unfold ProcLocal.Asleep at hawake ⊢
  rw [show pl'.blockedVk s = pl.blockedVk s from (h.block s).blockedVk]
  exact ProcLocal.Rouses.not_wait h.status hawake

namespace ProcLocal

/-- Nothing has moved between `w` and `r`. -/
def Rested (w r : Nat) (pl pl' : ProcLocal) : Prop :=
  txQueue pl' w = txQueue pl w ∧ rxQueue pl' r = rxQueue pl r

/-- The threads that the ends of the pipe block do not wait. -/
def Roused (w r : Nat) (pl : ProcLocal) : Prop := ¬pl.Asleep w ∧ ¬pl.Asleep r

/-- Either nothing has moved, or both threads have been readied. -/
structure Passes (w r : Nat) (pl pl' : ProcLocal) : Prop extends Handles pl pl' where
  pass : Rested w r pl pl' ∨ Roused w r pl'

section Passes

variable {pl pl' pl'' : ProcLocal} {w r s : Nat} {os : Os}

theorem Roused.handles (h : Roused w r pl) (h' : Handles pl pl') : Roused w r pl' :=
  ⟨h'.not_asleep h.1, h'.not_asleep h.2⟩

theorem Rested.trans (h : Rested w r pl pl') (h' : Rested w r pl' pl'') : Rested w r pl pl'' :=
  ⟨h'.1.trans h.1, h'.2.trans h.2⟩

theorem Rested.of_sameData (h : SameData pl pl') : Rested w r pl pl' :=
  ⟨(h.socket w).tx.queue, (h.socket r).rx.queue⟩

theorem Passes.trans (h : Passes w r pl pl') (h' : Passes w r pl' pl'') : Passes w r pl pl'' := by
  refine ⟨h.toHandles.trans h'.toHandles, ?_⟩
  rcases h'.pass with hrested' | hroused'
  · rcases h.pass with hrested | hroused
    · exact Or.inl (hrested.trans hrested')
    · exact Or.inr (hroused.handles h'.toHandles)
  · exact Or.inr hroused'

theorem passes_of_settles (h : Settles pl pl') : Passes w r pl pl' :=
  ⟨h.handles, Or.inl (.of_sameData h.toSameData)⟩

theorem Passes.settle (h : Passes w r pl pl') (h' : Settles pl' pl'') : Passes w r pl pl'' :=
  h.trans (passes_of_settles h')

/-- A receive ring changes; the reader's keeps its bytes. -/
theorem passes_setRx {ring : Vectoring} (hq : s = r → ring.queue = rxQueue pl r) :
    Passes w r pl (pl.setRx s ring) := by
  refine ⟨handles_setRx pl s ring, Or.inl ⟨?_, ?_⟩⟩
  · rw [txQueue, setRx_tx]
    rfl
  · rw [rxQueue, setRx_rx]
    split
    · exact hq (Eq.symm ‹_›)
    · rfl

theorem passes_setTx {ring : Vectoring} (hq : s = w → ring.queue = txQueue pl w) :
    Passes w r pl (pl.setTx s ring) := by
  refine ⟨handles_setTx pl s ring, Or.inl ⟨?_, ?_⟩⟩
  · rw [txQueue, setTx_tx]
    split
    · exact hq (Eq.symm ‹_›)
    · rfl
  · rw [rxQueue, setTx_rx]
    rfl

theorem passes_absorbRx (hs : s ≠ r) (io : Io) : Passes w r pl (pl.absorbRx s io) :=
  (passes_setRx fun h => absurd h hs).settle (settles_absorbRx pl s io)

theorem passes_absorbTx (hs : s ≠ w) (io : Io) : Passes w r pl (pl.absorbTx s io) :=
  (passes_setTx fun h => absurd h hs).settle (settles_absorbTx pl s io)

end Passes

/-! ## A splice along the pipe -/

section Splices

variable {pl : ProcLocal} {w r s a b : Nat}

theorem spliceTo_rings (pl : ProcLocal) (s b c : Nat) :
    ((pl.spliceTo s b).sockets c).rx = ((pl.spliced s b).sockets c).rx ∧
      ((pl.spliceTo s b).sockets c).tx = ((pl.spliced s b).sockets c).tx := by
  simp only [spliceTo]
  split
  · exact handleError_rings _ s c
  · exact ⟨rfl, rfl⟩

/-- A splice with nothing to move lets the pipe rest, and so does one elsewhere. -/
theorem rested_spliced (hj : Joined pl w r)
    (h : a = w → b = r → (pl.sockets r).rx.rxLen = 0 ∨ txQueue pl w = []) (hab : a = w ↔ b = r) :
    Rested w r pl (pl.spliced a b) := by
  obtain ⟨-, -, hmrx, hmtx⟩ := (hj.wf b).1.splice (hj.wf a).2 (-1) pl.errno
  have hnone : a = w → Vectoring.spliceLen (pl.sockets b).rx (pl.sockets a).tx (-1) = 0 := fun ha => by
    have hle := Vectoring.spliceLen_le (pl.sockets b).rx (pl.sockets a).tx (-1)
    obtain rfl := hab.mp ha
    subst ha
    rcases h rfl rfl with hroom | hq
    · omega
    · have hlen : (pl.sockets a).tx.txLen = 0 := by
        rw [← Vectoring.length_queue]
        exact List.length_eq_zero_iff.mpr hq
      omega
  constructor
  · rw [txQueue, spliced, setRx_tx, setTx_tx]
    split
    · have ha : a = w := Eq.symm ‹_›
      rw [hmtx.queue, hnone ha, List.drop_zero, ha]
      rfl
    · rfl
  · rw [rxQueue, spliced, setRx_rx, setTx_rx]
    split
    · have hb : b = r := Eq.symm ‹_›
      rw [hmrx.queue, hnone (hab.mpr hb), List.take_zero, List.append_nil, hb]
      rfl
    · rfl

/-- A splice along the pipe with bytes to move leaves an effect on both rings. -/
theorem effects_spliced (hj : Joined pl w r) (hroom : (pl.sockets r).rx.rxLen ≠ 0)
    (hq : txQueue pl w ≠ []) :
    ((pl.spliced w r).sockets w).tx.effect = true ∧ ((pl.spliced w r).sockets r).rx.effect = true := by
  obtain ⟨-, -, hmrx, hmtx⟩ := (hj.wf r).1.splice (hj.wf w).2 (-1) pl.errno
  have hlen : 0 < Vectoring.spliceLen (pl.sockets r).rx (pl.sockets w).tx (-1) := by
    have htx : (pl.sockets w).tx.txLen ≠ 0 := by
      rw [← Vectoring.length_queue]
      exact fun h => hq (List.length_eq_zero_iff.mp h)
    rw [show Vectoring.spliceLen (pl.sockets r).rx (pl.sockets w).tx (-1)
      = min (pl.sockets r).rx.rxLen (pl.sockets w).tx.txLen by simp [Vectoring.spliceLen]]
    omega
  constructor
  · rw [spliced_tx, fromPeer, hmtx.effect]
    exact Bool.or_eq_true_iff.mpr (Or.inr (decide_eq_true hlen))
  · rw [spliced_rx, fromPeer, hmrx.effect]
    exact Bool.or_eq_true_iff.mpr (Or.inr (decide_eq_true hlen))

theorem not_asleep_enqueueWrite (h : (pl.sockets s).tx.effect = true) :
    ¬(pl.enqueueWrite s).Asleep s := fun hasleep => by
  rw [asleep_enqueueWrite, h] at hasleep
  exact absurd hasleep.2 (by decide)

theorem not_asleep_enqueueOther (pl : ProcLocal) (a : Nat) : ¬(pl.enqueueOther a).Asleep a := by
  unfold Asleep
  rw [show (pl.enqueueOther a).blockedVk a = pl.blockedVk a from
    ((settles_enqueueOther pl a).toSameData.socket a).block.blockedVk]
  exact not_wait_ready _ _

/-- An effect on the writer's ring readies the writer. -/
theorem not_asleep_enqueueReadwriter (h : (pl.sockets a).tx.effect = true) :
    ¬(pl.enqueueReadwriter s a).Asleep a := by
  have heffect : (pl.handleTxEffect a).2 = true := h
  unfold enqueueReadwriter
  dsimp only
  rw [if_pos heffect]
  exact (settles_enqueueSelf _ s).handles.not_asleep (not_asleep_enqueueOther _ a)

theorem not_asleep_enqueueRead (h : (pl.sockets s).rx.effect = true) :
    ¬(pl.enqueueRead s).Asleep s := fun hasleep => by
  rw [asleep_enqueueRead, h] at hasleep
  exact absurd hasleep.2 (by decide)

/-- An effect on the reader's ring readies the reader. -/
theorem not_asleep_enqueueWritereader (h : (pl.sockets b).rx.effect = true) :
    ¬(pl.enqueueWritereader s b).Asleep b := by
  unfold Asleep
  rw [show (pl.enqueueWritereader s b).blockedVk b = pl.blockedVk b from
    ((settles_enqueueWritereader pl s b).toSameData.socket b).block.blockedVk]
  exact not_wait_enqueueWritereader h

@[simp] theorem enqueueWrite_rx (pl : ProcLocal) (s w : Nat) :
    ((pl.enqueueWrite s).sockets w).rx = (pl.sockets w).rx := by
  have hset := setTx_rx pl s w (pl.sockets s).tx.handleEffect.1
  unfold enqueueWrite handleTxEffect
  dsimp only
  split
  · exact hset
  · exact hset

/-- What the reader has taken readies both. -/
theorem roused_readFrom (hj : Joined pl w r) (hroom : (pl.sockets r).rx.rxLen ≠ 0)
    (hq : txQueue pl w ≠ []) :
    Roused w r (((pl.spliceFrom r w).enqueueRead r).enqueueReadwriter r w) := by
  obtain ⟨htx, hrx⟩ := effects_spliced hj hroom hq
  rw [← (spliceFrom_rings pl r w w).2] at htx
  rw [← (spliceFrom_rings pl r w r).1] at hrx
  refine ⟨not_asleep_enqueueReadwriter ?_,
    (settles_enqueueReadwriter _ r w).handles.not_asleep (not_asleep_enqueueRead hrx)⟩
  rw [enqueueRead_tx]
  exact htx

/-- And what the writer has given. -/
theorem roused_writeTo (hj : Joined pl w r) (hroom : (pl.sockets r).rx.rxLen ≠ 0)
    (hq : txQueue pl w ≠ []) :
    Roused w r (((pl.spliceTo w r).enqueueWrite w).enqueueWritereader w r) := by
  obtain ⟨htx, hrx⟩ := effects_spliced hj hroom hq
  rw [← (spliceTo_rings pl w r w).2] at htx
  rw [← (spliceTo_rings pl w r r).1] at hrx
  refine ⟨(settles_enqueueWritereader _ w r).handles.not_asleep (not_asleep_enqueueWrite htx),
    not_asleep_enqueueWritereader ?_⟩
  rw [enqueueWrite_rx]
  exact hrx

theorem passes_readFrom (hj : Joined pl w r) (href : (pl.sockets s).rxFd.ref = .vkTx a) :
    Passes w r pl (((pl.spliceFrom s a).enqueueRead s).enqueueReadwriter s a) := by
  have hsettles : Settles (pl.spliceFrom s a) (((pl.spliceFrom s a).enqueueRead s).enqueueReadwriter s a) :=
    (settles_enqueueRead _ s).trans (settles_enqueueReadwriter _ s a)
  refine ⟨(handles_spliceFrom pl s a).settle hsettles, ?_⟩
  have hab := reader_iff hj href
  by_cases hmoves : a = w ∧ (pl.sockets r).rx.rxLen ≠ 0 ∧ txQueue pl w ≠ []
  · obtain ⟨ha, hroom, hq⟩ := hmoves
    obtain rfl := hab.mp ha
    subst ha
    exact Or.inr (roused_readFrom hj hroom hq)
  · refine Or.inl (Rested.trans (rested_spliced hj (fun ha hb => ?_) hab)
      (.of_sameData ((settles_spliceFrom pl s a).trans hsettles).toSameData))
    by_contra hnone
    rw [not_or] at hnone
    exact hmoves ⟨ha, hnone⟩

theorem passes_writeTo (hj : Joined pl w r) (href : (pl.sockets s).txFd.ref = .vkRx b) :
    Passes w r pl (((pl.spliceTo s b).enqueueWrite s).enqueueWritereader s b) := by
  have hsettles : Settles (pl.spliceTo s b) (((pl.spliceTo s b).enqueueWrite s).enqueueWritereader s b) :=
    (settles_enqueueWrite _ s).trans (settles_enqueueWritereader _ s b)
  refine ⟨(handles_spliceTo pl s b).settle hsettles, ?_⟩
  have hab := writer_iff hj href
  by_cases hmoves : s = w ∧ (pl.sockets r).rx.rxLen ≠ 0 ∧ txQueue pl w ≠ []
  · obtain ⟨hs, hroom, hq⟩ := hmoves
    obtain rfl := hab.mp hs
    subst hs
    exact Or.inr (roused_writeTo hj hroom hq)
  · refine Or.inl (Rested.trans (rested_spliced hj (fun hs hb => ?_) hab)
      (.of_sameData ((settles_spliceTo pl s b).trans hsettles).toSameData))
    by_contra hnone
    rw [not_or] at hnone
    exact hmoves ⟨hs, hnone⟩

end Splices

/-! ## The handlers -/

section Handlers

variable {pl : ProcLocal} {w r s : Nat} {os : Os}

theorem passes_handleRead (hj : Joined pl w r) : Passes w r pl (pl.handleRead s os).pl := by
  cases href : (pl.sockets s).rxFd.ref with
  | osFd fd =>
      have hs := ne_reader_of_osFd hj href
      simp only [handleRead, href]
      refine Passes.settle ?_ ((settles_enqueueRead _ s).trans (settles_handled _ s))
      split
      · exact passes_absorbRx hs _
      · exact passes_absorbRx hs _
  | vkTx a =>
      simp only [handleRead, href]
      exact (passes_readFrom hj href).settle (settles_handled _ s)
  | vkRx a =>
      simp only [handleRead, href]
      exact passes_of_settles ((settles_setErrno _ _).trans (settles_handleBlock _ _))

theorem passes_handleWrite (hj : Joined pl w r) : Passes w r pl (pl.handleWrite s os).pl := by
  cases href : (pl.sockets s).txFd.ref with
  | osFd fd =>
      simp only [handleWrite, href]
      exact (passes_absorbTx (ne_writer_of_osFd hj href) _).settle
        ((settles_enqueueWrite _ s).trans (settles_handled _ s))
  | vkRx b =>
      simp only [handleWrite, href]
      exact (passes_writeTo hj href).settle (settles_handled _ s)
  | vkTx b =>
      simp only [handleWrite, href]
      exact passes_of_settles ((settles_setErrno _ _).trans (settles_handleBlock _ _))

theorem passes_forwardTx (hj : Joined pl w r) :
    Passes w r pl (pl.forwardTx s os (pl.sockets s).txFd.ref).pl := by
  cases href : (pl.sockets s).txFd.ref with
  | osFd fd =>
      exact (passes_absorbTx (ne_writer_of_osFd hj href) _).settle
        ((settles_enqueueWrite _ s).trans (settles_handled _ s))
  | vkRx b => exact (passes_writeTo hj href).settle (settles_handled _ s)
  | vkTx b => exact passes_of_settles (settles_setErrno _ _)

/-- What a forward from a descriptor has to hand over to the reader leaves more room
than it fills, unless there is nothing or no room at all.  Then the splice leaves the
ring blocked, by which the handler knows to ready the reader. -/
def HandsOver (w r : Nat) (pl : ProcLocal) : Prop :=
  txQueue pl w = [] ∨ (pl.sockets r).rx.rxLen = 0 ∨
    2 * (txQueue pl w).length < (pl.sockets r).rx.rxLen

instance (w r : Nat) (pl : ProcLocal) : Decidable (HandsOver w r pl) :=
  inferInstanceAs (Decidable (_ ∨ _ ∨ _))

theorem HandsOver.congr {pl' : ProcLocal} (h : HandsOver w r pl)
    (htx : txQueue pl' w = txQueue pl w)
    (hrx : (pl'.sockets r).rx.rxLen = (pl.sockets r).rx.rxLen) : HandsOver w r pl' := by
  unfold HandsOver at h ⊢
  rw [htx, hrx]
  exact h

/-- What is handed over leaves more room than it has filled, so the ring is blocked. -/
theorem HandsOver.blocked (h : HandsOver w r pl) (hj : Joined pl w r)
    (hroom : (pl.sockets r).rx.rxLen ≠ 0) (hq : txQueue pl w ≠ []) :
    (((pl.spliceTo w r).enqueueWrite w).sockets r).rx.rxBlocked = true := by
  obtain ⟨-, -, hmrx, -⟩ := (hj.wf r).1.splice (hj.wf w).2 (-1) pl.errno
  have hlen : (txQueue pl w).length = (pl.sockets w).tx.txLen := Vectoring.length_queue _
  have hlt : 2 * (txQueue pl w).length < (pl.sockets r).rx.rxLen :=
    (h.resolve_left hq).resolve_left hroom
  rw [enqueueWrite_rx, (spliceTo_rings pl w r r).1, spliced_rx, fromPeer, hmrx.flags.rxBlocked]
  refine decide_eq_true ?_
  rw [show Vectoring.spliceLen (pl.sockets r).rx (pl.sockets w).tx (-1)
    = min (pl.sockets r).rx.rxLen (pl.sockets w).tx.txLen by simp [Vectoring.spliceLen]]
  omega

/-- The handler of a forward of `w` from a descriptor hands over. -/
theorem passes_forwardFromFd (hj : Joined pl w r) (hover : s = w → HandsOver w r pl) :
    Passes w r pl (pl.forwardFromFd s os (pl.sockets s).txFd.ref).pl := by
  cases href : (pl.sockets s).txFd.ref with
  | osFd fd =>
      exact (passes_absorbTx (ne_writer_of_osFd hj href) _).settle
        ((settles_enqueueWrite _ s).trans (settles_handled _ s))
  | vkTx b => exact passes_of_settles (settles_setErrno _ _)
  | vkRx b =>
      simp only [forwardFromFd]
      split
      · exact ((passes_writeTo hj href).settle (settles_enqueueRun _ _)).settle (settles_handled _ s)
      · rename_i hblocked
        refine Passes.settle ⟨(handles_spliceTo pl s b).settle (settles_enqueueWrite _ s), Or.inl ?_⟩
          (settles_handled _ s)
        have hab := writer_iff hj href
        refine Rested.trans (rested_spliced hj (fun hs hb => ?_) hab)
          (.of_sameData ((settles_spliceTo pl s b).trans (settles_enqueueWrite _ s)).toSameData)
        subst hs hb
        by_contra hnone
        rw [not_or] at hnone
        exact hblocked ((hover rfl).blocked hj hnone.1 hnone.2)

theorem absorbRx_other (pl : ProcLocal) (io : Io) {a : Nat} (h : a ≠ s) :
    ((pl.absorbRx s io).sockets a).rx = (pl.sockets a).rx := by
  have hset : ((pl.setRx s io.ring).sockets a).rx = (pl.sockets a).rx := by rw [setRx_rx, if_neg h]
  simp only [absorbRx]
  split
  · exact (handleError_rings _ s a).1.trans hset
  · exact hset

theorem enqueueRead_other (pl : ProcLocal) {a : Nat} (h : a ≠ s) :
    ((pl.enqueueRead s).sockets a).rx = (pl.sockets a).rx := by
  have hset : ((pl.setRx s (pl.sockets s).rx.handleEffect.1).sockets a).rx = (pl.sockets a).rx := by
    rw [setRx_rx, if_neg h]
  unfold enqueueRead handleRxEffect
  dsimp only
  split
  · exact hset
  · exact hset

/-- What socket `s` reads from a descriptor leaves the pipe. -/
theorem rested_readFd (pl : ProcLocal) (os : Os) (hs : s ≠ r) :
    let pl' := (pl.absorbRx s ((pl.sockets s).rx.read os.readv pl.errno)).enqueueRead s
    Rested w r pl pl' ∧ (pl'.sockets r).rx.rxLen = (pl.sockets r).rx.rxLen := by
  have hrx := (enqueueRead_other (pl.absorbRx s ((pl.sockets s).rx.read os.readv pl.errno))
    (Ne.symm hs)).trans (absorbRx_other pl _ (Ne.symm hs))
  refine ⟨⟨?_, congrArg Vectoring.queue hrx⟩, congrArg Vectoring.rxLen hrx⟩
  rw [txQueue, enqueueRead_tx, absorbRx_tx]
  rfl

theorem passes_handleForward (hj : Joined pl w r)
    (hover : s = w → ∀ fd, (pl.sockets s).rxFd.ref = .osFd fd → HandsOver w r pl) :
    Passes w r pl (pl.handleForward s os).pl := by
  cases href : (pl.sockets s).rxFd.ref with
  | osFd fd =>
      have hs := ne_reader_of_osFd hj href
      have hread : Passes w r pl
          ((pl.absorbRx s ((pl.sockets s).rx.read os.readv pl.errno)).enqueueRead s) :=
        (passes_absorbRx hs _).settle (settles_enqueueRead _ s)
      have hmoves := (transfers_absorbRx hj hs ((hj.wf s).1.of_read os.readv pl.errno)).settle hj
        (settles_enqueueRead _ s)
      obtain ⟨⟨htx, -⟩, hroom⟩ := rested_readFd (w := w) pl os hs
      rw [handleForward_osFd href, ← hread.txRef s]
      exact hread.trans (passes_forwardFromFd (hj.of_moves hmoves.toMoves) fun hsw =>
        (hover hsw fd href).congr htx hroom)
  | vkTx a =>
      have hread := passes_readFrom hj href
      have hmoves := (transfers_spliceFrom hj (reader_iff hj href)).settle hj
        ((settles_enqueueRead _ s).trans (settles_enqueueReadwriter _ s a))
      rw [handleForward_vkTx href, ← hread.txRef s]
      exact hread.trans (passes_forwardTx (hj.of_moves hmoves.toMoves))
  | vkRx a =>
      simp only [handleForward, href]
      exact passes_of_settles (settles_setErrno _ _)

/-- Reading a hang-up moves no byte. -/
theorem rested_handleReadhup (pl : ProcLocal) (w r s : Nat) : Rested w r pl (pl.handleReadhup s).pl := by
  cases href : (pl.sockets s).rxFd.ref with
  | osFd fd =>
      simp only [handleReadhup, href]
      exact .of_sameData ((settles_enqueueRead pl s).trans (settles_handled _ s)).toSameData
  | vkTx a =>
      rw [handleReadhup_eq href]
      split
      · have hset : Rested w r pl ((pl.setTx a (pl.sockets a).tx.clearEof).setRx s
            (pl.sockets s).rx.markEof) := by
          refine ⟨?_, ?_⟩
          · rw [txQueue, setRx_tx, setTx_tx]
            split
            · rw [queue_clearEof, txQueue, ‹w = a›]
            · rfl
          · rw [rxQueue, setRx_rx, setTx_rx]
            split
            · rw [queue_markEof, rxQueue, ‹r = s›]
            · rfl
        exact hset.trans (.of_sameData ((settles_enqueueRead _ s).trans
          ((settles_enqueueReadwriter _ s a).trans (settles_handled _ s))).toSameData)
      · exact .of_sameData (settles_handled pl s).toSameData
  | vkRx a =>
      simp only [handleReadhup, href]
      exact .of_sameData (settles_setErrno _ _).toSameData

theorem passes_closeRx (hj : Joined pl w r) (rc : SysResult Unit) :
    Passes w r pl (pl.closeRx s rc).pl := by
  cases href : (pl.sockets s).rxFd.ref with
  | osFd fd =>
      have hs := ne_reader_of_osFd hj href
      simp only [closeRx, href]
      exact ((passes_absorbRx hs _).trans (passes_setRx fun h => absurd h hs)).settle
        ((settles_enqueueRead _ s).trans (settles_closed _ s))
  | vkTx a | vkRx a =>
      simp only [closeRx, href]
      exact passes_of_settles ((settles_enqueueRead _ s).trans (settles_closed _ s))

theorem passes_handleTxClose (hj : Joined pl w r) : Passes w r pl (pl.handleTxClose s os).pl := by
  have hmark : ∀ b, Passes w r pl ((((pl.setTx s (pl.sockets s).tx.markEof).enqueueWrite
      s).enqueueWritereader s b).closed s).pl := fun b =>
    (passes_setTx fun h => by rw [queue_markEof, h]; rfl).settle
      ((settles_enqueueWrite _ s).trans ((settles_enqueueWritereader _ s b).trans
        (settles_closed _ s)))
  cases href : (pl.sockets s).txFd.ref with
  | osFd fd =>
      have hs := ne_writer_of_osFd hj href
      simp only [handleTxClose, href]
      exact ((passes_absorbTx hs _).trans (passes_setTx fun h => absurd h hs)).settle
        ((settles_enqueueWrite _ s).trans (settles_closed _ s))
  | vkRx b | vkTx b =>
      simp only [handleTxClose, href]
      exact hmark b

theorem passes_handleTxShutdown (hj : Joined pl w r) :
    Passes w r pl (pl.handleTxShutdown s os).pl := by
  cases href : (pl.sockets s).txFd.ref with
  | osFd fd =>
      have hs := ne_writer_of_osFd hj href
      simp only [handleTxShutdown, href]
      exact ((passes_absorbTx hs _).trans (passes_setTx fun h => absurd h hs)).settle
        ((settles_enqueueWrite _ s).trans (settles_closed _ s))
  | vkRx b | vkTx b =>
      simp only [handleTxShutdown, href]
      exact passes_of_settles ((settles_enqueueWrite _ s).trans (settles_closed _ s))

/-- Whatever the operation of socket `s`, its handler moves bytes of the pipe only
with both threads readied; one kind of forward must hand over. -/
theorem passes_socketHandler (hj : Joined pl w r)
    (hover : s = w → (pl.sockets s).block.op = .forward →
      ∀ fd, (pl.sockets s).rxFd.ref = .osFd fd → HandsOver w r pl) :
    Passes w r pl (pl.socketHandler s os).pl := by
  cases hop : (pl.sockets s).block.op <;> simp only [socketHandler, hop]
  case none => exact passes_of_settles (Settles.refl pl)
  case read =>
      have hread : Passes w r pl (pl.handleRead s os).pl := passes_handleRead hj
      split
      · exact hread
      · split
        · exact hread.trans (passes_handleWrite (hj.of_moves (transfers_handleRead hj).toMoves))
        · exact hread
  case write => exact passes_handleWrite hj
  case flush => exact passes_handleWrite hj
  case forward => exact passes_handleForward hj fun hs => hover hs hop
  case hup => exact passes_of_settles (settles_handleHup pl s)
  case readhup => exact ⟨handles_handleReadhup pl s, Or.inl (rested_handleReadhup pl w r s)⟩
  case txClose => exact passes_handleTxClose hj
  case rxClose => exact passes_closeRx hj _
  case rxShutdown => exact passes_closeRx hj _
  case txShutdown => exact passes_handleTxShutdown hj
  case readable => exact passes_of_settles (settles_handleReadable pl s)
  case writable => exact passes_of_settles (settles_handleWritable pl s)

/-- The operations that send what the transmit ring holds, and those that fill the
receive ring. -/
def sendOps : List Op := [.write, .flush, .forward]

def receiveOps : List Op := [.read, .forward]

theorem room_of_empty (hj : Joined pl w r) (hrx : rxQueue pl r = []) :
    (pl.sockets r).rx.rxLen ≠ 0 := by
  have hlen : (pl.sockets r).rx.txLen = 0 := by
    rw [← Vectoring.length_queue]
    exact List.length_eq_zero_iff.mpr hrx
  have hpos := (hj.wf r).1.bufLen_pos
  unfold Vectoring.rxLen
  omega

theorem roused_handleWrite (hj : Joined pl w r) (hrx : rxQueue pl r = []) (htx : txQueue pl w ≠ []) :
    Roused w r (pl.handleWrite w os).pl := by
  simp only [handleWrite, hj.txRef]
  exact (roused_writeTo hj (room_of_empty hj hrx) htx).handles (settles_handled _ w).handles

theorem roused_handleRead (hj : Joined pl w r) (hrx : rxQueue pl r = []) (htx : txQueue pl w ≠ []) :
    Roused w r (pl.handleRead r os).pl := by
  simp only [handleRead, hj.rxRef]
  exact (roused_readFrom hj (room_of_empty hj hrx) htx).handles (settles_handled _ r).handles

/-- The writer's forward: what it reads leaves what it writes. -/
theorem roused_forward_writer (hj : Joined pl w r) (hrx : rxQueue pl r = []) (htx : txQueue pl w ≠ [])
    (hreads : ∀ b, (pl.sockets w).rxFd.ref ≠ .vkRx b)
    (hover : ∀ fd, (pl.sockets w).rxFd.ref = .osFd fd → HandsOver w r pl) :
    Roused w r (pl.handleForward w os).pl := by
  cases href : (pl.sockets w).rxFd.ref with
  | osFd fd =>
      have hs := ne_reader_of_osFd hj href
      have hmoves := (transfers_absorbRx hj hs ((hj.wf w).1.of_read os.readv pl.errno)).settle hj
        (settles_enqueueRead _ w)
      have hj' := hj.of_moves hmoves.toMoves
      obtain ⟨⟨hrested, hrested'⟩, hroom'⟩ := rested_readFd (w := w) pl os hs
      rw [handleForward_osFd href, hj.txRef]
      generalize (pl.absorbRx w ((pl.sockets w).rx.read os.readv pl.errno)).enqueueRead w = pl₁ at *
      have hroom := room_of_empty hj' (hrested'.trans hrx)
      have hq : txQueue pl₁ w ≠ [] := by rwa [hrested]
      have hblocked := ((hover fd href).congr hrested hroom').blocked hj' hroom hq
      simp only [forwardFromFd, hblocked, if_true]
      exact (roused_writeTo hj' hroom hq).handles
        ((settles_enqueueRun _ _).trans (settles_handled _ w)).handles
  | vkTx a =>
      have hread := passes_readFrom hj href
      have hmoves := (transfers_spliceFrom hj (reader_iff hj href)).settle hj
        ((settles_enqueueRead _ w).trans (settles_enqueueReadwriter _ w a))
      have hj' := hj.of_moves hmoves.toMoves
      rw [handleForward_vkTx href, hj.txRef]
      rcases hread.pass with ⟨hrested, hrested'⟩ | hroused
      · exact (roused_writeTo hj' (room_of_empty hj' (hrested'.trans hrx)) (by rwa [hrested])).handles
          (settles_handled _ w).handles
      · exact hroused.handles (handles_forwardTx _)
  | vkRx b => exact absurd href (hreads b)

/-- The reader's forward. -/
theorem roused_forward_reader (hj : Joined pl w r) (hrx : rxQueue pl r = []) (htx : txQueue pl w ≠ []) :
    Roused w r (pl.handleForward r os).pl := by
  rw [handleForward_vkTx hj.rxRef]
  exact (roused_readFrom hj (room_of_empty hj hrx) htx).handles (handles_forwardTx _)

/-- The handler of the writer, with bytes to send and room for them. -/
theorem roused_writer (hj : Joined pl w r) (hrx : rxQueue pl r = []) (htx : txQueue pl w ≠ [])
    (hop : (pl.sockets w).block.op ∈ sendOps)
    (hforward : (pl.sockets w).block.op = .forward → (∀ b, (pl.sockets w).rxFd.ref ≠ .vkRx b) ∧
      ∀ fd, (pl.sockets w).rxFd.ref = .osFd fd → HandsOver w r pl) :
    Roused w r (pl.socketHandler w os).pl := by
  simp only [sendOps, List.mem_cons, List.not_mem_nil, or_false] at hop
  rcases hop with hop | hop | hop
  · simp only [socketHandler, hop]
    exact roused_handleWrite hj hrx htx
  · simp only [socketHandler, hop]
    exact roused_handleWrite hj hrx htx
  · obtain ⟨hreads, hover⟩ := hforward hop
    simp only [socketHandler, hop]
    exact roused_forward_writer hj hrx htx hreads hover

/-- The handler of the reader. -/
theorem roused_reader (hj : Joined pl w r) (hrx : rxQueue pl r = []) (htx : txQueue pl w ≠ [])
    (hop : (pl.sockets r).block.op ∈ receiveOps) : Roused w r (pl.socketHandler r os).pl := by
  simp only [receiveOps, List.mem_cons, List.not_mem_nil, or_false] at hop
  rcases hop with hop | hop
  · have hread : Roused w r (pl.handleRead r os).pl := roused_handleRead hj hrx htx
    simp only [socketHandler, hop]
    split
    · exact hread
    · split
      · exact hread.handles (handles_handleWrite _ r os)
      · exact hread
  · simp only [socketHandler, hop]
    exact roused_forward_reader hj hrx htx

end Handlers

end ProcLocal

end Vk

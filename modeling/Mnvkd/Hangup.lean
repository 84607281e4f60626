/-
# `Mnvkd.Hangup` — a reader that is not woken

A reader waits on a virtual pipe while there is nothing to read.  The writer's
`vk_hup` and `vk_tx_close` mark EOF on the writer's ring, which the reader would
observe by `vk_pollhup`, but neither wakes a reader that waits already: a hang-up
enqueues the reader's thread only where EOF has been taken, and a close only where
an effect is pending on the reader's ring.

    hup_hangs_reader     a run in which the reader waits first, and then for ever
    reader_not_hung      no run gets there in which EOF is never marked while the
                         reader waits
-/
import Mnvkd.Messages

namespace Vk

open Lib Channel

/-! ## A hung reader -/

/-- The loops a coroutine reads in. -/
def readLoops : List IoLoop := [.read, .readline, .pollread, .forward]

/-- Thread `tr` waits for the pipe from `w` to `r`, which is empty, and the poller
does not have its socket. -/
structure WaitsForPipe (tr w r : Nat) (m : Machine) : Prop where
  status : (m.pl.threads tr).status = .wait
  pos : ∃ k ∈ readLoops, m.pos tr = some (k, r)
  tx : txQueue m.pl w = []
  rx : rxQueue m.pl r = []
  unpolled : r ∉ m.pl.blockedQ

/-- The same, whatever the poller has. -/
structure Dry (tr w r : Nat) (m : Machine) : Prop where
  status : (m.pl.threads tr).status = .wait
  pos : ∃ k ∈ readLoops, m.pos tr = some (k, r)
  tx : txQueue m.pl w = []
  rx : rxQueue m.pl r = []

theorem WaitsForPipe.dry {tr w r : Nat} {m : Machine} (h : WaitsForPipe tr w r m) : Dry tr w r m :=
  ⟨h.status, h.pos, h.tx, h.rx⟩

/-- Thread `tr` is on its way back from a forward, whose effect will ready it. -/
structure Woken (tr r : Nat) (m : Machine) : Prop where
  stage : m.stage = .back tr
  pos : m.pos tr = some (.forward, r)
  waiting : (m.pl.threads tr).waitingSocketPtr = some r
  effect : (m.pl.sockets r).rx.effect = true

/-- No coroutine is being executed. -/
def Machine.idle (m : Machine) : Bool :=
  match m.stage with
  | .kernel | .exec .pick | .exec (.returned _) => true
  | .exec (.loop _) | .inside _ | .back _ => false

/-- EOF is marked and drained, nothing is to run, and yet the reader waits. -/
structure HungReader (tr w r : Nat) (m : Machine) : Prop extends WaitsForPipe tr w r m where
  idle : m.idle = true
  runQ : m.pl.runQ = []
  eof : (m.pl.sockets w).tx.eof = true

instance (tr w r : Nat) (m : Machine) : Decidable (WaitsForPipe tr w r m) :=
  decidable_of_iff ((m.pl.threads tr).status = .wait ∧ (∃ k ∈ readLoops, m.pos tr = some (k, r)) ∧
      txQueue m.pl w = [] ∧ rxQueue m.pl r = [] ∧ r ∉ m.pl.blockedQ)
    ⟨fun ⟨hstatus, hpos, htx, hrx, hq⟩ => ⟨hstatus, hpos, htx, hrx, hq⟩,
      fun h => ⟨h.status, h.pos, h.tx, h.rx, h.unpolled⟩⟩

instance (tr w r : Nat) (m : Machine) : Decidable (HungReader tr w r m) :=
  decidable_of_iff (WaitsForPipe tr w r m ∧ m.idle = true ∧ m.pl.runQ = [] ∧
      (m.pl.sockets w).tx.eof = true)
    ⟨fun ⟨hwaits, hidle, hq, heof⟩ => ⟨hwaits, hidle, hq, heof⟩,
      fun h => ⟨h.toWaitsForPipe, h.idle, h.runQ, h.eof⟩⟩

/-! ## Marking EOF -/

/-- A step of `vk_hup` past its flush. -/
def HangsUp (w : Nat) (a : Act) (m : Machine) : Prop :=
  ∃ t, m.stage = .inside t ∧ a = .co .turn ∧ m.pos t = some (.hupFlush, w)

/-- A step that applies `vk_tx_close` to socket `w`. -/
def ClosesTx (w : Nat) (a : Act) (m : Machine) : Prop :=
  (m.pl.sockets w).block.op = .txClose ∧
    ((∃ os, a = .retry w os) ∨
    ∃ t os, m.stage = .back t ∧ a = .unblock os ∧ (m.pl.threads t).status = .wait ∧
      (m.pl.threads t).waitingSocketPtr = some w)

/-- Socket `r` is `tr`'s own, and EOF is not marked while `tr` waits for it; a
close may be, with an effect pending on the reader's ring. -/
structure MarksInTime (tr w r : Nat) (a : Act) (m : Machine) : Prop where
  used : UsedBy tr r a m
  hup : HangsUp w a m → ¬WaitsForPipe tr w r m
  close : ClosesTx w a m → WaitsForPipe tr w r m → (m.pl.sockets r).rx.effect = true

/-- The reader's socket is its own, and where EOF is marked and drained the reader
waits only on its way back from a forward, whose effect will ready it. -/
structure ReadsPipe (tr w r : Nat) (m : Machine) : Prop where
  joined : Joined m.pl w r
  owned : Owned tr r m
  noReadhup : ∀ s, (m.pl.sockets s).block.op ≠ .readhup
  woken : (m.pl.sockets w).tx.eof = true → WaitsForPipe tr w r m →
    m.stage = .back tr ∧ m.pos tr = some (.forward, r) ∧
      (m.pl.threads tr).waitingSocketPtr = some r ∧ (m.pl.sockets r).rx.effect = true

section Steps

variable {tr w r : Nat} {a : Act} {m m' : Machine}

/-- EOF is there after a step if it was before, or the step marks it. -/
theorem eof_step (hj : Joined m.pl w r) (hnr : ∀ s, (m.pl.sockets s).block.op ≠ .readhup)
    (hstep : Machine.step a m = some m') (heof : (m'.pl.sockets w).tx.eof = true) :
    (m.pl.sockets w).tx.eof = true ∨ HangsUp w a m ∨ ClosesTx w a m := by
  obtain ⟨n, hn⟩ := shows_step hj hstep
  by_cases hkeeps : KeepsEofAt w r a m
  · rw [hn.eof hkeeps] at heof
    have hshown := shown w r a m
    generalize pipeEvents w r a m = es at hshown heof
    cases hshown with
    | silent | push | pull | pass => exact Or.inl heof
    | mark t hst hpos => exact Or.inr (Or.inl ⟨t, hst, rfl, hpos⟩)
    | take => cases heof
  · right
    right
    have hcloses : ∀ s, ¬KeepsEof w r m.pl s → (m.pl.sockets w).block.op = .txClose ∧ s = w :=
      fun s hs => by
        unfold KeepsEof at hs
        simp only [hnr, false_implies, and_true, not_forall, not_not] at hs
        obtain ⟨hop, rfl⟩ := hs
        exact ⟨hop, rfl⟩
    unfold KeepsEofAt at hkeeps
    split at hkeeps
    · obtain ⟨hop, rfl⟩ := hcloses _ hkeeps
      exact ⟨hop, Or.inl ⟨_, rfl⟩⟩
    · rename_i t os hst
      simp only [not_forall] at hkeeps
      obtain ⟨hwait, s, hs, hkeeps⟩ := hkeeps
      obtain ⟨hop, rfl⟩ := hcloses _ hkeeps
      exact ⟨hop, Or.inr ⟨t, os, hst, rfl, hwait, hs⟩⟩
    · exact absurd trivial hkeeps

/-- If the pipe is empty after a step not of the reader's own, it was before. -/
theorem empty_step (hj : Joined m.pl w r) (halone : ∀ t k, m.pos t = some (k, r) → t = tr)
    (hst : m.stage ≠ .inside tr) (hstep : Machine.step a m = some m')
    (htx : txQueue m'.pl w = []) (hrx : rxQueue m'.pl r = []) :
    txQueue m.pl w = [] ∧ rxQueue m.pl r = [] := by
  obtain ⟨n, hn⟩ := shows_step hj hstep
  have hpushed := pushed_eq (hn.run false false)
  have hpulled : Channel.pulled (pipeEvents w r a m ++ [.move n]) = [] := by
    have hshown := shown w r a m
    generalize pipeEvents w r a m = es at hshown
    cases hshown with
    | pull t k bs hst' hpos => exact absurd (halone t k hpos ▸ hst') hst
    | silent | push | mark | pass | take => rfl
  simp only [hpulled, htx, hrx, List.append_nil, List.append_eq_nil_iff] at hpushed
  exact ⟨hpushed.1.2, hpushed.1.1⟩

/-! ## What wakes the reader -/

/-- A forward with an effect pending on its receive ring readies the thread. -/
theorem not_wait_handleForward {pl : ProcLocal} {r : Nat} (os : Os) (hj : Joined pl w r)
    (heffect : (pl.sockets r).rx.effect = true) :
    ((pl.handleForward r os).pl.threads (pl.blockedVk r)).status ≠ .wait := by
  have hsplice : ((pl.spliceFrom r w).sockets r).rx.effect = true := by
    obtain ⟨-, -, hrx, -⟩ := (hj.wf r).1.splice (hj.wf w).2 (-1) pl.errno
    have hring : ((pl.spliceFrom r w).sockets r).rx
        = ((pl.sockets r).rx.splice (pl.sockets w).tx (-1) pl.errno).rx := by
      unfold ProcLocal.spliceFrom
      dsimp only
      split
      · rw [ProcLocal.handleError, ProcLocal.updSocket_sockets_self]
        exact ProcLocal.setRx_rx_self _ r _
      · exact ProcLocal.setRx_rx_self _ r _
    rw [hring, hrx.effect]
    exact Bool.or_eq_true_iff.mpr (Or.inl heffect)
  have hblocked : (pl.spliceFrom r w).blockedVk r = pl.blockedVk r :=
    ((ProcLocal.handles_spliceFrom pl r w).block r).blockedVk
  have hread := ProcLocal.not_wait_enqueueRead hsplice
  rw [hblocked] at hread
  simp only [ProcLocal.handleForward, hj.rxRef]
  exact ProcLocal.Rouses.not_wait (ProcLocal.handles_forwardTx _).status
    (ProcLocal.Rouses.not_wait (ProcLocal.settles_enqueueReadwriter _ r w).status hread)

/-- A close with an effect pending on the reader's receive ring readies it. -/
theorem not_wait_handleTxClose {pl : ProcLocal} (os : Os) (hj : Joined pl w r)
    (heffect : (pl.sockets r).rx.effect = true) :
    ((pl.handleTxClose w os).pl.threads (pl.blockedVk r)).status ≠ .wait := by
  simp only [ProcLocal.handleTxClose, hj.txRef]
  generalize hmark : (pl.setTx w (pl.sockets w).tx.markEof).enqueueWrite w = pl₁
  have hrx : (pl₁.sockets r).rx = (pl.sockets r).rx := by
    rw [← hmark, ProcLocal.enqueueWrite]
    dsimp only
    split
    · exact (ProcLocal.setTx_rx _ w r _).trans (ProcLocal.setTx_rx pl w r _)
    · exact (ProcLocal.setTx_rx _ w r _).trans (ProcLocal.setTx_rx pl w r _)
  have hblocked : pl₁.blockedVk r = pl.blockedVk r := by
    rw [← hmark]
    exact (((ProcLocal.handles_setTx pl w _).settle (ProcLocal.settles_enqueueWrite _ w)).block
      r).blockedVk
  have hreader := ProcLocal.not_wait_enqueueWritereader (s := w) (by rw [hrx]; exact heffect)
  rw [hblocked] at hreader
  exact ProcLocal.Rouses.not_wait (ProcLocal.settles_closed _ w).status hreader

theorem unflagged_effect (pl : ProcLocal) (s a : Nat) :
    ((pl.unflagged s).sockets a).rx.effect = (pl.sockets a).rx.effect := by
  have hrx : ((pl.unflagRx s).sockets a).rx.effect = (pl.sockets a).rx.effect := by
    unfold ProcLocal.unflagRx
    split
    · rw [ProcLocal.updSocket_sockets]
      split
      · subst a
        rfl
      · rfl
    · rfl
  unfold ProcLocal.unflagged ProcLocal.unflagTx
  split
  · rw [ProcLocal.updSocket_sockets]
    split
    · subst a
      exact hrx
    · exact hrx
  · exact hrx

theorem not_wait_close (hj : Joined m.pl w r) (hstep : Machine.step a m = some m')
    (hclose : ClosesTx w a m) (heffect : (m.pl.sockets r).rx.effect = true) :
    (m'.pl.threads (m.pl.blockedVk r)).status ≠ .wait := by
  obtain ⟨hop, ⟨os, rfl⟩ | ⟨t, os, hst, rfl, hwait, hs⟩⟩ := hclose
  · cases Machine.stepped hstep with
    | retry hst w os hw =>
        have hhandles := ProcLocal.handles_unflagged m.pl w
        have hj' := hj.of_moves (transfers_unflagged hj w).toMoves
        have hclosed := not_wait_handleTxClose os hj'
          (by rw [unflagged_effect]; exact heffect)
        rw [show (m.pl.unflagged w).blockedVk r = m.pl.blockedVk r from (hhandles.block r).blockedVk]
          at hclosed
        have hhandler : (m.pl.unflagged w).socketHandler w os = (m.pl.unflagged w).handleTxClose w os := by
          simp only [ProcLocal.socketHandler, (hhandles.block w).op, hop]
        dsimp only
        rw [ProcLocal.retrySocket_eq, hhandler]
        split
        · exact hclosed
        · refine ProcLocal.Rouses.not_wait (ProcLocal.settles_enqueueRun _ _).status ?_
          rw [ProcLocal.dropBlocked_threads]
          exact hclosed
  · cases Machine.stepped hstep with
    | unblock u hst' os =>
        rw [hst] at hst'
        cases hst'
        dsimp only
        rw [ProcLocal.afterCall_of_wait hwait hs]
        have hhandler : ({ m.pl with runningCr := none } : ProcLocal).socketHandler w os
            = ({ m.pl with runningCr := none } : ProcLocal).handleTxClose w os := by
          simp only [ProcLocal.socketHandler, hop]
        rw [hhandler]
        have hclear : Still w r m.pl { m.pl with runningCr := none } := still_of_eq hj rfl
        exact not_wait_handleTxClose _ hclear.joined heffect

/-- A reader is at the hang-up where both rings are empty and EOF is marked. -/
theorem pollhup_joined {pl : ProcLocal} (hj : Joined pl w r) : pl.pollhup r = true ↔
    rxQueue pl r = [] ∧ txQueue pl w = [] ∧ (pl.sockets w).tx.eof = true := by
  unfold ProcLocal.pollhup ProcLocal.getReaderNodata Pipe.getSocket
  rw [hj.rxRef]
  simp only [Socket.empty, Socket.nodataTx, Vectoring.hasNodata, Bool.and_eq_true]
  rw [(hj.wf r).1.isEmpty_iff, (hj.wf w).2.isEmpty_iff]
  exact ⟨fun h => ⟨h.1, h.2.2, h.2.1⟩, fun h => ⟨h.1, h.2.2, h.2.1⟩⟩

/-- A forward that drains its receive ring leaves an effect there. -/
theorem effect_forwardCommit {pl : ProcLocal} (hj : Joined pl w r)
    (hdrained : ((pl.forwardCommit r).sockets r).rx.queue = []) (hrx : rxQueue pl r ≠ []) :
    ((pl.forwardCommit r).sockets r).rx.effect = true := by
  obtain ⟨-, -, -, hmoved⟩ := (hj.wf r).2.splice (hj.wf r).1
    (ProcLocal.ssize (pl.sockets r).block.getUncommitted) pl.errno
  have hring : ((pl.forwardCommit r).sockets r).rx = ((pl.sockets r).tx.splice (pl.sockets r).rx
      (ProcLocal.ssize (pl.sockets r).block.getUncommitted) pl.errno).tx := by
    unfold ProcLocal.forwardCommit
    dsimp only
    rw [blockCommit_self]
    exact (ProcLocal.setTx_rx _ r r _).trans (ProcLocal.setRx_rx_self pl r _)
  rw [hring] at hdrained ⊢
  rw [hmoved.queue, List.drop_eq_nil_iff] at hdrained
  rw [hmoved.effect]
  have hpos : 0 < (pl.sockets r).rx.queue.length := List.length_pos_iff.mpr hrx
  exact Bool.or_eq_true_iff.mpr (Or.inr (decide_eq_true (by omega)))

/-! ## No run hangs -/

/-- A reader that comes back waiting with EOF marked and drained is in a forward,
which has just drained its ring. -/
theorem woken_wait (hj : Joined m.pl w r) {k : IoLoop} (hk : k ∈ readLoops)
    (hturn : (k.loop r).turn m.pl = .wait ((k.loop r).body m.pl))
    (heof : (m.pl.sockets w).tx.eof = true) (htx : txQueue m.pl w = [])
    (hrx : (((k.loop r).body m.pl).sockets r).rx.queue = []) :
    k = .forward ∧ (((k.loop r).body m.pl).sockets r).rx.effect = true := by
  obtain ⟨htest, -, -, hleaves, -⟩ := (Loop.turn_eq_wait _).mp hturn
  have hbody : Shows w r True m.pl ((k.loop r).body m.pl) _ := shows_body hj k r
  have hother : ((k.loop r).body m.pl).sockets w = m.pl.sockets w := body_other m.pl r k hj.ne
  have hpollhup : ((k.loop r).body m.pl).pollhup r = true :=
    (pollhup_joined hbody.joined).mpr ⟨hrx, by rw [txQueue, hother]; exact htx,
      by rw [hother]; exact heof⟩
  simp only [readLoops, List.mem_cons, List.not_mem_nil, or_false] at hk
  rcases hk with rfl | rfl | rfl | rfl
  · exact absurd (hpollhup.symm.trans hleaves) (by decide)
  · exact absurd (hpollhup.symm.trans hleaves) (by decide)
  · exact absurd (hpollhup.symm.trans hleaves) (by decide)
  · refine ⟨rfl, effect_forwardCommit hj hrx fun hempty => ?_⟩
    -- it has not been at the hang-up before
    have hbefore : m.pl.pollhup r = true := (pollhup_joined hj).mpr ⟨hempty, htx, heof⟩
    simp [IoLoop.loop, forwardLoop, hbefore] at htest

/-- A reader that a step leaves waiting, with EOF marked and drained, is woken: if it
was where it waited before, and EOF is not marked while it waits. -/
theorem woken_step (hj : Joined m.pl w r) (howned : Owned tr r m)
    (hnr : ∀ s, (m.pl.sockets s).block.op ≠ .readhup)
    (hwoken : (m.pl.sockets w).tx.eof = true → Dry tr w r m → Woken tr r m)
    (hup : HangsUp w a m → ¬Dry tr w r m)
    (hclose : ClosesTx w a m → Dry tr w r m → (m.pl.sockets r).rx.effect = true)
    (hstep : Machine.step a m = some m') (heof : (m'.pl.sockets w).tx.eof = true)
    (hdry : Dry tr w r m') : Woken tr r m' := by
  rcases Machine.status_step hstep tr with hsame | hrun | ⟨hst, hback⟩
  · exfalso
    have hwait : (m.pl.threads tr).status = .wait := hsame.symm.trans hdry.status
    have hst : m.stage ≠ .inside tr := fun hst => howned.not_wait hst hwait
    obtain ⟨k, hk, hpos'⟩ := hdry.pos
    have hpos : m.pos tr = some (k, r) := by
      rcases Machine.pos_step hstep tr with hp | ⟨hin, -⟩
      · rw [← hp]
        exact hpos'
      · exact absurd hin hst
    have hblocks : m.pl.blockedVk r = tr := howned.blocks k hpos hwait
    obtain ⟨htx, hrx⟩ := empty_step hj howned.alone hst hstep hdry.tx hdry.rx
    have hbefore : Dry tr w r m := ⟨hwait, ⟨k, hk, hpos⟩, htx, hrx⟩
    rcases eof_step hj hnr hstep heof with hmarked | hhup | hclosed
    · obtain ⟨hst, hforward, hs, heffect⟩ := hwoken hmarked hbefore
      cases Machine.stepped hstep with
      | unblock u hst' os =>
          rw [hst] at hst'
          cases hst'
          have hop := howned.admits _ hforward
          have hhandler : ({ m.pl with runningCr := none } : ProcLocal).socketHandler r os
              = ({ m.pl with runningCr := none } : ProcLocal).handleForward r os := by
            simp only [ProcLocal.socketHandler, show (m.pl.sockets r).block.op = .forward from hop]
          have hclear : Still w r m.pl { m.pl with runningCr := none } := still_of_eq hj rfl
          refine not_wait_handleForward os hclear.joined heffect ?_
          rw [← hhandler, ← ProcLocal.afterCall_of_wait hwait hs]
          rw [show ({ m.pl with runningCr := none } : ProcLocal).blockedVk r = tr from hblocks]
          exact hdry.status
      | start hst' | play hst' | answer hst' | retry hst' | exec _ hst' | co _ hst' =>
          rw [hst] at hst'
          cases hst'
    · exact hup hhup hbefore
    · exact not_wait_close hj hstep hclosed (hclose hclosed hbefore) (hblocks ▸ hdry.status)
  · have := hdry.status
    rw [hrun] at this
    cases this
  · obtain ⟨k, s, -, hpos, hturn, rfl⟩ := Machine.waited_step hstep hst hback hdry.status
    obtain ⟨k', hk, hpos'⟩ := hdry.pos
    rw [hpos] at hpos'
    cases hpos'
    have hother : ((((k.loop r).body m.pl).waitOn tr r).sockets w) = m.pl.sockets w :=
      (Machine.waitOn_other _ hj.ne).trans (body_other _ _ k hj.ne)
    have hself := Machine.waitOn_self ((k.loop r).body m.pl) tr r
    obtain ⟨rfl, heffect⟩ := woken_wait hj hk hturn (by rw [← hother]; exact heof)
      (by rw [txQueue, ← hother]; exact hdry.tx)
      (by
        have hrx := hdry.rx
        rw [rxQueue, hself] at hrx
        exact hrx)
    refine ⟨rfl, hpos, ?_, ?_⟩
    · dsimp only
      rw [Machine.waitOn_threads, if_pos rfl]
    · dsimp only
      rw [hself]
      exact heffect

/-- A step keeps the reader from hanging. -/
theorem ReadsPipe.step (h : ReadsPipe tr w r m) (hc : MarksInTime tr w r a m)
    (hstep : Machine.step a m = some m') : ReadsPipe tr w r m' := by
  obtain ⟨n, hn⟩ := shows_step h.joined hstep
  refine ⟨hn.joined, h.owned.step hc.used hstep, noReadhup_step h.noReadhup hstep, fun heof hwaits => ?_⟩
  -- where it waited before, the poller did not have its socket then either
  have hwaited : Dry tr w r m → WaitsForPipe tr w r m := fun hdry => by
    obtain ⟨k, hk, hpos⟩ := hdry.pos
    have hblocks : m.pl.blockedVk r = tr := h.owned.blocks k hpos hdry.status
    refine ⟨hdry.status, ⟨k, hk, hpos⟩, hdry.tx, hdry.rx, fun hr => ?_⟩
    rcases Machine.mem_blockedQ_step hstep hr with hq | hq | ⟨u, -, hended, hu⟩
    · exact hwaits.unpolled hq
    · exact hq (hblocks ▸ hwaits.status)
    · rw [← hu, hblocks, hdry.status] at hended
      cases hended
  have hwoken := woken_step h.joined h.owned h.noReadhup
    (fun heof hdry => by
      obtain ⟨hst, hpos, hs, heffect⟩ := h.woken heof (hwaited hdry)
      exact ⟨hst, hpos, hs, heffect⟩)
    (fun hhup hdry => hc.hup hhup (hwaited hdry))
    (fun hclosed hdry => hc.close hclosed (hwaited hdry)) hstep heof hwaits.dry
  exact ⟨hwoken.stage, hwoken.pos, hwoken.waiting, hwoken.effect⟩

end Steps

/-- No run in which EOF is never marked while the reader waits leads to a hung
reader. -/
theorem reader_not_hung {tr w r : Nat} {as : List Act} {m m' : Machine} (h : ReadsPipe tr w r m)
    (hc : Meets Machine.step (MarksInTime tr w r) as m) (hrun : run Machine.step as m = some m') :
    ¬HungReader tr w r m' := by
  have h' : ReadsPipe tr w r m' := run_of_meets (fun _ _ _ h hc hstep => h.step hc hstep) h hc hrun
  intro hhung
  obtain ⟨hback, -⟩ := h'.woken hhung.eof hhung.toWaitsForPipe
  have hidle := hhung.idle
  rw [Machine.idle, hback] at hidle
  cases hidle

theorem readsPipe_pipeline : ReadsPipe 1 0 1 pipeline where
  joined := joined_pipeline
  owned := {
    alone := fun u k h => by cases h
    admits := fun k h => by cases h
    blocks := fun k h => by cases h
    ready := fun u h => by cases h }
  noReadhup s h := by cases h
  woken h := by cases h

/-- The second coroutine of the pipeline reads first, and waits; the first writes two
bytes, which wake it, and hangs up before it runs again.  Then it gets the bytes, and
takes the hang-up. -/
def readThenWriteAndHup : List Act :=
  [.play 0, .play 1, .start, .exec, .exec,
    .co (.call (.read 1 8 4)), .co .turn, .unblock wouldBlock, .exec, .exec, .exec,
    .co (.call (.write 0 0 2)), .co .turn, .co .turn, .co (.call (.hup 0)), .co .turn,
    .unblock wouldBlock, .exec, .co .turn, .co .turn, .unblock wouldBlock, .exec, .exec, .exec,
    .co .turn, .co (.readhup 1), .co (.stop .ended), .unblock wouldBlock]

/-- The coroutine that runs is not hanging up, and socket `w` is not being closed. -/
def unmarking (w : Nat) (m : Machine) : Bool :=
  (m.pl.sockets w).block.op != .txClose &&
    match m.stage with
    | .inside t => m.pos t != some (.hupFlush, w)
    | .kernel => true
    | .exec _ => true
    | .back _ => true

theorem marksInTime_of_unmarking {tr w r : Nat} {a : Act} {m : Machine} (hused : UsedBy tr r a m)
    (h : WaitsForPipe tr w r m → unmarking w m = true) : MarksInTime tr w r a m := by
  refine ⟨hused, fun hhup hwaits => ?_, fun hclose hwaits => ?_⟩
  · obtain ⟨t, hst, -, hpos⟩ := hhup
    have hnot := (Bool.and_eq_true_iff.mp (h hwaits)).2
    rw [hst] at hnot
    exact bne_iff_ne.mp hnot hpos
  · have hnot := (Bool.and_eq_true_iff.mp (h hwaits)).1
    exact absurd hclose.1 (bne_iff_ne.mp hnot)

theorem reader_not_hung_pipeline : ∃ m', run Machine.step readThenWriteAndHup pipeline = some m' ∧
    ¬HungReader 1 0 1 m' := by
  obtain ⟨m', hm'⟩ := Option.isSome_iff_exists.mp
    (by decide : (run Machine.step readThenWriteAndHup pipeline).isSome = true)
  have hunmarking : Meets Machine.step
      (fun a m => UsedBy 1 1 a m ∧ (WaitsForPipe 1 0 1 m → unmarking 0 m = true))
      readThenWriteAndHup pipeline := by decide +kernel
  have hc : Meets Machine.step (MarksInTime 1 0 1) readThenWriteAndHup pipeline :=
    hunmarking.mono fun a m h => marksInTime_of_unmarking h.1 h.2
  exact ⟨m', hm', reader_not_hung readsPipe_pipeline hc hm'⟩

/-- The second coroutine of the pipeline reads first, and waits; then the first
hangs up. -/
def readThenHup : List Act :=
  [.play 0, .play 1, .start, .exec, .exec,
    .co (.call (.read 1 8 4)), .co .turn, .unblock wouldBlock, .exec, .exec, .exec,
    .co (.call (.hup 0)), .co .turn, .co .turn, .unblock wouldBlock, .exec, .exec]

/-- A hang-up does not wake the reader that waits for it. -/
theorem hup_hangs_reader : ¬∀ (tr w r : Nat) (as : List Act) (m m' : Machine),
    ReadsPipe tr w r m → Meets Machine.step (UsedBy tr r) as m →
      run Machine.step as m = some m' → ¬HungReader tr w r m' := by
  intro hall
  obtain ⟨m', hm', hhung⟩ := (Option.any_eq_true _ _).mp
    (by decide : (run Machine.step readThenHup pipeline).any
      (fun m => decide (HungReader 1 0 1 m)) = true)
  have hby : Meets Machine.step (UsedBy 1 1) readThenHup pipeline := by decide
  exact hall 1 0 1 readThenHup pipeline m' readsPipe_pipeline hby hm' (of_decide_eq_true hhung)

end Vk

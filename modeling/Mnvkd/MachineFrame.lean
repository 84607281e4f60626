/-
# `Mnvkd.MachineFrame` — what a step of the machine leaves alone

A coroutine's step changes the loop it is in and the block of the socket it
operates on; every other step leaves all loops and blocks as they are but for
what the poller reads and writes there.
-/
import Mnvkd.HandlerFrame
import Mnvkd.Machine

namespace Vk

open Lib

/-- The same operation, as far as it was, for the same thread. -/
structure SameUse (block block' : Block) : Prop where
  op : block'.op = block.op
  len : block'.len = block.len
  blockedVk : block'.blockedVk = block.blockedVk

theorem SameUse.refl (block : Block) : SameUse block block := ⟨rfl, rfl, rfl⟩

/-- So much of it is done, and the poller has not closed it meanwhile. -/
structure SameCall (block block' : Block) : Prop extends SameUse block block' where
  copied : block'.copied = block.copied
  rxClosed : block'.ioftRxRet.rxClosed = block.ioftRxRet.rxClosed

theorem SameCall.refl (block : Block) : SameCall block block := ⟨SameUse.refl block, rfl, rfl⟩

theorem SameBlock.call {block block' : Block} (h : SameBlock block block') : SameCall block block' :=
  ⟨⟨h.op, h.len, h.blockedVk⟩, h.copied, by rw [h.ioftRxRet]⟩

/-! ## Loops -/

section Bodies

variable (pl : ProcLocal) (s : Nat) {a : Nat} (k : IoLoop)

theorem updBlock_other (f : Block → Block) (h : a ≠ s) :
    (pl.updBlock s f).sockets a = pl.sockets a := by
  rw [ProcLocal.updBlock, ProcLocal.updSocket_sockets, if_neg h]

theorem updBlock_self (f : Block → Block) : (pl.updBlock s f).sockets s
    = { pl.sockets s with block := f (pl.sockets s).block } := by
  rw [ProcLocal.updBlock, ProcLocal.updSocket_sockets_self]

theorem blockCommit_self (rc : Int) : (pl.blockCommit s rc).sockets s
    = { pl.sockets s with block := (pl.sockets s).block.commit rc } :=
  updBlock_self pl s fun block => block.commit rc

theorem blockCommit_other (rc : Int) (h : a ≠ s) :
    (pl.blockCommit s rc).sockets a = pl.sockets a :=
  updBlock_other pl s _ h

theorem recvCommit_other (h : a ≠ s) : (pl.recvCommit s).sockets a = pl.sockets a := by
  unfold ProcLocal.recvCommit
  rw [blockCommit_other _ _ _ h, ProcLocal.setRx, ProcLocal.updSocket_sockets, if_neg h]

theorem sendCommit_other (h : a ≠ s) : (pl.sendCommit s).sockets a = pl.sockets a := by
  unfold ProcLocal.sendCommit
  rw [blockCommit_other _ _ _ h, ProcLocal.setTx, ProcLocal.updSocket_sockets, if_neg h]

theorem forwardCommit_other (h : a ≠ s) : (pl.forwardCommit s).sockets a = pl.sockets a := by
  unfold ProcLocal.forwardCommit
  rw [blockCommit_other _ _ _ h]
  show ((ProcLocal.setTx _ s _).sockets a) = _
  rw [ProcLocal.setTx, ProcLocal.updSocket_sockets, if_neg h, ProcLocal.setRx,
    ProcLocal.updSocket_sockets, if_neg h]

/-- A body works on its own socket. -/
theorem body_other (h : a ≠ s) : ((k.loop s).body pl).sockets a = pl.sockets a := by
  cases k with
  | read => exact recvCommit_other pl s h
  | readline =>
      show ((requestLine pl s).recvCommit s).sockets a = _
      rw [recvCommit_other _ s h, requestLine, updBlock_other _ _ _ h]
  | pollread | hup => exact blockCommit_other pl s _ h
  | once => exact updBlock_other pl s (fun block => block.setUncommitted 0) h
  | write => exact sendCommit_other pl s h
  | flush | hupFlush => rfl
  | forward => exact forwardCommit_other pl s h

/-- It goes on with the operation of the block, for the same thread. -/
theorem body_block : (((k.loop s).body pl).sockets s).block.op = (pl.sockets s).block.op ∧
    (((k.loop s).body pl).sockets s).block.blockedVk = (pl.sockets s).block.blockedVk := by
  have hset : ∀ (pl : ProcLocal) (f : Block → Block),
      (∀ block, (f block).op = block.op ∧ (f block).blockedVk = block.blockedVk) →
      ((pl.updBlock s f).sockets s).block.op = (pl.sockets s).block.op ∧
      ((pl.updBlock s f).sockets s).block.blockedVk = (pl.sockets s).block.blockedVk := fun pl f hf => by
    rw [ProcLocal.updBlock, ProcLocal.updSocket_sockets_self]
    exact hf _
  have hcommit : ∀ (pl : ProcLocal) (rc : Int),
      ((pl.blockCommit s rc).sockets s).block.op = (pl.sockets s).block.op ∧
      ((pl.blockCommit s rc).sockets s).block.blockedVk = (pl.sockets s).block.blockedVk :=
    fun pl rc => hset pl _ fun _ => ⟨rfl, rfl⟩
  have hrecv : ∀ pl : ProcLocal, ((pl.recvCommit s).sockets s).block.op = (pl.sockets s).block.op ∧
      ((pl.recvCommit s).sockets s).block.blockedVk = (pl.sockets s).block.blockedVk := fun pl => by
    unfold ProcLocal.recvCommit
    dsimp only
    rw [(hcommit _ _).1, (hcommit _ _).2, ProcLocal.setRx_block]
    exact ⟨rfl, rfl⟩
  cases k with
  | read => exact hrecv pl
  | readline =>
      have hline := hset pl (fun block =>
        block.setUncommitted ((pl.sockets s).rx.txLineRequest block.getUncommitted))
        fun _ => ⟨rfl, rfl⟩
      exact ⟨(hrecv (requestLine pl s)).1.trans hline.1, (hrecv (requestLine pl s)).2.trans hline.2⟩
  | pollread | hup => exact hcommit pl _
  | write =>
      show ((pl.sendCommit s).sockets s).block.op = _ ∧ ((pl.sendCommit s).sockets s).block.blockedVk = _
      unfold ProcLocal.sendCommit
      dsimp only
      rw [(hcommit _ _).1, (hcommit _ _).2, ProcLocal.setTx_block]
      exact ⟨rfl, rfl⟩
  | flush | hupFlush => exact ⟨rfl, rfl⟩
  | forward =>
      show ((pl.forwardCommit s).sockets s).block.op = _ ∧
        ((pl.forwardCommit s).sockets s).block.blockedVk = _
      unfold ProcLocal.forwardCommit
      dsimp only
      rw [(hcommit _ _).1, (hcommit _ _).2]
      show (((ProcLocal.setTx _ s _).sockets s).block.op = _) ∧
        ((ProcLocal.setTx _ s _).sockets s).block.blockedVk = _
      rw [ProcLocal.setTx_block, ProcLocal.setRx_block]
      exact ⟨rfl, rfl⟩
  | once => exact hset pl (fun block => block.setUncommitted 0) fun _ => ⟨rfl, rfl⟩

end Bodies

/-! ## A coroutine's step -/

/-- The operation of a call's block. -/
def IoCall.op : IoCall → Op
  | .read .. | .readline .. | .pollread _ => .read
  | .write .. => .write
  | .flush _ | .hup _ => .flush
  | .forward .. => .forward
  | .once _ op => op

theorem IoCall.op_ne_readhup {c : IoCall} (h : c.known = true) : c.op ≠ .readhup := by
  cases c with
  | once s op =>
      rintro (rfl : op = .readhup)
      simp [IoCall.known, onceOps] at h
  | _ => simp [IoCall.op]

theorem enqueueBlocked_other (pl : ProcLocal) {s a : Nat} (h : a ≠ s) :
    (pl.enqueueBlocked s).sockets a = pl.sockets a := by
  unfold ProcLocal.enqueueBlocked
  split
  · rfl
  · rw [ProcLocal.updSocket_sockets, if_neg h]

theorem enter_other (pl : ProcLocal) (c : IoCall) {a : Nat} (h : a ≠ c.socketPtr) :
    (c.enter pl).sockets a = pl.sockets a := by
  have hinit : ∀ (pl : ProcLocal) (s buf len : Nat) (op : Op), a ≠ s →
      (pl.blockInit s buf len op).sockets a = pl.sockets a := fun pl s buf len op h =>
    updBlock_other pl s _ h
  cases c with
  | read s buf len | readline s buf len => exact hinit pl s buf len .read h
  | pollread s => exact hinit pl s 0 1 .read h
  | write s buf len => exact hinit pl s buf len .write h
  | flush s | hup s => exact hinit pl s 0 0 .flush h
  | forward s len => exact hinit pl s 0 len .forward h
  | once s op =>
      refine (hinit _ s 0 1 op h).trans ?_
      split
      · exact enqueueBlocked_other pl h
      · rfl

theorem enter_op (pl : ProcLocal) (c : IoCall) :
    ((c.enter pl).sockets c.socketPtr).block.op = c.op := by
  have hinit : ∀ (pl : ProcLocal) (s buf len : Nat) (op : Op),
      ((pl.blockInit s buf len op).sockets s).block.op = op := fun pl s buf len op => by
    rw [ProcLocal.blockInit, ProcLocal.updBlock, ProcLocal.updSocket_sockets_self]
    rfl
  cases c <;> exact hinit _ _ _ _ _

namespace Machine

variable {m m' : Machine} {t s : Nat} {k : IoLoop} {a : Act}

theorem waitOn_other (pl : ProcLocal) {b : Nat} (h : b ≠ s) :
    (pl.waitOn t s).sockets b = pl.sockets b :=
  updBlock_other _ s _ h

theorem waitOn_self (pl : ProcLocal) (t s : Nat) : (pl.waitOn t s).sockets s
    = { pl.sockets s with block := { (pl.sockets s).block with blockedVk := t } } :=
  updBlock_self _ s fun block => { block with blockedVk := t }

theorem leave_other {b : Nat} (h : b ≠ s) : (m.leave t k s).pl.sockets b = m.pl.sockets b := by
  cases k with
  | hupFlush =>
      have hset : ∀ (ring : Vectoring) (errno : Errno),
          ((m.pl.setTx s ring).setErrno errno).sockets b = m.pl.sockets b := fun ring errno => by
        show (m.pl.setTx s ring).sockets b = _
        rw [ProcLocal.setTx, ProcLocal.updSocket_sockets, if_neg h]
      unfold leave
      dsimp only
      split
      · rw [raise_sockets]
        exact hset _ _
      · exact (updBlock_other _ s (fun block => block.init 0 1 .hup) h).trans (hset _ _)
  | read | readline | pollread | write | flush | forward | hup | once => rfl

/-- A turn works on the socket of its loop. -/
theorem turn_other {b : Nat} (h : b ≠ s) : (m.turn t k s).pl.sockets b = m.pl.sockets b := by
  have hbody := body_other m.pl s k h
  have hturned := (k.loop s).turned m.pl
  unfold turn
  generalize (k.loop s).turn m.pl = outcome at hturned
  cases hturned with
  | left => exact leave_other h
  | failed =>
      rw [raise_sockets]
      exact hbody
  | done => exact (leave_other h).trans hbody
  | wait => exact (waitOn_other _ h).trans hbody
  | again => exact hbody

theorem call_other (c : IoCall) {b : Nat} (h : b ≠ c.socketPtr) :
    (m.call t c).pl.sockets b = m.pl.sockets b := by
  have henter := enter_other m.pl c h
  unfold call
  split
  · rw [raise_sockets]
    exact henter
  · exact henter

/-- The socket that a coroutine's step operates on. -/
def usedSocket (a : Act) (m : Machine) : Option Nat :=
  match m.stage, a with
  | .inside t, .co .turn => (m.pos t).map Prod.snd
  | .inside _, .co (.call c) => some c.socketPtr
  | _, _ => none

/-- The operation that a coroutine begins, and which coroutine. -/
def called (m : Machine) (a : Act) : Option (Nat × IoCall) :=
  match m.stage, a with
  | .inside t, .co (.call c) => some (t, c)
  | _, _ => none

theorem called_call (hst : m.stage = .inside t) (c : IoCall) :
    m.called (.co (.call c)) = some (t, c) := by
  simp [called, hst]

/-- Reading a hang-up leaves every block in its use. -/
theorem readhup_block (b : Nat) :
    SameBlock (m.pl.sockets b).block ((m.readhup t s).pl.sockets b).block := by
  unfold readhup
  split
  · have hhandles := ProcLocal.handles_handleReadhup m.pl s
    generalize (m.pl.handleReadhup s).pl = pl at hhandles
    have hdrain : SameBlock (m.pl.sockets b).block
        (((pl.setRx s ((pl.sockets s).rx.readhup pl.errno).ring).setErrno
          ((pl.sockets s).rx.readhup pl.errno).errno).sockets b).block :=
      (hhandles.trans (ProcLocal.handles_setRx pl s _)).block b
    dsimp only
    split
    · rw [raise_sockets]
      exact hdrain
    · exact hdrain
  · rw [raise_sockets]
    exact SameBlock.refl _

/-- A call stands where it stood unless a coroutine's step operates on its socket. -/
theorem sameCall_step (h : step a m = some m') (hs : usedSocket a m ≠ some s) :
    SameCall (m.pl.sockets s).block (m'.pl.sockets s).block := by
  have hsame : ∀ {pl : ProcLocal}, pl.sockets s = m.pl.sockets s →
      SameCall (m.pl.sockets s).block (pl.sockets s).block := fun {pl} h => by
    rw [h]
    exact SameCall.refl _
  cases stepped h with
  | start => exact SameCall.refl _
  | play hst t =>
      apply hsame
      rw [ProcLocal.enqueueRun_sockets]
  | answer hst b rx tx =>
      unfold answer
      rw [ProcLocal.updBlock, ProcLocal.updSocket_sockets]
      split
      · subst s
        exact ⟨⟨rfl, rfl, rfl⟩, rfl, rfl⟩
      · exact SameCall.refl _
  | retry hst b os => exact (ProcLocal.sameBlock_retrySocket m.pl b os s).call
  | exec phase hst => exact hsame (by rw [execute_sockets])
  | unblock t hst os => exact (ProcLocal.sameBlock_afterCall m.pl os t s).call
  | co t hst a m' hco =>
      cases coStepped hco with
      | turn k b hpos =>
          simp only [usedSocket, hst, hpos, Option.map_some, ne_eq, Option.some.injEq] at hs
          exact hsame (turn_other (Ne.symm hs))
      | call hpos c hknown =>
          simp only [usedSocket, hst, ne_eq, Option.some.injEq] at hs
          exact hsame (call_other c (Ne.symm hs))
      | readhup hpos b => exact (readhup_block s).call
      | play hpos u =>
          apply hsame
          rw [ProcLocal.enqueueRun_sockets]
      | store hpos mem => exact SameCall.refl _
      | raise hpos e => exact hsame (by rw [raise_sockets])
      | stop hpos status hstatus => exact SameCall.refl _

/-- A block stays in its use unless a coroutine's step operates on its socket. -/
theorem sameUse_step (h : step a m = some m') (hs : usedSocket a m ≠ some s) :
    SameUse (m.pl.sockets s).block (m'.pl.sockets s).block := (sameCall_step h hs).toSameUse

/-! ## Loops entered and left -/

theorem leave_of_ne (h : k ≠ .hupFlush) : m.leave t k s = m.setPos t none := by
  cases k <;> first | rfl | exact absurd rfl h

/-- After its flush a hang-up raises where EOF is marked already. -/
theorem leave_of_eof (h : (m.pl.sockets s).tx.eof = true) :
    m.leave t .hupFlush s = { m with
      pl := (m.pl.setTx s (m.pl.sockets s).tx).setErrno Errno.EINVAL }.raise t Errno.EINVAL := by
  have hhup : (m.pl.sockets s).tx.hup m.pl.errno = ⟨(m.pl.sockets s).tx, -1, Errno.EINVAL⟩ :=
    if_pos h
  unfold leave
  dsimp only
  rw [hhup]
  rfl

/-- Otherwise it marks it, and waits for it to be taken. -/
theorem leave_of_not_eof (h : (m.pl.sockets s).tx.eof = false) :
    m.leave t .hupFlush s = { m with
      pl := (m.pl.setTx s (m.pl.sockets s).tx.markEof).beginHup s }.setPos t (some (.hup, s)) := by
  have hhup : (m.pl.sockets s).tx.hup m.pl.errno
      = ⟨(m.pl.sockets s).tx.markEof, 1, m.pl.errno⟩ := if_neg (by simp [h])
  unfold leave
  dsimp only
  rw [hhup]
  rfl

theorem raise_pos (m : Machine) (t u : Nat) (e : Errno) :
    (m.raise t e).pos u = if u = t then none else m.pos u :=
  setPos_pos _ t u none

theorem leave_pos (m : Machine) (t : Nat) (k : IoLoop) (s u : Nat) :
    (m.leave t k s).pos u = if u = t then
      (if k = .hupFlush ∧ (m.pl.sockets s).tx.eof = false then some (.hup, s) else none)
      else m.pos u := by
  by_cases hk : k = .hupFlush
  · subst k
    cases heof : (m.pl.sockets s).tx.eof with
    | true =>
        rw [leave_of_eof heof, raise_pos]
        simp
    | false =>
        rw [leave_of_not_eof heof, setPos_pos]
        simp
  · rw [leave_of_ne hk, setPos_pos]
    simp [hk]

/-- A coroutine in a loop takes a turn of it. -/
theorem turn_of_pos (h : step a m = some m') (hst : m.stage = .inside t)
    (hpos : m.pos t = some (k, s)) : a = .co .turn ∧ m' = m.turn t k s := by
  cases stepped h with
  | co u hu a m' hco =>
      rw [hst] at hu
      cases hu
      cases coStepped hco with
      | turn k' s' hpos' =>
          rw [hpos] at hpos'
          cases hpos'
          exact ⟨rfl, rfl⟩
      | call hpos' | readhup hpos' | play hpos' | store hpos' | raise hpos' | stop hpos' =>
          rw [hpos] at hpos'
          cases hpos'
  | start hu | play hu | answer hu | retry hu | exec _ hu | unblock _ hu =>
      rw [hst] at hu
      cases hu

/-- A turn leaves its coroutine in its loop, or out of any, or past the mark of a
hang-up; and the others where they are. -/
theorem turn_pos (m : Machine) (u : Nat) :
    (m.turn t k s).pos u = m.pos u ∨ u = t ∧ ((m.turn t k s).pos u = none ∨
      k = .hupFlush ∧ (m.turn t k s).pos u = some (.hup, s)) := by
  have hleave : ∀ pl, ({ m with pl := pl }.leave t k s).pos u = m.pos u ∨
      u = t ∧ (({ m with pl := pl }.leave t k s).pos u = none ∨
        k = .hupFlush ∧ ({ m with pl := pl }.leave t k s).pos u = some (.hup, s)) := fun pl => by
    rw [leave_pos]
    by_cases hu : u = t
    · rw [if_pos hu]
      split
      · exact Or.inr ⟨hu, Or.inr ⟨And.left ‹_›, rfl⟩⟩
      · exact Or.inr ⟨hu, Or.inl rfl⟩
    · exact Or.inl (if_neg hu)
  have hturned := (k.loop s).turned m.pl
  unfold turn
  generalize (k.loop s).turn m.pl = outcome at hturned
  cases hturned with
  | left => exact hleave m.pl
  | done => exact hleave _
  | failed =>
      rw [raise_pos]
      by_cases hu : u = t
      · exact Or.inr ⟨hu, Or.inl (if_pos hu)⟩
      · exact Or.inl (if_neg hu)
  | wait => exact Or.inl rfl
  | again => exact Or.inl rfl

theorem execute_pos (m : Machine) (phase : Phase) : (m.execute phase).pos = m.pos := by
  unfold execute
  split
  · rfl
  · split <;> rfl
  · rfl

theorem readhup_pos (hpos : m.pos t = none) (u : Nat) : (m.readhup t s).pos u = m.pos u := by
  have hraise : ∀ pl e, ({ m with pl := pl }.raise t e).pos u = m.pos u := fun pl e => by
    rw [raise_pos]
    split
    · rw [‹u = t›, hpos]
    · rfl
  unfold readhup
  split
  · dsimp only
    split
    · exact hraise _ _
    · rfl
  · exact hraise m.pl _

/-! ## The blocked queue -/

@[simp] theorem raise_blockedQ (m : Machine) (t : Nat) (e : Errno) :
    (m.raise t e).pl.blockedQ = m.pl.blockedQ :=
  ProcLocal.raiseAt_blockedQ m.pl t e

theorem leave_blockedQ (m : Machine) (t : Nat) (k : IoLoop) (s : Nat) :
    (m.leave t k s).pl.blockedQ = m.pl.blockedQ := by
  by_cases hk : k = .hupFlush
  · subst k
    cases heof : (m.pl.sockets s).tx.eof with
    | true =>
        rw [leave_of_eof heof, raise_blockedQ]
        rfl
    | false =>
        rw [leave_of_not_eof heof]
        rfl
  · rw [leave_of_ne hk]
    rfl

theorem body_blockedQ (pl : ProcLocal) (k : IoLoop) (s : Nat) :
    ((k.loop s).body pl).blockedQ = pl.blockedQ := by
  cases k <;> rfl

theorem turn_blockedQ (m : Machine) (t : Nat) (k : IoLoop) (s : Nat) :
    (m.turn t k s).pl.blockedQ = m.pl.blockedQ := by
  have hbody := body_blockedQ m.pl k s
  have hturned := (k.loop s).turned m.pl
  unfold turn
  generalize (k.loop s).turn m.pl = outcome at hturned
  cases hturned with
  | left => exact leave_blockedQ m t k s
  | done => exact (leave_blockedQ _ t k s).trans hbody
  | failed => exact (raise_blockedQ _ t _).trans hbody
  | wait | again => exact hbody

theorem mem_enter (pl : ProcLocal) (c : IoCall) {b : Nat} (h : b ∈ pl.blockedQ) :
    b ∈ (c.enter pl).blockedQ := by
  cases c with
  | once s op =>
      show b ∈ (if op = .readable ∨ op = .writable then pl.enqueueBlocked s else pl).blockedQ
      split
      · exact (ProcLocal.settles_enqueueBlocked pl s).blockedQ b h
      · exact h
  | _ => exact h

theorem execute_blockedQ (m : Machine) (phase : Phase) :
    (m.execute phase).pl.blockedQ = m.pl.blockedQ := by
  cases phase with
  | pick =>
      show m.pl.pickRun.pl.blockedQ = _
      unfold ProcLocal.pickRun ProcLocal.dequeueRun
      cases m.pl.runQ <;> rfl
  | loop t =>
      unfold execute
      dsimp only
      split
      · unfold enterThread
        dsimp only
        split <;> rfl
      · show (m.pl.leaveLoop t).pl.blockedQ = _
        unfold ProcLocal.leaveLoop
        dsimp only
        split <;> rfl
  | returned rc => rfl

theorem mem_readhup (m : Machine) (t s : Nat) {b : Nat} (h : b ∈ m.pl.blockedQ) :
    b ∈ (m.readhup t s).pl.blockedQ := by
  unfold readhup
  split
  · have hb := (ProcLocal.handles_handleReadhup m.pl s).blockedQ b h
    dsimp only
    split
    · rw [raise_blockedQ]
      exact hb
    · exact hb
  · rw [raise_blockedQ]
    exact h

/-- A socket leaves the blocked queue when it is retried, and then the thread it
blocks no longer waits, or when that thread comes back from its end. -/
theorem mem_blockedQ_step (h : step a m = some m') (hs : s ∈ m.pl.blockedQ) :
    s ∈ m'.pl.blockedQ ∨ (m'.pl.threads (m.pl.blockedVk s)).status ≠ .wait ∨
    ∃ u, m.stage = .back u ∧ (m.pl.threads u).status = .ended ∧ m.pl.blockedVk s = u := by
  cases stepped h with
  | start | answer => exact Or.inl hs
  | play hst t => exact Or.inl (by rwa [ProcLocal.enqueueRun_blockedQ])
  | retry hst b os =>
      rcases ProcLocal.mem_retrySocket m.pl b os hs with hq | ⟨rfl, hwait⟩
      · exact Or.inl hq
      · exact Or.inr (Or.inl hwait)
  | exec phase hst => exact Or.inl (by rwa [execute_blockedQ])
  | unblock t hst os =>
      rcases ProcLocal.mem_afterCall m.pl os hs with hq | ⟨hended, hb⟩
      · exact Or.inl hq
      · exact Or.inr (Or.inr ⟨t, hst, hended, hb⟩)
  | co t hst a m' hco =>
      left
      cases coStepped hco with
      | turn k b hpos => rwa [turn_blockedQ]
      | call hpos c hknown =>
          unfold call
          split
          · rw [raise_blockedQ]
            exact mem_enter m.pl c hs
          · exact mem_enter m.pl c hs
      | readhup hpos b => exact mem_readhup m t b hs
      | play hpos u => rwa [ProcLocal.enqueueRun_blockedQ]
      | store | stop => exact hs
      | raise hpos e => rwa [raise_blockedQ]

/-- Where a coroutine is in a loop after a step: where it was, or by its own step
out of one, or past the mark of a hang-up, or in the operation it has begun. -/
theorem pos_step (h : step a m = some m') (u : Nat) :
    m'.pos u = m.pos u ∨ m.stage = .inside u ∧ (m'.pos u = none ∨
      (∃ s, a = .co .turn ∧ m.pos u = some (.hupFlush, s) ∧ m'.pos u = some (.hup, s)) ∨
      ∃ c, a = .co (.call c) ∧ m.pos u = none ∧ c.known = true ∧
        m'.pos u = some (c.first, c.socketPtr)) := by
  cases stepped h with
  | start | play | answer | retry | unblock => exact Or.inl rfl
  | exec phase hst => exact Or.inl (by rw [execute_pos])
  | co t hst a m' hco =>
      have hraise : ∀ (pl : ProcLocal) e, ({ m with pl := pl }.raise t e).pos u = m.pos u ∨
          m.stage = .inside u ∧ ({ m with pl := pl }.raise t e).pos u = none := fun pl e => by
        rw [raise_pos]
        split
        · exact Or.inr ⟨by rw [hst, ‹u = t›], rfl⟩
        · exact Or.inl rfl
      cases coStepped hco with
      | turn k s hpos =>
          rcases turn_pos m (t := t) (k := k) (s := s) u with hu | ⟨rfl, hu | ⟨rfl, hu⟩⟩
          · exact Or.inl hu
          · exact Or.inr ⟨hst, Or.inl hu⟩
          · exact Or.inr ⟨hst, Or.inr (Or.inl ⟨s, rfl, hpos, hu⟩)⟩
      | call hpos c hknown =>
          unfold call
          split
          · rename_i e _
            exact (hraise (c.enter m.pl) e).imp_right fun hu => ⟨hu.1, Or.inl hu.2⟩
          · rw [setPos_pos]
            split
            · rename_i hu
              subst hu
              exact Or.inr ⟨hst, Or.inr (Or.inr ⟨c, rfl, hpos, hknown, rfl⟩)⟩
            · exact Or.inl rfl
      | readhup hpos s => exact Or.inl (readhup_pos hpos u)
      | play | store | stop => exact Or.inl rfl
      | raise hpos e => exact (hraise m.pl e).imp_right fun hu => ⟨hu.1, Or.inl hu.2⟩

theorem leave_op (m : Machine) (t : Nat) (k : IoLoop) (s : Nat) :
    ((m.leave t k s).pos t = none ∧
      ((m.leave t k s).pl.sockets s).block.op = (m.pl.sockets s).block.op) ∨
    k = .hupFlush ∧ (m.leave t k s).pos t = some (.hup, s) ∧
      ((m.leave t k s).pl.sockets s).block.op = .hup := by
  by_cases hk : k = .hupFlush
  · subst k
    cases heof : (m.pl.sockets s).tx.eof with
    | true =>
        left
        rw [leave_of_eof heof, raise_sockets, raise_pos, if_pos rfl]
        exact ⟨rfl, congrArg Block.op (m.pl.setTx_block s s _)⟩
    | false =>
        right
        rw [leave_of_not_eof heof, setPos_pl, setPos_pos, if_pos rfl, ProcLocal.beginHup,
          ProcLocal.blockInit, updBlock_self]
        exact ⟨rfl, rfl, rfl⟩
  · left
    rw [leave_of_ne hk, setPos_pos, if_pos rfl]
    exact ⟨rfl, rfl⟩

/-- A turn leaves the operation of its block, but for a hang-up that has flushed. -/
theorem turn_op (m : Machine) (t : Nat) (k : IoLoop) (s : Nat) :
    (((m.turn t k s).pos t = m.pos t ∨ (m.turn t k s).pos t = none) ∧
      ((m.turn t k s).pl.sockets s).block.op = (m.pl.sockets s).block.op) ∨
    k = .hupFlush ∧ (m.turn t k s).pos t = some (.hup, s) ∧
      ((m.turn t k s).pl.sockets s).block.op = .hup := by
  have hbody := (body_block m.pl s k).1
  have hturned := (k.loop s).turned m.pl
  unfold turn
  generalize (k.loop s).turn m.pl = outcome at hturned
  cases hturned with
  | left => exact (leave_op m t k s).imp_left fun h => ⟨Or.inr h.1, h.2⟩
  | done =>
      have hleave := leave_op { m with pl := (k.loop s).body m.pl } t k s
      rw [hbody] at hleave
      exact hleave.imp_left fun h => ⟨Or.inr h.1, h.2⟩
  | failed =>
      left
      rw [raise_sockets, raise_pos, if_pos rfl]
      exact ⟨Or.inr rfl, hbody⟩
  | wait =>
      left
      dsimp only
      rw [waitOn_self]
      exact ⟨Or.inl rfl, hbody⟩
  | again => exact Or.inl ⟨Or.inl rfl, hbody⟩

/-- How a block comes to have its operation. -/
theorem op_step (h : step a m = some m') (s : Nat) :
    (m'.pl.sockets s).block.op = (m.pl.sockets s).block.op ∨
    (∃ t, m.stage = .inside t ∧ m.pos t = some (.hupFlush, s) ∧ (m'.pl.sockets s).block.op = .hup) ∨
    ∃ t c, m.stage = .inside t ∧ a = .co (.call c) ∧ c.known = true ∧ c.socketPtr = s ∧
      (m'.pl.sockets s).block.op = c.op := by
  by_cases hs : usedSocket a m = some s
  · cases stepped h with
    | co t hst a m' hco =>
        cases coStepped hco with
        | turn k b hpos =>
            simp only [usedSocket, hst, hpos, Option.map_some, Option.some.injEq] at hs
            subst hs
            rcases turn_op m t k b with ⟨-, hop⟩ | ⟨rfl, -, hop⟩
            · exact Or.inl hop
            · exact Or.inr (Or.inl ⟨t, hst, hpos, hop⟩)
        | call hpos c hknown =>
            simp only [usedSocket, hst, Option.some.injEq] at hs
            subst hs
            refine Or.inr (Or.inr ⟨t, c, hst, rfl, hknown, rfl, ?_⟩)
            unfold call
            split
            · rw [raise_sockets]
              exact enter_op m.pl c
            · exact enter_op m.pl c
        | readhup | play | store | raise | stop => simp [usedSocket, hst] at hs
    | start hst | play hst | answer hst | retry hst | exec _ hst | unblock _ hst =>
        simp [usedSocket, hst] at hs
  · exact Or.inl (sameUse_step h hs).op

end Machine

end Vk

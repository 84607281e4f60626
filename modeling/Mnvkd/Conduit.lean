/-
# `Mnvkd.Conduit` — what a forward carries

`vk_socket_forward` moves bytes from the receive ring of its socket to the
transmit ring, while the handlers fill the one and drain the other.  Either side
may be a descriptor or a virtual pipe.  A conduit is the machine with what the
descriptor on the receive side has still to give.

What enters on one side, what leaves on the other, and what a turn moves between
them are functions of the step (`came`, `gone`, `moved`), and no step does
anything else to the bytes:

    rest_step     what is left to read, and what came, is what was moved and is left
    out_step      what is to be taken, and what was moved, is what went and is left
-/
import Mnvkd.Eof
import Mnvkd.Hangup
import Mnvkd.ForwardHandler
import Mnvkd.ReadExact

namespace Vk

open Lib Errno
open Vectoring (SameRing)

/-! ## The handler of a socket -/

/-- The answers to the handler of socket `s`, where a step runs it. -/
def Machine.handlerOf (s : Nat) (a : Act) (m : Machine) : Option Os :=
  match m.stage, a with
  | .kernel, .retry b os => if b = s then some os else none
  | .back t, .unblock os =>
      if (m.pl.threads t).status = .wait ∧ (m.pl.threads t).waitingSocketPtr = some s then some os
      else none
  | _, _ => none

/-- What the handler starts from: a retry has cleared flags. -/
def Machine.seen (s : Nat) (a : Act) (m : Machine) : ProcLocal :=
  match a with
  | .retry .. => m.pl.unflagged s
  | _ => { m.pl with runningCr := none }

/-- The answers to the handler of a forward of socket `s`, where a step runs it. -/
def Machine.forwards (s : Nat) (a : Act) (m : Machine) : Option Os :=
  if (m.pl.sockets s).block.op = .forward then m.handlerOf s a else none

namespace Vectoring

/-- The ring holds what it held, and is blocked where it was. -/
structure Rests (ring ring' : Vectoring) : Prop where
  wf : ring.Wf → ring'.Wf
  queue : ring'.queue = ring.queue
  bufLen : ring'.bufLen = ring.bufLen
  rxBlocked : ring'.rxBlocked = ring.rxBlocked
  txBlocked : ring'.txBlocked = ring.txBlocked
  eof : ring'.eof = true → ring.eof = true

variable {ring ring' : Vectoring}

theorem Rests.refl (ring : Vectoring) : Rests ring ring := ⟨id, rfl, rfl, rfl, rfl, id⟩

theorem Rests.trans {ring'' : Vectoring} (h : Rests ring ring') (h' : Rests ring' ring'') :
    Rests ring ring'' :=
  ⟨fun hwf => h'.wf (h.wf hwf), h'.queue.trans h.queue, h'.bufLen.trans h.bufLen,
    h'.rxBlocked.trans h.rxBlocked, h'.txBlocked.trans h.txBlocked, fun heof => h.eof (h'.eof heof)⟩

theorem SameRing.rests (h : SameRing ring ring') : Rests ring ring' :=
  ⟨h.wf, h.queue, h.bufLen, h.rxBlocked, h.txBlocked, fun heof => h.eof.symm.trans heof⟩

theorem rests_clearEof (ring : Vectoring) : Rests ring ring.clearEof := by
  refine ⟨ProcLocal.wf_clearEof, ProcLocal.queue_clearEof ring, bufLen_clearEof ring, ?_, ?_, ?_⟩
  all_goals simp only [clearEof]
  all_goals split
  next => rfl
  next => rfl
  next => rfl
  next => rfl
  next => exact nofun
  next => exact id

theorem rests_readhup (ring : Vectoring) (errno : Errno) : Rests ring (ring.readhup errno).ring := by
  unfold readhup
  split
  · exact rests_clearEof ring
  · exact Rests.refl ring

end Vectoring

open Vectoring (Rests)

section Frame

variable {m m' : Machine} {a : Act} {s : Nat}

/-- Socket `s` reads from a descriptor, and no socket writes to it. -/
structure RxOnFd (s : Nat) (pl : ProcLocal) : Prop where
  fd : ∃ fd, (pl.sockets s).rxFd.ref = .osFd fd
  alone : ∀ b, (pl.sockets b).txFd.ref ≠ .vkRx s

/-- Socket `s` writes to a descriptor, and no socket reads from it. -/
structure TxOnFd (s : Nat) (pl : ProcLocal) : Prop where
  fd : ∃ fd, (pl.sockets s).txFd.ref = .osFd fd
  alone : ∀ b, (pl.sockets b).rxFd.ref ≠ .vkTx s

/-- The rings of socket `s` rest where they are on descriptors. -/
structure Undisturbed (s : Nat) (pl pl' : ProcLocal) : Prop where
  rx : RxOnFd s pl → Rests (pl.sockets s).rx (pl'.sockets s).rx
  tx : TxOnFd s pl → Rests (pl.sockets s).tx (pl'.sockets s).tx
  rxLen : (pl'.sockets s).rx.bufLen = (pl.sockets s).rx.bufLen

theorem undisturbed_of_eq {pl pl' : ProcLocal} (h : pl'.sockets s = pl.sockets s) :
    Undisturbed s pl pl' where
  rx _ := by
    rw [h]
    exact Rests.refl _
  tx _ := by
    rw [h]
    exact Rests.refl _
  rxLen := by rw [h]

theorem undisturbed_of_sameData {pl pl' : ProcLocal} (h : SameData pl pl') :
    Undisturbed s pl pl' :=
  ⟨fun _ => (h.socket s).rx.rests, fun _ => (h.socket s).tx.rests, (h.socket s).rx.bufLen⟩

/-- The handler of another socket. -/
theorem Reach.undisturbed {pl pl' : ProcLocal} {b : Nat} (h : Reach b pl pl') (hb : s ≠ b) :
    Undisturbed s pl pl' :=
  ⟨fun hfd => (h.rx s hb (hfd.alone b)).rests, fun hfd => (h.tx s hb (hfd.alone b)).rests,
    h.rxLen s⟩

theorem Undisturbed.settle {pl pl' pl'' : ProcLocal} (h : Undisturbed s pl pl')
    (h' : SameData pl' pl'') : Undisturbed s pl pl'' :=
  ⟨fun hfd => (h.rx hfd).trans (h'.socket s).rx.rests,
    fun hfd => (h.tx hfd).trans (h'.socket s).tx.rests, (h'.socket s).rx.bufLen.trans h.rxLen⟩

/-- What is done first to another socket does not matter. -/
theorem Undisturbed.after {pl pl' pl'' : ProcLocal} (h : Undisturbed s pl' pl'')
    (hs : pl'.sockets s = pl.sockets s)
    (hrx : ∀ b, (pl'.sockets b).rxFd.ref = (pl.sockets b).rxFd.ref)
    (htx : ∀ b, (pl'.sockets b).txFd.ref = (pl.sockets b).txFd.ref) : Undisturbed s pl pl'' where
  rx hfd := by
    rw [← hs]
    exact h.rx ⟨by rw [hrx]; exact hfd.fd, fun b => by rw [htx]; exact hfd.alone b⟩
  tx hfd := by
    rw [← hs]
    exact h.tx ⟨by rw [htx]; exact hfd.fd, fun b => by rw [hrx]; exact hfd.alone b⟩
  rxLen := by
    rw [← hs]
    exact h.rxLen

theorem unflagged_other (pl : ProcLocal) {b : Nat} (h : s ≠ b) :
    (pl.unflagged b).sockets s = pl.sockets s := by
  have hrx : (pl.unflagRx b).sockets s = pl.sockets s := by
    unfold ProcLocal.unflagRx
    split
    · rw [ProcLocal.updSocket_sockets, if_neg h]
    · rfl
  unfold ProcLocal.unflagged ProcLocal.unflagTx
  split
  · rw [ProcLocal.updSocket_sockets, if_neg h]
    exact hrx
  · exact hrx

theorem Undisturbed.of_sockets {pl pl' pl'' : ProcLocal} (h : Undisturbed s pl pl')
    (h' : pl''.sockets = pl'.sockets) : Undisturbed s pl pl'' :=
  ⟨fun hfd => by rw [h']; exact h.rx hfd, fun hfd => by rw [h']; exact h.tx hfd,
    by rw [h']; exact h.rxLen⟩

/-- Reading a hang-up off socket `b` takes it from another socket's ring, if at all. -/
theorem undisturbed_handleReadhup (pl : ProcLocal) (b : Nat) :
    Undisturbed s pl (pl.handleReadhup b).pl := by
  by_cases hs : s = b
  · subst hs
    cases href : (pl.sockets s).rxFd.ref with
    | osFd fd =>
        simp only [ProcLocal.handleReadhup, href]
        exact undisturbed_of_sameData ((ProcLocal.settles_enqueueRead _ _).trans
          (ProcLocal.settles_handled _ _)).toSameData
    | vkRx b =>
        simp only [ProcLocal.handleReadhup, href]
        exact undisturbed_of_sameData (ProcLocal.settles_setErrno _ _).toSameData
    | vkTx w =>
        refine ⟨fun hfd => ?_, fun hfd => ?_, (ProcLocal.reach_handleReadhup pl).rxLen s⟩
        · obtain ⟨fd, hfd⟩ := hfd.fd
          rw [href] at hfd
          cases hfd
        · have hne : s ≠ w := by
            rintro rfl
            exact hfd.alone s href
          rw [ProcLocal.handleReadhup_eq href]
          split
          · have hsettled := ((ProcLocal.settles_enqueueRead
              ((pl.setTx w (pl.sockets w).tx.clearEof).setRx s (pl.sockets s).rx.markEof) s).trans
                ((ProcLocal.settles_enqueueReadwriter _ s w).trans
                  (ProcLocal.settles_handled _ s))).toSameData
            have htx := (hsettled.socket s).tx.rests
            rwa [ProcLocal.setRx_tx, ProcLocal.setTx_tx, if_neg hne] at htx
          · exact ((ProcLocal.settles_handled pl s).socket s).tx.rests
  · exact (ProcLocal.reach_handleReadhup pl).undisturbed hs

theorem undisturbed_readhup (m : Machine) (t b : Nat) : Undisturbed s m.pl (m.readhup t b).pl := by
  unfold Machine.readhup
  split
  · have hhandled := undisturbed_handleReadhup (s := s) m.pl b
    generalize (m.pl.handleReadhup b).pl = pl at hhandled
    have htaken : Undisturbed s m.pl ((pl.setRx b ((pl.sockets b).rx.readhup pl.errno).ring).setErrno
        ((pl.sockets b).rx.readhup pl.errno).errno) := by
      refine ⟨fun hfd => (hhandled.rx hfd).trans ?_, fun hfd => (hhandled.tx hfd).trans ?_,
        Eq.trans ?_ hhandled.rxLen⟩
      · show Rests _ ((pl.setRx b _).sockets s).rx
        rw [ProcLocal.setRx_rx]
        split
        · subst s
          exact Vectoring.rests_readhup _ _
        · exact Rests.refl _
      · show Rests _ ((pl.setRx b _).sockets s).tx
        rw [ProcLocal.setRx_tx]
        exact Rests.refl _
      · show ((pl.setRx b _).sockets s).rx.bufLen = _
        rw [ProcLocal.setRx_rx]
        split
        · subst s
          exact (Vectoring.rests_readhup _ _).bufLen
        · rfl
    dsimp only
    split
    · exact htaken.of_sockets (Machine.raise_sockets _ _ _)
    · exact htaken
  · exact undisturbed_of_eq (by rw [Machine.raise_sockets])

/-- A step that neither runs the handler of socket `s` nor operates on it lets its rings
rest. -/
theorem undisturbed_step (h : Machine.step a m = some m') (hhandler : m.handlerOf s a = none)
    (hused : Machine.usedSocket a m ≠ some s) : Undisturbed s m.pl m'.pl := by
  cases Machine.stepped h with
  | start => exact undisturbed_of_eq rfl
  | play hst t => exact undisturbed_of_eq (by rw [ProcLocal.enqueueRun_sockets])
  | answer hst b rx tx =>
      refine ⟨fun _ => ?_, fun _ => ?_, ?_⟩
      all_goals rw [Machine.answer, ProcLocal.updBlock, ProcLocal.updSocket_sockets]
      all_goals split
      · subst s
        exact Rests.refl _
      · exact Rests.refl _
      · subst s
        exact Rests.refl _
      · exact Rests.refl _
      · subst s
        rfl
      · rfl
  | retry hst b os hb =>
      have hne : s ≠ b := by
        rintro rfl
        simp [Machine.handlerOf, hst] at hhandler
      have hhandles := ProcLocal.handles_unflagged m.pl b
      have hhandled : Undisturbed s m.pl ((m.pl.unflagged b).socketHandler b os).pl :=
        ((ProcLocal.reach_socketHandler (a := b) (m.pl.unflagged b) os).undisturbed hne).after
          (unflagged_other m.pl hne) hhandles.rxRef hhandles.txRef
      dsimp only
      rw [ProcLocal.retrySocket_eq]
      split
      · exact hhandled
      · exact hhandled.settle ((ProcLocal.sameData_dropBlocked _ b).trans
          (ProcLocal.settles_enqueueRun _ _).toSameData)
  | exec phase hst => exact undisturbed_of_eq (by rw [Machine.execute_sockets])
  | unblock t hst os =>
      dsimp only
      rcases ProcLocal.afterCall_cases m.pl t os with hsame | ⟨b, hwait, hb, hhandled⟩
      · exact undisturbed_of_sameData hsame
      · have hne : s ≠ b := by
          rintro rfl
          simp [Machine.handlerOf, hst, hwait, hb] at hhandler
        rw [hhandled]
        exact ((ProcLocal.reach_socketHandler (a := b) { m.pl with runningCr := none } os).undisturbed
          hne).after rfl (fun _ => rfl) fun _ => rfl
  | co t hst a m' hco =>
      cases Machine.coStepped hco with
      | turn k b hpos =>
          simp only [Machine.usedSocket, hst, hpos, Option.map_some, ne_eq, Option.some.injEq] at hused
          exact undisturbed_of_eq (Machine.turn_other (Ne.symm hused))
      | call hpos c hknown =>
          simp only [Machine.usedSocket, hst, ne_eq, Option.some.injEq] at hused
          exact undisturbed_of_eq (Machine.call_other c (Ne.symm hused))
      | readhup hpos b => exact undisturbed_readhup m t b
      | play hpos u => exact undisturbed_of_eq (by rw [ProcLocal.enqueueRun_sockets])
      | store hpos mem => exact undisturbed_of_eq rfl
      | raise hpos e => exact undisturbed_of_eq (by rw [Machine.raise_sockets])
      | stop hpos status hstatus => exact undisturbed_of_eq rfl

end Frame

/-! ## Conduits -/

/-- `readv` of a descriptor that has `unread` still to give, asked for `room` bytes.  It
gives none only where it is asked for none or there are none. -/
def SysResult.givesOf (unread : List UInt8) (room : Nat) : SysResult (List UInt8) → Bool
  | .ok bytes => bytes.isPrefixOf unread && decide (bytes.length ≤ room) &&
      (!bytes.isEmpty || unread.isEmpty || room == 0)
  | .err e => e == EAGAIN

/-- `writev` of `held` bytes. -/
def SysResult.takesOf (held : Nat) : SysResult Nat → Bool
  | .ok n => decide (n ≤ held)
  | .err e => e == EAGAIN

/-- The machine, and what the descriptor that socket `s` reads from has still to give. -/
structure Conduit where
  m : Machine
  unread : List UInt8

namespace Conduit

/-- The answers are those of descriptors that do not fail. -/
def answers (s : Nat) (x : Conduit) (os : Os) : Bool :=
  let socket := x.m.pl.sockets s
  (match socket.rxFd.ref with
    | .osFd _ => os.readv.givesOf x.unread socket.rx.rxLen
    | .vkRx _ | .vkTx _ => true) &&
  match socket.txFd.ref with
  | .osFd _ => os.writev.takesOf socket.tx.txLen
  | .vkRx _ | .vkTx _ => true

/-- The bytes that a step reads from the descriptor. -/
def taken (s : Nat) (a : Act) (m : Machine) : List UInt8 :=
  match (m.pl.sockets s).rxFd.ref with
  | .osFd _ => ((m.forwards s a).map fun os => os.readv.bytes).getD []
  | .vkRx _ | .vkTx _ => []

/-- A step, in which the descriptors answer the forward of socket `s`. -/
def step (s : Nat) (a : Act) (x : Conduit) : Option Conduit :=
  if (x.m.forwards s a).all (x.answers s) then
    (Machine.step a x.m).map fun m => ⟨m, x.unread.drop (taken s a x.m).length⟩
  else none

/-- What socket `s` has still to read: what its receive ring holds, and what is behind it. -/
def rest (s : Nat) (x : Conduit) : List UInt8 :=
  rxQueue x.m.pl s ++
    match (x.m.pl.sockets s).rxFd.ref with
    | .osFd _ => x.unread
    | .vkTx w => txQueue x.m.pl w
    | .vkRx _ => []

/-- What is to be taken of it: what its transmit ring holds, and what is before it. -/
def out (s : Nat) (x : Conduit) : List UInt8 :=
  (match (x.m.pl.sockets s).txFd.ref with
    | .vkRx r => rxQueue x.m.pl r
    | .osFd _ | .vkTx _ => []) ++ txQueue x.m.pl s

/-- What a step writes to the pipe that socket `s` reads from.  What a descriptor gives
has been there. -/
def came (s : Nat) (a : Act) (x : Conduit) : List UInt8 :=
  match (x.m.pl.sockets s).rxFd.ref with
  | .vkTx w => Channel.pushed (pipeEvents w s a x.m)
  | .osFd _ | .vkRx _ => []

/-- What `writev` takes. -/
def sent (s : Nat) (a : Act) (m : Machine) : List UInt8 :=
  match m.forwards s a with
  | some os =>
      if ((m.seen s a).sockets s).tx.txBlocked then []
      else
        match os.writev with
        | .ok n => (txQueue m.pl s).take n
        | .err _ => []
  | none => []

/-- What a step delivers: to the reader of a virtual pipe, or to the descriptor. -/
def gone (s : Nat) (a : Act) (x : Conduit) : List UInt8 :=
  match (x.m.pl.sockets s).txFd.ref with
  | .vkRx r => Channel.pulled (pipeEvents s r a x.m)
  | .osFd _ => sent s a x.m
  | .vkTx _ => []

end Conduit

/-- What a turn of a forward moves from the one ring of socket `s` to the other. -/
def Machine.moved (s : Nat) (a : Act) (m : Machine) : List UInt8 :=
  match m.stage, a with
  | .inside t, .co .turn =>
      if m.pos t = some (.forward, s) ∧ (forwardLoop s).test m.pl = true then
        forwardedBytes m.pl (m.pl.forwardCommit s) s
      else []
  | _, _ => []

/-! ## The turn of a forward -/

section Turns

variable {pl : ProcLocal} {m m' : Machine} {a : Act} {s t : Nat}

/-- How many bytes a turn moves: as many as fit, are there and are still to be moved. -/
def forwardCount (pl : ProcLocal) (s : Nat) : Nat :=
  min (pl.uncommitted s) (min (pl.sockets s).tx.rxLen (pl.sockets s).rx.txLen)

/-- A remaining length that is passed as a signed size moves no less than it would: where
it counts as negative, it is more than a ring holds. -/
theorem spliceLen_ssize {rx tx : Vectoring} (htx : tx.Wf) (hsmall : tx.bufLen < 2 ^ 63) {len : Nat}
    (hlen : len < 2 ^ 64) :
    Vectoring.spliceLen rx tx (ProcLocal.ssize len) = min len (min rx.rxLen tx.txLen) := by
  have hle := htx.txLen_le
  unfold Vectoring.spliceLen ProcLocal.ssize
  split <;> split <;> omega

/-- The socket of a forward, behind a turn that has moved `n` bytes. -/
structure TurnLeaves (s n : Nat) (pl pl' : ProcLocal) : Prop where
  rx : ∃ b, Vectoring.Moved ((pl.sockets s).rx.setTxBlocked b) (pl'.sockets s).rx n
    ((pl.sockets s).rx.queue.drop n)
  tx : ∃ b, Vectoring.Moved ((pl.sockets s).tx.setRxBlocked b) (pl'.sockets s).tx n
    ((pl.sockets s).tx.queue ++ (pl.sockets s).rx.queue.take n)
  len : pl'.uncommitted s = pl.uncommitted s - n
  copied : pl'.committed s = pl.committed s + n
  rxClosed : (pl'.sockets s).block.ioftRxRet.rxClosed = (pl.sockets s).block.ioftRxRet.rxClosed

/-- The rings and the block are all that counts. -/
theorem TurnLeaves.congr {pl' pl'' : ProcLocal} {n : Nat} (h : TurnLeaves s n pl pl')
    (hrx : (pl''.sockets s).rx = (pl'.sockets s).rx) (htx : (pl''.sockets s).tx = (pl'.sockets s).tx)
    (hlen : pl''.uncommitted s = pl'.uncommitted s)
    (hcopied : pl''.committed s = pl'.committed s)
    (hclosed : (pl''.sockets s).block.ioftRxRet = (pl'.sockets s).block.ioftRxRet) :
    TurnLeaves s n pl pl'' where
  rx := by
    rw [hrx]
    exact h.rx
  tx := by
    rw [htx]
    exact h.tx
  len := hlen.trans h.len
  copied := hcopied.trans h.copied
  rxClosed := by
    rw [hclosed]
    exact h.rxClosed

theorem turnLeaves_zero (hrx : (pl.sockets s).rx.Wf) (htx : (pl.sockets s).tx.Wf) :
    TurnLeaves s 0 pl pl where
  rx := ⟨_, hrx, List.drop_zero.symm, Vectoring.SameFlags.refl _, (Bool.or_false _).symm⟩
  tx := ⟨_, htx, by rw [List.take_zero, List.append_nil], Vectoring.SameFlags.refl _,
    (Bool.or_false _).symm⟩
  len := rfl
  copied := rfl
  rxClosed := rfl

theorem turnLeaves_forwardCommit (hrx : (pl.sockets s).rx.Wf) (htx : (pl.sockets s).tx.Wf)
    (hsmall : (pl.sockets s).rx.bufLen < 2 ^ 63) (hlen : pl.uncommitted s < 2 ^ 64) :
    TurnLeaves s (forwardCount pl s) pl (pl.forwardCommit s) ∧
      (pl.forwardCommit s).commitFailed s = false := by
  obtain ⟨hrc, -, hmtx, hmrx⟩ := htx.splice hrx
    (ProcLocal.ssize (pl.sockets s).block.getUncommitted) pl.errno
  have hcount : Vectoring.spliceLen (pl.sockets s).tx (pl.sockets s).rx
      (ProcLocal.ssize (pl.sockets s).block.getUncommitted) = forwardCount pl s :=
    spliceLen_ssize hrx hsmall hlen
  rw [hcount] at hrc hmtx hmrx
  generalize hsp : (pl.sockets s).tx.splice (pl.sockets s).rx
    (ProcLocal.ssize (pl.sockets s).block.getUncommitted) pl.errno = sp at hrc hmtx hmrx
  have hself : (pl.forwardCommit s).sockets s = { pl.sockets s with
      rx := sp.tx
      tx := sp.rx
      block := { (pl.sockets s).block with
        rc := forwardCount pl s
        len := (pl.sockets s).block.len - forwardCount pl s
        buf := (pl.sockets s).block.buf + forwardCount pl s
        copied := (pl.sockets s).block.copied + forwardCount pl s } } := by
    have hforward : pl.forwardCommit s
        = (((pl.setRx s sp.tx).setTx s sp.rx).setErrno sp.errno).blockCommit s sp.rc := by
      rw [ProcLocal.forwardCommit, hsp]
    rw [hforward, blockCommit_self, hrc, Block.commit_natCast]
    simp only [ProcLocal.setErrno, ProcLocal.setTx, ProcLocal.setRx,
      ProcLocal.updSocket_sockets_self]
  refine ⟨⟨?_, ?_, ?_, ?_, ?_⟩, ?_⟩
  · rw [hself]
    exact ⟨_, hmrx⟩
  · rw [hself]
    exact ⟨_, hmtx⟩
  · rw [ProcLocal.uncommitted, hself]
    rfl
  · rw [ProcLocal.committed, hself]
    rfl
  · rw [hself]
  · rw [ProcLocal.commitFailed, hself]
    exact decide_eq_false (by simp)

/-- What the turn has added to the transmit ring. -/
theorem forwardedBytes_eq (h : TurnLeaves s (forwardCount pl s) pl (pl.forwardCommit s)) :
    forwardedBytes pl (pl.forwardCommit s) s
      = (pl.sockets s).rx.queue.take (forwardCount pl s) := by
  obtain ⟨b, htx⟩ := h.tx
  rw [forwardedBytes, txQueue, txQueue, htx.queue, List.drop_left]

/-- What a turn of a forward of socket `s` is: the loop is left, or its body has run, and
then the thread goes on or comes back waiting. -/
inductive ForwardTurned (t s : Nat) (m m' : Machine) : Prop where
  | left (htest : (forwardLoop s).test m.pl = false) (hm' : m' = m.setPos t none)
  | again (htest : (forwardLoop s).test m.pl = true)
      (hm' : m' = { m with pl := m.pl.forwardCommit s })
  | wait (htest : (forwardLoop s).test m.pl = true)
      (hm' : m' = { m with pl := (m.pl.forwardCommit s).waitOn t s, stage := .back t })

theorem forwardTurned (h : (m.pl.forwardCommit s).commitFailed s = false) :
    ForwardTurned t s m (m.turn t .forward s) := by
  have hturned := (forwardLoop s).turned m.pl
  generalize hturn : (forwardLoop s).turn m.pl = turn at hturned
  have hloop : (IoLoop.forward.loop s).turn m.pl = turn := hturn
  rw [Machine.turn, hloop]
  cases hturned with
  | left htest => exact .left htest rfl
  | failed htest hfails => exact absurd (h.symm.trans hfails) Bool.false_ne_true
  | done htest hfails hleaves => exact absurd hleaves Bool.false_ne_true
  | wait htest => exact .wait htest rfl
  | again htest => exact .again htest rfl

end Turns

/-! ## What a step does to the socket of a forward -/

section Steps

variable {m m' : Machine} {a : Act} {s t : Nat} {os : Os}

theorem seen_self (s : Nat) (a : Act) (m : Machine) :
    ∃ b b', (m.seen s a).sockets s = { m.pl.sockets s with
      rx := (m.pl.sockets s).rx.setRxBlocked b, tx := (m.pl.sockets s).tx.setTxBlocked b' } := by
  cases a with
  | retry b os => exact unflagged_self m.pl s
  | start | play | answer | exec | co | unblock =>
      exact ⟨(m.pl.sockets s).rx.rxBlocked, (m.pl.sockets s).tx.txBlocked, rfl⟩

theorem handles_seen (s : Nat) (a : Act) (m : Machine) : Handles m.pl (m.seen s a) := by
  cases a with
  | retry b os => exact ProcLocal.handles_unflagged m.pl s
  | start | play | answer | exec | co | unblock =>
      exact ⟨rfl, fun _ => SameBlock.refl _, fun _ => rfl, fun _ => rfl, fun _ => Or.inl rfl,
        fun _ => rfl, fun _ hb => hb⟩

theorem handlerOf_of_forwards (h : m.forwards s a = some os) :
    (m.pl.sockets s).block.op = .forward ∧ m.handlerOf s a = some os := by
  unfold Machine.forwards at h
  split at h
  · exact ⟨‹_›, h⟩
  · cases h

theorem readOf_of_forwards (h : m.forwards s a = some os) : m.readOf s a = some os := by
  obtain ⟨hop, hhandler⟩ := handlerOf_of_forwards h
  unfold Machine.readOf
  rw [if_pos (Or.inr hop)]
  exact hhandler

/-- A step that runs the handler of socket `s` leaves the data as the handler does. -/
theorem handled_step (h : Machine.step a m = some m') (hhandler : m.handlerOf s a = some os) :
    SameData ((m.seen s a).socketHandler s os).pl m'.pl := by
  unfold Machine.handlerOf at hhandler
  cases Machine.stepped h with
  | retry hst b os' hb =>
      simp only [hst] at hhandler
      split at hhandler
      next hbs =>
        cases hhandler
        subst hbs
        dsimp only
        rw [ProcLocal.retrySocket_eq]
        split
        · exact SameData.refl _
        · exact (ProcLocal.sameData_dropBlocked _ b).trans (ProcLocal.settles_enqueueRun _ _).toSameData
      next => cases hhandler
  | unblock u hst os' =>
      simp only [hst] at hhandler
      split at hhandler
      next hwaits =>
        cases hhandler
        dsimp only
        rw [ProcLocal.afterCall_of_wait hwaits.1 hwaits.2]
        exact SameData.refl _
      next => cases hhandler
  | start hst | play hst | answer hst | exec _ hst | co _ hst =>
      simp only [hst] at hhandler
      cases hhandler

theorem forwarded_step (h : Machine.step a m = some m') (hf : m.forwards s a = some os) :
    SameData ((m.seen s a).handleForward s os).pl m'.pl := by
  obtain ⟨hop, hhandler⟩ := handlerOf_of_forwards hf
  have hhandles : (m.seen s a).socketHandler s os = (m.seen s a).handleForward s os := by
    simp only [ProcLocal.socketHandler, ((handles_seen s a m).block s).op, hop]
  rw [← hhandles]
  exact handled_step h hhandler

/-- What a step does to the socket of a forward: the thread takes a turn, the handler
runs, or neither. -/
inductive ActsOn (t s : Nat) (a : Act) (m m' : Machine) : Prop where
  | turn (hst : m.stage = .inside t) (ha : a = .co .turn) (hm' : m' = m.turn t .forward s)
  | handler (os : Os) (hf : m.forwards s a = some os)
  | apart (hhandler : m.handlerOf s a = none) (hused : Machine.usedSocket a m ≠ some s)

theorem Owned.actsOn (h : Owned t s m) (hby : UsedBy t s a m) (hpos : m.pos t = some (.forward, s))
    (hstep : Machine.step a m = some m') : ActsOn t s a m m' := by
  have hop : (m.pl.sockets s).block.op = .forward := h.admits _ hpos
  by_cases hused : Machine.usedSocket a m = some s
  · obtain ⟨hst, ⟨k, hk, rfl⟩ | ⟨c, hc, -⟩⟩ := h.usedSocket hby hstep hused
    · obtain ⟨ha, hm'⟩ := Machine.turn_of_pos hstep hst hpos
      exact .turn hst ha hm'
    · rw [hpos] at hc
      cases hc
  · cases hhandler : m.handlerOf s a with
    | none => exact .apart hhandler hused
    | some os => exact .handler os (by rw [Machine.forwards, if_pos hop, hhandler])

/-- Only a turn moves something. -/
theorem moved_of_unused (hused : Machine.usedSocket a m ≠ some s) : m.moved s a = [] := by
  unfold Machine.moved
  split
  next t hst =>
    split
    next hturn =>
      unfold Machine.usedSocket at hused
      simp only [hst, hturn.1, Option.map_some, ne_eq, not_true_eq_false] at hused
    next => rfl
  next => rfl

/-- A step that runs a handler operates on no socket. -/
theorem unused_of_handlerOf (h : m.handlerOf s a = some os) (b : Nat) :
    Machine.usedSocket a m ≠ some b := by
  unfold Machine.handlerOf at h
  split at h
  next c os' hst =>
    unfold Machine.usedSocket
    simp [hst]
  next u os' hst =>
    unfold Machine.usedSocket
    simp [hst]
  next => cases h

theorem unused_of_forwards (h : m.forwards s a = some os) : Machine.usedSocket a m ≠ some s :=
  unused_of_handlerOf (handlerOf_of_forwards h).2 s

theorem moved_turn (hst : m.stage = .inside t) (hpos : m.pos t = some (.forward, s)) :
    m.moved s (.co .turn) = if (forwardLoop s).test m.pl = true then
      forwardedBytes m.pl (m.pl.forwardCommit s) s else [] := by
  unfold Machine.moved
  simp only [hst, hpos, true_and]

/-- A turn moves what it takes off the front of the receive ring to the back of the
transmit ring, and no more than is still to be moved. -/
theorem turnLeaves_turn (hrx : (m.pl.sockets s).rx.Wf) (htx : (m.pl.sockets s).tx.Wf)
    (hsmall : (m.pl.sockets s).rx.bufLen < 2 ^ 63) (hlen : m.pl.uncommitted s < 2 ^ 64)
    (hst : m.stage = .inside t) (hpos : m.pos t = some (.forward, s)) :
    ∃ n, TurnLeaves s n m.pl (m.turn t .forward s).pl ∧
      m.moved s (.co .turn) = (m.pl.sockets s).rx.queue.take n ∧ n ≤ m.pl.uncommitted s ∧
      n ≤ (m.pl.sockets s).rx.queue.length := by
  obtain ⟨hleaves, hsucceeds⟩ := turnLeaves_forwardCommit hrx htx hsmall hlen
  have hmoved := moved_turn hst hpos
  have hle : forwardCount m.pl s ≤ m.pl.uncommitted s ∧
      forwardCount m.pl s ≤ (m.pl.sockets s).rx.queue.length := by
    rw [Vectoring.length_queue]
    unfold forwardCount
    omega
  cases forwardTurned (t := t) hsucceeds with
  | left htest hm' =>
      rw [if_neg (by rw [htest]; exact Bool.false_ne_true)] at hmoved
      rw [hm']
      exact ⟨0, turnLeaves_zero hrx htx, hmoved, Nat.zero_le _, Nat.zero_le _⟩
  | again htest hm' =>
      rw [if_pos htest, forwardedBytes_eq hleaves] at hmoved
      rw [hm']
      exact ⟨_, hleaves, hmoved, hle⟩
  | wait htest hm' =>
      rw [if_pos htest, forwardedBytes_eq hleaves] at hmoved
      have hself := Machine.waitOn_self (m.pl.forwardCommit s) t s
      rw [hm']
      refine ⟨_, hleaves.congr ?_ ?_ ?_ ?_ ?_, hmoved, hle⟩
      · rw [hself]
      · rw [hself]
      · rw [ProcLocal.uncommitted, hself]
        rfl
      · rw [ProcLocal.committed, hself]
        rfl
      · rw [hself]

end Steps

/-! ## Descriptors -/

/-- Socket `s` reads from a descriptor, no socket writes to it, and EOF is marked only at
the stream's end. -/
structure FedByFd (s : Nat) (x : Conduit) : Prop where
  fd : ∃ fd, 0 ≤ fd ∧ (x.m.pl.sockets s).rxFd.ref = .osFd fd
  alone : ∀ b, (x.m.pl.sockets b).txFd.ref ≠ .vkRx s
  wf : (x.m.pl.sockets s).rx.Wf
  unpolled : (x.m.pl.sockets s).block.ioftRxRet.rxClosed = false
  ended : (x.m.pl.sockets s).rx.eof = true → x.unread = []

/-- Socket `s` writes to a descriptor, and no socket reads from it. -/
structure DrainedByFd (s : Nat) (pl : ProcLocal) : Prop where
  fd : ∃ fd, 0 ≤ fd ∧ (pl.sockets s).txFd.ref = .osFd fd
  alone : ∀ b, (pl.sockets b).rxFd.ref ≠ .vkTx s
  wf : (pl.sockets s).tx.Wf

namespace Vectoring

variable {ring : Vectoring}

/-- What a `readv` of a descriptor does to the ring.  Where the ring has room, EOF is the
end, and there is an effect or the ring is blocked. -/
theorem Wf.gives (h : ring.Wf) {unread : List UInt8} {readv : SysResult (List UInt8)}
    (hgives : readv.givesOf unread ring.rxLen = true) (errno : Errno) :
    (ring.read readv errno).ring.Wf ∧
      (ring.read readv errno).ring.queue = ring.queue ++ readv.bytes ∧
      readv.bytes <+: unread ∧
      (ring.rxLen ≠ 0 → (ring.read readv errno).ring.eof = true →
        ring.eof = true ∨ unread = []) ∧
      (ring.rxLen ≠ 0 → (ring.read readv errno).ring.effect = true ∨
        (ring.read readv errno).ring.rxBlocked = true) := by
  cases readv with
  | err e =>
      have he : e = EAGAIN := beq_iff_eq.mp hgives
      rw [read_err, he]
      exact ⟨h.congr rfl rfl rfl rfl rfl (Int.natCast_nonneg _), (List.append_nil _).symm,
        List.nil_prefix, fun _ heof => Or.inl heof, fun _ => Or.inr rfl⟩
  | ok bytes =>
      simp only [SysResult.givesOf, Bool.and_eq_true, Bool.or_eq_true, Bool.not_eq_true',
        decide_eq_true_eq, List.isPrefixOf_iff_prefix, beq_iff_eq, List.isEmpty_iff,
        List.isEmpty_eq_false_iff] at hgives
      obtain ⟨⟨hfront, hfits⟩, hend⟩ := hgives
      obtain ⟨-, -, hmoved⟩ := h.read_ok hfits errno
      refine ⟨hmoved.wf, hmoved.queue, hfront, fun hroom heof => Or.inr ?_, fun hroom => ?_⟩
      · have hnil : bytes = [] := List.isEmpty_iff.mp (hmoved.flags.eof.symm.trans heof)
        exact (hend.resolve_right hroom).resolve_left fun hne => hne hnil
      · refine (h.read_moves (fun bs hbs => ?_) errno).mpr (Or.inl ?_)
        · cases hbs
          exact hfits
        · simp only [readMoves, Bool.or_eq_true, decide_eq_true_eq]
          exact Or.inr (Nat.pos_of_ne_zero hroom)

/-- What a `writev` of a descriptor does to the ring, and what it takes. -/
theorem Wf.takes (h : ring.Wf) {writev : SysResult Nat} (htakes : writev.takesOf ring.txLen = true)
    (errno : Errno) :
    (ring.write writev errno).ring.Wf ∧
      ring.queue = (if ring.txBlocked then [] else
        match writev with
        | .ok n => ring.queue.take n
        | .err _ => []) ++ (ring.write writev errno).ring.queue ∧
      (ring.effect = true → (ring.write writev errno).ring.effect = false →
        (ring.write writev errno).ring.txBlocked = true) := by
  cases hb : ring.txBlocked with
  | true =>
      rw [write_of_blocked hb]
      exact ⟨h, rfl, fun _ _ => hb⟩
  | false =>
      cases writev with
      | err e =>
          have he : e = EAGAIN := beq_iff_eq.mp htakes
          rw [write_err hb, he]
          exact ⟨h.congr rfl rfl rfl rfl rfl (Int.natCast_nonneg _), rfl, fun _ _ => rfl⟩
      | ok n =>
          obtain ⟨-, -, hmoved⟩ := h.write_ok hb (of_decide_eq_true htakes) errno
          refine ⟨hmoved.wf, ?_, fun heffect hno => ?_⟩
          · rw [hmoved.queue]
            exact (List.take_append_drop n ring.queue).symm
          · rw [hmoved.effect] at hno
            exact absurd heffect (Bool.eq_false_iff.mp (Bool.or_eq_false_iff.mp hno).1)

end Vectoring

section Descriptors

variable {x : Conduit} {m m' : Machine} {a : Act} {s t : Nat} {os : Os}

theorem FedByFd.straight (h : FedByFd s x) : ProcLocal.Straight s x.m.pl where
  rx href := by
    obtain ⟨fd, -, hfd⟩ := h.fd
    rw [href] at hfd
    cases hfd
  tx := h.alone s

theorem DrainedByFd.straight (h : DrainedByFd s m.pl) : ProcLocal.Straight s m.pl where
  rx := h.alone s
  tx href := by
    obtain ⟨fd, -, hfd⟩ := h.fd
    rw [href] at hfd
    cases hfd

theorem FedByFd.rest_eq (h : FedByFd s x) : x.rest s = rxQueue x.m.pl s ++ x.unread := by
  obtain ⟨fd, -, hfd⟩ := h.fd
  simp only [Conduit.rest, hfd]

theorem DrainedByFd.out_eq (h : DrainedByFd s x.m.pl) : x.out s = txQueue x.m.pl s := by
  obtain ⟨fd, -, hfd⟩ := h.fd
  simp only [Conduit.out, hfd, List.nil_append]

theorem taken_of_not_forwards (h : m.forwards s a = none) : Conduit.taken s a m = [] := by
  unfold Conduit.taken
  rw [h]
  split <;> rfl

theorem forwards_of_used (h : Machine.usedSocket a m = some s) : m.forwards s a = none := by
  cases hf : m.forwards s a with
  | none => rfl
  | some os => exact absurd h (unused_of_forwards hf)

theorem forwards_of_not_handlerOf (h : m.handlerOf s a = none) : m.forwards s a = none := by
  unfold Machine.forwards
  rw [h, ite_self]

theorem usedSocket_turn (hst : m.stage = .inside t) (hpos : m.pos t = some (.forward, s)) :
    Machine.usedSocket (.co .turn) m = some s := by
  unfold Machine.usedSocket
  simp only [hst, hpos, Option.map_some]

/-- What an answered handler finds to read. -/
theorem givesOf_of_answers {fd : Int} (h : x.answers s os = true)
    (href : (x.m.pl.sockets s).rxFd.ref = .osFd fd) :
    os.readv.givesOf x.unread (x.m.pl.sockets s).rx.rxLen = true := by
  simp only [Conduit.answers, href, Bool.and_eq_true] at h
  exact h.1

theorem takesOf_of_answers {fd : Int} (h : x.answers s os = true)
    (href : (x.m.pl.sockets s).txFd.ref = .osFd fd) :
    os.writev.takesOf (x.m.pl.sockets s).tx.txLen = true := by
  simp only [Conduit.answers, href, Bool.and_eq_true] at h
  exact h.2

/-- The receive ring that an answered handler has filled from a descriptor. -/
theorem FedByFd.filled (h : FedByFd s x) (hanswers : x.answers s os = true) :
    ((x.m.seen s a).filled s os).Wf ∧
      ((x.m.seen s a).filled s os).queue = rxQueue x.m.pl s ++ os.readv.bytes ∧
      os.readv.bytes <+: x.unread ∧
      ((x.m.pl.sockets s).rx.rxLen ≠ 0 → ((x.m.seen s a).filled s os).eof = true →
        (x.m.pl.sockets s).rx.eof = true ∨ x.unread = []) ∧
      ((x.m.pl.sockets s).rx.rxLen ≠ 0 → ((x.m.seen s a).filled s os).effect = true ∨
        ((x.m.seen s a).filled s os).rxBlocked = true) := by
  obtain ⟨fd, -, hfd⟩ := h.fd
  obtain ⟨b, b', hself⟩ := seen_self s a x.m
  have hgives := (h.wf.setRxBlocked b).gives (givesOf_of_answers hanswers hfd) (x.m.seen s a).errno
  unfold ProcLocal.filled
  rw [(handles_seen s a x.m).rxRef, hfd, hself]
  exact hgives

/-- A step keeps a socket fed, and what it moves leaves what was still to be read at its
front. -/
theorem FedByFd.step (h : FedByFd s x) (hw : ProcLocal.Wired x.m.pl) (htx : (x.m.pl.sockets s).tx.Wf)
    (hsmall : (x.m.pl.sockets s).rx.bufLen < 2 ^ 63) (hlen : x.m.pl.uncommitted s < 2 ^ 64)
    (hpos : x.m.pos t = some (.forward, s)) (hacts : ActsOn t s a x.m m')
    (hanswers : (x.m.forwards s a).all (x.answers s) = true) (hroom : ReadsInRoom s a x.m)
    (hstep : Machine.step a x.m = some m') {x' : Conduit}
    (hx' : x' = ⟨m', x.unread.drop (Conduit.taken s a x.m).length⟩) :
    FedByFd s x' ∧ x.rest s = x.m.moved s a ++ x'.rest s := by
  obtain ⟨fd, hpos', hfd⟩ := h.fd
  have hrefs := Machine.refs_step hstep
  have hfd' : (x'.m.pl.sockets s).rxFd.ref = .osFd fd := by
    rw [hx']
    exact (hrefs s).1.trans hfd
  have halone : ∀ b, (x'.m.pl.sockets b).txFd.ref ≠ .vkRx s := fun b => by
    rw [hx', (hrefs b).2]
    exact h.alone b
  have hcloses : Machine.usedSocket a x.m ≠ some s →
      (x'.m.pl.sockets s).block.ioftRxRet.rxClosed = false := fun hused => by
    rw [hx']
    exact (Machine.sameCall_step hstep hused).rxClosed.trans h.unpolled
  cases hacts with
  | turn hst ha hm' =>
      subst ha
      have hnone := taken_of_not_forwards (forwards_of_used (usedSocket_turn hst hpos))
      have hunread : x'.unread = x.unread := by
        rw [hx', hnone]
        rfl
      obtain ⟨n, hleaves, hmoved, -, -⟩ := turnLeaves_turn h.wf htx hsmall hlen hst hpos
      rw [← hm', show m' = x'.m by rw [hx']] at hleaves
      obtain ⟨b, hrx⟩ := hleaves.rx
      have hfed : FedByFd s x' := {
        fd := ⟨fd, hpos', hfd'⟩
        alone := halone
        wf := hrx.wf
        unpolled := hleaves.rxClosed.trans h.unpolled
        ended := fun heof => hunread.trans (h.ended (hrx.flags.eof.symm.trans heof)) }
      refine ⟨hfed, ?_⟩
      rw [h.rest_eq, hfed.rest_eq, hunread, hmoved, rxQueue, rxQueue, hrx.queue, ← List.append_assoc,
        List.take_append_drop]
  | handler os hf =>
      have hused := unused_of_forwards hf
      have hanswered : x.answers s os = true := by
        rw [hf] at hanswers
        exact hanswers
      have hhandles := handles_seen s a x.m
      have hring := (ProcLocal.handleForward_rx (ProcLocal.Handles.wired hhandles hw)
        (h.straight.of_handles hhandles) os).trans ((forwarded_step hstep hf).socket s).rx
      rw [show m' = x'.m by rw [hx']] at hring
      obtain ⟨hwf, hqueue, hfront, heof, -⟩ := h.filled (a := a) hanswered
      have hunread : x'.unread = x.unread.drop os.readv.bytes.length := by
        rw [hx']
        simp only [Conduit.taken, hfd, hf, Option.map_some, Option.getD_some]
      have hfull : (x.m.pl.sockets s).rx.rxLen ≠ 0 :=
        hroom (by rw [readOf_of_forwards hf]; rfl) (Or.inl (handlerOf_of_forwards hf).1)
      have hfed : FedByFd s x' := {
        fd := ⟨fd, hpos', hfd'⟩
        alone := halone
        wf := hring.wf hwf
        unpolled := hcloses hused
        ended := fun hend => by
          have hnil : x.unread = [] := (heof hfull (hring.eof.symm.trans hend)).elim h.ended id
          rw [hunread, hnil]
          exact List.drop_nil }
      refine ⟨hfed, ?_⟩
      rw [h.rest_eq, hfed.rest_eq, hunread, moved_of_unused hused, rxQueue, rxQueue, hring.queue, hqueue,
        List.nil_append, List.append_assoc, List.prefix_iff_eq_append.mp hfront]
      rfl
  | apart hhandler hused =>
      have hnone := taken_of_not_forwards (forwards_of_not_handlerOf hhandler)
      have hunread : x'.unread = x.unread := by
        rw [hx', hnone]
        rfl
      have hrests := (undisturbed_step hstep hhandler hused).rx ⟨⟨fd, hfd⟩, h.alone⟩
      rw [show m' = x'.m by rw [hx']] at hrests
      have hfed : FedByFd s x' := {
        fd := ⟨fd, hpos', hfd'⟩
        alone := halone
        wf := hrests.wf h.wf
        unpolled := hcloses hused
        ended := fun hend => hunread.trans (h.ended (hrests.eof hend)) }
      refine ⟨hfed, ?_⟩
      rw [h.rest_eq, hfed.rest_eq, hunread, moved_of_unused hused, rxQueue, rxQueue, hrests.queue]
      rfl

/-- A step keeps a socket drained, and what it moves joins what is to be taken at its
back. -/
theorem DrainedByFd.step (h : DrainedByFd s x.m.pl) (hw : ProcLocal.Wired x.m.pl)
    (hs : ProcLocal.Straight s x.m.pl) (hrx : (x.m.pl.sockets s).rx.Wf)
    (hsmall : (x.m.pl.sockets s).rx.bufLen < 2 ^ 63) (hlen : x.m.pl.uncommitted s < 2 ^ 64)
    (hpos : x.m.pos t = some (.forward, s)) (hacts : ActsOn t s a x.m m')
    (hanswers : (x.m.forwards s a).all (x.answers s) = true)
    (hstep : Machine.step a x.m = some m') :
    DrainedByFd s m'.pl ∧
      txQueue x.m.pl s ++ x.m.moved s a = Conduit.sent s a x.m ++ txQueue m'.pl s := by
  obtain ⟨fd, hpos', hfd⟩ := h.fd
  have hrefs := Machine.refs_step hstep
  have hfd' : (m'.pl.sockets s).txFd.ref = .osFd fd := (hrefs s).2.trans hfd
  have halone : ∀ b, (m'.pl.sockets b).rxFd.ref ≠ .vkTx s := fun b => by
    rw [(hrefs b).1]
    exact h.alone b
  cases hacts with
  | turn hst ha hm' =>
      subst ha
      have hnone := forwards_of_used (usedSocket_turn hst hpos)
      obtain ⟨n, hleaves, hmoved, -, -⟩ := turnLeaves_turn hrx h.wf hsmall hlen hst hpos
      rw [← hm'] at hleaves
      obtain ⟨b, htx⟩ := hleaves.tx
      refine ⟨⟨⟨fd, hpos', hfd'⟩, halone, htx.wf⟩, ?_⟩
      rw [hmoved, Conduit.sent, hnone]
      exact htx.queue.symm
  | handler os hf =>
      have hanswered : x.answers s os = true := by
        rw [hf] at hanswers
        exact hanswers
      have hhandles := handles_seen s a x.m
      obtain ⟨b, b', hself⟩ := seen_self s a x.m
      obtain ⟨e, hring, -⟩ := ProcLocal.handleForward_tx (ProcLocal.Handles.wired hhandles hw)
        (hs.of_handles hhandles) os ((hhandles.txRef s).trans hfd)
      have hleft := hring.trans ((forwarded_step hstep hf).socket s).tx
      have htx : ((x.m.seen s a).sockets s).tx = (x.m.pl.sockets s).tx.setTxBlocked b' := by
        rw [hself]
      obtain ⟨hwf, hqueue, -⟩ := (h.wf.setTxBlocked b').takes (takesOf_of_answers hanswered hfd) e
      rw [← htx] at hwf hqueue
      refine ⟨⟨⟨fd, hpos', hfd'⟩, halone, hleft.wf hwf⟩, ?_⟩
      have hbefore : ((x.m.seen s a).sockets s).tx.queue = txQueue x.m.pl s := by
        rw [htx]
        rfl
      rw [hbefore] at hqueue
      rw [moved_of_unused (unused_of_forwards hf), List.append_nil, Conduit.sent, hf,
        show txQueue m'.pl s = _ from hleft.queue]
      exact hqueue
  | apart hhandler hused =>
      have hrests := (undisturbed_step hstep hhandler hused).tx ⟨⟨fd, hfd⟩, h.alone⟩
      refine ⟨⟨⟨fd, hpos', hfd'⟩, halone, hrests.wf h.wf⟩, ?_⟩
      rw [moved_of_unused hused, List.append_nil, Conduit.sent, forwards_of_not_handlerOf hhandler]
      exact hrests.queue.symm

end Descriptors

/-! ## Virtual pipes -/

section Pipes

variable {x : Conduit} {m m' : Machine} {a : Act} {s t w r : Nat}

/-- One step of a pipe. -/
theorem pipe_step (hj : Joined m.pl w r) (hstep : Machine.step a m = some m') :
    Joined m'.pl w r ∧
      rxQueue m.pl r ++ txQueue m.pl w ++ Channel.pushed (pipeEvents w r a m)
        = Channel.pulled (pipeEvents w r a m) ++ (rxQueue m'.pl r ++ txQueue m'.pl w) := by
  obtain ⟨n, hn⟩ := shows_step hj hstep
  have hpushed := Channel.pushed_eq (hn.run false false)
  rw [Channel.pushed_append, Channel.pulled_append] at hpushed
  simp only [Channel.pushed, Channel.pulled, List.append_nil, List.append_assoc] at hpushed
  refine ⟨hn.joined, ?_⟩
  rw [List.append_assoc]
  exact hpushed

theorem ActsOn.unused (h : ActsOn t s a m m') (hne : ¬(m.stage = .inside t ∧ a = .co .turn)) :
    Machine.usedSocket a m ≠ some s := by
  cases h with
  | turn hst ha hm' => exact absurd ⟨hst, ha⟩ hne
  | handler os hf => exact unused_of_forwards hf
  | apart hhandler hused => exact hused

/-- What is delivered from the pipe a forward reads is what the forward moves. -/
theorem pulled_forward (hpos : m.pos t = some (.forward, s)) (hacts : ActsOn t s a m m') :
    Channel.pulled (pipeEvents w s a m) = m.moved s a := by
  by_cases hturn : m.stage = .inside t ∧ a = .co .turn
  · obtain ⟨hst, rfl⟩ := hturn
    rw [moved_turn hst hpos]
    simp only [pipeEvents, hst, hpos, turnEvents]
    split
    next htest =>
      have htest : (forwardLoop s).test m.pl = true := htest
      rw [if_pos htest, bodyEvents]
      simp only [if_true, Channel.pulled, List.append_nil]
      rfl
    next htest =>
      have htest : ¬(forwardLoop s).test m.pl = true := htest
      rw [if_neg htest]
      rfl
  · have hused := hacts.unused hturn
    rw [moved_of_unused hused]
    have hshown := shown w s a m
    generalize pipeEvents w s a m = es at hshown
    cases hshown with
    | pull u k bs hst hpos' =>
        simp only [Machine.usedSocket, hst, hpos', Option.map_some, ne_eq, not_true_eq_false] at hused
    | silent | push | mark | pass | take => rfl

/-- What is written to the pipe a forward writes is what the forward moves. -/
theorem pushed_forward (hne : s ≠ r) (hpos : m.pos t = some (.forward, s))
    (hacts : ActsOn t s a m m') : Channel.pushed (pipeEvents s r a m) = m.moved s a := by
  by_cases hturn : m.stage = .inside t ∧ a = .co .turn
  · obtain ⟨hst, rfl⟩ := hturn
    rw [moved_turn hst hpos]
    simp only [pipeEvents, hst, hpos, turnEvents]
    split
    next htest =>
      have htest : (forwardLoop s).test m.pl = true := htest
      rw [if_pos htest, bodyEvents]
      simp only [if_neg hne, if_true, Channel.pushed, List.append_nil]
      rfl
    next htest =>
      have htest : ¬(forwardLoop s).test m.pl = true := htest
      rw [if_neg htest]
      rfl
  · have hused := hacts.unused hturn
    rw [moved_of_unused hused]
    have hshown := shown s r a m
    generalize pipeEvents s r a m = es at hshown
    cases hshown with
    | push u k bs hst hpos' =>
        simp only [Machine.usedSocket, hst, hpos', Option.map_some, ne_eq, not_true_eq_false] at hused
    | silent | pull | mark | pass | take => rfl

theorem rest_of_pipe (hj : Joined x.m.pl w s) :
    x.rest s = rxQueue x.m.pl s ++ txQueue x.m.pl w := by
  simp only [Conduit.rest, hj.rxRef]

theorem out_of_pipe (hj : Joined x.m.pl s r) :
    x.out s = rxQueue x.m.pl r ++ txQueue x.m.pl s := by
  simp only [Conduit.out, hj.txRef]

end Pipes

end Vk

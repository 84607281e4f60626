/-
# `Mnvkd.HandlerAlike` — the handlers cannot tell alike processes apart

Two processes may be the same but for the rings of their sockets.  Where the rings
are alike (`Vectoring.Alike`), the run and blocked queues and the handlers of a
blocked operation take the same branches in both, return the same, and leave them
alike: they look at a ring's flags and lengths, and at its bytes only through the
ring's own operations.
-/
import Mnvkd.ThreadIo
import Mnvkd.VectoringAlike

namespace Vk

open Lib Errno

/-! ## Processes -/

/-- The socket and another with its rings related by `R`, the same in everything else
but `error`. -/
inductive Socket.UpTo (R : Vectoring → Vectoring → Prop) (socket : Socket) : Socket → Prop where
  | rings (rx tx : Vectoring) (error : Errno) (hrx : R socket.rx rx) (htx : R socket.tx tx) :
      UpTo R socket { socket with rx := rx, tx := tx, error := error }

/-- The process and another that differs in its memory, as `M` has it, and in the rings
and errors of its sockets. -/
inductive ProcLocal.UpTo (R : Vectoring → Vectoring → Prop)
    (M : Memory UInt8 → Memory UInt8 → Prop) (pl : ProcLocal) : ProcLocal → Prop where
  | sockets (sockets : Nat → Socket) (mem : Memory UInt8)
      (h : ∀ s, (pl.sockets s).UpTo R (sockets s)) (hmem : M pl.mem mem) :
      UpTo R M pl { pl with sockets := sockets, mem := mem }

/-- What two handlers leave is alike, and they return the same. -/
structure Handled.UpTo (R : Vectoring → Vectoring → Prop)
    (M : Memory UInt8 → Memory UInt8 → Prop) (h h' : Handled) : Prop where
  pl : h.pl.UpTo R M h'.pl
  rc : h'.rc = h.rc

/-- The rings are alike. -/
abbrev Socket.Alike := Socket.UpTo Vectoring.Alike

abbrev ProcLocal.Alike (M : Memory UInt8 → Memory UInt8 → Prop) (pl pl' : ProcLocal) : Prop :=
  ProcLocal.UpTo Vectoring.Alike M pl pl'

abbrev Handled.Alike (M : Memory UInt8 → Memory UInt8 → Prop) (h h' : Handled) : Prop :=
  Handled.UpTo Vectoring.Alike M h h'

namespace Socket
variable {socket socket' : Socket}

section Fields
variable {R : Vectoring → Vectoring → Prop} (h : socket.UpTo R socket')
include h

theorem UpTo.rx : R socket.rx socket'.rx := by cases h; assumption
theorem UpTo.tx : R socket.tx socket'.tx := by cases h; assumption
theorem UpTo.block : socket'.block = socket.block := by cases h; rfl
theorem UpTo.rxFd : socket'.rxFd = socket.rxFd := by cases h; rfl
theorem UpTo.txFd : socket'.txFd = socket.txFd := by cases h; rfl
theorem UpTo.blockedEnq : socket'.blockedEnq = socket.blockedEnq := by cases h; rfl

end Fields

/-- What leaves the rings changes the rest of both. -/
theorem UpTo.map {R : Vectoring → Vectoring → Prop} (h : socket.UpTo R socket')
    (f : Socket → Socket) {g : Errno → Errno}
    (hf : ∀ rx tx error, f { socket with rx := rx, tx := tx, error := error } =
      { f socket with rx := rx, tx := tx, error := g error })
    (hrx : (f socket).rx = socket.rx) (htx : (f socket).tx = socket.tx) :
    (f socket).UpTo R (f socket') := by
  cases h with
  | rings rx tx error hrx' htx' =>
      have hf' := @UpTo.rings R (f socket) rx tx (g error) (hrx ▸ hrx') (htx ▸ htx')
      rwa [← hf rx tx error] at hf'

theorem UpTo.setRx {R : Vectoring → Vectoring → Prop} (h : socket.UpTo R socket')
    {rx rx' : Vectoring} (hrx : R rx rx') :
    UpTo R { socket with rx := rx } { socket' with rx := rx' } := by
  cases h with
  | rings _ tx error _ htx => exact @UpTo.rings R { socket with rx := rx } rx' tx error hrx htx

theorem UpTo.setTx {R : Vectoring → Vectoring → Prop} (h : socket.UpTo R socket')
    {tx tx' : Vectoring} (htx : R tx tx') :
    UpTo R { socket with tx := tx } { socket' with tx := tx' } := by
  cases h with
  | rings rx _ error hrx _ => exact @UpTo.rings R { socket with tx := tx } rx tx' error hrx htx

end Socket

namespace ProcLocal
variable {pl pl' : ProcLocal} {M : Memory UInt8 → Memory UInt8 → Prop}

section Fields
variable {R : Vectoring → Vectoring → Prop} (h : pl.UpTo R M pl')
include h

theorem UpTo.socket (s : Nat) : (pl.sockets s).UpTo R (pl'.sockets s) := by
  cases h with
  | sockets _ _ h _ => exact h s

theorem UpTo.threads : pl'.threads = pl.threads := by cases h; rfl
theorem UpTo.runQ : pl'.runQ = pl.runQ := by cases h; rfl
theorem UpTo.blockedQ : pl'.blockedQ = pl.blockedQ := by cases h; rfl
theorem UpTo.mem : M pl.mem pl'.mem := by cases h; assumption
theorem UpTo.errno : pl'.errno = pl.errno := by cases h; rfl

/-- What does not look at the sockets. -/
theorem UpTo.apart (f : ProcLocal → ProcLocal)
    (hf : ∀ sockets mem, f { pl with sockets := sockets, mem := mem } =
      { f pl with sockets := sockets, mem := mem })
    (hs : (f pl).sockets = pl.sockets) (hm : (f pl).mem = pl.mem) : (f pl).UpTo R M (f pl') := by
  cases h with
  | sockets sockets mem h hmem =>
      have hf' := @UpTo.sockets R M (f pl) sockets mem (hs ▸ h) (hm ▸ hmem)
      rwa [← hf sockets mem] at hf'

theorem UpTo.updSocket (s : Nat) {f g : Socket → Socket}
    (hf : (f (pl.sockets s)).UpTo R (g (pl'.sockets s))) :
    (pl.updSocket s f).UpTo R M (pl'.updSocket s g) := by
  cases h with
  | sockets sockets mem h hmem =>
      refine @UpTo.sockets R M (pl.updSocket s f) (Function.update sockets s (g (sockets s))) mem
        (fun w => ?_) hmem
      rw [updSocket_sockets, Function.update_apply]
      split
      · exact hf
      · exact h w

theorem UpTo.updThread (t : Nat) (f : Thread → Thread) :
    (pl.updThread t f).UpTo R M (pl'.updThread t f) :=
  h.apart (fun pl => pl.updThread t f) (fun _ _ => rfl) rfl rfl

theorem UpTo.setErrno (errno : Errno) : (pl.setErrno errno).UpTo R M (pl'.setErrno errno) :=
  h.apart (fun pl => pl.setErrno errno) (fun _ _ => rfl) rfl rfl

theorem UpTo.setMem {M' : Memory UInt8 → Memory UInt8 → Prop} {mem mem' : Memory UInt8}
    (hmem : M' mem mem') : UpTo R M' { pl with mem := mem } { pl' with mem := mem' } := by
  cases h with
  | sockets sockets _ h _ => exact @UpTo.sockets R M' { pl with mem := mem } sockets mem' h hmem

theorem UpTo.ready (t : Nat) : (pl.ready t).UpTo R M (pl'.ready t) :=
  h.apart (fun pl => pl.ready t) (fun _ _ => rfl) rfl rfl

theorem UpTo.enqueueRun (t : Nat) : (pl.enqueueRun t).UpTo R M (pl'.enqueueRun t) := by
  have hready := h.ready t
  have hthat : (pl'.ready t).threads t = (pl.ready t).threads t := congrFun hready.threads t
  unfold ProcLocal.enqueueRun
  dsimp only
  rw [hthat]
  split
  · exact (hready.apart
      (fun pl => { pl with run := if pl.runQ.isEmpty then true else pl.run, runQ := t :: pl.runQ })
      (fun _ _ => rfl) rfl rfl).updThread t _
  · exact hready

theorem UpTo.dropRun (t : Nat) : (pl.dropRun t).UpTo R M (pl'.dropRun t) := by
  refine UpTo.apart (f := fun pl => { pl with run := if pl.runQ.isEmpty then false else pl.run })
    ?_ (fun _ _ => rfl) rfl rfl
  have hthat : pl'.threads t = pl.threads t := congrFun h.threads t
  rw [hthat]
  split
  · exact (h.apart (fun pl => { pl with runQ := pl.runQ.erase t }) (fun _ _ => rfl) rfl rfl).updThread t _
  · exact h

theorem UpTo.raiseAt (t : Nat) (e : Errno) : (pl.raiseAt t e).UpTo R M (pl'.raiseAt t e) := by
  unfold ProcLocal.raiseAt
  exact ((h.updThread t _).enqueueRun t).updThread t _

theorem UpTo.enqueueBlocked (s : Nat) : (pl.enqueueBlocked s).UpTo R M (pl'.enqueueBlocked s) := by
  unfold ProcLocal.enqueueBlocked
  rw [(h.socket s).blockedEnq]
  split
  · exact h
  · refine (h.apart
      (fun pl => { pl with
        blocked := if pl.blockedQ.isEmpty then true else pl.blocked
        blockedQ := s :: pl.blockedQ }) (fun _ _ => rfl) rfl rfl).updSocket s ?_
    exact (h.socket s).map (fun socket => { socket with blockedEnq := true }) (g := id) (fun _ _ _ => rfl)
      rfl rfl

theorem UpTo.dropBlocked (s : Nat) : (pl.dropBlocked s).UpTo R M (pl'.dropBlocked s) := by
  refine UpTo.apart
    (f := fun pl => { pl with blocked := if pl.blockedQ.isEmpty then false else pl.blocked })
    ?_ (fun _ _ => rfl) rfl rfl
  rw [(h.socket s).blockedEnq]
  split
  · refine (h.apart (fun pl => { pl with blockedQ := pl.blockedQ.erase s }) (fun _ _ => rfl)
      rfl rfl).updSocket s ?_
    exact (h.socket s).map (fun socket => { socket with blockedEnq := false }) (g := id) (fun _ _ _ => rfl)
      rfl rfl
  · exact h

theorem UpTo.blockedVk (s : Nat) : pl'.blockedVk s = pl.blockedVk s :=
  congrArg Block.blockedVk (h.socket s).block

theorem UpTo.dropBlockedFor (t : Nat) : (pl.dropBlockedFor t).UpTo R M (pl'.dropBlockedFor t) := by
  unfold ProcLocal.dropBlockedFor
  rw [h.blockedQ]
  refine List.foldl_rel h fun s _ pl pl' h => ?_
  rw [(h.socket s).block]
  split
  · exact h.dropBlocked s
  · exact h

theorem UpTo.setRx (s : Nat) {ring ring' : Vectoring} (hring : R ring ring') :
    (pl.setRx s ring).UpTo R M (pl'.setRx s ring') :=
  h.updSocket s ((h.socket s).setRx hring)

theorem UpTo.setTx (s : Nat) {ring ring' : Vectoring} (hring : R ring ring') :
    (pl.setTx s ring).UpTo R M (pl'.setTx s ring') :=
  h.updSocket s ((h.socket s).setTx hring)

theorem UpTo.updBlock (s : Nat) (f : Block → Block) :
    (pl.updBlock s f).UpTo R M (pl'.updBlock s f) :=
  h.updSocket s
    ((h.socket s).map (fun socket => { socket with block := f socket.block }) (g := id)
      (fun _ _ _ => rfl) rfl rfl)

theorem UpTo.handleError (s : Nat) : (pl.handleError s).UpTo R M (pl'.handleError s) := by
  unfold ProcLocal.handleError
  rw [h.errno]
  exact h.updSocket s
    ((h.socket s).map (fun socket => { socket with error := pl.errno }) (g := fun _ => pl.errno)
      (fun _ _ _ => rfl) rfl rfl)

theorem UpTo.enqueueSelf (s : Nat) : (pl.enqueueSelf s).UpTo R M (pl'.enqueueSelf s) := by
  unfold ProcLocal.enqueueSelf
  rw [h.blockedVk]
  exact h.ready _

theorem UpTo.enqueueOther (s : Nat) : (pl.enqueueOther s).UpTo R M (pl'.enqueueOther s) := by
  unfold ProcLocal.enqueueOther
  rw [h.blockedVk]
  exact (h.enqueueRun _).ready _

end Fields

/-! ### The handlers -/

section Handlers
variable (h : pl.Alike M pl')
include h

theorem UpTo.absorbRx (s : Nat) {io io' : Io} (hio : Vectoring.IoAlike io io') :
    (pl.absorbRx s io).Alike M (pl'.absorbRx s io') := by
  unfold ProcLocal.absorbRx
  dsimp only
  rw [hio.rc, hio.errno]
  split
  · exact ((h.setRx s hio.ring).setErrno _).handleError s
  · exact (h.setRx s hio.ring).setErrno _

theorem UpTo.absorbTx (s : Nat) {io io' : Io} (hio : Vectoring.IoAlike io io') :
    (pl.absorbTx s io).Alike M (pl'.absorbTx s io') := by
  unfold ProcLocal.absorbTx
  dsimp only
  rw [hio.rc, hio.errno]
  split
  · exact ((h.setTx s hio.ring).setErrno _).handleError s
  · exact (h.setTx s hio.ring).setErrno _

theorem UpTo.spliceFrom (s w : Nat) : (pl.spliceFrom s w).Alike M (pl'.spliceFrom s w) := by
  have hs := (h.socket s).rx.splice (h.socket w).tx (-1) pl.errno
  unfold ProcLocal.spliceFrom
  dsimp only
  rw [h.errno, hs.rc, hs.errno]
  split
  · exact (((h.setTx w hs.tx).setRx s hs.rx).setErrno _).handleError s
  · exact ((h.setTx w hs.tx).setRx s hs.rx).setErrno _

theorem UpTo.spliceTo (s r : Nat) : (pl.spliceTo s r).Alike M (pl'.spliceTo s r) := by
  have hs := (h.socket r).rx.splice (h.socket s).tx (-1) pl.errno
  unfold ProcLocal.spliceTo
  dsimp only
  rw [h.errno, hs.rc, hs.errno]
  split
  · exact (((h.setTx s hs.tx).setRx r hs.rx).setErrno _).handleError s
  · exact ((h.setTx s hs.tx).setRx r hs.rx).setErrno _

theorem UpTo.handleRxEffect (s : Nat) :
    (pl.handleRxEffect s).1.Alike M (pl'.handleRxEffect s).1 ∧
      (pl'.handleRxEffect s).2 = (pl.handleRxEffect s).2 :=
  ⟨h.setRx s (h.socket s).rx.handleEffect, (h.socket s).rx.agrees.effect⟩

theorem UpTo.handleTxEffect (s : Nat) :
    (pl.handleTxEffect s).1.Alike M (pl'.handleTxEffect s).1 ∧
      (pl'.handleTxEffect s).2 = (pl.handleTxEffect s).2 :=
  ⟨h.setTx s (h.socket s).tx.handleEffect, (h.socket s).tx.agrees.effect⟩

theorem UpTo.enqueueRead (s : Nat) : (pl.enqueueRead s).Alike M (pl'.enqueueRead s) := by
  obtain ⟨hpl, heffect⟩ := h.handleRxEffect s
  unfold ProcLocal.enqueueRead
  dsimp only
  rw [heffect]
  split
  · exact hpl.enqueueSelf s
  · exact hpl

theorem UpTo.enqueueWrite (s : Nat) : (pl.enqueueWrite s).Alike M (pl'.enqueueWrite s) := by
  obtain ⟨hpl, heffect⟩ := h.handleTxEffect s
  unfold ProcLocal.enqueueWrite
  dsimp only
  rw [heffect]
  split
  · exact hpl.enqueueSelf s
  · exact hpl

theorem UpTo.enqueueReadwriter (s w : Nat) :
    (pl.enqueueReadwriter s w).Alike M (pl'.enqueueReadwriter s w) := by
  obtain ⟨hpl, heffect⟩ := h.handleTxEffect w
  unfold ProcLocal.enqueueReadwriter
  dsimp only
  rw [heffect]
  split
  · exact (hpl.enqueueOther w).enqueueSelf s
  · exact hpl

theorem UpTo.enqueueWritereader (s r : Nat) :
    (pl.enqueueWritereader s r).Alike M (pl'.enqueueWritereader s r) := by
  obtain ⟨hpl, heffect⟩ := h.handleRxEffect r
  unfold ProcLocal.enqueueWritereader
  dsimp only
  rw [heffect]
  split
  · exact (hpl.enqueueOther r).enqueueSelf s
  · exact hpl

omit h in
theorem alike_forwardClosed {socket socket' : Socket} (h : socket.Alike socket') :
    (forwardClosed socket).Alike (forwardClosed socket') := by
  cases h with
  | rings rx tx error hrx htx =>
      unfold forwardClosed
      dsimp only
      rw [hrx.agrees.closed, htx.agrees.closed]
      exact @Socket.UpTo.rings _ (forwardClosed socket) rx tx error hrx htx

/-- A pipe's side: blocked and queued, or not. -/
theorem UpTo.side (s : Nat) (p : Socket → Prop) [DecidablePred p]
    (hp : p (pl'.sockets s) ↔ p (pl.sockets s)) {f g : Socket → Socket}
    (hf : (f (pl.sockets s)).Alike (f (pl'.sockets s)))
    (hg : (g (pl.sockets s)).Alike (g (pl'.sockets s))) :
    (if p (pl.sockets s) then (pl.updSocket s f).enqueueBlocked s else pl.updSocket s g).Alike M
      (if p (pl'.sockets s) then (pl'.updSocket s f).enqueueBlocked s else pl'.updSocket s g) := by
  by_cases hblocked : p (pl.sockets s)
  · rw [if_pos hblocked, if_pos (hp.mpr hblocked)]
    exact (h.updSocket s hf).enqueueBlocked s
  · rw [if_neg hblocked, if_neg (mt hp.mp hblocked)]
    exact h.updSocket s hg

omit h in
theorem alike_setReadEvents {socket socket' : Socket} (h : socket.Alike socket') (events : Events) :
    (socket.setReadEvents events).Alike (socket'.setReadEvents events) :=
  h.map (fun socket => socket.setReadEvents events) (g := id) (fun _ _ _ => rfl) rfl rfl

omit h in
theorem alike_setWriteEvents {socket socket' : Socket} (h : socket.Alike socket')
    (events : Events) :
    (socket.setWriteEvents events).Alike (socket'.setWriteEvents events) :=
  h.map (fun socket => socket.setWriteEvents events) (g := id) (fun _ _ _ => rfl) rfl rfl

theorem UpTo.handleBlock (s : Nat) : (pl.handleBlock s).Alike M (pl'.handleBlock s) := by
  have hclosed := h.updSocket s (f := forwardClosed) (g := forwardClosed)
    (alike_forwardClosed (h.socket s))
  have hread := hclosed.side s (fun socket => 0 ≤ socket.rxFd.getFd ∧ socket.rx.rxBlocked = true)
    (by rw [(hclosed.socket s).rxFd, (hclosed.socket s).rx.agrees.rxBlocked])
    (f := Socket.markReadBlock) (g := Socket.clearReadBlock)
    (alike_setReadEvents (hclosed.socket s) POLLIN) (alike_setReadEvents (hclosed.socket s) 0)
  exact hread.side s (fun socket => 0 ≤ socket.txFd.getFd ∧ socket.tx.txBlocked = true)
    (by rw [(hread.socket s).txFd, (hread.socket s).tx.agrees.txBlocked])
    (f := Socket.markWriteBlock) (g := Socket.clearWriteBlock)
    (alike_setWriteEvents (hread.socket s) POLLOUT) (alike_setWriteEvents (hread.socket s) 0)

theorem UpTo.handled (s : Nat) : (pl.handled s).Alike M (pl'.handled s) := ⟨h.handleBlock s, rfl⟩

theorem UpTo.invalid : pl.invalid.Alike M pl'.invalid := ⟨h.setErrno EINVAL, rfl⟩

theorem UpTo.closed (s : Nat) : (pl.closed s).Alike M (pl'.closed s) :=
  ⟨(h.handleBlock s).enqueueSelf s, rfl⟩

/-- The receive ring is read from a descriptor, or a connection accepted. -/
theorem UpTo.readFd (s : Nat) (os : Os) :
    (pl.absorbRx s ((pl.sockets s).rx.read os.readv pl.errno)).Alike M
      (pl'.absorbRx s ((pl'.sockets s).rx.read os.readv pl'.errno)) := by
  rw [h.errno]
  exact h.absorbRx s ((h.socket s).rx.read os.readv pl.errno)

theorem UpTo.acceptFd (s : Nat) (os : Os) :
    (pl.absorbRx s ((pl.sockets s).rx.accept acceptedAllocSize os.accept pl.errno)).Alike M
      (pl'.absorbRx s ((pl'.sockets s).rx.accept acceptedAllocSize os.accept pl'.errno)) := by
  rw [h.errno]
  exact h.absorbRx s ((h.socket s).rx.accept acceptedAllocSize os.accept pl.errno)

theorem UpTo.writeFd (s : Nat) (os : Os) :
    ((pl.absorbTx s ((pl.sockets s).tx.write os.writev pl.errno)).enqueueWrite s).Alike M
      ((pl'.absorbTx s ((pl'.sockets s).tx.write os.writev pl'.errno)).enqueueWrite s) := by
  rw [h.errno]
  exact (h.absorbTx s ((h.socket s).tx.write os.writev pl.errno)).enqueueWrite s

theorem UpTo.handleRead (s : Nat) (os : Os) : (pl.handleRead s os).Alike M (pl'.handleRead s os) := by
  unfold ProcLocal.handleRead
  dsimp only
  rw [(h.socket s).rxFd]
  cases (pl.sockets s).rxFd.ref with
  | osFd fd =>
      dsimp only
      split
      · exact ((h.acceptFd s os).enqueueRead s).handled s
      · exact ((h.readFd s os).enqueueRead s).handled s
  | vkTx w => exact (((h.spliceFrom s w).enqueueRead s).enqueueReadwriter s w).handled s
  | vkRx w => exact ⟨(h.setErrno EINVAL).handleBlock s, rfl⟩

theorem UpTo.handleWrite (s : Nat) (os : Os) :
    (pl.handleWrite s os).Alike M (pl'.handleWrite s os) := by
  unfold ProcLocal.handleWrite
  dsimp only
  rw [(h.socket s).txFd]
  cases (pl.sockets s).txFd.ref with
  | osFd fd => exact (h.writeFd s os).handled s
  | vkRx r => exact (((h.spliceTo s r).enqueueWrite s).enqueueWritereader s r).handled s
  | vkTx w => exact ⟨(h.setErrno EINVAL).handleBlock s, rfl⟩

theorem UpTo.handleForward (s : Nat) (os : Os) :
    (pl.handleForward s os).Alike M (pl'.handleForward s os) := by
  unfold ProcLocal.handleForward
  dsimp only
  rw [(h.socket s).rxFd, (h.socket s).txFd]
  cases (pl.sockets s).rxFd.ref with
  | osFd fd =>
      have hread := (h.readFd s os).enqueueRead s
      cases (pl.sockets s).txFd.ref with
      | osFd fd' => exact (hread.writeFd s os).handled s
      | vkRx r =>
          have hsplice := (hread.spliceTo s r).enqueueWrite s
          dsimp only
          rw [(hsplice.socket r).rx.agrees.rxBlocked]
          split
          · have hwoken := hsplice.enqueueWritereader s r
            rw [hwoken.blockedVk]
            exact (hwoken.enqueueRun _).handled s
          · exact hsplice.handled s
      | vkTx w => exact hread.invalid
  | vkTx w =>
      have hread := ((h.spliceFrom s w).enqueueRead s).enqueueReadwriter s w
      cases (pl.sockets s).txFd.ref with
      | osFd fd' => exact (hread.writeFd s os).handled s
      | vkRx r => exact (((hread.spliceTo s r).enqueueWrite s).enqueueWritereader s r).handled s
      | vkTx w' => exact hread.invalid
  | vkRx w => exact h.invalid

theorem UpTo.handleReadhup (s : Nat) : (pl.handleReadhup s).Alike M (pl'.handleReadhup s) := by
  unfold ProcLocal.handleReadhup
  dsimp only
  rw [(h.socket s).rxFd]
  cases (pl.sockets s).rxFd.ref with
  | osFd fd => exact (h.enqueueRead s).handled s
  | vkTx w =>
      obtain ⟨htx, hrx, hforwarded⟩ := (h.socket w).tx.forwardhup (h.socket s).rx
      dsimp only
      rw [hforwarded]
      split
      · exact ((((h.setTx w htx).setRx s hrx).enqueueRead s).enqueueReadwriter s w).handled s
      · exact h.handled s
  | vkRx w => exact h.invalid

theorem UpTo.handleHup (s : Nat) : (pl.handleHup s).Alike M (pl'.handleHup s) := by
  unfold ProcLocal.handleHup
  dsimp only
  rw [(h.socket s).txFd, (h.socket s).tx.agrees.eof]
  cases (pl.sockets s).txFd.ref with
  | osFd fd => exact (h.enqueueWrite s).handled s
  | vkRx r =>
      dsimp only
      split
      · exact ((h.enqueueWrite s).enqueueWritereader s r).handled s
      · exact h.handled s
  | vkTx w => exact h.invalid

/-- A side is closed by the call that answers `rc`. -/
theorem UpTo.closeTxFd (s : Nat) (rc : SysResult Unit) :
    (pl.absorbTx s ((pl.sockets s).tx.close rc pl.errno)).Alike M
      (pl'.absorbTx s ((pl'.sockets s).tx.close rc pl'.errno)) := by
  rw [h.errno]
  exact h.absorbTx s ((h.socket s).tx.close rc pl.errno)

theorem UpTo.closeRxFd (s : Nat) (rc : SysResult Unit) :
    (pl.absorbRx s ((pl.sockets s).rx.close rc pl.errno)).Alike M
      (pl'.absorbRx s ((pl'.sockets s).rx.close rc pl'.errno)) := by
  rw [h.errno]
  exact h.absorbRx s ((h.socket s).rx.close rc pl.errno)

theorem UpTo.handleTxClose (s : Nat) (os : Os) :
    (pl.handleTxClose s os).Alike M (pl'.handleTxClose s os) := by
  have hmark := h.setTx s (h.socket s).tx.markEof
  unfold ProcLocal.handleTxClose
  dsimp only
  rw [(h.socket s).txFd]
  cases (pl.sockets s).txFd.ref with
  | osFd fd =>
      have hclose := h.closeTxFd s os.close
      exact ((hclose.setTx s (hclose.socket s).tx.markClosed).enqueueWrite s).closed s
  | vkRx r => exact ((hmark.enqueueWrite s).enqueueWritereader s r).closed s
  | vkTx r => exact ((hmark.enqueueWrite s).enqueueWritereader s r).closed s

theorem UpTo.closeRx (s : Nat) (rc : SysResult Unit) :
    (pl.closeRx s rc).Alike M (pl'.closeRx s rc) := by
  unfold ProcLocal.closeRx
  dsimp only
  rw [(h.socket s).rxFd]
  cases (pl.sockets s).rxFd.ref with
  | osFd fd =>
      have hclose := h.closeRxFd s rc
      exact ((hclose.setRx s (hclose.socket s).rx.markClosed).enqueueRead s).closed s
  | vkRx r => exact (h.enqueueRead s).closed s
  | vkTx r => exact (h.enqueueRead s).closed s

theorem UpTo.handleTxShutdown (s : Nat) (os : Os) :
    (pl.handleTxShutdown s os).Alike M (pl'.handleTxShutdown s os) := by
  unfold ProcLocal.handleTxShutdown
  dsimp only
  rw [(h.socket s).txFd]
  cases (pl.sockets s).txFd.ref with
  | osFd fd =>
      have hclose := h.closeTxFd s os.shutdown
      exact ((hclose.setTx s (hclose.socket s).tx.markClosed).enqueueWrite s).closed s
  | vkRx r => exact (h.enqueueWrite s).closed s
  | vkTx r => exact (h.enqueueWrite s).closed s

theorem UpTo.handleReadable (s : Nat) : (pl.handleReadable s).Alike M (pl'.handleReadable s) := by
  have hread := h.updSocket s (f := Socket.markReadBlock) (g := Socket.markReadBlock)
    (alike_setReadEvents (h.socket s) POLLIN)
  exact ⟨hread.updSocket s (f := Socket.clearWriteBlock) (g := Socket.clearWriteBlock)
    (alike_setWriteEvents (hread.socket s) 0), rfl⟩

theorem UpTo.handleWritable (s : Nat) : (pl.handleWritable s).Alike M (pl'.handleWritable s) := by
  have hwrite := h.updSocket s (f := Socket.markWriteBlock) (g := Socket.markWriteBlock)
    (alike_setWriteEvents (h.socket s) POLLOUT)
  exact ⟨hwrite.updSocket s (f := Socket.clearReadBlock) (g := Socket.clearReadBlock)
    (alike_setReadEvents (hwrite.socket s) 0), rfl⟩

omit h in
theorem lazyFlush_alike {socket socket' : Socket} (h : socket.Alike socket') :
    lazyFlush socket' = lazyFlush socket := by
  unfold lazyFlush Socket.emptyTx
  rw [h.rx.agrees.rxBlocked, h.tx.agrees.txBlocked, h.tx.agrees.isEmpty]

/-- The handler leaves alike what it finds alike, whatever the operation. -/
theorem UpTo.socketHandler (s : Nat) (os : Os) :
    (pl.socketHandler s os).Alike M (pl'.socketHandler s os) := by
  unfold ProcLocal.socketHandler
  rw [(h.socket s).block]
  cases (pl.sockets s).block.op with
  | none => exact ⟨h, rfl⟩
  | read =>
      have hread := h.handleRead s os
      dsimp only
      rw [hread.rc, lazyFlush_alike (hread.pl.socket s)]
      split
      · exact hread
      · split
        · exact hread.pl.handleWrite s os
        · exact hread
  | write => exact h.handleWrite s os
  | forward => exact h.handleForward s os
  | flush => exact h.handleWrite s os
  | hup => exact h.handleHup s
  | readhup => exact h.handleReadhup s
  | txClose => exact h.handleTxClose s os
  | rxClose => exact h.closeRx s os.close
  | rxShutdown => exact h.closeRx s os.shutdown
  | txShutdown => exact h.handleTxShutdown s os
  | readable => exact h.handleReadable s
  | writable => exact h.handleWritable s

theorem UpTo.unblock (t : Nat) (os : Os) : (pl.unblock t os).Alike M (pl'.unblock t os) := by
  have hthat : pl'.threads t = pl.threads t := congrFun h.threads t
  unfold ProcLocal.unblock
  rw [hthat]
  split
  · split
    · exact h.socketHandler _ os
    · exact h.invalid
  · exact ⟨h, rfl⟩

theorem UpTo.unflagged (s : Nat) : (pl.unflagged s).Alike M (pl'.unflagged s) := by
  have hrx : (pl.unflagRx s).Alike M (pl'.unflagRx s) := by
    unfold unflagRx
    rw [(h.socket s).block]
    split
    · exact h.updSocket s ((h.socket s).setRx ((h.socket s).rx.setRxBlocked false))
    · exact h
  unfold ProcLocal.unflagged unflagTx
  rw [(hrx.socket s).block]
  split
  · exact hrx.updSocket s ((hrx.socket s).setTx ((hrx.socket s).tx.setTxBlocked false))
  · exact hrx

theorem UpTo.retrySocket (s : Nat) (os : Os) :
    (pl.retrySocket s os).Alike M (pl'.retrySocket s os) := by
  have hhandler := (h.unflagged s).socketHandler s os
  rw [retrySocket_eq, retrySocket_eq, hhandler.rc, h.blockedVk]
  split
  · exact hhandler
  · exact ⟨(hhandler.pl.dropBlocked s).enqueueRun _, rfl⟩

/-! ### Hang-up -/

theorem UpTo.pollhup (s : Nat) : pl'.pollhup s = pl.pollhup s := by
  have hs := h.socket s
  unfold ProcLocal.pollhup ProcLocal.getReaderNodata Socket.empty Socket.nodata Socket.nodataTx
    Vectoring.hasNodata
  rw [hs.rx.agrees.isEmpty, hs.rx.agrees.eof, hs.rxFd, hs.block]
  cases (pl.sockets s).rxFd.getSocket with
  | none => rfl
  | some w =>
      dsimp only
      rw [(h.socket w).tx.agrees.eof, (h.socket w).tx.agrees.isEmpty]

end Handlers

end ProcLocal

end Vk

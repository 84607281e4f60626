/-
# `Mnvkd.VirtualPipe` — a virtual pipe is a byte channel

Two joined sockets, between coroutines that run in any order under the executor,
are a `Lib.Channel`: the writer's transmit ring and the reader's receive ring are
its two queues.  What the coroutines see of it are their own operations: bytes
committed by a write, bytes put in a buffer by a read, a hang-up made, read and
passed (`pipeEvents`).  The handlers only move bytes from ring to ring.

So every run of the machine shows what a run of the channel shows
(`run_shows`), and what is true of all channels is true of the pipe: the bytes
written are those delivered, followed by those in the two rings
(`pipe_carries`).
-/
import Mnvkd.Lib.Channel
import Mnvkd.Machine
import Mnvkd.PipeSpec

namespace Vk

open Lib Channel

/-! ## What the coroutines see -/

/-- The bytes of the block's buffer that a send has committed. -/
def sentBytes (pl pl' : ProcLocal) (s : Nat) : List UInt8 :=
  pl.mem.load (pl.sockets s).block.buf (pl'.committed s - pl.committed s)

/-- The bytes a receive has put there. -/
def receivedBytes (pl pl' : ProcLocal) (s : Nat) : List UInt8 :=
  pl'.mem.load (pl.sockets s).block.buf (pl'.committed s - pl.committed s)

/-- The bytes a forward has added to the transmit ring. -/
def forwardedBytes (pl pl' : ProcLocal) (s : Nat) : List UInt8 :=
  (txQueue pl' s).drop (txQueue pl s).length

/-- What the body of a loop shows of the pipe from `w` to `r`. -/
def bodyEvents (w r : Nat) (pl : ProcLocal) (k : IoLoop) (s : Nat) : List (Event UInt8) :=
  let pl' := (k.loop s).body pl
  match k with
  | .read | .readline => if s = r then [.pull (receivedBytes pl pl' s)] else []
  | .write => if s = w then [.push (sentBytes pl pl' s)] else []
  | .forward =>
      if s = r then [.pull (forwardedBytes pl pl' s)]
      else if s = w then [.push (forwardedBytes pl pl' s)] else []
  | .pollread | .flush | .hupFlush | .hup | .once => []

/-- What leaving the loop shows. -/
def leaveEvents (w : Nat) (pl : ProcLocal) (k : IoLoop) (s : Nat) : List (Event UInt8) :=
  match k with
  | .hupFlush => if s = w ∧ (pl.sockets s).eofTx = false then [.mark] else []
  | .hup => if s = w then [.pass] else []
  | .read | .readline | .write | .forward | .pollread | .flush | .once => []

/-- What a turn of the loop shows. -/
def turnEvents (w r : Nat) (pl : ProcLocal) (k : IoLoop) (s : Nat) : List (Event UInt8) :=
  if (k.loop s).test pl then bodyEvents w r pl k s else leaveEvents w pl k s

/-- What a step shows. -/
def pipeEvents (w r : Nat) (a : Act) (m : Machine) : List (Event UInt8) :=
  match m.stage, a with
  | .inside t, .co .turn =>
      match m.pos t with
      | some (k, s) => turnEvents w r m.pl k s
      | none => []
  | .inside t, .co (.readhup s) =>
      if m.pos t = none ∧ s = r ∧ m.pl.pollhup s = true then [.take] else []
  | _, _ => []

/-- Everything written to the pipe in a run. -/
def written (w r : Nat) (as : List Act) (m : Machine) : List UInt8 :=
  Channel.pushed (trace Machine.step (pipeEvents w r) as m)

/-- Everything delivered from it. -/
def delivered (w r : Nat) (as : List Act) (m : Machine) : List UInt8 :=
  Channel.pulled (trace Machine.step (pipeEvents w r) as m)

/-! ## What a body does -/

/-- The rings of every socket but for what the pipe carries, and the wiring. -/
theorem Joined.of_rings {pl pl' : ProcLocal} {w r : Nat} (hj : Joined pl w r)
    (hrxFd : ∀ s, (pl'.sockets s).rxFd = (pl.sockets s).rxFd)
    (htxFd : ∀ s, (pl'.sockets s).txFd = (pl.sockets s).txFd)
    (hwf : ∀ s, (pl'.sockets s).rx.Wf ∧ (pl'.sockets s).tx.Wf) : Joined pl' w r where
  txRef := by rw [htxFd, hj.txRef]
  rxRef := by rw [hrxFd, hj.rxRef]
  onlyReader s h := hj.onlyReader s (by rw [← hrxFd]; exact h)
  onlyWriter s h := hj.onlyWriter s (by rw [← htxFd]; exact h)
  ne := hj.ne
  wf := hwf

/-- The pipe is as it was. -/
structure Still (w r : Nat) (pl pl' : ProcLocal) : Prop where
  joined : Joined pl' w r
  tx : txQueue pl' w = txQueue pl w
  rx : rxQueue pl' r = rxQueue pl r
  eof : (pl'.sockets w).tx.eof = (pl.sockets w).tx.eof

section Bodies

variable {pl pl' : ProcLocal} {w r s : Nat}

theorem Still.trans {pl'' : ProcLocal} (h : Still w r pl pl') (h' : Still w r pl' pl'') :
    Still w r pl pl'' :=
  ⟨h'.joined, h'.tx.trans h.tx, h'.rx.trans h.rx, h'.eof.trans h.eof⟩

/-- A receive ring is set to one with the same bytes. -/
theorem still_setRx (hj : Joined pl w r) {ring : Vectoring} (hwf : ring.Wf)
    (hq : ring.queue = (pl.sockets s).rx.queue) : Still w r pl (pl.setRx s ring) where
  joined := hj.of_moves (transfers_setRx hj hwf fun h => by rw [hq, h]; rfl).toMoves
  tx := by rw [txQueue, ProcLocal.setRx_tx]; rfl
  rx := by
    rw [rxQueue, ProcLocal.setRx_rx]
    split
    · rw [hq, ← ‹r = s›]
      rfl
    · rfl
  eof := by rw [ProcLocal.setRx_tx]

/-- No socket's rings or pipes have changed. -/
theorem still_of_sockets (hj : Joined pl w r)
    (h : ∀ a, (pl'.sockets a).rx = (pl.sockets a).rx ∧ (pl'.sockets a).tx = (pl.sockets a).tx ∧
      (pl'.sockets a).rxFd = (pl.sockets a).rxFd ∧ (pl'.sockets a).txFd = (pl.sockets a).txFd) :
    Still w r pl pl' where
  joined := hj.of_rings (fun a => (h a).2.2.1) (fun a => (h a).2.2.2) fun a => by
    rw [(h a).1, (h a).2.1]
    exact hj.wf a
  tx := by rw [txQueue, (h w).2.1]; rfl
  rx := by rw [rxQueue, (h r).1]; rfl
  eof := by rw [(h w).2.1]

theorem still_of_eq (hj : Joined pl w r) (h : pl'.sockets = pl.sockets) : Still w r pl pl' :=
  still_of_sockets hj fun a => by rw [h]; exact ⟨rfl, rfl, rfl, rfl⟩

theorem still_updBlock (hj : Joined pl w r) (f : Block → Block) : Still w r pl (pl.updBlock s f) :=
  still_of_sockets hj fun a => by
    rw [ProcLocal.updBlock, ProcLocal.updSocket_sockets]
    split
    · subst a
      exact ⟨rfl, rfl, rfl, rfl⟩
    · exact ⟨rfl, rfl, rfl, rfl⟩

theorem still_of_sameData (hj : Joined pl w r) (h : SameData pl pl') : Still w r pl pl' where
  joined := {
    txRef := by rw [(h.socket w).txRef, hj.txRef]
    rxRef := by rw [(h.socket r).rxRef, hj.rxRef]
    onlyReader := fun a ha => hj.onlyReader a (by rw [← (h.socket a).rxRef]; exact ha)
    onlyWriter := fun a ha => hj.onlyWriter a (by rw [← (h.socket a).txRef]; exact ha)
    ne := hj.ne
    wf := fun a => ⟨(h.socket a).rx.wf (hj.wf a).1, (h.socket a).tx.wf (hj.wf a).2⟩ }
  tx := (h.socket w).tx.queue
  rx := (h.socket r).rx.queue
  eof := (h.socket w).tx.eof

/-- From `pl` to `pl'` the channel takes the events `es`.  Where `marks` holds its
mark is EOF on the writer's ring. -/
structure Shows (w r : Nat) (marks : Prop) (pl pl' : ProcLocal) (es : List (Event UInt8)) :
    Prop where
  joined : Joined pl' w r
  run : ∀ mark waiting, Lib.run Channel.step es ⟨txQueue pl w, rxQueue pl r, mark, waiting⟩
    = some ⟨txQueue pl' w, rxQueue pl' r, markAfter es mark, waitingAfter es waiting⟩
  eof : marks → (pl'.sockets w).tx.eof = markAfter es (pl.sockets w).tx.eof

variable {marks : Prop}

theorem Still.shows (h : Still w r pl pl') : Shows w r marks pl pl' [] :=
  ⟨h.joined, fun _ _ => by rw [run_nil, h.tx, h.rx]; rfl, fun _ => h.eof⟩

theorem Shows.trans {pl'' : ProcLocal} {es fs : List (Event UInt8)}
    (h : Shows w r marks pl pl' es) (h' : Shows w r marks pl' pl'' fs) :
    Shows w r marks pl pl'' (es ++ fs) := by
  refine ⟨h'.joined, fun mark waiting => ?_, fun hm => ?_⟩
  · rw [run_append, h.run, markAfter_append, waitingAfter_append]
    exact h'.run _ _
  · rw [markAfter_append, ← h.eof hm]
    exact h'.eof hm

theorem Shows.run_channel {es : List (Event UInt8)} {c : Channel UInt8}
    (h : Shows w r marks pl pl' es) (hsent : c.sent = txQueue pl w)
    (harrived : c.arrived = rxQueue pl r) : Lib.run Channel.step es c
      = some ⟨txQueue pl' w, rxQueue pl' r, markAfter es c.mark, waitingAfter es c.waiting⟩ := by
  rw [← h.run, ← hsent, ← harrived]

theorem Shows.still {pl'' : ProcLocal} {es : List (Event UInt8)} (h : Shows w r marks pl pl' es)
    (h' : Still w r pl' pl'') : Shows w r marks pl pl'' es := by
  have := h.trans h'.shows
  rwa [List.append_nil] at this

/-- Bytes leave the reader's ring at its front. -/
theorem shows_pull {bs : List UInt8} (hj : Joined pl' w r) (htx : txQueue pl' w = txQueue pl w)
    (hbs : bs <+: rxQueue pl r) (hrx : rxQueue pl' r = (rxQueue pl r).drop bs.length)
    (heof : (pl'.sockets w).tx.eof = (pl.sockets w).tx.eof) : Shows w r marks pl pl' [.pull bs] := by
  refine ⟨hj, fun mark waiting => (run_cons _).mpr ⟨_, if_pos hbs, ?_⟩, fun _ => heof⟩
  rw [run_nil, htx, hrx]
  rfl

/-- Bytes join the writer's ring at its back. -/
theorem shows_push {bs : List UInt8} (hj : Joined pl' w r)
    (htx : txQueue pl' w = txQueue pl w ++ bs) (hrx : rxQueue pl' r = rxQueue pl r)
    (heof : (pl'.sockets w).tx.eof = (pl.sockets w).tx.eof) : Shows w r marks pl pl' [.push bs] := by
  refine ⟨hj, fun mark waiting => (run_cons _).mpr ⟨_, rfl, ?_⟩, fun _ => heof⟩
  rw [run_nil, htx, hrx]
  rfl

/-- A receive on the reader's socket shows what it has put in the buffer. -/
theorem shows_recvCommit (hj : Joined pl w r) (s : Nat) :
    Shows w r marks pl (pl.recvCommit s)
      (if s = r then [.pull (receivedBytes pl (pl.recvCommit s) s)] else []) := by
  have hwf := (hj.wf s).1
  have hm := hwf.markSent (Nat.min_le_right (pl.uncommitted s) (pl.sockets s).rx.txLen)
  have hlen : ((pl.sockets s).rx.queue.take (pl.uncommitted s)).length = pl.recvCount s := by
    rw [List.length_take, Vectoring.length_queue, ProcLocal.recvCount]
  have hbytes : receivedBytes pl (pl.recvCommit s) s
      = (pl.sockets s).rx.queue.take (pl.uncommitted s) := by
    rw [receivedBytes, ProcLocal.recvCommit_eq hwf, ProcLocal.committed, ProcLocal.committed,
      ProcLocal.updSocket_sockets_self, ProcLocal.updSocket_mem, Block.getCommitted,
      Block.getCommitted, Nat.add_sub_cancel_left, ← hlen, Memory.load_store]
  rw [hbytes, ProcLocal.recvCommit_eq hwf]
  generalize hpl' : ProcLocal.updSocket _ s _ = pl'
  have hsockets : ∀ a, (pl'.sockets a).tx = (pl.sockets a).tx ∧
      (pl'.sockets a).rx = (if a = s then (pl.sockets s).rx.markSent (pl.recvCount s)
        else (pl.sockets a).rx) ∧
      (pl'.sockets a).rxFd = (pl.sockets a).rxFd ∧ (pl'.sockets a).txFd = (pl.sockets a).txFd := by
    intro a
    rw [← hpl', ProcLocal.updSocket_sockets]
    split
    · subst a
      exact ⟨rfl, rfl, rfl, rfl⟩
    · exact ⟨rfl, rfl, rfl, rfl⟩
  have hj' : Joined pl' w r :=
    hj.of_rings (fun a => (hsockets a).2.2.1) (fun a => (hsockets a).2.2.2) fun a => by
      rw [(hsockets a).1, (hsockets a).2.1]
      refine ⟨?_, (hj.wf a).2⟩
      split
      · exact hm.wf
      · exact (hj.wf a).1
  have htx : txQueue pl' w = txQueue pl w := by rw [txQueue, (hsockets w).1]; rfl
  have heof : (pl'.sockets w).tx.eof = (pl.sockets w).tx.eof := by rw [(hsockets w).1]
  by_cases hs : s = r
  · rw [if_pos hs]
    subst s
    refine shows_pull hj' htx (List.take_prefix _ _) ?_ heof
    rw [rxQueue, (hsockets r).2.1, if_pos rfl, hlen]
    exact hm.queue
  · rw [if_neg hs]
    refine Still.shows ⟨hj', htx, ?_, heof⟩
    rw [rxQueue, (hsockets r).2.1, if_neg (Ne.symm hs)]
    rfl

/-- A send on the writer's socket shows what it has taken of the buffer. -/
theorem shows_sendCommit (hj : Joined pl w r) (s : Nat) :
    Shows w r marks pl (pl.sendCommit s)
      (if s = w then [.push (sentBytes pl (pl.sendCommit s) s)] else []) := by
  have hwf := (hj.wf s).2
  -- what it sends: nothing at EOF, and otherwise what there is room for
  obtain ⟨n, hrc, hring, hqueue, heof'⟩ : ∃ n : Nat,
      ((pl.sockets s).tx.send pl.mem (pl.sockets s).block.buf
        (pl.sockets s).block.getUncommitted).2 = n ∧
      ((pl.sockets s).tx.send pl.mem (pl.sockets s).block.buf
        (pl.sockets s).block.getUncommitted).1.Wf ∧
      ((pl.sockets s).tx.send pl.mem (pl.sockets s).block.buf
        (pl.sockets s).block.getUncommitted).1.queue
          = (pl.sockets s).tx.queue ++ pl.mem.load (pl.sockets s).block.buf n ∧
      ((pl.sockets s).tx.send pl.mem (pl.sockets s).block.buf
        (pl.sockets s).block.getUncommitted).1.eof = (pl.sockets s).tx.eof := by
    by_cases he : (pl.sockets s).block.getUncommitted > 0 ∧ (pl.sockets s).tx.eof = true
    · rw [Vectoring.send_of_eof _ _ he.1 he.2]
      exact ⟨0, rfl, hwf, by simp, rfl⟩
    · obtain ⟨hrc, hm⟩ := hwf.send pl.mem (pl.sockets s).block.buf
        (pl.sockets s).block.getUncommitted he
      exact ⟨_, hrc, hm.wf, hm.queue, hm.flags.eof⟩
  have hsend : pl.sendCommit s = pl.updSocket s fun socket => { socket with
      tx := ((pl.sockets s).tx.send pl.mem (pl.sockets s).block.buf
        (pl.sockets s).block.getUncommitted).1
      block := socket.block.commit n } := by
    rw [ProcLocal.sendCommit, ← hrc, ProcLocal.blockCommit, ProcLocal.updBlock, ProcLocal.setTx,
      ProcLocal.updSocket_updSocket]
  have hbytes : sentBytes pl (pl.sendCommit s) s = pl.mem.load (pl.sockets s).block.buf n := by
    rw [sentBytes, hsend, ProcLocal.committed, ProcLocal.committed,
      ProcLocal.updSocket_sockets_self, Block.commit_natCast, Block.getCommitted,
      Block.getCommitted, Nat.add_sub_cancel_left]
  rw [hbytes, hsend]
  generalize ((pl.sockets s).tx.send pl.mem (pl.sockets s).block.buf
    (pl.sockets s).block.getUncommitted).1 = ring at hring hqueue heof'
  generalize hpl' : ProcLocal.updSocket pl s _ = pl'
  have hsockets : ∀ a, (pl'.sockets a).rx = (pl.sockets a).rx ∧
      (pl'.sockets a).tx = (if a = s then ring else (pl.sockets a).tx) ∧
      (pl'.sockets a).rxFd = (pl.sockets a).rxFd ∧ (pl'.sockets a).txFd = (pl.sockets a).txFd := by
    intro a
    rw [← hpl', ProcLocal.updSocket_sockets]
    split
    · subst a
      exact ⟨rfl, rfl, rfl, rfl⟩
    · exact ⟨rfl, rfl, rfl, rfl⟩
  have hj' : Joined pl' w r :=
    hj.of_rings (fun a => (hsockets a).2.2.1) (fun a => (hsockets a).2.2.2) fun a => by
      rw [(hsockets a).1, (hsockets a).2.1]
      refine ⟨(hj.wf a).1, ?_⟩
      split
      · exact hring
      · exact (hj.wf a).2
  have hrx : rxQueue pl' r = rxQueue pl r := by rw [rxQueue, (hsockets r).1]; rfl
  by_cases hs : s = w
  · rw [if_pos hs]
    subst s
    refine shows_push hj' ?_ hrx ?_
    · rw [txQueue, (hsockets w).2.1, if_pos rfl, hqueue]
      rfl
    · rw [(hsockets w).2.1, if_pos rfl, heof']
  · rw [if_neg hs]
    refine Still.shows ⟨hj', ?_, hrx, ?_⟩
    · rw [txQueue, (hsockets w).2.1, if_neg (Ne.symm hs)]
      rfl
    · rw [(hsockets w).2.1, if_neg (Ne.symm hs)]

/-- A forward shows what it has moved from the one ring of its socket to the
other: off the reader's, or onto the writer's. -/
theorem shows_forwardCommit (hj : Joined pl w r) (s : Nat) :
    Shows w r marks pl (pl.forwardCommit s)
      (if s = r then [.pull (forwardedBytes pl (pl.forwardCommit s) s)]
        else if s = w then [.push (forwardedBytes pl (pl.forwardCommit s) s)] else []) := by
  obtain ⟨-, -, htx, hrx⟩ := (hj.wf s).2.splice (hj.wf s).1
    (ProcLocal.ssize (pl.sockets s).block.getUncommitted) pl.errno
  generalize hn : Vectoring.spliceLen (pl.sockets s).tx (pl.sockets s).rx
    (ProcLocal.ssize (pl.sockets s).block.getUncommitted) = n at hrx htx
  have hle : n ≤ (pl.sockets s).rx.queue.length := by
    rw [← hn, Vectoring.length_queue]
    exact (Vectoring.spliceLen_le _ _ _).2
  generalize hsp : (pl.sockets s).tx.splice (pl.sockets s).rx
    (ProcLocal.ssize (pl.sockets s).block.getUncommitted) pl.errno = sp at hrx htx
  have hforward : pl.forwardCommit s
      = (((pl.setRx s sp.tx).setTx s sp.rx).setErrno sp.errno).blockCommit s sp.rc := by
    rw [ProcLocal.forwardCommit, hsp]
  have hsockets : ∀ a,
      ((pl.forwardCommit s).sockets a).rx = (if a = s then sp.tx else (pl.sockets a).rx) ∧
      ((pl.forwardCommit s).sockets a).tx = (if a = s then sp.rx else (pl.sockets a).tx) ∧
      ((pl.forwardCommit s).sockets a).rxFd = (pl.sockets a).rxFd ∧
      ((pl.forwardCommit s).sockets a).txFd = (pl.sockets a).txFd := by
    intro a
    have hblock : ∀ pl' : ProcLocal, ((pl'.blockCommit s sp.rc).sockets a).rx = (pl'.sockets a).rx ∧
        ((pl'.blockCommit s sp.rc).sockets a).tx = (pl'.sockets a).tx ∧
        ((pl'.blockCommit s sp.rc).sockets a).rxFd = (pl'.sockets a).rxFd ∧
        ((pl'.blockCommit s sp.rc).sockets a).txFd = (pl'.sockets a).txFd := fun pl' => by
      rw [ProcLocal.blockCommit, ProcLocal.updBlock, ProcLocal.updSocket_sockets]
      split
      · subst a
        exact ⟨rfl, rfl, rfl, rfl⟩
      · exact ⟨rfl, rfl, rfl, rfl⟩
    have hset := hblock (((pl.setRx s sp.tx).setTx s sp.rx).setErrno sp.errno)
    rw [hforward, hset.1, hset.2.1, hset.2.2.1, hset.2.2.2]
    show (((pl.setRx s sp.tx).setTx s sp.rx).sockets a).rx = _ ∧
      (((pl.setRx s sp.tx).setTx s sp.rx).sockets a).tx = _ ∧
      (((pl.setRx s sp.tx).setTx s sp.rx).sockets a).rxFd = _ ∧
      (((pl.setRx s sp.tx).setTx s sp.rx).sockets a).txFd = _
    rw [ProcLocal.setTx_rx, ProcLocal.setRx_rx, ProcLocal.setTx_tx, ProcLocal.setRx_tx,
      ProcLocal.setTx_rxFd, ProcLocal.setRx_rxFd, ProcLocal.setTx_txFd, ProcLocal.setRx_txFd]
    exact ⟨rfl, rfl, rfl, rfl⟩
  have hbytes : forwardedBytes pl (pl.forwardCommit s) s = (pl.sockets s).rx.queue.take n := by
    rw [forwardedBytes, txQueue, txQueue, (hsockets s).2.1, if_pos rfl, htx.queue, List.drop_left]
  rw [hbytes]
  have hj' : Joined (pl.forwardCommit s) w r :=
    hj.of_rings (fun a => (hsockets a).2.2.1) (fun a => (hsockets a).2.2.2) fun a => by
      rw [(hsockets a).1, (hsockets a).2.1]
      constructor
      · split
        · exact hrx.wf
        · exact (hj.wf a).1
      · split
        · exact htx.wf
        · exact (hj.wf a).2
  have hlen : ((pl.sockets s).rx.queue.take n).length = n := by
    rw [List.length_take, Nat.min_eq_left hle]
  have heof : ((pl.forwardCommit s).sockets w).tx.eof = (pl.sockets w).tx.eof := by
    rw [(hsockets w).2.1]
    split
    · subst s
      exact htx.flags.eof
    · rfl
  by_cases hsr : s = r
  · rw [if_pos hsr]
    subst s
    refine shows_pull hj' ?_ (List.take_prefix _ _) ?_ heof
    · rw [txQueue, (hsockets w).2.1, if_neg hj.ne]
      rfl
    · rw [rxQueue, (hsockets r).1, if_pos rfl, hlen]
      exact hrx.queue
  · rw [if_neg hsr]
    have hrxq : rxQueue (pl.forwardCommit s) r = rxQueue pl r := by
      rw [rxQueue, (hsockets r).1, if_neg (Ne.symm hsr)]
      rfl
    by_cases hsw : s = w
    · rw [if_pos hsw]
      subst s
      refine shows_push hj' ?_ hrxq heof
      rw [txQueue, (hsockets w).2.1, if_pos rfl]
      exact htx.queue
    · rw [if_neg hsw]
      refine Still.shows ⟨hj', ?_, hrxq, heof⟩
      rw [txQueue, (hsockets w).2.1, if_neg (Ne.symm hsw)]
      rfl

/-- Every body shows its events. -/
theorem shows_body (hj : Joined pl w r) (k : IoLoop) (s : Nat) :
    Shows w r marks pl ((k.loop s).body pl) (bodyEvents w r pl k s) := by
  cases k with
  | read => exact shows_recvCommit hj s
  | readline =>
      have hline : Still w r pl (requestLine pl s) := still_updBlock hj fun block =>
        block.setUncommitted ((pl.sockets s).rx.txLineRequest block.getUncommitted)
      have hrecv : Shows w r marks _ _ _ := shows_recvCommit hline.joined s
      have hbytes : receivedBytes (requestLine pl s) ((requestLine pl s).recvCommit s) s
          = receivedBytes pl ((requestLine pl s).recvCommit s) s := by
        rw [receivedBytes, receivedBytes, ProcLocal.committed, ProcLocal.committed,
          ProcLocal.committed, requestLine, ProcLocal.updBlock, ProcLocal.updSocket_sockets_self]
        rfl
      have hshows := hline.shows.trans hrecv
      rw [List.nil_append, hbytes] at hshows
      exact hshows
  | write => exact shows_sendCommit hj s
  | forward => exact shows_forwardCommit hj s
  | pollread =>
      exact (still_updBlock hj fun block =>
        block.commit (if (pl.sockets s).empty then 0 else 1)).shows
  | flush => exact (still_of_eq hj rfl).shows
  | hupFlush => exact (still_of_eq hj rfl).shows
  | hup =>
      exact (still_updBlock hj fun block =>
        block.commit (if (pl.sockets s).eofTx then 0 else 1)).shows
  | once => exact (still_updBlock hj fun block => block.setUncommitted 0).shows

/-! ## Between the coroutines -/

/-- Nothing shows but bytes that move along the pipe. -/
def Slides (w r : Nat) (marks : Prop) (pl pl' : ProcLocal) : Prop :=
  ∃ n, Shows w r marks pl pl' [.move n]

theorem slides_of_moves (hj : Joined pl w r) (h : Moves w r pl pl')
    (heof : marks → (pl'.sockets w).tx.eof = (pl.sockets w).tx.eof) : Slides w r marks pl pl' := by
  obtain ⟨n, hn, htx, hrx⟩ := h.moved
  refine ⟨n, hj.of_moves h, fun mark waiting => (run_cons _).mpr ⟨_, if_pos hn, ?_⟩, heof⟩
  rw [run_nil, htx, hrx]
  rfl

/-- The pipe may be touched before the move, and after it. -/
theorem Slides.between {pl₁ pl₂ : ProcLocal} (h : Slides w r marks pl pl₁)
    (h' : Still w r pl₁ pl₂) : Slides w r marks pl pl₂ :=
  h.imp fun _ h => h.still h'

theorem Slides.after {pl₁ : ProcLocal} (h : Slides w r marks pl₁ pl') (h' : Still w r pl pl₁) :
    Slides w r marks pl pl' := by
  obtain ⟨n, h⟩ := h
  exact ⟨n, h'.shows.trans h⟩

theorem Still.slides (hj : Joined pl w r) (h : Still w r pl pl') : Slides w r marks pl pl' :=
  (slides_of_moves hj (transfers_of_settles hj (Settles.refl pl)).toMoves fun _ => rfl).between h

/-- The operation of socket `s` is not one that changes EOF on the pipe. -/
def KeepsEof (w r : Nat) (pl : ProcLocal) (s : Nat) : Prop :=
  ((pl.sockets s).block.op = .txClose → s ≠ w) ∧ ((pl.sockets s).block.op = .readhup → s ≠ r)

theorem slides_socketHandler (hj : Joined pl w r) (s : Nat) (os : Os) :
    Slides w r (KeepsEof w r pl s) pl (pl.socketHandler s os).pl :=
  slides_of_moves hj (ProcLocal.moves_socketHandler hj) fun h =>
    (ProcLocal.transfers_socketHandler hj h.1 h.2).eof

theorem transfers_unflagged (hj : Joined pl w r) (s : Nat) :
    Transfers w r pl (pl.unflagged s) := by
  have hrx : Transfers w r pl (pl.unflagRx s) := by
    unfold ProcLocal.unflagRx
    split
    · exact transfers_setRx hj (Vectoring.Wf.setRxBlocked (hj.wf s).1 false) fun h => by
        rw [h]
        rfl
    · exact transfers_of_settles hj (Settles.refl pl)
  have hj' := hj.of_moves hrx.toMoves
  refine hrx.trans ?_
  unfold ProcLocal.unflagged ProcLocal.unflagTx
  split
  · exact transfers_setTx hj' (Vectoring.Wf.setTxBlocked (hj'.wf s).2 false)
      (fun h => by rw [h]; rfl) fun h => by rw [h]; rfl
  · exact transfers_of_settles hj' (Settles.refl _)

/-- A retry clears the flags the poller has answered for, and then applies the
operation. -/
theorem slides_retrySocket (hj : Joined pl w r) (s : Nat) (os : Os) :
    Slides w r (KeepsEof w r pl s) pl (pl.retrySocket s os).pl := by
  have hflags := transfers_unflagged hj s
  have hj' := hj.of_moves hflags.toMoves
  have hop := ((ProcLocal.handles_unflagged pl s).block s).op
  have hhandler : Slides w r (KeepsEof w r pl s) pl ((pl.unflagged s).socketHandler s os).pl :=
    slides_of_moves hj (hflags.toMoves.trans (ProcLocal.moves_socketHandler hj')) fun h =>
      (ProcLocal.transfers_socketHandler hj' (by rw [hop]; exact h.1)
        (by rw [hop]; exact h.2)).eof.trans hflags.eof
  rw [ProcLocal.retrySocket_eq]
  split
  · exact hhandler
  · obtain ⟨n, hn⟩ := hhandler
    exact ⟨n, hn.still (still_of_sameData hn.joined ((ProcLocal.sameData_dropBlocked _ s).trans
      (ProcLocal.settles_enqueueRun _ _).toSameData))⟩

theorem slides_afterCall (hj : Joined pl w r) (t : Nat) (os : Os) :
    Slides w r ((pl.threads t).status = .wait →
      ∀ s, (pl.threads t).waitingSocketPtr = some s → KeepsEof w r pl s) pl
      (pl.afterCall t os).pl := by
  rcases ProcLocal.afterCall_cases pl t os with hsame | ⟨s, hwait, hs, hhandler⟩
  · exact Still.slides hj (still_of_sameData hj hsame)
  · have hclear : Still w r pl { pl with runningCr := none } := still_of_eq hj rfl
    obtain ⟨n, hn⟩ := slides_socketHandler hclear.joined s os
    rw [hhandler]
    exact ⟨n, hn.joined, hn.run, fun h => hn.eof (h hwait s hs)⟩

end Bodies

/-! ## A coroutine's step -/

namespace Machine

variable {w r t s : Nat} {k : IoLoop} {marks : Prop} {m m' : Machine}

theorem still_raise (hj : Joined m.pl w r) (e : Errno) : Still w r m.pl (m.raise t e).pl :=
  still_of_eq hj (raise_sockets m t e)

/-- A hang-up marks EOF on the writer's ring, if it can. -/
theorem shows_hup (hj : Joined m.pl w r) (errno : Errno) :
    Shows w r marks m.pl
      ((m.pl.setTx s ((m.pl.sockets s).tx.hup m.pl.errno).ring).setErrno errno)
      (leaveEvents w m.pl .hupFlush s) := by
  have hset : ∀ {ring : Vectoring}, ring.Wf → ring.queue = (m.pl.sockets s).tx.queue →
      Joined ((m.pl.setTx s ring).setErrno errno) w r ∧
        txQueue ((m.pl.setTx s ring).setErrno errno) w = txQueue m.pl w ∧
        rxQueue ((m.pl.setTx s ring).setErrno errno) r = rxQueue m.pl r := fun {ring} hwf hq => by
    have hsettx : Moves w r m.pl (m.pl.setTx s ring) := moves_setTx hj hwf fun h => by
      rw [hq, h]
      rfl
    refine ⟨(still_of_eq (hj.of_moves hsettx) (by rfl)).joined, ?_, ?_⟩
    · show ((m.pl.setTx s ring).sockets w).tx.queue = _
      rw [ProcLocal.setTx_tx]
      split
      · subst s
        exact hq
      · rfl
    · show ((m.pl.setTx s ring).sockets r).rx.queue = _
      rw [ProcLocal.setTx_rx]
      rfl
  unfold Vectoring.hup
  by_cases heof : (m.pl.sockets s).tx.eof = true
  · rw [if_pos heof, leaveEvents, if_neg fun h => by simp [Socket.eofTx, heof] at h]
    obtain ⟨hj', htx, hrx⟩ := hset (hj.wf s).2 rfl
    refine Still.shows ⟨hj', htx, hrx, ?_⟩
    show ((m.pl.setTx s (m.pl.sockets s).tx).sockets w).tx.eof = _
    rw [ProcLocal.setTx_tx]
    split
    · subst s
      rfl
    · rfl
  · rw [if_neg heof]
    obtain ⟨hj', htx, hrx⟩ := hset (ProcLocal.wf_markEof (hj.wf s).2) (ProcLocal.queue_markEof _)
    have heof' : ∀ a, (((m.pl.setTx s (m.pl.sockets s).tx.markEof).setErrno errno).sockets a).tx.eof
        = if a = s then true else (m.pl.sockets a).tx.eof := fun a => by
      show ((m.pl.setTx s _).sockets a).tx.eof = _
      rw [ProcLocal.setTx_tx]
      split
      · exact ProcLocal.eof_markEof _
      · rfl
    by_cases hs : s = w
    · rw [leaveEvents, if_pos ⟨hs, by simpa [Socket.eofTx] using heof⟩]
      refine ⟨hj', fun mark waiting => (run_cons _).mpr ⟨_, rfl, ?_⟩, fun _ => ?_⟩
      · rw [run_nil, htx, hrx]
        rfl
      · rw [heof', if_pos hs.symm]
        rfl
    · rw [leaveEvents, if_neg fun h => hs h.1]
      refine Still.shows ⟨hj', htx, hrx, ?_⟩
      rw [heof', if_neg (Ne.symm hs)]

/-- Leaving a loop shows its events. -/
theorem shows_leave (hj : Joined m.pl w r) :
    Shows w r marks m.pl (m.leave t k s).pl (leaveEvents w m.pl k s) := by
  cases k with
  | hupFlush =>
      have hhup : Shows w r marks m.pl _ _ := shows_hup (s := s) hj ((m.pl.sockets s).tx.hup m.pl.errno).errno
      unfold leave
      dsimp only
      split
      · exact hhup.still (still_of_eq hhup.joined (raise_sockets _ t _))
      · exact hhup.still (still_updBlock hhup.joined fun block => block.init 0 1 .hup)
  | hup =>
      by_cases hs : s = w
      · rw [leaveEvents, if_pos hs]
        exact ⟨hj, fun mark waiting => rfl, fun _ => rfl⟩
      · rw [leaveEvents, if_neg hs]
        exact (still_of_eq hj rfl).shows
  | read | readline | pollread | write | flush | forward | once =>
      exact (still_of_eq hj rfl).shows

/-- A loop that is left from its body is not that of a hang-up. -/
theorem leaveEvents_of_leaves {pl pl' : ProcLocal} (h : (k.loop s).leaves pl = true) :
    leaveEvents w pl' k s = [] := by
  cases k with
  | hupFlush => cases h
  | hup => cases h
  | read | readline | pollread | write | flush | forward | once => rfl

theorem still_waitOn {pl : ProcLocal} (hj : Joined pl w r) : Still w r pl (pl.waitOn t s) := by
  have hthread : Still w r pl (pl.updThread t fun that =>
      { that with waitingSocketPtr := some s, status := .wait }) := still_of_eq hj rfl
  exact hthread.trans (still_updBlock hthread.joined fun block => { block with blockedVk := t })

/-- A turn of a loop shows its events. -/
theorem shows_turn (hj : Joined m.pl w r) :
    Shows w r marks m.pl (m.turn t k s).pl (turnEvents w r m.pl k s) := by
  have hbody : Shows w r marks m.pl ((k.loop s).body m.pl) _ := shows_body hj k s
  have hturned := (k.loop s).turned m.pl
  unfold turn turnEvents
  generalize (k.loop s).turn m.pl = outcome at hturned
  cases hturned with
  | left htest =>
      rw [if_neg (by simp [htest])]
      exact shows_leave hj
  | failed htest hfails =>
      rw [if_pos htest]
      exact hbody.still (still_of_eq hbody.joined (raise_sockets _ t _))
  | done htest hfails hleaves =>
      rw [if_pos htest]
      have hleave : Shows w r marks _ _ _ :=
        shows_leave (m := { m with pl := (k.loop s).body m.pl }) (t := t) (k := k) (s := s) hbody.joined
      rw [leaveEvents_of_leaves hleaves] at hleave
      have := hbody.trans hleave
      rwa [List.append_nil] at this
  | wait htest hfails hleaves hwaits =>
      rw [if_pos htest]
      exact hbody.still (still_waitOn hbody.joined)
  | again htest hfails hleaves hwaits =>
      rw [if_pos htest]
      exact hbody

/-- Reading the reader's hang-up takes the mark. -/
theorem shows_readhup (hj : Joined m.pl w r) :
    ∃ n, Shows w r marks m.pl (m.readhup t s).pl
      ((if s = r ∧ m.pl.pollhup s = true then [.take] else []) ++ [.move n]) := by
  unfold readhup
  by_cases hup : m.pl.pollhup s = true
  · rw [if_pos hup]
    have hmoves := ProcLocal.moves_handleReadhup (s := s) hj
    have heof := ProcLocal.eof_handleReadhup (s := s) hj
    generalize (m.pl.handleReadhup s).pl = pl at hmoves heof
    have hj' := hj.of_moves hmoves
    have hdrain : Still w r pl ((pl.setRx s ((pl.sockets s).rx.readhup pl.errno).ring).setErrno
        ((pl.sockets s).rx.readhup pl.errno).errno) := by
      have hring : Still w r pl (pl.setRx s ((pl.sockets s).rx.readhup pl.errno).ring) := by
        unfold Vectoring.readhup
        split
        · exact still_setRx hj' (ProcLocal.wf_clearEof (hj'.wf s).1) (ProcLocal.queue_clearEof _)
        · exact still_setRx hj' (hj'.wf s).1 rfl
      exact hring.trans (still_of_eq hring.joined rfl)
    have hshows : ∃ n, Shows w r marks m.pl pl
        ((if s = r ∧ m.pl.pollhup s = true then [.take] else []) ++ [.move n]) := by
      obtain ⟨n, hn, htx, hrx⟩ := hmoves.moved
      refine ⟨n, hj', fun mark waiting => ?_, fun _ => ?_⟩
      · split
        · refine (run_cons _).mpr ⟨_, rfl, (run_cons _).mpr ⟨_, if_pos hn, ?_⟩⟩
          rw [run_nil, htx, hrx]
          rfl
        · refine (run_cons _).mpr ⟨_, if_pos hn, ?_⟩
          rw [run_nil, htx, hrx]
          rfl
      · rw [heof]
        by_cases hs : s = r
        · rw [if_pos ⟨hs, hup⟩, decide_eq_false (not_not.mpr hs), Bool.and_false]
          rfl
        · rw [if_neg fun h => hs h.1, decide_eq_true hs, Bool.and_true]
          rfl
    obtain ⟨n, hn⟩ := hshows
    refine ⟨n, ?_⟩
    dsimp only
    split
    · exact (hn.still hdrain).still (still_of_eq hdrain.joined (raise_sockets _ t _))
    · exact hn.still hdrain
  · rw [if_neg hup, if_neg fun h => hup h.2]
    exact Still.slides hj (still_raise hj Errno.EAGAIN)

/-- Beginning an operation touches the block alone. -/
theorem still_enter {pl : ProcLocal} (hj : Joined pl w r) (c : IoCall) :
    Still w r pl (c.enter pl) := by
  have hinit : ∀ {pl : ProcLocal} (s buf len : Nat) (op : Op), Joined pl w r →
      Still w r pl (pl.blockInit s buf len op) := fun s buf len op hj =>
    still_updBlock hj fun block => block.init buf len op
  cases c with
  | read s buf len | readline s buf len => exact hinit s buf len .read hj
  | pollread s => exact hinit s 0 1 .read hj
  | write s buf len => exact hinit s buf len .write hj
  | flush s | hup s => exact hinit s 0 0 .flush hj
  | forward s len => exact hinit s 0 len .forward hj
  | once s op =>
      show Still w r pl (pl.beginOnce s op)
      have hqueue : Still w r pl
          (if op = .readable ∨ op = .writable then pl.enqueueBlocked s else pl) := by
        split
        · exact still_of_sameData hj (ProcLocal.settles_enqueueBlocked pl s).toSameData
        · exact still_of_eq hj rfl
      exact hqueue.trans (hinit s 0 1 op hqueue.joined)

theorem still_call (hj : Joined m.pl w r) (c : IoCall) : Still w r m.pl (m.call t c).pl := by
  have henter := still_enter hj c
  unfold call
  split
  · exact henter.trans (still_of_eq henter.joined (raise_sockets _ t _))
  · exact henter

/-! ## A step -/

/-- What a coroutine's step shows. -/
theorem shows_co {a : CoAct} (hj : Joined m.pl w r) (hst : m.stage = .inside t)
    (h : m.co t a = some m') :
    ∃ n, Shows w r marks m.pl m'.pl (pipeEvents w r (.co a) m ++ [.move n]) := by
  cases coStepped h with
  | turn k s hpos =>
      simp only [pipeEvents, hst, hpos]
      have hturn : Shows w r marks m.pl (m.turn t k s).pl _ := shows_turn hj
      obtain ⟨n, hn⟩ := Still.slides hturn.joined (still_of_eq hturn.joined rfl)
      exact ⟨n, hturn.trans hn⟩
  | call hpos c hknown => 
      simp only [pipeEvents, hst]
      exact Still.slides hj (still_call hj c)
  | readhup hpos s =>
      simp only [pipeEvents, hst, hpos, true_and]
      exact shows_readhup hj
  | play hpos u =>
      simp only [pipeEvents, hst]
      exact Still.slides hj (still_of_eq hj (ProcLocal.enqueueRun_sockets m.pl u))
  | store hpos mem =>
      simp only [pipeEvents, hst]
      exact Still.slides hj (still_of_eq hj (by rfl))
  | raise hpos e =>
      simp only [pipeEvents, hst]
      exact Still.slides hj (still_raise hj e)
  | stop hpos status hstatus =>
      simp only [pipeEvents, hst]
      exact Still.slides hj (still_of_eq hj (by rfl))

end Machine

/-- The handler that a step runs, if any, does not change EOF on the pipe. -/
def KeepsEofAt (w r : Nat) (a : Act) (m : Machine) : Prop :=
  match m.stage, a with
  | .kernel, .retry s _ => KeepsEof w r m.pl s
  | .back t, .unblock _ => (m.pl.threads t).status = .wait →
      ∀ s, (m.pl.threads t).waitingSocketPtr = some s → KeepsEof w r m.pl s
  | _, _ => True

/-- Every step shows its events, and what bytes it moves. -/
theorem shows_step {w r : Nat} {a : Act} {m m' : Machine} (hj : Joined m.pl w r)
    (h : Machine.step a m = some m') :
    ∃ n, Shows w r (KeepsEofAt w r a m) m.pl m'.pl (pipeEvents w r a m ++ [.move n]) := by
  cases Machine.stepped h with
  | start hst =>
      simp only [pipeEvents, hst]
      exact Still.slides hj (still_of_eq hj (by rfl))
  | play hst t =>
      simp only [pipeEvents, hst]
      exact Still.slides hj (still_of_eq hj (ProcLocal.enqueueRun_sockets _ t))
  | answer hst s rx tx hs =>
      simp only [pipeEvents, hst]
      refine Still.slides hj (still_updBlock hj fun block => { block with
        ioftRxRet := { block.ioftRxRet with event := rx }
        ioftTxRet := { block.ioftTxRet with event := tx } })
  | retry hst s os hs =>
      simp only [pipeEvents, KeepsEofAt, hst]
      exact slides_retrySocket hj s os
  | exec phase hst =>
      simp only [pipeEvents, hst]
      exact Still.slides hj (still_of_eq hj (Machine.execute_sockets m phase))
  | co t hst a m' hco => exact Machine.shows_co hj hst hco
  | unblock t hst os =>
      simp only [pipeEvents, KeepsEofAt, hst]
      exact slides_afterCall hj t os

/-! ## Runs -/

/-- The channel holds what the pipe holds. -/
structure Holds (w r : Nat) (m : Machine) (c : Channel UInt8) : Prop where
  joined : Joined m.pl w r
  sent : c.sent = txQueue m.pl w
  arrived : c.arrived = rxQueue m.pl r

theorem shown_bodyEvents (w r : Nat) (pl : ProcLocal) (k : IoLoop) (s : Nat) :
    (bodyEvents w r pl k s).flatMap Event.shown = bodyEvents w r pl k s := by
  cases k with
  | read | readline =>
      simp only [bodyEvents]
      split <;> rfl
  | write =>
      simp only [bodyEvents]
      split <;> rfl
  | forward =>
      simp only [bodyEvents]
      split
      · rfl
      · split <;> rfl
  | pollread | flush | hupFlush | hup | once => rfl

theorem shown_leaveEvents (w : Nat) (pl : ProcLocal) (k : IoLoop) (s : Nat) :
    (leaveEvents w pl k s).flatMap Event.shown = leaveEvents w pl k s := by
  cases k with
  | hupFlush | hup =>
      simp only [leaveEvents]
      split <;> rfl
  | read | readline | pollread | write | flush | forward | once => rfl

/-- No event of a step is a move. -/
theorem shown_pipeEvents (w r : Nat) (a : Act) (m : Machine) :
    (pipeEvents w r a m).flatMap Event.shown = pipeEvents w r a m := by
  unfold pipeEvents
  split
  · split
    · unfold turnEvents
      split
      · exact shown_bodyEvents ..
      · exact shown_leaveEvents ..
    · rfl
  · split <;> rfl
  · rfl

/-- A run of the machine shows what a run of the channel shows. -/
theorem run_shows {w r : Nat} {as : List Act} {m m' : Machine} {c : Channel UInt8}
    (hc : Holds w r m c) (h : run Machine.step as m = some m') :
    ∃ es c', run Channel.step es c = some c' ∧
      es.flatMap Event.shown = trace Machine.step (pipeEvents w r) as m ∧ Holds w r m' c' := by
  refine run_simulates (pipeEvents w r) (C := fun _ _ => True) (fun a m m' c hc _ hstep => ?_) hc
    (Meets.of_forall (fun _ _ => trivial) as m) h
  obtain ⟨hj, hsent, harrived⟩ := hc
  obtain ⟨n, hn⟩ := shows_step hj hstep
  refine ⟨_, _, hn.run_channel hsent harrived, ?_, hn.joined, rfl, rfl⟩
  rw [List.flatMap_append, shown_pipeEvents]
  exact List.append_nil _

/-- A virtual pipe is a reliable byte stream.  Whatever the coroutines, the
handlers, the executor and the kernel do, and in whatever order, what was on the
way and has been written since is what has been delivered, then what is in the
reader's receive ring, then what is in the writer's transmit ring. -/
theorem pipe_carries {w r : Nat} {as : List Act} {m m' : Machine} (hj : Joined m.pl w r)
    (h : run Machine.step as m = some m') :
    rxQueue m.pl r ++ txQueue m.pl w ++ written w r as m
      = delivered w r as m ++ rxQueue m'.pl r ++ txQueue m'.pl w := by
  obtain ⟨es, c', hrun, hshown, hc'⟩ :=
    run_shows (c := ⟨txQueue m.pl w, rxQueue m.pl r, false, false⟩) ⟨hj, rfl, rfl⟩ h
  have hpushed := pushed_eq hrun
  rw [written, delivered, ← hshown, pushed_shown, pulled_shown, ← hc'.arrived, ← hc'.sent]
  exact hpushed

/-! ## A pipeline of two -/

/-- Two coroutines, the socket of the first writing to that of the second. -/
def pipeline : Machine where
  pl := { ProcLocal.init with
    threads := Thread.init
    sockets := fun s => Socket.cleared.init s s
      (if s = 1 then (Pipe.initFd 3 .socketStream).initTx 0 else Pipe.initFd 3 .socketStream)
      (if s = 0 then (Pipe.initFd 4 .socketStream).initRx 1 else Pipe.initFd 4 .socketStream) }
  pos := fun _ => none
  stage := .kernel

theorem joined_pipeline : Joined pipeline.pl 0 1 where
  txRef := rfl
  rxRef := rfl
  onlyReader s h := by
    by_contra hs
    simp [pipeline, Socket.init, hs, Pipe.initFd] at h
  onlyWriter s h := by
    by_contra hs
    simp [pipeline, Socket.init, hs, Pipe.initFd] at h
  ne := by decide
  wf s := ⟨Vectoring.wf_init _ _ (by decide), Vectoring.wf_init _ _ (by decide)⟩

/-- Every system call would block. -/
def wouldBlock : Os := ⟨.err Errno.EAGAIN, .err Errno.EAGAIN, .err Errno.EAGAIN, .ok (), .ok ()⟩

/-- The first writes three bytes, flushes them and ends; the second reads two. -/
def writeThenRead : List Act :=
  [.play 0, .start, .exec, .exec,
    .co (.store (Memory.store (fun _ => 0) 0 [97, 98, 99])), .co (.play 1),
    .co (.call (.write 0 0 3)), .co .turn, .co .turn,
    .co (.call (.flush 0)), .co .turn, .unblock wouldBlock, .exec, .co .turn,
    .co (.stop .ended), .unblock wouldBlock, .exec, .exec, .exec,
    .co (.call (.read 1 8 2)), .co .turn]

theorem pipe_carries_pipeline : ∃ m', run Machine.step writeThenRead pipeline = some m' ∧
    written 0 1 writeThenRead pipeline
      = delivered 0 1 writeThenRead pipeline ++ rxQueue m'.pl 1 ++ txQueue m'.pl 0 ∧
    delivered 0 1 writeThenRead pipeline = [97, 98] := by
  obtain ⟨m', hm'⟩ := Option.isSome_iff_exists.mp
    (by decide : (run Machine.step writeThenRead pipeline).isSome = true)
  exact ⟨m', hm', pipe_carries joined_pipeline hm', by decide⟩

end Vk

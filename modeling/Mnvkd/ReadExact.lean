/-
# `Mnvkd.ReadExact` — a read returns what was asked for

A socket reads from a descriptor, which has bytes still to give and ends behind
them (`Inlet`).  How the bytes are cut, and where the descriptor would block, is
what each `readv` finds: it is asked each time a handler runs, when the coroutine
has come to wait, when the poller retries, and also when the socket is still in
the blocked queue though its coroutine has gone on.

`vk_socket_read` of `len` bytes returns the next `len` of them, or all there are
where they are fewer, and leaves the rest (`read_exact`).  What carries this is
that EOF is marked only at the stream's end: a ring that `readv` is asked to fill
is never full.
-/
import Mnvkd.ReadlineStream
import Mnvkd.LazyFlush
import Mnvkd.Schedule

namespace Vk

open Lib ProcLocal Errno

/-! ## A descriptor that is read -/

/-- The bytes that an answer of `readv` delivers. -/
def SysResult.bytes : SysResult (List UInt8) → List UInt8
  | .ok bs => bs
  | .err _ => []

/-- A process, and the bytes that the descriptor one of its sockets reads from has
still to give. -/
structure Inlet where
  pl : ProcLocal
  unread : List UInt8

/-- What a handler finds when it runs: nothing where `readv` would block, or so many
bytes and one more; and what the other system calls answer. -/
structure Found where
  arrived : Option Nat
  os : Os

/-- What the poller has found for the socket it retries. -/
structure Retried where
  rx : Pollfd
  tx : Pollfd
  found : Found

/-- The poller's answers are put in the block of socket `s`. -/
def answered (pl : ProcLocal) (s : Nat) (p : Retried) : ProcLocal :=
  pl.updBlock s fun block =>
    { block with
      ioftRxRet := { block.ioftRxRet with event := p.rx }
      ioftTxRet := { block.ioftTxRet with event := p.tx } }

/-- How a wait goes: what the handler finds when the coroutine has come back, and,
unless that sets it to run, what the retry finds.  Without a retry another coroutine
has set it to run. -/
structure Wake where
  unblock : Found
  retry : Option Retried

namespace Inlet

/-- `readv` with room for `room` bytes.  It gives none only where it is asked for none
or there are none. -/
def readv (x : Inlet) (room : Nat) : Option Nat → SysResult (List UInt8)
  | none => .err EAGAIN
  | some n => .ok (x.unread.take (min (n + 1) room))

/-- A handler of socket `s` runs. -/
def handled (x : Inlet) (s : Nat) (f : Found) (handler : ProcLocal → Os → ProcLocal) : Inlet :=
  let readv := x.readv (x.pl.sockets s).rx.rxLen f.arrived
  ⟨handler x.pl { f.os with readv := readv }, x.unread.drop readv.bytes.length⟩

/-- The poller answers for socket `s`, and retries it. -/
def retry (x : Inlet) (s : Nat) (p : Retried) : Inlet :=
  Inlet.handled ⟨answered x.pl s p, x.unread⟩ s p.found fun pl os => (pl.retrySocket s os).pl

/-- `vk_wait` of thread `t`, until it goes on. -/
def wait (t s : Nat) (w : Wake) (x : Inlet) : Inlet :=
  let x : Inlet := ⟨x.pl.waitOn t s, x.unread⟩
  let x := x.handled s w.unblock fun pl os => (pl.unblock t os).pl
  let x :=
    if (x.pl.threads t).isReady then x
    else
      match w.retry with
      | some p => x.retry s p
      | none => ⟨x.pl.enqueueRun t, x.unread⟩
  ⟨x.pl.updThread t fun that => { that with waitingSocketPtr := none }, x.unread⟩

/-- `vk_socket_read`. -/
def readLoop (s : Nat) : Loop Inlet :=
  (Vk.readLoop s).focus Inlet.pl fun pl x => ⟨pl, x.unread⟩

/-- It begins. -/
def beginRead (x : Inlet) (s buf len : Nat) : Inlet := ⟨x.pl.beginRead s buf len, x.unread⟩

/-- The stream that is left: what is in the receive ring, and what is not read yet. -/
def rest (x : Inlet) (s : Nat) : List UInt8 := (x.pl.sockets s).rx.queue ++ x.unread

end Inlet

/-- Whether a wait finds bytes, or the end of the stream: when the coroutine has come
back, or when the poller retries. -/
def Wake.finds (w : Wake) : Bool :=
  w.unblock.arrived.isSome || (w.retry.map fun p => p.found.arrived.isSome).getD false

/-! ## Where EOF is the end -/

/-- Socket `s` reads from the descriptor, has nothing to send, and has EOF marked only
at the stream's end. -/
structure Connected (s : Nat) (x : Inlet) : Prop where
  wf : (x.pl.sockets s).rx.Wf
  fd : ∃ fd, (x.pl.sockets s).rxFd.ref = .osFd fd
  notListen : (x.pl.sockets s).rxFd.fdType ≠ .socketListen
  silent : (x.pl.sockets s).tx.isEmpty = true
  unpolled : (x.pl.sockets s).block.ioftRxRet.rxClosed = false
  ended : (x.pl.sockets s).rx.eof = true → x.unread = []
  queued : Queued x.pl

/-- The ring has room, if the poller has the socket. -/
def Roomy (s : Nat) (x : Inlet) : Prop :=
  s ∈ x.pl.blockedQ → (x.pl.sockets s).rx.rxLen ≠ 0

section Handlers

variable {s t : Nat} {x : Inlet} {pl' : ProcLocal}

/-- The data of the socket is all that counts. -/
theorem Connected.same (h : Connected s x) (hsocket : SameSocket (x.pl.sockets s) (pl'.sockets s))
    (hq : Queued pl') : Connected s ⟨pl', x.unread⟩ where
  wf := hsocket.rx.wf h.wf
  fd := by rw [hsocket.rxRef]; exact h.fd
  notListen := by rw [hsocket.rxType]; exact h.notListen
  silent := by rw [hsocket.tx.isEmpty]; exact h.silent
  unpolled := by rw [hsocket.block.ioftRxRet]; exact h.unpolled
  ended heof := h.ended (by rw [← hsocket.rx.eof]; exact heof)
  queued := hq

/-- A hang-up is EOF with nothing left of the stream. -/
theorem Connected.pollhup (h : Connected s x) :
    x.pl.pollhup s = true ↔ (x.pl.sockets s).rx.queue = [] ∧ (x.pl.sockets s).rx.eof = true := by
  obtain ⟨fd, hfd⟩ := h.fd
  have hup : x.pl.hupSignalled s = (x.pl.sockets s).rx.eof := by
    simp only [hupSignalled, Pipe.getSocket, hfd, h.unpolled, Bool.false_and, Bool.or_false]
  rw [pollhup_of_queue h.wf, hup]

theorem Connected.rest_of_pollhup (h : Connected s x) (hup : x.pl.pollhup s = true) :
    x.rest s = [] := by
  obtain ⟨hqueue, heof⟩ := h.pollhup.mp hup
  rw [Inlet.rest, hqueue, h.ended heof]
  rfl

/-- The call stands where it stood. -/
structure SamePlace (block block' : Block) : Prop where
  op : block'.op = block.op
  buf : block'.buf = block.buf
  len : block'.len = block.len
  copied : block'.copied = block.copied

theorem SamePlace.trans {a b c : Block} (h : SamePlace a b) (h' : SamePlace b c) : SamePlace a c :=
  ⟨h'.op.trans h.op, h'.buf.trans h.buf, h'.len.trans h.len, h'.copied.trans h.copied⟩

theorem SameBlock.place {block block' : Block} (h : SameBlock block block') :
    SamePlace block block' := ⟨h.op, h.buf, h.len, h.copied⟩

/-- The socket goes on reading where it was: the same stream, in the ring or not, the
same place in the call, and the same memory. -/
structure GoesOn (s : Nat) (x x' : Inlet) : Prop where
  connected : Connected s x'
  rest : x'.rest s = x.rest s
  place : SamePlace (x.pl.sockets s).block (x'.pl.sockets s).block
  mem : x'.pl.mem = x.pl.mem

theorem GoesOn.trans {x' x'' : Inlet} (h : GoesOn s x x') (h' : GoesOn s x' x'') : GoesOn s x x'' :=
  ⟨h'.connected, h'.rest.trans h.rest, h.place.trans h'.place, h'.mem.trans h.mem⟩

/-- Bytes are there, or EOF. -/
def Inlet.Fed (x : Inlet) (s : Nat) : Prop :=
  (x.pl.sockets s).rx.queue ≠ [] ∨ (x.pl.sockets s).rx.eof = true

/-- What is settled behind a handler keeps what it has found. -/
theorem Connected.settle (h : Connected s x) (hdata : SameData x.pl pl') (hq : Queued pl') :
    GoesOn s x ⟨pl', x.unread⟩ ∧ (x.Fed s → Inlet.Fed ⟨pl', x.unread⟩ s) := by
  refine ⟨⟨h.same (hdata.socket s) hq, ?_, (hdata.socket s).block.place, hdata.mem⟩, fun hfed => ?_⟩
  · show (pl'.sockets s).rx.queue ++ _ = _
    rw [(hdata.socket s).rx.queue]
    rfl
  · show (pl'.sockets s).rx.queue ≠ [] ∨ (pl'.sockets s).rx.eof = true
    rw [(hdata.socket s).rx.queue, (hdata.socket s).rx.eof]
    exact hfed

/-- What `readv` delivers is the front of what is not read yet. -/
theorem Inlet.bytes_readv (x : Inlet) (room : Nat) (arrived : Option Nat) :
    (x.readv room arrived).bytes <+: x.unread := by
  cases arrived with
  | none => exact List.nil_prefix
  | some n => exact List.take_prefix _ _

/-- A read of the ring, if it has room, takes over what `readv` delivers, and marks EOF
only where nothing is left. -/
theorem Connected.read (h : Connected s x) (hroom : (x.pl.sockets s).rx.rxLen ≠ 0)
    (arrived : Option Nat) {readv : SysResult (List UInt8)}
    (hreadv : x.readv (x.pl.sockets s).rx.rxLen arrived = readv) {ring : Vectoring}
    (hring : ((x.pl.sockets s).rx.read readv x.pl.errno).ring = ring) :
    ring.Wf ∧ ring.queue = (x.pl.sockets s).rx.queue ++ readv.bytes ∧
      (ring.eof = true → x.unread.drop readv.bytes.length = []) ∧
      (arrived.isSome = true ∨ x.Fed s → ring.queue ≠ [] ∨ ring.eof = true) ∧
      (ring.effect = false → readv.bytes = []) := by
  subst hreadv hring
  cases arrived with
  | none =>
      simp only [Inlet.readv, Vectoring.read_err, SysResult.bytes]
      refine ⟨h.wf.congr rfl rfl rfl rfl rfl (Int.natCast_nonneg _), (List.append_nil _).symm,
        h.ended, fun hfed => ?_, fun _ => trivial⟩
      exact hfed.elim nofun id
  | some n =>
      have hlen : (x.unread.take (min (n + 1) (x.pl.sockets s).rx.rxLen)).length
          ≤ (x.pl.sockets s).rx.rxLen := by
        rw [List.length_take]
        omega
      obtain ⟨-, -, hm⟩ := h.wf.read_ok hlen x.pl.errno
      have hnone : x.unread.take (min (n + 1) (x.pl.sockets s).rx.rxLen) = [] → x.unread = [] := by
        intro hnil
        rw [List.take_eq_nil_iff] at hnil
        exact hnil.resolve_left (by omega)
      refine ⟨hm.wf, hm.queue, fun heof => ?_, fun _ => ?_, fun heffect => ?_⟩
      · have hnil : x.unread = [] := hnone (List.isEmpty_iff.mp (hm.flags.eof.symm.trans heof))
        rw [hnil]
        exact List.drop_nil
      · rw [Inlet.readv, hm.queue, hm.flags.eof]
        cases hbytes : x.unread.take (min (n + 1) (x.pl.sockets s).rx.rxLen) with
        | nil => exact Or.inr rfl
        | cons b bs => exact Or.inl (by simp)
      · have hnone : (x.unread.take (min (n + 1) (x.pl.sockets s).rx.rxLen)).length = 0 := by
          have heffect := hm.effect.symm.trans heffect
          rw [Bool.or_eq_false_iff] at heffect
          exact Nat.eq_zero_of_not_pos (of_decide_eq_false heffect.2)
        exact List.length_eq_zero_iff.mp hnone

/-- A read handler whose ring has room. -/
theorem Connected.handleRead (h : Connected s x) (hroom : (x.pl.sockets s).rx.rxLen ≠ 0) (f : Found) :
    GoesOn s x (x.handled s f fun pl os => (pl.handleRead s os).pl) ∧
      (f.arrived.isSome = true ∨ x.Fed s →
        (x.handled s f fun pl os => (pl.handleRead s os).pl).Fed s) := by
  obtain ⟨fd, hfd⟩ := h.fd
  have hsame := sameData_handleRead_osFd x.pl s
    { f.os with readv := x.readv (x.pl.sockets s).rx.rxLen f.arrived } hfd h.notListen
  obtain ⟨hwf, hqueue, hended, hfinds, -⟩ := h.read hroom f.arrived rfl rfl
  have hsocket := hsame.socket s
  have hrx := hsocket.rx
  rw [setRx_rx_self] at hrx
  have hq := (wakes_handleRead x.pl s
    { f.os with readv := x.readv (x.pl.sockets s).rx.rxLen f.arrived }).queued h.queued
  refine ⟨⟨⟨hrx.wf hwf, ⟨fd, ?_⟩, ?_, ?_, ?_, fun heof => hended (by rw [← hrx.eof]; exact heof), hq⟩,
    ?_, ?_, ?_⟩, ?_⟩
  · exact hsocket.rxRef.trans (by rw [setRx_rxFd]; exact hfd)
  · refine fun htype => h.notListen ?_
    rw [← htype]
    exact (hsocket.rxType.trans (by rw [setRx_rxFd])).symm
  · exact hsocket.tx.isEmpty.trans (by rw [setRx_tx]; exact h.silent)
  · rw [Inlet.handled, hsocket.block.ioftRxRet, setRx_block]
    exact h.unpolled
  · have hrest := List.prefix_iff_eq_append.mp
      (x.bytes_readv (x.pl.sockets s).rx.rxLen f.arrived)
    rw [Inlet.rest, Inlet.rest, ← hrest, ← List.append_assoc, ← hqueue, ← hrx.queue]
    rfl
  · have hblock := hsocket.block
    rw [setRx_block] at hblock
    exact hblock.place
  · exact hsame.mem
  · intro hsome
    show ((x.pl.handleRead s _).pl.sockets s).rx.queue ≠ [] ∨
      ((x.pl.handleRead s _).pl.sockets s).rx.eof = true
    rw [hrx.queue, hrx.eof]
    exact hfinds hsome

/-- What the socket handler does for a read: there is nothing to flush. -/
theorem Connected.socketHandler (h : Connected s x) (hop : (x.pl.sockets s).block.op = .read)
    (os : Os) : x.pl.socketHandler s os = x.pl.handleRead s os := by
  obtain ⟨fd, hfd⟩ := h.fd
  have hsocket := (sameData_handleRead_osFd x.pl s os hfd h.notListen).socket s
  have hsilent : ((x.pl.handleRead s os).pl.sockets s).emptyTx = true := by
    rw [Socket.emptyTx, hsocket.tx.isEmpty, setRx_tx]
    exact h.silent
  have hlazy : lazyFlush ((x.pl.handleRead s os).pl.sockets s) = false := by
    rw [lazyFlush, hsilent]
    simp
  simp only [ProcLocal.socketHandler, hop, hlazy, Bool.false_eq_true, if_false, ite_self]

/-- A thread that a read leaves waiting has got nothing, and where the read would block
the thread is left waiting. -/
theorem Connected.asleep (h : Connected s x) (hroom : (x.pl.sockets s).rx.rxLen ≠ 0) (f : Found) :
    ((x.handled s f fun pl os => (pl.handleRead s os).pl).pl.Asleep s →
        ((x.handled s f fun pl os => (pl.handleRead s os).pl).pl.sockets s).rx.queue
          = (x.pl.sockets s).rx.queue) ∧
      (x.pl.Asleep s → f.arrived = none →
        (x.handled s f fun pl os => (pl.handleRead s os).pl).pl.Asleep s) := by
  obtain ⟨fd, hfd⟩ := h.fd
  obtain ⟨-, hsame, hiff⟩ := handleRead_fd hfd
    { f.os with readv := x.readv (x.pl.sockets s).rx.rxLen f.arrived }
  have hrx := (hsame.socket s).rx
  rw [setRx_rx_self] at hrx
  simp only [received, if_neg h.notListen] at hrx hiff
  obtain ⟨-, hqueue, -, -, hnone⟩ := h.read hroom f.arrived rfl rfl
  constructor
  · intro hasleep
    have hbytes := hnone (hiff.mp hasleep).2
    rw [hbytes, List.append_nil] at hqueue
    exact hrx.queue.trans hqueue
  · intro hbefore harrived
    refine hiff.mpr ⟨hbefore, ?_⟩
    simp only [harrived, Inlet.readv, Vectoring.read_err, decide_true, Bool.not_true, Bool.and_false]

/-- The handler of a thread that comes to wait in a read is that of the read. -/
theorem Connected.unblock (h : Connected s x) (hop : (x.pl.sockets s).block.op = .read)
    (hwait : (x.pl.threads t).status = .wait) (hs : (x.pl.threads t).waitingSocketPtr = some s)
    (f : Found) : (x.handled s f fun pl os => (pl.unblock t os).pl)
      = x.handled s f fun pl os => (pl.handleRead s os).pl := by
  have hunblock : ∀ os, x.pl.unblock t os = x.pl.handleRead s os := fun os => by
    rw [ProcLocal.unblock, hwait]
    dsimp only
    rw [hs]
    exact h.socketHandler hop os
  simp only [Inlet.handled, hunblock]

/-- A retry clears flags of the rings. -/
theorem unflagged_self (pl : ProcLocal) (s : Nat) :
    ∃ b b', (pl.unflagged s).sockets s = { pl.sockets s with
      rx := (pl.sockets s).rx.setRxBlocked b, tx := (pl.sockets s).tx.setTxBlocked b' } := by
  simp only [unflagged, unflagRx, unflagTx]
  split
  · split
    · exact ⟨false, false, by simp only [updSocket_sockets_self]⟩
    · refine ⟨false, (pl.sockets s).tx.txBlocked, ?_⟩
      rw [updSocket_sockets_self]
      rfl
  · split
    · refine ⟨(pl.sockets s).rx.rxBlocked, false, ?_⟩
      rw [updSocket_sockets_self]
      rfl
    · exact ⟨(pl.sockets s).rx.rxBlocked, (pl.sockets s).tx.txBlocked, rfl⟩

theorem wakes_answered (pl : ProcLocal) (s : Nat) (p : Retried) :
    Wakes 0 (fun _ => False) s pl ((answered pl s p).unflagged s) := by
  have hanswered : Wakes 0 (fun _ => False) s pl (answered pl s p) := by
    refine wakes_of_same rfl rfl rfl (fun a => ?_) fun a => ?_
    · rw [answered, ProcLocal.updBlock, updSocket_sockets]
      split
      · subst a
        rfl
      · rfl
    · rw [answered, blockedVk, ProcLocal.updBlock, updSocket_sockets]
      split
      · subst a
        rfl
      · rfl
  exact hanswered.trans fun _ => Machine.wakes_unflagged _ s s

/-- Before its handler, a retry takes the poller's answers and clears flags. -/
theorem Connected.unflagged (h : Connected s x) (p : Retried) :
    GoesOn s x ⟨(answered x.pl s p).unflagged s, x.unread⟩ ∧
      (((answered x.pl s p).unflagged s).sockets s).rx.rxLen = (x.pl.sockets s).rx.rxLen ∧
      (x.Fed s → Inlet.Fed ⟨(answered x.pl s p).unflagged s, x.unread⟩ s) := by
  obtain ⟨b, b', hsocket⟩ := unflagged_self (answered x.pl s p) s
  rw [answered, updBlock_self] at hsocket
  rw [← answered] at hsocket
  refine ⟨⟨⟨?_, ?_, ?_, ?_, ?_, ?_, (wakes_answered x.pl s p).queued h.queued⟩, ?_, ?_,
    (handles_unflagged _ s).mem⟩, ?_, ?_⟩
  all_goals simp only [Inlet.rest, Inlet.Fed, hsocket]
  · exact h.wf.setRxBlocked b
  · exact h.fd
  · exact h.notListen
  · exact h.silent
  · exact h.unpolled
  · exact h.ended
  · rfl
  · exact ⟨rfl, rfl, rfl, rfl⟩
  · rfl
  · exact id

/-- A retry whose ring has room.  It takes the socket out of the blocked queue. -/
theorem Connected.retry (h : Connected s x) (hop : (x.pl.sockets s).block.op = .read)
    (hroom : (x.pl.sockets s).rx.rxLen ≠ 0) (p : Retried) :
    GoesOn s x (x.retry s p) ∧ (p.found.arrived.isSome = true ∨ x.Fed s → (x.retry s p).Fed s) ∧
      s ∉ (x.retry s p).pl.blockedQ := by
  obtain ⟨hkeeps, hrxLen, hkeepsFed⟩ := h.unflagged p
  have hanswered : ((answered x.pl s p).sockets s).rx = (x.pl.sockets s).rx := by
    rw [answered, updBlock_self]
  generalize hpl : (answered x.pl s p).unflagged s = pl at hkeeps hrxLen hkeepsFed
  have hop' : (pl.sockets s).block.op = .read := by
    rw [← hop]
    exact hkeeps.place.op
  obtain ⟨hread, hfinds⟩ := hkeeps.connected.handleRead (by rw [hrxLen]; exact hroom) p.found
  -- the handler reads what the retry would
  have hretry : x.retry s p = ⟨(((Inlet.handled ⟨pl, x.unread⟩ s p.found fun pl os =>
      (pl.handleRead s os).pl).pl.dropBlocked s).enqueueRun ((answered x.pl s p).blockedVk s)),
      (Inlet.handled ⟨pl, x.unread⟩ s p.found fun pl os => (pl.handleRead s os).pl).unread⟩ := by
    have hrc : ∀ os, (pl.socketHandler s os).rc = 0 := fun os => by
      obtain ⟨fd, hfd⟩ : ∃ fd, (pl.sockets s).rxFd.ref = .osFd fd := hkeeps.connected.fd
      rw [hkeeps.connected.socketHandler hop']
      simp only [ProcLocal.handleRead, hfd, handled]
    have hroom' : ((answered x.pl s p).sockets s).rx.rxLen = (pl.sockets s).rx.rxLen := by
      rw [hanswered, hrxLen]
    simp only [Inlet.retry, Inlet.handled, retrySocket_eq, hpl, hrc, hroom']
    rw [if_neg (by decide), hkeeps.connected.socketHandler hop']
    rfl
  generalize Inlet.handled ⟨pl, x.unread⟩ s p.found (fun pl os => (pl.handleRead s os).pl) = y
    at hread hfinds hretry
  obtain ⟨hsettled, hfed⟩ := hread.connected.settle
    ((sameData_dropBlocked y.pl s).trans (settles_enqueueRun _ ((answered x.pl s p).blockedVk s)).toSameData)
    (Queued.enqueueRun (Queued.dropBlocked hread.connected.queued s) _)
  rw [hretry]
  refine ⟨hkeeps.trans (hread.trans hsettled), fun hany => hfed (hfinds (hany.imp_right hkeepsFed)), ?_⟩
  rw [enqueueRun_blockedQ, mem_dropBlocked_iff hread.connected.queued]
  exact fun hs => hs.2 rfl

theorem Connected.room (h : Connected s x) (hdrained : (x.pl.sockets s).rx.queue = []) :
    (x.pl.sockets s).rx.rxLen ≠ 0 := by
  have hpos := h.wf.bufLen_pos
  have hlen : (x.pl.sockets s).rx.txLen = 0 := by
    rw [← Vectoring.length_queue, hdrained]
    rfl
  rw [Vectoring.rxLen, hlen]
  omega

/-- A thread comes back waiting. -/
theorem Connected.waitOn (h : Connected s x) (t : Nat) :
    GoesOn s x ⟨x.pl.waitOn t s, x.unread⟩ := by
  have hself := Machine.waitOn_self x.pl t s
  refine ⟨⟨?_, ?_, ?_, ?_, ?_, ?_, (own_waitOn x.pl s).queued h.queued⟩, ?_, ?_, rfl⟩
  all_goals simp only [Inlet.rest]
  all_goals rw [hself]
  · exact h.wf
  · exact h.fd
  · exact h.notListen
  · exact h.silent
  · exact h.unpolled
  · exact h.ended
  · exact ⟨rfl, rfl, rfl, rfl⟩

/-- A thread that has come back waiting is set to run by its read, having found something,
or it waits on and has got nothing. -/
theorem Connected.ready_cases (h : Connected s x) (hdrained : (x.pl.sockets s).rx.queue = [])
    (hwait : (x.pl.threads t).status = .wait) (hvk : x.pl.blockedVk s = t) (f : Found) :
    let x' := x.handled s f fun pl os => (pl.handleRead s os).pl
    ((x'.pl.threads t).isReady = true → f.arrived.isSome = true) ∧
      ((x'.pl.threads t).isReady = false → (x'.pl.sockets s).rx.queue = []) := by
  intro x'
  have hhandles := handles_handleRead x.pl s
    { f.os with readv := x.readv (x.pl.sockets s).rx.rxLen f.arrived }
  have hvk' : x'.pl.blockedVk s = t := (hhandles.block s).blockedVk.trans hvk
  have hasleep' : x'.pl.Asleep s ↔ (x'.pl.threads t).status = .wait := by
    rw [Asleep, hvk']
  obtain ⟨hnothing, hblocks⟩ := h.asleep (h.room hdrained) f
  constructor
  · intro hready
    by_contra hnone
    have hasleep := hasleep'.mp (hblocks (by rw [Asleep, hvk, hwait]) (by simpa using hnone))
    rw [Thread.isReady, hasleep] at hready
    cases hready
  · intro hready
    have hstatus : (x'.pl.threads t).status = .wait := by
      rcases hhandles.status t with hsame | hrun
      · exact hsame.trans hwait
      · have hrun : (x'.pl.threads t).status = .run := hrun
        rw [Thread.isReady, hrun] at hready
        cases hready
    exact (hnothing (hasleep'.mpr hstatus)).trans hdrained

/-- `vk_wait` with the ring drained. -/
theorem Connected.wait (h : Connected s x) (hop : (x.pl.sockets s).block.op = .read)
    (hdrained : (x.pl.sockets s).rx.queue = []) (t : Nat) (w : Wake) :
    GoesOn s x (x.wait t s w) ∧ (w.finds = true → (x.wait t s w).Fed s) := by
  have hback := h.waitOn t
  have hthread : (x.pl.waitOn t s).threads t
      = { x.pl.threads t with waitingSocketPtr := some s, status := .wait } := by
    rw [Machine.waitOn_threads, if_pos rfl]
  have hself := Machine.waitOn_self x.pl t s
  have hvk : (x.pl.waitOn t s).blockedVk s = t := by rw [blockedVk, hself]
  have hdrained' : ((x.pl.waitOn t s).sockets s).rx.queue = [] := by
    rw [hself]
    exact hdrained
  have hop' : ((x.pl.waitOn t s).sockets s).block.op = .read := by
    rw [hself]
    exact hop
  have hunblock := hback.connected.unblock hop' (by rw [hthread]) (by rw [hthread]) w.unblock
  obtain ⟨hread, hfinds⟩ := hback.connected.handleRead (hback.connected.room hdrained') w.unblock
  obtain ⟨hready, hwaits⟩ := hback.connected.ready_cases hdrained' (by rw [hthread]) hvk w.unblock
  rw [Inlet.wait, hunblock]
  generalize Inlet.handled ⟨x.pl.waitOn t s, x.unread⟩ s w.unblock
    (fun pl os => (pl.handleRead s os).pl) = y at hread hfinds hready hwaits
  -- when it goes on it forgets the socket
  have hforgets : ∀ {z : Inlet}, Connected s z →
      GoesOn s z ⟨z.pl.updThread t fun that => { that with waitingSocketPtr := none }, z.unread⟩ ∧
        (z.Fed s → Inlet.Fed ⟨z.pl.updThread t fun that => { that with waitingSocketPtr := none },
          z.unread⟩ s) := fun {z} hz =>
    hz.settle (sameData_of_eq rfl rfl)
      ((own_updThread z.pl (f := fun that => { that with waitingSocketPtr := none })
        fun _ => rfl).queued hz.queued)
  split
  next hgo =>
    obtain ⟨hon, hfed⟩ := hforgets hread.connected
    exact ⟨hback.trans (hread.trans hon), fun _ => hfed (hfinds (Or.inl (hready hgo)))⟩
  next hstay =>
    have hstay : (y.pl.threads t).isReady = false := by simpa using hstay
    have hnone : w.unblock.arrived.isSome = true → y.Fed s := fun hsome => hfinds (Or.inl hsome)
    rcases w with ⟨unblock, _ | p⟩
    · -- another coroutine sets it to run
      obtain ⟨hrun, hrunFed⟩ := hread.connected.settle (settles_enqueueRun y.pl t).toSameData
        (Queued.enqueueRun hread.connected.queued t)
      obtain ⟨hon, hfed⟩ := hforgets hrun.connected
      refine ⟨hback.trans (hread.trans (hrun.trans hon)), fun hw => ?_⟩
      simp only [Wake.finds, Option.map_none, Option.getD_none, Bool.or_false] at hw
      exact hfed (hrunFed (hnone hw))
    · obtain ⟨hretry, hretryFed, -⟩ := hread.connected.retry
        ((hback.trans hread).place.op.trans hop) (hread.connected.room (hwaits hstay)) p
      obtain ⟨hon, hfed⟩ := hforgets hretry.connected
      refine ⟨hback.trans (hread.trans (hretry.trans hon)), fun hw => ?_⟩
      simp only [Wake.finds, Option.map_some, Option.getD_some, Bool.or_eq_true] at hw
      exact hfed (hretryFed (hw.symm.imp_right hnone))

end Handlers

/-! ## The loop -/

section Reading

variable {s t buf len : Nat} {pre stream : List UInt8} {x : Inlet}

/-- A call for `len` bytes into `buf` has the part `pre` of the stream. -/
structure Reading (s buf len : Nat) (stream pre : List UInt8) (x : Inlet) : Prop where
  connected : Connected s x
  op : (x.pl.sockets s).block.op = .read
  place : (x.pl.sockets s).block.buf = buf + pre.length
  committed : x.pl.committed s = pre.length
  uncommitted : x.pl.uncommitted s = len - pre.length
  within : pre.length ≤ len
  loaded : x.pl.mem.load buf pre.length = pre
  stream : pre ++ x.rest s = stream

/-- The call has got the next `len` bytes of the stream, or all where it has fewer, and
the rest is left. -/
structure Exact (s buf len : Nat) (stream : List UInt8) (x : Inlet) : Prop where
  committed : x.pl.committed s = min len stream.length
  loaded : x.pl.mem.load buf (min len stream.length) = stream.take len
  rest : x.rest s = stream.drop len

/-- It has no more than it was to get. -/
theorem Reading.length_le (h : Reading s buf len stream pre x) :
    pre.length ≤ min len stream.length := by
  rw [← h.stream, List.length_append]
  have hwithin := h.within
  omega

theorem Reading.goesOn (h : Reading s buf len stream pre x) {x' : Inlet} (hon : GoesOn s x x') :
    Reading s buf len stream pre x' where
  connected := hon.connected
  op := hon.place.op.trans h.op
  place := hon.place.buf.trans h.place
  committed := hon.place.copied.trans h.committed
  uncommitted := hon.place.len.trans h.uncommitted
  within := h.within
  loaded := by
    rw [hon.mem]
    exact h.loaded
  stream := by
    rw [hon.rest]
    exact h.stream

/-- What the call has, once nothing is left to get, is what it was to get. -/
theorem Reading.exact (h : Reading s buf len stream pre x)
    (hend : x.pl.uncommitted s = 0 ∨ x.rest s = []) : Exact s buf len stream x := by
  have hsplit : stream.take len = pre ∧ stream.drop len = x.rest s := by
    rw [← h.stream]
    have hwithin := h.within
    rcases hend with hall | hnone
    · have hlen : pre.length = len := by
        rw [h.uncommitted] at hall
        omega
      exact ⟨List.take_left' hlen, List.drop_left' hlen⟩
    · rw [hnone, List.append_nil]
      exact ⟨List.take_of_length_le hwithin, List.drop_of_length_le hwithin⟩
  have hlen : min len stream.length = pre.length := by rw [← List.length_take, hsplit.1]
  refine ⟨?_, ?_, hsplit.2.symm⟩
  · rw [hlen]
    exact h.committed
  · rw [hlen, hsplit.1]
    exact h.loaded

/-- A turn takes over what the ring has, as far as it was asked for. -/
theorem Reading.body (h : Reading s buf len stream pre x) :
    Reading s buf len stream (pre ++ (x.pl.sockets s).rx.queue.take (x.pl.uncommitted s))
      ((Inlet.readLoop s).body x) := by
  have hwf := h.connected.wf
  have hle : x.pl.recvCount s ≤ (x.pl.sockets s).rx.txLen := Nat.min_le_right _ _
  have hsent := hwf.markSent hle
  have hcommit := recvCommit_eq hwf
  have hcount : ((x.pl.sockets s).rx.queue.take (x.pl.uncommitted s)).length = x.pl.recvCount s := by
    rw [List.length_take, Vectoring.length_queue]
    rfl
  have htake : (x.pl.sockets s).rx.queue.take (x.pl.uncommitted s)
      = (x.pl.sockets s).rx.queue.take (x.pl.recvCount s) := by
    rw [recvCount, ← Vectoring.length_queue, List.take_eq_take_min]
  generalize (x.pl.sockets s).rx.queue.take (x.pl.uncommitted s) = chunk at hcommit hcount htake ⊢
  have hunc : x.pl.recvCount s ≤ x.pl.uncommitted s := Nat.min_le_left _ _
  have hlen := h.uncommitted
  have hwithin := h.within
  have hbody : ((Inlet.readLoop s).body x) = ⟨x.pl.recvCommit s, x.unread⟩ := rfl
  have hsocket : (x.pl.recvCommit s).sockets s = { x.pl.sockets s with
      rx := (x.pl.sockets s).rx.markSent (x.pl.recvCount s)
      block := { (x.pl.sockets s).block with
        rc := x.pl.recvCount s
        len := (x.pl.sockets s).block.len - x.pl.recvCount s
        buf := (x.pl.sockets s).block.buf + x.pl.recvCount s
        copied := (x.pl.sockets s).block.copied + x.pl.recvCount s } } := by
    rw [hcommit, updSocket_sockets_self]
  rw [hbody]
  refine ⟨⟨?_, ?_, ?_, ?_, ?_, ?_, ?_⟩, ?_, ?_, ?_, ?_, ?_, ?_, ?_⟩
  all_goals simp only [Inlet.rest, ProcLocal.committed, ProcLocal.uncommitted, hsocket,
    List.length_append, hcount, Block.getCommitted, Block.getUncommitted]
  · exact hsent.wf
  · exact h.connected.fd
  · exact h.connected.notListen
  · exact h.connected.silent
  · exact h.connected.unpolled
  · rw [hsent.flags.eof]
    exact h.connected.ended
  · exact (own_body (t := 0) x.pl .read s).queued h.connected.queued
  · exact h.op
  · rw [h.place, Nat.add_assoc]
  · exact congrArg (· + x.pl.recvCount s) h.committed
  · have hblock : (x.pl.sockets s).block.len = len - pre.length := hlen
    rw [hblock, Nat.sub_sub]
  · omega
  · rw [hcommit, updSocket_mem, Memory.load_add, h.place]
    congr 1
    · rw [Memory.load_store_of_disjoint _ _ _ _ _ (Or.inl (Nat.le_refl _)), h.loaded]
    · rw [← hcount, Memory.load_store]
  · have hrest : pre ++ ((x.pl.sockets s).rx.queue ++ x.unread) = stream := h.stream
    rw [hsent.queue, htake, List.append_assoc, ← List.append_assoc (List.take _ _),
      List.take_append_drop]
    exact hrest

/-- A turn that is asked for bytes leaves room in the ring. -/
theorem Reading.body_room (h : Reading s buf len stream pre x) (hpos : 0 < x.pl.uncommitted s) :
    (((Inlet.readLoop s).body x).pl.sockets s).rx.rxLen ≠ 0 := by
  have hwf := h.connected.wf
  have hle : x.pl.recvCount s ≤ (x.pl.sockets s).rx.txLen := Nat.min_le_right _ _
  have hsent := hwf.markSent hle
  have hrx : (((Inlet.readLoop s).body x).pl.sockets s).rx
      = (x.pl.sockets s).rx.markSent (x.pl.recvCount s) := by
    show ((x.pl.recvCommit s).sockets s).rx = _
    rw [recvCommit_eq hwf, updSocket_sockets_self]
  have hlen := congrArg List.length hsent.queue
  rw [List.length_drop, Vectoring.length_queue, Vectoring.length_queue] at hlen
  have hbound := hwf.txLen_le
  have hring := hwf.bufLen_pos
  rw [hrx, Vectoring.rxLen, hsent.flags.bufLen, hlen, recvCount]
  omega

/-- The socket of a call that has returned. -/
structure Read (s : Nat) (x : Inlet) : Prop where
  connected : Connected s x
  op : (x.pl.sockets s).block.op = .read
  roomy : Roomy s x

/-- The call is at its end: it was asked for no more, or there is no more. -/
theorem Reading.read (h : Reading s buf len stream pre x)
    (hroom : x.pl.uncommitted s = 0 → Roomy s x)
    (hend : x.pl.uncommitted s = 0 ∨ x.pl.pollhup s = true) :
    Read s x ∧ Exact s buf len stream x := by
  refine ⟨⟨h.connected, h.op, fun hq => ?_⟩, h.exact (hend.imp_right h.connected.rest_of_pollhup)⟩
  rcases hend with hall | hup
  · exact hroom hall hq
  · exact h.connected.room (h.connected.pollhup.mp hup).1

/-- One turn: the call returns with what it was to get, or it waits, its ring drained, and
has got something if there was something to get. -/
theorem Reading.turn (h : Reading s buf len stream pre x)
    (hroom : x.pl.uncommitted s = 0 → Roomy s x) {fed : Nat} (hfed : fed = 0 ∨ fed = 1 ∧ x.Fed s) :
    (∀ ws, Loop.Halts (Inlet.readLoop s) (Inlet.wait t s)
        (fun y _ => Read s y ∧ Exact s buf len stream y) x ws) ∨
      ∃ y pre', (Inlet.readLoop s).turn x = .wait y ∧ Reading s buf len stream pre' y ∧
        (y.pl.sockets s).rx.queue = [] ∧ 0 < y.pl.uncommitted s ∧
        pre.length + fed ≤ pre'.length := by
  have hbody := h.body
  have hnotest : ∀ {z : Inlet}, (Inlet.readLoop s).test z = false →
      z.pl.uncommitted s = 0 ∨ z.pl.pollhup s = true := fun {z} htest => by
    have htest : (!z.pl.pollhup s && decide (z.pl.uncommitted s > 0)) = false := htest
    simp only [Bool.and_eq_false_iff, Bool.not_eq_false', decide_eq_false_iff_not, Nat.not_lt,
      Nat.le_zero] at htest
    exact htest.symm
  have htests : (Inlet.readLoop s).test x = true → x.pl.pollhup s = false ∧ 0 < x.pl.uncommitted s :=
    fun htest => by
      have htest : (!x.pl.pollhup s && decide (x.pl.uncommitted s > 0)) = true := htest
      rw [Bool.and_eq_true, Bool.not_eq_true', decide_eq_true_eq] at htest
      exact htest
  have hturned := (Inlet.readLoop s).turned x
  generalize hturn : (Inlet.readLoop s).turn x = turn at hturned
  cases hturned with
  | left htest =>
      exact Or.inl fun ws => (Loop.halts_of_done hturn).mpr (h.read hroom (hnotest htest))
  | failed htest hfails =>
      have hrc : ((x.pl.recvCommit s).sockets s).block.rc = -1 := of_decide_eq_true hfails
      rw [recvCommit_eq h.connected.wf, updSocket_sockets_self] at hrc
      exact absurd hrc (by simp)
  | done htest hfails hleaves =>
      obtain ⟨-, hpos⟩ := htests htest
      exact Or.inl fun ws => (Loop.halts_of_done hturn).mpr
        (hbody.read (fun _ _ => h.body_room hpos) (Or.inr hleaves))
  | wait htest hfails hleaves hwaits =>
      obtain ⟨hup, hpos⟩ := htests htest
      have hleft : 0 < (x.pl.recvCommit s).uncommitted s := of_decide_eq_true hwaits
      refine Or.inr ⟨_, _, rfl, hbody, (recvCommit_drains h.connected.wf hleft).2, hleft, ?_⟩
      rw [List.length_append, List.length_take]
      rcases hfed with rfl | ⟨rfl, hqueue | heof⟩
      · omega
      · have hsome := List.length_pos_of_ne_nil hqueue
        omega
      · have hqueue : (x.pl.sockets s).rx.queue ≠ [] := fun hnil =>
          Bool.eq_false_iff.mp hup (h.connected.pollhup.mpr ⟨hnil, heof⟩)
        have hsome := List.length_pos_of_ne_nil hqueue
        omega
  | again htest hfails hleaves hwaits =>
      obtain ⟨-, hpos⟩ := htests htest
      have hall : ((Inlet.readLoop s).body x).pl.uncommitted s = 0 :=
        Nat.eq_zero_of_not_pos (of_decide_eq_false hwaits)
      have hnext : (Inlet.readLoop s).test ((Inlet.readLoop s).body x) = false := by
        show (_ && decide (_ > 0)) = false
        rw [hall]
        exact Bool.and_false _
      refine Or.inl fun ws => (Loop.halts_of_again hturn).mpr ?_
      exact (Loop.halts_of_done (Loop.turn_of_not_test _ hnext)).mpr
        (hbody.read (fun _ _ => h.body_room hpos) (Or.inl hall))

/-- However its waits go, a call returns with what it was to get, or it is left waiting;
then no more of the waits have found something than there were bytes to get. -/
theorem Reading.run (h : Reading s buf len stream pre x)
    (hroom : x.pl.uncommitted s = 0 → Roomy s x) {fed : Nat} (hfed : fed = 0 ∨ fed = 1 ∧ x.Fed s)
    (ws : List Wake) :
    Loop.Halts (Inlet.readLoop s) (Inlet.wait t s)
        (fun y _ => Read s y ∧ Exact s buf len stream y) x ws ∨
      (∃ n y, (Inlet.readLoop s).drive (Inlet.wait t s) n x ws = .waiting y) ∧
        ws.countP Wake.finds + pre.length + fed ≤ min len stream.length := by
  induction ws generalizing x pre fed with
  | nil =>
      rcases h.turn (t := t) hroom hfed with hhalts | ⟨y, pre', hturn, hy, -, -, hgot⟩
      · exact Or.inl (hhalts [])
      · refine Or.inr ⟨⟨1, y, by rw [Loop.drive, hturn]⟩, ?_⟩
        have hpart := hy.length_le
        rw [List.countP_nil]
        omega
  | cons w ws ih =>
      rcases h.turn (t := t) hroom hfed with hhalts | ⟨y, pre', hturn, hy, hdrained, hpos, hgot⟩
      · exact Or.inl (hhalts (w :: ws))
      · obtain ⟨hon, hfinds⟩ := hy.connected.wait hy.op hdrained t w
        have hnext : ((y.wait t s w).pl.uncommitted s = 0 → Roomy s (y.wait t s w)) := fun hzero => by
          rw [ProcLocal.uncommitted, Block.getUncommitted, hon.place.len] at hzero
          exact absurd hzero (Nat.ne_of_gt hpos)
        have hfed' : (w.finds.toNat = 0 ∨ w.finds.toNat = 1 ∧ (y.wait t s w).Fed s) := by
          cases hw : w.finds with
          | false => exact Or.inl rfl
          | true => exact Or.inr ⟨rfl, hfinds hw⟩
        rcases ih (hy.goesOn hon) hnext hfed' with hhalts | ⟨⟨n, z, hwaiting⟩, hcount⟩
        · exact Or.inl ((Loop.halts_of_wait hturn).mpr hhalts)
        · refine Or.inr ⟨⟨n + 1, z, by rw [Loop.drive, hturn]; exact hwaiting⟩, ?_⟩
          have hcons : (w :: ws).countP Wake.finds = ws.countP Wake.finds + w.finds.toNat := by
            rw [List.countP_cons]
            cases w.finds <;> rfl
          omega

end Reading

/-! ## Sessions -/

section Sessions

variable {s : Nat} {x y : Inlet}

/-- Socket `s` has been opened on a descriptor. -/
structure Opened (s : Nat) (x : Inlet) : Prop where
  init : ∃ socket blockedVk fd fdType txFd, fdType ≠ .socketListen ∧
    x.pl.sockets s = Socket.init socket s blockedVk (Pipe.initFd fd fdType) txFd
  unqueued : s ∉ x.pl.blockedQ
  queued : Queued x.pl

/-- `vk_init` opens a thread's socket. -/
theorem opened_initThread {pl : ProcLocal} (hq : Queued pl) {t : Nat} (ht : t ∉ pl.runQ)
    (hs : s ∉ pl.blockedQ) {fd : Int} {fdType : FdType} (htype : fdType ≠ .socketListen)
    (txFd : Pipe) (unread : List UInt8) :
    Opened s ⟨pl.initThread t s (Pipe.initFd fd fdType) txFd, unread⟩ where
  init := ⟨pl.sockets s, t, fd, fdType, txFd, htype, by
    show (pl.initThread t s _ _).sockets s = _
    rw [initThread, updThread_sockets, updSocket_sockets_self]⟩
  unqueued := hs
  queued := {
    run := fun a => by
      rw [initThread, updThread_threads]
      split
      next ha =>
        subst ha
        exact iff_of_false (by simp [Thread.init]) ht
      next => exact hq.run a
    runNodup := hq.runNodup
    blocked := fun a => by
      rw [initThread, updThread_sockets, updSocket_sockets]
      split
      next ha =>
        subst ha
        exact iff_of_false (by simp [Socket.init]) hs
      next => exact hq.blocked a
    blockedNodup := hq.blockedNodup }

/-- What goes on in the process leaves socket `s` alone. -/
structure Elsewhere (s : Nat) (pl pl' : ProcLocal) : Prop where
  socket : pl'.sockets s = pl.sockets s
  blocked : s ∈ pl'.blockedQ → s ∈ pl.blockedQ
  queued : Queued pl'

/-- Socket `s` has been opened, and only read operations have used it: calls that have
returned, and what the poller has retried between them. -/
inductive Session (s : Nat) : Inlet → Prop where
  | opened {x : Inlet} (h : Opened s x) : Session s x
  | read {x y : Inlet} {t buf len n : Nat} {ws ws' : List Wake} (h : Session s x)
      (hread : (Inlet.readLoop s).drive (Inlet.wait t s) n (x.beginRead s buf len) ws
        = .returned y ws') : Session s y
  | retry {x : Inlet} (h : Session s x) (hs : s ∈ x.pl.blockedQ) (p : Retried) :
      Session s (x.retry s p)
  | elsewhere {x : Inlet} {pl' : ProcLocal} (h : Session s x) (helse : Elsewhere s x.pl pl') :
      Session s ⟨pl', x.unread⟩

/-- Between calls a socket has EOF marked only at the stream's end, and where the poller
has it the ring has room for what a retry reads. -/
structure Served (s : Nat) (x : Inlet) : Prop where
  connected : Connected s x
  polled : s ∈ x.pl.blockedQ → (x.pl.sockets s).block.op = .read
  roomy : Roomy s x

theorem Opened.served (h : Opened s x) : Served s x := by
  obtain ⟨socket, blockedVk, fd, fdType, txFd, htype, hinit⟩ := h.init
  have hring : ∀ ring : Vectoring, (ring.init ring.bufStart Socket.bufLen).Wf := fun ring =>
    Vectoring.wf_init _ _ (by decide)
  refine ⟨⟨?_, ?_, ?_, ?_, ?_, ?_, h.queued⟩, fun hs => absurd hs h.unqueued,
    fun hs => absurd hs h.unqueued⟩
  all_goals rw [hinit]
  · exact hring socket.rx
  · exact ⟨fd, rfl⟩
  · exact htype
  · exact (hring socket.tx).isEmpty_iff.mpr rfl
  · rfl
  · exact fun heof => Bool.noConfusion (heof : false = true)

/-- A call begins. -/
theorem Served.reading (h : Served s x) (buf len : Nat) :
    Reading s buf len (x.rest s) [] (x.beginRead s buf len) ∧ Roomy s (x.beginRead s buf len) := by
  have hsocket : (x.beginRead s buf len).pl.sockets s
      = { x.pl.sockets s with block := (x.pl.sockets s).block.init buf len .read } :=
    updBlock_self x.pl s fun block => block.init buf len .read
  have hconnected := h.connected
  refine ⟨⟨⟨?_, ?_, ?_, ?_, ?_, ?_, ?_⟩, ?_, ?_, ?_, ?_, Nat.zero_le _, rfl, ?_⟩, fun hs => ?_⟩
  all_goals try simp only [Inlet.rest, ProcLocal.committed, ProcLocal.uncommitted, hsocket]
  · exact hconnected.wf
  · exact hconnected.fd
  · exact hconnected.notListen
  · exact hconnected.silent
  · exact hconnected.unpolled
  · exact hconnected.ended
  · exact (own_updBlock (t := 0) x.pl s fun block => block.init buf len .read).queued
      hconnected.queued
  · rfl
  · rfl
  · rfl
  · rfl
  · rfl
  · exact h.roomy hs

/-- Whatever has gone on, EOF is marked only at the stream's end. -/
theorem Session.served (h : Session s x) : Served s x := by
  induction h with
  | opened h => exact h.served
  | @read x y t buf len n ws ws' h hread ih =>
      obtain ⟨hreading, hroomy⟩ := ih.reading buf len
      rcases hreading.run (t := t) (fun _ => hroomy) (Or.inl rfl) ws with
        ⟨k, z, bs, hreturned, hz, -⟩ | ⟨⟨k, z, hwaiting⟩, -⟩
      · have hsame := Loop.drive_unique hread nofun hreturned nofun
        cases hsame
        exact ⟨hz.connected, fun _ => hz.op, hz.roomy⟩
      · exact absurd (Loop.drive_unique hread nofun hwaiting nofun) nofun
  | retry h hs p ih =>
      obtain ⟨hon, -, hout⟩ := ih.connected.retry (ih.polled hs) (ih.roomy hs) p
      exact ⟨hon.connected, fun hs' => absurd hs' hout, fun hs' => absurd hs' hout⟩
  | @elsewhere x pl' h helse ih =>
      have hconnected := ih.connected
      refine ⟨⟨?_, ?_, ?_, ?_, ?_, ?_, helse.queued⟩, fun hs => ?_, fun hs => ?_⟩
      all_goals rw [helse.socket]
      · exact hconnected.wf
      · exact hconnected.fd
      · exact hconnected.notListen
      · exact hconnected.silent
      · exact hconnected.unpolled
      · exact hconnected.ended
      · exact ih.polled (helse.blocked hs)
      · exact ih.roomy (helse.blocked hs)

/-- `vk_socket_read` of `len` bytes, however the stream comes: where it returns it has
stored the next `len` bytes of the stream, or all there are, and the rest is left in the
ring and behind it.  It does not go round forever or fail, and it returns once more waits
than there are bytes to get have found bytes or the end. -/
theorem read_exact (h : Session s x) (t buf len : Nat) (ws : List Wake) :
    (∀ n y ws', (Inlet.readLoop s).drive (Inlet.wait t s) n (x.beginRead s buf len) ws
        = .returned y ws' → Exact s buf len (x.rest s) y) ∧
      (∃ n y, (∃ ws', (Inlet.readLoop s).drive (Inlet.wait t s) n (x.beginRead s buf len) ws
          = .returned y ws') ∨
        (Inlet.readLoop s).drive (Inlet.wait t s) n (x.beginRead s buf len) ws = .waiting y) ∧
      (min len (x.rest s).length < ws.countP Wake.finds →
        ∃ n y ws', (Inlet.readLoop s).drive (Inlet.wait t s) n (x.beginRead s buf len) ws
          = .returned y ws') := by
  obtain ⟨hreading, hroomy⟩ := h.served.reading buf len
  rcases hreading.run (t := t) (fun _ => hroomy) (Or.inl rfl) ws with
    ⟨k, z, bs, hreturned, -, hexact⟩ | ⟨⟨k, z, hwaiting⟩, hcount⟩
  · refine ⟨fun n y ws' hread => ?_, ⟨k, z, Or.inl ⟨bs, hreturned⟩⟩, fun _ => ⟨k, z, bs, hreturned⟩⟩
    have hsame := Loop.drive_unique hread nofun hreturned nofun
    cases hsame
    exact hexact
  · refine ⟨fun n y ws' hread => ?_, ⟨k, z, Or.inr hwaiting⟩, fun hmany => ?_⟩
    · exact absurd (Loop.drive_unique hread nofun hwaiting nofun) nofun
    · exact absurd hmany (Nat.not_lt.mpr hcount)

/-- Four waits are enough for three bytes of five. -/
theorem read_exact_oneThread :
    ∃ n y ws', (Inlet.readLoop 0).drive (Inlet.wait 0 0) n
        (Inlet.beginRead ⟨oneThread, [97, 98, 99, 100, 101]⟩ 0 100 3)
        (List.replicate 4 ⟨⟨some 0, readAnswer (.err EAGAIN)⟩, none⟩) = .returned y ws' ∧
      Exact 0 100 3 [97, 98, 99, 100, 101] y := by
  have hqueued : Queued ProcLocal.init := by
    refine ⟨fun t => ?_, List.nodup_nil, fun s => ?_, List.nodup_nil⟩
    · exact iff_of_false nofun nofun
    · exact iff_of_false nofun nofun
  have hopened : Opened 0 ⟨oneThread, [97, 98, 99, 100, 101]⟩ :=
    opened_initThread hqueued nofun nofun (by decide) _ _
  obtain ⟨hexact, -, hreturns⟩ := read_exact (.opened hopened) 0 100 3
    (List.replicate 4 ⟨⟨some 0, readAnswer (.err EAGAIN)⟩, none⟩)
  obtain ⟨n, y, ws', hreturned⟩ := hreturns (by decide)
  exact ⟨n, y, ws', hreturned, hexact n y ws' hreturned⟩

end Sessions

end Vk

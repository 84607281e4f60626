/-
# `Mnvkd.AcceptQueue` — connections on their way to the listener

The receive ring of a listening socket holds no bytes of a stream.  Its handler accepts a
connection and puts the `struct vk_accepted` of it into the ring, and `vk_accept` of the
listener is a `vk_socket_read` of as many bytes as that structure has.  The ring may be of
any size, so records wrap, and there may be room for a part of one only.

What keeps them whole: nothing is accepted without the room for a record, a record is put
into the ring in one go, and a read that finds a record takes all of it and one that finds
none takes nothing.  So the ring is always a queue of records (`Orderly`), and what has been
accepted is what the calls of `vk_accept` have returned, in order, followed by that queue
(`accepts_delivered`).

The program is here as the listener sees it: the handler of its socket runs, when the
listener has come to wait and when the poller retries, the listener calls `vk_accept` and
goes on in it, and whatever else happens leaves the socket alone.
-/
import Mnvkd.Lib.Image
import Mnvkd.ReadExact

namespace Vk

open Lib ProcLocal

/-! ## Records -/

/-- `struct vk_accepted`, its pointers as addresses. -/
structure AcceptedRecord where
  fd : Int32
  address : Fin 128 → UInt8
  addressLen : UInt32
  addressStr : Fin 47 → UInt8
  portStr : Fin 6 → UInt8
  vkPtr : UInt64
  procPtr : UInt64

namespace AcceptedRecord

/-- `vk_accepted_get_fd`. -/
def getFd (accepted : AcceptedRecord) : Int := accepted.fd.toInt

/-- The structure as it lies in memory. -/
def image : Image AcceptedRecord :=
  (Image.int32.prod <| (Image.pad 4).prod <| (Image.array Image.byte 128).prod <|
    Image.uint32.prod <| (Image.array Image.byte 47).prod <| (Image.array Image.byte 6).prod <|
    (Image.pad 7).prod <| Image.uint64.prod Image.uint64).of
  (fun (fd, _, address, addressLen, addressStr, portStr, _, vkPtr, procPtr) =>
    ⟨fd, address, addressLen, addressStr, portStr, vkPtr, procPtr⟩)
  (fun a => (a.fd, (), a.address, a.addressLen, a.addressStr, a.portStr, (), a.vkPtr, a.procPtr))
  fun _ => rfl

theorem image_size : image.size = acceptedAllocSize := rfl

end AcceptedRecord

open AcceptedRecord (image image_size)

/-! ## The listener and its socket -/

/-- Where the listener stands: outside `vk_accept`, in it, or waiting in it.  The address
is where the record goes. -/
inductive AcceptCall where
  | idle
  | inside (acceptedPtr : Nat)
  | waiting (acceptedPtr : Nat)
  deriving DecidableEq, Repr

def AcceptCall.isInside : AcceptCall → Bool
  | .inside _ => true
  | .idle | .waiting _ => false

/-- The process, with what has been accepted and what `vk_accept` has returned: the
descriptor, and the record at the address it was given. -/
structure Accepting where
  pl : ProcLocal
  call : AcceptCall
  taken : List AcceptedRecord
  delivered : List (Int × AcceptedRecord)
  raised : Bool

/-- The answers of the system, `answer` being that of `vk_accepted_accept`. -/
def Os.accepting (os : Os) : SysResult AcceptedRecord → Os
  | .ok accepted => { os with accept := .ok (image.bytes accepted) }
  | .err e => { os with accept := .err e }

/-- What a handler of socket `s` accepts.  It does not ask where it is not to read, and
where there is too little room. -/
def accepts (socket : Socket) : SysResult AcceptedRecord → List AcceptedRecord
  | .ok accepted =>
      if socket.block.op = .read ∧ ¬socket.rx.rxLen < acceptedAllocSize then [accepted] else []
  | .err _ => []

/-- What `vk_socket_accept` leaves when its read is done: the result of the read, an `int`,
or the descriptor of the record that was read. -/
def accepted (pl : ProcLocal) (s acceptedPtr : Nat) : Int × AcceptedRecord :=
  let record := image.value (pl.mem.load acceptedPtr acceptedAllocSize)
  (if (Int32.ofNat (pl.committed s)).toInt = -1 then -1 else record.getFd, record)

namespace Accepting

/-- `vk_accept` begins. -/
def begin (x : Accepting) (s acceptedPtr : Nat) : Accepting :=
  { x with
    pl := x.pl.beginRead s acceptedPtr acceptedAllocSize
    call := .inside acceptedPtr }

/-- One turn of its loop, in thread `t`. -/
def turn (x : Accepting) (t s acceptedPtr : Nat) : Accepting :=
  match (readLoop s).turn x.pl with
  | .done pl =>
      { x with pl, call := .idle, delivered := x.delivered ++ [accepted pl s acceptedPtr] }
  | .again pl => { x with pl }
  | .wait pl => { x with pl := pl.waitOn t s, call := .waiting acceptedPtr }
  | .raise pl => { x with pl, call := .idle, raised := true }

/-- It goes on behind `vk_wait`. -/
def resume (x : Accepting) (t acceptedPtr : Nat) : Accepting :=
  { x with
    pl := x.pl.updThread t fun that => { that with waitingSocketPtr := none }
    call := .inside acceptedPtr }

/-- Thread `t` has come to wait, and its handler runs. -/
def unblock (x : Accepting) (t s : Nat) (os : Os) (answer : SysResult AcceptedRecord) :
    Accepting :=
  { x with
    pl := (x.pl.unblock t (os.accepting answer)).pl
    taken := x.taken ++ accepts (x.pl.sockets s) answer }

/-- The poller answers for the socket, and retries it. -/
def retry (x : Accepting) (s : Nat) (p : Retried) (answer : SysResult AcceptedRecord) :
    Accepting :=
  { x with
    pl := ((answered x.pl s p).retrySocket s (p.found.os.accepting answer)).pl
    taken := x.taken ++ accepts (x.pl.sockets s) answer }

/-- What may happen next.  Between one turn and the next of a call that does not wait
nothing else does. -/
inductive Step (s : Nat) (x : Accepting) : Accepting → Prop where
  | unblock (t : Nat) (os : Os) (answer : SysResult AcceptedRecord)
      (hout : x.call.isInside = false) (hwait : (x.pl.threads t).status = .wait)
      (hs : (x.pl.threads t).waitingSocketPtr = some s) : Step s x (x.unblock t s os answer)
  | retry (p : Retried) (answer : SysResult AcceptedRecord) (hout : x.call.isInside = false) :
      Step s x (x.retry s p answer)
  | rest (pl' : ProcLocal) (hout : x.call.isInside = false)
      (hsame : SameSocket (x.pl.sockets s) (pl'.sockets s)) : Step s x { x with pl := pl' }
  | begin (acceptedPtr : Nat) (hcall : x.call = .idle) : Step s x (x.begin s acceptedPtr)
  | turn (t acceptedPtr : Nat) (hcall : x.call = .inside acceptedPtr) :
      Step s x (x.turn t s acceptedPtr)
  | resume (t acceptedPtr : Nat) (hcall : x.call = .waiting acceptedPtr) :
      Step s x (x.resume t acceptedPtr)

end Accepting

/-! ## A queue of records -/

/-- The socket listens, and its receive ring holds these records and nothing else.  It has
nothing to send, and there is no EOF and no hang-up. -/
structure Listening (socket : Socket) (pending : List AcceptedRecord) : Prop where
  wf : socket.rx.Wf
  queue : socket.rx.queue = image.stream pending
  eof : socket.rx.eof = false
  fd : ∃ fd, socket.rxFd.ref = .osFd fd
  listens : socket.rxFd.fdType = .socketListen
  silent : socket.tx.isEmpty = true
  unpolled : socket.block.ioftRxRet.rxClosed = false
  op : socket.block.op = .none ∨ socket.block.op = .read

section Listening

variable {socket socket' : Socket} {pending : List AcceptedRecord} {pl : ProcLocal} {s t : Nat}

theorem Listening.same (h : Listening socket pending) (hsame : SameSocket socket socket') :
    Listening socket' pending where
  wf := hsame.rx.wf h.wf
  queue := hsame.rx.queue.trans h.queue
  eof := hsame.rx.eof.trans h.eof
  fd := by rw [hsame.rxRef]; exact h.fd
  listens := hsame.rxType.trans h.listens
  silent := hsame.tx.isEmpty.trans h.silent
  unpolled := by rw [hsame.block.ioftRxRet]; exact h.unpolled
  op := by rw [hsame.block.op]; exact h.op

/-- The ring holds a whole number of records. -/
theorem Listening.txLen (h : Listening socket pending) :
    socket.rx.txLen = pending.length * acceptedAllocSize := by
  rw [← Vectoring.length_queue, h.queue, Image.length_stream, image_size]

theorem Listening.pollhup (h : Listening (pl.sockets s) pending) : pl.pollhup s = false := by
  obtain ⟨fd, hfd⟩ := h.fd
  have hup : pl.hupSignalled s = false := by
    simp only [hupSignalled, Pipe.getSocket, hfd, h.eof, h.unpolled, Bool.false_and, Bool.or_false]
  rw [pollhup_eq, hup, Bool.and_false]

/-- An accept puts the record of the connection behind the others. -/
theorem Listening.accept (h : Listening socket pending) (hop : socket.block.op = .read) (os : Os)
    (answer : SysResult AcceptedRecord) (errno : Errno) {ring : Vectoring}
    (hring : (socket.rx.accept acceptedAllocSize (os.accepting answer).accept errno).ring = ring) :
    ring.Wf ∧ ring.queue = image.stream (pending ++ accepts socket answer) ∧ ring.eof = false := by
  subst hring
  by_cases hlt : socket.rx.rxLen < acceptedAllocSize
  · have hnone : accepts socket answer = [] := by
      cases answer with
      | err e => rfl
      | ok r => exact if_neg fun hroom => hroom.2 hlt
    rw [Vectoring.accept_of_lt hlt, hnone, List.append_nil]
    exact ⟨h.wf.setRxBlocked false, h.queue, h.eof⟩
  · cases answer with
    | err e =>
        simp only [Os.accepting, accepts, Vectoring.accept_err hlt, List.append_nil]
        exact ⟨h.wf.congr rfl rfl rfl rfl rfl (Int.natCast_nonneg e), h.queue, h.eof⟩
    | ok r =>
        have hone : accepts socket (.ok r) = [r] := if_pos ⟨hop, hlt⟩
        have hlen : (image.bytes r).length = acceptedAllocSize := image.length_bytes r
        have hnoeof : ¬(acceptedAllocSize > 0 ∧ socket.rx.eof = true) := by
          rw [h.eof]
          exact fun hboth => Bool.noConfusion hboth.2
        obtain ⟨-, hm⟩ := h.wf.accept_ok hlt hlen hnoeof errno
        rw [hone, Image.stream_append, Image.stream_singleton, ← h.queue]
        exact ⟨hm.wf, hm.queue, hm.flags.eof.trans h.eof⟩

/-- The handler of a listening socket accepts, or does nothing. -/
theorem Listening.socketHandler (h : Listening (pl.sockets s) pending) (os : Os)
    (answer : SysResult AcceptedRecord) {h' : Handled}
    (hh : pl.socketHandler s (os.accepting answer) = h') :
    h'.rc = 0 ∧ Listening (h'.pl.sockets s) (pending ++ accepts (pl.sockets s) answer) ∧
      SamePlace (pl.sockets s).block (h'.pl.sockets s).block := by
  subst hh
  obtain ⟨fd, hfd⟩ := h.fd
  rcases h.op with hop | hop
  · have hnone : accepts (pl.sockets s) answer = [] := by
      cases answer with
      | err e => rfl
      | ok r => exact if_neg fun hroom => by rw [hop] at hroom; exact Op.noConfusion hroom.1
    have hhandler : pl.socketHandler s (os.accepting answer) = ⟨pl, 0⟩ := by
      simp only [ProcLocal.socketHandler, hop]
    rw [hhandler, hnone, List.append_nil]
    exact ⟨rfl, h, ⟨rfl, rfl, rfl, rfl⟩⟩
  · obtain ⟨hrc, hdata, -⟩ := handleRead_fd hfd (os.accepting answer)
    have hsame := hdata.socket s
    have hrx := hsame.rx
    rw [setRx_rx_self] at hrx
    simp only [received, if_pos h.listens] at hrx
    obtain ⟨hwf, hqueue, heof⟩ := h.accept hop os answer pl.errno rfl
    have hsilent : ((pl.handleRead s (os.accepting answer)).pl.sockets s).tx.isEmpty = true :=
      hsame.tx.isEmpty.trans (by rw [setRx_tx]; exact h.silent)
    have hblock := hsame.block
    rw [setRx_block] at hblock
    have hlazy : lazyFlush ((pl.handleRead s (os.accepting answer)).pl.sockets s) = false := by
      rw [lazyFlush, Socket.emptyTx, hsilent, Bool.not_true, Bool.and_false]
    -- there is nothing to flush
    have hhandler : pl.socketHandler s (os.accepting answer)
        = pl.handleRead s (os.accepting answer) := by
      simp only [ProcLocal.socketHandler, hop, hlazy, Bool.false_eq_true, if_false, ite_self]
    rw [hhandler]
    refine ⟨hrc, ⟨hrx.wf hwf, hrx.queue.trans hqueue, hrx.eof.trans heof, ⟨fd, ?_⟩, ?_, hsilent,
      ?_, Or.inr (hblock.op.trans hop)⟩, hblock.place⟩
    · exact hsame.rxRef.trans (by rw [setRx_rxFd]; exact hfd)
    · exact hsame.rxType.trans (by rw [setRx_rxFd]; exact h.listens)
    · rw [hblock.ioftRxRet]
      exact h.unpolled

/-- So it does when the listener has come to wait. -/
theorem Listening.unblock (h : Listening (pl.sockets s) pending)
    (hwait : (pl.threads t).status = .wait) (hs : (pl.threads t).waitingSocketPtr = some s)
    (os : Os) (answer : SysResult AcceptedRecord) {pl' : ProcLocal}
    (hpl : (pl.unblock t (os.accepting answer)).pl = pl') :
    Listening (pl'.sockets s) (pending ++ accepts (pl.sockets s) answer) ∧
      SamePlace (pl.sockets s).block (pl'.sockets s).block := by
  have hunblock : pl.unblock t (os.accepting answer) = pl.socketHandler s (os.accepting answer) := by
    rw [ProcLocal.unblock, hwait]
    dsimp only
    rw [hs]
  rw [hunblock] at hpl
  subst hpl
  exact (h.socketHandler os answer rfl).2

/-- The poller's answers, and the flags a retry clears, leave the queue alone. -/
theorem Listening.unflagged (h : Listening (pl.sockets s) pending) (p : Retried) :
    Listening (((answered pl s p).unflagged s).sockets s) pending ∧
      SamePlace (pl.sockets s).block (((answered pl s p).unflagged s).sockets s).block ∧
      ∀ answer, accepts (((answered pl s p).unflagged s).sockets s) answer
        = accepts (pl.sockets s) answer := by
  obtain ⟨b, b', hsocket⟩ := unflagged_self (answered pl s p) s
  rw [answered, updBlock_self] at hsocket
  rw [← answered] at hsocket
  rw [hsocket]
  refine ⟨⟨h.wf.setRxBlocked b, h.queue, h.eof, h.fd, h.listens, h.silent, h.unpolled, h.op⟩,
    ⟨rfl, rfl, rfl, rfl⟩, fun answer => ?_⟩
  cases answer with
  | err e => rfl
  | ok r => rfl

theorem Listening.retry (h : Listening (pl.sockets s) pending) (p : Retried)
    (answer : SysResult AcceptedRecord) {pl' : ProcLocal}
    (hpl : ((answered pl s p).retrySocket s (p.found.os.accepting answer)).pl = pl') :
    Listening (pl'.sockets s) (pending ++ accepts (pl.sockets s) answer) ∧
      SamePlace (pl.sockets s).block (pl'.sockets s).block := by
  subst hpl
  obtain ⟨hclear, hplace, haccepts⟩ := h.unflagged p
  obtain ⟨hrc, hon, hplace'⟩ := hclear.socketHandler p.found.os answer rfl
  rw [haccepts] at hon
  rw [retrySocket_eq, hrc, if_neg (by decide)]
  -- what is settled behind the handler is no data of the socket
  have hsettled := ((sameData_dropBlocked
    (((answered pl s p).unflagged s).socketHandler s (p.found.os.accepting answer)).pl s).trans
    (settles_enqueueRun _ ((answered pl s p).blockedVk s)).toSameData).socket s
  exact ⟨hon.same hsettled, hplace.trans (hplace'.trans hsettled.block.place)⟩

end Listening

/-! ## The read of a record -/

/-- The read asks for a record, to be put at this address. -/
structure Asks (block : Block) (acceptedPtr : Nat) : Prop where
  buf : block.buf = acceptedPtr
  len : block.len = acceptedAllocSize
  copied : block.copied = 0

theorem Asks.same {block block' : Block} {acceptedPtr : Nat} (h : Asks block acceptedPtr)
    (hplace : SamePlace block block') : Asks block' acceptedPtr :=
  ⟨hplace.buf.trans h.buf, hplace.len.trans h.len, hplace.copied.trans h.copied⟩

/-- The read has got all of a record. -/
structure Got (pl : ProcLocal) (s acceptedPtr : Nat) (r : AcceptedRecord) : Prop where
  uncommitted : pl.uncommitted s = 0
  committed : pl.committed s = acceptedAllocSize
  mem : pl.mem.load acceptedPtr acceptedAllocSize = image.bytes r

section Read

variable {pl : ProcLocal} {s acceptedPtr : Nat} {r : AcceptedRecord} {pending : List AcceptedRecord}

/-- The body of the read takes a record from the ring, if there is one. -/
theorem Listening.recvCommit (h : Listening (pl.sockets s) pending)
    (hasks : Asks (pl.sockets s).block acceptedPtr) :
    Listening ((pl.recvCommit s).sockets s) pending.tail ∧
      (pl.recvCommit s).commitFailed s = false ∧
      (pending = [] → Asks ((pl.recvCommit s).sockets s).block acceptedPtr) ∧
      ∀ r rest, pending = r :: rest → Got (pl.recvCommit s) s acceptedPtr r := by
  have huncommitted : pl.uncommitted s = acceptedAllocSize := hasks.len
  have hcount : pl.recvCount s = min acceptedAllocSize (pending.length * acceptedAllocSize) := by
    rw [recvCount, huncommitted, h.txLen]
  have hle : pl.recvCount s ≤ (pl.sockets s).rx.txLen := Nat.min_le_right _ _
  have hmoved := h.wf.markSent hle
  have heq := @recvCommit_eq pl s h.wf
  have hself : (pl.recvCommit s).sockets s = { pl.sockets s with
      rx := (pl.sockets s).rx.markSent (pl.recvCount s)
      block := { (pl.sockets s).block with
        rc := pl.recvCount s
        len := (pl.sockets s).block.len - pl.recvCount s
        buf := (pl.sockets s).block.buf + pl.recvCount s
        copied := (pl.sockets s).block.copied + pl.recvCount s } } := by
    rw [heq, updSocket_sockets_self]
  have hmem : (pl.recvCommit s).mem = pl.mem.store acceptedPtr
      ((pl.sockets s).rx.queue.take acceptedAllocSize) := by
    rw [heq, ← hasks.buf, ← huncommitted]
    rfl
  have hfailed : (pl.recvCommit s).commitFailed s = false := by
    rw [commitFailed, hself]
    exact decide_eq_false (by show ¬((pl.recvCount s : Nat) : Int) = -1; omega)
  have hqueue : (pl.sockets s).rx.queue.drop (pl.recvCount s) = image.stream pending.tail := by
    rw [h.queue, hcount]
    cases pending with
    | nil => exact List.drop_nil
    | cons r rest =>
        have hmin : min acceptedAllocSize ((r :: rest).length * acceptedAllocSize)
            = image.size := by
          rw [List.length_cons, Nat.succ_mul, image_size]
          omega
        rw [hmin]
        exact image.drop_stream_cons r rest
  refine ⟨?_, hfailed, fun hnil => ?_, fun r rest hcons => ?_⟩
  · rw [hself]
    exact ⟨hmoved.wf, hmoved.queue.trans hqueue, hmoved.flags.eof.trans h.eof, h.fd, h.listens,
      h.silent, h.unpolled, h.op⟩
  · have hzero : pl.recvCount s = 0 := by
      rw [hcount, hnil, List.length_nil, Nat.zero_mul, Nat.min_zero]
    rw [hself, hzero]
    exact ⟨hasks.buf, hasks.len, hasks.copied⟩
  · have hall : pl.recvCount s = acceptedAllocSize := by
      rw [hcount, hcons, List.length_cons, Nat.succ_mul]
      omega
    refine ⟨?_, ?_, ?_⟩
    · rw [uncommitted, hself, Block.getUncommitted, hasks.len, hall, Nat.sub_self]
    · rw [committed, hself, Block.getCommitted, hasks.copied, hall, Nat.zero_add]
    · have htake : (pl.sockets s).rx.queue.take acceptedAllocSize = image.bytes r := by
        rw [h.queue, hcons]
        exact image.take_stream_cons r rest
      have hload := Memory.load_store pl.mem acceptedPtr (image.bytes r)
      rw [image.length_bytes, image_size] at hload
      rw [hmem, htake, hload]

/-- A read that asks for a record runs its body. -/
theorem Listening.asks_test (h : Listening (pl.sockets s) pending)
    (hasks : Asks (pl.sockets s).block acceptedPtr) : (readLoop s).test pl = true := by
  have hlen : pl.uncommitted s > 0 := by
    rw [uncommitted, Block.getUncommitted, hasks.len]
    decide
  simp only [readLoop, h.pollhup, hlen, Bool.not_false, decide_true, Bool.and_true]

/-- With no record there it waits. -/
theorem Listening.turn_nil (h : Listening (pl.sockets s) [])
    (hasks : Asks (pl.sockets s).block acceptedPtr) :
    (readLoop s).turn pl = .wait (pl.recvCommit s) := by
  obtain ⟨hon, hfailed, hstill, -⟩ := h.recvCommit hasks
  have hlen : (pl.recvCommit s).uncommitted s > 0 := by
    rw [uncommitted, Block.getUncommitted, (hstill rfl).len]
    decide
  exact (readLoop s).turn_eq_wait.mpr
    ⟨h.asks_test hasks, rfl, hfailed, hon.pollhup, decide_eq_true hlen⟩

/-- With a record there it has got all of it, and goes round. -/
theorem Listening.turn_cons {rest : List AcceptedRecord}
    (h : Listening (pl.sockets s) (r :: rest)) (hasks : Asks (pl.sockets s).block acceptedPtr) :
    (readLoop s).turn pl = .again (pl.recvCommit s) := by
  obtain ⟨hon, hfailed, -, hgot⟩ := h.recvCommit hasks
  have hlen : ¬(pl.recvCommit s).uncommitted s > 0 := by
    rw [(hgot r rest rfl).uncommitted]
    exact Nat.lt_irrefl 0
  have hleaves : (readLoop s).leaves ((readLoop s).body pl) = false := hon.pollhup
  have hfails : (readLoop s).fails ((readLoop s).body pl) = false := hfailed
  have hwaits : (readLoop s).waits ((readLoop s).body pl) = false := decide_eq_false hlen
  rw [Loop.turn, h.asks_test hasks, hfails, hleaves, hwaits]
  rfl

/-- Then it is done. -/
theorem Got.turn (h : Got pl s acceptedPtr r) : (readLoop s).turn pl = .done pl := by
  refine (readLoop s).turn_of_not_test ?_
  have hlen : ¬pl.uncommitted s > 0 := by
    rw [h.uncommitted]
    exact Nat.lt_irrefl 0
  simp only [readLoop, hlen, decide_false, Bool.and_false]

/-- What `vk_accept` returns is the record and its descriptor. -/
theorem Got.accepted (h : Got pl s acceptedPtr r) :
    accepted pl s acceptedPtr = (r.getFd, r) := by
  have hvalue := image.value_bytes r []
  rw [List.append_nil] at hvalue
  have hrc : ¬(Int32.ofNat acceptedAllocSize).toInt = -1 := by decide
  simp only [Vk.accepted, h.mem, hvalue, h.committed, if_neg hrc]

end Read

/-! ## Every order of events -/

namespace Accepting

/-- Where the call stands, `held` being the record it has taken from the ring. -/
def Place (pl : ProcLocal) (s : Nat) (held : List AcceptedRecord) : AcceptCall → Prop
  | .idle => held = []
  | .waiting acceptedPtr => held = [] ∧ Asks (pl.sockets s).block acceptedPtr
  | .inside acceptedPtr =>
      (held = [] ∧ Asks (pl.sockets s).block acceptedPtr) ∨
        ∃ r, held = [r] ∧ Got pl s acceptedPtr r

/-- What has been accepted is what `vk_accept` has returned, what it holds, and what is in
the ring. -/
structure Orderly (s : Nat) (x : Accepting) (held pending : List AcceptedRecord) : Prop where
  listening : Listening (x.pl.sockets s) pending
  place : Place x.pl s held x.call
  taken : x.taken = x.delivered.map Prod.snd ++ held ++ pending
  own : ∀ d ∈ x.delivered, d.1 = d.2.getFd
  calm : x.raised = false

/-- A new listener: its socket has been opened, and nothing has been accepted yet. -/
structure Opened (s : Nat) (x : Accepting) : Prop where
  listening : Listening (x.pl.sockets s) []
  call : x.call = .idle
  taken : x.taken = []
  delivered : x.delivered = []
  raised : x.raised = false

section Steps

variable {s t acceptedPtr : Nat} {x x' : Accepting} {held pending : List AcceptedRecord}

theorem Opened.orderly (h : Opened s x) : Orderly s x [] [] where
  listening := h.listening
  place := by rw [h.call]; exact rfl
  taken := by rw [h.taken, h.delivered]; rfl
  own := by rw [h.delivered]; exact fun d hd => absurd hd List.not_mem_nil
  calm := h.raised

/-- A call that is outside or waits holds nothing, and is not disturbed where its block is
left alone. -/
theorem Place.out {pl pl' : ProcLocal} {call : AcceptCall} (h : Place pl s held call)
    (hout : call.isInside = false) (hplace : SamePlace (pl.sockets s).block (pl'.sockets s).block) :
    held = [] ∧ Place pl' s held call := by
  cases call with
  | idle => exact ⟨h, h⟩
  | waiting acceptedPtr => exact ⟨h.1, h.1, h.2.same hplace⟩
  | inside acceptedPtr => exact Bool.noConfusion hout

/-- Outside a call, a handler or the rest of the program may add records to the ring. -/
theorem Orderly.out (h : Orderly s x held pending) (hout : x.call.isInside = false)
    {pl' : ProcLocal} {new : List AcceptedRecord}
    (hon : Listening (pl'.sockets s) (pending ++ new))
    (hplace : SamePlace (x.pl.sockets s).block (pl'.sockets s).block) :
    Orderly s { x with pl := pl', taken := x.taken ++ new } held (pending ++ new) where
  listening := hon
  place := (h.place.out hout hplace).2
  taken := by rw [h.taken, List.append_assoc]
  own := h.own
  calm := h.calm

theorem Orderly.begin (h : Orderly s x held pending) (hcall : x.call = .idle) :
    Orderly s (x.begin s acceptedPtr) held pending := by
  have hheld : held = [] := by
    have hplace := h.place
    rw [hcall] at hplace
    exact hplace
  have hself : ((x.begin s acceptedPtr).pl.sockets s)
      = { x.pl.sockets s with
          block := (x.pl.sockets s).block.init acceptedPtr acceptedAllocSize .read } :=
    updBlock_self x.pl s fun block => block.init acceptedPtr acceptedAllocSize .read
  have hold := h.listening
  refine ⟨?_, Or.inl ⟨hheld, ?_⟩, h.taken, h.own, h.calm⟩
  · rw [hself]
    exact ⟨hold.wf, hold.queue, hold.eof, hold.fd, hold.listens, hold.silent, hold.unpolled,
      Or.inr rfl⟩
  · rw [hself]
    exact ⟨rfl, rfl, rfl⟩

theorem Orderly.resume (h : Orderly s x held pending) (hcall : x.call = .waiting acceptedPtr) :
    Orderly s (x.resume t acceptedPtr) held pending := by
  have hplace := h.place
  rw [hcall] at hplace
  exact ⟨h.listening, Or.inl hplace, h.taken, h.own, h.calm⟩

/-- A turn that finds no record comes to wait. -/
theorem Orderly.turn_nil (h : Orderly s x [] []) (hasks : Asks (x.pl.sockets s).block acceptedPtr) :
    (x.turn t s acceptedPtr).call = .waiting acceptedPtr ∧
      Orderly s (x.turn t s acceptedPtr) [] [] := by
  have hturn : x.turn t s acceptedPtr = { x with
      pl := (x.pl.recvCommit s).waitOn t s, call := .waiting acceptedPtr } := by
    simp only [turn, h.listening.turn_nil hasks]
  obtain ⟨hon, -, hstill, -⟩ := h.listening.recvCommit hasks
  have hself := Machine.waitOn_self (x.pl.recvCommit s) t s
  have hasks' := hstill rfl
  rw [hturn]
  refine ⟨rfl, ?_, ⟨rfl, ?_⟩, h.taken, h.own, h.calm⟩
  · rw [hself]
    exact ⟨hon.wf, hon.queue, hon.eof, hon.fd, hon.listens, hon.silent, hon.unpolled, hon.op⟩
  · rw [hself]
    exact ⟨hasks'.buf, hasks'.len, hasks'.copied⟩

/-- A turn that finds one takes it. -/
theorem Orderly.turn_cons {r : AcceptedRecord} {rest : List AcceptedRecord}
    (h : Orderly s x [] (r :: rest)) (hcall : x.call = .inside acceptedPtr)
    (hasks : Asks (x.pl.sockets s).block acceptedPtr) :
    (x.turn t s acceptedPtr).call = .inside acceptedPtr ∧
      (x.turn t s acceptedPtr).delivered = x.delivered ∧
      Orderly s (x.turn t s acceptedPtr) [r] rest := by
  have hturn : x.turn t s acceptedPtr = { x with pl := x.pl.recvCommit s } := by
    simp only [turn, h.listening.turn_cons hasks]
  obtain ⟨hon, -, -, hgot⟩ := h.listening.recvCommit hasks
  rw [hturn]
  refine ⟨hcall, rfl, hon, ?_, ?_, h.own, h.calm⟩
  · show Place _ s [r] x.call
    rw [hcall]
    exact Or.inr ⟨r, rfl, hgot r rest rfl⟩
  · show x.taken = _
    rw [h.taken, List.append_nil, List.append_assoc]
    rfl

/-- The turn after that returns it. -/
theorem Orderly.turn_got {r : AcceptedRecord} (h : Orderly s x [r] pending)
    (hgot : Got x.pl s acceptedPtr r) :
    (x.turn t s acceptedPtr).call = .idle ∧
      (x.turn t s acceptedPtr).delivered = x.delivered ++ [(r.getFd, r)] ∧
      Orderly s (x.turn t s acceptedPtr) [] pending := by
  have hturn : x.turn t s acceptedPtr = { x with
      call := .idle, delivered := x.delivered ++ [(r.getFd, r)] } := by
    simp only [turn, hgot.turn, hgot.accepted]
  rw [hturn]
  refine ⟨rfl, rfl, h.listening, rfl, ?_, ?_, h.calm⟩
  · show x.taken = _
    rw [h.taken, List.map_append, List.append_nil]
    rfl
  · intro d hd
    rcases List.mem_append.mp hd with hd | hd
    · exact h.own d hd
    · rw [List.mem_singleton.mp hd]

/-- One turn of a call. -/
theorem Orderly.turn (h : Orderly s x held pending) (hcall : x.call = .inside acceptedPtr) :
    ∃ held' pending', Orderly s (x.turn t s acceptedPtr) held' pending' := by
  have hplace := h.place
  rw [hcall] at hplace
  rcases hplace with ⟨rfl, hasks⟩ | ⟨r, rfl, hgot⟩
  · cases pending with
    | nil => exact ⟨_, _, (h.turn_nil hasks).2⟩
    | cons r rest => exact ⟨_, _, (h.turn_cons hcall hasks).2.2⟩
  · exact ⟨_, _, (h.turn_got hgot).2.2⟩

/-- Whatever happens next, the ring stays a queue of records and nothing is lost. -/
theorem Orderly.step (h : Orderly s x held pending) (hstep : Step s x x') :
    ∃ held' pending', Orderly s x' held' pending' := by
  cases hstep with
  | unblock t os answer hout hwait hs =>
      obtain ⟨hon, hplace⟩ := h.listening.unblock hwait hs os answer rfl
      exact ⟨_, _, h.out hout hon hplace⟩
  | retry p answer hout =>
      obtain ⟨hon, hplace⟩ := h.listening.retry p answer rfl
      exact ⟨_, _, h.out hout hon hplace⟩
  | rest pl' hout hsame =>
      have hon : Listening (pl'.sockets s) (pending ++ []) := by
        rw [List.append_nil]
        exact h.listening.same hsame
      have hrest := h.out hout hon hsame.block.place
      rw [List.append_nil, List.append_nil] at hrest
      exact ⟨_, _, hrest⟩
  | begin acceptedPtr hcall => exact ⟨_, _, h.begin hcall⟩
  | turn t acceptedPtr hcall => exact h.turn hcall
  | resume t acceptedPtr hcall => exact ⟨_, _, h.resume hcall⟩

theorem Opened.run (h : Opened s x) (hrun : Relation.ReflTransGen (Step s) x x') :
    ∃ held pending, Orderly s x' held pending := by
  induction hrun with
  | refl => exact ⟨_, _, h.orderly⟩
  | tail _ hstep ih =>
      obtain ⟨held, pending, hx⟩ := ih
      exact hx.step hstep

/-- The turns of a call that holds a record, or finds one in the ring, return it. -/
theorem Orderly.returns {r : AcceptedRecord} {rest : List AcceptedRecord}
    (h : Orderly s x held pending) (hcall : x.call = .inside acceptedPtr)
    (hnext : held ++ pending = r :: rest) (t : Nat) :
    ∃ n, ((fun y : Accepting => y.turn t s acceptedPtr)^[n] x).call = .idle ∧
      ((fun y : Accepting => y.turn t s acceptedPtr)^[n] x).delivered
        = x.delivered ++ [(r.getFd, r)] := by
  have hplace := h.place
  rw [hcall] at hplace
  rcases hplace with ⟨rfl, hasks⟩ | ⟨r', rfl, hgot⟩
  · obtain rfl : pending = r :: rest := hnext
    obtain ⟨hinside, hsame, hholds⟩ := h.turn_cons (t := t) hcall hasks
    have hplace := hholds.place
    rw [hinside] at hplace
    rcases hplace with ⟨hnone, -⟩ | ⟨r', hone, hgot⟩
    · exact absurd hnone (List.cons_ne_nil r [])
    · obtain rfl : r = r' := (List.cons.inj hone).1
      obtain ⟨hidle, hdelivered, -⟩ := hholds.turn_got (t := t) hgot
      rw [hsame] at hdelivered
      exact ⟨2, hidle, hdelivered⟩
  · obtain rfl : r' = r := (List.cons.inj hnext).1
    obtain ⟨hidle, hdelivered, -⟩ := h.turn_got (t := t) hgot
    exact ⟨1, hidle, hdelivered⟩

/-- The turn of a call for which there is none comes to wait. -/
theorem Orderly.waits (h : Orderly s x held pending) (hcall : x.call = .inside acceptedPtr)
    (hnone : held ++ pending = []) (t : Nat) :
    (x.turn t s acceptedPtr).call = .waiting acceptedPtr := by
  obtain ⟨rfl, rfl⟩ := List.append_eq_nil_iff.mp hnone
  have hplace := h.place
  rw [hcall] at hplace
  rcases hplace with ⟨-, hasks⟩ | ⟨r, hone, -⟩
  · exact (h.turn_nil hasks).1
  · exact absurd hone.symm (List.cons_ne_nil r [])

end Steps

/-- **Every connection that is accepted is delivered, once and in order.**  However the
handler's accepts, the poller's retries and the listener's calls of `vk_accept` follow each
other, the receive ring holds whole records and nothing else; what has been accepted is
what `vk_accept` has returned, each record with its own descriptor, then what a call has
just taken from the ring, then the records in the ring; and a call that goes on returns the
first of those that it has not returned yet, or waits if there is none. -/
theorem accepts_delivered {s : Nat} {x₀ x : Accepting} (h₀ : Opened s x₀)
    (hrun : Relation.ReflTransGen (Step s) x₀ x) :
    x.raised = false ∧ ∃ held pending : List AcceptedRecord,
      (x.pl.sockets s).rx.queue = image.stream pending ∧
      (x.pl.sockets s).rx.txLen = pending.length * acceptedAllocSize ∧
      x.taken = x.delivered.map Prod.snd ++ held ++ pending ∧
      (∀ d ∈ x.delivered, d.1 = d.2.getFd) ∧
      (x.call.isInside = false → held = []) ∧
      ∀ acceptedPtr t, x.call = .inside acceptedPtr →
        (held ++ pending = [] → (x.turn t s acceptedPtr).call = .waiting acceptedPtr) ∧
        ∀ r rest, held ++ pending = r :: rest →
          ∃ n, ((fun y : Accepting => y.turn t s acceptedPtr)^[n] x).call = .idle ∧
            ((fun y : Accepting => y.turn t s acceptedPtr)^[n] x).delivered
              = x.delivered ++ [(r.getFd, r)] := by
  obtain ⟨held, pending, hx⟩ := h₀.run hrun
  refine ⟨hx.calm, held, pending, hx.listening.queue, hx.listening.txLen, hx.taken, hx.own,
    fun hout => (hx.place.out hout ⟨rfl, rfl, rfl, rfl⟩).1, fun acceptedPtr t hcall => ?_⟩
  exact ⟨fun hnone => hx.waits hcall hnone t, fun r rest hnext => hx.returns hcall hnext t⟩

/-- A thread whose socket has been initialised, and then opened to listen at `fd`. -/
def listener (pl : ProcLocal) (t s : Nat) (fd : Int) : Accepting where
  pl := (pl.initThread t s (Pipe.initFd 0 .socketStream) (Pipe.initFd 1 .socketStream)).updSocket s
    fun socket => { socket with rxFd := Pipe.initFd fd .socketListen }
  call := .idle
  taken := []
  delivered := []
  raised := false

theorem opened_listener (pl : ProcLocal) (t s : Nat) (fd : Int) :
    Opened s (listener pl t s fd) := by
  have hself : (listener pl t s fd).pl.sockets s =
      { (pl.sockets s).init s t (Pipe.initFd 0 .socketStream) (Pipe.initFd 1 .socketStream) with
        rxFd := Pipe.initFd fd .socketListen } := by
    simp only [listener, initThread, updSocket_sockets_self, updThread_sockets]
  refine ⟨?_, rfl, rfl, rfl, rfl⟩
  rw [hself]
  have hpos : 0 < Socket.bufLen := by decide
  exact ⟨Vectoring.wf_init _ _ hpos, Vectoring.queue_init _ _ _, rfl, ⟨fd, rfl⟩, rfl,
    (Vectoring.wf_init _ _ hpos).isEmpty_iff.mpr (Vectoring.queue_init _ _ _), rfl, Or.inl rfl⟩

/-- A listener on descriptor 3 calls `vk_accept` and has come to wait. -/
def firstWait : Accepting := ((listener ProcLocal.init 0 0 3).begin 0 100).turn 0 0 100

/-- The record of a connection on descriptor 5, and of no address. -/
def fifth : AcceptedRecord := ⟨5, fun _ => 0, 16, fun _ => 0, fun _ => 0, 0, 0⟩

/-- It is accepted, and the listener goes on. -/
def firstAccepted : Accepting :=
  (((firstWait.unblock 0 0 ⟨.err 0, .err 0, .err 0, .ok (), .ok ()⟩ (.ok fifth)).resume 0 100).turn
    0 0 100).turn 0 0 100

/-- Its `vk_accept` has returned the connection. -/
theorem accepts_delivered_first : firstAccepted.delivered = [(5, fifth)] := by
  have hrun : Relation.ReflTransGen (Step 0) (listener ProcLocal.init 0 0 3) firstAccepted := by
    refine .tail (.tail (.tail (.tail (.tail (.tail .refl (.begin 100 rfl)) (.turn 0 100 rfl))
      (.unblock 0 _ (.ok fifth) ?_ ?_ ?_)) (.resume 0 100 ?_)) (.turn 0 100 rfl)) (.turn 0 100 ?_)
    all_goals decide
  obtain ⟨-, held, pending, -, hlen, htaken, hown, hout, -⟩ :=
    accepts_delivered (opened_listener ProcLocal.init 0 0 3) hrun
  have hone : firstAccepted.taken = [fifth] := by
    have hroom : (firstWait.pl.sockets 0).block.op = .read ∧
        ¬(firstWait.pl.sockets 0).rx.rxLen < acceptedAllocSize := by decide
    have htaken : firstAccepted.taken = [] ++ accepts (firstWait.pl.sockets 0) (.ok fifth) := rfl
    rw [htaken, accepts, if_pos hroom, List.nil_append]
  have hheld : held = [] := hout (by decide)
  have hpending : pending = [] := by
    have hempty : (firstAccepted.pl.sockets 0).rx.txLen = 0 := by decide
    rw [hempty, eq_comm, Nat.mul_eq_zero] at hlen
    exact List.length_eq_zero_iff.mp (hlen.resolve_right (by decide))
  rw [hone, hheld, hpending, List.append_nil, List.append_nil] at htaken
  obtain ⟨d, hd, hrecord⟩ := List.map_eq_singleton_iff.mp htaken.symm
  have hfd := hown d (by rw [hd]; exact List.mem_singleton_self d)
  rw [hrecord] at hfd
  have hpair : d = (5, fifth) := Prod.ext hfd hrecord
  rw [hd, hpair]

end Accepting

end Vk

/-
# `Mnvkd.Vectoring` — the ring buffer of `vk_vectoring.c`

A `struct vk_vectoring` is a buffer of `buf_len` bytes of which `tx_len`, from
`tx_cursor` on, are queued; the rest is room to receive.  Both parts wrap past
the end, so each is kept as a pair of `struct iovec`, recomputed from cursor
and length by `vk_vectoring_sync` and used by every transfer.

Every function of the file that moves bytes or sets a flag is here under its
own name.  `size_t` is `Nat`: every sum the file takes is bounded by the length
of one object.  A return value of `-1` leaves an `errno`; the functions that
can set it take it and give it back in an `Io`.
-/
import Mnvkd.Sys

namespace Vk

open Lib Errno

/-- `struct iovec`, its base as an offset into the ring's buffer.  `none` is the
empty literal the second vector points to when it has no part. -/
structure Iovec where
  base : Option Nat
  len : Nat
  deriving DecidableEq, Repr

def Iovec.addr (v : Iovec) : Nat := v.base.getD 0

/-- `struct iovec vectors[2]`. -/
structure Iovecs where
  v0 : Iovec
  v1 : Iovec
  deriving DecidableEq, Repr

/-- `struct vk_vectoring`. -/
structure Vectoring where
  bufStart : Memory UInt8
  bufLen : Nat
  txCursor : Nat
  txLen : Nat
  vectorTx : Iovecs
  vectorRx : Iovecs
  error : Int
  eof : Bool
  closed : Bool
  rxBlocked : Bool
  txBlocked : Bool
  effect : Bool

/-- What a ring operation leaves: the ring, the value returned, and `errno`. -/
structure Io where
  ring : Vectoring
  rc : Int
  errno : Errno

/-! ## The segment views -/

def iovecSync (bufLen cursor len : Nat) : Iovecs :=
  if cursor + len > bufLen then
    -- wrapped
    ⟨⟨some cursor, bufLen - cursor⟩, ⟨some 0, len - (bufLen - cursor)⟩⟩
  else
    ⟨⟨some cursor, len⟩, ⟨none, 0⟩⟩

def iovecLen (vectors : Iovecs) : Nat := vectors.v0.len + vectors.v1.len

namespace Vectoring

def rxCursor (ring : Vectoring) : Nat := (ring.txCursor + ring.txLen) % ring.bufLen

def rxLen (ring : Vectoring) : Nat := ring.bufLen - ring.txLen

def sync (ring : Vectoring) : Vectoring :=
  { ring with
    vectorRx := iovecSync ring.bufLen ring.rxCursor ring.rxLen
    vectorTx := iovecSync ring.bufLen ring.txCursor ring.txLen }

/-- A ring in memory that has been cleared and not initialised yet. -/
def cleared : Vectoring where
  bufStart := fun _ => 0
  bufLen := 0
  txCursor := 0
  txLen := 0
  vectorTx := ⟨⟨none, 0⟩, ⟨none, 0⟩⟩
  vectorRx := ⟨⟨none, 0⟩, ⟨none, 0⟩⟩
  error := 0
  eof := false
  closed := false
  rxBlocked := false
  txBlocked := false
  effect := false

/-- The number of bytes queued to transmit. -/
def vectorTxLen (ring : Vectoring) : Nat := iovecLen ring.vectorTx

/-- The number of empty bytes to receive into. -/
def vectorRxLen (ring : Vectoring) : Nat := iovecLen ring.vectorRx

/-- `vk_vectoring_init`: a ring around the buffer at `start`.  It leaves
`closed` as it finds it. -/
def init (ring : Vectoring) (start : Memory UInt8) (len : Nat) : Vectoring :=
  { sync { ring with bufStart := start, bufLen := len, txCursor := 0, txLen := 0 } with
    error := 0, eof := false, rxBlocked := false, txBlocked := false, effect := false }

/-! ## Flags -/

def setRxBlocked (ring : Vectoring) (rxBlocked : Bool) : Vectoring :=
  { ring with rxBlocked := rxBlocked }

def setTxBlocked (ring : Vectoring) (txBlocked : Bool) : Vectoring :=
  { ring with txBlocked := txBlocked }

def isEmpty (ring : Vectoring) : Bool := ring.vectorTxLen == 0

/-- EOF, and no bytes left before it. -/
def hasNodata (ring : Vectoring) : Bool := ring.eof && ring.isEmpty

/-- `vk_vectoring_handle_effect`: return the effect and clear it. -/
def handleEffect (ring : Vectoring) : Vectoring × Bool := ({ ring with effect := false }, ring.effect)

def clearEof (ring : Vectoring) : Vectoring :=
  if ring.eof then { ring with eof := false, effect := true } else ring

def markEof (ring : Vectoring) : Vectoring :=
  if ring.eof then ring else { ring with effect := true, eof := true }

def markClosed (ring : Vectoring) : Vectoring :=
  if ring.closed then ring else { ring with effect := true, closed := true }

/-! ## Marking transfers -/

def markReceived (ring : Vectoring) (received : Nat) : Vectoring :=
  if received = 0 then ring
  else
    let ring :=
      if received < ring.rxLen then
        sync { ring with txLen := (ring.txLen + received) % ring.bufLen }
      else if received = ring.rxLen then
        sync { ring with txLen := ring.bufLen }
      else
        { ring with error := ENOBUFS }
    { ring with effect := true }

def markSent (ring : Vectoring) (sent : Nat) : Vectoring :=
  if sent = 0 then ring
  else
    let ring :=
      if sent ≤ ring.txLen then
        sync { ring with
          txCursor := (ring.txCursor + sent) % ring.bufLen, txLen := ring.txLen - sent }
      else
        { ring with error := ENOBUFS }
    { ring with effect := true }

/-- `vk_vectoring_signed_received`: on failure `errno` moves into the ring. -/
def signedReceived (ring : Vectoring) (received : Int) (errno : Errno) : Io :=
  if received < 0 then ⟨{ ring with error := errno }, received, 0⟩
  else ⟨ring.markReceived received.toNat, received, errno⟩

def signedSent (ring : Vectoring) (sent : Int) (errno : Errno) : Io :=
  if sent < 0 then ⟨{ ring with error := errno }, sent, 0⟩
  else ⟨ring.markSent sent.toNat, sent, errno⟩

/-! ## Copying -/

def wrapguardAdd (a b : Nat) : Int := if a + b < a ∨ a + b < b then -1 else 0

/-- `vk_size_return`.  It also compares the size with itself through
`ssize_t`, which never differs. -/
def sizeReturn (ring : Vectoring) (size : Nat) : Int := if ring.error = -1 then -1 else size

/-- `vk_vectoring_request`: how much of a request of `len` bytes each vector
serves. -/
def request (vectors : Iovecs) (len : Nat) : Nat × Nat :=
  if len ≤ vectors.v0.len then (len, 0)
  else if len ≤ vectors.v0.len + vectors.v1.len then (vectors.v0.len, len - vectors.v0.len)
  else (vectors.v0.len, vectors.v1.len)

/-- What `vk_vectoring_recv` leaves: the ring, the destination memory, and the
value returned. -/
structure Received where
  ring : Vectoring
  dst : Memory UInt8
  rc : Int

/-- `vk_vectoring_recv`: from the ring to the buffer `buf` of `len` bytes. -/
def recv (ring : Vectoring) (dst : Memory UInt8) (buf len : Nat) : Received :=
  let lengths := request ring.vectorTx len
  let dst := dst.store buf (ring.bufStart.load ring.vectorTx.v0.addr lengths.1)
  let dst := dst.store (buf + lengths.1) (ring.bufStart.load ring.vectorTx.v1.addr lengths.2)
  if wrapguardAdd lengths.1 lengths.2 = -1 then ⟨ring, dst, -1⟩
  else
    let sent := lengths.1 + lengths.2
    let ring := ring.markSent sent
    ⟨ring, dst, ring.sizeReturn sent⟩

/-- `vk_vectoring_send`: to the ring from the buffer `buf` of `len` bytes. -/
def send (ring : Vectoring) (src : Memory UInt8) (buf len : Nat) : Vectoring × Int :=
  if len > 0 ∧ ring.eof = true then
    -- block writes until EOF is cleared
    (ring, 0)
  else
    let lengths := request ring.vectorRx len
    let start := ring.bufStart.store ring.vectorRx.v0.addr (src.load buf lengths.1)
    let start := start.store ring.vectorRx.v1.addr (src.load (buf + lengths.1) lengths.2)
    let ring := { ring with bufStart := start }
    if wrapguardAdd lengths.1 lengths.2 = -1 then (ring, -1)
    else
      let received := lengths.1 + lengths.2
      let ring := ring.markReceived received
      (ring, ring.sizeReturn received)

/-- What a ring-to-ring transfer leaves. -/
structure Spliced where
  rx : Vectoring
  tx : Vectoring
  rc : Int
  errno : Errno

/-- `vk_vectoring_recv_splice`: from ring to ring, at most `len` bytes, all that
fit if `len < 0`. -/
def recvSplice (ringRx ringTx : Vectoring) (len : Int) (errno : Errno) : Spliced :=
  let lenFinal := min ringRx.vectorRxLen ringTx.vectorTxLen
  let lenFinal := if 0 ≤ len ∧ len < lenFinal then len.toNat else lenFinal
  let lengths := request ringRx.vectorRx lenFinal
  let r0 :=
    if lengths.1 > 0 then ringTx.recv ringRx.bufStart ringRx.vectorRx.v0.addr lengths.1
    else ⟨ringTx, ringRx.bufStart, lengths.1⟩
  if r0.rc ≠ lengths.1 then ⟨{ ringRx with bufStart := r0.dst }, r0.ring, -1, EINVAL⟩
  else
    let r1 :=
      if lengths.2 > 0 then r0.ring.recv r0.dst ringRx.vectorRx.v1.addr lengths.2
      else ⟨r0.ring, r0.dst, lengths.2⟩
    let ringRx := { ringRx with bufStart := r1.dst }
    if r1.rc ≠ lengths.2 then ⟨ringRx, r1.ring, -1, EINVAL⟩
    else
      let received := lengths.1 + lengths.2
      let ringRx := ringRx.markReceived received
      ⟨ringRx, r1.ring, ringRx.sizeReturn received, errno⟩

/-- `received < len` as the source compares them, a `ssize_t` with a `size_t`:
`-1` is not below any length. -/
def unsatisfied (received : Int) (len : Nat) : Bool := decide (0 ≤ received ∧ received < len)

/-- `vk_vectoring_splice`.  The lengths it compares with are those left after
the transfer. -/
def splice (ringRx ringTx : Vectoring) (len : Int) (errno : Errno) : Spliced :=
  let s := recvSplice ringRx ringTx len errno
  { s with
    rx := s.rx.setRxBlocked (unsatisfied s.rc s.rx.vectorRxLen)
    tx := s.tx.setTxBlocked (unsatisfied s.rc s.tx.vectorTxLen) }

/-! ## System calls -/

/-- `readv` into the two receive vectors. -/
def scatter (ring : Vectoring) (bytes : List UInt8) : Vectoring :=
  { ring with
    bufStart :=
      (ring.bufStart.store ring.vectorRx.v0.addr (bytes.take ring.vectorRx.v0.len)).store
        ring.vectorRx.v1.addr (bytes.drop ring.vectorRx.v0.len) }

/-- `vk_vectoring_read`: read from a file descriptor. -/
def read (ring : Vectoring) (readv : SysResult (List UInt8)) (errno : Errno) : Io :=
  -- previously blocked; readiness indicates a retry
  let ring := { ring with rxBlocked := false }
  match readv with
  | .err e =>
      let ring := if e = EAGAIN then { ring with rxBlocked := true, effect := false } else ring
      signedReceived ring (-1) e
  | .ok bytes =>
      let ring := ring.scatter bytes
      let ring := { ring with rxBlocked := decide (bytes.length < ring.vectorRxLen) }
      -- only a read of nothing is EOF
      let ring := { ring with eof := bytes.isEmpty }
      signedReceived ring bytes.length errno

/-- `vk_vectoring_write`: write to a file descriptor. -/
def write (ring : Vectoring) (writev : SysResult Nat) (errno : Errno) : Io :=
  if ring.txBlocked then ⟨ring, 0, errno⟩
  else
    match writev with
    | .err e =>
        let ring := if e = EAGAIN then { ring with txBlocked := true, effect := false } else ring
        signedSent ring (-1) e
    | .ok sent =>
        let ring := { ring with txBlocked := decide (sent < ring.vectorTxLen) }
        signedSent ring sent errno

/-- `vk_vectoring_accept`: accept from a listening descriptor.  What is received
is a `struct vk_accepted` of `alloc` bytes. -/
def accept (ring : Vectoring) (alloc : Nat) (accepted : SysResult (List UInt8))
    (errno : Errno) : Io :=
  let ring := { ring with rxBlocked := false }
  if ring.rxLen < alloc then ⟨ring, 0, errno⟩
  else
    match accepted with
    | .err e =>
        let ring := if e = EAGAIN then { ring with rxBlocked := true, effect := false } else ring
        signedReceived ring (-1) e
    | .ok record =>
        let ring := { ring with rxBlocked := false }
        let (ring, rc) := ring.send (Memory.store (fun _ => 0) 0 record) 0 alloc
        ⟨ring, rc, 0⟩

/-- `vk_vectoring_close`, and with `shutdown(2)` in place of `close(2)`
`vk_vectoring_rx_shutdown` and `vk_vectoring_tx_shutdown`.  The call is made
again when it returns `EINTR`, which is not a value these calls return. -/
def close (ring : Vectoring) (rc : SysResult Unit) (errno : Errno) : Io :=
  match rc with
  | .err e => signedSent { ring with error := e, closed := true, effect := true } (-1) e
  | .ok () => signedSent { ring with closed := true, effect := true } 0 errno

def rxShutdown (ring : Vectoring) (rc : SysResult Unit) (errno : Errno) : Io := ring.close rc errno

def txShutdown (ring : Vectoring) (rc : SysResult Unit) (errno : Errno) : Io := ring.close rc errno

/-! ## Lines -/

/-- `vk_vectoring_find_newline`, its scalar loop: the address of the first
newline among the `len` bytes at `buf`. -/
def findNewline (mem : Memory UInt8) (buf : Nat) : Nat → Option Nat
  | 0 => none
  | len + 1 => if mem buf = '\n'.toUInt8 then some buf else findNewline mem (buf + 1) len

/-- `vk_vectoring_tx_line_len`: the length of the first queued line, its newline
included. -/
def txLineLen (ring : Vectoring) : Option Nat :=
  let buf := ring.vectorTx.v0.addr
  match findNewline ring.bufStart buf ring.vectorTx.v0.len with
  | some res => some (res - buf + 1)
  | none =>
      let buf := ring.vectorTx.v1.addr
      match findNewline ring.bufStart buf ring.vectorTx.v1.len with
      | some res => some (ring.vectorTx.v0.len + (res - buf) + 1)
      | none => none

/-- `vk_vectoring_tx_line_request`. -/
def txLineRequest (ring : Vectoring) (len : Nat) : Nat :=
  match ring.txLineLen with
  | some lineLen => lineLen
  | none => len

/-! ## Hang-up -/

/-- `vk_vectoring_hup`: produce EOF. -/
def hup (ring : Vectoring) (errno : Errno) : Io :=
  if ring.eof then ⟨ring, -1, EINVAL⟩ else ⟨ring.markEof, 1, errno⟩

/-- `vk_vectoring_readhup`: consume EOF. -/
def readhup (ring : Vectoring) (errno : Errno) : Io :=
  if ring.eof then ⟨ring.clearEof, 1, errno⟩ else ⟨ring, -1, EINVAL⟩

/-- `vk_vectoring_forwardhup`: move EOF from the ring of `vk_hup()` to that of
`vk_readhup()`. -/
def forwardhup (ringTx ringRx : Vectoring) : Vectoring × Vectoring × Bool :=
  if ringTx.eof then (ringTx.clearEof, ringRx.markEof, true) else (ringTx, ringRx, false)

end Vectoring

end Vk

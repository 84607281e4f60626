/-
# `Mnvkd.ThreadIo` — the blocking operations of a coroutine

The macros of `vk_thread_io.h`.  Each initialises the socket's block and loops
(`Lib.Loop`): test, transfer and commit, and then leave the loop, or wait for
the socket, or go round again.  A loop's state is the process; where the loop
stands is in the block, so a coroutine that has waited goes on from the block.
-/
import Mnvkd.Lib.Loop
import Mnvkd.SocketHandler
import Mnvkd.VectoringSpec

namespace Vk

open Lib Errno

namespace ProcLocal

def updBlock (pl : ProcLocal) (s : Nat) (f : Block → Block) : ProcLocal :=
  pl.updSocket s fun socket => { socket with block := f socket.block }

/-- `vk_block_init` on the block of socket `s`. -/
def blockInit (pl : ProcLocal) (s buf len : Nat) (op : Op) : ProcLocal :=
  pl.updBlock s fun block => block.init buf len op

/-- `vk_block_commit` on the block of socket `s`. -/
def blockCommit (pl : ProcLocal) (s : Nat) (rc : Int) : ProcLocal :=
  pl.updBlock s fun block => block.commit rc

def uncommitted (pl : ProcLocal) (s : Nat) : Nat := (pl.sockets s).block.getUncommitted

def committed (pl : ProcLocal) (s : Nat) : Nat := (pl.sockets s).block.getCommitted

/-- Receive into the block's buffer what is not committed, and commit it. -/
def recvCommit (pl : ProcLocal) (s : Nat) : ProcLocal :=
  let socket := pl.sockets s
  let r := socket.rx.recv pl.mem socket.block.buf socket.block.getUncommitted
  ({ pl with mem := r.dst }.setRx s r.ring).blockCommit s r.rc

/-- How many bytes `recvCommit` commits. -/
def recvCount (pl : ProcLocal) (s : Nat) : Nat := min (pl.uncommitted s) (pl.sockets s).rx.txLen

/-- It stores that much of the queue at the block's buffer, and moves the block
on by it. -/
theorem recvCommit_eq {pl : ProcLocal} {s : Nat} (h : (pl.sockets s).rx.Wf) :
    pl.recvCommit s =
      { pl with
        mem := pl.mem.store (pl.sockets s).block.buf
          ((pl.sockets s).rx.queue.take (pl.uncommitted s)) }.updSocket s fun socket =>
        { socket with
          rx := socket.rx.markSent (pl.recvCount s)
          block := { socket.block with
            rc := pl.recvCount s
            len := socket.block.len - pl.recvCount s
            buf := socket.block.buf + pl.recvCount s
            copied := socket.block.copied + pl.recvCount s } } := by
  obtain ⟨hrc, hdst, hring⟩ :=
    h.recv pl.mem (pl.sockets s).block.buf (pl.sockets s).block.getUncommitted
  have hcount : min (pl.sockets s).block.getUncommitted (pl.sockets s).rx.txLen
      = pl.recvCount s := rfl
  rw [hcount] at hrc hring
  simp only [recvCommit, blockCommit, updBlock, setRx, updSocket_updSocket, hrc, hdst, hring,
    Block.commit_natCast]
  rfl

/-- Send from the block's buffer what is not committed, and commit it. -/
def sendCommit (pl : ProcLocal) (s : Nat) : ProcLocal :=
  let socket := pl.sockets s
  let r := socket.tx.send pl.mem socket.block.buf socket.block.getUncommitted
  (pl.setTx s r.1).blockCommit s r.2

/-- A `size_t` passed as an `ssize_t`. -/
def ssize (n : Nat) : Int := if n < 2 ^ 63 then n else n - 2 ^ 64

/-- Splice the receive ring into the transmit ring, at most what is not
committed, and commit it. -/
def forwardCommit (pl : ProcLocal) (s : Nat) : ProcLocal :=
  let socket := pl.sockets s
  let r := socket.tx.splice socket.rx (ssize socket.block.getUncommitted) pl.errno
  (((pl.setRx s r.tx).setTx s r.rx).setErrno r.errno).blockCommit s r.rc

/-- The last commit was of an error. -/
def commitFailed (pl : ProcLocal) (s : Nat) : Bool := decide ((pl.sockets s).block.rc = -1)

end ProcLocal

/-! ## Reading -/

/-- `vk_socket_read`. -/
def readLoop (s : Nat) : Loop ProcLocal where
  test pl := !pl.pollhup s && decide (pl.uncommitted s > 0)
  body pl := pl.recvCommit s
  fails pl := pl.commitFailed s
  leaves pl := pl.pollhup s
  waits pl := decide (pl.uncommitted s > 0)

/-- The byte the exit tests of `vk_socket_readline` look at,
`vk_block_get_buf(block)[vk_block_get_committed(block) - 1]`. -/
def lastCommitted (pl : ProcLocal) (s : Nat) : UInt8 :=
  pl.mem ((pl.sockets s).block.buf + pl.committed s - 1)

/-- Ask for the rest of the line where the ring holds its end. -/
def requestLine (pl : ProcLocal) (s : Nat) : ProcLocal :=
  pl.updBlock s fun block =>
    block.setUncommitted ((pl.sockets s).rx.txLineRequest block.getUncommitted)

/-- `vk_socket_readline`. -/
def readlineLoop (s : Nat) : Loop ProcLocal where
  test pl := !pl.pollhup s && decide (pl.uncommitted s > 0) &&
    (pl.committed s == 0 || lastCommitted pl s != '\n'.toUInt8)
  body pl := (requestLine pl s).recvCommit s
  fails pl := pl.commitFailed s
  leaves pl := pl.pollhup s
  waits pl := decide (pl.uncommitted s > 0) && lastCommitted pl s != '\n'.toUInt8

/-- `vk_socket_pollread`: the block commits 1 when bytes are there to read. -/
def pollreadLoop (s : Nat) : Loop ProcLocal where
  test pl := !pl.pollhup s && decide (pl.uncommitted s > 0)
  body pl := pl.blockCommit s (if (pl.sockets s).empty then 0 else 1)
  fails pl := pl.commitFailed s
  leaves pl := pl.pollhup s
  waits pl := decide (pl.uncommitted s > 0)

/-! ## Writing -/

/-- `vk_socket_write`, past its guard. -/
def writeLoop (s : Nat) : Loop ProcLocal where
  test pl := decide (pl.uncommitted s > 0)
  body pl := pl.sendCommit s
  fails pl := pl.commitFailed s
  leaves _ := false
  waits pl := decide (pl.uncommitted s > 0)

/-- `vk_socket_flush`. -/
def flushLoop (s : Nat) : Loop ProcLocal where
  test pl := decide ((pl.sockets s).tx.txLen > 0)
  body pl := pl
  fails _ := false
  leaves _ := false
  waits _ := true

/-- `vk_socket_forward`. -/
def forwardLoop (s : Nat) : Loop ProcLocal where
  test pl := !pl.pollhup s && decide (pl.uncommitted s > 0)
  body pl := pl.forwardCommit s
  fails pl := pl.commitFailed s
  leaves _ := false
  waits pl := !pl.pollhup s || decide (pl.uncommitted s > 0)

/-! ## Hang-up and closing -/

/-- The loop of `vk_socket_hup`, past its flush and its mark. -/
def hupLoop (s : Nat) : Loop ProcLocal where
  test pl := decide (pl.uncommitted s > 0)
  body pl := pl.blockCommit s (if (pl.sockets s).eofTx then 0 else 1)
  fails pl := pl.commitFailed s
  leaves _ := false
  waits pl := decide (pl.uncommitted s > 0)

/-- The loop of the operations that wait once: `vk_socket_tx_close`,
`vk_socket_rx_close`, the two shutdowns, `vk_socket_readable` and
`vk_socket_writable`. -/
def onceLoop (s : Nat) : Loop ProcLocal where
  test pl := decide (pl.uncommitted s > 0)
  body pl := pl.updBlock s fun block => block.setUncommitted 0
  fails _ := false
  leaves _ := false
  waits _ := true

/-! ## Entering an operation -/

namespace ProcLocal

/-- `vk_socket_read` and `vk_socket_readline` begin. -/
def beginRead (pl : ProcLocal) (s buf len : Nat) : ProcLocal := pl.blockInit s buf len .read

def beginPollread (pl : ProcLocal) (s : Nat) : ProcLocal := pl.blockInit s 0 1 .read

def beginWrite (pl : ProcLocal) (s buf len : Nat) : ProcLocal := pl.blockInit s buf len .write

def beginFlush (pl : ProcLocal) (s : Nat) : ProcLocal := pl.blockInit s 0 0 .flush

def beginForward (pl : ProcLocal) (s len : Nat) : ProcLocal := pl.blockInit s 0 len .forward

def beginHup (pl : ProcLocal) (s : Nat) : ProcLocal := pl.blockInit s 0 1 .hup

/-- An operation that waits once begins.  `vk_socket_readable` and
`vk_socket_writable` queue the socket first. -/
def beginOnce (pl : ProcLocal) (s : Nat) (op : Op) : ProcLocal :=
  let pl := if op = .readable ∨ op = .writable then pl.enqueueBlocked s else pl
  pl.blockInit s 0 1 op

end ProcLocal

end Vk

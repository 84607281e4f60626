/-
# `Mnvkd.Socket` — sockets, their pipes and their blocks

A `struct vk_socket` has a receive ring and a transmit ring, a `struct vk_pipe`
that says what each of them is connected to, and a `struct vk_block`: the
operation its coroutine is in, how far it has come, and the events it wants
from the poller.  A pipe leads to a descriptor or to a ring of another socket;
sockets and threads are named by numbers, as the source names them by pointers.
-/
import Mnvkd.Vectoring

namespace Vk

open Lib

/-- The event bits of `poll(2)`. -/
abbrev Events := BitVec 16

def POLLIN : Events := 0x001
def POLLOUT : Events := 0x004
def POLLERR : Events := 0x008
def POLLHUP : Events := 0x010
def POLLRDHUP : Events := 0x2000

/-- Whether `events` has some bit of `mask`: `events & mask` as a condition. -/
def Events.any (events mask : Events) : Bool := events &&& mask != 0

/-- `struct pollfd`. -/
structure Pollfd where
  fd : Int
  events : Events
  revents : Events
  deriving DecidableEq, Repr

/-- `struct vk_io_future`.  Without a socket the slot it is in has none. -/
structure IoFuture where
  socketPtr : Option Nat
  event : Pollfd
  readable : Nat
  writable : Nat
  rxClosed : Bool
  txClosed : Bool
  deriving DecidableEq, Repr

/-- `vk_io_future_init`. -/
def IoFuture.init (socketPtr : Nat) : IoFuture where
  socketPtr := some socketPtr
  event := ⟨-1, 0, 0⟩
  readable := 0
  writable := 0
  rxClosed := false
  txClosed := false

/-! ## Pipes -/

/-- `enum vk_fd_type`. -/
inductive FdType where
  | unknown | pipe | socketStream | socketDatagram | socketListen | file | fileHeap | kqueue
  | epoll | inotify | event | timer | signal
  deriving DecidableEq, Repr

/-- `enum vk_pipe_type` with the `union vk_pipe_ref` it branches: a descriptor,
the receive ring of a socket, or the transmit ring of one. -/
inductive PipeRef where
  | osFd (fd : Int)
  | vkRx (socketPtr : Nat)
  | vkTx (socketPtr : Nat)
  deriving DecidableEq, Repr

/-- `struct vk_pipe`. -/
structure Pipe where
  ref : PipeRef
  fdType : FdType
  closed : Bool
  deriving DecidableEq, Repr

namespace Pipe

def initFd (fd : Int) (fdType : FdType) : Pipe := ⟨.osFd fd, fdType, false⟩

/-- `vk_pipe_init_rx`, which leaves the descriptor's type. -/
def initRx (pipe : Pipe) (socketPtr : Nat) : Pipe :=
  { pipe with ref := .vkRx socketPtr, closed := false }

def initTx (pipe : Pipe) (socketPtr : Nat) : Pipe :=
  { pipe with ref := .vkTx socketPtr, closed := false }

/-- The descriptor, or -1. -/
def getFd (pipe : Pipe) : Int :=
  match pipe.ref with
  | .osFd fd => fd
  | .vkRx _ | .vkTx _ => -1

/-- The socket, or none. -/
def getSocket (pipe : Pipe) : Option Nat :=
  match pipe.ref with
  | .osFd _ => none
  | .vkRx s | .vkTx s => some s

end Pipe

/-! ## Blocks -/

/-- The operations of a block. -/
inductive Op where
  | none | read | write | forward | flush | hup | readhup | txClose | rxClose | rxShutdown
  | txShutdown | readable | writable
  deriving DecidableEq, Repr

/-- `struct vk_block`.  A null `buf` is 0. -/
structure Block where
  op : Op
  buf : Nat
  len : Nat
  copied : Nat
  rc : Int
  ioftRxPre : IoFuture
  ioftTxPre : IoFuture
  ioftRxRet : IoFuture
  ioftTxRet : IoFuture
  blockedVk : Nat
  deriving Repr

namespace Block

/-- `VK_BLOCK_INIT`: a new socket's block. -/
def new (socketPtr blockedVk : Nat) : Block where
  op := .none
  buf := 0
  len := 0
  copied := 0
  rc := 0
  ioftRxPre := IoFuture.init socketPtr
  ioftTxPre := IoFuture.init socketPtr
  ioftRxRet := IoFuture.init socketPtr
  ioftTxRet := IoFuture.init socketPtr
  blockedVk := blockedVk

/-- `vk_block_init`: begin an operation on `len` bytes at `buf`. -/
def init (block : Block) (buf len : Nat) (op : Op) : Block :=
  { block with buf := buf, len := len, op := op, copied := 0 }

/-- `vk_block_commit`: `rc` more bytes are done. -/
def commit (block : Block) (rc : Int) : Block :=
  { block with
    rc := rc
    len := (block.len - rc).toNat
    buf := (block.buf + rc).toNat
    copied := (block.copied + rc).toNat }

def getCommitted (block : Block) : Nat := block.copied

def getUncommitted (block : Block) : Nat := block.len

def setUncommitted (block : Block) (len : Nat) : Block := { block with len := len }

@[simp] theorem commit_natCast (block : Block) (n : Nat) :
    block.commit n = { block with
      rc := n, len := block.len - n, buf := block.buf + n, copied := block.copied + n } := by
  simp only [commit]
  congr 1
  omega

end Block

/-! ## Sockets -/

/-- `struct vk_socket`. -/
structure Socket where
  rx : Vectoring
  tx : Vectoring
  block : Block
  rxFd : Pipe
  txFd : Pipe
  error : Errno
  blockedEnq : Bool

namespace Socket

/-- The length of `struct vk_buffering::buf`. -/
def bufLen : Nat := 4096 * 4

/-- A socket in memory that has been cleared and not initialised yet. -/
def cleared : Socket where
  rx := Vectoring.cleared
  tx := Vectoring.cleared
  block := Block.new 0 0
  rxFd := Pipe.initFd 0 .unknown
  txFd := Pipe.initFd 0 .unknown
  error := 0
  blockedEnq := false

/-- `VK_SOCKET_INIT`. -/
def init (socket : Socket) (socketPtr blockedVk : Nat) (rxFd txFd : Pipe) : Socket :=
  { socket with
    rx := socket.rx.init socket.rx.bufStart bufLen
    tx := socket.tx.init socket.tx.bufStart bufLen
    block := Block.new socketPtr blockedVk
    rxFd := rxFd
    txFd := txFd
    blockedEnq := false }

/-- EOF on the receive side; bytes may be left before it. -/
def eof (socket : Socket) : Bool := socket.rx.eof

def empty (socket : Socket) : Bool := socket.rx.isEmpty

def nodata (socket : Socket) : Bool := socket.rx.hasNodata

def eofTx (socket : Socket) : Bool := socket.tx.eof

def emptyTx (socket : Socket) : Bool := socket.tx.isEmpty

def nodataTx (socket : Socket) : Bool := socket.tx.hasNodata

def setReadEvents (socket : Socket) (events : Events) : Socket :=
  { socket with block := { socket.block with
      ioftRxPre := { socket.block.ioftRxPre with
        event := { socket.block.ioftRxPre.event with events := events } } } }

def setWriteEvents (socket : Socket) (events : Events) : Socket :=
  { socket with block := { socket.block with
      ioftTxPre := { socket.block.ioftTxPre with
        event := { socket.block.ioftTxPre.event with events := events } } } }

def markReadBlock (socket : Socket) : Socket := socket.setReadEvents POLLIN

def clearReadBlock (socket : Socket) : Socket := socket.setReadEvents 0

def markWriteBlock (socket : Socket) : Socket := socket.setWriteEvents POLLOUT

def clearWriteBlock (socket : Socket) : Socket := socket.setWriteEvents 0

end Socket

end Vk

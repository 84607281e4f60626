/-
# `Mnvkd.SocketHandler` — applying a blocked operation

`vk_socket_handler` applies the operation of a socket's block as far as it
goes: system calls where a pipe leads to a descriptor, splices where it leads to
another socket.  Then it wakes who can go on (the ring's effect says whether
something changed) and queues the socket for the poller where it is blocked.

The handlers are here under their own names, as functions of the process; the
system's answers are their argument.  A `-1` returned leaves `errno`.
-/
import Mnvkd.ProcLocal

namespace Vk

open Lib Errno

/-- What a handler leaves: the process and the value returned. -/
structure Handled where
  pl : ProcLocal
  rc : Int

/-- `sizeof(struct vk_accepted)`, on the 64-bit targets. -/
def acceptedAllocSize : Nat := 216

namespace ProcLocal

/-- `vk_socket_handle_error`. -/
def handleError (pl : ProcLocal) (s : Nat) : ProcLocal :=
  pl.updSocket s fun socket => { socket with error := pl.errno }

def setErrno (pl : ProcLocal) (errno : Errno) : ProcLocal := { pl with errno := errno }

def setRx (pl : ProcLocal) (s : Nat) (ring : Vectoring) : ProcLocal :=
  pl.updSocket s fun socket => { socket with rx := ring }

def setTx (pl : ProcLocal) (s : Nat) (ring : Vectoring) : ProcLocal :=
  pl.updSocket s fun socket => { socket with tx := ring }

/-- Take over what a call on the receive ring left, its error included. -/
def absorbRx (pl : ProcLocal) (s : Nat) (io : Io) : ProcLocal :=
  let pl := (pl.setRx s io.ring).setErrno io.errno
  if io.rc = -1 then pl.handleError s else pl

def absorbTx (pl : ProcLocal) (s : Nat) (io : Io) : ProcLocal :=
  let pl := (pl.setTx s io.ring).setErrno io.errno
  if io.rc = -1 then pl.handleError s else pl

/-- Read the transmit ring of socket `w` into the receive ring of `s`. -/
def spliceFrom (pl : ProcLocal) (s w : Nat) : ProcLocal :=
  let sp := (pl.sockets s).rx.splice (pl.sockets w).tx (-1) pl.errno
  let pl := ((pl.setTx w sp.tx).setRx s sp.rx).setErrno sp.errno
  if sp.rc = -1 then pl.handleError s else pl

/-- Write the transmit ring of `s` into the receive ring of socket `r`. -/
def spliceTo (pl : ProcLocal) (s r : Nat) : ProcLocal :=
  let sp := (pl.sockets r).rx.splice (pl.sockets s).tx (-1) pl.errno
  let pl := ((pl.setTx s sp.tx).setRx r sp.rx).setErrno sp.errno
  if sp.rc = -1 then pl.handleError s else pl

/-! ## Waking -/

def handleRxEffect (pl : ProcLocal) (s : Nat) : ProcLocal × Bool :=
  (pl.setRx s (pl.sockets s).rx.handleEffect.1, (pl.sockets s).rx.handleEffect.2)

def handleTxEffect (pl : ProcLocal) (s : Nat) : ProcLocal × Bool :=
  (pl.setTx s (pl.sockets s).tx.handleEffect.1, (pl.sockets s).tx.handleEffect.2)

/-- The thread a socket blocks. -/
def blockedVk (pl : ProcLocal) (s : Nat) : Nat := (pl.sockets s).block.blockedVk

def enqueueSelf (pl : ProcLocal) (s : Nat) : ProcLocal := pl.ready (pl.blockedVk s)

/-- Run the thread that socket `other` blocks, as `vk_socket_enqueue_otherwriter`
does for the writer of our reads and `vk_socket_enqueue_otherreader` for the
reader of our writes. -/
def enqueueOther (pl : ProcLocal) (other : Nat) : ProcLocal :=
  (pl.enqueueRun (pl.blockedVk other)).ready (pl.blockedVk other)

def enqueueRead (pl : ProcLocal) (s : Nat) : ProcLocal :=
  let (pl, effect) := pl.handleRxEffect s
  if effect then pl.enqueueSelf s else pl

def enqueueWrite (pl : ProcLocal) (s : Nat) : ProcLocal :=
  let (pl, effect) := pl.handleTxEffect s
  if effect then pl.enqueueSelf s else pl

/-- `vk_socket_enqueue_readwriter`, `w` being the socket `s` reads from. -/
def enqueueReadwriter (pl : ProcLocal) (s w : Nat) : ProcLocal :=
  let (pl, effect) := pl.handleTxEffect w
  if effect then (pl.enqueueOther w).enqueueSelf s else pl

/-- `vk_socket_enqueue_writereader`, `r` being the socket `s` writes to. -/
def enqueueWritereader (pl : ProcLocal) (s r : Nat) : ProcLocal :=
  let (pl, effect) := pl.handleRxEffect r
  if effect then (pl.enqueueOther r).enqueueSelf s else pl

/-! ## Blocking -/

/-- Forward a pipe's closed state, from the ring to the pipe, and where it leads
to a descriptor from the pipe to the future. -/
def forwardClosed (socket : Socket) : Socket :=
  { socket with
    rxFd := { socket.rxFd with closed := socket.rx.closed }
    txFd := { socket.txFd with closed := socket.tx.closed }
    block := { socket.block with
      ioftRxPre := { socket.block.ioftRxPre with
        event := { socket.block.ioftRxPre.event with fd := socket.rxFd.getFd }
        rxClosed := socket.block.ioftRxPre.rxClosed ||
          (decide (0 ≤ socket.rxFd.getFd) && socket.rx.closed) }
      ioftTxPre := { socket.block.ioftTxPre with
        event := { socket.block.ioftTxPre.event with fd := socket.txFd.getFd }
        txClosed := socket.block.ioftTxPre.txClosed ||
          (decide (0 ≤ socket.txFd.getFd) && socket.tx.closed) } } }

/-- `vk_socket_handle_block`: make the socket's futures, and queue it for the
poller where one of its descriptors blocks. -/
def handleBlock (pl : ProcLocal) (s : Nat) : ProcLocal :=
  let pl := pl.updSocket s forwardClosed
  let pl :=
    if 0 ≤ (pl.sockets s).rxFd.getFd ∧ (pl.sockets s).rx.rxBlocked = true then
      (pl.updSocket s Socket.markReadBlock).enqueueBlocked s
    else pl.updSocket s Socket.clearReadBlock
  if 0 ≤ (pl.sockets s).txFd.getFd ∧ (pl.sockets s).tx.txBlocked = true then
    (pl.updSocket s Socket.markWriteBlock).enqueueBlocked s
  else pl.updSocket s Socket.clearWriteBlock

/-- The end of most handlers: queue the block, return 0. -/
def handled (pl : ProcLocal) (s : Nat) : Handled := ⟨pl.handleBlock s, 0⟩

/-- A pipe of a type the operation does not know. -/
def invalid (pl : ProcLocal) : Handled := ⟨pl.setErrno EINVAL, -1⟩

/-! ## The operations -/

/-- `vk_socket_handle_read`. -/
def handleRead (pl : ProcLocal) (s : Nat) (os : Os) : Handled :=
  let socket := pl.sockets s
  match socket.rxFd.ref with
  | .osFd _ =>
      let pl :=
        if socket.rxFd.fdType = .socketListen then
          pl.absorbRx s (socket.rx.accept acceptedAllocSize os.accept pl.errno)
        else pl.absorbRx s (socket.rx.read os.readv pl.errno)
      (pl.enqueueRead s).handled s
  | .vkTx w => (((pl.spliceFrom s w).enqueueRead s).enqueueReadwriter s w).handled s
  | .vkRx _ => ⟨(pl.setErrno EINVAL).handleBlock s, -1⟩

/-- `vk_socket_handle_write`. -/
def handleWrite (pl : ProcLocal) (s : Nat) (os : Os) : Handled :=
  let socket := pl.sockets s
  match socket.txFd.ref with
  | .osFd _ => ((pl.absorbTx s (socket.tx.write os.writev pl.errno)).enqueueWrite s).handled s
  | .vkRx r => (((pl.spliceTo s r).enqueueWrite s).enqueueWritereader s r).handled s
  | .vkTx _ => ⟨(pl.setErrno EINVAL).handleBlock s, -1⟩

/-- `vk_socket_handle_forward`. -/
def handleForward (pl : ProcLocal) (s : Nat) (os : Os) : Handled :=
  let socket := pl.sockets s
  match socket.rxFd.ref with
  | .osFd _ =>
      let pl := (pl.absorbRx s (socket.rx.read os.readv pl.errno)).enqueueRead s
      match socket.txFd.ref with
      | .osFd _ =>
          ((pl.absorbTx s ((pl.sockets s).tx.write os.writev pl.errno)).enqueueWrite s).handled s
      | .vkRx r =>
          let pl := (pl.spliceTo s r).enqueueWrite s
          -- may have unblocked the other side
          if (pl.sockets r).rx.rxBlocked then
            let pl := pl.enqueueWritereader s r
            (pl.enqueueRun (pl.blockedVk r)).handled s
          else pl.handled s
      | .vkTx _ => pl.invalid
  | .vkTx w =>
      let pl := ((pl.spliceFrom s w).enqueueRead s).enqueueReadwriter s w
      match socket.txFd.ref with
      | .osFd _ =>
          ((pl.absorbTx s ((pl.sockets s).tx.write os.writev pl.errno)).enqueueWrite s).handled s
      | .vkRx r => (((pl.spliceTo s r).enqueueWrite s).enqueueWritereader s r).handled s
      | .vkTx _ => pl.invalid
  | .vkRx _ => pl.invalid

/-- `vk_socket_handle_readhup`. -/
def handleReadhup (pl : ProcLocal) (s : Nat) : Handled :=
  let socket := pl.sockets s
  match socket.rxFd.ref with
  | .osFd _ => (pl.enqueueRead s).handled s
  | .vkTx w =>
      let (ringTx, ringRx, forwarded) := Vectoring.forwardhup (pl.sockets w).tx socket.rx
      if forwarded then
        let pl := (pl.setTx w ringTx).setRx s ringRx
        -- may have unblocked the other side
        ((pl.enqueueRead s).enqueueReadwriter s w).handled s
      else pl.handled s
  | .vkRx _ => pl.invalid

/-- `vk_socket_handle_hup`. -/
def handleHup (pl : ProcLocal) (s : Nat) : Handled :=
  let socket := pl.sockets s
  match socket.txFd.ref with
  | .osFd _ => (pl.enqueueWrite s).handled s
  | .vkRx r =>
      if !socket.tx.eof then
        -- readhup has taken the EOF: unblock both ops
        ((pl.enqueueWrite s).enqueueWritereader s r).handled s
      else pl.handled s
  | .vkTx _ => pl.invalid

/-- The end of the closes: queue the block, and ready the thread whatever
happened. -/
def closed (pl : ProcLocal) (s : Nat) : Handled := ⟨(pl.handleBlock s).enqueueSelf s, 0⟩

/-- `vk_socket_handle_tx_close`. -/
def handleTxClose (pl : ProcLocal) (s : Nat) (os : Os) : Handled :=
  let socket := pl.sockets s
  match socket.txFd.ref with
  | .osFd _ =>
      let pl := pl.absorbTx s (socket.tx.close os.close pl.errno)
      ((pl.setTx s (pl.sockets s).tx.markClosed).enqueueWrite s).closed s
  | .vkRx r | .vkTx r =>
      -- mark EOF so that readers observe pollhup
      (((pl.setTx s socket.tx.markEof).enqueueWrite s).enqueueWritereader s r).closed s

/-- Close the receive side, by the call that answers `rc`. -/
def closeRx (pl : ProcLocal) (s : Nat) (rc : SysResult Unit) : Handled :=
  let socket := pl.sockets s
  match socket.rxFd.ref with
  | .osFd _ =>
      let pl := pl.absorbRx s (socket.rx.close rc pl.errno)
      ((pl.setRx s (pl.sockets s).rx.markClosed).enqueueRead s).closed s
  | .vkRx _ | .vkTx _ => (pl.enqueueRead s).closed s

/-- `vk_socket_handle_rx_close`. -/
def handleRxClose (pl : ProcLocal) (s : Nat) (os : Os) : Handled := pl.closeRx s os.close

/-- `vk_socket_handle_rx_shutdown`. -/
def handleRxShutdown (pl : ProcLocal) (s : Nat) (os : Os) : Handled := pl.closeRx s os.shutdown

/-- `vk_socket_handle_tx_shutdown`, which does not mark EOF on a virtual pipe. -/
def handleTxShutdown (pl : ProcLocal) (s : Nat) (os : Os) : Handled :=
  let socket := pl.sockets s
  match socket.txFd.ref with
  | .osFd _ =>
      let pl := pl.absorbTx s (socket.tx.txShutdown os.shutdown pl.errno)
      ((pl.setTx s (pl.sockets s).tx.markClosed).enqueueWrite s).closed s
  | .vkRx _ | .vkTx _ => (pl.enqueueWrite s).closed s

/-- `vk_socket_handle_readable`. -/
def handleReadable (pl : ProcLocal) (s : Nat) : Handled :=
  ⟨(pl.updSocket s Socket.markReadBlock).updSocket s Socket.clearWriteBlock, 0⟩

/-- `vk_socket_handle_writable`. -/
def handleWritable (pl : ProcLocal) (s : Nat) : Handled :=
  ⟨(pl.updSocket s Socket.markWriteBlock).updSocket s Socket.clearReadBlock, 0⟩

/-- Whether a read that has been handled is followed by a flush of what the
socket has to send: the read is blocked, and the write is not. -/
def lazyFlush (socket : Socket) : Bool :=
  socket.rx.rxBlocked && !socket.tx.txBlocked && !socket.emptyTx

/-- `vk_socket_handler`. -/
def socketHandler (pl : ProcLocal) (s : Nat) (os : Os) : Handled :=
  match (pl.sockets s).block.op with
  | .none => ⟨pl, 0⟩
  | .flush | .write => pl.handleWrite s os
  | .read =>
      let h := pl.handleRead s os
      if h.rc = -1 then h
      else if lazyFlush (h.pl.sockets s) then h.pl.handleWrite s os
      else h
  | .forward => pl.handleForward s os
  | .hup => pl.handleHup s
  | .readhup => pl.handleReadhup s
  | .txClose => pl.handleTxClose s os
  | .rxClose => pl.handleRxClose s os
  | .txShutdown => pl.handleTxShutdown s os
  | .rxShutdown => pl.handleRxShutdown s os
  | .readable => pl.handleReadable s
  | .writable => pl.handleWritable s

/-- `vk_unblock`: apply what a waiting thread is waiting for. -/
def unblock (pl : ProcLocal) (t : Nat) (os : Os) : Handled :=
  match (pl.threads t).status with
  | .wait =>
      match (pl.threads t).waitingSocketPtr with
      | some s => pl.socketHandler s os
      | none => pl.invalid
  | _ => ⟨pl, 0⟩

/-- `vk_proc_local_retry_socket`: the poller reports on a socket that blocks. -/
def retrySocket (pl : ProcLocal) (s : Nat) (os : Os) : Handled :=
  let that := pl.blockedVk s
  let pl :=
    if (pl.sockets s).block.ioftRxRet.event.revents.any (POLLIN ||| POLLRDHUP ||| POLLERR) then
      pl.updSocket s fun socket => { socket with rx := socket.rx.setRxBlocked false }
    else pl
  let pl :=
    if (pl.sockets s).block.ioftTxRet.event.revents.any (POLLOUT ||| POLLHUP) then
      pl.updSocket s fun socket => { socket with tx := socket.tx.setTxBlocked false }
    else pl
  let h := pl.socketHandler s os
  if h.rc = -1 then h else ⟨(h.pl.dropBlocked s).enqueueRun that, 0⟩

/-! ## Hang-up -/

/-- `vk_socket_get_reader_nodata`: whether what the socket reads from is at EOF
and drained. -/
def getReaderNodata (pl : ProcLocal) (s : Nat) : Bool :=
  match (pl.sockets s).rxFd.getSocket with
  | none =>
      (pl.sockets s).nodata ||
        ((pl.sockets s).block.ioftRxRet.rxClosed &&
          (pl.sockets s).block.ioftRxRet.readable == 0)
  | some w => (pl.sockets w).nodataTx

/-- `vk_socket_pollhup`. -/
def pollhup (pl : ProcLocal) (s : Nat) : Bool := (pl.sockets s).empty && pl.getReaderNodata s

end ProcLocal

end Vk

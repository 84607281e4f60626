/-
# `Mnvkd.Machine` — a process under any program

The coroutines of a process, its executor and the poller, as one transition
system.  A coroutine stands in the loop of a blocking operation or between
operations, and there it may do anything: begin an operation, read a hang-up,
play another coroutine, change memory, raise, or come back.  When it comes back
the executor goes on as `vk_proc_local_execute` does; when that returns, the
kernel answers the blocked sockets, retries them and starts it again.

    kernel            the process is not executed
    exec phase        the executor, between coroutines
    inside t          the function of thread t runs
    back t            it has come back

What a coroutine does next and what the system answers are the actions, so a run
of the machine is any program in any order of steps.
-/
import Mnvkd.Execute
import Mnvkd.ThreadIo
import Mnvkd.Lib.Run

namespace Vk

open Lib Errno

/-! ## Coroutines -/

/-- The loops of `vk_thread_io.h`; `hupFlush` is the flush `vk_socket_hup` begins
with. -/
inductive IoLoop where
  | read | readline | pollread | write | flush | hupFlush | forward | hup | once
  deriving DecidableEq, Repr

def IoLoop.loop (s : Nat) : IoLoop → Loop ProcLocal
  | .read => readLoop s
  | .readline => readlineLoop s
  | .pollread => pollreadLoop s
  | .write => writeLoop s
  | .flush | .hupFlush => flushLoop s
  | .forward => forwardLoop s
  | .hup => hupLoop s
  | .once => onceLoop s

/-- The blocking operations. -/
inductive IoCall where
  | read (s buf len : Nat)
  | readline (s buf len : Nat)
  | pollread (s : Nat)
  | write (s buf len : Nat)
  | flush (s : Nat)
  | forward (s len : Nat)
  | hup (s : Nat)
  | once (s : Nat) (op : Op)
  deriving DecidableEq, Repr

/-- The operations of a block that wait once. -/
def onceOps : List Op := [.txClose, .rxClose, .txShutdown, .rxShutdown, .readable, .writable]

namespace IoCall

def socketPtr : IoCall → Nat
  | .read s _ _ | .readline s _ _ | .pollread s | .write s _ _ | .flush s | .forward s _ | .hup s
  | .once s _ => s

/-- The loop the operation begins with. -/
def first : IoCall → IoLoop
  | .read .. => .read
  | .readline .. => .readline
  | .pollread _ => .pollread
  | .write .. => .write
  | .flush _ => .flush
  | .forward .. => .forward
  | .hup _ => .hupFlush
  | .once .. => .once

/-- Its block. -/
def enter (pl : ProcLocal) : IoCall → ProcLocal
  | .read s buf len | .readline s buf len => pl.beginRead s buf len
  | .pollread s => pl.beginPollread s
  | .write s buf len => pl.beginWrite s buf len
  | .flush s | .hup s => pl.beginFlush s
  | .forward s len => pl.beginForward s len
  | .once s op => pl.beginOnce s op

/-- Its guard.  Only a write has one: no writing after EOF. -/
def refused (pl : ProcLocal) : IoCall → Option Errno
  | .write s _ _ => if (pl.sockets s).eofTx then some EPIPE else none
  | _ => none

/-- The operation of a block that waits once is one of those. -/
def known : IoCall → Bool
  | .once _ op => decide (op ∈ onceOps)
  | _ => true

end IoCall

/-- What a coroutine does next. -/
inductive CoAct where
  | call (c : IoCall)
  | turn
  | readhup (s : Nat)
  | play (t : Nat)
  | store (mem : Memory UInt8)
  | raise (e : Errno)
  | stop (status : ProcStat)

/-- `vk_wait`, up to the return. -/
def ProcLocal.waitOn (pl : ProcLocal) (t s : Nat) : ProcLocal :=
  (pl.updThread t fun that => { that with waitingSocketPtr := some s, status := .wait }).updBlock s
    fun block => { block with blockedVk := t }

/-! ## The machine -/

/-- Where the machine stands. -/
inductive Stage where
  | kernel
  | exec (phase : Phase)
  | inside (t : Nat)
  | back (t : Nat)
  deriving DecidableEq, Repr

/-- A process, and for each thread the loop it is in and the socket. -/
structure Machine where
  pl : ProcLocal
  pos : Nat → Option (IoLoop × Nat)
  stage : Stage

/-- A step of the kernel, of the executor, or of the coroutine that runs. -/
inductive Act where
  | start
  | play (t : Nat)
  | answer (s : Nat) (rx tx : Pollfd)
  | retry (s : Nat) (os : Os)
  | exec
  | co (a : CoAct)
  | unblock (os : Os)

namespace Machine

def setPos (m : Machine) (t : Nat) (p : Option (IoLoop × Nat)) : Machine :=
  { m with pos := Function.update m.pos t p }

/-- `vk_raise`: the coroutine comes back, to go on at its error handler. -/
def raise (m : Machine) (t : Nat) (e : Errno) : Machine :=
  { m with pl := m.pl.raiseAt t e, stage := .back t }.setPos t none

/-- A loop is left.  After the flush of `vk_socket_hup` EOF is marked and the loop
that waits for it to be taken begins. -/
def leave (m : Machine) (t : Nat) (k : IoLoop) (s : Nat) : Machine :=
  match k with
  | .hupFlush =>
      let io := (m.pl.sockets s).tx.hup m.pl.errno
      let pl := (m.pl.setTx s io.ring).setErrno io.errno
      if io.rc = -1 then { m with pl := pl }.raise t pl.errno
      else { m with pl := pl.beginHup s }.setPos t (some (.hup, s))
  | _ => m.setPos t none

/-- One turn of the loop that thread `t` is in. -/
def turn (m : Machine) (t : Nat) (k : IoLoop) (s : Nat) : Machine :=
  match (k.loop s).turn m.pl with
  | .done pl => { m with pl := pl }.leave t k s
  | .again pl => { m with pl := pl }
  | .wait pl => { m with pl := pl.waitOn t s, stage := .back t }
  | .raise pl => { m with pl := pl }.raise t pl.errno

/-- `vk_socket_readhup`. -/
def readhup (m : Machine) (t s : Nat) : Machine :=
  if m.pl.pollhup s then
    let pl := (m.pl.handleReadhup s).pl
    let io := (pl.sockets s).rx.readhup pl.errno
    let pl := (pl.setRx s io.ring).setErrno io.errno
    if io.rc = -1 then { m with pl := pl }.raise t pl.errno else { m with pl := pl }
  else m.raise t EAGAIN

/-- An operation begins. -/
def call (m : Machine) (t : Nat) (c : IoCall) : Machine :=
  match c.refused m.pl with
  | some e => { m with pl := c.enter m.pl }.raise t e
  | none => { m with pl := c.enter m.pl }.setPos t (some (c.first, c.socketPtr))

/-- The coroutine `t` takes a step of its own. -/
def co (m : Machine) (t : Nat) (a : CoAct) : Option Machine :=
  match m.pos t, a with
  | some (k, s), .turn => some (m.turn t k s)
  | none, .call c => if c.known then some (m.call t c) else none
  | none, .readhup s => some (m.readhup t s)
  | none, .play u => some { m with pl := m.pl.enqueueRun u }
  | none, .store mem => some { m with pl := { m.pl with mem := mem } }
  | none, .raise e => some (m.raise t e)
  | none, .stop status =>
      if status = .wait ∨ status = .err then none
      else some { m with
        pl := m.pl.updThread t fun that => { that with status := status }
        stage := .back t }
  | _, _ => none

/-- The executor calls thread `t`.  A thread that comes out of `vk_wait` forgets
the socket. -/
def enterThread (m : Machine) (t : Nat) : Machine :=
  let pl := { m.pl with runningCr := some t }
  let pl :=
    match m.pos t with
    | some _ => pl.updThread t fun that => { that with waitingSocketPtr := none }
    | none => pl
  { m with pl := pl, stage := .inside t }

/-- The executor between coroutines. -/
def execute (m : Machine) (phase : Phase) : Machine :=
  match phase with
  | .pick => { m with pl := m.pl.pickRun.pl, stage := .exec m.pl.pickRun.phase }
  | .loop t =>
      if (m.pl.threads t).isReady then m.enterThread t
      else { m with pl := (m.pl.leaveLoop t).pl, stage := .exec (m.pl.leaveLoop t).phase }
  | .returned _ => { m with stage := .kernel }

/-- What the poller has found for a blocked socket is put in its block. -/
def answer (m : Machine) (s : Nat) (rx tx : Pollfd) : Machine :=
  { m with pl := m.pl.updBlock s fun block =>
      { block with
        ioftRxRet := { block.ioftRxRet with event := rx }
        ioftTxRet := { block.ioftTxRet with event := tx } } }

/-- A step. -/
def step (a : Act) (m : Machine) : Option Machine :=
  match m.stage, a with
  | .kernel, .start => some { m with stage := .exec .pick }
  | .kernel, .play t => some { m with pl := m.pl.enqueueRun t }
  | .kernel, .answer s rx tx => if s ∈ m.pl.blockedQ then some (m.answer s rx tx) else none
  | .kernel, .retry s os =>
      if s ∈ m.pl.blockedQ then some { m with pl := (m.pl.retrySocket s os).pl } else none
  | .exec phase, .exec => some (m.execute phase)
  | .inside t, .co a => m.co t a
  | .back t, .unblock os =>
      some { m with pl := (m.pl.afterCall t os).pl, stage := .exec (m.pl.afterCall t os).phase }
  | _, _ => none

@[simp] theorem setPos_pl (m : Machine) (t : Nat) (p : Option (IoLoop × Nat)) :
    (m.setPos t p).pl = m.pl := rfl

@[simp] theorem setPos_stage (m : Machine) (t : Nat) (p : Option (IoLoop × Nat)) :
    (m.setPos t p).stage = m.stage := rfl

theorem setPos_pos (m : Machine) (t u : Nat) (p : Option (IoLoop × Nat)) :
    (m.setPos t p).pos u = if u = t then p else m.pos u :=
  Function.update_apply _ _ _ _

@[simp] theorem raise_sockets (m : Machine) (t : Nat) (e : Errno) :
    (m.raise t e).pl.sockets = m.pl.sockets :=
  ProcLocal.raiseAt_sockets m.pl t e

@[simp] theorem enterThread_sockets (m : Machine) (t : Nat) :
    (m.enterThread t).pl.sockets = m.pl.sockets := by
  unfold enterThread
  dsimp only
  split <;> rfl

@[simp] theorem execute_sockets (m : Machine) (phase : Phase) :
    (m.execute phase).pl.sockets = m.pl.sockets := by
  cases phase with
  | pick =>
      show m.pl.pickRun.pl.sockets = m.pl.sockets
      unfold ProcLocal.pickRun ProcLocal.dequeueRun
      cases m.pl.runQ <;> rfl
  | loop t =>
      unfold execute
      dsimp only
      split
      · exact enterThread_sockets m t
      · show (m.pl.leaveLoop t).pl.sockets = m.pl.sockets
        unfold ProcLocal.leaveLoop
        dsimp only
        split <;> rfl
  | returned rc => rfl

/-! ## The cases of a step -/

/-- What a step is. -/
inductive Stepped (m : Machine) : Act → Machine → Prop where
  | start (hst : m.stage = .kernel) : Stepped m .start { m with stage := .exec .pick }
  | play (hst : m.stage = .kernel) (t : Nat) :
      Stepped m (.play t) { m with pl := m.pl.enqueueRun t }
  | answer (hst : m.stage = .kernel) (s : Nat) (rx tx : Pollfd) (hs : s ∈ m.pl.blockedQ) :
      Stepped m (.answer s rx tx) (m.answer s rx tx)
  | retry (hst : m.stage = .kernel) (s : Nat) (os : Os) (hs : s ∈ m.pl.blockedQ) :
      Stepped m (.retry s os) { m with pl := (m.pl.retrySocket s os).pl }
  | exec (phase : Phase) (hst : m.stage = .exec phase) : Stepped m .exec (m.execute phase)
  | co (t : Nat) (hst : m.stage = .inside t) (a : CoAct) (m' : Machine) (hco : m.co t a = some m') :
      Stepped m (.co a) m'
  | unblock (t : Nat) (hst : m.stage = .back t) (os : Os) :
      Stepped m (.unblock os)
        { m with pl := (m.pl.afterCall t os).pl, stage := .exec (m.pl.afterCall t os).phase }

theorem stepped {a : Act} {m m' : Machine} (h : step a m = some m') : Stepped m a m' := by
  unfold step at h
  split at h
  case h_1 hst => cases h; exact .start hst
  case h_2 t hst => cases h; exact .play hst t
  case h_3 s rx tx hst =>
      split at h
      · cases h
        exact .answer hst s rx tx ‹_›
      · cases h
  case h_4 s os hst =>
      split at h
      · cases h
        exact .retry hst s os ‹_›
      · cases h
  case h_5 phase hst => cases h; exact .exec phase hst
  case h_6 t a hst => exact .co t hst a m' h
  case h_7 t os hst => cases h; exact .unblock t hst os
  case h_8 => cases h

/-- What a step of the coroutine `t` is. -/
inductive CoStepped (m : Machine) (t : Nat) : CoAct → Machine → Prop where
  | turn (k : IoLoop) (s : Nat) (hpos : m.pos t = some (k, s)) : CoStepped m t .turn (m.turn t k s)
  | call (hpos : m.pos t = none) (c : IoCall) (hknown : c.known = true) :
      CoStepped m t (.call c) (m.call t c)
  | readhup (hpos : m.pos t = none) (s : Nat) : CoStepped m t (.readhup s) (m.readhup t s)
  | play (hpos : m.pos t = none) (u : Nat) :
      CoStepped m t (.play u) { m with pl := m.pl.enqueueRun u }
  | store (hpos : m.pos t = none) (mem : Memory UInt8) :
      CoStepped m t (.store mem) { m with pl := { m.pl with mem := mem } }
  | raise (hpos : m.pos t = none) (e : Errno) : CoStepped m t (.raise e) (m.raise t e)
  | stop (hpos : m.pos t = none) (status : ProcStat) (hstatus : ¬(status = .wait ∨ status = .err)) :
      CoStepped m t (.stop status) { m with
        pl := m.pl.updThread t fun that => { that with status := status }
        stage := .back t }

theorem coStepped {m m' : Machine} {t : Nat} {a : CoAct} (h : m.co t a = some m') :
    CoStepped m t a m' := by
  unfold co at h
  split at h
  case h_1 k s hpos => cases h; exact .turn k s hpos
  case h_2 c hpos =>
      split at h
      · cases h
        exact .call hpos c ‹_›
      · cases h
  case h_3 s hpos => cases h; exact .readhup hpos s
  case h_4 u hpos => cases h; exact .play hpos u
  case h_5 mem hpos => cases h; exact .store hpos mem
  case h_6 e hpos => cases h; exact .raise hpos e
  case h_7 status hpos =>
      split at h
      · cases h
      · cases h
        exact .stop hpos status ‹_›
  case h_8 => cases h

end Machine

end Vk

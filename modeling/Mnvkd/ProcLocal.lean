/-
# `Mnvkd.ProcLocal` — threads and the queues of a process

A `struct vk_proc_local` schedules the coroutines of one process: a run queue
of threads and a blocked queue of sockets.  Each queue is an `SLIST`, inserted
at its head, whose members carry a flag that keeps them distinct.  Here the
threads and sockets of the process, and the memory its coroutines read and
write, are part of its state.
-/
import Mathlib.Logic.Function.Basic
import Mnvkd.Socket

namespace Vk

open Lib

/-- `enum VK_PROC_STAT`. -/
inductive ProcStat where
  | run
  | yield
  | listen
  | wait
  | err
  | ended
  deriving DecidableEq, Repr

/-- `struct vk_thread`, without what only its own function reads: where that
resumes and the memory it keeps. -/
structure Thread where
  status : ProcStat
  error : Errno
  socketPtr : Nat
  waitingSocketPtr : Option Nat
  runEnq : Bool
  deriving DecidableEq, Repr

/-- `vk_is_ready`. -/
def Thread.isReady (that : Thread) : Bool := that.status == .run || that.status == .err

/-- `vk_is_yielding`. -/
def Thread.isYielding (that : Thread) : Bool := that.status == .yield

/-- `struct vk_proc_local`. -/
structure ProcLocal where
  run : Bool
  blocked : Bool
  runQ : List Nat
  blockedQ : List Nat
  runningCr : Option Nat
  supervisorCr : Option Nat
  threads : Nat → Thread
  sockets : Nat → Socket
  mem : Memory UInt8
  errno : Errno

/-- `vk_init`: a thread that is to run, with its standard socket. -/
def Thread.init (socketPtr : Nat) : Thread where
  status := .run
  error := 0
  socketPtr := socketPtr
  waitingSocketPtr := none
  runEnq := false

namespace ProcLocal

/-- A process in memory that has been cleared, with `vk_proc_local_init`: no
thread, no socket, empty queues. -/
def init : ProcLocal where
  run := false
  blocked := false
  runQ := []
  blockedQ := []
  runningCr := none
  supervisorCr := none
  threads := fun _ => Thread.init 0
  sockets := fun _ => Socket.cleared
  mem := fun _ => 0
  errno := 0

def updThread (pl : ProcLocal) (t : Nat) (f : Thread → Thread) : ProcLocal :=
  { pl with threads := Function.update pl.threads t (f (pl.threads t)) }

def updSocket (pl : ProcLocal) (s : Nat) (f : Socket → Socket) : ProcLocal :=
  { pl with sockets := Function.update pl.sockets s (f (pl.sockets s)) }

/-- The thread `t` is initialised, with `s` its socket and these its pipes. -/
def initThread (pl : ProcLocal) (t s : Nat) (rxFd txFd : Pipe) : ProcLocal :=
  (pl.updSocket s fun socket => socket.init s t rxFd txFd).updThread t fun _ => Thread.init s

section Upd
variable (pl : ProcLocal) (t s w : Nat) (f : Thread → Thread) (g : Socket → Socket)

@[simp] theorem updThread_threads_self : (pl.updThread t f).threads t = f (pl.threads t) :=
  Function.update_self _ _ _

theorem updThread_threads :
    (pl.updThread t f).threads w = if w = t then f (pl.threads t) else pl.threads w :=
  Function.update_apply _ _ _ _

@[simp] theorem updThread_sockets : (pl.updThread t f).sockets = pl.sockets := rfl
@[simp] theorem updThread_runQ : (pl.updThread t f).runQ = pl.runQ := rfl
@[simp] theorem updThread_blockedQ : (pl.updThread t f).blockedQ = pl.blockedQ := rfl
@[simp] theorem updThread_mem : (pl.updThread t f).mem = pl.mem := rfl

@[simp] theorem updSocket_sockets_self : (pl.updSocket s g).sockets s = g (pl.sockets s) :=
  Function.update_self _ _ _

theorem updSocket_sockets :
    (pl.updSocket s g).sockets w = if w = s then g (pl.sockets s) else pl.sockets w :=
  Function.update_apply _ _ _ _

@[simp] theorem updSocket_threads : (pl.updSocket s g).threads = pl.threads := rfl
@[simp] theorem updSocket_runQ : (pl.updSocket s g).runQ = pl.runQ := rfl
@[simp] theorem updSocket_blockedQ : (pl.updSocket s g).blockedQ = pl.blockedQ := rfl
@[simp] theorem updSocket_mem : (pl.updSocket s g).mem = pl.mem := rfl
@[simp] theorem updSocket_errno : (pl.updSocket s g).errno = pl.errno := rfl

/-- Two changes of one socket are one. -/
theorem updSocket_updSocket (g' : Socket → Socket) :
    (pl.updSocket s g).updSocket s g' = pl.updSocket s fun socket => g' (g socket) := by
  simp [updSocket]

end Upd

/-! ## The run queue -/

/-- `vk_ready`: set a thread to run, unless it has ended or is to raise. -/
def ready (pl : ProcLocal) (t : Nat) : ProcLocal :=
  pl.updThread t fun that =>
    if that.status = .ended then that
    else if that.status = .err then that
    else { that with status := .run }

/-- `vk_proc_local_enqueue_run`. -/
def enqueueRun (pl : ProcLocal) (t : Nat) : ProcLocal :=
  let pl := pl.ready t
  if (pl.threads t).isReady && !(pl.threads t).runEnq then
    { pl with
      run := if pl.runQ.isEmpty then true else pl.run
      runQ := t :: pl.runQ }.updThread t fun that => { that with runEnq := true }
  else pl

@[simp] theorem enqueueRun_sockets (pl : ProcLocal) (t : Nat) :
    (pl.enqueueRun t).sockets = pl.sockets := by
  unfold enqueueRun
  dsimp only
  split
  · rfl
  · rfl

/-- A thread that is readied is ready, unless it has ended. -/
theorem isReady_ready {pl : ProcLocal} {t : Nat} (h : (pl.threads t).status ≠ .ended) :
    ((pl.ready t).threads t).isReady = true := by
  rw [ready, updThread_threads_self, if_neg h]
  split
  · rename_i herr
    simp [Thread.isReady, herr]
  · rfl

theorem isReady_enqueueRun {pl : ProcLocal} {t : Nat} (h : (pl.threads t).status ≠ .ended) :
    ((pl.enqueueRun t).threads t).isReady = true := by
  have hr := isReady_ready h
  unfold enqueueRun
  dsimp only
  split
  · rw [updThread_threads_self]
    exact hr
  · exact hr

/-- `vk_proc_local_drop_run`. -/
def dropRun (pl : ProcLocal) (t : Nat) : ProcLocal :=
  let pl :=
    if (pl.threads t).runEnq then
      { pl with runQ := pl.runQ.erase t }.updThread t fun that => { that with runEnq := false }
    else pl
  { pl with run := if pl.runQ.isEmpty then false else pl.run }

/-- `vk_proc_local_dequeue_run`. -/
def dequeueRun (pl : ProcLocal) : Option (Nat × ProcLocal) :=
  match pl.runQ with
  | [] => none
  | t :: rest =>
      some (t, { pl with
        run := if rest.isEmpty then false else pl.run
        runQ := rest }.updThread t fun that => { that with runEnq := false })

/-! ## The blocked queue -/

/-- `vk_proc_local_enqueue_blocked`. -/
def enqueueBlocked (pl : ProcLocal) (s : Nat) : ProcLocal :=
  if (pl.sockets s).blockedEnq then pl
  else
    { pl with
      blocked := if pl.blockedQ.isEmpty then true else pl.blocked
      blockedQ := s :: pl.blockedQ }.updSocket s fun socket => { socket with blockedEnq := true }

/-- `vk_proc_local_drop_blocked`. -/
def dropBlocked (pl : ProcLocal) (s : Nat) : ProcLocal :=
  let pl :=
    if (pl.sockets s).blockedEnq then
      { pl with blockedQ := pl.blockedQ.erase s }.updSocket s fun socket =>
        { socket with blockedEnq := false }
    else pl
  { pl with blocked := if pl.blockedQ.isEmpty then false else pl.blocked }

/-- `vk_proc_local_drop_blocked_for`: drop every socket that blocks thread `t`. -/
def dropBlockedFor (pl : ProcLocal) (t : Nat) : ProcLocal :=
  pl.blockedQ.foldl
    (fun pl s => if (pl.sockets s).block.blockedVk = t then pl.dropBlocked s else pl) pl

/-- `vk_proc_local_dequeue_blocked`. -/
def dequeueBlocked (pl : ProcLocal) : Option (Nat × ProcLocal) :=
  match pl.blockedQ with
  | [] => none
  | s :: rest =>
      some (s, { pl with
        blocked := if rest.isEmpty then false else pl.blocked
        blockedQ := rest }.updSocket s fun socket => { socket with blockedEnq := false })

/-- `vk_proc_local_is_zombie`. -/
def isZombie (pl : ProcLocal) : Bool := pl.runQ.isEmpty && pl.blockedQ.isEmpty

/-! ## Raising -/

/-- `vk_raise_at`: restart a thread at its error handler. -/
def raiseAt (pl : ProcLocal) (t : Nat) (e : Errno) : ProcLocal :=
  let pl := pl.updThread t fun that => { that with error := e }
  let pl := pl.enqueueRun t
  pl.updThread t fun that => { that with status := .err }

@[simp] theorem raiseAt_sockets (pl : ProcLocal) (t : Nat) (e : Errno) :
    (pl.raiseAt t e).sockets = pl.sockets :=
  enqueueRun_sockets _ t

/-- `vk_proc_local_raise_signal`: a signal interrupted the running thread. -/
def raiseSignal (pl : ProcLocal) : ProcLocal × Bool :=
  match pl.runningCr with
  | some t =>
      let that := pl.supervisorCr.getD t
      ((pl.enqueueRun that).raiseAt that Errno.EFAULT, true)
  | none => (pl, false)

end ProcLocal

end Vk

/-
# `Mnvkd.Kern` — the kernel, its processes and their heaps

A `struct vk_kern` runs its processes in turn: `vk_kern_postpoll` enqueues those
with an event and dispatches what is in its run queue until that is empty, and
then `vk_kern_prepoll` and the poller have their turn.  A process runs with its
own heap entered; the kernel's heap is masked unless the process is privileged,
and an isolated process's heap is masked when the process is not running.  A
fault in a process is a signal, which enters both heaps and executes the process
again.

The kernel is a machine whose steps are the calls that its loop makes.  What the
coroutines of a process do with its memory is a parameter of the steps, as is
what the system answers; a process's memory is its `ProcLocal`.
-/
import Mnvkd.Heap
import Mnvkd.Poller

namespace Vk

open Lib

/-! ## Processes -/

/-- A process's memory.  The shutdown detaches sockets from their threads: their
block's `blocked_vk` is null. -/
structure Local where
  pl : ProcLocal
  detached : Nat → Bool

namespace Local

/-- A new process, with `vk_proc_local_init`. -/
def init : Local := ⟨ProcLocal.init, fun _ => false⟩

/-- `VK_INIT`: thread `t` is to serve the connection `fd`. -/
def initThread (l : Local) (t s : Nat) (fd : Int) : Local :=
  { l with pl := l.pl.initThread t s (Pipe.initFd fd .socketStream) (Pipe.initFd fd .socketStream) }

/-- `vk_play`. -/
def play (l : Local) (t : Nat) : Local := { l with pl := l.pl.enqueueRun t }

/-- One socket of the loop in `vk_kern_prepoll`: it is unblocked, and its thread
is to raise `EINTR`. -/
def wakeSocket (l : Local) (s : Nat) : Local :=
  let that := if l.detached s then none else some (l.pl.sockets s).block.blockedVk
  let pl := l.pl.updSocket s fun socket =>
    { socket with rx := socket.rx.setRxBlocked false, tx := socket.tx.setTxBlocked false }
  let pl := pl.dropBlocked s
  ⟨match that with
    | some t => (pl.enqueueRun t).raiseAt t Errno.EINTR
    | none => pl,
    Function.update l.detached s true⟩

end Local

/-- `struct vk_proc`, of which `vk_proc_clear` keeps only the number it goes by.
`pool`: the entry its heap has in the server's pool. -/
structure KernProc where
  pool : Option Nat
  runQed : Bool
  blockedQed : Bool
  allocatedFds : List Nat
  localPtr : Option Local
  heap : Heap
  privileged : Bool
  isolated : Bool

/-- `vk_proc_clear`. -/
def KernProc.clear : KernProc where
  pool := none
  runQed := false
  blockedQed := false
  allocatedFds := []
  localPtr := none
  heap := Heap.cleared
  privileged := false
  isolated := false

/-- `vk_proc_is_zombie`. -/
def KernProc.isZombie (proc : KernProc) : Bool := !(proc.runQed || proc.blockedQed)

/-! ## The kernel -/

/-- Where the loop of the kernel stands: in the first loop of `vk_kern_postpoll`,
in its second, with a process taken off the run queue, in the coroutines of a
process, before `vk_kern_prepoll`, before `vk_kern_poll`, or out of the loop. -/
inductive KernStage where
  | fresh
  | dispatch
  | taken (p : Nat)
  | running (p : Nat)
  | prepoll
  | poll
  | stop
  deriving DecidableEq, Repr

/-- `struct vk_kern`, with the server's pool of heaps, what the system has mapped,
and the descriptor that `struct vk_kern_mainline_udata` has a copy of.

`looping`: the loop's first `vk_kern_postpoll` is over.  The last three are
history: each access to a process's memory with whether its pages allowed it, and
since the last `vk_kern_prepoll` the processes it has woken and those that have
been dispatched. -/
structure Kern where
  hd : Heap
  fdTable : PollTable
  procCount : Nat
  freeProcs : List Nat
  procs : Nat → KernProc
  runProcs : List Nat
  blockedProcs : List Nat
  shutdownRequested : Bool
  kernHd : Heap
  freeEntries : List Nat
  entryHeap : Nat → Heap
  pages : Pages
  stage : KernStage
  looping : Bool
  touches : List (Nat × Bool)
  woken : List Nat
  dispatched : List Nat

namespace Kern

def updProc (k : Kern) (p : Nat) (f : KernProc → KernProc) : Kern :=
  { k with procs := Function.update k.procs p (f (k.procs p)) }

def setLocal (k : Kern) (p : Nat) (l : Local) : Kern :=
  k.updProc p fun proc => { proc with localPtr := some l }

def setStage (k : Kern) (stage : KernStage) : Kern := { k with stage := stage }

/-- The pages of process `p` may be accessed. -/
def Accessible (k : Kern) (p : Nat) : Prop := k.pages (k.procs p).heap.addr = some true

instance (k : Kern) (p : Nat) : Decidable (k.Accessible p) := inferInstanceAs (Decidable (_ = _))

/-- The memory of process `p` is read or written. -/
def touch (k : Kern) (p : Nat) : Kern :=
  { k with touches := (p, decide (k.Accessible p)) :: k.touches }

/-! ## Heaps -/

/-- `vk_heap_enter` on the descriptor of a process. -/
def heapEnter (k : Kern) (p : Nat) : Kern :=
  let entered := (k.procs p).heap.enter k.pages
  { k with pages := entered.2 }.updProc p fun proc => { proc with heap := entered.1 }

/-- `vk_heap_exit` on the descriptor of a process. -/
def heapExit (k : Kern) (p : Nat) : Kern :=
  let exited := (k.procs p).heap.exit k.pages
  { k with pages := exited.2 }.updProc p fun proc => { proc with heap := exited.1 }

/-- `vk_heap_enter` on the copy of the kernel's descriptor. -/
def kernEnter (k : Kern) : Kern :=
  { k with kernHd := (k.kernHd.enter k.pages).1, pages := (k.kernHd.enter k.pages).2 }

/-- `vk_kern_mainline_udata_open_kern_hd`, and `vk_heap_exit` on the copy. -/
def kernExit (k : Kern) : Kern :=
  { k with kernHd := (k.hd.exit k.pages).1, pages := (k.hd.exit k.pages).2 }

/-! ## Queues -/

/-- `vk_kern_enqueue_run`. -/
def enqueueRun (k : Kern) (p : Nat) : Kern :=
  if (k.procs p).runQed then k
  else { k with runProcs := p :: k.runProcs }.updProc p fun proc => { proc with runQed := true }

/-- `vk_kern_enqueue_blocked`. -/
def enqueueBlocked (k : Kern) (p : Nat) : Kern :=
  if (k.procs p).blockedQed then k
  else
    { k with blockedProcs := p :: k.blockedProcs }.updProc p fun proc => { proc with blockedQed := true }

/-- `vk_kern_drop_run`. -/
def dropRun (k : Kern) (p : Nat) : Kern :=
  if (k.procs p).runQed then
    { k with runProcs := k.runProcs.erase p }.updProc p fun proc => { proc with runQed := false }
  else k

/-- `vk_kern_drop_blocked`. -/
def dropBlocked (k : Kern) (p : Nat) : Kern :=
  if (k.procs p).blockedQed then
    { k with blockedProcs := k.blockedProcs.erase p }.updProc p fun proc =>
      { proc with blockedQed := false }
  else k

/-- `vk_kern_flush_proc_queues`.  It follows the pointer to the process's memory,
which no process that is flushed is without. -/
def flushProcQueues (k : Kern) (p : Nat) : Kern :=
  match (k.procs p).localPtr with
  | none => k
  | some l =>
      let k := k.touch p
      let k := if l.pl.run then k.enqueueRun p else k.dropRun p
      if l.pl.blocked then k.enqueueBlocked p else k.dropBlocked p

/-- `vk_kern_pending`. -/
def pending (k : Kern) : Bool := !(k.runProcs.isEmpty && k.blockedProcs.isEmpty)

/-! ## Signals -/

/-- What `vk_kern_dump` does with one process. -/
def dumpProc (k : Kern) (p : Nat) : Kern :=
  if (k.procs p).isZombie then k
  else
    match (k.procs p).localPtr with
    | none => k
    | some _ =>
        if (k.procs p).heap.entered then k.touch p
        else ((k.heapEnter p).touch p).heapExit p

/-- `vk_kern_dump`. -/
def dump (k : Kern) : Kern := (List.range k.procCount).foldl dumpProc k

/-- The signals that `vk_kern_sync_signal_handler` tells apart. -/
inductive Signal where
  | term
  | usr1
  deriving DecidableEq, Repr

/-- `vk_kern_sync_signal_handler`. -/
def syncSignalHandler (k : Kern) : Signal → Kern
  | .term => { k with shutdownRequested := true }
  | .usr1 => k.dump

/-! ## Prepoll and poll -/

/-- `vk_proc_set_run`: the flag, without the queue. -/
def setRun (k : Kern) (p : Nat) (run : Bool) : Kern :=
  k.updProc p fun proc => { proc with runQed := run }

/-- What `vk_kern_prepoll` does with one blocked process. -/
def wakeProc (k : Kern) (p : Nat) : Kern :=
  match (k.procs p).localPtr with
  | none => k
  | some l =>
      -- "mark process runnable so flush can promote it"
      let k := (k.setRun p true).touch p
      let l := l.pl.blockedQ.foldl Local.wakeSocket l
      let k := (k.setLocal p l).flushProcQueues p
      if l.pl.run then { k with woken := p :: k.woken } else k

/-- The history starts again with each prepoll. -/
def startPrepoll (k : Kern) : Kern :=
  { k with stage := .poll, looping := true, woken := [], dispatched := [] }

/-- `vk_kern_prepoll`. -/
def prepoll (k : Kern) : Kern :=
  let k := k.startPrepoll
  if k.shutdownRequested then k.blockedProcs.foldl wakeProc k else k

/-- `vk_kern_poll`. -/
def poll (k : Kern) (revents : Int → Events) : Kern :=
  { k with fdTable := k.fdTable.poll k.pending revents, stage := .fresh }

/-- The first loop of `vk_kern_postpoll`. -/
def dequeueFresh (k : Kern) : Kern :=
  let fresh := k.fdTable.freshFds
  let table := { k.fdTable with freshFds := [], freshQed := fun _ => false }
  let k := { k with fdTable := table, stage := .dispatch }
  fresh.foldl (fun k i => k.enqueueRun (k.fdTable.tbl.fds i).procId) k

/-- `vk_kern_dequeue_run`; when the queue is empty, the loop goes on as long as
something is pending. -/
def dequeueRun (k : Kern) : Kern :=
  match k.runProcs with
  | p :: rest =>
      { k with runProcs := rest, stage := .taken p }.updProc p fun proc => { proc with runQed := false }
  | [] => if k.looping && !k.pending then k.dump.setStage .stop else k.setStage .prepoll

/-! ## Execution -/

/-- The process and the table, as `vk_proc_prepoll` has them. -/
def polled (k : Kern) (p : Nat) (pl : ProcLocal) : Polled :=
  ⟨⟨p, (k.procs p).allocatedFds, pl⟩, k.fdTable.tbl⟩

/-- What they are afterwards. -/
def setPolled (k : Kern) (p : Nat) (st : Polled) : Kern :=
  { k with fdTable := { k.fdTable with tbl := st.tbl } }.updProc p fun proc =>
    { proc with allocatedFds := st.proc.allocatedFds }

/-- `vk_proc_prepoll`. -/
def prepollProc (k : Kern) (p : Nat) : Kern :=
  match (k.procs p).localPtr with
  | none => k
  | some l => (k.touch p).setPolled p (k.polled p l.pl).prepoll

/-- The end of a zombie: its descriptors are given up, its heap goes back to the
pool or is unmapped, and the process is free again. -/
def freeProc (k : Kern) (p : Nat) : Kern :=
  let k := k.setPolled p (k.polled p ProcLocal.init).prepollZombie
  let k :=
    match (k.procs p).pool with
    | none => { k with pages := k.pages.munmap (k.procs p).heap.addr }
    | some e => { k with freeEntries := e :: k.freeEntries }.heapExit p
  { k with freeProcs := p :: k.freeProcs }.updProc p fun _ => KernProc.clear

/-- `vk_kern_dispatch_proc`, after the process has been executed. -/
def afterExecute (k : Kern) (p : Nat) : Kern :=
  let k := k.flushProcQueues p
  let k :=
    if (k.procs p).isZombie then k.freeProc p
    else if (k.procs p).isolated then k.heapExit p
    else k
  k.setStage .dispatch

/-- `vk_proc_execute`, up to the call of the executor.  `postpoll`: what
`vk_proc_postpoll` makes of the process's memory, if it does not fail; it is not
called when a signal has interrupted a thread.  That `vk_proc_execute` has failed
is forgotten by `vk_proc_execute_mainline`. -/
def execute (k : Kern) (p : Nat) (postpoll : Option Local) : Kern :=
  match (k.procs p).localPtr with
  | none => k.afterExecute p
  | some l =>
      let k := k.touch p
      let l := if l.pl.runningCr.isSome then some { l with pl := l.pl.raiseSignal.1 } else postpoll
      match l with
      | none => k.afterExecute p
      | some l =>
          let k := (k.setLocal p l).heapEnter p
          (if (k.procs p).privileged then k else k.kernExit).setStage (.running p)

/-- `vk_kern_dispatch_proc`, up to the call of the executor.  The new
`struct vk_kern_mainline_udata` has whatever there was for a descriptor. -/
def dispatchProc (k : Kern) (p : Nat) (kernHd : Heap) (postpoll : Option Local) : Kern :=
  let k := k.heapEnter p
  { k with kernHd := kernHd, dispatched := p :: k.dispatched }.execute p postpoll

/-- `vk_proc_execute_jumper`: a signal has interrupted the process. -/
def executeJumper (k : Kern) (p : Nat) (postpoll : Option Local) : Kern :=
  (((k.kernEnter).heapEnter p).touch p).execute p postpoll

/-- `vk_proc_execute`, after the executor has returned `rc`. -/
def leave (k : Kern) (p : Nat) (rc : Int) : Kern :=
  let k := if (k.procs p).privileged then k else k.kernEnter
  (if rc = -1 then k else k.prepollProc p).afterExecute p

/-! ## The listener -/

/-- How a connection's setup ends: its process has no room for the thread, or
none for the argument, or it is played. -/
inductive Setup where
  | noThread
  | noArg
  | played
  deriving DecidableEq, Repr

/-- An accepted connection, with the server's flags and what the system answers:
whether the heap of the pool has room for a `ProcLocal`, and where a heap of the
process's own is mapped, if it is and has room. -/
structure Accept where
  fd : Int
  pooled : Bool
  privileged : Bool
  isolated : Bool
  fits : Bool
  mapped : Option Nat
  thread : Nat
  socket : Nat
  setup : Setup

/-- `vk_proc_alloc_from_pool`; `false` where it fails, for want of memory. -/
def allocFromPool (k : Kern) (p : Nat) (fits : Bool) : Kern × Bool :=
  match k.freeEntries with
  | [] => (k, false)
  | e :: rest =>
      let k := { k with freeEntries := rest }.updProc p fun proc => { proc with heap := k.entryHeap e }
      let k := k.heapEnter p
      if fits then
        ((k.updProc p fun proc =>
          { proc with
            localPtr := some Local.init, pool := some e, runQed := false, blockedQed := false }).touch p,
          true)
      else
        ({ k with freeEntries := e :: rest }.updProc p fun proc => { proc with localPtr := none }, false)

/-- `VK_PROC_INIT_PRIVATE`, with the heap entered. -/
def initPrivate (k : Kern) (p : Nat) (mapped : Option Nat) : Kern × Bool :=
  match mapped with
  | none => (k, false)
  | some addr =>
      -- no mapping is made where there is one
      if k.pages addr = none then
        (({ k with pages := k.pages.mmap addr true }.updProc p fun proc =>
          { proc with
            localPtr := some Local.init, runQed := false, blockedQed := false,
            heap := Heap.map addr true }).touch p, true)
      else (k, false)

/-- The heap of a new process, from the pool or its own. -/
def allocHeap (k : Kern) (p : Nat) (a : Accept) : Kern × Bool :=
  if a.pooled then
    let pool := k.allocFromPool p a.fits
    if pool.2 then pool else pool.1.initPrivate p a.mapped
  else k.initPrivate p a.mapped

/-- The flags of the new process, and its thread. -/
def setupProc (k : Kern) (p : Nat) (a : Accept) : Kern :=
  let k := k.updProc p fun proc => { proc with privileged := a.privileged, isolated := a.isolated }
  -- `vk_proc_alloc_thread` leaves the heap open
  let k := (k.heapEnter p).touch p
  let l := Local.init.initThread a.thread a.socket a.fd
  match a.setup with
  | .noThread => k
  | .noArg => k.setLocal p l
  | .played => ((k.setLocal p (l.play a.thread)).flushProcQueues p).heapExit p

/-- `vk_service_listener`, what it does with a connection.  Where it fails it
goes to its error handler, and so on with its own memory. -/
def accept (k : Kern) (a : Accept) : Kern :=
  match k.freeProcs with
  | [] => k
  | p :: rest =>
      let alloc := { k with freeProcs := rest }.allocHeap p a
      if alloc.2 then alloc.1.setupProc p a else alloc.1

end Kern

/-! ## The start -/

/-- What a kernel starts with: where its heap is mapped, its pool of processes and
the server's of heaps, and the flags and the memory of its first process. -/
structure Boot where
  kernAddr : Nat
  procCount : Nat
  fdCount : Nat
  entryCount : Nat
  entryAddr : Nat → Nat
  addr : Nat
  privileged : Bool
  isolated : Bool
  thread : Nat
  socket : Nat
  procCount_pos : 0 < procCount
  addr_ne : addr ≠ kernAddr
  entryAddr_injective : Function.Injective entryAddr
  entryAddr_ne_kernAddr : ∀ e, entryAddr e ≠ kernAddr
  entryAddr_ne_addr : ∀ e, entryAddr e ≠ addr

namespace Kern

/-- `vk_kern_alloc`, and `vk_pool_init` for the heaps of the server. -/
def alloc (b : Boot) : Kern where
  hd := Heap.map b.kernAddr true
  fdTable :=
    ⟨⟨b.fdCount, [], fun _ => ⟨0, 0, false, false, false, false, false,
      ⟨none, ⟨0, 0, 0⟩, 0, 0, false, false⟩⟩⟩, [], fun _ => false⟩
  procCount := b.procCount
  freeProcs := List.range b.procCount
  procs := fun _ => KernProc.clear
  runProcs := []
  blockedProcs := []
  shutdownRequested := false
  kernHd := Heap.cleared
  freeEntries := List.range b.entryCount
  entryHeap := fun e => Heap.map (b.entryAddr e) false
  pages := fun addr =>
    if addr = b.kernAddr then some true
    else if addr ∈ (List.range b.entryCount).map b.entryAddr then some false
    else none
  stage := .fresh
  looping := false
  touches := []
  woken := []
  dispatched := []

/-- The first process, with its thread to run.  `vk_proc_alloc` leaves its heap
again, and `vk_proc_alloc_thread` does not. -/
def bootProc (b : Boot) : Kern :=
  let k := { alloc b with freeProcs := (List.range b.procCount).tail }
  let k := { k with pages := k.pages.mmap b.addr false }.updProc 0 fun proc =>
    { proc with heap := Heap.map b.addr false, localPtr := some Local.init }
  let k := ((k.heapEnter 0).touch 0).heapExit 0
  let k := k.updProc 0 fun proc => { proc with privileged := b.privileged, isolated := b.isolated }
  let k := (k.heapEnter 0).touch 0
  k.setLocal 0 ((Local.init.initThread b.thread b.socket 0).play b.thread)

/-- `vk_main_init` and `vk_server_init` alike, up to the loop. -/
def boot (b : Boot) : Kern := (bootProc b).flushProcQueues 0

end Kern

/-! ## The machine -/

/-- What the kernel and its processes do. -/
inductive KernAct where
  | dequeueFresh
  | dequeueRun
  | signal (signo : Kern.Signal)
  | dispatch (kernHd : Heap) (postpoll : Option Local)
  | compute (l : Local)
  | accept (a : Kern.Accept)
  | fault (postpoll : Option Local)
  | leave (rc : Int)
  | prepoll
  | poll (revents : Int → Events)
  | pollError

/-- `vk_kern_receive_signal` is called here. -/
def KernStage.receives : KernStage → Bool
  | .dispatch | .taken _ | .poll => true
  | .fresh | .running _ | .prepoll | .stop => false

namespace Kern

/-- One step of `vk_kern_loop`.  A process accepts connections only while it can
access the kernel. -/
def step : KernAct → Kern → Option Kern
  | .dequeueFresh, k => if k.stage = .fresh then some k.dequeueFresh else none
  | .dequeueRun, k => if k.stage = .dispatch then some k.dequeueRun else none
  | .signal signo, k => if k.stage.receives then some (k.syncSignalHandler signo) else none
  | .dispatch kernHd postpoll, k =>
      match k.stage with
      | .taken p => some (k.dispatchProc p kernHd postpoll)
      | _ => none
  | .compute l, k =>
      match k.stage with
      | .running p => some (k.setLocal p l)
      | _ => none
  | .accept a, k =>
      match k.stage with
      | .running _ => if k.pages k.hd.addr = some true then some (k.accept a) else none
      | _ => none
  | .fault postpoll, k =>
      match k.stage with
      | .running p => some (k.executeJumper p postpoll)
      | _ => none
  | .leave rc, k =>
      match k.stage with
      | .running p => some (k.leave p rc)
      | _ => none
  | .prepoll, k => if k.stage = .prepoll then some k.prepoll else none
  | .poll revents, k => if k.stage = .poll then some (k.poll revents) else none
  | .pollError, k => if k.stage = .poll then some (k.setStage .stop) else none

/-- What a step does. -/
inductive Steps (k : Kern) : KernAct → Kern → Prop
  | dequeueFresh (hst : k.stage = .fresh) : Steps k .dequeueFresh k.dequeueFresh
  | dequeueRun (hst : k.stage = .dispatch) : Steps k .dequeueRun k.dequeueRun
  | signal (signo : Signal) (hst : k.stage.receives = true) :
      Steps k (.signal signo) (k.syncSignalHandler signo)
  | dispatch (p : Nat) (kernHd : Heap) (postpoll : Option Local) (hst : k.stage = .taken p) :
      Steps k (.dispatch kernHd postpoll) (k.dispatchProc p kernHd postpoll)
  | compute (p : Nat) (l : Local) (hst : k.stage = .running p) : Steps k (.compute l) (k.setLocal p l)
  | accept (p : Nat) (a : Accept) (hst : k.stage = .running p) (hkern : k.pages k.hd.addr = some true) :
      Steps k (.accept a) (k.accept a)
  | fault (p : Nat) (postpoll : Option Local) (hst : k.stage = .running p) :
      Steps k (.fault postpoll) (k.executeJumper p postpoll)
  | leave (p : Nat) (rc : Int) (hst : k.stage = .running p) : Steps k (.leave rc) (k.leave p rc)
  | prepoll (hst : k.stage = .prepoll) : Steps k .prepoll k.prepoll
  | poll (revents : Int → Events) (hst : k.stage = .poll) : Steps k (.poll revents) (k.poll revents)
  | pollError (hst : k.stage = .poll) : Steps k .pollError (k.setStage .stop)

theorem steps_of_step {a : KernAct} {k k' : Kern} (h : step a k = some k') : Steps k a k' := by
  cases a with
  | dequeueFresh =>
      obtain ⟨hst, hk⟩ := Option.ite_none_right_eq_some.mp h
      exact Option.some.inj hk ▸ .dequeueFresh hst
  | dequeueRun =>
      obtain ⟨hst, hk⟩ := Option.ite_none_right_eq_some.mp h
      exact Option.some.inj hk ▸ .dequeueRun hst
  | signal signo =>
      obtain ⟨hst, hk⟩ := Option.ite_none_right_eq_some.mp h
      exact Option.some.inj hk ▸ .signal signo hst
  | dispatch kernHd postpoll =>
      simp only [step] at h
      split at h
      · rename_i p hst
        exact Option.some.inj h ▸ .dispatch p kernHd postpoll hst
      · cases h
  | compute l =>
      simp only [step] at h
      split at h
      · rename_i p hst
        exact Option.some.inj h ▸ .compute p l hst
      · cases h
  | accept a =>
      simp only [step] at h
      split at h
      · rename_i p hst
        obtain ⟨hkern, hk⟩ := Option.ite_none_right_eq_some.mp h
        exact Option.some.inj hk ▸ .accept p a hst hkern
      · cases h
  | fault postpoll =>
      simp only [step] at h
      split at h
      · rename_i p hst
        exact Option.some.inj h ▸ .fault p postpoll hst
      · cases h
  | leave rc =>
      simp only [step] at h
      split at h
      · rename_i p hst
        exact Option.some.inj h ▸ .leave p rc hst
      · cases h
  | prepoll =>
      obtain ⟨hst, hk⟩ := Option.ite_none_right_eq_some.mp h
      exact Option.some.inj hk ▸ .prepoll hst
  | poll revents =>
      obtain ⟨hst, hk⟩ := Option.ite_none_right_eq_some.mp h
      exact Option.some.inj hk ▸ .poll revents hst
  | pollError =>
      obtain ⟨hst, hk⟩ := Option.ite_none_right_eq_some.mp h
      exact Option.some.inj hk ▸ .pollError hst

end Kern

end Vk

/-
# `Mnvkd.KernFrame` — what the steps of the kernel leave alone

The state of the kernel has parts that its functions change one at a time: the queues
with their flags, the descriptor table with the processes' lists of slots, the heaps, and
the course of the loop.  Each is a view of the state, and a function that does not
work on a part leaves its view as it is.
-/
import Mnvkd.Kern
import Mnvkd.Lib.Run

namespace Vk

/-- The queues, and which processes have memory. -/
structure Sched where
  runProcs : List Nat
  blockedProcs : List Nat
  freeProcs : List Nat
  runQed : Nat → Bool
  blockedQed : Nat → Bool
  live : Nat → Bool

/-- The table, and the slots of each process. -/
structure Slots where
  table : PollTable
  allocatedFds : Nat → List Nat
  live : Nat → Bool

/-- The heaps: the kernel's, those of the server's pool, and the processes'. -/
structure Heaps where
  hd : Heap
  kernHd : Heap
  pages : Pages
  freeEntries : List Nat
  entryHeap : Nat → Heap
  heap : Nat → Heap
  pool : Nat → Option Nat
  privileged : Nat → Bool
  isolated : Nat → Bool
  live : Nat → Bool

/-- The stage, the history of the dispatches, and the descriptors of the server's pool. -/
structure Course where
  stage : KernStage
  woken : List Nat
  dispatched : List Nat
  entryHeap : Nat → Heap

namespace Kern

def Live (k : Kern) (p : Nat) : Prop := (k.procs p).localPtr.isSome = true

def sched (k : Kern) : Sched where
  runProcs := k.runProcs
  blockedProcs := k.blockedProcs
  freeProcs := k.freeProcs
  runQed := fun p => (k.procs p).runQed
  blockedQed := fun p => (k.procs p).blockedQed
  live := fun p => (k.procs p).localPtr.isSome

def slots (k : Kern) : Slots where
  table := k.fdTable
  allocatedFds := fun p => (k.procs p).allocatedFds
  live := fun p => (k.procs p).localPtr.isSome

def heaps (k : Kern) : Heaps where
  hd := k.hd
  kernHd := k.kernHd
  pages := k.pages
  freeEntries := k.freeEntries
  entryHeap := k.entryHeap
  heap := fun p => (k.procs p).heap
  pool := fun p => (k.procs p).pool
  privileged := fun p => (k.procs p).privileged
  isolated := fun p => (k.procs p).isolated
  live := fun p => (k.procs p).localPtr.isSome

def course (k : Kern) : Course where
  stage := k.stage
  woken := k.woken
  dispatched := k.dispatched
  entryHeap := k.entryHeap

/-! ## Changing one process -/

section Update
variable (k : Kern) (p : Nat) (f : KernProc → KernProc)

@[simp] theorem updProc_procs_self : (k.updProc p f).procs p = f (k.procs p) :=
  Function.update_self _ _ _

theorem updProc_procs (q : Nat) :
    (k.updProc p f).procs q = if q = p then f (k.procs p) else k.procs q :=
  Function.update_apply _ _ _ _

/-- A field of the processes after one of them has changed. -/
theorem field_updProc {β : Type} (g : KernProc → β) :
    (fun q => g ((k.updProc p f).procs q)) =
      Function.update (fun q => g (k.procs q)) p (g (f (k.procs p))) := by
  funext q
  rw [updProc_procs, Function.update_apply]
  split <;> rfl

theorem sched_updProc :
    (k.updProc p f).sched =
      { k.sched with
        runQed := Function.update k.sched.runQed p (f (k.procs p)).runQed
        blockedQed := Function.update k.sched.blockedQed p (f (k.procs p)).blockedQed
        live := Function.update k.sched.live p (f (k.procs p)).localPtr.isSome } := by
  simp only [sched, field_updProc k p f KernProc.runQed, field_updProc k p f KernProc.blockedQed,
    field_updProc k p f fun proc => proc.localPtr.isSome]
  rfl

theorem slots_updProc :
    (k.updProc p f).slots =
      { k.slots with
        allocatedFds := Function.update k.slots.allocatedFds p (f (k.procs p)).allocatedFds
        live := Function.update k.slots.live p (f (k.procs p)).localPtr.isSome } := by
  simp only [slots, field_updProc k p f KernProc.allocatedFds,
    field_updProc k p f fun proc => proc.localPtr.isSome]
  rfl

theorem heaps_updProc :
    (k.updProc p f).heaps =
      { k.heaps with
        heap := Function.update k.heaps.heap p (f (k.procs p)).heap
        pool := Function.update k.heaps.pool p (f (k.procs p)).pool
        privileged := Function.update k.heaps.privileged p (f (k.procs p)).privileged
        isolated := Function.update k.heaps.isolated p (f (k.procs p)).isolated
        live := Function.update k.heaps.live p (f (k.procs p)).localPtr.isSome } := by
  simp only [heaps, field_updProc k p f KernProc.heap, field_updProc k p f KernProc.pool,
    field_updProc k p f KernProc.privileged, field_updProc k p f KernProc.isolated,
    field_updProc k p f fun proc => proc.localPtr.isSome]
  rfl

variable {k p f}

theorem sched_updProc_of (hrun : (f (k.procs p)).runQed = (k.procs p).runQed)
    (hblocked : (f (k.procs p)).blockedQed = (k.procs p).blockedQed)
    (hlive : (f (k.procs p)).localPtr.isSome = (k.procs p).localPtr.isSome) :
    (k.updProc p f).sched = k.sched := by
  rw [sched_updProc, hrun, hblocked, hlive]
  simp only [sched, Function.update_eq_self_iff.mpr]

theorem slots_updProc_of (hfds : (f (k.procs p)).allocatedFds = (k.procs p).allocatedFds)
    (hlive : (f (k.procs p)).localPtr.isSome = (k.procs p).localPtr.isSome) :
    (k.updProc p f).slots = k.slots := by
  rw [slots_updProc, hfds, hlive]
  simp only [slots, Function.update_eq_self_iff.mpr]

theorem heaps_updProc_of (hheap : (f (k.procs p)).heap = (k.procs p).heap)
    (hpool : (f (k.procs p)).pool = (k.procs p).pool)
    (hprivileged : (f (k.procs p)).privileged = (k.procs p).privileged)
    (hisolated : (f (k.procs p)).isolated = (k.procs p).isolated)
    (hlive : (f (k.procs p)).localPtr.isSome = (k.procs p).localPtr.isSome) :
    (k.updProc p f).heaps = k.heaps := by
  rw [heaps_updProc, hheap, hpool, hprivileged, hisolated, hlive]
  simp only [heaps, Function.update_eq_self_iff.mpr]

end Update

/-! ## Stages, accesses and signals -/

section Frame
variable (k : Kern) (p : Nat)

@[simp] theorem setStage_sched (stage : KernStage) : (k.setStage stage).sched = k.sched := rfl
@[simp] theorem setStage_slots (stage : KernStage) : (k.setStage stage).slots = k.slots := rfl
@[simp] theorem setStage_heaps (stage : KernStage) : (k.setStage stage).heaps = k.heaps := rfl
@[simp] theorem setStage_stage (stage : KernStage) : (k.setStage stage).stage = stage := rfl

@[simp] theorem touch_sched : (k.touch p).sched = k.sched := rfl
@[simp] theorem touch_slots : (k.touch p).slots = k.slots := rfl
@[simp] theorem touch_heaps : (k.touch p).heaps = k.heaps := rfl
@[simp] theorem touch_procs : (k.touch p).procs = k.procs := rfl

variable {k p}

theorem setLocal_sched {l : Local} (h : k.Live p) : (k.setLocal p l).sched = k.sched :=
  sched_updProc_of rfl rfl (by rw [h]; rfl)

theorem setLocal_slots {l : Local} (h : k.Live p) : (k.setLocal p l).slots = k.slots :=
  slots_updProc_of rfl (by rw [h]; rfl)

theorem setLocal_heaps {l : Local} (h : k.Live p) : (k.setLocal p l).heaps = k.heaps :=
  heaps_updProc_of rfl rfl rfl rfl (by rw [h]; rfl)

variable (k p)

/-! ## Heaps -/

@[simp] theorem heapEnter_sched : (k.heapEnter p).sched = k.sched := sched_updProc_of rfl rfl rfl

@[simp] theorem heapEnter_slots : (k.heapEnter p).slots = k.slots := slots_updProc_of rfl rfl

@[simp] theorem heapExit_sched : (k.heapExit p).sched = k.sched := sched_updProc_of rfl rfl rfl

@[simp] theorem heapExit_slots : (k.heapExit p).slots = k.slots := slots_updProc_of rfl rfl

@[simp] theorem heapEnter_localPtr (q : Nat) :
    ((k.heapEnter p).procs q).localPtr = (k.procs q).localPtr := by
  rw [heapEnter, updProc_procs]
  split
  · subst q
    rfl
  · rfl

@[simp] theorem heapExit_localPtr (q : Nat) :
    ((k.heapExit p).procs q).localPtr = (k.procs q).localPtr := by
  rw [heapExit, updProc_procs]
  split
  · subst q
    rfl
  · rfl

@[simp] theorem kernEnter_sched : k.kernEnter.sched = k.sched := rfl
@[simp] theorem kernEnter_slots : k.kernEnter.slots = k.slots := rfl
@[simp] theorem kernExit_sched : k.kernExit.sched = k.sched := rfl
@[simp] theorem kernExit_slots : k.kernExit.slots = k.slots := rfl

/-! ## Queues -/

@[simp] theorem enqueueRun_slots : (k.enqueueRun p).slots = k.slots := by
  unfold enqueueRun
  split
  · rfl
  · exact slots_updProc_of rfl rfl

@[simp] theorem enqueueRun_heaps : (k.enqueueRun p).heaps = k.heaps := by
  unfold enqueueRun
  split
  · rfl
  · exact heaps_updProc_of rfl rfl rfl rfl rfl

@[simp] theorem enqueueBlocked_slots : (k.enqueueBlocked p).slots = k.slots := by
  unfold enqueueBlocked
  split
  · rfl
  · exact slots_updProc_of rfl rfl

@[simp] theorem enqueueBlocked_heaps : (k.enqueueBlocked p).heaps = k.heaps := by
  unfold enqueueBlocked
  split
  · rfl
  · exact heaps_updProc_of rfl rfl rfl rfl rfl

@[simp] theorem dropRun_slots : (k.dropRun p).slots = k.slots := by
  unfold dropRun
  split
  · exact slots_updProc_of rfl rfl
  · rfl

@[simp] theorem dropRun_heaps : (k.dropRun p).heaps = k.heaps := by
  unfold dropRun
  split
  · exact heaps_updProc_of rfl rfl rfl rfl rfl
  · rfl

@[simp] theorem dropBlocked_slots : (k.dropBlocked p).slots = k.slots := by
  unfold dropBlocked
  split
  · exact slots_updProc_of rfl rfl
  · rfl

@[simp] theorem dropBlocked_heaps : (k.dropBlocked p).heaps = k.heaps := by
  unfold dropBlocked
  split
  · exact heaps_updProc_of rfl rfl rfl rfl rfl
  · rfl

@[simp] theorem flushProcQueues_slots : (k.flushProcQueues p).slots = k.slots := by
  unfold flushProcQueues
  cases (k.procs p).localPtr with
  | none => rfl
  | some l =>
      dsimp only
      cases l.pl.run <;> cases l.pl.blocked <;> simp

@[simp] theorem flushProcQueues_heaps : (k.flushProcQueues p).heaps = k.heaps := by
  unfold flushProcQueues
  cases (k.procs p).localPtr with
  | none => rfl
  | some l =>
      dsimp only
      cases l.pl.run <;> cases l.pl.blocked <;> simp

/-! ## Dumps -/

/-- A dump of a process looks at its memory, which it maps first where it is not
mapped. -/
theorem dumpProc_view {β : Type} (view : Kern → β) (htouch : view (k.touch p) = view k)
    (hround : view (((k.heapEnter p).touch p).heapExit p) = view k) :
    view (k.dumpProc p) = view k := by
  unfold dumpProc
  split
  · rfl
  · cases (k.procs p).localPtr with
    | none => rfl
    | some l =>
        dsimp only
        split
        · exact htouch
        · exact hround

@[simp] theorem dumpProc_sched : (k.dumpProc p).sched = k.sched :=
  dumpProc_view k p sched (by simp) (by simp)

@[simp] theorem dumpProc_slots : (k.dumpProc p).slots = k.slots :=
  dumpProc_view k p slots (by simp) (by simp)

/-- A view that no dump of a process changes, no dump of the kernel does. -/
theorem dump_view {β : Type} (view : Kern → β) (h : ∀ k p, view (dumpProc k p) = view k) :
    view k.dump = view k := by
  unfold dump
  generalize List.range k.procCount = ps
  induction ps generalizing k with
  | nil => rfl
  | cons p ps ih => exact (ih (k.dumpProc p)).trans (h k p)

@[simp] theorem dump_sched : k.dump.sched = k.sched := dump_view k sched dumpProc_sched

@[simp] theorem dump_slots : k.dump.slots = k.slots := dump_view k slots dumpProc_slots

/-! ## Waking -/

@[simp] theorem setRun_slots (run : Bool) : (k.setRun p run).slots = k.slots :=
  slots_updProc_of rfl rfl

@[simp] theorem setRun_heaps (run : Bool) : (k.setRun p run).heaps = k.heaps :=
  heaps_updProc_of rfl rfl rfl rfl rfl

variable {k p} in
theorem live_setRun {run : Bool} (h : k.Live p) : ((k.setRun p run).touch p).Live p := by
  show ((k.setRun p run).procs p).localPtr.isSome = true
  rw [setRun, updProc_procs_self]
  exact h

theorem wakeProc_slots : (k.wakeProc p).slots = k.slots := by
  unfold wakeProc
  cases hl : (k.procs p).localPtr with
  | none => rfl
  | some l =>
      have hlive : k.Live p := by rw [Live, hl]; rfl
      have hset : ∀ l : Local, ((((k.setRun p true).touch p).setLocal p l).flushProcQueues p).slots =
          k.slots := by
        intro l
        rw [flushProcQueues_slots, setLocal_slots (live_setRun hlive), touch_slots, setRun_slots]
      dsimp only
      split
      · exact hset _
      · exact hset _

theorem wakeProc_heaps : (k.wakeProc p).heaps = k.heaps := by
  unfold wakeProc
  cases hl : (k.procs p).localPtr with
  | none => rfl
  | some l =>
      have hlive : k.Live p := by rw [Live, hl]; rfl
      have hset : ∀ l : Local, ((((k.setRun p true).touch p).setLocal p l).flushProcQueues p).heaps =
          k.heaps := by
        intro l
        rw [flushProcQueues_heaps, setLocal_heaps (live_setRun hlive), touch_heaps, setRun_heaps]
      dsimp only
      split
      · exact hset _
      · exact hset _

/-- What waking a process does not change, the prepoll of the kernel does not. -/
theorem prepoll_unchanged {γ : Type} (g : Kern → γ) (h : ∀ k p, g (wakeProc k p) = g k) :
    g k.prepoll = g k.startPrepoll := by
  simp only [prepoll]
  split
  next => exact Lib.foldl_unchanged g h _ _
  next => rfl

/-- What enqueueing a process does not change, taking the fresh slots does not. -/
theorem dequeueFresh_unchanged {γ : Type} (g : Kern → γ) (h : ∀ k p, g (enqueueRun k p) = g k) :
    g k.dequeueFresh = g { k with
      fdTable := { k.fdTable with freshFds := [], freshQed := fun _ => false }
      stage := .dispatch } :=
  Lib.foldl_unchanged g (fun k i => h k (k.fdTable.tbl.fds i).procId) _ _

/-- What waking one process after the other keeps, where a shutdown has been requested. -/
theorem prepoll_invariant {I : List Nat → Kern → Prop}
    (h : ∀ p ps k, I (p :: ps) k → I ps (wakeProc k p))
    (hall : k.shutdownRequested = true → I k.blockedProcs k.startPrepoll)
    (hnone : I [] k.startPrepoll) : I [] k.prepoll := by
  simp only [prepoll]
  split
  · rename_i hshutdown
    exact Lib.foldl_invariant h (hall hshutdown)
  · exact hnone

/-- What enqueueing the process of one fresh slot after the other keeps. -/
theorem dequeueFresh_invariant {I : List Nat → Kern → Prop}
    (h : ∀ i is k, I (i :: is) k → I is (k.enqueueRun (k.fdTable.tbl.fds i).procId))
    (hs : I k.fdTable.freshFds { k with
      fdTable := { k.fdTable with freshFds := [], freshQed := fun _ => false }
      stage := .dispatch }) : I [] k.dequeueFresh :=
  Lib.foldl_invariant h hs

@[simp] theorem prepoll_slots : k.prepoll.slots = k.slots :=
  prepoll_unchanged k slots wakeProc_slots

@[simp] theorem prepoll_heaps : k.prepoll.heaps = k.heaps :=
  prepoll_unchanged k heaps wakeProc_heaps

/-! ## Prepoll of a process -/

@[simp] theorem setPolled_sched (st : Polled) : (k.setPolled p st).sched = k.sched :=
  sched_updProc_of rfl rfl rfl

@[simp] theorem setPolled_heaps (st : Polled) : (k.setPolled p st).heaps = k.heaps :=
  heaps_updProc_of rfl rfl rfl rfl rfl

@[simp] theorem prepollProc_sched : (k.prepollProc p).sched = k.sched := by
  unfold prepollProc
  cases (k.procs p).localPtr with
  | none => rfl
  | some l => exact setPolled_sched _ p _

@[simp] theorem prepollProc_heaps : (k.prepollProc p).heaps = k.heaps := by
  unfold prepollProc
  cases (k.procs p).localPtr with
  | none => rfl
  | some l => exact setPolled_heaps _ p _

end Frame

/-! ## The setup of a process -/

/-- A new process has its flags, and its heap is open for its thread. -/
def openProc (k : Kern) (p : Nat) (a : Accept) : Kern :=
  ((k.updProc p fun proc =>
    { proc with privileged := a.privileged, isolated := a.isolated }).heapEnter p).touch p

/-- The heap of an entry of the pool is entered for process `p`. -/
def takeEntry (k : Kern) (p e : Nat) (rest : List Nat) : Kern :=
  ({ k with freeEntries := rest }.updProc p fun proc =>
    { proc with heap := k.entryHeap e }).heapEnter p

section Setup
variable {k : Kern} {p e : Nat} {rest : List Nat} (a : Accept)

variable (k p) in
theorem setupProc_eq :
    k.setupProc p a =
      match a.setup with
      | .noThread => k.openProc p a
      | .noArg => (k.openProc p a).setLocal p (Local.init.initThread a.thread a.socket a.fd)
      | .played =>
          (((k.openProc p a).setLocal p
            ((Local.init.initThread a.thread a.socket a.fd).play a.thread)).flushProcQueues p).heapExit p :=
  rfl

variable (k p) in
@[simp] theorem openProc_sched : (k.openProc p a).sched = k.sched := by
  rw [openProc, touch_sched, heapEnter_sched]
  exact sched_updProc_of rfl rfl rfl

variable (k p) in
@[simp] theorem openProc_slots : (k.openProc p a).slots = k.slots := by
  rw [openProc, touch_slots, heapEnter_slots]
  exact slots_updProc_of rfl rfl

theorem openProc_live (h : k.Live p) : (k.openProc p a).Live p := by
  show (k.openProc p a).sched.live p = true
  rw [openProc_sched]
  exact h

theorem allocFromPool_eq (hfree : k.freeEntries = e :: rest) (fits : Bool) :
    k.allocFromPool p fits =
      if fits then
        (((k.takeEntry p e rest).updProc p fun proc =>
          { proc with
            localPtr := some Local.init, pool := some e, runQed := false, blockedQed := false }).touch p,
          true)
      else
        ({ k.takeEntry p e rest with freeEntries := e :: rest }.updProc p fun proc =>
          { proc with localPtr := none }, false) := by
  rw [allocFromPool, hfree]
  rfl

@[simp] theorem takeEntry_sched : (k.takeEntry p e rest).sched = k.sched := by
  rw [takeEntry, heapEnter_sched]
  exact sched_updProc_of rfl rfl rfl

@[simp] theorem takeEntry_slots : (k.takeEntry p e rest).slots = k.slots := by
  rw [takeEntry, heapEnter_slots]
  exact slots_updProc_of rfl rfl

@[simp] theorem takeEntry_localPtr :
    ((k.takeEntry p e rest).procs p).localPtr = (k.procs p).localPtr := by
  rw [takeEntry, heapEnter_localPtr, updProc_procs_self]

end Setup

/-! ## The course -/

section Course
variable (k : Kern) (p : Nat)

@[simp] theorem enqueueRun_course : (k.enqueueRun p).course = k.course := by
  simp only [enqueueRun]
  split
  · rfl
  · rfl

@[simp] theorem flushProcQueues_course : (k.flushProcQueues p).course = k.course := by
  have hblocked : ∀ (k : Kern) (blocked : Bool),
      (if blocked then k.enqueueBlocked p else k.dropBlocked p).course = k.course := by
    intro k blocked
    simp only [enqueueBlocked, dropBlocked]
    repeat' split
    all_goals rfl
  have hrun : ∀ (k : Kern) (run : Bool),
      (if run then k.enqueueRun p else k.dropRun p).course = k.course := by
    intro k run
    simp only [enqueueRun, dropRun]
    repeat' split
    all_goals rfl
  simp only [flushProcQueues]
  cases (k.procs p).localPtr with
  | none => rfl
  | some l => exact (hblocked _ l.pl.blocked).trans (hrun (k.touch p) l.pl.run)

@[simp] theorem dump_course : k.dump.course = k.course :=
  dump_view k course fun k p => dumpProc_view k p course rfl rfl

theorem dequeueFresh_course : k.dequeueFresh.course = { k.course with stage := .dispatch } :=
  dequeueFresh_unchanged k course enqueueRun_course

@[simp] theorem prepollProc_course : (k.prepollProc p).course = k.course := by
  simp only [prepollProc]
  cases (k.procs p).localPtr with
  | none => rfl
  | some l => rfl

theorem freeProc_course : (k.freeProc p).course = k.course := by
  simp only [freeProc]
  cases ((k.setPolled p (k.polled p ProcLocal.init).prepollZombie).procs p).pool with
  | none => rfl
  | some e => rfl

theorem afterExecute_course : (k.afterExecute p).course = { k.course with stage := .dispatch } := by
  have hstage : ∀ k' : Kern, k'.course = (k.flushProcQueues p).course →
      (k'.setStage .dispatch).course = { k.course with stage := .dispatch } := by
    intro k' hk'
    rw [← flushProcQueues_course k p, ← hk']
    rfl
  simp only [afterExecute]
  split
  · exact hstage _ (freeProc_course _ p)
  · split
    · exact hstage _ rfl
    · exact hstage _ rfl

/-- A process that is executed runs, unless it has not come as far as its executor. -/
theorem execute_course (postpoll : Option Local) :
    (k.execute p postpoll).course = { k.course with stage := .dispatch } ∨
      (k.execute p postpoll).course = { k.course with stage := .running p } := by
  simp only [execute]
  cases (k.procs p).localPtr with
  | none => exact Or.inl (afterExecute_course k p)
  | some l =>
      dsimp only
      cases (if l.pl.runningCr.isSome then some { l with pl := l.pl.raiseSignal.1 } else postpoll) with
      | none => exact Or.inl (afterExecute_course (k.touch p) p)
      | some l =>
          refine Or.inr ?_
          dsimp only
          split
          · rfl
          · rfl

theorem leave_course (rc : Int) : (k.leave p rc).course = { k.course with stage := .dispatch } := by
  have henter : (if (k.procs p).privileged then k else k.kernEnter).course = k.course := by
    split
    · rfl
    · rfl
  simp only [leave]
  split
  · rw [afterExecute_course, henter]
  · rw [afterExecute_course, prepollProc_course, henter]

/-! ## The listener -/

theorem initPrivate_course (mapped : Option Nat) :
    (k.initPrivate p mapped).1.course = k.course := by
  simp only [initPrivate]
  cases mapped with
  | none => rfl
  | some addr =>
      dsimp only
      split
      · rfl
      · rfl

theorem allocFromPool_course (fits : Bool) : (k.allocFromPool p fits).1.course = k.course := by
  simp only [allocFromPool]
  cases k.freeEntries with
  | nil => rfl
  | cons e rest =>
      dsimp only
      split
      · rfl
      · rfl

theorem allocHeap_course (a : Accept) : (k.allocHeap p a).1.course = k.course := by
  simp only [allocHeap]
  split
  · split
    · exact allocFromPool_course k p a.fits
    · exact (initPrivate_course _ p a.mapped).trans (allocFromPool_course k p a.fits)
  · exact initPrivate_course k p a.mapped

theorem setupProc_course (a : Accept) : (k.setupProc p a).course = k.course := by
  simp only [setupProc]
  cases a.setup with
  | noThread => rfl
  | noArg => rfl
  | played => exact flushProcQueues_course _ p

@[simp] theorem accept_course (a : Accept) : (k.accept a).course = k.course := by
  simp only [accept]
  cases k.freeProcs with
  | nil => rfl
  | cons p rest =>
      dsimp only
      split
      · exact (setupProc_course _ p a).trans (allocHeap_course _ p a)
      · exact allocHeap_course _ p a

/-! ## The stage -/

theorem flushProcQueues_stage : (k.flushProcQueues p).stage = k.stage :=
  congrArg Course.stage (flushProcQueues_course k p)

theorem dump_stage : k.dump.stage = k.stage := congrArg Course.stage (dump_course k)

theorem dequeueFresh_stage : k.dequeueFresh.stage = .dispatch :=
  congrArg Course.stage (dequeueFresh_course k)

theorem execute_stage (postpoll : Option Local) :
    (k.execute p postpoll).stage = .dispatch ∨ (k.execute p postpoll).stage = .running p :=
  (execute_course k p postpoll).imp (congrArg Course.stage) (congrArg Course.stage)

theorem accept_stage (a : Accept) : (k.accept a).stage = k.stage :=
  congrArg Course.stage (accept_course k a)

end Course

end Kern

end Vk

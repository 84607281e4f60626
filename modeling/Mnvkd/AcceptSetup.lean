/-
# `Mnvkd.AcceptSetup` — what the listener does with a connection

`vk_service_listener` takes for a connection, one after the other, a process of the
kernel's, a heap of the server's pool or pages of its own, a thread, and room for the
argument.  A descriptor beyond the table is closed, and the listener goes on.  Where one of
the others cannot be had the listener goes to its end, with what it has taken by then; and a
descriptor as large as the table is not beyond it by the listener's comparison, while
`vk_fd_table_get` has no slot for it.

The machine is the kernel's, with the descriptors that are open and with whether the
listener's loop goes on.  Its runs are runs of the kernel (`run_kern`).  A connection is set
up as a whole or given up as a whole, and the loop goes on, exactly when its descriptor is
above the size of the table or everything it takes is there
(`accept_allOrNothing_iff`).
-/
import Mnvkd.Accepted
import Mnvkd.KernTenure

namespace Vk

open Lib

/-- An accepted connection: its descriptor, the server's flags, and what the system answers
while its process is set up, or when its descriptor is closed instead. -/
structure Connection where
  fd : Nat
  pooled : Bool
  privileged : Bool
  isolated : Bool
  fits : Bool
  mapped : Option Nat
  thread : Nat
  socket : Nat
  setup : Kern.Setup
  closed : SysResult Unit

/-- What of it the kernel's part is about. -/
def Connection.toAccept (c : Connection) : Kern.Accept where
  fd := c.fd
  pooled := c.pooled
  privileged := c.privileged
  isolated := c.isolated
  fits := c.fits
  mapped := c.mapped
  thread := c.thread
  socket := c.socket
  setup := c.setup

/-- There is a heap for its process: one of the pool with room, or pages of its own. -/
def Kern.HasHeap (k : Kern) (c : Connection) : Prop :=
  (c.pooled = true ∧ c.fits = true ∧ k.freeEntries ≠ []) ∨
    ∃ addr, c.mapped = some addr ∧ k.pages addr = none

/-- `vk_service_listener`, with the kernel, the descriptors that are open, and whether its
loop goes on. -/
structure Listener where
  kern : Kern
  opened : OpenFds
  listening : Bool

namespace Listener

/-- The listener goes to `vk_finally`, and from there to its end. -/
def ended (l : Listener) : Listener := { l with listening := false }

/-- `close(2)` on a descriptor beyond the table, and again where it was interrupted. -/
def closeBeyond (l : Listener) (c : Connection) : Listener :=
  let l := { l with opened := l.opened.close c.fd }
  if c.closed = .err Errno.EINTR then { l with opened := l.opened.close c.fd } else l

/-- After the setup of the process: where a step of it has failed, `vk_error`. -/
def afterSetup (l : Listener) : Kern.Setup → Listener
  | .noThread | .noArg => l.ended
  | .played => l

/-- One turn of the loop, from where `vk_accept` has the descriptor. -/
def turn (l : Listener) (c : Connection) : Listener :=
  let l := { l with opened := l.opened.opened c.fd }
  if l.kern.fdTable.tbl.size < c.fd then l.closeBeyond c
  else
    match l.kern.freeProcs with
    | [] => l.ended
    | p :: rest =>
        let alloc := { l.kern with freeProcs := rest }.allocHeap p c.toAccept
        if alloc.2 then { l with kern := alloc.1.setupProc p c.toAccept }.afterSetup c.setup
        else { l with kern := alloc.1 }.ended

end Listener

/-- The kernel's step that takes a connection, without the listener around it. -/
def KernAct.accepts : KernAct → Bool
  | .accept _ => true
  | .dequeueFresh | .dequeueRun | .signal _ | .dispatch .. | .compute _ | .fault _ | .leave _
  | .prepoll | .poll _ | .pollError => false

/-- A step of the kernel, or of the listener in its turn; the processes open and close
descriptors of their own. -/
inductive ListenAct where
  | kern (a : KernAct)
  | openFd (fd : Nat)
  | closeFd (fd : Nat)
  | accept (c : Connection)
  | shutdown

namespace Listener

/-- A descriptor that is accepted is open nowhere else. -/
def step : ListenAct → Listener → Option Listener
  | .kern a, l =>
      if a.accepts then none else (Kern.step a l.kern).map fun k => { l with kern := k }
  | .openFd fd, l =>
      if fd ∈ l.opened.fds then none else some { l with opened := l.opened.opened fd }
  | .closeFd fd, l => some { l with opened := l.opened.close fd }
  | .accept c, l =>
      match l.kern.stage with
      | .running _ =>
          if l.listening = true ∧ l.kern.pages l.kern.hd.addr = some true ∧ c.fd ∉ l.opened.fds then
            some (l.turn c)
          else none
      | _ => none
  | .shutdown, l =>
      if l.listening = true ∧ l.kern.shutdownRequested = true then some l.ended else none

def start (b : Boot) (o : OpenFds) : Listener := ⟨Kern.boot b, o, true⟩

/-! ## All or nothing -/

/-- Thread `t` is to run, and has the descriptor on both sides. -/
def Serves (l : Local) (t fd : Nat) : Prop :=
  t ∈ l.pl.runQ ∧
    (l.pl.sockets (l.pl.threads t).socketPtr).rxFd = Pipe.initFd fd .socketStream ∧
    (l.pl.sockets (l.pl.threads t).socketPtr).txFd = Pipe.initFd fd .socketStream

/-- A process that was free has the connection, whose descriptor has a slot; it is to run,
and its heap is masked. -/
structure Owns (c : Connection) (l l' : Listener) (p : Nat) : Prop where
  free : p ∈ l.kern.freeProcs
  taken : p ∉ l'.kern.freeProcs
  opened : c.fd ∈ l'.opened.fds
  slot : ∃ i, l'.kern.fdTable.tbl.get c.fd = some i
  serves : ∃ loc, (l'.kern.procs p).localPtr = some loc ∧ Serves loc c.thread c.fd
  queued : p ∈ l'.kern.runProcs
  masked : l'.kern.pages (l'.kern.procs p).heap.addr = some false

/-- Nothing of what was taken is left: no descriptor, no process, no entry of the pool, and
the pages are what they were. -/
structure Released (l l' : Listener) : Prop where
  opened : l'.opened.fds = l.opened.fds
  procs : l'.kern.freeProcs = l.kern.freeProcs
  entries : l'.kern.freeEntries = l.kern.freeEntries
  pages : l'.kern.pages = l.kern.pages

/-- The listener goes on, and a process has the connection or nothing has. -/
def AllOrNothing (c : Connection) (l l' : Listener) : Prop :=
  l'.listening = true ∧ ((∃ p, Owns c l l' p) ∨ Released l l')

/-! ## The runs are the kernel's -/

section Kernel
variable {l l' : Listener}

/-- What a step does. -/
inductive Steps (l : Listener) : ListenAct → Listener → Prop
  | kern (a : KernAct) (k : Kern) (hk : Kern.step a l.kern = some k) :
      Steps l (.kern a) { l with kern := k }
  | openFd (fd : Nat) : Steps l (.openFd fd) { l with opened := l.opened.opened fd }
  | closeFd (fd : Nat) : Steps l (.closeFd fd) { l with opened := l.opened.close fd }
  | accept (p : Nat) (c : Connection) (hst : l.kern.stage = .running p) (hon : l.listening = true)
      (hkern : l.kern.pages l.kern.hd.addr = some true) (hnew : c.fd ∉ l.opened.fds) :
      Steps l (.accept c) (l.turn c)
  | shutdown : Steps l .shutdown l.ended

theorem steps_of_step {a : ListenAct} (h : step a l = some l') : Steps l a l' := by
  cases a with
  | kern a =>
      obtain ⟨-, hmap⟩ := Option.ite_none_left_eq_some.mp h
      obtain ⟨k, hk, rfl⟩ := Option.map_eq_some_iff.mp hmap
      exact .kern a k hk
  | openFd fd =>
      obtain ⟨-, hl⟩ := Option.ite_none_left_eq_some.mp h
      cases hl
      exact .openFd fd
  | closeFd fd =>
      cases h
      exact .closeFd fd
  | accept c =>
      simp only [step] at h
      split at h
      · rename_i p hst
        obtain ⟨⟨hon, hkern, hnew⟩, hl⟩ := Option.ite_none_right_eq_some.mp h
        cases hl
        exact .accept p c hst hon hkern hnew
      · cases h
  | shutdown =>
      obtain ⟨-, hl⟩ := Option.ite_none_right_eq_some.mp h
      cases hl
      exact .shutdown

@[simp] theorem afterSetup_kern (l : Listener) (setup : Kern.Setup) :
    (l.afterSetup setup).kern = l.kern := by
  cases setup with
  | noThread => rfl
  | noArg => rfl
  | played => rfl

/-- A turn of the listener is the kernel's, except that a descriptor may be beyond the
table. -/
theorem turn_kern (l : Listener) (c : Connection) :
    (l.turn c).kern = if l.kern.fdTable.tbl.size < c.fd then l.kern else l.kern.accept c.toAccept := by
  simp only [turn, Kern.accept]
  split
  · simp only [closeBeyond]
    split
    · rfl
    · rfl
  · cases l.kern.freeProcs with
    | nil => rfl
    | cons p rest =>
        dsimp only
        split
        · rw [afterSetup_kern]
        · rfl

/-- What the kernel does in a step of the machine, if it does anything. -/
theorem kern_step {a : ListenAct} (h : step a l = some l') :
    l'.kern = l.kern ∨ ∃ act, Kern.step act l.kern = some l'.kern := by
  cases steps_of_step h with
  | kern a k hk => exact Or.inr ⟨a, hk⟩
  | openFd fd => exact Or.inl rfl
  | closeFd fd => exact Or.inl rfl
  | accept p c hst hon hkern hnew =>
      rw [turn_kern]
      split
      · exact Or.inl rfl
      · refine Or.inr ⟨.accept c.toAccept, ?_⟩
        simp only [Kern.step, hst, if_pos hkern]
  | shutdown => exact Or.inl rfl

/-- Every run of the machine shows a run of the kernel. -/
theorem run_kern {acts : List ListenAct} (hrun : run step acts l = some l') :
    ∃ as, run Kern.step as l.kern = some l'.kern := by
  induction acts generalizing l with
  | nil =>
      cases hrun
      exact ⟨[], rfl⟩
  | cons a acts ih =>
      obtain ⟨m, hm, hrest⟩ := (run_cons step).mp hrun
      obtain ⟨as, has⟩ := ih hrest
      obtain hsame | ⟨act, hact⟩ := kern_step hm
      · exact ⟨as, hsame ▸ has⟩
      · exact ⟨act :: as, (run_cons Kern.step).mpr ⟨m.kern, hact, has⟩⟩

end Kernel

end Listener

namespace Kern

/-! ## The descriptors of the pool's heaps -/

section Entries
variable {k k' : Kern}

theorem entryHeap_congr {stage : KernStage} (h : k'.course = { k.course with stage := stage }) :
    k'.entryHeap = k.entryHeap := congrArg Course.entryHeap h

theorem execute_entryHeap (k : Kern) (p : Nat) (postpoll : Option Local) :
    (k.execute p postpoll).entryHeap = k.entryHeap :=
  (execute_course k p postpoll).elim entryHeap_congr entryHeap_congr

theorem dequeueRun_entryHeap (k : Kern) : k.dequeueRun.entryHeap = k.entryHeap := by
  simp only [dequeueRun]
  cases k.runProcs with
  | nil =>
      dsimp only
      split
      · exact congrArg Course.entryHeap (dump_course k)
      · rfl
  | cons p rest => rfl

/-- No step changes a descriptor of the pool: what enters its heap is a copy. -/
theorem entryHeap_step {a : KernAct} (hst : step a k = some k') :
    k'.entryHeap = k.entryHeap := by
  cases steps_of_step hst with
  | dequeueFresh hstage => exact entryHeap_congr (dequeueFresh_course k)
  | dequeueRun hstage => exact dequeueRun_entryHeap k
  | signal signo hstage =>
      cases signo with
      | term => rfl
      | usr1 => exact entryHeap_congr (dump_course k)
  | dispatch p kernHd postpoll hstage => exact execute_entryHeap _ p postpoll
  | compute p l hstage => rfl
  | accept p a hstage hkern => exact entryHeap_congr (accept_course k a)
  | fault p postpoll hstage => exact execute_entryHeap _ p postpoll
  | leave p rc hstage => exact entryHeap_congr (leave_course k p rc)
  | prepoll hstage => exact congrArg Heaps.entryHeap (prepoll_heaps k)
  | poll revents hstage => rfl
  | pollError hstage => rfl

end Entries

/-! ## The heap of a new process -/

section Heap
variable {k : Kern} {p : Nat}

/-- The heap of process `p` is entered, and its descriptor is one that can be left. -/
def HeapOpen (k : Kern) (p : Nat) : Prop :=
  ∃ addr, (k.procs p).heap = Heap.map addr true ∧ k.pages addr = some true

/-- The descriptors of the pool say that their heaps are not entered, and the free ones are
of heaps that are mapped. -/
structure PoolMapped (k : Kern) : Prop where
  entry : ∀ e, k.entryHeap e = Heap.map (k.entryHeap e).addr false
  mapped : ∀ e ∈ k.freeEntries, k.pages (k.entryHeap e).addr ≠ none

theorem initPrivate_spec (k : Kern) (p : Nat) (mapped : Option Nat) :
    ((k.initPrivate p mapped).2 = true ↔ ∃ addr, mapped = some addr ∧ k.pages addr = none) ∧
      ((k.initPrivate p mapped).2 = true → (k.initPrivate p mapped).1.HeapOpen p) := by
  simp only [initPrivate]
  cases mapped with
  | none =>
      refine ⟨iff_of_false Bool.false_ne_true ?_, fun h => absurd h Bool.false_ne_true⟩
      rintro ⟨_, ⟨⟩, -⟩
  | some addr =>
      dsimp only
      split
      · rename_i hfree
        refine ⟨iff_of_true rfl ⟨addr, rfl, hfree⟩, fun _ => ⟨addr, ?_, ?_⟩⟩
        · rw [touch_procs, updProc_procs_self]
        · exact (Pages.mmap_apply k.pages addr addr true).trans (if_pos rfl)
      · rename_i hused
        refine ⟨iff_of_false Bool.false_ne_true ?_, fun h => absurd h Bool.false_ne_true⟩
        rintro ⟨_, ⟨⟩, hfree⟩
        exact hused hfree

/-- A heap that is mapped and masked is open once it is entered. -/
theorem heapOpen_heapEnter {addr : Nat} (hheap : (k.procs p).heap = Heap.map addr false)
    (hmapped : k.pages addr ≠ none) : (k.heapEnter p).HeapOpen p := by
  have henter : (k.procs p).heap.enter k.pages = (Heap.map addr true, k.pages.mprotect addr true) := by
    rw [hheap]
    rfl
  obtain ⟨prot, hprot⟩ := Option.ne_none_iff_exists'.mp hmapped
  refine ⟨addr, ?_, ?_⟩
  · rw [heapEnter, updProc_procs_self, henter]
  · show ((k.procs p).heap.enter k.pages).2 addr = some true
    rw [henter]
    show k.pages.mprotect addr true addr = some true
    rw [Pages.mprotect_apply, if_pos rfl, hprot]
    rfl

/-- A heap stays open where the descriptor and the pages stay. -/
theorem HeapOpen.congr {k' : Kern} (h : k.HeapOpen p) (hheap : (k'.procs p).heap = (k.procs p).heap)
    (hpages : k'.pages = k.pages) : k'.HeapOpen p := by
  obtain ⟨addr, haddr, hopen⟩ := h
  exact ⟨addr, hheap.trans haddr, hpages ▸ hopen⟩

/-- Entering an open heap again does nothing. -/
theorem HeapOpen.heapEnter (h : k.HeapOpen p) : (k.heapEnter p).HeapOpen p := by
  obtain ⟨addr, hheap, hopen⟩ := h
  have henter : (k.procs p).heap.enter k.pages = (Heap.map addr true, k.pages) := by
    rw [hheap]
    rfl
  refine ⟨addr, ?_, ?_⟩
  · rw [Kern.heapEnter, updProc_procs_self, henter]
  · show ((k.procs p).heap.enter k.pages).2 addr = some true
    rw [henter]
    exact hopen

/-- An open heap that is left is masked. -/
theorem HeapOpen.heapExit (h : k.HeapOpen p) :
    (k.heapExit p).pages ((k.heapExit p).procs p).heap.addr = some false := by
  obtain ⟨addr, hheap, hopen⟩ := h
  have hexit : (k.procs p).heap.exit k.pages = (Heap.map addr false, k.pages.mprotect addr false) := by
    rw [hheap]
    rfl
  rw [Kern.heapExit, updProc_procs_self, hexit]
  show k.pages.mprotect addr false addr = some false
  rw [Pages.mprotect_apply, if_pos rfl, hopen]
  rfl

theorem heapOpen_takeEntry {e : Nat} (h : k.PoolMapped) (he : e ∈ k.freeEntries) (rest : List Nat) :
    (k.takeEntry p e rest).HeapOpen p := by
  refine heapOpen_heapEnter ?_ (h.mapped e he)
  rw [updProc_procs_self]
  exact h.entry e

theorem allocFromPool_spec (h : k.PoolMapped) (p : Nat) (fits : Bool) :
    ((k.allocFromPool p fits).2 = true ↔ fits = true ∧ k.freeEntries ≠ []) ∧
      ((k.allocFromPool p fits).2 = true → (k.allocFromPool p fits).1.HeapOpen p) ∧
      ∀ addr, (k.allocFromPool p fits).1.pages addr = none ↔ k.pages addr = none := by
  cases hfree : k.freeEntries with
  | nil =>
      rw [allocFromPool, hfree]
      exact ⟨iff_of_false Bool.false_ne_true fun h => h.2 rfl, fun h => absurd h Bool.false_ne_true,
        fun _ => Iff.rfl⟩
  | cons e rest =>
      have hopen := heapOpen_takeEntry (p := p) h (hfree ▸ List.mem_cons_self) rest
      have hpages : ∀ addr, (k.takeEntry p e rest).pages addr = none ↔ k.pages addr = none :=
        fun addr => Heap.setProt_snd_eq_none _ _ _ addr
      rw [allocFromPool_eq hfree]
      split
      · rename_i hfits
        refine ⟨iff_of_true rfl ⟨hfits, List.cons_ne_nil e rest⟩, fun _ => hopen.congr ?_ rfl, hpages⟩
        rw [touch_procs, updProc_procs_self]
      · rename_i hfits
        exact ⟨iff_of_false Bool.false_ne_true fun h => hfits h.1, fun h => absurd h Bool.false_ne_true,
          hpages⟩

/-- A new process gets a heap exactly where there is one, and it is open then. -/
theorem allocHeap_spec (h : k.PoolMapped) (p : Nat) (c : Connection) :
    ((k.allocHeap p c.toAccept).2 = true ↔ k.HasHeap c) ∧
      ((k.allocHeap p c.toAccept).2 = true → (k.allocHeap p c.toAccept).1.HeapOpen p) := by
  obtain ⟨hpool, hopen, hpages⟩ := allocFromPool_spec h p c.fits
  simp only [allocHeap, HasHeap]
  split
  · rename_i hpooled
    have hpooled : c.pooled = true := hpooled
    split
    · rename_i hok
      have hok : (k.allocFromPool p c.fits).2 = true := hok
      obtain ⟨hfits, hfree⟩ := hpool.mp hok
      exact ⟨iff_of_true hok (Or.inl ⟨hpooled, hfits, hfree⟩), hopen⟩
    · rename_i hno
      have hno : ¬(k.allocFromPool p c.fits).2 = true := hno
      obtain ⟨hpriv, hopen'⟩ := initPrivate_spec (k.allocFromPool p c.fits).1 p c.mapped
      refine ⟨hpriv.trans ?_, hopen'⟩
      simp only [hpages]
      constructor
      · exact Or.inr
      · rintro (⟨-, hfits, hfree⟩ | hmapped)
        · exact absurd (hpool.mpr ⟨hfits, hfree⟩) hno
        · exact hmapped
  · rename_i hpooled
    have hpooled : ¬c.pooled = true := hpooled
    obtain ⟨hpriv, hopen'⟩ := initPrivate_spec k p c.mapped
    refine ⟨hpriv.trans ?_, hopen'⟩
    constructor
    · exact Or.inr
    · rintro (⟨hyes, -⟩ | hmapped)
      · exact absurd hyes hpooled
      · exact hmapped

/-! ## Its thread and its queue -/

/-- The thread of a new process is to run, and so is the process. -/
theorem serves_play (t s fd : Nat) :
    Listener.Serves ((Local.init.initThread t s fd).play t) t fd ∧
      ((Local.init.initThread t s fd).play t).pl.run = true ∧
      ((Local.init.initThread t s fd).play t).pl.blocked = false := by
  obtain ⟨pl, hpl, hthread, hsocket, hrunQ, hblocked⟩ : ∃ pl : ProcLocal,
      pl = (Local.init.initThread t s fd).pl ∧ pl.threads t = Thread.init s ∧
      pl.sockets s = Socket.cleared.init s t (Pipe.initFd fd .socketStream)
        (Pipe.initFd fd .socketStream) ∧ pl.runQ = [] ∧ pl.blocked = false :=
    ⟨_, rfl, Function.update_self _ _ _, Function.update_self _ _ _, rfl, rfl⟩
  have hready : ((pl.ready t).threads t) = Thread.init s := by
    rw [ProcLocal.ready, ProcLocal.updThread_threads_self, hthread]
    rfl
  have hplay : ((Local.init.initThread t s fd).play t).pl = { pl.ready t with
      run := if (pl.ready t).runQ.isEmpty then true else (pl.ready t).run
      runQ := t :: (pl.ready t).runQ }.updThread t fun that => { that with runEnq := true } := by
    rw [Local.play, ← hpl, ProcLocal.enqueueRun]
    dsimp only
    rw [hready]
    rfl
  have hthread' : ((Local.init.initThread t s fd).play t).pl.threads t =
      { Thread.init s with runEnq := true } := by
    rw [hplay, ProcLocal.updThread_threads_self]
    exact congrArg (fun that : Thread => { that with runEnq := true }) hready
  refine ⟨⟨?_, ?_, ?_⟩, ?_, ?_⟩
  · rw [hplay]
    exact List.mem_cons_self
  · rw [hthread', hplay]
    show (pl.sockets s).rxFd = _
    rw [hsocket]
    rfl
  · rw [hthread', hplay]
    show (pl.sockets s).txFd = _
    rw [hsocket]
    rfl
  · rw [hplay]
    show (if pl.runQ.isEmpty then true else pl.run) = true
    rw [hrunQ]
    rfl
  · rw [hplay]
    exact hblocked

theorem updProc_localPtr (k : Kern) (p : Nat) {f : KernProc → KernProc}
    (hf : ∀ proc, (f proc).localPtr = proc.localPtr) (q : Nat) :
    ((k.updProc p f).procs q).localPtr = (k.procs q).localPtr := by
  rw [updProc_procs]
  split
  · rename_i hq
    rw [hf, hq]
  · rfl

/-- The queues are changed without the memory of a process. -/
theorem flushProcQueues_localPtr (k : Kern) (p q : Nat) :
    ((k.flushProcQueues p).procs q).localPtr = (k.procs q).localPtr := by
  have hrun : ∀ (k : Kern) (run : Bool),
      ((if run then k.enqueueRun p else k.dropRun p).procs q).localPtr = (k.procs q).localPtr := by
    intro k run
    cases run with
    | true =>
        simp only [if_true, enqueueRun]
        split
        · rfl
        · exact updProc_localPtr _ p (by intro proc; rfl) q
    | false =>
        simp only [Bool.false_eq_true, if_false, dropRun]
        split
        · exact updProc_localPtr _ p (by intro proc; rfl) q
        · rfl
  have hblocked : ∀ (k : Kern) (blocked : Bool),
      ((if blocked then k.enqueueBlocked p else k.dropBlocked p).procs q).localPtr =
        (k.procs q).localPtr := by
    intro k blocked
    cases blocked with
    | true =>
        simp only [if_true, enqueueBlocked]
        split
        · rfl
        · exact updProc_localPtr _ p (by intro proc; rfl) q
    | false =>
        simp only [Bool.false_eq_true, if_false, dropBlocked]
        split
        · exact updProc_localPtr _ p (by intro proc; rfl) q
        · rfl
  simp only [flushProcQueues]
  split
  · rfl
  · rename_i l hl
    exact (hblocked _ l.pl.blocked).trans (hrun (k.touch p) l.pl.run)

/-- Once it has its heap, the process of a connection is set up to run, with its heap
masked. -/
theorem setupProc_played (hopen : k.HeapOpen p) (hlive : k.Live p)
    (hrun : (k.procs p).runQed = false) (c : Connection) (hplayed : c.setup = .played) :
    (k.setupProc p c.toAccept).pages ((k.setupProc p c.toAccept).procs p).heap.addr = some false ∧
      p ∈ (k.setupProc p c.toAccept).runProcs ∧
      (k.setupProc p c.toAccept).freeProcs = k.freeProcs ∧
      ((k.setupProc p c.toAccept).procs p).localPtr =
        some ((Local.init.initThread c.thread c.socket c.fd).play c.thread) := by
  obtain ⟨l, hl⟩ : ∃ l, l = (Local.init.initThread c.thread c.socket c.fd).play c.thread := ⟨_, rfl⟩
  obtain ⟨-, hlrun, hlblocked⟩ := hl ▸ serves_play c.thread c.socket c.fd
  have hopen₁ : (k.openProc p c.toAccept).HeapOpen p := by
    have hflags : (k.updProc p fun proc =>
        { proc with privileged := c.privileged, isolated := c.isolated }).HeapOpen p := by
      refine hopen.congr ?_ rfl
      rw [updProc_procs_self]
    exact hflags.heapEnter.congr rfl rfl
  have hsched₁ := openProc_sched k p c.toAccept
  have hlive₁ := openProc_live c.toAccept hlive
  have hsetup : k.setupProc p c.toAccept =
      (((k.openProc p c.toAccept).setLocal p l).flushProcQueues p).heapExit p := by
    have hplayed : c.toAccept.setup = .played := hplayed
    rw [setupProc_eq, hplayed, hl]
    rfl
  rw [hsetup]
  generalize k.openProc p c.toAccept = k₁ at hopen₁ hsched₁ hlive₁
  have hlocal : ((k₁.setLocal p l).procs p).localPtr = some l := by
    rw [setLocal, updProc_procs_self]
  have hsched : ((k₁.setLocal p l).flushProcQueues p).sched = k.sched.flush p true false := by
    rw [flushProcQueues_sched hlocal, setLocal_sched hlive₁, hsched₁, hlrun, hlblocked]
  refine ⟨?_, ?_, ?_, ?_⟩
  · have hheaps := flushProcQueues_heaps (k₁.setLocal p l) p
    have hheap : (((k₁.setLocal p l).flushProcQueues p).procs p).heap = (k₁.procs p).heap := by
      refine Eq.trans (congrFun (congrArg Heaps.heap hheaps) p) ?_
      show ((k₁.setLocal p l).procs p).heap = _
      rw [setLocal, updProc_procs_self]
    have hopen₂ : ((k₁.setLocal p l).flushProcQueues p).HeapOpen p :=
      hopen₁.congr hheap (congrArg Heaps.pages hheaps)
    exact hopen₂.heapExit
  · show p ∈ ((k₁.setLocal p l).flushProcQueues p).sched.runProcs
    rw [hsched, Sched.flush, (Sched.flushBlocked_run _ p false).1]
    simp only [if_true, Sched.enqueueRun]
    rw [if_neg (by rw [show k.sched.runQed p = false from hrun]; exact Bool.false_ne_true)]
    exact List.mem_cons_self
  · show ((k₁.setLocal p l).flushProcQueues p).freeProcs = _
    rw [flushProcQueues_freeProcs]
    exact congrArg Sched.freeProcs hsched₁
  · rw [heapExit_localPtr, flushProcQueues_localPtr, hlocal, hl]

end Heap
end Kern

namespace Listener

/-! ## One connection -/

/-- What a run keeps of the kernel: its invariant, one holder for each heap, and the pool's
descriptors as they have been made. -/
structure Kept (k : Kern) : Prop where
  sound : k.Sound False
  tenure : k.tenure.Sound
  entry : ∀ e, k.entryHeap e = Heap.map (k.entryHeap e).addr false

theorem Kept.poolMapped {k : Kern} (h : Kept k) : k.PoolMapped where
  entry := h.entry
  mapped e he := Option.isSome_iff_ne_none.mp (h.tenure.entryMapped e he)

theorem kept_of_run {b : Boot} {as : List KernAct} {k : Kern}
    (hrun : run Kern.step as (Kern.boot b) = some k) : Kept k := by
  refine run_induction (I := Kept) (fun a k k' h hst => ?_) ?_ hrun
  · have hentry := Kern.entryHeap_step hst
    refine ⟨Kern.sound_step h.sound False.elim hst,
      h.tenure.edit (Kern.tenure_step h.sound h.tenure hst), fun e => ?_⟩
    rw [hentry]
    exact h.entry e
  · have hqueues := (@Kern.sound_boot False b).queues
    have hheaps := (Kern.boot_heaps b).1.sound
    exact ⟨Kern.sound_boot b, hheaps.tenure hqueues.freeNodup hqueues.free, hheaps.entry⟩

section Turn
variable {l : Listener} {c : Connection} {p : Nat} {rest : List Nat}

/-- A descriptor that is new and above the size of the table leaves nothing behind. -/
theorem turn_beyond (hnew : c.fd ∉ l.opened.fds) (hsize : l.kern.fdTable.tbl.size < c.fd) :
    l.turn c = l := by
  have hagain : l.opened.close c.fd = l.opened := by
    rw [OpenFds.close, List.erase_of_not_mem hnew]
  simp only [turn, if_pos hsize, closeBeyond, OpenFds.close_opened, hagain, ite_self]

/-- Where the listener ends, the connection is not settled. -/
theorem not_allOrNothing_ended (l l' : Listener) : ¬AllOrNothing c l l'.ended :=
  fun h => Bool.false_ne_true h.1

/-- All that a connection takes once its descriptor is not beyond the table. -/
def Takes (c : Connection) (k : Kern) : Prop :=
  k.freeProcs ≠ [] ∧ k.HasHeap c ∧ c.setup = .played

/-- Otherwise its process is set up and the loop goes on, or something of that is not to be
had and the listener ends. -/
theorem turn_cases (hpool : l.kern.PoolMapped) (hsize : ¬l.kern.fdTable.tbl.size < c.fd) :
    (Takes c l.kern ∧ ∃ p rest, l.kern.freeProcs = p :: rest ∧
        (({ l.kern with freeProcs := rest } : Kern).allocHeap p c.toAccept).2 = true ∧
        l.turn c = { l with
          kern := (({ l.kern with freeProcs := rest } : Kern).allocHeap p c.toAccept).1.setupProc p
            c.toAccept
          opened := l.opened.opened c.fd }) ∨
      (¬Takes c l.kern ∧ ∃ l' : Listener, l.turn c = l'.ended) := by
  simp only [turn, if_neg hsize]
  cases hfree : l.kern.freeProcs with
  | nil => exact Or.inr ⟨fun h => h.1 hfree, _, rfl⟩
  | cons p rest =>
      have hpool' : ({ l.kern with freeProcs := rest } : Kern).PoolMapped := ⟨hpool.entry, hpool.mapped⟩
      obtain ⟨hheap, -⟩ := Kern.allocHeap_spec hpool' p c
      have hheap : (({ l.kern with freeProcs := rest } : Kern).allocHeap p c.toAccept).2 = true ↔
          l.kern.HasHeap c := hheap
      dsimp only
      split
      · rename_i hok
        cases hsetup : c.setup with
        | noThread => exact Or.inr ⟨fun h => (nomatch hsetup.symm.trans h.2.2), _, rfl⟩
        | noArg => exact Or.inr ⟨fun h => (nomatch hsetup.symm.trans h.2.2), _, rfl⟩
        | played =>
            refine Or.inl ⟨⟨?_, hheap.mp hok, hsetup⟩, p, rest, rfl, hok, rfl⟩
            rw [hfree]
            exact List.cons_ne_nil p rest
      · rename_i hno
        exact Or.inr ⟨fun h => hno (hheap.mpr h.2.1), _, rfl⟩

/-- The table is not changed by a connection. -/
theorem turn_fdTable (hk : Kept l.kern) (c : Connection) :
    (l.turn c).kern.fdTable = l.kern.fdTable := by
  rw [turn_kern]
  split
  · rfl
  · obtain ⟨-, -, htable, -⟩ := Kern.accept_spec (a := c.toAccept) hk.sound.queues hk.sound.slots
    exact htable

/-- The process of a connection has it, where the descriptor has a slot. -/
theorem owns_of_takes (hk : Kept l.kern) (hfree : l.kern.freeProcs = p :: rest)
    (hok : (({ l.kern with freeProcs := rest } : Kern).allocHeap p c.toAccept).2 = true)
    (hplayed : c.setup = .played) (hsize : c.fd < l.kern.fdTable.tbl.size)
    (hturn : l.turn c = { l with
      kern := (({ l.kern with freeProcs := rest } : Kern).allocHeap p c.toAccept).1.setupProc p
        c.toAccept
      opened := l.opened.opened c.fd }) : Owns c l (l.turn c) p := by
  have htable := turn_fdTable hk c
  obtain ⟨-, hdead, hnot⟩ := hk.sound.queues.take_free (p := p) hfree
  have hpool' : ({ l.kern with freeProcs := rest } : Kern).PoolMapped :=
    ⟨hk.poolMapped.entry, hk.poolMapped.mapped⟩
  obtain ⟨-, hopen⟩ := Kern.allocHeap_spec hpool' p c
  have hnone : (({ l.kern with freeProcs := rest } : Kern).procs p).localPtr = none :=
    Option.isSome_eq_false_iff.mp hdead |> Option.isNone_iff_eq_none.mp
  obtain ⟨-, hsched, -⟩ | ⟨hfail, -, -⟩ := Kern.inits_allocHeap c.toAccept hnone
  · generalize ({ l.kern with freeProcs := rest } : Kern).allocHeap p c.toAccept = alloc at *
    have hlive : alloc.1.Live p := by
      show alloc.1.sched.live p = true
      rw [hsched]
      exact Function.update_self _ _ _
    have hrun : (alloc.1.procs p).runQed = false := by
      show alloc.1.sched.runQed p = false
      rw [hsched]
      exact Function.update_self _ _ _
    obtain ⟨hmasked, hqueued, hprocs, hlocal⟩ :=
      Kern.setupProc_played (hopen hok) hlive hrun c hplayed
    have hrest : alloc.1.freeProcs = rest := congrArg Sched.freeProcs hsched
    have hslot : (l.turn c).kern.fdTable.tbl.get c.fd = some c.fd := by
      rw [htable, FdTable.get, if_pos ⟨by omega, by omega⟩]
      rfl
    rw [hturn] at hslot ⊢
    refine ⟨?_, ?_, ?_, ⟨c.fd, hslot⟩, ⟨_, hlocal, (Kern.serves_play _ _ _).1⟩, hqueued, hmasked⟩
    · rw [hfree]
      exact List.mem_cons_self
    · rw [hprocs, hrest]
      exact hnot
    · exact List.mem_cons_self
  · rw [hok] at hfail
    cases hfail

/-- A turn of the listener settles the connection, and the loop goes on, exactly when the
descriptor is above the size of the table, or below it and all the rest is there. -/
theorem turn_allOrNothing_iff (hk : Kept l.kern) (hon : l.listening = true)
    (hnew : c.fd ∉ l.opened.fds) :
    AllOrNothing c l (l.turn c) ↔ l.kern.fdTable.tbl.size < c.fd ∨
      (c.fd < l.kern.fdTable.tbl.size ∧ Takes c l.kern) := by
  by_cases hbeyond : l.kern.fdTable.tbl.size < c.fd
  · rw [turn_beyond hnew hbeyond]
    exact iff_of_true ⟨hon, Or.inr ⟨rfl, rfl, rfl, rfl⟩⟩ (Or.inl hbeyond)
  · obtain ⟨htakes, p, rest, hfree, hok, hturn⟩ | ⟨hlacks, l', hend⟩ :=
      turn_cases hk.poolMapped hbeyond
    · constructor
      · rintro ⟨-, ⟨q, howns⟩ | hreleased⟩
        · -- a process has the connection only where the table has a slot
          obtain ⟨i, hi⟩ := howns.slot
          rw [turn_fdTable hk c, FdTable.get] at hi
          split at hi
          · rename_i hget
            exact Or.inr ⟨by omega, htakes⟩
          · cases hi
        · have hopened := hreleased.opened
          rw [hturn] at hopened
          exact absurd hopened (List.cons_ne_self c.fd l.opened.fds)
      · rintro (hsize | ⟨hsize, -⟩)
        · exact absurd hsize hbeyond
        · have howns := owns_of_takes hk hfree hok htakes.2.2 hsize hturn
          refine ⟨?_, Or.inl ⟨p, howns⟩⟩
          rw [hturn]
          exact hon
    · rw [hend]
      refine iff_of_false (not_allOrNothing_ended l l') ?_
      rintro (hsize | ⟨-, htakes⟩)
      · exact hbeyond hsize
      · exact hlacks htakes

end Turn

/-- **Accepting.**  In every run, a connection that is accepted ends with a process that
owns it or with everything released, the listener going on, exactly when its descriptor is
above the size of the table, or it is below and there are a free process, a heap for it, and
room for the thread and its argument. -/
theorem accept_allOrNothing_iff {b : Boot} {o : OpenFds} {acts : List ListenAct}
    {l l' : Listener} {c : Connection} (hrun : run step acts (start b o) = some l)
    (hst : step (.accept c) l = some l') :
    AllOrNothing c l l' ↔ l.kern.fdTable.tbl.size < c.fd ∨
      (c.fd < l.kern.fdTable.tbl.size ∧ l.kern.freeProcs ≠ [] ∧ l.kern.HasHeap c ∧
        c.setup = .played) := by
  obtain ⟨as, has⟩ := run_kern hrun
  have hk : Kept l.kern := kept_of_run has
  cases steps_of_step hst with
  | accept p c hstage hon hkern hnew => exact turn_allOrNothing_iff hk hon hnew

/-- A connection of a server without a pool. -/
def connectionOn (fd : Nat) : Connection where
  fd := fd
  pooled := false
  privileged := false
  isolated := true
  fits := true
  mapped := some 10
  thread := 0
  socket := 0
  setup := .played
  closed := .ok ()

/-- The listener's process is dispatched. -/
def listens : List ListenAct :=
  [.kern .dequeueFresh, .kern .dequeueRun, .kern (.dispatch Heap.cleared (some Local.init))]

/-- A connection on a descriptor of the table, which has eight slots. -/
theorem accept_allOrNothing_iff_five : ∃ l l',
    run step listens (start (Kern.smallBoot true false) ⟨[3], 0⟩) = some l ∧
      step (.accept (connectionOn 5)) l = some l' ∧ AllOrNothing (connectionOn 5) l l' := by
  obtain ⟨l, hl, hstate⟩ := (Option.any_eq_true _ _).mp (by decide +kernel :
    (run step listens (start (Kern.smallBoot true false) ⟨[3], 0⟩)).any (fun l =>
      decide (l.kern.fdTable.tbl.size = 8 ∧ l.kern.freeProcs ≠ [] ∧ l.kern.pages 10 = none ∧
        (step (.accept (connectionOn 5)) l).isSome = true)) = true)
  obtain ⟨hsize, hfree, hpages, hsome⟩ := of_decide_eq_true hstate
  obtain ⟨l', hl'⟩ := Option.isSome_iff_exists.mp hsome
  refine ⟨l, l', hl, hl', (accept_allOrNothing_iff hl hl').mpr (Or.inr ⟨?_, hfree, ?_, rfl⟩)⟩
  · rw [hsize]
    decide
  · exact Or.inr ⟨10, rfl, hpages⟩

/-- A descriptor as large as the table is set up like any other, and there is no slot for
it. -/
theorem accepted_without_slot :
    ¬∀ (b : Boot) (o : OpenFds) (acts : List ListenAct) (l l' : Listener) (c : Connection),
      run step acts (start b o) = some l → step (.accept c) l = some l' → AllOrNothing c l l' := by
  intro h
  obtain ⟨l, hl, hstate⟩ := (Option.any_eq_true _ _).mp (by decide +kernel :
    (run step listens (start (Kern.smallBoot true false) ⟨[3], 0⟩)).any (fun l =>
      decide (l.opened.fds = [3] ∧ (step (.accept (connectionOn 8)) l).any (fun l' =>
        decide (l'.opened.fds = [8, 3] ∧ l'.kern.fdTable.tbl.get 8 = none)) = true)) = true)
  obtain ⟨hbefore, hstep⟩ := of_decide_eq_true hstate
  obtain ⟨l', hl', hafter⟩ := (Option.any_eq_true _ _).mp hstep
  obtain ⟨hopened, hslot⟩ := of_decide_eq_true hafter
  obtain ⟨-, ⟨p, howns⟩ | hreleased⟩ := h _ _ _ l l' _ hl hl'
  · obtain ⟨i, hi⟩ := howns.slot
    exact nomatch hslot.symm.trans hi
  · exact nomatch hopened.symm.trans (hreleased.opened.trans hbefore)

end Listener

end Vk

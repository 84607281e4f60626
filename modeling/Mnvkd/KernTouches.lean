/-
# `Mnvkd.KernTouches` — the kernel's accesses to the memory of its processes

The queues, the threads and the sockets of a process are in its heap, and the
kernel reads and writes them: when it dispatches the process, when it polls for it,
when it is dumped, and when it is woken for a shutdown.  Each access but the last
comes after the heap has been entered.  `vk_kern_prepoll` enters no heap, so it may
wake only processes whose heaps are open all the time, which those of isolated
processes are not (`touched_of_run`, `touched_masked`).
-/
import Mnvkd.KernGuard
import Mnvkd.KernShutdown

namespace Vk

open Lib

namespace Kern

/-- Every access to the memory of a process so far was one that its pages allowed. -/
def Touched (k : Kern) : Prop := ∀ t ∈ k.touches, t.2 = true

/-- A process that is blocked has its heap open, unless it is isolated. -/
def BlockedOpen (k : Kern) : Prop :=
  ∀ p ∈ k.blockedProcs, k.heaps.isolated p = false → (k.heaps.heap p).prot = true

/-- No isolated process is blocked when the processes are woken for a shutdown. -/
def WakesOpen (a : KernAct) (k : Kern) : Prop :=
  a = .prepoll → k.shutdownRequested = true → ∀ p ∈ k.blockedProcs, k.heaps.isolated p = false

instance decidableWakesOpen (a : KernAct) (k : Kern) : Decidable (WakesOpen a k) :=
  match a with
  | .prepoll =>
      decidable_of_iff (k.shutdownRequested = true →
        ∀ p ∈ k.blockedProcs, k.heaps.isolated p = false) ⟨fun h _ => h, fun h => h rfl⟩
  | .dequeueFresh | .dequeueRun | .signal _ | .dispatch _ _ | .compute _ | .accept _ | .fault _
  | .leave _ | .poll _ | .pollError => .isTrue nofun

/-! ## Accesses -/

section Touches
variable {k : Kern} {p : Nat}

theorem Touched.touch (h : k.Touched) (hacc : k.Accessible p) : (k.touch p).Touched := by
  intro t ht
  obtain rfl | ht := List.mem_cons.mp ht
  · exact decide_eq_true hacc
  · exact h t ht

theorem accessible_of_heaps {h : Heaps} (hs : h.Sound) (hheaps : k.heaps = h) (hlive : h.live p = true)
    (hprot : (h.heap p).prot = true) : k.Accessible p := by
  have hacc := hs.accessible hlive hprot
  rw [← hheaps] at hacc
  exact hacc

@[simp] theorem enqueueRun_touches : (k.enqueueRun p).touches = k.touches := by
  unfold enqueueRun
  split <;> rfl

/-- A flush reads the queues of the process. -/
theorem Touched.flush (h : k.Touched) (hacc : k.Accessible p) : (k.flushProcQueues p).Touched := by
  unfold flushProcQueues
  cases (k.procs p).localPtr with
  | none => exact h
  | some l =>
      have htouch := h.touch hacc
      dsimp only
      unfold enqueueBlocked dropBlocked enqueueRun dropRun
      repeat' split
      all_goals exact htouch

theorem freeProc_touches : (k.freeProc p).touches = k.touches := by
  unfold freeProc
  dsimp only
  cases ((k.setPolled p (k.polled p ProcLocal.init).prepollZombie).procs p).pool with
  | none => rfl
  | some e => rfl

theorem Touched.afterExecute (h : k.Touched) (henter : k.heaps.Entered p) :
    (k.afterExecute p).Touched := by
  have hflush : (k.flushProcQueues p).Touched :=
    h.flush (henter.sound.accessible henter.live henter.prot)
  unfold Kern.afterExecute
  dsimp only
  split
  · intro t ht
    have ht : t ∈ ((k.flushProcQueues p).freeProc p).touches := ht
    rw [freeProc_touches] at ht
    exact hflush t ht
  · split
    · exact hflush
    · exact hflush

theorem Touched.execute (h : k.Touched) (henter : k.heaps.Entered p) (postpoll : Option Local) :
    (k.execute p postpoll).Touched := by
  have htouch : (k.touch p).Touched := h.touch (henter.sound.accessible henter.live henter.prot)
  obtain hafter | ⟨-, -, -, htouches⟩ := execute_cases henter postpoll
  · rw [hafter]
    exact htouch.afterExecute henter
  · intro t ht
    rw [htouches] at ht
    exact htouch t ht

theorem Touched.prepollProc (h : k.Touched) (henter : k.heaps.Entered p) :
    (k.prepollProc p).Touched := by
  have htouch : (k.touch p).Touched := h.touch (henter.sound.accessible henter.live henter.prot)
  unfold Kern.prepollProc
  cases (k.procs p).localPtr with
  | none => exact h
  | some l => exact htouch

/-- A dump reads the memory of a process with its heap entered. -/
theorem Touched.dumpProc (h : k.Touched) (hs : k.heaps.Sound) : (k.dumpProc p).Touched := by
  unfold Kern.dumpProc
  split
  · exact h
  · cases hl : (k.procs p).localPtr with
    | none => exact h
    | some l =>
        have hlive : k.heaps.live p = true := by
          show (k.procs p).localPtr.isSome = true
          rw [hl]
          rfl
        have hinside := (hs.inside p hlive).1
        dsimp only
        split
        · rename_i hentered
          have hprot : (k.heaps.heap p).prot = (k.heaps.heap p).protInside := beq_iff_eq.mp hentered
          exact h.touch (hs.accessible hlive (hprot.trans hinside))
        · have henter : (k.heapEnter p).Touched := h
          refine henter.touch ?_
          exact accessible_of_heaps (hs.setProt hlive (k.heaps.heap p).protInside) (heapEnter_heaps k p)
            hlive ((Heaps.setProt_prot_self _).trans hinside)

theorem Touched.dump (h : k.Touched) (hs : k.heaps.Sound) : k.dump.Touched := by
  unfold Kern.dump
  generalize List.range k.procCount = ps
  induction ps generalizing k with
  | nil => exact h
  | cons p ps ih =>
      refine ih (h.dumpProc hs) ?_
      show (k.dumpProc p).heaps.Sound
      rw [dumpProc_heaps hs]
      exact hs

theorem dequeueFresh_touches (k : Kern) : k.dequeueFresh.touches = k.touches :=
  dequeueFresh_unchanged k touches fun _ _ => enqueueRun_touches

theorem Touched.dequeueRun (h : k.Touched) (hs : k.heaps.Sound) : k.dequeueRun.Touched := by
  unfold Kern.dequeueRun
  cases k.runProcs with
  | nil =>
      dsimp only
      split
      · exact h.dump hs
      · exact h
  | cons p rest => exact h

/-- A process whose heap is open is woken. -/
theorem Touched.wakeProc (h : k.Touched) (hacc : k.Accessible p) : (k.wakeProc p).Touched := by
  have hprocs : ∀ (k' : Kern), k'.heaps = k.heaps → k'.Accessible p := by
    intro k' hheaps
    have hacc : k.heaps.pages (k.heaps.heap p).addr = some true := hacc
    rw [← hheaps] at hacc
    exact hacc
  unfold Kern.wakeProc
  cases hl : (k.procs p).localPtr with
  | none => exact h
  | some l =>
      have hlive : k.Live p := by rw [Live, hl]; rfl
      have hset : ∀ l : Local, ((((k.setRun p true).touch p).setLocal p l).flushProcQueues p).Touched := by
        intro l
        have htouch : ((k.setRun p true).touch p).Touched :=
          Touched.touch (k := k.setRun p true) h (hprocs _ (setRun_heaps k p true))
        refine Touched.flush (k := ((k.setRun p true).touch p).setLocal p l) htouch (hprocs _ ?_)
        rw [setLocal_heaps (live_setRun hlive), touch_heaps, setRun_heaps]
      dsimp only
      split
      · exact hset _
      · exact hset _

theorem Touched.prepoll (h : k.Touched)
    (hacc : k.shutdownRequested = true → ∀ p ∈ k.blockedProcs, k.Accessible p) : k.prepoll.Touched := by
  have htouched : k.prepoll.Touched ∧ ∀ p ∈ [], k.prepoll.Accessible p := by
    refine prepoll_invariant k (I := fun ps k => k.Touched ∧ ∀ p ∈ ps, k.Accessible p) ?_
      (fun hshutdown => ⟨h, hacc hshutdown⟩) ⟨h, nofun⟩
    rintro p ps k ⟨h, hacc⟩
    refine ⟨h.wakeProc (hacc p List.mem_cons_self), fun q hq => ?_⟩
    have hq : k.heaps.pages (k.heaps.heap q).addr = some true := hacc q (List.mem_cons_of_mem p hq)
    rw [← wakeProc_heaps k p] at hq
    exact hq
  exact htouched.1

/-! ## The listener -/

theorem Touched.initPrivate (h : k.Touched) (mapped : Option Nat) : (k.initPrivate p mapped).1.Touched := by
  unfold Kern.initPrivate
  cases mapped with
  | none => exact h
  | some addr =>
      dsimp only
      split
      · refine Touched.touch h ?_
        show Pages.mmap _ addr true (Kern.procs _ p).heap.addr = some true
        rw [updProc_procs_self]
        exact (Pages.mmap_apply _ _ _ _).trans (if_pos rfl)
      · exact h

theorem Touched.allocFromPool (h : k.Touched) (hs : k.heaps.Sound) (fits : Bool) :
    (k.allocFromPool p fits).1.Touched := by
  unfold Kern.allocFromPool
  cases hfree : k.freeEntries with
  | nil => exact h
  | cons e rest =>
      have he : e ∈ k.heaps.freeEntries := by
        show e ∈ k.freeEntries
        rw [hfree]
        exact List.mem_cons_self
      dsimp only
      split
      · refine Touched.touch h ?_
        show Kern.pages _ (Kern.procs _ p).heap.addr = some true
        rw [updProc_procs_self]
        dsimp only
        rw [heapEnter, updProc_procs_self, updProc_procs_self]
        show ((k.heaps.entryHeap e).enter k.heaps.pages).2
          ((k.heaps.entryHeap e).enter k.heaps.pages).1.addr = some true
        rw [hs.enter_entry e]
        exact hs.mprotect_entry he
      · exact h

theorem Touched.setupProc (h : k.Touched) (hs : k.heaps.Sound) (hlive : k.heaps.live p = true)
    (hprot : (k.heaps.heap p).prot = true) (a : Accept) : (k.setupProc p a).Touched := by
  have hflags := hs.adds_setFlags hlive a.privileged a.isolated
  have hacc : ∀ k' : Kern, k'.heaps = k.heaps.setFlags p a.privileged a.isolated → k'.Accessible p :=
    fun k' hheaps => accessible_of_heaps hflags.sound hheaps hlive hprot
  have hopen : (k.openProc p a).Touched := Touched.touch h (hacc _ (openProc_heaps a hs hlive hprot))
  rw [setupProc_eq]
  cases a.setup with
  | noThread => exact hopen
  | noArg => exact hopen
  | played =>
      exact Touched.flush (k := (k.openProc p a).setLocal p _) hopen
        (hacc _ (openProc_setLocal_heaps a hs hlive hprot _))

theorem Touched.accept (h : k.Touched) (hqueues : k.sched.Queues False) (hs : k.heaps.Sound) (a : Accept) :
    (k.accept a).Touched := by
  unfold Kern.accept
  cases hfree : k.freeProcs with
  | nil => exact h
  | cons p rest =>
      obtain ⟨-, hdead, -⟩ := hqueues.take_free (p := p) hfree
      have htouched : (({ k with freeProcs := rest } : Kern).allocHeap p a).1.Touched := by
        unfold allocHeap
        have hpool : (({ k with freeProcs := rest } : Kern).allocFromPool p a.fits).1.Touched :=
          Touched.allocFromPool (k := { k with freeProcs := rest }) h hs a.fits
        split
        · dsimp only
          split
          · exact hpool
          · exact hpool.initPrivate a.mapped
        · exact Touched.initPrivate (k := { k with freeProcs := rest }) h a.mapped
      obtain ⟨hadds, hlive, hprot⟩ :=
        addsHeap_allocHeap a (k := { k with freeProcs := rest }) (p := p) hs hdead
      dsimp only
      split
      · rename_i hok
        rw [hok] at hlive
        exact htouched.setupProc hadds.sound hlive (hprot hok) a
      · exact htouched

end Touches

/-! ## Blocked processes -/

/-- A process that is in no queue of blocked processes, and has no blocked sockets,
is not put into one. -/
theorem Sched.flush_of_clear {s : Sched} {p : Nat} (hp : s.blockedQed p = false) (run : Bool) :
    (s.flush p run false).blockedProcs = s.blockedProcs := by
  have hrun : (if run then s.enqueueRun p else s.dropRun p).blockedProcs = s.blockedProcs ∧
      (if run then s.enqueueRun p else s.dropRun p).blockedQed = s.blockedQed := by
    unfold Sched.enqueueRun Sched.dropRun
    split <;> split <;> exact ⟨rfl, rfl⟩
  unfold Sched.flush
  dsimp only
  rw [if_neg Bool.false_ne_true, Sched.dropBlocked, hrun.2, hp, if_neg Bool.false_ne_true]
  exact hrun.1

/-- A thread that is played blocks no socket. -/
theorem Local.play_blocked (l : Local) (t : Nat) : (l.play t).pl.blocked = l.pl.blocked := by
  show (l.pl.enqueueRun t).blocked = l.pl.blocked
  unfold ProcLocal.enqueueRun ProcLocal.ready
  dsimp only
  split <;> rfl

section BlockedOpen
variable {k k' : Kern} {p : Nat}

theorem BlockedOpen.of_heaps (h : k.BlockedOpen) (hblocked : ∀ p ∈ k'.blockedProcs, p ∈ k.blockedProcs)
    (hheaps : k'.heaps = k.heaps) : k'.BlockedOpen := by
  intro p hp hiso
  rw [hheaps] at hiso ⊢
  exact h p (hblocked p hp) hiso

/-- What holds of the other processes, and of `p` if it is blocked. -/
theorem BlockedOpen.of_frame (h : k.BlockedOpen) (hframe : ∀ q, q ≠ p → Sched.Frame q k.sched k'.sched)
    (hheaps : ∀ q, q ≠ p → k'.heaps.heap q = k.heaps.heap q ∧ k'.heaps.isolated q = k.heaps.isolated q)
    (hp : p ∈ k'.blockedProcs → k'.heaps.isolated p = false → (k'.heaps.heap p).prot = true) :
    k'.BlockedOpen := by
  intro q hq hiso
  by_cases hqp : q = p
  · subst q
    exact hp hq hiso
  · obtain ⟨hheap, hisolated⟩ := hheaps q hqp
    rw [hheap]
    rw [hisolated] at hiso
    exact h q ((hframe q hqp).blocked.mp hq) hiso

/-- The turn of a process ends: if it is blocked, and not isolated, its heap stays
open. -/
theorem blockedOpen_afterExecute (hqueues : k.sched.Queues False) (henter : k.heaps.Entered p)
    (h : k.BlockedOpen) : (k.afterExecute p).BlockedOpen := by
  refine h.of_frame (p := p) (fun q hq => frame_afterExecute hq) (fun q hq => ?_) fun hp hiso => ?_
  · rw [afterExecute_heaps]
    split
    · obtain ⟨hheap, hiso, -⟩ := Heaps.free_of_ne (h := k.heaps) hq
      exact ⟨hheap, hiso⟩
    · split
      · exact ⟨Heaps.setProt_heap_of_ne hq _, rfl⟩
      · exact ⟨rfl, rfl⟩
  · have hflush := queues_flush hqueues henter.live
    rw [afterExecute_heaps] at hiso ⊢
    split at hiso
    · -- a zombie is not in the queue
      rename_i hzombie
      have hmem : p ∈ (k.flushProcQueues p).sched.blockedProcs := by
        have hp : p ∈ (k.afterExecute p).sched.blockedProcs := hp
        unfold afterExecute at hp
        dsimp only at hp
        rw [if_pos hzombie, setStage_sched, freeProc_sched] at hp
        exact hp
      have hflags : (k.flushProcQueues p).sched.runQed p = false ∧
          (k.flushProcQueues p).sched.blockedQed p = false := by
        have hor : ((k.flushProcQueues p).sched.runQed p || (k.flushProcQueues p).sched.blockedQed p) =
            false := Bool.not_eq_true' _ |>.mp hzombie
        exact Bool.or_eq_false_iff.mp hor
      have hcount := (hflush.count_eq_zero hflags.1 hflags.2).2
      exact absurd hmem (List.count_eq_zero.mp hcount)
    · rename_i hzombie
      rw [if_neg hzombie]
      split at hiso
      · rename_i hisolated
        exact absurd hisolated (Bool.eq_false_iff.mp hiso)
      · rename_i hisolated
        rw [if_neg hisolated]
        exact henter.prot

theorem blockedOpen_execute (hqueues : k.sched.Queues False) (henter : k.heaps.Entered p)
    (h : k.BlockedOpen) (postpoll : Option Local) : (k.execute p postpoll).BlockedOpen := by
  obtain hafter | ⟨-, hheaps, hblocked, -⟩ := execute_cases henter postpoll
  · rw [hafter]
    exact blockedOpen_afterExecute (k := k.touch p) hqueues henter h
  · intro q hq hiso
    rw [hblocked] at hq
    have hsame : ((k.heaps.execute p).heap, (k.heaps.execute p).isolated) =
        (k.heaps.heap, k.heaps.isolated) := by
      unfold Heaps.execute
      split <;> rfl
    obtain ⟨hheap, hisolated⟩ := Prod.mk.inj hsame
    rw [hheaps, hheap]
    rw [hheaps, hisolated] at hiso
    exact h q hq hiso

/-- A connection's process is not blocked. -/
theorem accept_blockedProcs (hqueues : k.sched.Queues False) (a : Accept) :
    (k.accept a).blockedProcs = k.blockedProcs := by
  unfold accept
  cases hfree : k.freeProcs with
  | nil => rfl
  | cons p rest =>
      obtain ⟨-, hdead, -⟩ := hqueues.take_free (p := p) hfree
      have hnone : (({ k with freeProcs := rest } : Kern).procs p).localPtr = none :=
        Option.isNone_iff_eq_none.mp (Option.isSome_eq_false_iff.mp hdead)
      dsimp only
      obtain ⟨hok, hs, -⟩ | ⟨hok, hs, -⟩ := inits_allocHeap a hnone
      · rw [if_pos hok]
        generalize (({ k with freeProcs := rest } : Kern).allocHeap p a).1 = k₁ at hs
        have hqed : k₁.sched.blockedQed p = false := by
          rw [hs]
          exact Function.update_self _ _ _
        have hblocked : k₁.blockedProcs = k.blockedProcs := by
          show k₁.sched.blockedProcs = k.blockedProcs
          rw [hs]
          rfl
        refine Eq.trans ?_ hblocked
        unfold setupProc
        cases a.setup with
        | noThread => rfl
        | noArg => rfl
        | played =>
            show (Kern.flushProcQueues _ p).sched.blockedProcs = k₁.sched.blockedProcs
            rw [flushProcQueues_sched (by rw [setLocal, updProc_procs_self]), Local.play_blocked]
            refine (Sched.flush_of_clear ?_ _).trans rfl
            show (Kern.procs _ p).blockedQed = false
            rw [setLocal, updProc_procs_self, touch_procs, heapEnter, updProc_procs_self,
              updProc_procs_self]
            exact hqed
      · rw [if_neg (by rw [hok]; exact Bool.false_ne_true)]
        show (Kern.sched _).blockedProcs = k.sched.blockedProcs
        rw [hs]
        rfl

/-- Waking processes blocks none that is not blocked already. -/
theorem mem_blockedProcs_prepoll {q : Nat} (hq : q ∈ k.prepoll.blockedProcs) : q ∈ k.blockedProcs := by
  have hblocked : (∀ p ∈ [], p ∈ k.blockedProcs) ∧
      (q ∈ k.prepoll.blockedProcs → q ∈ k.blockedProcs) := by
    refine prepoll_invariant k (I := fun ps k' => (∀ p ∈ ps, p ∈ k.blockedProcs) ∧
      (q ∈ k'.blockedProcs → q ∈ k.blockedProcs)) ?_ (fun _ => ⟨fun _ => id, id⟩) ⟨nofun, id⟩
    rintro p ps k' ⟨hps, hback⟩
    refine ⟨fun r hr => hps r (List.mem_cons_of_mem p hr), fun hq => ?_⟩
    by_cases hqp : q = p
    · exact hqp ▸ hps p List.mem_cons_self
    · exact hback ((frame_wakeProc hqp).blocked.mp hq)
  exact hblocked.2 hq

theorem dequeueFresh_blockedProcs (k : Kern) : k.dequeueFresh.blockedProcs = k.blockedProcs := by
  refine dequeueFresh_unchanged k blockedProcs fun k p => ?_
  simp only [enqueueRun]
  split
  next => rfl
  next => rfl

theorem dequeueRun_blockedProcs (k : Kern) : k.dequeueRun.blockedProcs = k.blockedProcs := by
  unfold dequeueRun
  cases k.runProcs with
  | nil =>
      dsimp only
      split
      · exact congrArg Sched.blockedProcs (dump_sched k)
      · rfl
  | cons p rest => rfl

/-! ## The invariant -/

/-- Every step accesses only memory that can be accessed, and leaves open the heaps
that are blocked. -/
theorem touched_step {a : KernAct} (hsound : k.Sound False) (hguard : k.Guarded) (h : k.Touched)
    (hopen : k.BlockedOpen) (hfault : FaultHarmless a k) (hwakes : WakesOpen a k)
    (hst : step a k = some k') : k'.Touched ∧ k'.BlockedOpen := by
  cases steps_of_step hst with
  | dequeueFresh hstage =>
      refine ⟨fun t ht => h t (dequeueFresh_touches k ▸ ht), hopen.of_heaps (fun p hp => ?_)
        dequeueFresh_heaps⟩
      rw [← dequeueFresh_blockedProcs k]
      exact hp
  | dequeueRun hstage =>
      refine ⟨h.dequeueRun hguard.sound, hopen.of_heaps (fun p hp => ?_)
        (dequeueRun_heaps hguard.sound)⟩
      rw [← dequeueRun_blockedProcs k]
      exact hp
  | signal signo hstage =>
      cases signo with
      | term => exact ⟨h, hopen⟩
      | usr1 =>
          refine ⟨h.dump hguard.sound, hopen.of_heaps (fun p hp => ?_) (dump_heaps hguard.sound)⟩
          have hblocked : k.dump.blockedProcs = k.blockedProcs :=
            congrArg Sched.blockedProcs (dump_sched k)
          rw [← hblocked]
          exact hp
  | dispatch p kernHd postpoll hstage =>
      have henter := entered_dispatch hguard hstage (hsound.current p (by rw [hstage]; rfl))
      have hqueues : (k.heapEnter p).sched.Queues False := by
        rw [heapEnter_sched]
        exact hsound.queues
      have hopen' : (k.heapEnter p).BlockedOpen := by
        refine hopen.of_frame (p := p) (fun q _ => ?_) (fun q hq => ?_) fun _ _ => henter.prot
        · rw [heapEnter_sched]
          exact Sched.Frame.refl
        · rw [heapEnter_heaps]
          exact ⟨Heaps.setProt_heap_of_ne hq _, rfl⟩
      have henter' : (Kern.heaps { k.heapEnter p with
          kernHd := kernHd, dispatched := p :: (k.heapEnter p).dispatched }).Entered p :=
        ⟨henter.sound.of_kern _ henter.sound.kern fun _ _ => rfl, henter.kern, henter.live, henter.prot⟩
      exact ⟨Touched.execute (k := { k.heapEnter p with
          kernHd := kernHd, dispatched := p :: (k.heapEnter p).dispatched }) h henter' postpoll,
        blockedOpen_execute (k := { k.heapEnter p with
          kernHd := kernHd, dispatched := p :: (k.heapEnter p).dispatched }) hqueues henter' hopen'
          postpoll⟩
  | compute p l hstage =>
      exact ⟨h, hopen.of_heaps (fun _ hp => hp) (setLocal_heaps (hguard.running p hstage).live)⟩
  | accept p a hstage hkern =>
      refine ⟨h.accept hsound.queues hguard.sound a, ?_⟩
      obtain ⟨-, heq⟩ | ⟨q, hdead, hadds, -⟩ := accept_heaps a hsound.queues hguard.sound
      · rw [heq]
        exact hopen
      · intro r hr hiso
        rw [accept_blockedProcs hsound.queues] at hr
        have hrq : r ≠ q := by
          rintro rfl
          exact Bool.false_ne_true (hdead.symm.trans (hsound.queues.blockedLive r hr))
        rw [hadds.heap r hrq]
        exact hopen r hr ((hadds.isolated r hrq).symm.trans hiso)
  | fault p postpoll hstage =>
      obtain ⟨hheaps, henter⟩ := entered_fault hguard hstage hfault
      have hqueues : ((k.kernEnter.heapEnter p).touch p).sched.Queues False := by
        rw [touch_sched, heapEnter_sched]
        exact hsound.queues
      have henter' : ((k.kernEnter.heapEnter p).touch p).heaps.Entered p := by
        rw [touch_heaps, hheaps]
        exact henter
      have htouch : ((k.kernEnter.heapEnter p).touch p).Touched :=
        Touched.touch (k := k.kernEnter.heapEnter p) h
          (henter'.sound.accessible henter'.live henter'.prot)
      have hopen' : ((k.kernEnter.heapEnter p).touch p).BlockedOpen := by
        intro q hq hiso
        rw [touch_heaps, hheaps] at hiso ⊢
        exact hopen q hq hiso
      exact ⟨htouch.execute henter' postpoll, blockedOpen_execute hqueues henter' hopen' postpoll⟩
  | leave p rc hstage =>
      obtain ⟨hheaps, henter⟩ := entered_leave hguard hstage
      obtain ⟨k₁, hk₁, hs, htouched, hopen₁⟩ : ∃ k₁ : Kern,
          k₁ = (if (k.procs p).privileged then k else k.kernEnter) ∧ k₁.sched = k.sched ∧
          k₁.Touched ∧ k₁.BlockedOpen := by
        refine ⟨_, rfl, ?_, ?_, ?_⟩
        · split <;> rfl
        · split <;> exact h
        · split <;> exact hopen
      rw [← hk₁] at hheaps
      have henter₁ : k₁.heaps.Entered p := hheaps ▸ henter
      have hqueues₁ : k₁.sched.Queues False := hs ▸ hsound.queues
      unfold leave
      rw [← hk₁]
      dsimp only
      split
      · exact ⟨htouched.afterExecute henter₁, blockedOpen_afterExecute hqueues₁ henter₁ hopen₁⟩
      · have henter₂ : (k₁.prepollProc p).heaps.Entered p := by
          rw [prepollProc_heaps]
          exact henter₁
        have hqueues₂ : (k₁.prepollProc p).sched.Queues False := by
          rw [prepollProc_sched]
          exact hqueues₁
        have hopen₂ : (k₁.prepollProc p).BlockedOpen := by
          refine hopen₁.of_heaps (fun q hq => ?_) (prepollProc_heaps k₁ p)
          have hq : q ∈ (k₁.prepollProc p).sched.blockedProcs := hq
          rw [prepollProc_sched] at hq
          exact hq
        exact ⟨(htouched.prepollProc henter₁).afterExecute henter₂,
          blockedOpen_afterExecute hqueues₂ henter₂ hopen₂⟩
  | prepoll hstage =>
      refine ⟨h.prepoll fun hshutdown p hp => ?_,
        hopen.of_heaps (fun p hp => mem_blockedProcs_prepoll hp) (prepoll_heaps k)⟩
      exact hguard.sound.accessible (hsound.queues.blockedLive p hp)
        (hopen p hp (hwakes rfl hshutdown p hp))
  | poll revents hstage => exact ⟨h, hopen⟩
  | pollError hstage => exact ⟨h, hopen⟩

theorem touched_boot (b : Boot) : (boot b).Touched ∧ (boot b).BlockedOpen := by
  obtain ⟨k, hidle, hlive, hprot, htouches, hboot⟩ := bootProc_eq b
  have hlive₀ := (hlive 0).mpr rfl
  have henter₀ := hidle.enter hlive₀
  have htouched₀ : ((k.heapEnter 0).touch 0).Touched := by
    refine Touched.touch (k := k.heapEnter 0) (fun t ht => ?_) ?_
    · have ht : t ∈ k.touches := ht
      rw [htouches] at ht
      cases ht
    · exact accessible_of_heaps henter₀.sound (heapEnter_heaps k 0) hlive₀ henter₀.prot
  obtain ⟨henter, -⟩ := boot_heaps b
  have hheaps : (boot b).heaps = (bootProc b).heaps := flushProcQueues_heaps _ 0
  have hacc : (bootProc b).Accessible 0 :=
    accessible_of_heaps henter.sound hheaps.symm henter.live henter.prot
  have htouched : (bootProc b).Touched := by
    rw [hboot] at hacc ⊢
    exact Touched.touch (k := Kern.heapEnter _ 0) htouched₀ (by
      have hset : ∀ (k : Kern) l, (k.touch 0).setLocal 0 l |>.Accessible 0 → k.Accessible 0 := by
        intro k l hacc
        have hheap : ((k.touch 0).setLocal 0 l).procs 0 = { k.procs 0 with localPtr := some l } := by
          rw [setLocal, updProc_procs_self]
          rfl
        rw [Accessible, hheap] at hacc
        exact hacc
      exact hset _ _ hacc)
  refine ⟨htouched.flush hacc, fun p hp hiso => ?_⟩
  have hp := (@sound_boot False b).queues.blockedLive p hp
  obtain rfl := (boot_heaps b).2 p hp
  exact henter.prot

/-- In a run in which no isolated process is blocked when the processes are woken for
a shutdown, and no fault of a privileged process meets a descriptor that the signal
jumper cannot enter, the memory of a process is accessed only while its heap is
entered. -/
theorem touched_of_run {b : Boot} {as : List KernAct}
    (hmeets : Meets step (fun a k => FaultHarmless a k ∧ WakesOpen a k) as (boot b))
    (hrun : run step as (boot b) = some k) : k.Touched := by
  have h : k.Sound False ∧ k.Guarded ∧ k.Touched ∧ k.BlockedOpen :=
    run_of_meets (I := fun k => k.Sound False ∧ k.Guarded ∧ k.Touched ∧ k.BlockedOpen)
      (fun a k k' h hC hst => ⟨sound_step h.1 False.elim hst, guarded_step h.1 h.2.1 hC.1 hst,
        touched_step h.1 h.2.1 h.2.2.1 h.2.2.2 hC.1 hC.2 hst⟩)
      ⟨sound_boot b, guarded_boot b, touched_boot b⟩ hmeets hrun
  exact h.2.2.1

end BlockedOpen

/-- A process that is not isolated blocks, a dump is asked for, and then the shutdown,
for which the process is woken. -/
theorem touched_of_run_reading : ∃ k,
    run step (blockFirst readingLocal ++ [.signal .usr1, .signal .term, .dequeueRun, .prepoll])
      (boot (smallBoot false false)) = some k ∧ k.woken = [0] ∧ k.Touched := by
  obtain ⟨k, hk, hwoken⟩ := (Option.any_eq_true _ _).mp (by decide +kernel :
    (run step (blockFirst readingLocal ++ [.signal .usr1, .signal .term, .dequeueRun, .prepoll])
      (boot (smallBoot false false))).any (fun k => decide (k.woken = [0])) = true)
  exact ⟨k, hk, of_decide_eq_true hwoken, touched_of_run (b := smallBoot false false)
    (by decide +kernel) hk⟩

/-- An isolated process blocks, its heap is left, and the shutdown is requested:
`vk_kern_prepoll` reads the process's queues. -/
theorem touched_masked :
    ¬∀ (b : Boot) (as : List KernAct) (k : Kern), run step as (boot b) = some k → k.Touched := by
  intro h
  obtain ⟨k, hk, htouch⟩ := (Option.any_eq_true _ _).mp (by decide +kernel :
    (run step (blockFirst readingLocal ++ [.signal .term, .dequeueRun, .prepoll])
      (boot (smallBoot false true))).any (fun k => decide ((0, false) ∈ k.touches)) = true)
  have htrue := h _ _ k hk (0, false) (of_decide_eq_true htouch)
  cases htrue

end Kern

end Vk

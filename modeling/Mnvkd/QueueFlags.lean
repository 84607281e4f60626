/-
# `Mnvkd.QueueFlags` — the queues of a process and the flags that stand for them

`struct vk_proc_local` keeps two marked queues: the threads to run, with the flag
`run`, and the blocked sockets, with the flag `blocked`.  Seven functions of
`vk_proc_local.c` insert and remove; each is an operation on one of the two
queues and leaves the other (`Acts`).  No other function writes the flags, the
lists or the marks, apart from `vk_init` and `VK_SOCKET_INIT`, which clear the
mark of memory that is in no queue; what the rest of the program changes between
two of the operations is `elsewhere`.

So the flags are exact in every state reached, and the kernel, which reads only
them in `vk_kern_flush_proc_queues`, sees whether the process has anything left.
-/
import Mnvkd.Lib.MarkedQueue
import Mnvkd.Schedule

namespace Vk

open Lib

namespace ProcLocal

/-- The threads to run. -/
def runSide (pl : ProcLocal) : MarkedQueue Nat :=
  ⟨pl.run, pl.runQ, fun t => (pl.threads t).runEnq⟩

/-- The blocked sockets. -/
def blockedSide (pl : ProcLocal) : MarkedQueue Nat :=
  ⟨pl.blocked, pl.blockedQ, fun s => (pl.sockets s).blockedEnq⟩

/-- The flags say whether the queues have members, and the marks which, once. -/
structure FlagsExact (pl : ProcLocal) : Prop where
  run : pl.run = true ↔ pl.runQ ≠ []
  blocked : pl.blocked = true ↔ pl.blockedQ ≠ []
  queued : Queued pl

theorem flagsExact_iff (pl : ProcLocal) :
    FlagsExact pl ↔ pl.runSide.Exact ∧ pl.blockedSide.Exact := by
  constructor
  · intro h
    exact ⟨⟨h.run, h.queued.run, h.queued.runNodup⟩,
      ⟨h.blocked, h.queued.blocked, h.queued.blockedNodup⟩⟩
  · rintro ⟨hr, hb⟩
    exact ⟨hr.flag, hb.flag, ⟨hr.mark, hr.nodup, hb.mark, hb.nodup⟩⟩

/-- The kernel's view: a process whose flags are both down has nothing left. -/
theorem FlagsExact.isZombie {pl : ProcLocal} (h : FlagsExact pl) :
    pl.isZombie = (!pl.run && !pl.blocked) := by
  have hrun := h.run
  have hblocked := h.blocked
  have hempty : ∀ {α : Type} (q : List α) (b : Bool), (b = true ↔ q ≠ []) → q.isEmpty = !b := by
    intro α q b h
    cases b with
    | false =>
        rw [not_ne_iff.mp (mt h.mpr Bool.false_ne_true)]
        rfl
    | true => exact List.isEmpty_eq_false_iff.mpr (h.mp rfl)
  rw [ProcLocal.isZombie, hempty _ _ hrun, hempty _ _ hblocked]

/-! ## One operation -/

/-- The marks of the threads after one of them is set. -/
theorem runMarks_update (pl : ProcLocal) (t : Nat) {f : Thread → Thread} {b : Bool}
    (hf : (f (pl.threads t)).runEnq = b) :
    (fun u => ((pl.updThread t f).threads u).runEnq)
      = Function.update (fun u => (pl.threads u).runEnq) t b := by
  funext u
  by_cases hu : u = t
  · subst u
    rw [updThread_threads_self, hf, Function.update_self]
  · rw [updThread_threads, if_neg hu, Function.update_of_ne hu]

theorem blockedMarks_update (pl : ProcLocal) (s : Nat) {f : Socket → Socket} {b : Bool}
    (hf : (f (pl.sockets s)).blockedEnq = b) :
    (fun a => ((pl.updSocket s f).sockets a).blockedEnq)
      = Function.update (fun a => (pl.sockets a).blockedEnq) s b := by
  funext a
  by_cases ha : a = s
  · subst a
    rw [updSocket_sockets_self, hf, Function.update_self]
  · rw [updSocket_sockets, if_neg ha, Function.update_of_ne ha]

variable (pl : ProcLocal)

theorem runSide_ready (t : Nat) : (pl.ready t).runSide = pl.runSide := by
  have hmarks : (fun u => ((pl.ready t).threads u).runEnq) = fun u => (pl.threads u).runEnq :=
    funext fun u => ready_runEnq pl t u
  simp only [runSide, hmarks]
  rfl

theorem runSide_enqueueRun (t : Nat) :
    (pl.enqueueRun t).runSide
      = if ((pl.ready t).threads t).isReady then pl.runSide.enqueue t else pl.runSide := by
  have hmark : ((pl.ready t).threads t).runEnq = pl.runSide.mark t := ready_runEnq pl t t
  cases hr : ((pl.ready t).threads t).isReady with
  | false => simp [enqueueRun, hr, runSide_ready]
  | true =>
      cases hm : pl.runSide.mark t with
      | true => simp [enqueueRun, hr, hmark, hm, MarkedQueue.enqueue, runSide_ready]
      | false =>
          have hmarks := runMarks_update (pl.ready t) t
            (f := fun that => { that with runEnq := true }) rfl
          simp only [ready_runEnq] at hmarks
          unfold enqueueRun MarkedQueue.enqueue
          dsimp only
          rw [hr, hmark, hm, if_pos (show (true && !false) = true from rfl),
            if_pos (show true = true from rfl), if_neg Bool.false_ne_true]
          exact congrArg (MarkedQueue.mk _ _) hmarks

theorem runSide_dropRun (t : Nat) : (pl.dropRun t).runSide = pl.runSide.drop t := by
  have hmarks := runMarks_update pl t (f := fun that => { that with runEnq := false }) rfl
  unfold dropRun MarkedQueue.drop
  dsimp only
  split
  · rename_i h
    rw [if_pos (show pl.runSide.mark t = true from h)]
    exact congrArg (MarkedQueue.mk _ _) hmarks
  · rename_i h
    rw [if_neg (show ¬pl.runSide.mark t = true from h)]
    rfl

theorem blockedSide_enqueueBlocked (s : Nat) :
    (pl.enqueueBlocked s).blockedSide = pl.blockedSide.enqueue s := by
  have hmarks := blockedMarks_update pl s (f := fun socket => { socket with blockedEnq := true }) rfl
  unfold enqueueBlocked MarkedQueue.enqueue
  split
  · rename_i h
    rw [if_pos (show pl.blockedSide.mark s = true from h)]
  · rename_i h
    rw [if_neg (show ¬pl.blockedSide.mark s = true from h)]
    exact congrArg (MarkedQueue.mk _ _) hmarks

theorem blockedSide_dropBlocked (s : Nat) :
    (pl.dropBlocked s).blockedSide = pl.blockedSide.drop s := by
  have hmarks := blockedMarks_update pl s (f := fun socket => { socket with blockedEnq := false }) rfl
  unfold dropBlocked MarkedQueue.drop
  dsimp only
  split
  · rename_i h
    rw [if_pos (show pl.blockedSide.mark s = true from h)]
    exact congrArg (MarkedQueue.mk _ _) hmarks
  · rename_i h
    rw [if_neg (show ¬pl.blockedSide.mark s = true from h)]
    rfl

/-- `vk_proc_local_dequeue_run`, where an empty queue answers `NULL`. -/
def dequeuedRun : ProcLocal := (pl.dequeueRun.map Prod.snd).getD pl

/-- `vk_proc_local_dequeue_blocked`, likewise. -/
def dequeuedBlocked : ProcLocal := (pl.dequeueBlocked.map Prod.snd).getD pl

theorem runSide_dequeuedRun : pl.dequeuedRun.runSide = pl.runSide.dequeue := by
  have hmarks := fun t => runMarks_update pl t (f := fun that => { that with runEnq := false }) rfl
  unfold dequeuedRun dequeueRun MarkedQueue.dequeue
  cases hq : pl.runQ with
  | nil => simp [runSide, hq]
  | cons t rest =>
      simp only [runSide, hq]
      exact congrArg (MarkedQueue.mk _ _) (hmarks t)

theorem blockedSide_dequeuedBlocked : pl.dequeuedBlocked.blockedSide = pl.blockedSide.dequeue := by
  have hmarks := fun s =>
    blockedMarks_update pl s (f := fun socket => { socket with blockedEnq := false }) rfl
  unfold dequeuedBlocked dequeueBlocked MarkedQueue.dequeue
  cases hq : pl.blockedQ with
  | nil => simp [blockedSide, hq]
  | cons s rest =>
      simp only [blockedSide, hq]
      exact congrArg (MarkedQueue.mk _ _) (hmarks s)

/-! ## The other queue -/

theorem blockedSide_enqueueRun (t : Nat) : (pl.enqueueRun t).blockedSide = pl.blockedSide := by
  unfold enqueueRun
  dsimp only
  split
  · rfl
  · rfl

theorem blockedSide_dropRun (t : Nat) : (pl.dropRun t).blockedSide = pl.blockedSide := by
  unfold dropRun
  dsimp only
  split
  · rfl
  · rfl

theorem blockedSide_dequeuedRun : pl.dequeuedRun.blockedSide = pl.blockedSide := by
  unfold dequeuedRun dequeueRun
  cases pl.runQ with
  | nil => rfl
  | cons t rest => rfl

theorem runSide_enqueueBlocked (s : Nat) : (pl.enqueueBlocked s).runSide = pl.runSide := by
  unfold enqueueBlocked
  split
  · rfl
  · rfl

theorem runSide_dropBlocked (s : Nat) : (pl.dropBlocked s).runSide = pl.runSide := by
  unfold dropBlocked
  dsimp only
  split
  · rfl
  · rfl

theorem runSide_dequeuedBlocked : pl.dequeuedBlocked.runSide = pl.runSide := by
  unfold dequeuedBlocked dequeueBlocked
  cases pl.blockedQ with
  | nil => rfl
  | cons s rest => rfl

/-! ## Any sequence -/

end ProcLocal

/-- An operation on the queues of a process, or what happens between two. -/
inductive QueueAct where
  | enqueueRun (t : Nat)
  | enqueueBlocked (s : Nat)
  | dropRun (t : Nat)
  | dropBlocked (s : Nat)
  | dropBlockedFor (t : Nat)
  | dequeueRun
  | dequeueBlocked
  /-- `vk_init` and `VK_SOCKET_INIT` of a thread and a socket -/
  | init (t s : Nat) (rxFd txFd : Pipe)
  /-- the program changes anything but the queues -/
  | elsewhere (pl : ProcLocal)

namespace ProcLocal

/-- The threads, sockets and memory of `other`, and the queues of `pl`. -/
def withQueues (other pl : ProcLocal) : ProcLocal :=
  { other with
    run := pl.run
    blocked := pl.blocked
    runQ := pl.runQ
    blockedQ := pl.blockedQ
    threads := fun t => { other.threads t with runEnq := (pl.threads t).runEnq }
    sockets := fun s => { other.sockets s with blockedEnq := (pl.sockets s).blockedEnq } }

def queueStep : QueueAct → ProcLocal → Option ProcLocal
  | .enqueueRun t, pl => some (pl.enqueueRun t)
  | .enqueueBlocked s, pl => some (pl.enqueueBlocked s)
  | .dropRun t, pl => some (pl.dropRun t)
  | .dropBlocked s, pl => some (pl.dropBlocked s)
  | .dropBlockedFor t, pl => some (pl.dropBlockedFor t)
  | .dequeueRun, pl => some pl.dequeuedRun
  | .dequeueBlocked, pl => some pl.dequeuedBlocked
  | .init t s rxFd txFd, pl =>
      -- the memory is that of no member
      if t ∈ pl.runQ ∨ s ∈ pl.blockedQ then none else some (pl.initThread t s rxFd txFd)
  | .elsewhere other, pl => some (other.withQueues pl)

theorem flagsExact_init : FlagsExact init :=
  (flagsExact_iff init).mpr ⟨MarkedQueue.exact_empty, MarkedQueue.exact_empty⟩

variable {pl pl' : ProcLocal}

theorem FlagsExact.of_run (h : FlagsExact pl) (hrun : pl'.runSide.Exact)
    (hblocked : pl'.blockedSide = pl.blockedSide) : FlagsExact pl' :=
  (flagsExact_iff pl').mpr ⟨hrun, hblocked ▸ ((flagsExact_iff pl).mp h).2⟩

theorem FlagsExact.of_blocked (h : FlagsExact pl) (hblocked : pl'.blockedSide.Exact)
    (hrun : pl'.runSide = pl.runSide) : FlagsExact pl' :=
  (flagsExact_iff pl').mpr ⟨hrun ▸ ((flagsExact_iff pl).mp h).1, hblocked⟩

theorem FlagsExact.runSide (h : FlagsExact pl) : pl.runSide.Exact := ((flagsExact_iff pl).mp h).1

theorem FlagsExact.blockedSide (h : FlagsExact pl) : pl.blockedSide.Exact :=
  ((flagsExact_iff pl).mp h).2

theorem FlagsExact.enqueueRun (h : FlagsExact pl) (t : Nat) : FlagsExact (pl.enqueueRun t) := by
  refine h.of_run ?_ (blockedSide_enqueueRun pl t)
  rw [runSide_enqueueRun]
  split
  · exact h.runSide.enqueue t
  · exact h.runSide

theorem FlagsExact.dropBlocked (h : FlagsExact pl) (s : Nat) : FlagsExact (pl.dropBlocked s) := by
  refine h.of_blocked ?_ (runSide_dropBlocked pl s)
  rw [blockedSide_dropBlocked]
  exact h.blockedSide.drop s

/-- The walk of `vk_proc_local_drop_blocked_for` over a list of sockets. -/
theorem FlagsExact.foldl_dropBlocked (t : Nat) (queue : List Nat) (h : FlagsExact pl) :
    FlagsExact (queue.foldl
      (fun pl s => if (pl.sockets s).block.blockedVk = t then pl.dropBlocked s else pl) pl) := by
  induction queue generalizing pl with
  | nil => exact h
  | cons s queue ih =>
      rw [List.foldl_cons]
      split
      · exact ih (h.dropBlocked s)
      · exact ih h

/-- Memory that is in no queue is not marked, so that clearing its mark changes
nothing. -/
theorem FlagsExact.initThread (h : FlagsExact pl) {t s : Nat} (ht : t ∉ pl.runQ)
    (hs : s ∉ pl.blockedQ) (rxFd txFd : Pipe) : FlagsExact (pl.initThread t s rxFd txFd) := by
  have hmark : (pl.threads t).runEnq = false := by
    simpa [ht] using h.queued.run t
  have hmark' : (pl.sockets s).blockedEnq = false := by
    simpa [hs] using h.queued.blocked s
  have hrun := runMarks_update pl t (f := fun _ => Thread.init s) rfl
  have hblocked := blockedMarks_update pl s (f := fun socket => socket.init s t rxFd txFd) rfl
  rw [Function.update_eq_self_iff.mpr hmark.symm] at hrun
  rw [Function.update_eq_self_iff.mpr hmark'.symm] at hblocked
  refine (flagsExact_iff _).mpr ⟨?_, ?_⟩
  · rw [show (pl.initThread t s rxFd txFd).runSide = pl.runSide from
      congrArg (MarkedQueue.mk _ _) hrun]
    exact h.runSide
  · rw [show (pl.initThread t s rxFd txFd).blockedSide = pl.blockedSide from
      congrArg (MarkedQueue.mk _ _) hblocked]
    exact h.blockedSide

/-- What one operation keeps. -/
theorem flagsExact_step {act : QueueAct} (h : FlagsExact pl) (hstep : queueStep act pl = some pl') :
    FlagsExact pl' := by
  cases act with
  | enqueueRun t =>
      cases hstep
      exact h.enqueueRun t
  | enqueueBlocked s =>
      cases hstep
      refine h.of_blocked ?_ (runSide_enqueueBlocked pl s)
      rw [blockedSide_enqueueBlocked]
      exact h.blockedSide.enqueue s
  | dropRun t =>
      cases hstep
      refine h.of_run ?_ (blockedSide_dropRun pl t)
      rw [runSide_dropRun]
      exact h.runSide.drop t
  | dropBlocked s =>
      cases hstep
      exact h.dropBlocked s
  | dropBlockedFor t =>
      cases hstep
      exact h.foldl_dropBlocked t pl.blockedQ
  | dequeueRun =>
      cases hstep
      refine h.of_run ?_ (blockedSide_dequeuedRun pl)
      rw [runSide_dequeuedRun]
      exact h.runSide.dequeue
  | dequeueBlocked =>
      cases hstep
      refine h.of_blocked ?_ (runSide_dequeuedBlocked pl)
      rw [blockedSide_dequeuedBlocked]
      exact h.blockedSide.dequeue
  | init t s rxFd txFd =>
      rw [queueStep] at hstep
      split at hstep
      · cases hstep
      · rename_i hout
        cases hstep
        exact h.initThread (fun ht => hout (.inl ht)) (fun hs => hout (.inr hs)) rxFd txFd
  | elsewhere other =>
      cases hstep
      exact ⟨h.run, h.blocked, ⟨h.queued.run, h.queued.runNodup, h.queued.blocked,
        h.queued.blockedNodup⟩⟩

/-- The flags of a process are exact in every state it reaches. -/
theorem flags_exact (acts : List QueueAct) (hrun : Lib.run queueStep acts init = some pl) :
    FlagsExact pl :=
  run_induction (fun _ _ _ h hstep => flagsExact_step h hstep) flagsExact_init hrun

/-- Two threads and two sockets, in and out of the queues. -/
def inAndOut : List QueueAct :=
  [.init 0 0 (Pipe.initFd 3 .unknown) (Pipe.initFd 3 .unknown),
    .init 1 1 (Pipe.initFd 4 .unknown) (Pipe.initFd 4 .unknown),
    .enqueueRun 0, .enqueueRun 1, .enqueueRun 0, .dropRun 0, .enqueueBlocked 1, .enqueueBlocked 0,
    .dequeueRun, .dropBlockedFor 1, .dequeueRun, .dropBlocked 1, .dequeueBlocked, .enqueueRun 1]

theorem flags_exact_inAndOut :
    FlagsExact ((Lib.run queueStep inAndOut init).get rfl) ∧
      ((Lib.run queueStep inAndOut init).get rfl).runQ = [1] :=
  ⟨flags_exact inAndOut (Option.some_get _).symm, rfl⟩

end ProcLocal

end Vk

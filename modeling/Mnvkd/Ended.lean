/-
# `Mnvkd.Ended` — whether a thread that has ended stays so

An ended thread is still known to others: to the sockets that blocked it, to its
parent, to the supervisor's pointer.  What they do to it goes through `vk_ready`,
which leaves a thread in `VK_PROC_END` alone, and the executor calls only ready
threads.  The exception is `vk_raise_at`, which sets `VK_PROC_ERR` whatever the
status is: from another coroutine, from a signal and from the shutdown.  As long
as nothing is raised at it, the end is final (`end_absorbing`).

The machine of `Mnvkd.Machine` lacks what raises at others, so here it is extended
by it (`RaiseMachine`).
-/
import Mnvkd.HandlerMoves
import Mnvkd.Kern
import Mnvkd.Responder

namespace Vk

open Lib

/-! ## Raising at others -/

/-- A process, and the sockets whose `blocked_vk` the shutdown has cleared. -/
structure RaiseMachine where
  m : Machine
  detached : Nat → Bool

/-- A step of the machine, or an error raised at a thread: by the coroutine that
runs, by a signal that interrupts it, or for the shutdown.  `p` is where the
interrupted coroutine last came back, and so where it goes on. -/
inductive RaiseAct where
  | act (a : Act)
  | raiseAt (u : Nat) (e : Errno)
  | signal (p : Option (IoLoop × Nat))
  | shutdown

namespace Machine

/-- The process after a raise.  A thread in error goes on at its `vk_finally`, out
of any loop. -/
def faulted (m : Machine) (pl : ProcLocal) : Machine :=
  { m with pl := pl, pos := fun u => if (pl.threads u).status = .err then none else m.pos u }

/-- `vk_begin` has set the thread that runs from error to run. -/
def begun (m : Machine) (t : Nat) : Machine :=
  { m with pl := m.pl.updThread t fun that =>
      if that.status = .err then { that with status := .run } else that }

/-- A signal interrupts thread `t`, and the process is executed again. -/
def interrupt (m : Machine) (t : Nat) (p : Option (IoLoop × Nat)) : Machine :=
  let m := (m.begun t).setPos t p
  { m.faulted m.pl.raiseSignal.1 with stage := .exec .pick }

/-- `vk_wait` has set the thread of the socket. -/
def attaches (m : Machine) (s : Nat) : Bool :=
  match m.stage with
  | .back t => (m.pl.threads t).status == .wait && (m.pl.threads t).waitingSocketPtr == some s
  | _ => false

end Machine

namespace RaiseMachine

def step : RaiseAct → RaiseMachine → Option RaiseMachine
  | .act a, x => (Machine.step a x.m).map fun m => ⟨m, fun s => x.detached s && !m.attaches s⟩
  | .raiseAt u e, x =>
      match x.m.stage with
      | .inside t =>
          if x.m.pos t = none then some ⟨x.m.faulted (x.m.pl.raiseAt u e), x.detached⟩ else none
      | _ => none
  | .signal p, x =>
      match x.m.stage with
      | .inside t => some ⟨x.m.interrupt t p, x.detached⟩
      | _ => none
  | .shutdown, x =>
      if x.m.stage = .kernel then
        let l := x.m.pl.blockedQ.foldl Local.wakeSocket ⟨x.m.pl, x.detached⟩
        some ⟨x.m.faulted l.pl, l.detached⟩
      else none

/-- The thread that `vk_proc_local_raise_signal` raises at. -/
def signalled (pl : ProcLocal) : Option Nat :=
  pl.runningCr.map fun t => pl.supervisorCr.getD t

/-- The step raises at thread `u` from outside. -/
def RaisesAt (u : Nat) (a : RaiseAct) (x : RaiseMachine) : Prop :=
  match a with
  | .act _ => False
  | .raiseAt v _ => v = u
  | .signal _ => signalled x.m.pl = some u
  | .shutdown => ∃ s ∈ x.m.pl.blockedQ, x.detached s = false ∧ x.m.pl.blockedVk s = u

/-- The thread has ended, is not to run, and does not run. -/
structure Absorbed (u : Nat) (x : RaiseMachine) : Prop where
  status : (x.m.pl.threads u).status = .ended
  unqueued : u ∉ x.m.pl.runQ
  outside : x.m.stage ≠ .inside u

/-- A process before it is executed, in which no thread has ended. -/
structure Booted (x : RaiseMachine) : Prop where
  stage : x.m.stage = .kernel
  queued : Queued x.m.pl
  alive : ∀ u, (x.m.pl.threads u).status ≠ .ended

end RaiseMachine

/-! ## Out of the queue -/

/-- The thread has ended and is not to run. -/
structure Tomb (u : Nat) (pl : ProcLocal) : Prop where
  status : (pl.threads u).status = .ended
  unqueued : u ∉ pl.runQ

namespace Tomb

variable {u s : Nat} {pl pl' : ProcLocal}

theorem of_same (h : Tomb u pl) (hthreads : pl'.threads = pl.threads) (hrunQ : pl'.runQ = pl.runQ) :
    Tomb u pl' :=
  ⟨hthreads ▸ h.status, hrunQ ▸ h.unqueued⟩

theorem ready (h : Tomb u pl) (t : Nat) : Tomb u (pl.ready t) := by
  refine ⟨?_, h.unqueued⟩
  rcases ProcLocal.ready_status_cases pl t u with hsame | ⟨hne, -⟩
  · rw [hsame]
    exact h.status
  · exact absurd h.status hne

/-- `vk_proc_local_enqueue_run` inserts a thread only where `vk_ready` has left it
ready. -/
theorem enqueueRun (h : Tomb u pl) (t : Nat) : Tomb u (pl.enqueueRun t) := by
  refine ⟨?_, fun hu => ?_⟩
  · rw [ProcLocal.enqueueRun_status]
    exact (h.ready t).status
  · rcases ProcLocal.enqueueRun_cases pl t with ⟨hready, -, hrunQ, -⟩ | ⟨-, hsame⟩
    · rw [hrunQ, List.mem_cons] at hu
      rcases hu with rfl | hu
      · rw [Thread.isReady, (h.ready u).status] at hready
        cases hready
      · exact h.unqueued hu
    · rw [hsame] at hu
      exact h.unqueued hu

theorem stirs (hm : Stirs s pl pl') (h : Tomb u pl) : Tomb u pl' := by
  induction hm with
  | data hsame => exact h.of_same hsame.threads hsame.runQ
  | ready pl t => exact h.ready t
  | enqueueRun pl t => exact h.enqueueRun t
  | enqueueBlocked pl =>
      obtain ⟨hthreads, hrunQ⟩ := ProcLocal.enqueueBlocked_rest pl s
      exact h.of_same hthreads hrunQ
  | trans _ _ ih ih' => exact ih' (ih h)

/-- A thread other than `u` does as it likes. -/
theorem own {t : Nat} (h : Tomb u pl) (hown : Own t pl pl') (hu : u ≠ t) : Tomb u pl' := by
  refine ⟨?_, fun hmem => ?_⟩
  · rw [hown.others u hu]
    exact h.status
  · rcases hown.runQ u hmem with hold | hself
    · exact h.unqueued hold
    · exact hu hself

theorem dropBlocked (h : Tomb u pl) (s : Nat) : Tomb u (pl.dropBlocked s) :=
  h.of_same (ProcLocal.dropBlocked_threads ..) (ProcLocal.dropBlocked_runQ pl s)

theorem dropBlockedFor (h : Tomb u pl) (t : Nat) : Tomb u (pl.dropBlockedFor t) := by
  unfold ProcLocal.dropBlockedFor
  generalize pl.blockedQ = queue
  induction queue generalizing pl with
  | nil => exact h
  | cons s queue ih =>
      rw [List.foldl_cons]
      split
      · exact ih (h.dropBlocked s)
      · exact ih h

theorem dropRun (h : Tomb u pl) (t : Nat) : Tomb u (pl.dropRun t) := by
  refine ⟨?_, fun hu => h.unqueued ?_⟩
  · rw [ProcLocal.dropRun_status]
    exact h.status
  · unfold ProcLocal.dropRun at hu
    dsimp only at hu
    split at hu
    · exact List.mem_of_mem_erase hu
    · exact hu

/-- To raise at another thread. -/
theorem raiseAt (h : Tomb u pl) {t : Nat} (hu : u ≠ t) (e : Errno) : Tomb u (pl.raiseAt t e) :=
  h.own (own_raiseAt pl e) hu

end Tomb

/-! ## One step of the machine -/

section Machine

variable {u : Nat} {m m' : Machine}

/-- The thread that has ended is not the one the executor goes on with. -/
theorem Tomb.execute (h : Tomb u m.pl) (phase : Phase) :
    Tomb u (m.execute phase).pl ∧ (m.execute phase).stage ≠ .inside u := by
  cases phase with
  | pick =>
      refine ⟨?_, Stage.noConfusion⟩
      rcases ProcLocal.pickRun_cases m.pl with ⟨-, hsame⟩ | ⟨t, rest, hrunQ, -, hrest, hthreads, -, -⟩
      · show Tomb u m.pl.pickRun.pl
        rw [hsame]
        exact h
      · refine ⟨?_, fun hu => h.unqueued ?_⟩
        · show (m.pl.pickRun.pl.threads u).status = .ended
          rw [hthreads, ProcLocal.updThread_threads]
          split
          · subst u
            exact h.status
          · exact h.status
        · have hu : u ∈ m.pl.pickRun.pl.runQ := hu
          rw [hrest] at hu
          rw [hrunQ]
          exact List.mem_cons_of_mem t hu
  | loop t =>
      unfold Machine.execute
      dsimp only
      split
      · rename_i hready
        have hne : u ≠ t := fun hut => by
          subst hut
          rw [Thread.isReady, h.status] at hready
          cases hready
        refine ⟨?_, fun hst => hne (Stage.inside.inj hst).symm⟩
        have hrunning : Tomb u ({ m.pl with runningCr := some t } : ProcLocal) := ⟨h.status, h.unqueued⟩
        unfold Machine.enterThread
        dsimp only
        split
        · exact hrunning.own (own_updThread _ fun _ => rfl) hne
        · exact hrunning
      · refine ⟨?_, Stage.noConfusion⟩
        show Tomb u (m.pl.leaveLoop t).pl
        unfold ProcLocal.leaveLoop
        dsimp only
        split
        · exact h.ready t
        · exact h
  | returned rc => exact ⟨h, Stage.noConfusion⟩

theorem Tomb.afterCall {pl : ProcLocal} (h : Tomb u pl) (t : Nat) (os : Os) :
    Tomb u (pl.afterCall t os).pl := by
  have hclear : Tomb u ({ pl with runningCr := none } : ProcLocal) := ⟨h.status, h.unqueued⟩
  unfold ProcLocal.afterCall
  dsimp only
  split
  · have hdrop := hclear.dropBlockedFor t
    split
    · exact hdrop.dropRun t
    · exact hdrop
  · unfold ProcLocal.unblock
    dsimp only
    split
    · split
      · exact hclear.stirs (ProcLocal.stirs_socketHandler _ _ os)
      · exact ⟨hclear.status, hclear.unqueued⟩
    · exact hclear

/-- What a coroutine of another thread does. -/
theorem Tomb.co {t : Nat} {c : CoAct} (h : Tomb u m.pl) (hu : u ≠ t) (hco : m.co t c = some m') :
    Tomb u m'.pl := by
  cases Machine.coStepped hco with
  | turn k s hpos => exact h.own (Machine.own_turn m t k s) hu
  | call hpos c hknown => exact h.own (Machine.own_call m t c) hu
  | readhup hpos s =>
      obtain ⟨pl, rfl | rfl, hown⟩ := Machine.readhup_own m t s
      · exact h.own hown hu
      · exact (h.stirs ProcLocal.stirs_handleReadhup).own hown hu
  | play hpos v => exact h.enqueueRun v
  | store hpos mem => exact ⟨h.status, h.unqueued⟩
  | raise hpos e => exact h.raiseAt hu e
  | stop hpos status hstatus =>
      exact h.own (own_updThread m.pl (f := fun that => { that with status := status })
        fun _ => rfl) hu

theorem Tomb.step {a : Act} (h : Tomb u m.pl) (hout : m.stage ≠ .inside u)
    (hstep : Machine.step a m = some m') : Tomb u m'.pl ∧ m'.stage ≠ .inside u := by
  cases Machine.stepped hstep with
  | start hst => exact ⟨h, nofun⟩
  | play hst t => exact ⟨h.enqueueRun t, hout⟩
  | answer hst s rx tx => exact ⟨⟨h.status, h.unqueued⟩, hout⟩
  | retry hst s os hs =>
      refine ⟨?_, hout⟩
      have hhandler : Tomb u ((m.pl.unflagged s).socketHandler s os).pl :=
        h.stirs ((stirs_unflagged m.pl s).trans (ProcLocal.stirs_socketHandler _ s os))
      dsimp only
      rw [ProcLocal.retrySocket_eq]
      split
      · exact hhandler
      · exact (hhandler.dropBlocked s).enqueueRun _
  | exec phase hst => exact h.execute phase
  | co t hst c m' hco =>
      have hut : u ≠ t := fun hut => hout (hut ▸ hst)
      refine ⟨h.co hut hco, fun hst' => ?_⟩
      rcases Machine.step_of_inside hstep hst with hin | hback
      · exact hut (Stage.inside.inj (hst'.symm.trans hin))
      · cases hst'.symm.trans hback
  | unblock t hst os => exact ⟨h.afterCall t os, nofun⟩

end Machine

/-! ## Raising -/

/-- A socket of a shutdown: it is unblocked, and out of the queue. -/
def Local.unblocked (l : Local) (s : Nat) : ProcLocal :=
  (l.pl.updSocket s fun socket =>
    { socket with
      rx := socket.rx.setRxBlocked false, tx := socket.tx.setTxBlocked false }).dropBlocked s

/-- Its thread is enqueued and is to raise, unless the socket is detached from it. -/
theorem Local.wakeSocket_cases (l : Local) (s : Nat) :
    (l.detached s = true ∧ (l.wakeSocket s).pl = l.unblocked s) ∨
      (l.detached s = false ∧ (l.wakeSocket s).pl =
        ((l.unblocked s).enqueueRun (l.pl.blockedVk s)).raiseAt (l.pl.blockedVk s) Errno.EINTR) := by
  cases hd : l.detached s with
  | true =>
      refine Or.inl ⟨rfl, ?_⟩
      simp only [Local.wakeSocket, hd, if_true]
      rfl
  | false =>
      refine Or.inr ⟨rfl, ?_⟩
      simp only [Local.wakeSocket, hd, Bool.false_eq_true, if_false]
      rfl

/-- A thread that has ended afterwards had ended before, and stays out of the queue
if it was out. -/
def Buries (u : Nat) (pl pl' : ProcLocal) : Prop :=
  (pl'.threads u).status = .ended →
    (pl.threads u).status = .ended ∧ (u ∉ pl.runQ → u ∉ pl'.runQ)

namespace Buries

variable {u s t : Nat} {pl pl' pl'' : ProcLocal}

theorem trans (h : Buries u pl pl') (h' : Buries u pl' pl'') : Buries u pl pl'' := by
  intro hended
  obtain ⟨hended', hout'⟩ := h' hended
  obtain ⟨hended, hout⟩ := h hended'
  exact ⟨hended, fun hu => hout' (hout hu)⟩

theorem of_same (hthreads : pl'.threads = pl.threads) (hrunQ : pl'.runQ = pl.runQ) :
    Buries u pl pl' :=
  fun hended => ⟨hthreads ▸ hended, fun hu => hrunQ ▸ hu⟩

theorem refl (pl : ProcLocal) : Buries u pl pl := of_same rfl rfl

theorem enqueueRun (pl : ProcLocal) (t : Nat) : Buries u pl (pl.enqueueRun t) := by
  intro hended
  have hstatus : (pl.threads u).status = .ended := by
    rw [ProcLocal.enqueueRun_status] at hended
    rcases ProcLocal.ready_status_cases pl t u with hsame | ⟨-, hrun, -⟩
    · rwa [hsame] at hended
    · rw [hrun] at hended
      cases hended
  exact ⟨hstatus, fun hu => (Tomb.enqueueRun ⟨hstatus, hu⟩ t).unqueued⟩

/-- Whom an error is raised at has not ended afterwards. -/
theorem raiseAt (pl : ProcLocal) (t : Nat) (e : Errno) : Buries u pl (pl.raiseAt t e) := by
  intro hended
  have hut : u ≠ t := fun hut => by
    subst hut
    rw [ProcLocal.raiseAt, ProcLocal.updThread_threads_self] at hended
    cases hended
  have hown := own_raiseAt (t := t) pl e
  have hstatus : (pl.threads u).status = .ended := by rwa [hown.others u hut] at hended
  exact ⟨hstatus, fun hu => (Tomb.raiseAt ⟨hstatus, hu⟩ hut e).unqueued⟩

theorem raiseSignal (pl : ProcLocal) : Buries u pl pl.raiseSignal.1 := by
  unfold ProcLocal.raiseSignal
  split
  · exact (enqueueRun pl _).trans (raiseAt _ _ _)
  · exact refl pl

theorem wakeSocket (l : Local) (s : Nat) : Buries u l.pl (l.wakeSocket s).pl := by
  have hdrop : Buries u l.pl (l.unblocked s) :=
    of_same (ProcLocal.dropBlocked_threads ..) (ProcLocal.dropBlocked_runQ ..)
  obtain ⟨-, hwake⟩ | ⟨-, hwake⟩ := l.wakeSocket_cases s
  · rw [hwake]
    exact hdrop
  · rw [hwake]
    exact hdrop.trans ((enqueueRun _ _).trans (raiseAt _ _ _))

theorem foldl_wakeSocket (queue : List Nat) (l : Local) :
    Buries u l.pl (queue.foldl Local.wakeSocket l).pl := by
  induction queue generalizing l with
  | nil => exact refl l.pl
  | cons s queue ih => exact (wakeSocket l s).trans (ih _)

end Buries

theorem queued_wakeSocket {l : Local} (hq : Queued l.pl) (s : Nat) : Queued (l.wakeSocket s).pl := by
  have hunblock : Wakes 0 (fun _ => True) s l.pl (l.pl.updSocket s fun socket =>
      { socket with rx := socket.rx.setRxBlocked false, tx := socket.tx.setTxBlocked false }) :=
    ProcLocal.wakes_updSocket l.pl s (fun _ => rfl) fun _ => rfl
  have hdrop : Queued (l.unblocked s) := ProcLocal.Queued.dropBlocked (hunblock.queued hq) s
  obtain ⟨-, hwake⟩ | ⟨-, hwake⟩ := l.wakeSocket_cases s
  · rw [hwake]
    exact hdrop
  · rw [hwake]
    exact (own_raiseAt _ _).queued (ProcLocal.Queued.enqueueRun hdrop _)

theorem queued_foldl_wakeSocket (queue : List Nat) {l : Local} (hq : Queued l.pl) :
    Queued (queue.foldl Local.wakeSocket l).pl := by
  induction queue generalizing l with
  | nil => exact hq
  | cons s queue ih => exact ih (queued_wakeSocket hq s)

theorem queued_raiseSignal {pl : ProcLocal} (hq : Queued pl) : Queued pl.raiseSignal.1 := by
  unfold ProcLocal.raiseSignal
  split
  · exact (own_raiseAt _ _).queued (ProcLocal.Queued.enqueueRun hq _)
  · exact hq

/-! ## Runs -/

namespace RaiseMachine

variable {u : Nat} {x x' : RaiseMachine} {a : RaiseAct}

/-- A thread that has ended is about to be cleaned up after, or out of the queue and
not called. -/
structure Buried (x : RaiseMachine) : Prop where
  queued : Queued x.m.pl
  ended : ∀ u, (x.m.pl.threads u).status = .ended →
    x.m.stage = .back u ∨ (u ∉ x.m.pl.runQ ∧ x.m.stage ≠ .inside u)

theorem Booted.buried (h : Booted x) : Buried x := ⟨h.queued, fun u hu => absurd hu (h.alive u)⟩

/-- What raises from outside, as one change of the process. -/
inductive Stepped (x : RaiseMachine) : RaiseAct → RaiseMachine → Prop where
  | act (a : Act) (m : Machine) (hstep : Machine.step a x.m = some m) :
      Stepped x (.act a) ⟨m, fun s => x.detached s && !m.attaches s⟩
  | raiseAt (t u : Nat) (e : Errno) (hst : x.m.stage = .inside t) (hpos : x.m.pos t = none) :
      Stepped x (.raiseAt u e) ⟨x.m.faulted (x.m.pl.raiseAt u e), x.detached⟩
  | signal (t : Nat) (p : Option (IoLoop × Nat)) (hst : x.m.stage = .inside t) :
      Stepped x (.signal p) ⟨x.m.interrupt t p, x.detached⟩
  | shutdown (hst : x.m.stage = .kernel) :
      Stepped x .shutdown
        ⟨x.m.faulted (x.m.pl.blockedQ.foldl Local.wakeSocket ⟨x.m.pl, x.detached⟩).pl,
          (x.m.pl.blockedQ.foldl Local.wakeSocket ⟨x.m.pl, x.detached⟩).detached⟩

theorem stepped (h : step a x = some x') : Stepped x a x' := by
  cases a with
  | act a =>
      obtain ⟨m, hm, rfl⟩ := Option.map_eq_some_iff.mp h
      exact .act a m hm
  | raiseAt u e =>
      simp only [step] at h
      split at h
      next t hst =>
        split at h
        · cases h
          exact .raiseAt t u e hst ‹_›
        · cases h
      next => cases h
  | signal p =>
      simp only [step] at h
      split at h
      next t hst =>
        cases h
        exact .signal t p hst
      next => cases h
  | shutdown =>
      simp only [step] at h
      split at h
      · cases h
        exact .shutdown ‹_›
      · cases h

/-- The thread that is interrupted has not ended on account of that. -/
theorem buries_begun (m : Machine) (t : Nat) : Buries u m.pl (m.begun t).pl := by
  refine fun hend => ⟨?_, id⟩
  have hended : ((m.pl.updThread t fun that =>
      if that.status = .err then { that with status := .run } else that).threads u).status = .ended :=
    hend
  rw [ProcLocal.updThread_threads] at hended
  split at hended
  · subst u
    split at hended
    · cases hended
    · exact hended
  · exact hended

theorem buries_interrupt (m : Machine) (t : Nat) (p : Option (IoLoop × Nat)) :
    Buries u m.pl (m.interrupt t p).pl :=
  (buries_begun m t).trans (Buries.raiseSignal _)

/-- An ended thread that has been cleaned up after. -/
theorem Buried.absorbed (h : Buried x) (hended : (x.m.pl.threads u).status = .ended)
    (hback : x.m.stage ≠ .back u) : Absorbed u x := by
  rcases h.ended u hended with hst | ⟨hu, hout⟩
  · exact absurd hst hback
  · exact ⟨hended, hu, hout⟩

/-- Cleaning up after a thread takes it out of the queue. -/
theorem unqueued_afterCall {pl : ProcLocal} (hq : Queued pl) (hended : (pl.threads u).status = .ended)
    (os : Os) : u ∉ (pl.afterCall u os).pl.runQ := by
  have hclear : Queued ({ pl with runningCr := none } : ProcLocal) :=
    ⟨hq.run, hq.runNodup, hq.blocked, hq.blockedNodup⟩
  have hdrop := ProcLocal.Queued.dropBlockedFor hclear u
  unfold ProcLocal.afterCall
  simp only [hended, if_true]
  split
  · intro hu
    exact ((ProcLocal.mem_dropRun_iff hdrop u u).mp hu).2 rfl
  · rename_i henq
    intro hu
    exact henq ((hdrop.run u).mpr hu)

theorem Buried.step (h : Buried x) (hstep : step a x = some x') : Buried x' := by
  cases stepped hstep with
  | act a m hm =>
      refine ⟨Machine.queued_step hm h.queued, fun u hu => ?_⟩
      rcases Machine.ended_step hm hu with hold | ⟨-, -, hback⟩
      · rcases h.ended u hold with hst | ⟨hout, hinside⟩
        · right
          cases Machine.stepped hm with
          | start hst' | play hst' | answer hst' | retry hst' | exec _ hst' | co _ hst' =>
              cases hst.symm.trans hst'
          | unblock t hst' os =>
              cases hst.symm.trans hst'
              exact ⟨unqueued_afterCall h.queued hold os, nofun⟩
        · obtain ⟨htomb, hout'⟩ := Tomb.step ⟨hold, hout⟩ hinside hm
          exact Or.inr ⟨htomb.unqueued, hout'⟩
      · exact Or.inl hback
  | raiseAt t v e hst hpos =>
      refine ⟨(own_raiseAt _ _).queued h.queued, fun u hu => Or.inr ?_⟩
      obtain ⟨hold, hkeeps⟩ := Buries.raiseAt x.m.pl v e hu
      rcases h.ended u hold with hback | ⟨hout, hinside⟩
      · cases hst.symm.trans hback
      · exact ⟨hkeeps hout, hinside⟩
  | signal t p hst =>
      have hbegun : Queued (x.m.begun t).pl :=
        (own_updThread (t := t) x.m.pl (f := fun that =>
          if that.status = .err then { that with status := .run } else that) fun that => by
            split <;> rfl).queued h.queued
      refine ⟨queued_raiseSignal hbegun, fun u hu => Or.inr ?_⟩
      obtain ⟨hold, hkeeps⟩ := buries_interrupt x.m t p hu
      rcases h.ended u hold with hback | ⟨hout, -⟩
      · cases hst.symm.trans hback
      · exact ⟨hkeeps hout, nofun⟩
  | shutdown hst =>
      refine ⟨queued_foldl_wakeSocket _ h.queued, fun u hu => Or.inr ?_⟩
      obtain ⟨hold, hkeeps⟩ := Buries.foldl_wakeSocket x.m.pl.blockedQ ⟨x.m.pl, x.detached⟩ hu
      rcases h.ended u hold with hback | ⟨hout, hinside⟩
      · cases hst.symm.trans hback
      · exact ⟨hkeeps hout, hinside⟩

theorem blockedVk_wakeSocket (l : Local) (s a : Nat) :
    (l.wakeSocket s).pl.blockedVk a = l.pl.blockedVk a := by
  have hunblock : (l.unblocked s).blockedVk a = l.pl.blockedVk a := by
    rw [Local.unblocked, ProcLocal.dropBlocked_blockedVk, ProcLocal.blockedVk,
      ProcLocal.updSocket_sockets]
    split
    · subst a
      rfl
    · rfl
  obtain ⟨-, hwake⟩ | ⟨-, hwake⟩ := l.wakeSocket_cases s
  · rw [hwake]
    exact hunblock
  · rw [hwake, ProcLocal.blockedVk, ProcLocal.raiseAt_sockets, ProcLocal.enqueueRun_sockets]
    exact hunblock

/-- The shutdown passes a socket that blocks another thread, or none. -/
theorem tomb_wakeSocket {l : Local} (h : Tomb u l.pl) (s : Nat)
    (hspared : l.detached s = false → l.pl.blockedVk s ≠ u) : Tomb u (l.wakeSocket s).pl := by
  have hdrop : Tomb u (l.unblocked s) :=
    h.of_same (ProcLocal.dropBlocked_threads ..) (ProcLocal.dropBlocked_runQ ..)
  obtain ⟨-, hwake⟩ | ⟨hattached, hwake⟩ := l.wakeSocket_cases s
  · rw [hwake]
    exact hdrop
  · rw [hwake]
    exact (hdrop.enqueueRun _).raiseAt (fun hu => hspared hattached hu.symm) _

theorem tomb_foldl_wakeSocket (queue : List Nat) {l : Local} (h : Tomb u l.pl)
    (hspared : ∀ s ∈ queue, l.detached s = false → l.pl.blockedVk s ≠ u) :
    Tomb u (queue.foldl Local.wakeSocket l).pl := by
  induction queue generalizing l with
  | nil => exact h
  | cons s queue ih =>
      refine ih (tomb_wakeSocket h s (hspared s (List.mem_cons_self ..))) fun a ha hd => ?_
      rw [blockedVk_wakeSocket]
      refine hspared a (List.mem_cons_of_mem s ha) ?_
      -- a socket that is attached after the step was so before
      have hd : Function.update l.detached s true a = false := hd
      by_cases has : a = s
      · subst a
        rw [Function.update_self] at hd
        cases hd
      · rwa [Function.update_of_ne has] at hd

theorem tomb_raiseSignal {pl : ProcLocal} (h : Tomb u pl) (hspared : signalled pl ≠ some u) :
    Tomb u pl.raiseSignal.1 := by
  unfold ProcLocal.raiseSignal
  split
  · rename_i t hrunning
    rw [signalled, hrunning] at hspared
    exact (h.enqueueRun _).raiseAt (fun hu => hspared (congrArg some hu.symm)) _
  · exact h

/-- A thread that has ended and been cleaned up after stays so by a step that does
not raise at it. -/
theorem Absorbed.step (h : Absorbed u x) (hspared : ¬RaisesAt u a x) (hstep : step a x = some x') :
    Absorbed u x' := by
  have htomb : Tomb u x.m.pl := ⟨h.status, h.unqueued⟩
  cases stepped hstep with
  | act a m hm =>
      obtain ⟨htomb', hout⟩ := htomb.step h.outside hm
      exact ⟨htomb'.status, htomb'.unqueued, hout⟩
  | raiseAt t v e hst hpos =>
      have htomb' := htomb.raiseAt (fun huv : u = v => hspared huv.symm) e
      exact ⟨htomb'.status, htomb'.unqueued, h.outside⟩
  | signal t p hst =>
      have hut : u ≠ t := fun hut => h.outside (hut ▸ hst)
      have hbegun : Tomb u (x.m.begun t).pl :=
        htomb.own (own_updThread (t := t) x.m.pl (f := fun that =>
          if that.status = .err then { that with status := .run } else that) fun that => by
            split <;> rfl) hut
      have htomb' := tomb_raiseSignal hbegun hspared
      exact ⟨htomb'.status, htomb'.unqueued, nofun⟩
  | shutdown hst =>
      have htomb' := tomb_foldl_wakeSocket x.m.pl.blockedQ (l := ⟨x.m.pl, x.detached⟩) htomb
        fun s hs hd hvk => hspared ⟨s, hs, hd, hvk⟩
      exact ⟨htomb'.status, htomb'.unqueued, h.outside⟩

/-- Once a thread has ended and been cleaned up after, its status stays, it is not
enqueued and not called, in every run in which nothing raises at it. -/
theorem end_absorbing {x₀ : RaiseMachine} (as bs : List RaiseAct) (hboot : Booted x₀)
    (hrun : run step as x₀ = some x) (hended : (x.m.pl.threads u).status = .ended)
    (hdeinit : x.m.stage ≠ .back u) (hspared : Meets step (fun a x => ¬RaisesAt u a x) bs x)
    (hrun' : run step bs x = some x') : Absorbed u x' := by
  have hburied : Buried x := run_induction (fun _ _ _ h hstep => h.step hstep) hboot.buried hrun
  exact run_of_meets (fun _ _ _ h hc hstep => h.step hc hstep) (hburied.absorbed hended hdeinit)
    hspared hrun'

instance (u : Nat) : (a : RaiseAct) → (x : RaiseMachine) → Decidable (RaisesAt u a x)
  | .act _, _ => .isFalse id
  | .raiseAt v _, _ => inferInstanceAs (Decidable (v = u))
  | .signal _, x => inferInstanceAs (Decidable (signalled x.m.pl = some u))
  | .shutdown, x => inferInstanceAs (Decidable (∃ s ∈ x.m.pl.blockedQ, _ ∧ _))

/-- The two coroutines of a pipeline, of which thread 1 runs first and ends. -/
def endOne : List RaiseAct :=
  [.act (.play 0), .act (.play 1), .act .start, .act .exec, .act .exec, .act (.co (.stop .ended)),
    .act (.unblock wouldBlock)]

/-- Thread 0 then plays thread 1 and calls it. -/
def playOne : List RaiseAct :=
  [.act .exec, .act .exec, .act .exec] ++ (Machine.vkCall 1).map .act ++
    [.act (.unblock wouldBlock), .act .exec, .act .exec, .act .exec]

/-- The same, after it has raised an error at thread 1, as a request handler does
at its responder. -/
def raiseOne : List RaiseAct :=
  [.act .exec, .act .exec, .act .exec, .raiseAt 1 Errno.EPROTO] ++ (Machine.vkCall 1).map .act ++
    [.act (.unblock wouldBlock), .act .exec, .act .exec, .act .exec]

theorem booted_pipeline : Booted ⟨pipeline, fun _ => false⟩ where
  stage := rfl
  queued := ⟨fun _ => ⟨nofun, nofun⟩, List.nodup_nil, fun _ => ⟨nofun, nofun⟩, List.nodup_nil⟩
  alive _ := nofun

theorem end_absorbing_pipeline : ∃ x x', run step endOne ⟨pipeline, fun _ => false⟩ = some x ∧
    run step playOne x = some x' ∧ Absorbed 1 x' :=
  ⟨_, _, rfl, rfl, end_absorbing endOne playOne booted_pipeline rfl rfl nofun (by decide) rfl⟩

/-- An error raised at a thread that has ended sets it to run again. -/
theorem end_undone :
    ¬∀ (x₀ x x' : RaiseMachine) (as bs : List RaiseAct) (u : Nat), Booted x₀ →
      run step as x₀ = some x → (x.m.pl.threads u).status = .ended → x.m.stage ≠ .back u →
        run step bs x = some x' → Absorbed u x' := by
  intro h
  have habsorbed := h ⟨pipeline, fun _ => false⟩ _ _ endOne raiseOne 1 booted_pipeline rfl rfl nofun rfl
  exact habsorbed.outside rfl

end RaiseMachine

end Vk

/-
# `Mnvkd.Execute` — the two executors of a process

`vk_proc_local_execute` takes one thread after the other off the run queue and
runs each for as long as it is ready.  `vk_proc_local_execute_isolated` is the
same but for the call into the thread, which goes through
`vk_isolate_continue`: when the thread comes back without having left the
isolated window, the scheduler's callback runs, and that puts a yielding thread
back on the run queue, ready.

The threads' functions, and what they keep between calls, are a parameter
(`Program`), and so is the system.  The executors agree on every program none of
whose calls ends in a yield; and where a call ends in a yield of a thread that is
not in the run queue they never do (`execute_isolated_refines`).
-/
import Mathlib.Data.Nat.Find
import Mathlib.Logic.Function.Iterate
import Mnvkd.SocketHandler

namespace Vk

/-- Where an executor stands: about to dequeue a thread, in its loop over one, or
returned. -/
inductive Phase where
  | pick
  | loop (t : Nat)
  | returned (rc : Int)
  deriving DecidableEq, Repr

/-- A process that is executed. -/
structure Executed where
  pl : ProcLocal
  phase : Phase

namespace ProcLocal

/-- The executor's outer loop. -/
def pickRun (pl : ProcLocal) : Executed :=
  match pl.dequeueRun with
  | some (t, pl) => ⟨pl, .loop t⟩
  | none => ⟨pl, .returned 0⟩

/-- What the executor does when thread `t` comes back: clean up after its end, or
apply what it waits for.  `vk_deinit` frees memory of the thread's own. -/
def afterCall (pl : ProcLocal) (t : Nat) (os : Os) : Executed :=
  let pl := { pl with runningCr := none }
  if (pl.threads t).status = .ended then
    let pl := pl.dropBlockedFor t
    ⟨if (pl.threads t).runEnq then pl.dropRun t else pl, .loop t⟩
  else
    let h := pl.unblock t os
    ⟨h.pl, if h.rc = -1 then .returned (-1) else .loop t⟩

/-- The executor's inner loop is done: a thread that yields is set to run again. -/
def leaveLoop (pl : ProcLocal) (t : Nat) : Executed :=
  ⟨if (pl.threads t).isYielding then pl.ready t else pl, .pick⟩

/-- `vk_isolate_scheduler_cb`. -/
def schedulerCb (pl : ProcLocal) : ProcLocal :=
  match pl.runningCr with
  | none => pl
  | some that => if (pl.threads that).isYielding then pl.enqueueRun that else pl

end ProcLocal

/-! ## Programs -/

/-- How a call into a thread comes back.  `inWindow`: the thread has made no
system call that was trapped, so it is still in the isolated window.  The trap
itself runs the callback while the thread is running and not yielding, which
does nothing. -/
structure Called (σ : Type) where
  pl : ProcLocal
  env : σ
  inWindow : Bool

/-- The functions of the threads, over whatever else they and the system keep,
and what the system answers next. -/
structure Program (σ : Type) where
  func : Nat → ProcLocal → σ → Called σ
  sys : σ → Os × σ

/-- An execution under way. -/
structure Exec (σ : Type) where
  pl : ProcLocal
  phase : Phase
  env : σ

variable {σ : Type} (prog : Program σ)

namespace Exec

/-- The thread that the next step calls. -/
def dispatched (e : Exec σ) : Option Nat :=
  match e.phase with
  | .loop t => if (e.pl.threads t).isReady then some t else none
  | .pick | .returned _ => none

/-- How the call into thread `t` comes back. -/
def call (e : Exec σ) (t : Nat) : Called σ :=
  prog.func t { e.pl with runningCr := some t } e.env

/-- One step of an executor: dequeue, or call a thread, or leave the inner loop.
`back` is what stands between the thread's return and the executor. -/
def stepBy (back : Called σ → ProcLocal) (e : Exec σ) : Exec σ :=
  match e.phase with
  | .pick => ⟨e.pl.pickRun.pl, e.pl.pickRun.phase, e.env⟩
  | .loop t =>
      if (e.pl.threads t).isReady then
        let called := e.call prog t
        let (os, env) := prog.sys called.env
        let x := (back called).afterCall t os
        ⟨x.pl, x.phase, env⟩
      else ⟨(e.pl.leaveLoop t).pl, (e.pl.leaveLoop t).phase, e.env⟩
  | .returned _ => e

/-- A step of `vk_proc_local_execute`. -/
def execute (e : Exec σ) : Exec σ := e.stepBy prog Called.pl

/-- `vk_isolate_continue`, after the thread has come back. -/
def isolateContinue (called : Called σ) : ProcLocal :=
  if called.inWindow then called.pl.schedulerCb else called.pl

/-- A step of `vk_proc_local_execute_isolated`. -/
def executeIsolated (e : Exec σ) : Exec σ := e.stepBy prog isolateContinue

/-- The threads called in `n` steps, in order. -/
def dispatches (step : Exec σ → Exec σ) : Nat → Exec σ → List Nat
  | 0, _ => []
  | n + 1, e => e.dispatched.toList ++ dispatches step n (step e)

/-- The next step is a call that comes back yielding, in the isolated window. -/
def yields (e : Exec σ) : Bool :=
  match e.dispatched with
  | none => false
  | some t =>
      let called := e.call prog t
      called.inWindow &&
        match called.pl.runningCr with
        | some that => (called.pl.threads that).isYielding
        | none => false

/-! ## What it is to agree -/

/-- The isolated executor calls the same threads in the same order, and where
either returns so does the other, with the same value and the same queues. -/
structure Refines (e : Exec σ) : Prop where
  calls : ∀ n, ∃ k, dispatches (execute prog) k e = dispatches (executeIsolated prog) n e
  callsOf : ∀ n, ∃ k, dispatches (executeIsolated prog) k e = dispatches (execute prog) n e
  result : ∀ rc runQ blockedQ,
    (∃ n, ((execute prog)^[n] e).phase = .returned rc ∧
        ((execute prog)^[n] e).pl.runQ = runQ ∧ ((execute prog)^[n] e).pl.blockedQ = blockedQ) ↔
      ∃ n, ((executeIsolated prog)^[n] e).phase = .returned rc ∧
        ((executeIsolated prog)^[n] e).pl.runQ = runQ ∧
        ((executeIsolated prog)^[n] e).pl.blockedQ = blockedQ

/-- No call ends in a yield, in the isolated window. -/
def NeverYields (e : Exec σ) : Prop := ∀ n, ((execute prog)^[n] e).yields prog = false

/-- A call that ends in a yield ends in one of the thread called, which is not
in the run queue: it has not played itself. -/
def YieldsUnqueued (e : Exec σ) : Prop :=
  ∀ n t, ((execute prog)^[n] e).dispatched = some t → ((execute prog)^[n] e).yields prog = true →
    let pl := (((execute prog)^[n] e).call prog t).pl
    pl.runningCr = some t ∧ (pl.threads t).runEnq = false ∧ t ∉ pl.runQ

/-! ## Without yields -/

variable {prog} {e : Exec σ}

/-- The callback does nothing after a call that does not yield. -/
theorem isolateContinue_of_not_yields {t : Nat} (hd : e.dispatched = some t)
    (h : e.yields prog = false) :
    isolateContinue (e.call prog t) = (e.call prog t).pl := by
  simp only [yields, hd] at h
  unfold isolateContinue ProcLocal.schedulerCb
  split
  · rename_i hw
    rw [hw, Bool.true_and] at h
    cases hr : (e.call prog t).pl.runningCr with
    | none => rfl
    | some that =>
        rw [hr] at h
        simp only [h, Bool.false_eq_true, if_false]
  · rfl

theorem dispatched_eq_some {t : Nat} :
    e.dispatched = some t ↔ e.phase = .loop t ∧ (e.pl.threads t).isReady = true := by
  unfold dispatched
  cases e.phase with
  | loop u =>
      simp only [Option.ite_none_right_eq_some, Option.some.injEq, Phase.loop.injEq]
      constructor
      · rintro ⟨h, rfl⟩
        exact ⟨rfl, h⟩
      · rintro ⟨rfl, h⟩
        exact ⟨h, rfl⟩
  | pick => simp
  | returned rc => simp

/-- A step that calls thread `t`. -/
theorem stepBy_of_dispatched {t : Nat} (back : Called σ → ProcLocal) (h : e.dispatched = some t) :
    e.stepBy prog back =
      ⟨((back (e.call prog t)).afterCall t (prog.sys (e.call prog t).env).1).pl,
        ((back (e.call prog t)).afterCall t (prog.sys (e.call prog t).env).1).phase,
        (prog.sys (e.call prog t).env).2⟩ := by
  obtain ⟨hp, hr⟩ := dispatched_eq_some.mp h
  simp only [stepBy, hp, hr, if_true]

/-- A step that calls no thread does not depend on what stands behind the call. -/
theorem stepBy_of_not_dispatched (back back' : Called σ → ProcLocal) (h : e.dispatched = none) :
    e.stepBy prog back = e.stepBy prog back' := by
  unfold dispatched at h
  unfold stepBy
  cases hp : e.phase with
  | loop t =>
      have hr : (e.pl.threads t).isReady = false := by simpa [hp] using h
      simp only [hr, Bool.false_eq_true, if_false]
  | pick => rfl
  | returned rc => rfl

/-- The two executors take the same step where it does not yield. -/
theorem executeIsolated_of_not_yields (h : e.yields prog = false) :
    e.executeIsolated prog = e.execute prog := by
  unfold executeIsolated execute
  cases hd : e.dispatched with
  | none => exact stepBy_of_not_dispatched _ _ hd
  | some t => rw [stepBy_of_dispatched _ hd, stepBy_of_dispatched _ hd,
      isolateContinue_of_not_yields hd h]

/-- Until a step yields they are in the same state and have called the same
threads. -/
theorem executeIsolated_iterate {n : Nat}
    (h : ∀ m, m < n → ((execute prog)^[m] e).yields prog = false) :
    (executeIsolated prog)^[n] e = (execute prog)^[n] e ∧
      dispatches (executeIsolated prog) n e = dispatches (execute prog) n e := by
  induction n generalizing e with
  | zero => exact ⟨rfl, rfl⟩
  | succ n ih =>
      have hstep : e.executeIsolated prog = e.execute prog :=
        executeIsolated_of_not_yields (h 0 (Nat.succ_pos n))
      obtain ⟨hrun, htrace⟩ := ih (e := e.execute prog) fun m hm => h (m + 1) (by omega)
      refine ⟨?_, ?_⟩
      · rw [Function.iterate_succ_apply, Function.iterate_succ_apply, hstep, hrun]
      · rw [dispatches, dispatches, hstep, htrace]

theorem refines_of_neverYields (h : NeverYields prog e) : Refines prog e := by
  have hsame := fun n => executeIsolated_iterate (n := n) (e := e) fun m _ => h m
  refine ⟨fun n => ⟨n, (hsame n).2.symm⟩, fun n => ⟨n, (hsame n).2⟩, fun rc runQ blockedQ => ?_⟩
  refine exists_congr fun n => ?_
  rw [(hsame n).1]

/-! ## A yield -/

theorem dispatches_add (step : Exec σ → Exec σ) (n k : Nat) (e : Exec σ) :
    dispatches step (n + k) e = dispatches step n e ++ dispatches step k (step^[n] e) := by
  induction n generalizing e with
  | zero => rw [Nat.zero_add]; rfl
  | succ n ih =>
      rw [Nat.succ_add, dispatches, dispatches, ih, List.append_assoc,
        Function.iterate_succ_apply]

/-- Fewer steps call a part of the threads that more steps call. -/
theorem dispatches_isPrefix (step : Exec σ → Exec σ) {n k : Nat} (h : n ≤ k) (e : Exec σ) :
    dispatches step n e <+: dispatches step k e := by
  obtain ⟨d, rfl⟩ := Nat.exists_eq_add_of_le h
  rw [dispatches_add]
  exact List.prefix_append _ _

/-- An executor that has returned calls no one. -/
theorem dispatches_returned {rc : Int} (n : Nat) {e : Exec σ} (h : e.phase = .returned rc) :
    dispatches (execute prog) n e = [] := by
  induction n generalizing e with
  | zero => rfl
  | succ n ih =>
      have hd : e.dispatched = none := by simp only [dispatched, h]
      have hstep : e.execute prog = e := by simp only [execute, stepBy, h]
      rw [dispatches, hd, hstep, ih h]
      rfl

theorem iterate_returned {rc : Int} (n : Nat) {e : Exec σ} (h : e.phase = .returned rc) :
    (execute prog)^[n] e = e := by
  have hstep : e.execute prog = e := by simp only [execute, stepBy, h]
  exact Function.iterate_fixed hstep n

theorem dequeueRun_mem {pl pl' : ProcLocal} {t : Nat} (h : pl.dequeueRun = some (t, pl')) :
    pl.runQ = t :: pl'.runQ := by
  unfold ProcLocal.dequeueRun at h
  cases hq : pl.runQ with
  | nil => simp [hq] at h
  | cons u rest =>
      rw [hq] at h
      cases h
      rfl

theorem leaveLoop_runQ (pl : ProcLocal) (t : Nat) : (pl.leaveLoop t).pl.runQ = pl.runQ := by
  unfold ProcLocal.leaveLoop
  dsimp only
  split <;> rfl

/-- The first thread called from the outer loop was in the run queue.  By
induction on the steps, since threads that are not ready leave the queue
uncalled. -/
theorem head_dispatches_of_pick {t : Nat} (n : Nat) {e : Exec σ} (h : e.phase = .pick)
    (ht : t ∉ e.pl.runQ) : (dispatches (execute prog) n e).head? ≠ some t := by
  induction n using Nat.strong_induction_on generalizing e with
  | _ n ih =>
      match n with
      | 0 => simp [dispatches]
      | n + 1 =>
          have hd : e.dispatched = none := by simp only [dispatched, h]
          have hstep : e.execute prog = ⟨e.pl.pickRun.pl, e.pl.pickRun.phase, e.env⟩ := by
            simp only [execute, stepBy, h]
          rw [dispatches, hd, hstep]
          show (dispatches (execute prog) n _).head? ≠ some t
          cases hq : e.pl.dequeueRun with
          | none =>
              have hp : e.pl.pickRun = ⟨e.pl, .returned 0⟩ := by simp only [ProcLocal.pickRun, hq]
              rw [hp, dispatches_returned n rfl]
              simp
          | some next =>
              obtain ⟨u, pl'⟩ := next
              have hp : e.pl.pickRun = ⟨pl', .loop u⟩ := by simp only [ProcLocal.pickRun, hq]
              rw [dequeueRun_mem hq, List.mem_cons, not_or] at ht
              rw [hp]
              match n with
              | 0 => simp [dispatches]
              | n + 1 =>
                  by_cases hr : (pl'.threads u).isReady = true
                  · have hu : (⟨pl', .loop u, e.env⟩ : Exec σ).dispatched = some u :=
                      dispatched_eq_some.mpr ⟨rfl, hr⟩
                    rw [dispatches, hu]
                    simpa using Ne.symm ht.1
                  · have hu : (⟨pl', .loop u, e.env⟩ : Exec σ).dispatched = none := by
                      simp only [dispatched, if_neg hr]
                    rw [dispatches, hu]
                    refine ih n (by omega) ?_ ?_
                    · simp only [execute, stepBy, if_neg hr, ProcLocal.leaveLoop]
                    · simp only [execute, stepBy, if_neg hr, leaveLoop_runQ]
                      exact ht.2

/-- After a call that ends in a yield the plain executor leaves the inner loop,
and calls whoever is in the run queue. -/
theorem execute_after_yield {t n : Nat} (hd : e.dispatched = some t)
    (hy : ((e.call prog t).pl.threads t).isYielding = true) (ht : t ∉ (e.call prog t).pl.runQ) :
    (dispatches (execute prog) n (e.execute prog)).head? ≠ some t := by
  have hstatus : ((e.call prog t).pl.threads t).status = .yield := by
    simpa [Thread.isYielding] using hy
  have hafter : ∀ os, (e.call prog t).pl.afterCall t os
      = ⟨{ (e.call prog t).pl with runningCr := none }, .loop t⟩ := fun os => by
    simp [ProcLocal.afterCall, ProcLocal.unblock, hstatus]
  have hstep : e.execute prog = ⟨{ (e.call prog t).pl with runningCr := none }, .loop t,
      (prog.sys (e.call prog t).env).2⟩ := by
    rw [execute, stepBy_of_dispatched _ hd, hafter]
  rw [hstep]
  match n with
  | 0 => simp [dispatches]
  | n + 1 =>
      have hr : ((e.call prog t).pl.threads t).isReady = false := by
        simp [Thread.isReady, hstatus]
      have hd' : Exec.dispatched (σ := σ) ⟨{ (e.call prog t).pl with runningCr := none }, .loop t,
          (prog.sys (e.call prog t).env).2⟩ = none := by
        simp only [dispatched, hr, Bool.false_eq_true, if_false]
      rw [dispatches, hd']
      refine head_dispatches_of_pick n ?_ ?_
      · simp only [execute, stepBy, hr, Bool.false_eq_true, if_false, ProcLocal.leaveLoop]
      · simp only [execute, stepBy, hr, Bool.false_eq_true, if_false, leaveLoop_runQ]
        exact ht

/-- The executor goes round its inner loop again for a thread that comes back
ready. -/
theorem afterCall_of_isReady {pl : ProcLocal} {t : Nat} {os : Os}
    (h : (pl.threads t).isReady = true) :
    pl.afterCall t os = ⟨{ pl with runningCr := none }, .loop t⟩ := by
  have hended : (pl.threads t).status ≠ .ended := fun he => by simp [Thread.isReady, he] at h
  have hunblock : { pl with runningCr := none }.unblock t os
      = ⟨{ pl with runningCr := none }, 0⟩ := by
    cases hs : (pl.threads t).status with
    | wait => simp [Thread.isReady, hs] at h
    | run | yield | listen | err | ended => simp only [ProcLocal.unblock, hs]
  simp [ProcLocal.afterCall, hended, hunblock]

/-- The isolated executor calls the thread again. -/
theorem executeIsolated_after_yield {t : Nat} (hd : e.dispatched = some t)
    (hy : e.yields prog = true) (hrun : (e.call prog t).pl.runningCr = some t) :
    (e.executeIsolated prog).dispatched = some t := by
  simp only [yields, hd, hrun, Bool.and_eq_true] at hy
  have hstatus : ((e.call prog t).pl.threads t).status = .yield := by
    simpa [Thread.isYielding] using hy.2
  have hcb : isolateContinue (e.call prog t) = (e.call prog t).pl.enqueueRun t := by
    simp only [isolateContinue, hy.1, if_true, ProcLocal.schedulerCb, hrun, hy.2]
  have hready : ((isolateContinue (e.call prog t)).threads t).isReady = true := by
    rw [hcb]
    exact ProcLocal.isReady_enqueueRun (by simp [hstatus])
  rw [executeIsolated, stepBy_of_dispatched _ hd, afterCall_of_isReady hready]
  exact dispatched_eq_some.mpr ⟨rfl, hready⟩

/-- Where calls that yield do so unqueued, the executors agree only if none does. -/
theorem neverYields_of_refines (hu : YieldsUnqueued prog e) (h : Refines prog e) :
    NeverYields prog e := by
  by_contra hn
  -- the first step that yields
  have hex : ∃ n, ((execute prog)^[n] e).yields prog = true := by
    simpa [NeverYields] using hn
  obtain ⟨n, hy, hmin⟩ : ∃ n, ((execute prog)^[n] e).yields prog = true ∧
      ∀ m, m < n → ((execute prog)^[m] e).yields prog = false :=
    ⟨Nat.find hex, Nat.find_spec hex, fun m hm => by simpa using Nat.find_min hex hm⟩
  obtain ⟨t, hd⟩ : ∃ t, ((execute prog)^[n] e).dispatched = some t := by
    cases hd : ((execute prog)^[n] e).dispatched with
    | none => simp [yields, hd] at hy
    | some t => exact ⟨t, rfl⟩
  obtain ⟨hrun, hq, ht⟩ := hu n t hd hy
  obtain ⟨hsame, hcalls⟩ := executeIsolated_iterate hmin
  -- up to the second call of the thread, which the plain executor does not make
  have hiso : dispatches (executeIsolated prog) (n + 2) e
      = dispatches (execute prog) n e ++ [t, t] := by
    rw [dispatches_add, hcalls, hsame, dispatches, dispatches, hd,
      executeIsolated_after_yield hd hy hrun]
    rfl
  obtain ⟨k, hk⟩ := h.calls (n + 2)
  rw [hiso] at hk
  have hlen := congrArg List.length hk
  simp only [List.length_append, List.length_cons, List.length_nil] at hlen
  have hlt : n < k := by
    by_contra hle
    have := (dispatches_isPrefix (execute prog) (Nat.le_of_not_lt hle) e).length_le
    omega
  obtain ⟨j, rfl⟩ := Nat.exists_eq_add_of_lt hlt
  rw [Nat.add_assoc, dispatches_add, dispatches, hd] at hk
  have htail := List.append_cancel_left hk
  refine execute_after_yield (n := j) hd ?_ ht ?_
  · simp only [yields, hd, hrun, Bool.and_eq_true] at hy
    exact hy.2
  · simp only [Option.toList_some, List.cons_append, List.nil_append, List.cons.injEq,
      true_and] at htail
    rw [htail]
    rfl

/-- The isolated executor refines the plain one on every program none of whose
calls ends in a yield, and on no other, if those that do end in a yield have
not played themselves. -/
theorem execute_isolated_refines (prog : Program σ) (e : Exec σ) :
    (NeverYields prog e → Refines prog e) ∧
      (YieldsUnqueued prog e → Refines prog e → NeverYields prog e) :=
  ⟨refines_of_neverYields, neverYields_of_refines⟩

/-! ## A coroutine that calls another -/

/-- A system that is never asked. -/
def noSys {σ : Type} (env : σ) : Os × σ := (⟨.ok [], .ok 0, .ok [], .ok (), .ok ()⟩, env)

/-- Two threads that are to run, the first in the run queue. -/
def twoThreads {σ : Type} (env : σ) : Exec σ where
  pl := ((ProcLocal.init.initThread 0 0 (Pipe.initFd 3 .socketStream) (Pipe.initFd 4 .socketStream)
    ).initThread 1 1 (Pipe.initFd 5 .socketStream) (Pipe.initFd 6 .socketStream)).enqueueRun 0
  phase := .pick
  env := env

/-- Thread 0 plays thread 1, and each ends. -/
def playProgram : Program Unit where
  func t pl _ :=
    let pl := if t = 0 then pl.enqueueRun 1 else pl
    ⟨pl.updThread t fun that => { that with status := .ended }, (), true⟩
  sys := noSys

/-- Thread 0 calls thread 1, which pauses thread 0, and each ends. -/
def callProgram : Program Bool where
  func t pl resumed :=
    if t = 0 ∧ resumed = false then
      ⟨(pl.enqueueRun 1).updThread 0 fun that => { that with status := .yield }, true, true⟩
    else ⟨pl.updThread t fun that => { that with status := .ended }, resumed, true⟩
  sys := noSys

theorem neverYields_playProgram (e : Exec Unit) : NeverYields playProgram e := fun n => by
  generalize (execute playProgram)^[n] e = e
  unfold yields
  cases e.dispatched with
  | none => rfl
  | some t =>
      have hrun : (e.call playProgram t).pl.runningCr = some t := by
        unfold call playProgram ProcLocal.enqueueRun
        dsimp only
        split
        · split <;> rfl
        · rfl
      have hended : ((e.call playProgram t).pl.threads t).status = .ended := by
        simp [call, playProgram]
      simp [hrun, Thread.isYielding, hended]

theorem yieldsUnqueued_callProgram : YieldsUnqueued callProgram (twoThreads false) := by
  intro n t hd hy
  have hsteps : ∀ n ∈ List.range 7,
      ∀ t ∈ ((execute callProgram)^[n] (twoThreads false)).dispatched.toList,
      ((execute callProgram)^[n] (twoThreads false)).yields callProgram = true →
      let pl := (((execute callProgram)^[n] (twoThreads false)).call callProgram t).pl
      pl.runningCr = some t ∧ (pl.threads t).runEnq = false ∧ t ∉ pl.runQ := by decide
  have hreturned : ((execute callProgram)^[7] (twoThreads false)).phase = .returned 0 := by decide
  by_cases hn : n < 7
  · exact hsteps n (List.mem_range.mpr hn) t (by rw [hd]; simp) hy
  · obtain ⟨k, rfl⟩ := Nat.exists_eq_add_of_le' (Nat.le_of_not_lt hn)
    rw [Function.iterate_add_apply, iterate_returned k hreturned] at hd
    have hdisp := (dispatched_eq_some.mp hd).1
    rw [hreturned] at hdisp
    cases hdisp

theorem not_neverYields_callProgram : ¬NeverYields callProgram (twoThreads false) := fun h =>
  absurd (h 1) (by decide)

/-- The executors agree on the one program and not on the other. -/
theorem execute_isolated_refines_twoThreads :
    Refines playProgram (twoThreads ()) ∧ ¬Refines callProgram (twoThreads false) :=
  ⟨(execute_isolated_refines playProgram (twoThreads ())).1 (neverYields_playProgram _),
    fun h => not_neverYields_callProgram
      ((execute_isolated_refines callProgram (twoThreads false)).2 yieldsUnqueued_callProgram h)⟩

/-- A thread that calls another is called again before the other has run. -/
theorem execute_isolated_reorders :
    ¬∀ (prog : Program Bool) (e : Exec Bool), Refines prog e := fun h =>
  not_neverYields_callProgram
    (neverYields_of_refines yieldsUnqueued_callProgram (h callProgram (twoThreads false)))

end Exec

end Vk

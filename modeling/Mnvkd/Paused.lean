/-
# `Mnvkd.Paused` — a thread that has paused

`vk_pause` is a return in `VK_PROC_YIELD`; the executor sets the thread to run as
it leaves its loop, and there the thread stays, out of the run queue, until
someone enqueues it.  Until then it is not entered (`Parked.step`).
-/
import Mnvkd.Schedule

namespace Vk

open Lib

namespace Machine

variable {m m' : Machine} {a : Act} {t : Nat}

/-- The queues are in order, no handler fails, and a thread that comes back waiting
waits for a socket of its own. -/
structure Orderly (m : Machine) : Prop where
  queued : Queued m.pl
  wired : ProcLocal.Wired m.pl
  backsOwn : BacksOwn m
  waits : ∀ t, m.stage = .back t → (m.pl.threads t).status = .wait →
    (m.pl.threads t).waitingSocketPtr ≠ none

/-- A thread that has come back waiting waits for a socket that blocks it. -/
theorem backsOwn_of_step (h : step a m = some m') : BacksOwn m' := fun t s hst' hwait hs => by
  obtain ⟨k, b, -, -, -, rfl⟩ := waited_step h (back_step h hst') hst' hwait
  dsimp only at hs ⊢
  rw [waitOn_threads, if_pos rfl] at hs
  cases hs
  rw [ProcLocal.blockedVk, waitOn_self]

theorem waits_of_step (h : step a m = some m') (hst' : m'.stage = .back t)
    (hwait : (m'.pl.threads t).status = .wait) : (m'.pl.threads t).waitingSocketPtr ≠ none := by
  obtain ⟨k, b, -, -, -, rfl⟩ := waited_step h (back_step h hst') hst' hwait
  dsimp only
  rw [waitOn_threads, if_pos rfl]
  exact Option.some_ne_none b

theorem Orderly.step (h : Orderly m) (hstep : Machine.step a m = some m') : Orderly m' where
  queued := queued_step hstep h.queued
  wired := wired_step hstep h.wired
  backsOwn := backsOwn_of_step hstep
  waits _ hst' hwait := waits_of_step hstep hst' hwait

/-- A process that is not executed is in order where its queues are. -/
theorem orderly_of_kernel (hst : m.stage = .kernel) (hq : Queued m.pl) (hw : ProcLocal.Wired m.pl) :
    Orderly m where
  queued := hq
  wired := hw
  backsOwn t s hst' := by
    rw [hst] at hst'
    cases hst'
  waits t hst' := by
    rw [hst] at hst'
    cases hst'

/-! ## From the pause on -/

/-- `vk_call` as far as the return: the callee is played, and the caller pauses. -/
def vkCall (q : Nat) : List Act := [.co (.play q), .co (.stop .yield)]

/-- A thread that comes back yielding is left as it is. -/
theorem back_of_yields (h : step a m = some m') (hst : m.stage = .back t)
    (hyield : (m.pl.threads t).status = .yield) : m'.pl.threads = m.pl.threads := by
  cases stepped h with
  | start hu | play hu | answer hu | retry hu | exec _ hu | co _ hu => cases hst.symm.trans hu
  | unblock u hu os =>
      rw [hst] at hu
      cases hu
      show (m.pl.afterCall t os).pl.threads = m.pl.threads
      unfold ProcLocal.afterCall ProcLocal.unblock
      simp only [hyield, reduceCtorEq, if_false]

/-- A thread that yields is set to run when the executor leaves its loop. -/
theorem leaveLoop_of_yields {pl : ProcLocal} (h : (pl.threads t).status = .yield) :
    ((pl.leaveLoop t).pl.threads t).status = .run := by
  have hyields : (pl.threads t).isYielding = true := by
    rw [Thread.isYielding, h]
    rfl
  unfold ProcLocal.leaveLoop
  dsimp only
  rw [if_pos hyields, ProcLocal.ready, ProcLocal.updThread_threads_self, h]
  rfl

/-- A thread that has paused yields, or has been set to run since. -/
structure Rests (t : Nat) (m : Machine) : Prop where
  paused : m.stage ≠ .inside t
  status : (m.pl.threads t).status = .run ∧ m.stage ≠ .back t ∨
    (m.pl.threads t).status = .yield ∧ (m.stage = .back t ∨ m.stage = .exec (.loop t))

/-- It has not ended. -/
theorem Rests.not_ended (h : Rests t m) : (m.pl.threads t).status ≠ .ended := by
  rcases h.status with ⟨hrun, -⟩ | ⟨hyield, -⟩
  · rw [hrun]
    exact ProcStat.noConfusion
  · rw [hyield]
    exact ProcStat.noConfusion

theorem Rests.not_wait (h : Rests t m) : (m.pl.threads t).status ≠ .wait := by
  rcases h.status with ⟨hrun, -⟩ | ⟨hyield, -⟩
  · rw [hrun]
    exact ProcStat.noConfusion
  · rw [hyield]
    exact ProcStat.noConfusion

/-- It rests until it is entered. -/
theorem Rests.step (h : Rests t m) (ho : Orderly m) (hstep : Machine.step a m = some m')
    (hpaused : m'.stage ≠ .inside t) : Rests t m' := by
  refine ⟨hpaused, ?_⟩
  have hnot : m'.stage ≠ .back t := fun hst' => h.paused (back_step hstep hst')
  rcases h.status with ⟨hrun, -⟩ | ⟨hyield, hst | hst⟩
  · left
    refine ⟨?_, hnot⟩
    rcases roused_step hstep ho.queued ho.wired ho.backsOwn t with hsame | hst | ⟨-, hrun', -⟩
    · exact hsame.trans hrun
    · exact absurd hst h.paused
    · exact hrun'
  · right
    refine ⟨?_, Or.inr (back_step_loop hstep hst ho.wired (ho.waits t hst))⟩
    rw [back_of_yields hstep hst hyield]
    exact hyield
  · rcases loop_step hstep hst with ⟨hready, -⟩ | ⟨-, -, hleft⟩
    · rw [Thread.isReady, hyield] at hready
      cases hready
    · left
      refine ⟨?_, hnot⟩
      rw [hleft]
      exact leaveLoop_of_yields hyield

/-- The executor comes to a thread that rests, to enter it, from the run queue. -/
theorem Rests.picked (h : Rests t m) (hstep : Machine.step a m = some m')
    (hst' : m'.stage = .exec (.loop t)) (hready : (m'.pl.threads t).isReady = true) :
    m.stage = .exec .pick ∧ t ∈ m.pl.runQ := by
  rcases loop_cases hstep hst' with ⟨hst, ht, -⟩ | hst
  · exact ⟨hst, ht⟩
  · rcases h.status with ⟨-, hnot⟩ | ⟨hyield, -⟩
    · exact absurd hst hnot
    · rw [back_of_yields hstep hst hyield, Thread.isReady, hyield] at hready
      cases hready

/-- A thread that comes from the run queue and rests is ready. -/
theorem Rests.ready_of_picked (h : Rests t m) (hstep : Machine.step a m = some m')
    (hst : m.stage = .exec .pick) : (m'.pl.threads t).isReady = true := by
  have hrun : (m.pl.threads t).status = .run := by
    rcases h.status with ⟨hrun, -⟩ | ⟨-, hst' | hst'⟩
    · exact hrun
    · cases hst.symm.trans hst'
    · cases hst.symm.trans hst'
  have hrun' : (m'.pl.threads t).status = .run := by
    rcases status_step hstep t with hsame | hrun' | ⟨hinside, -⟩
    · exact hsame.trans hrun
    · exact hrun'
    · exact absurd hinside h.paused
  rw [Thread.isReady, hrun']
  rfl

/-- A thread that rests out of the run queue. -/
structure Parked (t : Nat) (m : Machine) : Prop where
  rests : Rests t m
  unqueued : t ∉ m.pl.runQ
  notPicked : ¬(m.stage = .exec (.loop t) ∧ (m.pl.threads t).isReady = true)

/-- Until someone enqueues it, it stays there. -/
theorem Parked.step (h : Parked t m) (ho : Orderly m) (hstep : Machine.step a m = some m')
    (hwake : ¬MayWake a m t) : Parked t m' where
  rests := h.rests.step ho hstep fun hst' => by
    rcases inside_step hstep hst' with hst | ⟨hst, hready, -⟩
    · exact h.rests.paused hst
    · exact h.notPicked ⟨hst, hready⟩
  unqueued ht := by
    rcases runQ_step hstep ho.queued ht with ht | hwakes
    · exact h.unqueued ht
    · exact hwake hwakes
  notPicked hpicked := h.unqueued (h.rests.picked hstep hpicked.1 hpicked.2).2

/-- A thread is parked as it pauses. -/
theorem parked_of_stop (hst : m.stage = .inside t) (ht : t ∉ m.pl.runQ)
    (hstep : Machine.step (.co (.stop .yield)) m = some m') : Parked t m' := by
  cases stepped hstep with
  | co u hu c m' hco =>
      cases hst.symm.trans hu
      cases coStepped hco with
      | stop hpos status hstatus =>
          have hyield : ((m.pl.updThread t fun that =>
              { that with status := .yield }).threads t).status = .yield := by
            rw [ProcLocal.updThread_threads_self]
          exact {
            rests := ⟨Stage.noConfusion, Or.inr ⟨hyield, Or.inl rfl⟩⟩
            unqueued := ht
            notPicked := fun hpicked => Stage.noConfusion hpicked.1 }

end Machine

end Vk

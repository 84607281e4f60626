/-
# `Mnvkd.KernShutdown` — waking the blocked processes for a shutdown

When the shutdown is requested, `vk_kern_prepoll` wakes every blocked process: its
threads are to raise `EINTR`, and the next `vk_kern_postpoll` is to dispatch it.
For that it sets the flag of the process and flushes its queues, but to
`vk_kern_enqueue_run` a flag that is set means that the process is queued.

As long as `vk_kern_prepoll` wakes only processes that are in the run queue
already, the flags tell who is in the queues, and who is woken is dispatched
(`queued_of_run`).  But the run queue is empty when it is called
(`runProcs_of_prepoll`), so whom it wakes it only flags (`lost_prepoll`): the process
is never dispatched again (`never_dispatched`).
-/
import Mnvkd.KernSound

namespace Vk

open Lib

namespace Kern

/-- A flag is set exactly when the process is in the queue, where it then occurs
once. -/
def Flagged (k : Kern) : Prop :=
  ∀ p, k.runProcs.count p = (k.procs p).runQed.toNat ∧
    k.blockedProcs.count p = (k.procs p).blockedQed.toNat

/-- When `vk_kern_postpoll` is done, those that the last `vk_kern_prepoll` has
woken have been dispatched. -/
def WokenDispatched (k : Kern) : Prop :=
  k.stage = .dispatch → k.runProcs = [] → ∀ p ∈ k.woken, p ∈ k.dispatched

instance decidableWakesQueued (a : KernAct) (k : Kern) : Decidable (WakesQueued a k) :=
  match a with
  | .prepoll =>
      decidable_of_iff (k.shutdownRequested = true → ∀ p ∈ k.blockedProcs, p ∈ k.runProcs)
        ⟨fun h _ => h, fun h => h rfl⟩
  | .dequeueFresh | .dequeueRun | .signal _ | .dispatch _ _ | .compute _ | .accept _ | .fault _
  | .leave _ | .poll _ | .pollError => .isTrue nofun

theorem flagged_of_queues {k : Kern} (h : k.sched.Queues True) : k.Flagged :=
  fun p => ⟨(h.run p).2 trivial, (h.blocked p).2 trivial⟩

/-! ## Who is woken and who is dispatched -/

/-- Those woken since the last prepoll, and those dispatched. -/
def history (k : Kern) : List Nat × List Nat := (k.woken, k.dispatched)

section History
variable (k : Kern) (p : Nat)

/-- The history is read off the course. -/
theorem history_congr {k k' : Kern} {stage : KernStage}
    (h : k'.course = { k.course with stage := stage }) : k'.history = k.history :=
  congrArg (fun c : Course => (c.woken, c.dispatched)) h

theorem flushProcQueues_history : (k.flushProcQueues p).history = k.history :=
  history_congr (flushProcQueues_course k p)

theorem dump_history : k.dump.history = k.history := history_congr (dump_course k)

theorem execute_history (postpoll : Option Local) : (k.execute p postpoll).history = k.history :=
  (execute_course k p postpoll).elim history_congr history_congr

theorem leave_history (rc : Int) : (k.leave p rc).history = k.history :=
  history_congr (leave_course k p rc)

theorem accept_history (a : Accept) : (k.accept a).history = k.history :=
  history_congr (accept_course k a)

theorem dequeueFresh_history : k.dequeueFresh.history = k.history :=
  history_congr (dequeueFresh_course k)

theorem prepoll_dispatched : k.prepoll.dispatched = [] := by
  have hwake : ∀ (k : Kern) (p : Nat), (k.wakeProc p).dispatched = k.dispatched := by
    intro k p
    unfold wakeProc
    cases (k.procs p).localPtr with
    | none => rfl
    | some l =>
        dsimp only
        split
        · exact congrArg Prod.snd (flushProcQueues_history _ p)
        · exact congrArg Prod.snd (flushProcQueues_history _ p)
  exact prepoll_unchanged k dispatched hwake

end History

/-! ## The run queue -/

section RunQueue
variable {k : Kern} {p q : Nat}

theorem mem_afterExecute_of_ne (hq : q ≠ p) : q ∈ (k.afterExecute p).runProcs ↔ q ∈ k.runProcs := by
  refine Iff.trans ?_ (mem_flush_of_ne hq)
  unfold afterExecute
  dsimp only
  split
  · show q ∈ (freeProc _ p).sched.runProcs ↔ _
    rw [freeProc_sched]
    exact Iff.rfl
  · split
    · exact Iff.rfl
    · exact Iff.rfl

theorem mem_execute_of_ne (hq : q ≠ p) (postpoll : Option Local) :
    q ∈ (k.execute p postpoll).runProcs ↔ q ∈ k.runProcs := by
  unfold execute
  cases (k.procs p).localPtr with
  | none => exact mem_afterExecute_of_ne hq
  | some l =>
      dsimp only
      cases (if l.pl.runningCr.isSome then some { l with pl := l.pl.raiseSignal.1 } else postpoll) with
      | none => exact mem_afterExecute_of_ne (k := k.touch p) hq
      | some l =>
          dsimp only
          split <;> exact Iff.rfl

theorem mem_leave_of_ne (hq : q ≠ p) (rc : Int) : q ∈ (k.leave p rc).runProcs ↔ q ∈ k.runProcs := by
  have hkern : (if (k.procs p).privileged then k else k.kernEnter).runProcs = k.runProcs := by
    split <;> rfl
  unfold leave
  dsimp only
  split
  · exact (mem_afterExecute_of_ne hq).trans (by rw [hkern])
  · refine (mem_afterExecute_of_ne hq).trans ?_
    show q ∈ (prepollProc _ p).sched.runProcs ↔ _
    rw [prepollProc_sched]
    show q ∈ (if (k.procs p).privileged then k else k.kernEnter).runProcs ↔ _
    rw [hkern]

/-- The listener does not touch a process that has memory. -/
theorem mem_accept (hqueues : k.sched.Queues False) (a : Accept) (hq : k.Live q) :
    q ∈ (k.accept a).runProcs ↔ q ∈ k.runProcs := by
  unfold accept
  cases hfree : k.freeProcs with
  | nil => exact Iff.rfl
  | cons p rest =>
      obtain ⟨-, hdead, -⟩ := hqueues.take_free (p := p) hfree
      have hne : q ≠ p := by
        rintro rfl
        exact Bool.false_ne_true (hdead.symm.trans hq)
      have hnone : (({ k with freeProcs := rest } : Kern).procs p).localPtr = none :=
        Option.isNone_iff_eq_none.mp (Option.isSome_eq_false_iff.mp hdead)
      have halloc : (({ k with freeProcs := rest } : Kern).allocHeap p a).1.runProcs = k.runProcs := by
        obtain ⟨-, hs, -⟩ | ⟨-, hs, -⟩ := inits_allocHeap a hnone
        · exact congrArg Sched.runProcs hs
        · exact congrArg Sched.runProcs hs
      dsimp only
      split
      · refine Iff.trans ?_ (iff_of_eq (congrArg (q ∈ ·) halloc))
        unfold setupProc
        cases a.setup with
        | noThread => exact Iff.rfl
        | noArg => exact Iff.rfl
        | played => exact mem_flush_of_ne hne
      · rw [halloc]

theorem mem_dequeueFresh (hq : q ∈ k.runProcs) : q ∈ k.dequeueFresh.runProcs := by
  refine dequeueFresh_invariant k (I := fun _ k => q ∈ k.runProcs) (fun i is k hq => ?_) hq
  simp only [enqueueRun]
  split
  · exact hq
  · exact List.mem_cons_of_mem _ hq

end RunQueue

/-! ## Who is woken is dispatched -/

/-- A process that was woken is queued, or taken to be dispatched, or has been;
and the one that runs has been. -/
structure Served (k : Kern) : Prop where
  woken : ∀ p ∈ k.woken, p ∈ k.runProcs ∨ k.stage = .taken p ∨ p ∈ k.dispatched
  running : ∀ p, k.stage = .running p → p ∈ k.dispatched

section Served
variable {k k' : Kern} {p : Nat}

/-- Executing a process that has been dispatched. -/
theorem served_of_dispatched (h : ∀ q ∈ k.woken, q ∈ k.runProcs ∨ q = p ∨ q ∈ k.dispatched)
    (hp : p ∈ k.dispatched) (hhist : k'.history = k.history)
    (hrun : ∀ q, q ≠ p → (q ∈ k'.runProcs ↔ q ∈ k.runProcs))
    (hstage : ∀ q, k'.stage = .running q → q = p) : k'.Served := by
  obtain ⟨hwoken, hdispatched⟩ := Prod.mk.inj hhist
  refine ⟨fun q hq => ?_, fun q hq => ?_⟩
  · rw [hdispatched]
    by_cases hqp : q = p
    · exact Or.inr (Or.inr (hqp ▸ hp))
    · obtain hq | hq | hq := h q (hwoken ▸ hq)
      · exact Or.inl ((hrun q hqp).mpr hq)
      · exact absurd hq hqp
      · exact Or.inr (Or.inr hq)
  · rw [hdispatched, hstage q hq]
    exact hp

/-- Changes that leave the run queue's members, the history and the stage. -/
theorem Served.of_same (h : k.Served) (hhist : k'.history = k.history)
    (hrun : ∀ q ∈ k.woken, q ∈ k.runProcs → q ∈ k'.runProcs) (hstage : k'.stage = k.stage) :
    k'.Served := by
  obtain ⟨hwoken, hdispatched⟩ := Prod.mk.inj hhist
  refine ⟨fun q hq => ?_, fun q hq => ?_⟩
  · rw [hdispatched, hstage]
    have hq := hwoken ▸ hq
    exact (h.woken q hq).imp_left (hrun q hq)
  · rw [hdispatched]
    exact h.running q (hstage ▸ hq)

/-- A process that is in the run queue when it is woken stays there. -/
theorem woken_wakeProc (hp : p ∈ k.runProcs) :
    ∀ q ∈ (k.wakeProc p).woken, q ∈ k.woken ∨ q = p ∧ p ∈ (k.wakeProc p).runProcs := by
  unfold wakeProc
  cases hl : (k.procs p).localPtr with
  | none => exact fun q hq => Or.inl hq
  | some l =>
      have hhist : ∀ l : Local, ((((k.setRun p true).touch p).setLocal p l).flushProcQueues p).woken =
          k.woken := fun l => congrArg Prod.fst (flushProcQueues_history _ p)
      dsimp only
      intro q hq
      split at hq
      · rename_i hrun
        obtain hqp | hq := List.mem_cons.mp hq
        · refine Or.inr ⟨hqp, ?_⟩
          rw [if_pos hrun]
          -- the flag is set, so the flush leaves the run queue
          show p ∈ (Kern.sched _).runProcs
          rw [flushProcQueues_sched (by rw [setLocal, updProc_procs_self]), hrun,
            (Sched.flush_of_qed _ _).1]
          · exact hp
          · show (Kern.procs _ p).runQed = true
            rw [setLocal, updProc_procs_self, touch_procs, setRun, updProc_procs_self]
        · exact Or.inl (hhist _ ▸ hq)
      · exact Or.inl (hhist _ ▸ hq)

theorem served_prepoll (hqueues : k.sched.Queues True) (hwake : WakesQueued .prepoll k) :
    k.prepoll.Served := by
  have hnodup : k.blockedProcs.Nodup :=
    List.nodup_iff_count_le_one.mpr fun p => (hqueues.blocked p).le_one
  have hserved : ([] : List Nat).Nodup ∧ (∀ p ∈ [], p ∈ k.prepoll.runProcs) ∧
      ∀ q ∈ k.prepoll.woken, q ∈ k.prepoll.runProcs ∧ q ∉ [] := by
    refine prepoll_invariant k (I := fun ps k => ps.Nodup ∧ (∀ p ∈ ps, p ∈ k.runProcs) ∧
      ∀ q ∈ k.woken, q ∈ k.runProcs ∧ q ∉ ps) ?_
      (fun hshutdown => ⟨hnodup, hwake rfl hshutdown, nofun⟩) ⟨List.nodup_nil, nofun, nofun⟩
    rintro p ps k ⟨hnodup, hps, hw⟩
    have hnodup := List.nodup_cons.mp hnodup
    have hne : ∀ q ∈ ps, q ≠ p := by
      rintro q hq rfl
      exact hnodup.1 hq
    refine ⟨hnodup.2, fun q hq => ?_, fun q hq => ?_⟩
    · exact (mem_wakeProc_of_ne (hne q hq)).mpr (hps q (List.mem_cons_of_mem _ hq))
    · obtain hq | ⟨rfl, hq⟩ := woken_wakeProc (hps p List.mem_cons_self) q hq
      · obtain ⟨hrun, hnot⟩ := hw q hq
        exact ⟨(mem_wakeProc_of_ne (List.ne_of_not_mem_cons hnot)).mpr hrun,
          List.not_mem_of_not_mem_cons hnot⟩
      · exact ⟨hq, hnodup.1⟩
  exact ⟨fun q hq => Or.inl (hserved.2.2 q hq).1, fun q hq => by rw [prepoll_stage] at hq; cases hq⟩

theorem served_step {a : KernAct} (hsound : k.Sound True) (h : k.Served) (hwake : WakesQueued a k)
    (hst : step a k = some k') : k'.Served := by
  have hne : ∀ {q : Nat} {stage : KernStage}, k.stage = stage → stage ≠ .taken q → k.stage ≠ .taken q :=
    fun hst hne hq => hne (hst.symm.trans hq)
  cases steps_of_step hst with
  | dequeueFresh hstage =>
      obtain ⟨hwoken, hdispatched⟩ := Prod.mk.inj (dequeueFresh_history k)
      obtain ⟨-, -, hstage'⟩ := dequeueFresh_slots hsound
      refine ⟨fun q hq => ?_, fun q hq => by rw [hstage'] at hq; cases hq⟩
      obtain hq | hq | hq := h.woken q (hwoken ▸ hq)
      · exact Or.inl (mem_dequeueFresh hq)
      · exact absurd hq (hne hstage nofun)
      · exact Or.inr (Or.inr (by rw [hdispatched]; exact hq))
  | dequeueRun hstage =>
      have hq' : ∀ q ∈ k.woken, q ∈ k.runProcs ∨ q ∈ k.dispatched := fun q hq =>
        (h.woken q hq).imp_right fun hq => hq.resolve_left (hne hstage nofun)
      unfold dequeueRun
      cases hrun : k.runProcs with
      | nil =>
          have hdone : ∀ q ∈ k.woken, q ∈ k.dispatched := by
            intro q hq
            refine (hq' q hq).resolve_left ?_
            rw [hrun]
            exact List.not_mem_nil
          dsimp only
          split
          · obtain ⟨hwoken, hdispatched⟩ := Prod.mk.inj (dump_history k)
            refine ⟨fun q hq => Or.inr (Or.inr ?_), nofun⟩
            show q ∈ k.dump.dispatched
            rw [hdispatched]
            exact hdone q (hwoken ▸ hq)
          · exact ⟨fun q hq => Or.inr (Or.inr (hdone q hq)), nofun⟩
      | cons p rest =>
          refine ⟨fun q hq => ?_, nofun⟩
          obtain hq | hq := hq' q hq
          · rw [hrun] at hq
            obtain rfl | hq := List.mem_cons.mp hq
            · exact Or.inr (Or.inl rfl)
            · exact Or.inl hq
          · exact Or.inr (Or.inr hq)
  | signal signo hstage =>
      cases signo with
      | term => exact ⟨h.woken, h.running⟩
      | usr1 =>
          refine h.of_same (dump_history k) (fun q _ hq => ?_) (dump_stage k)
          show q ∈ k.dump.sched.runProcs
          rw [dump_sched]
          exact hq
  | dispatch p kernHd postpoll hstage =>
      refine served_of_dispatched (p := p) (k := { k.heapEnter p with
        kernHd := kernHd, dispatched := p :: (k.heapEnter p).dispatched }) (fun q hq => ?_)
        List.mem_cons_self (execute_history _ p postpoll) (fun q hqp => mem_execute_of_ne hqp postpoll)
        fun q hq => ?_
      · obtain hq | hq | hq := h.woken q hq
        · exact Or.inl hq
        · exact Or.inr (Or.inl (KernStage.taken.inj (hq.symm.trans hstage)))
        · exact Or.inr (Or.inr (List.mem_cons_of_mem _ hq))
      · obtain hd | hd := execute_stage (k := { k.heapEnter p with
          kernHd := kernHd, dispatched := p :: (k.heapEnter p).dispatched }) p postpoll
        · cases hd.symm.trans hq
        · exact (KernStage.running.inj (hd.symm.trans hq)).symm
  | compute p l hstage => exact h.of_same rfl (fun q _ hq => hq) rfl
  | accept p a hstage hkern =>
      have hqueues : k.sched.Queues False :=
        { hsound.queues with run := fun p => ⟨(hsound.queues.run p).1, False.elim⟩ }
      refine h.of_same (accept_history k a) (fun q _ hq => ?_) (accept_stage k a)
      exact (mem_accept hqueues a (hsound.queues.runLive q hq)).mpr hq
  | fault p postpoll hstage =>
      refine served_of_dispatched (k := k) (p := p) (fun q hq => ?_) (h.running p hstage)
        (execute_history _ p postpoll) (fun q hqp => mem_execute_of_ne hqp postpoll) fun q hq => ?_
      · exact (h.woken q hq).imp_right fun hq => Or.inr (hq.resolve_left (hne hstage nofun))
      · obtain hd | hd := execute_stage ((k.kernEnter.heapEnter p).touch p) p postpoll
        · cases hd.symm.trans hq
        · exact (KernStage.running.inj (hd.symm.trans hq)).symm
  | leave p rc hstage =>
      refine served_of_dispatched (k := k) (p := p) (fun q hq => ?_) (h.running p hstage)
        (leave_history k p rc) (fun q hqp => mem_leave_of_ne hqp rc) fun q hq => ?_
      · exact (h.woken q hq).imp_right fun hq => Or.inr (hq.resolve_left (hne hstage nofun))
      · cases hq
  | prepoll hstage => exact served_prepoll hsound.queues hwake
  | poll revents hstage =>
      refine ⟨fun q hq => ?_, nofun⟩
      exact (h.woken q hq).imp_right fun hq => Or.inr (hq.resolve_left (hne hstage nofun))
  | pollError hstage =>
      refine ⟨fun q hq => ?_, nofun⟩
      exact (h.woken q hq).imp_right fun hq => Or.inr (hq.resolve_left (hne hstage nofun))

end Served

theorem served_boot (b : Boot) : (boot b).Served := by
  obtain ⟨hwoken, hdispatched⟩ := Prod.mk.inj (flushProcQueues_history (bootProc b) 0)
  refine ⟨fun p hp => ?_, fun p hp => ?_⟩
  · rw [boot, hwoken] at hp
    cases hp
  · rw [boot, flushProcQueues_stage] at hp
    cases hp

/-- In a run in which `vk_kern_prepoll` wakes only processes that are in the run
queue already, the flags always tell who is in the queues, and who is woken is
dispatched by the next `vk_kern_postpoll`. -/
theorem queued_of_run {b : Boot} {as : List KernAct} {k : Kern}
    (hwake : Meets step WakesQueued as (boot b)) (hrun : run step as (boot b) = some k) :
    k.Flagged ∧ k.WokenDispatched := by
  have h : k.Sound True ∧ k.Served :=
    run_of_meets (I := fun k => k.Sound True ∧ k.Served)
      (fun a k k' h hC hst => ⟨sound_step h.1 (fun _ => hC) hst, served_step h.1 h.2 hC hst⟩)
      ⟨sound_boot b, served_boot b⟩ hwake hrun
  refine ⟨flagged_of_queues h.1.queues, fun hstage hrun p hp => ?_⟩
  obtain hp | hp | hp := h.2.woken p hp
  · rw [hrun] at hp
    cases hp
  · cases hstage.symm.trans hp
  · exact hp

end Kern

/-! ## A flag without a place in the queue -/

namespace Sched

/-- What is said of process `p` is the same. -/
structure Frame (p : Nat) (s s' : Sched) : Prop where
  runQed : s'.runQed p = s.runQed p
  live : s'.live p = s.live p
  run : p ∈ s'.runProcs ↔ p ∈ s.runProcs
  blocked : p ∈ s'.blockedProcs ↔ p ∈ s.blockedProcs

variable {s s' t : Sched} {p q : Nat}

theorem Frame.refl : Frame p s s := ⟨rfl, rfl, Iff.rfl, Iff.rfl⟩

theorem Frame.trans (h : Frame p s s') (h' : Frame p s' t) : Frame p s t :=
  ⟨h'.runQed.trans h.runQed, h'.live.trans h.live, h'.run.trans h.run, h'.blocked.trans h.blocked⟩

/-- Flushing a process is nothing to another. -/
theorem frame_flush (hq : p ≠ q) (run blocked : Bool) : Frame p s (s.flush q run blocked) := by
  have hrun : Frame p s (if run then s.enqueueRun q else s.dropRun q) := by
    unfold enqueueRun dropRun
    split <;> split
    · exact Frame.refl
    · exact ⟨Function.update_of_ne hq _ _, rfl, List.mem_cons.trans (or_iff_right hq), Iff.rfl⟩
    · exact ⟨Function.update_of_ne hq _ _, rfl, List.mem_erase_of_ne hq, Iff.rfl⟩
    · exact Frame.refl
  have hblocked : ∀ s : Sched, Frame p s (if blocked then s.enqueueBlocked q else s.dropBlocked q) := by
    intro s
    unfold enqueueBlocked dropBlocked
    split <;> split
    · exact Frame.refl
    · exact ⟨rfl, rfl, Iff.rfl, List.mem_cons.trans (or_iff_right hq)⟩
    · exact ⟨rfl, rfl, Iff.rfl, List.mem_erase_of_ne hq⟩
    · exact Frame.refl
  exact hrun.trans (hblocked _)

/-- Process `p` is flagged, but in neither queue. -/
structure Lost (p : Nat) (s : Sched) : Prop where
  runQed : s.runQed p = true
  live : s.live p = true
  run : p ∉ s.runProcs
  blocked : p ∉ s.blockedProcs

theorem Lost.of_frame (h : Lost p s) (hf : Frame p s s') : Lost p s' :=
  ⟨hf.runQed.trans h.runQed, hf.live.trans h.live, mt hf.run.mp h.run, mt hf.blocked.mp h.blocked⟩

theorem Lost.enqueueRun (h : Lost p s) (q : Nat) : Lost p (s.enqueueRun q) := by
  unfold Sched.enqueueRun
  split
  · exact h
  · rename_i hqed
    have hq : p ≠ q := by
      rintro rfl
      exact hqed h.runQed
    exact h.of_frame
      ⟨Function.update_of_ne hq _ _, rfl, List.mem_cons.trans (or_iff_right hq), Iff.rfl⟩

end Sched

namespace Kern

section Lost
variable {k k' : Kern} {p q : Nat}

theorem frame_flushProcQueues (hq : p ≠ q) : Sched.Frame p k.sched (k.flushProcQueues q).sched := by
  cases hl : (k.procs q).localPtr with
  | none =>
      have hk : k.flushProcQueues q = k := by simp only [flushProcQueues, hl]
      rw [hk]
      exact Sched.Frame.refl
  | some l =>
      rw [flushProcQueues_sched hl]
      exact Sched.frame_flush hq _ _

theorem frame_wakeProc (hq : p ≠ q) : Sched.Frame p k.sched (k.wakeProc q).sched := by
  unfold wakeProc
  cases hl : (k.procs q).localPtr with
  | none => exact Sched.Frame.refl
  | some l =>
      have hlive : k.Live q := by rw [Live, hl]; rfl
      have hset : Sched.Frame p k.sched ((k.setRun q true).touch q).sched := by
        rw [touch_sched, setRun_sched]
        exact ⟨Function.update_of_ne hq _ _, rfl, Iff.rfl, Iff.rfl⟩
      have hlocal : ∀ l : Local, Sched.Frame p k.sched
          ((((k.setRun q true).touch q).setLocal q l).flushProcQueues q).sched := by
        intro l
        refine hset.trans ?_
        rw [← setLocal_sched (l := l) (live_setRun hlive)]
        exact frame_flushProcQueues hq
      dsimp only
      split
      · exact hlocal _
      · exact hlocal _

theorem frame_afterExecute (hq : p ≠ q) : Sched.Frame p k.sched (k.afterExecute q).sched := by
  refine (frame_flushProcQueues hq).trans ?_
  unfold afterExecute
  dsimp only
  split
  · rw [setStage_sched, freeProc_sched]
    exact ⟨Function.update_of_ne hq _ _, Function.update_of_ne hq _ _, Iff.rfl, Iff.rfl⟩
  · split
    · rw [setStage_sched, heapExit_sched]
      exact Sched.Frame.refl
    · exact Sched.Frame.refl

theorem frame_execute (hq : p ≠ q) (hlive : k.Live q) (postpoll : Option Local) :
    Sched.Frame p k.sched (k.execute q postpoll).sched := by
  unfold execute
  cases (k.procs q).localPtr with
  | none => exact frame_afterExecute hq
  | some l =>
      dsimp only
      cases (if l.pl.runningCr.isSome then some { l with pl := l.pl.raiseSignal.1 } else postpoll) with
      | none => exact frame_afterExecute (k := k.touch q) hq
      | some l =>
          have hsched : (((k.touch q).setLocal q l).heapEnter q).sched = k.sched := by
            rw [heapEnter_sched]
            exact setLocal_sched (k := k.touch q) hlive
          dsimp only
          split
          · rw [setStage_sched, hsched]
            exact Sched.Frame.refl
          · rw [setStage_sched, kernExit_sched, hsched]
            exact Sched.Frame.refl

theorem frame_leave (hq : p ≠ q) (rc : Int) : Sched.Frame p k.sched (k.leave q rc).sched := by
  have hkern : (if (k.procs q).privileged then k else k.kernEnter).sched = k.sched := by
    split <;> rfl
  unfold leave
  dsimp only
  split
  · rw [← hkern]
    exact frame_afterExecute hq
  · rw [← hkern, ← prepollProc_sched _ q]
    exact frame_afterExecute hq

theorem frame_accept (hqueues : k.sched.Queues False) (hlive : k.Live p) (a : Accept) :
    Sched.Frame p k.sched (k.accept a).sched := by
  unfold accept
  cases hfree : k.freeProcs with
  | nil => exact Sched.Frame.refl
  | cons q rest =>
      obtain ⟨-, hdead, -⟩ := hqueues.take_free (p := q) hfree
      have hq : p ≠ q := by
        rintro rfl
        exact Bool.false_ne_true (hdead.symm.trans hlive)
      have hnone : (({ k with freeProcs := rest } : Kern).procs q).localPtr = none :=
        Option.isNone_iff_eq_none.mp (Option.isSome_eq_false_iff.mp hdead)
      dsimp only
      obtain ⟨hok, hs, -⟩ | ⟨hok, hs, -⟩ := inits_allocHeap a hnone
      · rw [if_pos hok]
        generalize (({ k with freeProcs := rest } : Kern).allocHeap q a).1 = k₁ at hs ⊢
        have hframe : Sched.Frame p k.sched k₁.sched := by
          rw [hs]
          exact ⟨Function.update_of_ne hq _ _, Function.update_of_ne hq _ _, Iff.rfl, Iff.rfl⟩
        have hlive₁ : k₁.Live q := by
          show k₁.sched.live q = true
          rw [hs]
          exact Function.update_self _ _ _
        refine hframe.trans ?_
        have hsched := openProc_sched k₁ q a
        have hlive₂ := openProc_live a hlive₁
        rw [setupProc_eq, ← hsched]
        cases a.setup with
        | noThread => exact Sched.Frame.refl
        | noArg =>
            dsimp only
            rw [setLocal_sched hlive₂]
            exact Sched.Frame.refl
        | played =>
            dsimp only
            rw [heapExit_sched, ← setLocal_sched (l :=
              (Local.init.initThread a.thread a.socket a.fd).play a.thread) hlive₂]
            exact frame_flushProcQueues hq
      · rw [if_neg (by rw [hok]; exact Bool.false_ne_true), hs]
        exact ⟨rfl, rfl, Iff.rfl, Iff.rfl⟩

/-- Process `p` is flagged without being queued, and it is not its turn. -/
structure Lost (p : Nat) (k : Kern) : Prop where
  sched : Sched.Lost p k.sched
  stage : current k.stage ≠ some p

/-- The kernel has no step that finds a lost process. -/
theorem lost_step {a : KernAct} (hsound : k.Sound False) (h : Lost p k) (hst : step a k = some k') :
    Lost p k' ∧ (p ∈ k'.dispatched → p ∈ k.dispatched) := by
  have hcur : ∀ {q : Nat}, k.stage = .taken q ∨ k.stage = .running q → p ≠ q ∧ k.Live q := by
    rintro q hst
    refine ⟨?_, ?_⟩
    · rintro rfl
      obtain hst | hst := hst <;> exact h.stage (by rw [hst]; rfl)
    · obtain hst | hst := hst <;> exact hsound.current q (by rw [hst]; rfl)
  have hexec : ∀ {q : Nat} {postpoll : Option Local} {k₁ : Kern}, p ≠ q →
      current (k₁.execute q postpoll).stage ≠ some p := by
    intro q postpoll k₁ hq hp
    obtain hd | hd := execute_stage k₁ q postpoll
    · rw [hd] at hp
      cases hp
    · rw [hd] at hp
      exact hq (Option.some.inj hp).symm
  cases steps_of_step hst with
  | dequeueFresh hstage =>
      have hlost : Sched.Lost p k.dequeueFresh.sched := by
        refine dequeueFresh_invariant k (I := fun _ k => Sched.Lost p k.sched) (fun i is k h => ?_) h.sched
        rw [enqueueRun_sched]
        exact h.enqueueRun _
      obtain ⟨-, hdispatched⟩ := Prod.mk.inj (dequeueFresh_history k)
      obtain ⟨-, -, hstage'⟩ := dequeueFresh_slots hsound
      exact ⟨⟨hlost, by rw [hstage']; nofun⟩, fun hp => hdispatched ▸ hp⟩
  | dequeueRun hstage =>
      unfold dequeueRun
      cases hrun : k.runProcs with
      | nil =>
          dsimp only
          split
          · obtain ⟨-, hdispatched⟩ := Prod.mk.inj (dump_history k)
            exact ⟨⟨by rw [setStage_sched, dump_sched]; exact h.sched, nofun⟩, fun hp => hdispatched ▸ hp⟩
          · exact ⟨⟨h.sched, nofun⟩, id⟩
      | cons q rest =>
          have hmem : p ∉ q :: rest := by
            rw [← hrun]
            exact h.sched.run
          have hq := List.ne_of_not_mem_cons hmem
          refine ⟨⟨?_, fun hp => hq (Option.some.inj hp).symm⟩, id⟩
          dsimp only
          rw [sched_updProc]
          refine h.sched.of_frame
            ⟨Function.update_of_ne hq _ _, Function.update_of_ne hq _ _, ?_, Iff.rfl⟩
          · show p ∈ rest ↔ p ∈ k.runProcs
            rw [hrun]
            exact (List.mem_cons.trans (or_iff_right hq)).symm
  | signal signo hstage =>
      cases signo with
      | term => exact ⟨⟨h.sched, h.stage⟩, id⟩
      | usr1 =>
          obtain ⟨-, hdispatched⟩ := Prod.mk.inj (dump_history k)
          refine ⟨⟨by rw [syncSignalHandler, dump_sched]; exact h.sched, ?_⟩, fun hp => hdispatched ▸ hp⟩
          show current k.dump.stage ≠ some p
          rw [dump_stage]
          exact h.stage
  | dispatch q kernHd postpoll hstage =>
      obtain ⟨hq, hlive⟩ := hcur (Or.inl hstage)
      have hs := heapEnter_sched k q
      have hlive' : (k.heapEnter q).Live q := by
        show (k.heapEnter q).sched.live q = true
        rw [hs]
        exact hlive
      obtain ⟨-, hdispatched⟩ := Prod.mk.inj (execute_history { k.heapEnter q with
        kernHd := kernHd, dispatched := q :: (k.heapEnter q).dispatched } q postpoll)
      refine ⟨⟨?_, hexec hq⟩, fun hp => ?_⟩
      · refine Sched.Lost.of_frame ?_ (frame_execute hq (k := { k.heapEnter q with
          kernHd := kernHd, dispatched := q :: (k.heapEnter q).dispatched }) hlive' postpoll)
        show Sched.Lost p (k.heapEnter q).sched
        rw [hs]
        exact h.sched
      · have hp : p ∈ q :: k.dispatched := (congrArg (p ∈ ·) hdispatched).mp hp
        exact (List.mem_cons.mp hp).resolve_left hq
  | compute q l hstage =>
      obtain ⟨hq, hlive⟩ := hcur (Or.inr hstage)
      exact ⟨⟨setLocal_sched hlive ▸ h.sched, h.stage⟩, id⟩
  | accept q a hstage hkern =>
      obtain ⟨-, hdispatched⟩ := Prod.mk.inj (accept_history k a)
      refine ⟨⟨h.sched.of_frame (frame_accept hsound.queues h.sched.live a), ?_⟩,
        fun hp => hdispatched ▸ hp⟩
      rw [accept_stage]
      exact h.stage
  | fault q postpoll hstage =>
      obtain ⟨hq, hlive⟩ := hcur (Or.inr hstage)
      have hs : (k.kernEnter.heapEnter q).sched = k.sched := heapEnter_sched _ q
      have hlive' : ((k.kernEnter.heapEnter q).touch q).Live q := by
        show (k.kernEnter.heapEnter q).sched.live q = true
        rw [hs]
        exact hlive
      obtain ⟨-, hdispatched⟩ :=
        Prod.mk.inj (execute_history ((k.kernEnter.heapEnter q).touch q) q postpoll)
      refine ⟨⟨?_, hexec hq⟩, fun hp => hdispatched ▸ hp⟩
      refine Sched.Lost.of_frame ?_ (frame_execute hq hlive' postpoll)
      rw [touch_sched, hs]
      exact h.sched
  | leave q rc hstage =>
      obtain ⟨hq, hlive⟩ := hcur (Or.inr hstage)
      obtain ⟨-, hdispatched⟩ := Prod.mk.inj (leave_history k q rc)
      exact ⟨⟨h.sched.of_frame (frame_leave hq rc), nofun⟩, fun hp => hdispatched ▸ hp⟩
  | prepoll hstage =>
      have hframe : p ∉ [] ∧ Sched.Frame p k.sched k.prepoll.sched := by
        refine prepoll_invariant k (I := fun ps k' => p ∉ ps ∧ Sched.Frame p k.sched k'.sched)
          (fun q ps k' hps => ?_) (fun _ => ⟨h.sched.blocked, Sched.Frame.refl⟩)
          ⟨List.not_mem_nil, Sched.Frame.refl⟩
        exact ⟨List.not_mem_of_not_mem_cons hps.1,
          hps.2.trans (frame_wakeProc (List.ne_of_not_mem_cons hps.1))⟩
      refine ⟨⟨h.sched.of_frame hframe.2, by rw [prepoll_stage]; nofun⟩, fun hp => ?_⟩
      rw [prepoll_dispatched] at hp
      cases hp
  | poll revents hstage => exact ⟨⟨h.sched, nofun⟩, id⟩
  | pollError hstage => exact ⟨⟨h.sched, nofun⟩, id⟩

/-- A lost process is never dispatched. -/
theorem never_dispatched {as : List KernAct} (hsound : k.Sound False) (h : Lost p k)
    (hp : p ∉ k.dispatched) (hrun : run step as k = some k') : Lost p k' ∧ p ∉ k'.dispatched := by
  have hall : k'.Sound False ∧ Lost p k' ∧ p ∉ k'.dispatched :=
    run_induction (I := fun k => k.Sound False ∧ Lost p k ∧ p ∉ k.dispatched)
      (fun a k k' h hst =>
        have hlost := lost_step h.1 h.2.1 hst
        ⟨sound_step h.1 False.elim hst, hlost.1, mt hlost.2 h.2.2⟩)
      ⟨hsound, h, hp⟩ hrun
  exact hall.2

/-! ## Whom the shutdown wakes -/

/-- `vk_kern_prepoll` is called when the run queue is empty. -/
theorem runProcs_of_prepoll {b : Boot} {as : List KernAct} (hrun : run step as (boot b) = some k)
    (hstage : k.stage = .prepoll) : k.runProcs = [] := by
  have hinv : ∀ a (k k' : Kern), (k.stage = .prepoll → k.runProcs = []) → step a k = some k' →
      k'.stage = .prepoll → k'.runProcs = [] := by
    intro a k k' h hst hprepoll
    have hexec : ∀ {p : Nat} {postpoll : Option Local} {k₁ : Kern},
        (k₁.execute p postpoll).stage ≠ .prepoll := by
      intro p postpoll k₁ hp
      obtain hd | hd := execute_stage k₁ p postpoll <;> cases hd.symm.trans hp
    cases steps_of_step hst with
    | dequeueFresh hstage =>
        cases (dequeueFresh_stage k).symm.trans hprepoll
    | dequeueRun hstage =>
        unfold dequeueRun at hprepoll ⊢
        cases hrun : k.runProcs with
        | nil =>
            rw [hrun] at hprepoll
            dsimp only at hprepoll ⊢
            split at hprepoll
            · cases hprepoll
            · rename_i hpending
              rw [if_neg hpending]
              exact hrun
        | cons p rest =>
            rw [hrun] at hprepoll
            cases hprepoll
    | signal signo hstage =>
        cases signo with
        | term =>
            have hp : k.stage = .prepoll := hprepoll
            rw [hp] at hstage
            cases hstage
        | usr1 =>
            have hp : k.stage = .prepoll := (dump_stage k).symm.trans hprepoll
            rw [hp] at hstage
            cases hstage
    | dispatch p kernHd postpoll hstage => exact absurd hprepoll hexec
    | compute p l hstage => cases hstage.symm.trans hprepoll
    | accept p a hstage hkern => cases hstage.symm.trans ((accept_stage k a).symm.trans hprepoll)
    | fault p postpoll hstage => exact absurd hprepoll hexec
    | leave p rc hstage => cases hprepoll
    | prepoll hstage => cases (prepoll_stage k).symm.trans hprepoll
    | poll revents hstage => cases hprepoll
    | pollError hstage => cases hprepoll
  refine run_induction (I := fun k => k.stage = .prepoll → k.runProcs = []) hinv ?_ hrun hstage
  intro hp
  rw [boot, flushProcQueues_stage] at hp
  cases hp

/-- Waking a process does not put it into an empty run queue; if it has a thread
to run then, its flag stays set. -/
theorem wakeProc_of_nil (hnil : k.runProcs = []) :
    (k.wakeProc p).runProcs = [] ∧
      ∀ q ∈ (k.wakeProc p).woken, q ∈ k.woken ∨
        q = p ∧ (k.wakeProc p).sched.runQed p = true ∧ k.Live p := by
  unfold wakeProc
  cases hl : (k.procs p).localPtr with
  | none => exact ⟨hnil, fun q hq => Or.inl hq⟩
  | some l =>
      have hlive : k.Live p := by rw [Live, hl]; rfl
      have hset : ∀ l : Local, (((k.setRun p true).touch p).setLocal p l).runProcs = [] ∧
          (((k.setRun p true).touch p).setLocal p l).sched.runQed p = true ∧
          ((((k.setRun p true).touch p).setLocal p l).procs p).localPtr = some l := by
        intro l
        refine ⟨hnil, ?_, ?_⟩
        · show (Kern.procs _ p).runQed = true
          rw [setLocal, updProc_procs_self, touch_procs, setRun, updProc_procs_self]
        · rw [setLocal, updProc_procs_self]
      have hflush : ∀ l : Local,
          ((((k.setRun p true).touch p).setLocal p l).flushProcQueues p).runProcs = [] ∧
          (l.pl.run = true →
            ((((k.setRun p true).touch p).setLocal p l).flushProcQueues p).sched.runQed p = true) ∧
          ((((k.setRun p true).touch p).setLocal p l).flushProcQueues p).woken = k.woken := by
        intro l
        obtain ⟨hrun, hqed, hlocal⟩ := hset l
        have hsched := flushProcQueues_sched hlocal
        refine ⟨?_, fun hl => ?_, congrArg Prod.fst (flushProcQueues_history _ p)⟩
        · show (Kern.sched _).runProcs = []
          rw [hsched]
          cases l.pl.run with
          | true =>
              rw [(Sched.flush_of_qed hqed _).1]
              exact hrun
          | false => exact Sched.flush_of_nil hrun _
        · rw [hsched, hl, (Sched.flush_of_qed hqed _).2]
          exact hqed
      dsimp only
      obtain ⟨hrun, hqed, hwoken⟩ := hflush (l.pl.blockedQ.foldl Local.wakeSocket l)
      split
      · rename_i hl
        refine ⟨hrun, fun q hq => ?_⟩
        obtain hq | hq := List.mem_cons.mp hq
        · exact Or.inr ⟨hq, hqed hl, hlive⟩
        · exact Or.inl (hwoken ▸ hq)
      · exact ⟨hrun, fun q hq => Or.inl (hwoken ▸ hq)⟩

/-- Who is woken from an empty run queue is flagged, and not queued. -/
theorem woken_prepoll (hqueues : k.sched.Queues False) (hnil : k.runProcs = []) :
    k.prepoll.runProcs = [] ∧
      ∀ p ∈ k.prepoll.woken, k.prepoll.sched.runQed p = true ∧ k.Live p := by
  have hnodup : k.blockedProcs.Nodup :=
    List.nodup_iff_count_le_one.mpr fun p => (hqueues.blocked p).le_one
  have hwoken : ([] : List Nat).Nodup ∧ k.prepoll.runProcs = [] ∧
      ∀ q ∈ k.prepoll.woken, k.prepoll.sched.runQed q = true ∧ k.prepoll.Live q ∧ q ∉ [] := by
    refine prepoll_invariant k (I := fun ps k => ps.Nodup ∧ k.runProcs = [] ∧
      ∀ q ∈ k.woken, k.sched.runQed q = true ∧ k.Live q ∧ q ∉ ps) ?_
      (fun _ => ⟨hnodup, hnil, nofun⟩) ⟨List.nodup_nil, hnil, nofun⟩
    rintro p ps k ⟨hnodup, hnil, hw⟩
    have hnodup := List.nodup_cons.mp hnodup
    obtain ⟨hrun, hwoken⟩ := wakeProc_of_nil (p := p) hnil
    have hlive : ∀ q, (k.wakeProc p).Live q ↔ k.Live q := fun q => by
      show (k.wakeProc p).slots.live q = true ↔ k.slots.live q = true
      rw [wakeProc_slots]
    refine ⟨hnodup.2, hrun, fun q hq => ?_⟩
    obtain hq | ⟨rfl, hqed, hl⟩ := hwoken q hq
    · obtain ⟨hqed, hl, hnot⟩ := hw q hq
      have hf := frame_wakeProc (k := k) (List.ne_of_not_mem_cons hnot)
      exact ⟨hf.runQed.trans hqed, (hlive q).mpr hl, List.not_mem_of_not_mem_cons hnot⟩
    · exact ⟨hqed, (hlive q).mpr hl, hnodup.1⟩
  refine ⟨hwoken.2.1, fun q hq => ?_⟩
  obtain ⟨hqed, hlive, -⟩ := hwoken.2.2 q hq
  refine ⟨hqed, ?_⟩
  show k.slots.live q = true
  rw [← prepoll_slots k]
  exact hlive

/-- Whom the shutdown wakes it only flags: if the process is not blocked on
something else, it is lost. -/
theorem lost_prepoll {b : Boot} {as : List KernAct} (hrun : run step as (boot b) = some k)
    (hstage : k.stage = .prepoll) (hp : p ∈ k.prepoll.woken) :
    ¬k.prepoll.Flagged ∧ (p ∉ k.prepoll.blockedProcs → Lost p k.prepoll) := by
  obtain ⟨hnil, hwoken⟩ := woken_prepoll (sound_of_run hrun).queues (runProcs_of_prepoll hrun hstage)
  obtain ⟨hqed, hlive⟩ := hwoken p hp
  refine ⟨fun h => ?_, fun hblocked => ⟨⟨hqed, ?_, ?_, hblocked⟩, by rw [prepoll_stage]; nofun⟩⟩
  · have hcount := (h p).1
    rw [hnil, show (k.prepoll.procs p).runQed = true from hqed] at hcount
    cases hcount
  · show k.prepoll.slots.live p = true
    rw [prepoll_slots]
    exact hlive
  · show p ∉ k.prepoll.runProcs
    rw [hnil]
    exact List.not_mem_nil

end Lost

/-! ## A blocked process and a shutdown -/

/-- A kernel with room for three processes, and a pool of one heap. -/
def smallBoot (privileged isolated : Bool) : Boot where
  kernAddr := 0
  procCount := 3
  fdCount := 8
  entryCount := 1
  entryAddr := fun e => e + 2
  addr := 1
  privileged := privileged
  isolated := isolated
  thread := 0
  socket := 0
  procCount_pos := by decide
  addr_ne := by decide
  entryAddr_injective := fun _ _ h => Nat.add_right_cancel h
  entryAddr_ne_kernAddr := fun _ => Nat.succ_ne_zero _
  entryAddr_ne_addr := fun e h => Nat.succ_ne_zero e (Nat.succ.inj h)

/-- A process whose thread waits to read from descriptor 5. -/
def readingLocal : Local :=
  let l := Local.init.initThread 0 0 5
  { l with pl := (l.pl.updSocket 0 fun socket =>
      { socket with block := { socket.block with
          ioftRxPre := { socket.block.ioftRxPre with event := ⟨5, POLLIN, 0⟩ } } }).enqueueBlocked 0 }

/-- The first process is dispatched, its thread blocks, and the process yields. -/
def blockFirst (l : Local) : List KernAct :=
  [.dequeueFresh, .dequeueRun, .dispatch Heap.cleared (some l), .compute readingLocal, .leave 0]

/-- The thread blocks, and so does the process; nobody asks for a shutdown. -/
theorem queued_of_run_reading : ∃ k,
    run step (blockFirst readingLocal ++ [.dequeueRun, .prepoll]) (boot (smallBoot false false)) = some k ∧
      k.blockedProcs = [0] ∧ k.Flagged ∧ k.WokenDispatched := by
  obtain ⟨k, hk, hblocked⟩ := (Option.any_eq_true _ _).mp (by decide +kernel :
    (run step (blockFirst readingLocal ++ [.dequeueRun, .prepoll]) (boot (smallBoot false false))).any
      (fun k => decide (k.blockedProcs = [0])) = true)
  exact ⟨k, hk, of_decide_eq_true hblocked, queued_of_run (b := smallBoot false false)
    (by decide +kernel) hk⟩

/-- A process blocks on a descriptor, the shutdown is requested, the process is
woken, and its descriptor becomes readable: the process is flagged, is not in the
run queue, and is not dispatched by the `vk_kern_postpoll` that follows. -/
theorem woken_not_dispatched :
    ¬∀ (b : Boot) (as : List KernAct) (k : Kern), run step as (boot b) = some k →
      k.Flagged ∧ k.WokenDispatched := by
  intro h
  obtain ⟨k, hk, hlost⟩ := (Option.any_eq_true _ _).mp (by decide +kernel :
    (run step (blockFirst readingLocal ++
        [.signal .term, .dequeueRun, .prepoll, .poll fun _ => POLLIN, .dequeueFresh])
      (boot (smallBoot false false))).any (fun k => decide (k.runProcs = [] ∧
        (k.procs 0).runQed = true ∧ k.stage = .dispatch ∧ k.woken = [0] ∧ k.dispatched = [])) = true)
  obtain ⟨hrun, -, hstage, hwoken, hdispatched⟩ := of_decide_eq_true hlost
  have hserved := (h _ _ k hk).2 hstage hrun 0 (by rw [hwoken]; exact List.mem_singleton.mpr rfl)
  rw [hdispatched] at hserved
  cases hserved

end Kern

end Vk

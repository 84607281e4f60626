/-
# `Mnvkd.KernReports` — what the loop of the kernel hears of a process that fails

`vk_proc_execute` returns -1 where `vk_proc_postpoll` fails or where the executor does.  It
is called from `vk_proc_execute_mainline`, by way of `vk_signal_setjmp`, and a fault comes
back to that call, so what it returns does not reach `vk_kern_execute_proc`: it is to be
found in `kern_ptr->rc`.  There it lasts two statements.  `vk_proc_execute_mainline` stores
-1 for a failure, and before it returns it stores 0, whatever happened.

The machine is that of `Mnvkd.Kern` with the status word and the jumper, and with what the
functions of the loop return.  The system may refuse to change the protection of a heap or
to unmap it, which is the only failure that is told (`failures_reported_iff`).  Where it
refuses nothing the runs are those of that machine (`run_kern`).
-/
import Mnvkd.KernGuard
import Mnvkd.KernShutdown

namespace Vk

open Lib

/-! ## One execution of a process -/

/-- A process is executed in this step, from its beginning or to its end. -/
def KernAct.executes : KernAct → Bool
  | .dispatch .. | .fault _ | .leave _ => true
  | .dequeueFresh | .dequeueRun | .signal _ | .compute _ | .accept _ | .prepoll | .poll _
  | .pollError => false

namespace Kern

/-- `vk_proc_execute`, up to the executor, or up to where it returns. -/
def enterExecute (k : Kern) (p : Nat) (postpoll : Option Local) : Kern × Option Int :=
  match (k.procs p).localPtr with
  | none => (k, some 0)
  | some l =>
      let k := k.touch p
      match if l.pl.runningCr.isSome then some { l with pl := l.pl.raiseSignal.1 } else postpoll with
      | none => (k, some (-1))
      | some l =>
          let k := (k.setLocal p l).heapEnter p
          ((if (k.procs p).privileged then k else k.kernExit).setStage (.running p), none)

/-- `vk_proc_execute`, after the executor has returned `rc`.  `vk_proc_prepoll` returns 0. -/
def leaveExecute (k : Kern) (p : Nat) (rc : Int) : Kern × Int :=
  let k := if (k.procs p).privileged then k else k.kernEnter
  if rc = -1 then (k, -1) else (k.prepollProc p, 0)

/-- `vk_proc_postpoll` is called for process `p`, and fails. -/
def postpollFails (k : Kern) (p : Nat) (postpoll : Option Local) : Bool :=
  match (k.procs p).localPtr with
  | none => false
  | some l => l.pl.runningCr.isNone && postpoll.isNone

section Execute
variable (k : Kern) (p : Nat) (postpoll : Option Local) (rc : Int)

theorem execute_eq : k.execute p postpoll =
    match k.enterExecute p postpoll with
    | (k, some _) => k.afterExecute p
    | (k, none) => k := by
  unfold execute enterExecute
  cases (k.procs p).localPtr with
  | none => rfl
  | some l =>
      dsimp only
      cases (if l.pl.runningCr.isSome then some { l with pl := l.pl.raiseSignal.1 } else postpoll)
        with
      | none => rfl
      | some l => rfl

theorem leave_eq : k.leave p rc = (k.leaveExecute p rc).1.afterExecute p := by
  unfold leave leaveExecute
  by_cases hrc : rc = -1
  · simp only [if_pos hrc]
  · simp only [if_neg hrc]

theorem enterExecute_fails_iff :
    (k.enterExecute p postpoll).2 = some (-1) ↔ k.postpollFails p postpoll = true := by
  unfold enterExecute postpollFails
  cases (k.procs p).localPtr with
  | none => exact iff_of_false (by simp) Bool.false_ne_true
  | some l =>
      dsimp only
      cases l.pl.runningCr with
      | some t => exact iff_of_false (fun h => nomatch h) (by simp)
      | none =>
          cases postpoll with
          | none => exact iff_of_true rfl rfl
          | some l' => exact iff_of_false (fun h => nomatch h) (by simp)

theorem leaveExecute_fails_iff : (k.leaveExecute p rc).2 = -1 ↔ rc = -1 := by
  unfold leaveExecute
  by_cases hrc : rc = -1
  · simp only [if_pos hrc]
    exact iff_of_true trivial hrc
  · simp only [if_neg hrc]
    exact iff_of_false (by decide) hrc

end Execute

@[simp] theorem postpollFails_some (k : Kern) (p : Nat) (l : Local) :
    k.postpollFails p (some l) = false := by
  unfold postpollFails
  cases (k.procs p).localPtr with
  | none => rfl
  | some l' => exact Bool.and_false _

/-- No step takes up the coroutines of a process but those that execute one. -/
theorem running_of_step {a : KernAct} {k k' : Kern} {p : Nat} (h : step a k = some k')
    (hquiet : a.executes = false) (hst : k'.stage = .running p) : k.stage = .running p := by
  cases steps_of_step h with
  | dequeueFresh hstage => cases (dequeueFresh_stage k).symm.trans hst
  | dequeueRun hstage => exact absurd hst (dequeueRun_stage k p)
  | signal signo hstage =>
      cases signo with
      | term => exact hst
      | usr1 => exact k.dump_stage.symm.trans hst
  | dispatch q kernHd postpoll hstage => cases hquiet
  | compute q l hstage => exact hst
  | accept q a hstage hkern => exact (accept_stage k a).symm.trans hst
  | fault q postpoll hstage => cases hquiet
  | leave q rc hstage => cases hquiet
  | prepoll hstage => cases k.prepoll_stage.symm.trans hst
  | poll revents hstage => cases hst
  | pollError hstage => cases hst

theorem postpollFails_congr {k k' : Kern} {p : Nat}
    (h : (k'.procs p).localPtr = (k.procs p).localPtr) (postpoll : Option Local) :
    k'.postpollFails p postpoll = k.postpollFails p postpoll := by
  rw [postpollFails, h, postpollFails]

end Kern

/-! ## The status word -/

/-- `global_vk_signal.jumper`, with its argument. -/
inductive Jumper where
  | kernSignal
  | procExecute (p : Nat)
  deriving DecidableEq, Repr

/-- A dispatch of a process that has been executed: what `vk_proc_execute`,
`vk_kern_execute_proc` and `vk_kern_dispatch_proc` have returned. -/
structure DispatchReport where
  p : Nat
  execute : Int
  executeProc : Int
  dispatchProc : Int
  deriving DecidableEq, Repr

/-- The kernel with its status word `kern_ptr->rc` and with the jumper.  The rest is
history: the dispatches and what each `vk_kern_postpoll` has returned, the latest first,
and what `vk_kern_loop` has returned. -/
structure ReportKern where
  k : Kern
  rc : Int
  jumper : Jumper
  log : List DispatchReport
  postpolls : List Int
  returned : Option Int

/-- A step of the kernel; `entered` and `released` say whether the system lets the heap of
a process be entered before and left or freed after it has been executed. -/
inductive ReportAct where
  | kern (a : KernAct)
  | dispatch (kernHd : Heap) (postpoll : Option Local) (entered released : Bool)
  | fault (postpoll : Option Local) (released : Bool)
  | leave (rc : Int) (released : Bool)

namespace ReportKern

/-- `vk_proc_execute_mainline`, after `vk_proc_execute` has returned `rc`. -/
def executeMainline (x : ReportKern) (rc : Int) : ReportKern :=
  let x := if rc = -1 then { x with rc := -1 } else x
  let x := { x with jumper := .kernSignal }
  { x with rc := 0 }

/-- `vk_kern_execute_proc`, after `vk_signal_setjmp` has returned.  That returns 0, the
jumper and the mainline having been set. -/
def executeProc (x : ReportKern) : ReportKern × Int :=
  -- "deferred error from jumper"
  if x.rc = -1 then (x, -1) else ({ x with jumper := .kernSignal }, 0)

/-- `vk_kern_dispatch_proc`, after `vk_kern_execute_proc` has returned `rc`.  There is a
heap to be left or freed if the process is a zombie or isolated. -/
def dispatchProc (x : ReportKern) (p : Nat) (rc : Int) (released : Bool) : ReportKern × Int :=
  if rc = -1 then (x, -1)
  else
    let k := x.k.flushProcQueues p
    if ((k.procs p).isZombie || (k.procs p).isolated) && !released then ({ x with k }, -1)
    else ({ x with k := x.k.afterExecute p }, 0)

/-- `vk_kern_postpoll` and `vk_kern_loop`, after `vk_kern_dispatch_proc` has returned
`rc`. -/
def postpoll (x : ReportKern) (rc : Int) : ReportKern :=
  if rc = -1 then
    { x with k := x.k.setStage .stop, postpolls := -1 :: x.postpolls, returned := some (-1) }
  else x

/-- All of these, `vk_proc_execute` of process `p` having returned `rc`. -/
def executed (x : ReportKern) (p : Nat) (rc : Int) (released : Bool) : ReportKern :=
  let (x, executeProc) := (x.executeMainline rc).executeProc
  let (x, dispatchProc) := x.dispatchProc p executeProc released
  { x with log := ⟨p, rc, executeProc, dispatchProc⟩ :: x.log }.postpoll dispatchProc

/-- `vk_proc_execute` of process `p`, from its beginning. -/
def execute (x : ReportKern) (p : Nat) (postpoll : Option Local) (released : Bool) : ReportKern :=
  match x.k.enterExecute p postpoll with
  | (k, some rc) => { x with k }.executed p rc released
  | (k, none) => { x with k }

/-- A step in which no process is executed.  Where the run queue is empty
`vk_kern_postpoll` returns, and so may `vk_kern_loop`. -/
def kernStep (x : ReportKern) (a : KernAct) (k : Kern) : ReportKern :=
  match a with
  | .dequeueRun =>
      if x.k.runProcs.isEmpty then
        { x with
          k
          postpolls := 0 :: x.postpolls
          returned := if k.stage = .stop then some 0 else none }
      else { x with k }
  | .pollError => { x with k, returned := some (-1) }
  | _ => { x with k }

/-- `vk_kern_dispatch_proc` and `vk_kern_execute_proc`, up to `vk_proc_execute`. -/
def enter (x : ReportKern) (p : Nat) (kernHd : Heap) : ReportKern :=
  { x with
    k := { x.k.heapEnter p with kernHd := kernHd, dispatched := p :: x.k.dispatched }
    jumper := .procExecute p }

/-- `vk_proc_execute_jumper`, up to `vk_proc_execute`. -/
def reenter (x : ReportKern) (p : Nat) : ReportKern :=
  { x with k := ((x.k.kernEnter).heapEnter p).touch p }

def step : ReportAct → ReportKern → Option ReportKern
  | .kern a, x => if a.executes then none else (Kern.step a x.k).map (x.kernStep a)
  | .dispatch kernHd postpoll entered released, x =>
      match x.k.stage with
      | .taken p =>
          if entered then some ((x.enter p kernHd).execute p postpoll released)
          else some (x.postpoll (-1))
      | _ => none
  | .fault postpoll released, x =>
      match x.k.stage with
      | .running _ =>
          match x.jumper with
          | .procExecute p => some ((x.reenter p).execute p postpoll released)
          -- `exit(1)`
          | .kernSignal => some { x with k := x.k.setStage .stop }
      | _ => none
  | .leave rc released, x =>
      match x.k.stage with
      | .running p =>
          let left := x.k.leaveExecute p rc
          some ({ x with k := left.1 }.executed p left.2 released)
      | _ => none

/-- What a step does. -/
inductive Steps (x : ReportKern) : ReportAct → ReportKern → Prop
  | kern (a : KernAct) (k : Kern) (hquiet : a.executes = false) (hk : Kern.step a x.k = some k) :
      Steps x (.kern a) (x.kernStep a k)
  | dispatch (p : Nat) (kernHd : Heap) (postpoll : Option Local) (released : Bool)
      (hst : x.k.stage = .taken p) :
      Steps x (.dispatch kernHd postpoll true released) ((x.enter p kernHd).execute p postpoll released)
  | refused (p : Nat) (kernHd : Heap) (postpoll : Option Local) (released : Bool)
      (hst : x.k.stage = .taken p) :
      Steps x (.dispatch kernHd postpoll false released) (x.postpoll (-1))
  | fault (p q : Nat) (postpoll : Option Local) (released : Bool) (hst : x.k.stage = .running q)
      (hjumper : x.jumper = .procExecute p) :
      Steps x (.fault postpoll released) ((x.reenter p).execute p postpoll released)
  | exit (q : Nat) (postpoll : Option Local) (released : Bool) (hst : x.k.stage = .running q)
      (hjumper : x.jumper = .kernSignal) :
      Steps x (.fault postpoll released) { x with k := x.k.setStage .stop }
  | leave (p : Nat) (rc : Int) (released : Bool) (hst : x.k.stage = .running p) :
      Steps x (.leave rc released)
        ({ x with k := (x.k.leaveExecute p rc).1 }.executed p (x.k.leaveExecute p rc).2 released)

theorem steps_of_step {a : ReportAct} {x x' : ReportKern} (h : step a x = some x') :
    Steps x a x' := by
  cases a with
  | kern a =>
      obtain ⟨hquiet, hk⟩ := Option.ite_none_left_eq_some.mp h
      obtain ⟨k, hk', rfl⟩ := Option.map_eq_some_iff.mp hk
      exact .kern a k (Bool.eq_false_iff.mpr hquiet) hk'
  | dispatch kernHd postpoll entered released =>
      simp only [step] at h
      cases hst : x.k.stage with
      | taken p =>
          rw [hst] at h
          cases entered with
          | true =>
              cases h
              exact .dispatch p kernHd postpoll released hst
          | false =>
              cases h
              exact .refused p kernHd postpoll released hst
      | fresh | dispatch | running q | prepoll | poll | stop =>
          rw [hst] at h
          cases h
  | fault postpoll released =>
      simp only [step] at h
      cases hst : x.k.stage with
      | running q =>
          rw [hst] at h
          cases hjumper : x.jumper with
          | procExecute p =>
              rw [hjumper] at h
              cases h
              exact .fault p q postpoll released hst hjumper
          | kernSignal =>
              have hx : x' = { x with k := x.k.setStage .stop } := by
                rw [hjumper] at h
                cases h
                rw [hjumper]
              rw [hx]
              exact .exit q postpoll released hst hjumper
      | fresh | dispatch | taken q | prepoll | poll | stop =>
          rw [hst] at h
          cases h
  | leave rc released =>
      simp only [step] at h
      cases hst : x.k.stage with
      | running p =>
          rw [hst] at h
          cases h
          exact .leave p rc released hst
      | fresh | dispatch | taken q | prepoll | poll | stop =>
          rw [hst] at h
          cases h

/-! ## The machine without the word -/

section Kernel
variable {x x' : ReportKern} {a : ReportAct}

/-- The step of the kernel. -/
def toKern : ReportAct → KernAct
  | .kern a => a
  | .dispatch kernHd postpoll _ _ => .dispatch kernHd postpoll
  | .fault postpoll _ => .fault postpoll
  | .leave rc _ => .leave rc

/-- The system refuses nothing. -/
def Permitted : ReportAct → Prop
  | .kern _ => True
  | .dispatch _ _ entered released => entered = true ∧ released = true
  | .fault _ released | .leave _ released => released = true

/-- While a process runs, a fault executes it again. -/
def Armed (x : ReportKern) : Prop := ∀ p, x.k.stage = .running p → x.jumper = .procExecute p

/-- The failure does not outlive the mainline. -/
theorem executeMainline_eq (x : ReportKern) (rc : Int) :
    x.executeMainline rc = { x with jumper := .kernSignal, rc := 0 } := by
  rw [executeMainline]
  split
  · rfl
  · rfl

theorem executeMainline_executeProc (x : ReportKern) (rc : Int) :
    (x.executeMainline rc).executeProc = (x.executeMainline rc, 0) := by
  rw [executeMainline_eq]
  rfl

/-- Where the system refuses nothing, what is left to do is done whatever
`vk_proc_execute` has returned. -/
theorem executed_k (x : ReportKern) (p : Nat) (rc : Int) :
    (x.executed p rc true).k = x.k.afterExecute p := by
  rw [executed, executeMainline_executeProc]
  dsimp only
  rw [dispatchProc, if_neg (by decide)]
  dsimp only
  rw [Bool.not_true, Bool.and_false, if_neg Bool.false_ne_true, executeMainline_eq]
  rfl

theorem execute_k (x : ReportKern) (p : Nat) (postpoll : Option Local) :
    (x.execute p postpoll true).k = x.k.execute p postpoll := by
  rw [Kern.execute_eq]
  unfold execute
  generalize x.k.enterExecute p postpoll = entered
  obtain ⟨k, _ | rc⟩ := entered
  · rfl
  · exact executed_k { x with k } p rc

/-- No process runs behind a dispatch. -/
theorem executed_stage (x : ReportKern) (p : Nat) (rc : Int) (released : Bool) (q : Nat) :
    (x.executed p rc released).k.stage ≠ .running q := by
  rw [executed, executeMainline_executeProc]
  dsimp only
  rw [dispatchProc, if_neg (by decide)]
  dsimp only
  split
  · nofun
  · nofun

theorem execute_armed {p : Nat} (hjumper : x.jumper = .procExecute p) (postpoll : Option Local)
    (released : Bool) : (x.execute p postpoll released).Armed := by
  intro q hq
  unfold execute at hq ⊢
  have hrunning : ∀ k, x.k.enterExecute p postpoll = (k, none) → k.stage = .running p := by
    intro k hk
    unfold Kern.enterExecute at hk
    cases hl : (x.k.procs p).localPtr with
    | none =>
        rw [hl] at hk
        cases hk
    | some l =>
        rw [hl] at hk
        dsimp only at hk
        cases hpoll : (if l.pl.runningCr.isSome then some { l with pl := l.pl.raiseSignal.1 }
            else postpoll) with
        | none =>
            rw [hpoll] at hk
            cases hk
        | some l' =>
            rw [hpoll] at hk
            cases hk
            rfl
  generalize x.k.enterExecute p postpoll = entered at hq hrunning ⊢
  obtain ⟨k, _ | rc⟩ := entered
  · cases (hrunning k rfl).symm.trans hq
    exact hjumper
  · exact absurd hq (executed_stage _ p rc released q)

theorem kernStep_k (x : ReportKern) (a : KernAct) (k : Kern) :
    (x.kernStep a k).k = k ∧ (x.kernStep a k).jumper = x.jumper ∧ (x.kernStep a k).log = x.log := by
  cases a with
  | dequeueRun =>
      rw [kernStep]
      split
      · exact ⟨rfl, rfl, rfl⟩
      · exact ⟨rfl, rfl, rfl⟩
  | dequeueFresh | signal | dispatch | compute | accept | fault | leave | prepoll | poll | pollError =>
      exact ⟨rfl, rfl, rfl⟩

theorem Armed.step (h : x.Armed) (hstep : step a x = some x') : x'.Armed := by
  cases steps_of_step hstep with
  | kern a k hquiet hk =>
      intro p hp
      obtain ⟨hk', hjumper, -⟩ := kernStep_k x a k
      rw [hk'] at hp
      exact hjumper.trans (h p (Kern.running_of_step hk hquiet hp))
  | dispatch p kernHd postpoll released hst => exact execute_armed rfl postpoll released
  | refused p kernHd postpoll released hst => nofun
  | fault p q postpoll released hst hjumper =>
      exact execute_armed (x := x.reenter p) hjumper postpoll released
  | exit q postpoll released hst hjumper => nofun
  | leave p rc released hst => exact fun q hq => absurd hq (executed_stage _ p _ released q)

/-- Where the system refuses nothing, a step is a step of the kernel. -/
theorem step_kern (h : x.Armed) (hok : Permitted a) (hstep : step a x = some x') :
    Kern.step (toKern a) x.k = some x'.k := by
  cases steps_of_step hstep with
  | kern a k hquiet hk =>
      rw [(kernStep_k x a k).1]
      exact hk
  | dispatch p kernHd postpoll released hst =>
      obtain ⟨-, rfl⟩ := hok
      simp only [toKern, Kern.step, hst]
      exact congrArg some (execute_k (x.enter p kernHd) p postpoll).symm
  | refused p kernHd postpoll released hst => cases hok.1
  | fault p q postpoll released hst hjumper =>
      cases hok
      obtain rfl : q = p := by
        have harmed := (h q hst).symm.trans hjumper
        exact Jumper.procExecute.inj harmed
      simp only [toKern, Kern.step, hst]
      exact congrArg some (execute_k (x.reenter q) q postpoll).symm
  | exit q postpoll released hst hjumper => cases (h q hst).symm.trans hjumper
  | leave p rc released hst =>
      cases hok
      simp only [toKern, Kern.step, hst]
      rw [Kern.leave_eq]
      exact congrArg some (executed_k { x with k := (x.k.leaveExecute p rc).1 } p _).symm

/-- So is a run. -/
theorem run_kern {as : List ReportAct} (h : x.Armed) (hok : ∀ a ∈ as, Permitted a)
    (hrun : run step as x = some x') : run Kern.step (as.map toKern) x.k = some x'.k := by
  induction as generalizing x with
  | nil =>
      cases hrun
      rfl
  | cons a as ih =>
      obtain ⟨y, hy, hrest⟩ := (run_cons step).mp hrun
      obtain ⟨hone, hall⟩ := List.forall_mem_cons.mp hok
      exact (run_cons Kern.step).mpr ⟨y.k, step_kern h hone hy, ih (h.step hy) hall hrest⟩

end Kernel

/-! ## What is told -/

section Steps
variable {x x' : ReportKern} {a : ReportAct}

theorem dispatchProc_log (x : ReportKern) (p : Nat) (rc : Int) (released : Bool) :
    (x.dispatchProc p rc released).1.log = x.log := by
  rw [dispatchProc]
  split
  · rfl
  · dsimp only
    split
    · rfl
    · rfl

@[simp] theorem postpoll_log (x : ReportKern) (rc : Int) : (x.postpoll rc).log = x.log := by
  rw [postpoll]
  split
  · rfl
  · rfl

/-- Whatever `vk_proc_execute` has returned, `vk_kern_execute_proc` returns 0. -/
theorem executed_log (x : ReportKern) (p : Nat) (rc : Int) (released : Bool) :
    ∃ d, (x.executed p rc released).log = ⟨p, rc, 0, d⟩ :: x.log := by
  refine ⟨((x.executeMainline rc).dispatchProc p 0 released).2, ?_⟩
  rw [executed, executeMainline_executeProc]
  dsimp only
  rw [postpoll_log, dispatchProc_log, executeMainline_eq]

theorem execute_log (x : ReportKern) (p : Nat) (postpoll : Option Local) (released : Bool) :
    ((x.execute p postpoll released).log = x.log ∧ x.k.postpollFails p postpoll = false) ∨
      ∃ rc d, (x.execute p postpoll released).log = ⟨p, rc, 0, d⟩ :: x.log ∧
        (rc = -1 ↔ x.k.postpollFails p postpoll = true) := by
  have hfails := x.k.enterExecute_fails_iff p postpoll
  unfold execute
  generalize x.k.enterExecute p postpoll = entered at hfails ⊢
  obtain ⟨k, _ | rc⟩ := entered
  · refine Or.inl ⟨rfl, Bool.eq_false_iff.mpr fun htrue => ?_⟩
    cases hfails.mpr htrue
  · obtain ⟨d, hlog⟩ := executed_log { x with k } p rc released
    refine Or.inr ⟨rc, d, hlog, ?_⟩
    rw [← hfails, Option.some_inj]

/-- No process fails in this step: `vk_proc_postpoll`, if it is called, does not, and the
executor does not. -/
def Healthy : ReportAct → ReportKern → Prop
  | .kern _, _ => True
  | .dispatch _ postpoll entered _, x =>
      ∀ p, x.k.stage = .taken p → entered = true → x.k.postpollFails p postpoll = false
  | .fault postpoll _, x =>
      ∀ p, x.jumper = .procExecute p → x.k.postpollFails p postpoll = false
  | .leave rc _, _ => rc ≠ -1

/-- A step executes no process, or one process, and then `vk_kern_execute_proc` returns 0
though it has failed. -/
theorem step_log (h : step a x = some x') : (x'.log = x.log ∧ Healthy a x) ∨
    ∃ p rc d, x'.log = ⟨p, rc, 0, d⟩ :: x.log ∧ (rc = -1 ↔ ¬Healthy a x) := by
  -- `vk_proc_execute` from its beginning, the process having its memory
  have hexecute : ∀ (y : ReportKern) (p : Nat) (postpoll : Option Local) (released : Bool)
      (q : Prop), y.log = x.log → (y.k.procs p).localPtr = (x.k.procs p).localPtr →
      (x.k.postpollFails p postpoll = false ↔ q) →
      ((y.execute p postpoll released).log = x.log ∧ q) ∨
        ∃ p' rc d, (y.execute p postpoll released).log = ⟨p', rc, 0, d⟩ :: x.log ∧ (rc = -1 ↔ ¬q) := by
    intro y p postpoll released q hlog hlocal hq
    have hsame := Kern.postpollFails_congr hlocal postpoll
    rw [← hlog, ← hq, ← hsame, Bool.not_eq_false]
    rcases y.execute_log p postpoll released with hnone | ⟨rc, d, hone⟩
    · exact Or.inl hnone
    · exact Or.inr ⟨p, rc, d, hone⟩
  cases steps_of_step h with
  | kern a k hquiet hk => exact Or.inl ⟨(kernStep_k x a k).2.2, trivial⟩
  | dispatch p kernHd postpoll released hst =>
      refine hexecute (x.enter p kernHd) p postpoll released _ rfl
        (Kern.heapEnter_localPtr x.k p p) ?_
      constructor
      · intro hgood q hq _
        rw [hst] at hq
        cases hq
        exact hgood
      · intro hgood
        exact hgood p hst rfl
  | refused p kernHd postpoll released hst =>
      exact Or.inl ⟨postpoll_log x (-1), fun q _ hentered => Bool.noConfusion hentered⟩
  | fault p q postpoll released hst hjumper =>
      refine hexecute (x.reenter p) p postpoll released _ rfl ?_ ?_
      · exact Kern.heapEnter_localPtr x.k.kernEnter p p
      · constructor
        · intro hgood r hr
          rw [hjumper] at hr
          cases hr
          exact hgood
        · intro hgood
          exact hgood p hjumper
  | exit q postpoll released hst hjumper =>
      refine Or.inl ⟨rfl, fun p hp => ?_⟩
      rw [hjumper] at hp
      cases hp
  | leave p rc released hst =>
      obtain ⟨d, hlog⟩ := executed_log { x with k := (x.k.leaveExecute p rc).1 } p
        (x.k.leaveExecute p rc).2 released
      refine Or.inr ⟨p, _, d, hlog, ?_⟩
      rw [Kern.leaveExecute_fails_iff]
      exact not_not.symm

/-- So a run of the kernel tells of no failure, and its dispatches have failed where a step
is not healthy. -/
theorem run_log {as : List ReportAct} (h : run step as x = some x')
    (hzero : ∀ d ∈ x.log, d.executeProc = 0) :
    (∀ d ∈ x'.log, d.executeProc = 0) ∧
      ((∀ d ∈ x'.log, d.execute ≠ -1) ↔ (∀ d ∈ x.log, d.execute ≠ -1) ∧ Meets step Healthy as x) := by
  induction as generalizing x with
  | nil =>
      cases h
      exact ⟨hzero, (and_iff_left trivial).symm⟩
  | cons a as ih =>
      obtain ⟨y, hy, hrun⟩ := (run_cons step).mp h
      have hmeets : Meets step Healthy (a :: as) x ↔ Healthy a x ∧ Meets step Healthy as y := by
        refine and_congr_right fun _ => ⟨fun hall => hall y hy, fun hone t ht => ?_⟩
        rw [hy] at ht
        cases ht
        exact hone
      rw [hmeets]
      rcases step_log hy with ⟨hlog, hgood⟩ | ⟨p, rc, d, hlog, hgood⟩
      · obtain ⟨hzero', hiff⟩ := ih hrun (by rw [hlog]; exact hzero)
        rw [hlog] at hiff
        exact ⟨hzero', hiff.trans (and_congr_right fun _ => (and_iff_right hgood).symm)⟩
      · obtain ⟨hzero', hiff⟩ := ih hrun (by
          rw [hlog]
          exact List.forall_mem_cons.mpr ⟨rfl, hzero⟩)
        refine ⟨hzero', hiff.trans ?_⟩
        have hne : rc ≠ -1 ↔ Healthy a x := (not_congr hgood).trans not_not
        rw [hlog, List.forall_mem_cons, ← hne]
        exact ⟨fun ⟨⟨h₁, h₂⟩, h₃⟩ => ⟨h₂, h₁, h₃⟩, fun ⟨h₂, h₁, h₃⟩ => ⟨⟨h₁, h₂⟩, h₃⟩⟩

end Steps

/-- Every process that fails is told of, by each of the functions that have dispatched it,
and of no other. -/
structure Reported (x : ReportKern) : Prop where
  told : ∀ d ∈ x.log, d.execute = -1 → d.executeProc = -1 ∧ d.dispatchProc = -1 ∧
    x.postpolls.head? = some (-1) ∧ x.returned = some (-1)
  fresh : ∀ d ∈ x.log, d.execute ≠ -1 → d.executeProc ≠ -1

/-- **Failures of processes.**  Whatever is in the status word when the loop begins, the
failures of the processes that a run has executed are told, and no failure is told that was
not there, if and only if no process fails in the run. -/
theorem failures_reported_iff {as : List ReportAct} {x₀ x : ReportKern} (hlog : x₀.log = [])
    (hrun : run step as x₀ = some x) : x.Reported ↔ Meets step Healthy as x₀ := by
  have hnone : ∀ {q : DispatchReport → Prop}, ∀ d ∈ x₀.log, q d := by
    rw [hlog]
    exact fun d hd => absurd hd List.not_mem_nil
  obtain ⟨hzero, hiff⟩ := run_log hrun hnone
  rw [and_iff_right hnone] at hiff
  rw [← hiff]
  constructor
  · intro h d hd hfail
    obtain ⟨htold, -⟩ := h.told d hd hfail
    rw [hzero d hd] at htold
    cases htold
  · intro h
    refine ⟨fun d hd hfail => absurd hfail (h d hd), fun d hd _ => ?_⟩
    rw [hzero d hd]
    decide

/-- Before the loop; nothing has been stored in the word yet. -/
def start (k : Kern) : ReportKern := ⟨k, 0, .kernSignal, [], [], none⟩

/-- The first process is dispatched, and its executor returns `rc`. -/
def firstReturns (rc : Int) : List ReportAct :=
  [.kern .dequeueFresh, .kern .dequeueRun, .dispatch Heap.cleared (some Kern.readingLocal) true true,
    .leave rc true]

/-- It returns 0. -/
theorem failures_reported_iff_ok : ∃ x,
    run step (firstReturns 0) (start (Kern.boot (Kern.smallBoot false false))) = some x ∧
      x.log = [⟨0, 0, 0, 0⟩] ∧ x.Reported := by
  obtain ⟨x, hx, hlog⟩ := (Option.any_eq_true _ _).mp (by decide +kernel :
    (run step (firstReturns 0) (start (Kern.boot (Kern.smallBoot false false)))).any
      (fun x => decide (x.log = [⟨0, 0, 0, 0⟩])) = true)
  refine ⟨x, hx, of_decide_eq_true hlog, (failures_reported_iff rfl hx).mpr ?_⟩
  refine ⟨trivial, fun _ _ => ⟨trivial, fun _ _ => ⟨fun p _ _ => ?_, fun _ _ => ⟨?_, ?_⟩⟩⟩⟩
  · exact Kern.postpollFails_some _ p _
  · show (0 : Int) ≠ -1
    decide
  · exact fun _ _ => trivial

/-- It returns -1, and the kernel goes on. -/
theorem failure_forgotten : ¬∀ (as : List ReportAct) (x : ReportKern),
    run step as (start (Kern.boot (Kern.smallBoot false false))) = some x → x.Reported := by
  intro h
  obtain ⟨x, hx, hlog⟩ := (Option.any_eq_true _ _).mp (by decide +kernel :
    (run step (firstReturns (-1)) (start (Kern.boot (Kern.smallBoot false false)))).any
      (fun x => decide (x.log = [⟨0, -1, 0, 0⟩])) = true)
  have hone : ⟨0, -1, 0, 0⟩ ∈ x.log := by
    rw [of_decide_eq_true hlog]
    exact List.mem_singleton_self _
  obtain ⟨htold, -⟩ := (h _ x hx).told _ hone rfl
  cases htold

end ReportKern

end Vk

/-
# `Mnvkd.FdClose` — closing descriptors

A descriptor is closed where a coroutine closes a side of a socket that leads to
it, and nowhere else: the poller and the end of a process give up the slots of
its descriptors and no longer close them.  Nor does anything look whether a
descriptor has been closed before.  So a descriptor that a process has had is
closed as often as its coroutines have done so: not at all where they end
without, twice where they close both sides of a socket on one descriptor, and
again where a close that found its ring blocked is retried.

    FdState.Tidy     only a process that ends gives up slots
    closed_once      descriptors whose processes take care are closed once
-/
import Mnvkd.KernDrivers
import Mnvkd.Machine

namespace Vk

open Lib

/-! ## The calls of close -/

namespace ProcLocal

variable (pl : ProcLocal) (s : Nat)

/-- The descriptor `vk_socket_handler` calls `close(2)` on, for the operation of
socket `s`. -/
def closeCall : Option Int :=
  match (pl.sockets s).block.op with
  | .txClose => match (pl.sockets s).txFd.ref with | .osFd fd => some fd | _ => none
  | .rxClose => match (pl.sockets s).rxFd.ref with | .osFd fd => some fd | _ => none
  | _ => none

end ProcLocal

namespace Machine

/-- The descriptor a step calls `close(2)` on: what it applies is the operation of
the socket it retries, or of the one a thread that has come back waits for. -/
def closeCall (m : Machine) (a : Act) : Option Int :=
  match m.stage, a with
  | .kernel, .retry s _ => m.pl.closeCall s
  | .back t, .unblock _ =>
      if (m.pl.threads t).status = .wait then
        (m.pl.threads t).waitingSocketPtr.bind m.pl.closeCall
      else none
  | _, _ => none

end Machine

/-! ## Giving up slots -/

namespace Polled

/-- The process has all the slots it had. -/
def Retains (st st' : Polled) : Prop := ∀ i ∈ st.proc.allocatedFds, i ∈ st'.proc.allocatedFds

variable {st st' st'' : Polled}

theorem Retains.refl (st : Polled) : Retains st st := fun _ => id

theorem Retains.trans (h : Retains st st') (h' : Retains st' st'') : Retains st st'' :=
  fun i hi => h' i (h i hi)

theorem retains_prepollBlockedFd (st : Polled) (s : Nat) (ioft : IoFuture) :
    Retains st (st.prepollBlockedFd s ioft) := by
  have halloc : ∀ i fd, Retains st (if (st.tbl.fds i).allocated then st else (st.allocateFd i fd).1) := by
    intro i fd
    split
    · exact Retains.refl st
    · rename_i hnot
      rw [allocateFd, if_neg hnot]
      exact fun j hj => List.mem_cons_of_mem i hj
  unfold prepollBlockedFd
  cases st.tbl.get ioft.event.fd with
  | none => exact Retains.refl st
  | some i =>
      dsimp only
      split
      · exact halloc i _
      · exact halloc i _

theorem retains_prepollBlockedSocket (st : Polled) (s : Nat) :
    Retains st (st.prepollBlockedSocket s) := by
  have hside : ∀ (st : Polled) (c : Prop) [Decidable c] (ioft : IoFuture),
      Retains st (if c then st.prepollBlockedFd s ioft else st) := by
    intro st c _ ioft
    split
    · exact retains_prepollBlockedFd st s ioft
    · exact Retains.refl st
  exact (hside st _ _).trans (hside _ _ _)

theorem retains_prepollBlockedSockets (ss : List Nat) (st : Polled) :
    Retains st (ss.foldl prepollBlockedSocket st) := by
  induction ss generalizing st with
  | nil => exact Retains.refl st
  | cons s ss ih => exact (retains_prepollBlockedSocket st s).trans (ih _)

/-- Slots that are not closed are not given up. -/
theorem reapClosed_foldl_of_open (is : List Nat) (h : ∀ i ∈ is, (st.tbl.fds i).closed = false) :
    is.foldl reapClosed st = st := by
  induction is with
  | nil => rfl
  | cons i is ih =>
      have hi : st.reapClosed i = st := by
        rw [reapClosed, if_neg]
        rw [h i List.mem_cons_self]
        exact Bool.false_ne_true
      rw [List.foldl_cons, hi]
      exact ih fun j hj => h j (List.mem_cons_of_mem i hj)

/-- So the prepoll of a process none of whose slots is closed gives up none. -/
theorem retains_prepoll (h : ∀ i ∈ st.proc.allocatedFds, (st.tbl.fds i).closed = false) :
    Retains st st.prepoll := by
  rw [prepoll, reapClosed_foldl_of_open _ h]
  exact retains_prepollBlockedSockets _ st

end Polled

namespace FdState

/-- The lists agree with the slots, and a slot that is to be closed is a zombie's. -/
structure Tidy (s : FdState) : Prop where
  lists : s.table.Lists s.fds
  shut : ∀ i, (s.table.tbl.fds i).shut = true → (s.table.tbl.fds i).zombie = true

variable {s s' : FdState}

theorem Tidy.step (h : s.Tidy) {a : FdAct} (hst : FdState.step a s = some s') : s'.Tidy := by
  refine ⟨lists_step h.lists hst, ?_⟩
  cases a with
  | prepoll p pl =>
      obtain rfl := Option.some.inj hst
      exact (Polled.tends_prepoll (s.polled p pl) h.shut).1
  | prepollZombie p =>
      obtain rfl := Option.some.inj hst
      exact (Polled.tends_prepollZombie (s.polled p ProcLocal.init) h.shut).1
  | wait driver pending answer =>
      obtain rfl := Option.some.inj hst
      intro i hi
      have halike := (s.wait.edits_wait driver pending answer).alike i
      refine halike.zombie.trans ?_
      exact (halike.shut hi).elim (h.shut i) id
  | dequeueFresh =>
      obtain rfl := Option.some.inj hst
      intro i
      show (s.table.dequeueFresh.tbl.fds i).shut = true → (s.table.dequeueFresh.tbl.fds i).zombie = true
      rw [PollTable.dequeueFresh_tbl]
      exact h.shut i

theorem tidy_init (size : Nat) : (init size).Tidy := ⟨lists_init size, nofun⟩

/-- The slots of a process that has not ended are not closed. -/
theorem Tidy.open (h : s.Tidy) {p i : Nat} (hi : i ∈ s.fds p) :
    (s.table.tbl.fds i).closed = false := by
  have hallocated := (h.lists.attached.owned p i hi).1
  have hzombie := h.lists.attached.zombie i hallocated
  rw [← Bool.not_eq_true]
  intro hclosed
  rw [h.shut i (Bool.or_eq_true_iff.mpr (Or.inl hclosed))] at hzombie
  cases hzombie

/-- A process that prepolls keeps its slots. -/
theorem Tidy.retains (h : s.Tidy) (p : Nat) (pl : ProcLocal) :
    ∀ i ∈ s.fds p, i ∈ (s.setPolled p (s.polled p pl).prepoll).fds p := by
  intro i hi
  show i ∈ Function.update s.fds p _ p
  rw [Function.update_self]
  have hopen : ∀ j ∈ (s.polled p pl).proc.allocatedFds,
      ((s.polled p pl).tbl.fds j).closed = false := fun j hj => h.open hj
  exact Polled.retains_prepoll hopen i hi

end FdState

/-! ## The machine -/

/-- The processes, their coroutines and the table.  History: of each process, the
descriptors `close(2)` has been called on and the slots that have been given up, since
it began. -/
structure Closings where
  fds : FdState
  procs : Nat → Option Machine
  closed : Nat → List Int
  released : Nat → List Nat

/-- A process begins, with any coroutines and sockets; it takes a step; the kernel
prepolls it, or ends it; the table is polled, and a fresh slot is taken. -/
inductive CloseAct where
  | begin (p : Nat) (m : Machine)
  | proc (p : Nat) (a : Act)
  | prepoll (p : Nat)
  | die (p : Nat)
  | wait (driver : Driver) (pending : Bool) (answer : Answer)
  | dequeueFresh

namespace Closings

def init (size : Nat) : Closings := ⟨FdState.init size, fun _ => none, fun _ => [], fun _ => []⟩

/-- The table after an operation for process `p`, with the slots that it gave up. -/
def setFds (s : Closings) (p : Nat) (fds : FdState) : Closings :=
  { s with
    fds := fds
    released := Function.update s.released p
      (s.released p ++ (s.fds.fds p).filter fun i => decide (i ∉ fds.fds p)) }

/-- `vk_kern_dispatch_proc` ends a process that has nothing to run and nothing
blocked. -/
def Ended (m : Machine) : Prop := m.stage = .kernel ∧ m.pl.run = false ∧ m.pl.blocked = false

instance (m : Machine) : Decidable (Ended m) := inferInstanceAs (Decidable (_ ∧ _ ∧ _))

def step : CloseAct → Closings → Option Closings
  | .begin p m, s =>
      match s.procs p with
      | none => some { s with
          procs := Function.update s.procs p (some m)
          closed := Function.update s.closed p []
          released := Function.update s.released p [] }
      | some _ => none
  | .proc p a, s =>
      (s.procs p).bind fun m => (Machine.step a m).map fun m' => { s with
        procs := Function.update s.procs p (some m')
        closed := Function.update s.closed p ((m.closeCall a).toList ++ s.closed p) }
  | .prepoll p, s =>
      (s.procs p).bind fun m =>
        if m.stage = .kernel then (FdState.step (.prepoll p m.pl) s.fds).map (s.setFds p) else none
  | .die p, s =>
      (s.procs p).bind fun m =>
        if Ended m then
          (FdState.step (.prepollZombie p) s.fds).map fun fds =>
            { s.setFds p fds with procs := Function.update s.procs p none }
        else none
  | .wait driver pending answer, s =>
      (FdState.step (.wait driver pending answer) s.fds).map fun fds => { s with fds := fds }
  | .dequeueFresh, s => (FdState.step .dequeueFresh s.fds).map fun fds => { s with fds := fds }

/-! ## Closing once -/

/-- What the coroutines have to see to.  A close is not applied to a side whose
descriptor they have closed, be it through the other side, another socket or
before; and the process does not end with a descriptor in the table that they have
not closed. -/
def TakesCare : CloseAct → Closings → Prop
  | .proc p a, s => ∀ m ∈ s.procs p, ∀ fd ∈ m.closeCall a, fd ∉ s.closed p
  | .die p, s => ∀ i ∈ s.fds.fds p, (i : Int) ∈ s.closed p
  | _, _ => True

instance : (a : CloseAct) → (s : Closings) → Decidable (TakesCare a s)
  | .proc p a, s =>
      inferInstanceAs (Decidable (∀ m ∈ s.procs p, ∀ fd ∈ m.closeCall a, fd ∉ s.closed p))
  | .die p, s => inferInstanceAs (Decidable (∀ i ∈ s.fds.fds p, (i : Int) ∈ s.closed p))
  | .begin .., _ | .prepoll _, _ | .wait .., _ | .dequeueFresh, _ => isTrue trivial

/-- No descriptor is closed twice, and those that have been given up were closed. -/
structure Careful (s : Closings) : Prop where
  tidy : s.fds.Tidy
  nodup : ∀ p, (s.closed p).Nodup
  released : ∀ p, ∀ i ∈ s.released p, (i : Int) ∈ s.closed p

variable {s s' : Closings}

/-- An operation of the table that gives up only closed descriptors. -/
theorem Careful.setFds (h : s.Careful) {p : Nat} {fds : FdState} (htidy : fds.Tidy)
    (hgiven : ∀ i ∈ s.fds.fds p, i ∉ fds.fds p → (i : Int) ∈ s.closed p) :
    (s.setFds p fds).Careful := by
  refine ⟨htidy, h.nodup, fun q i hi => ?_⟩
  by_cases hq : q = p
  · subst q
    change i ∈ Function.update s.released p _ p at hi
    rw [Function.update_self] at hi
    rcases List.mem_append.mp hi with hi | hi
    · exact h.released p i hi
    · rw [List.mem_filter, decide_eq_true_eq] at hi
      exact hgiven i hi.1 hi.2
  · change i ∈ Function.update s.released p _ q at hi
    rw [Function.update_of_ne hq] at hi
    exact h.released q i hi

theorem Careful.step (h : s.Careful) {a : CloseAct} (hC : TakesCare a s)
    (hst : Closings.step a s = some s') : s'.Careful := by
  cases a with
  | begin p m =>
      simp only [Closings.step] at hst
      split at hst
      · obtain rfl := Option.some.inj hst
        refine ⟨h.tidy, fun q => ?_, fun q i hi => ?_⟩
        · show (Function.update s.closed p [] q).Nodup
          rw [Function.update_apply]
          split
          · exact List.nodup_nil
          · exact h.nodup q
        · by_cases hq : q = p
          · subst q
            simp only [Function.update_self, List.not_mem_nil] at hi
          · simp only [Function.update_of_ne hq] at hi ⊢
            exact h.released q i hi
      · cases hst
  | proc p a =>
      obtain ⟨m, hm, hst⟩ := Option.bind_eq_some_iff.mp hst
      obtain ⟨m', -, rfl⟩ := Option.map_eq_some_iff.mp hst
      refine ⟨h.tidy, fun q => ?_, fun q i hi => ?_⟩
      · show (Function.update s.closed p ((m.closeCall a).toList ++ s.closed p) q).Nodup
        rw [Function.update_apply]
        split
        · cases hcall : m.closeCall a with
          | none => exact h.nodup p
          | some fd => exact List.nodup_cons.mpr ⟨hC m hm fd hcall, h.nodup p⟩
        · exact h.nodup q
      · show (i : Int) ∈ Function.update s.closed p ((m.closeCall a).toList ++ s.closed p) q
        have hclosed := h.released q i hi
        rw [Function.update_apply]
        split
        · subst q
          exact List.mem_append_right _ hclosed
        · exact hclosed
  | prepoll p =>
      obtain ⟨m, -, hst⟩ := Option.bind_eq_some_iff.mp hst
      obtain ⟨-, hst⟩ := Option.ite_none_right_eq_some.mp hst
      obtain ⟨fds, hfds, rfl⟩ := Option.map_eq_some_iff.mp hst
      refine h.setFds (h.tidy.step hfds) fun i hi hnot => absurd ?_ hnot
      obtain rfl := Option.some.inj hfds
      exact h.tidy.retains p m.pl i hi
  | die p =>
      obtain ⟨m, -, hst⟩ := Option.bind_eq_some_iff.mp hst
      obtain ⟨-, hst⟩ := Option.ite_none_right_eq_some.mp hst
      obtain ⟨fds, hfds, rfl⟩ := Option.map_eq_some_iff.mp hst
      have hset := h.setFds (h.tidy.step hfds) fun i hi _ => hC i hi
      exact ⟨hset.tidy, hset.nodup, hset.released⟩
  | wait driver pending answer =>
      obtain rfl := Option.some.inj hst
      have htidy := @FdState.Tidy.step _ _ h.tidy (.wait driver pending answer) rfl
      exact ⟨htidy, h.nodup, h.released⟩
  | dequeueFresh =>
      obtain rfl := Option.some.inj hst
      have htidy := @FdState.Tidy.step _ _ h.tidy .dequeueFresh rfl
      exact ⟨htidy, h.nodup, h.released⟩

theorem careful_init (size : Nat) : (init size).Careful :=
  ⟨FdState.tidy_init size, fun _ => List.nodup_nil, nofun⟩

/-- In a run in which the coroutines take care, every descriptor of the table that a
process has given up has been closed exactly once. -/
theorem closed_once {size : Nat} {as : List CloseAct} (hrun : run step as (init size) = some s)
    (hC : Meets step TakesCare as (init size)) (p : Nat) :
    ∀ i ∈ s.released p, (s.closed p).count (i : Int) = 1 := by
  intro i hi
  have h := run_of_meets (fun _ _ _ h hC hst => Careful.step h hC hst) (careful_init size) hC hrun
  exact List.count_eq_one_of_mem (h.nodup p) (h.released p i hi)

/-! ## A connection -/

/-- The system takes a byte, and closes. -/
def taken : Os := ⟨.ok [], .ok 1, .ok [], .ok (), .ok ()⟩

/-- The process of `connection`, registered; what it waits to send has gone, and its
thread runs. -/
def connected : List CloseAct :=
  [.begin 0 ⟨connection, fun _ => none, .kernel⟩, .prepoll 0, .proc 0 (.retry 0 taken),
    .proc 0 .start, .proc 0 .exec, .proc 0 .exec]

/-- The thread ends, and its process with it. -/
def ends : List CloseAct :=
  [.proc 0 (.co (.stop .ended)), .proc 0 (.unblock taken), .proc 0 .exec, .proc 0 .exec,
    .proc 0 .exec, .die 0]

/-- It closes side `op` of the socket. -/
def closes (op : Op) : List CloseAct :=
  [.proc 0 (.co (.call (.once 0 op))), .proc 0 (.co .turn), .proc 0 (.unblock taken), .proc 0 .exec,
    .proc 0 (.co .turn)]

theorem closed_once_connection :
    ∃ s, run step (connected ++ closes .txClose ++ ends) (init 8) = some s ∧ s.released 0 = [3] ∧
      ∀ i ∈ s.released 0, (s.closed 0).count (i : Int) = 1 := by
  obtain ⟨s, hs, hreleased⟩ := (Option.any_eq_true _ _).mp (by decide +kernel :
    (run step (connected ++ closes .txClose ++ ends) (init 8)).any
      (fun s => decide (s.released 0 = [3])) = true)
  exact ⟨s, hs, of_decide_eq_true hreleased, closed_once hs (by decide +kernel) 0⟩

/-- If it closes neither side, its descriptor stays open. -/
theorem unclosed_descriptor_leaks :
    ¬∀ (size : Nat) (as : List CloseAct) (s : Closings), run step as (init size) = some s →
      ∀ p, ∀ i ∈ s.released p, (s.closed p).count (i : Int) = 1 := fun h => by
  obtain ⟨s, hs, hleaks⟩ := (Option.any_eq_true _ _).mp (by decide +kernel :
    (run step (connected ++ ends) (init 8)).any
      (fun s => decide (3 ∈ s.released 0 ∧ (s.closed 0).count 3 = 0)) = true)
  obtain ⟨hmem, hcount⟩ := of_decide_eq_true hleaks
  have hone := h 8 _ s hs 0 3 hmem
  rw [show ((3 : Nat) : Int) = 3 from rfl, hcount] at hone
  cases hone

/-- If it closes both, its descriptor is closed twice; and so it is where the socket
was left blocked by the close and is retried. -/
example :
    (run step (connected ++ closes .txClose ++ closes .rxClose ++ ends) (init 8)).map
        (fun s => s.closed 0) = some [3, 3] ∧
      (run step (connected ++ closes .txClose ++ [.proc 0 (.co (.stop .yield)),
          .proc 0 (.unblock taken), .proc 0 .exec, .proc 0 .exec, .proc 0 .exec,
          .proc 0 (.retry 0 taken)]) (init 8)).map (fun s => s.closed 0) = some [3, 3] := by
  decide +kernel

end Closings

end Vk

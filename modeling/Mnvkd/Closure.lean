/-
# `Mnvkd.Closure` — what becomes of a closed connection

The closed flags of a socket's two rings go to its pipes, and from the pipes to the
futures of its block.  `vk_fd_table_prepoll_blocked_fd` is to take them on to the
slot, so that `vk_fd_table_clean_fd` marks the slot closed and `vk_proc_prepoll` gives
it up; but it makes the slot's future anew, takes the descriptor and the events from
the socket's, and asks whether the new future is closed.  It never is:

    handleBlock_closed          the futures of the block are closed
    prepollBlockedFd_ioftPre    the future of the slot is open
    closure_never_propagates    no process that lives gives up a slot

So a slot that a process has had registered is its own until it ends.
-/
import Mnvkd.FdClose
import Mnvkd.Wakes

namespace Vk

open Lib

/-! ## Registration -/

namespace ProcLocal

/-- Both futures of the socket's block are closed. -/
def Told (socket : Socket) : Prop :=
  socket.block.ioftRxPre.rxClosed = true ∧ socket.block.ioftTxPre.txClosed = true

/-- Marking a side and queueing the socket leaves the closed flags. -/
theorem told_side {pl : ProcLocal} {k : Nat} (p : Prop) [Decidable p] {f g : Socket → Socket}
    (hf : ∀ socket, Told socket → Told (f socket)) (hg : ∀ socket, Told socket → Told (g socket))
    (h : Told (pl.sockets k)) :
    Told ((if p then (pl.updSocket k f).enqueueBlocked k else pl.updSocket k g).sockets k) := by
  have hmarked : ∀ {f : Socket → Socket}, (∀ socket, Told socket → Told (f socket)) →
      Told ((pl.updSocket k f).sockets k) := fun hf => by
    rw [updSocket_sockets_self]
    exact hf _ h
  split
  next =>
    rcases enqueueBlocked_cases (pl.updSocket k f) k with ⟨-, -, hsockets⟩ | ⟨-, hsame⟩
    · rw [hsockets, updSocket_sockets_self]
      exact hmarked hf
    · rw [hsame]
      exact hmarked hf
  next => exact hmarked hg

/-- Where both rings of a socket that leads to descriptors are closed, so are the
futures of its block. -/
theorem handleBlock_closed (pl : ProcLocal) (k : Nat)
    (hfds : 0 ≤ (pl.sockets k).rxFd.getFd ∧ 0 ≤ (pl.sockets k).txFd.getFd)
    (hclosed : (pl.sockets k).rx.closed = true ∧ (pl.sockets k).tx.closed = true) :
    Told ((pl.handleBlock k).sockets k) := by
  have hforward : Told ((pl.updSocket k forwardClosed).sockets k) := by
    rw [updSocket_sockets_self]
    simp only [Told, forwardClosed, hfds.1, hfds.2, hclosed.1, hclosed.2, decide_true, Bool.and_self,
      Bool.or_true, and_self]
  simp only [handleBlock]
  refine told_side _ (fun _ h => h) (fun _ h => h) ?_
  exact told_side _ (fun _ h => h) (fun _ h => h) hforward

end ProcLocal

namespace Polled

variable {st : Polled} {s i : Nat} {ioft : IoFuture}

/-- Whatever the socket's future says is closed, that of the slot is open. -/
theorem prepollBlockedFd_ioftPre (hget : st.tbl.get ioft.event.fd = some i) :
    ((st.prepollBlockedFd s ioft).tbl.fds i).ioftPre.rxClosed = false ∧
      ((st.prepollBlockedFd s ioft).tbl.fds i).ioftPre.txClosed = false := by
  simp only [prepollBlockedFd, hget]
  split
  · have hpre : ∀ tbl : FdTable, ((tbl.enqueueDirty i).fds i).ioftPre = (tbl.fds i).ioftPre := by
      intro tbl
      simp only [FdTable.enqueueDirty]
      split
      · rfl
      · rw [FdTable.updFd_self]
    rw [hpre, FdTable.updFd_self]
    exact ⟨rfl, rfl⟩
  · rw [FdTable.updFd_self]
    exact ⟨rfl, rfl⟩

end Polled

/-! ## Slots of processes that live -/

namespace FdState

variable {s s' : FdState} {p i : Nat}

/-- Process `p` has slot `i`, and only processes that end give up slots. -/
structure Holds (s : FdState) (p i : Nat) : Prop where
  tidy : s.Tidy
  mem : i ∈ s.fds p

/-- It keeps the slot in every operation other than its own end. -/
theorem Holds.step (h : s.Holds p i) {a : FdAct} (ha : a ≠ .prepollZombie p)
    (hst : FdState.step a s = some s') : s'.Holds p i := by
  refine ⟨h.tidy.step hst, ?_⟩
  -- an operation for another process has no list to change but that process's
  have hother : ∀ (q : Nat) (st : Polled), p ≠ q → i ∈ (s.setPolled q st).fds p := by
    intro q st hne
    show i ∈ Function.update s.fds q _ p
    rw [Function.update_of_ne hne]
    exact h.mem
  cases a with
  | prepoll q pl =>
      obtain rfl := Option.some.inj hst
      rcases eq_or_ne p q with rfl | hne
      · exact h.tidy.retains p pl i h.mem
      · exact hother q _ hne
  | prepollZombie q =>
      obtain rfl := Option.some.inj hst
      refine hother q _ ?_
      rintro rfl
      exact ha rfl
  | wait driver pending answer =>
      obtain rfl := Option.some.inj hst
      exact h.mem
  | dequeueFresh =>
      obtain rfl := Option.some.inj hst
      exact h.mem

end FdState

/-- Socket `k` leads to descriptors, `i` is one of them, and both its rings are
closed. -/
def ProcLocal.Shut (pl : ProcLocal) (k i : Nat) : Prop :=
  (0 ≤ (pl.sockets k).rxFd.getFd ∧ 0 ≤ (pl.sockets k).txFd.getFd) ∧
    ((pl.sockets k).rxFd.getFd = i ∨ (pl.sockets k).txFd.getFd = i) ∧
    (pl.sockets k).rx.closed = true ∧ (pl.sockets k).tx.closed = true

instance (pl : ProcLocal) (k i : Nat) : Decidable (pl.Shut k i) :=
  inferInstanceAs (Decidable (_ ∧ _ ∧ _ ∧ _))

namespace Closings

variable {s s' : Closings} {p i : Nat}

/-- Process `p` lives and is in the kernel, has closed both rings of socket `k`, and
has slot `i` for a descriptor of that socket. -/
def Shut (s : Closings) (p k i : Nat) : Prop :=
  (∃ m ∈ s.procs p, m.stage = .kernel ∧ m.pl.Shut k i) ∧ i ∈ s.fds.fds p

instance (s : Closings) (p k i : Nat) : Decidable (s.Shut p k i) :=
  inferInstanceAs (Decidable (_ ∧ _))

/-- Slot `i` is marked closed, process `p` has given it up, and any process can have
it. -/
def Freed (s : Closings) (p i : Nat) : Prop :=
  (s.fds.table.tbl.fds i).closed = true ∧ i ∉ s.fds.fds p ∧
    (s.fds.table.tbl.fds i).allocated = false

/-- Slot `i` is open, and process `p` has it. -/
def Taken (s : Closings) (p i : Nat) : Prop :=
  (s.fds.table.tbl.fds i).closed = false ∧ i ∈ s.fds.fds p ∧
    (s.fds.table.tbl.fds i).allocated = true ∧ (s.fds.table.tbl.fds i).procId = p

instance (s : Closings) (p i : Nat) : Decidable (s.Freed p i) :=
  inferInstanceAs (Decidable (_ ∧ _ ∧ _))

theorem taken_of_holds (h : s.fds.Holds p i) : s.Taken p i :=
  ⟨h.tidy.open h.mem, h.mem, h.tidy.lists.attached.owned p i h.mem⟩

/-- A step leaves the table, or is one operation of it; the end of a process is the
only one that buries slots. -/
theorem fds_step {a : CloseAct} (hst : step a s = some s') :
    s'.fds = s.fds ∨ ∃ b, FdState.step b s.fds = some s'.fds ∧
      ∀ p, b = .prepollZombie p → a = .die p := by
  cases a with
  | begin q m =>
      simp only [step] at hst
      split at hst
      next =>
        obtain rfl := Option.some.inj hst
        exact Or.inl rfl
      next => cases hst
  | proc q a =>
      obtain ⟨m, -, hst⟩ := Option.bind_eq_some_iff.mp hst
      obtain ⟨m', -, rfl⟩ := Option.map_eq_some_iff.mp hst
      exact Or.inl rfl
  | prepoll q =>
      obtain ⟨m, -, hst⟩ := Option.bind_eq_some_iff.mp hst
      obtain ⟨-, hst⟩ := Option.ite_none_right_eq_some.mp hst
      obtain ⟨fds, hfds, rfl⟩ := Option.map_eq_some_iff.mp hst
      exact Or.inr ⟨_, hfds, fun _ hb => by cases hb⟩
  | die q =>
      obtain ⟨m, -, hst⟩ := Option.bind_eq_some_iff.mp hst
      obtain ⟨-, hst⟩ := Option.ite_none_right_eq_some.mp hst
      obtain ⟨fds, hfds, rfl⟩ := Option.map_eq_some_iff.mp hst
      refine Or.inr ⟨_, hfds, ?_⟩
      rintro p ⟨⟩
      rfl
  | wait driver pending answer =>
      obtain rfl := Option.some.inj hst
      exact Or.inr ⟨.wait driver pending answer, rfl, fun _ hb => by cases hb⟩
  | dequeueFresh =>
      obtain rfl := Option.some.inj hst
      exact Or.inr ⟨.dequeueFresh, rfl, fun _ hb => by cases hb⟩

theorem holds_step (h : s.fds.Holds p i) {a : CloseAct} (ha : a ≠ .die p)
    (hst : step a s = some s') : s'.fds.Holds p i := by
  rcases fds_step hst with hsame | ⟨b, hb, hdies⟩
  · exact hsame ▸ h
  · exact h.step (fun hb => ha (hdies p hb)) hb

/-- So in every run in which the process does not end. -/
theorem holds_run (h : s.fds.Holds p i) {as : List CloseAct} (has : .die p ∉ as)
    (hrun : run step as s = some s') : s'.fds.Holds p i := by
  induction as generalizing s with
  | nil =>
      obtain rfl := Option.some.inj hrun
      exact h
  | cons a as ih =>
      obtain ⟨t, ht, hrun⟩ := (run_cons step).mp hrun
      obtain ⟨ha, has⟩ := not_or.mp (mt List.mem_cons.mpr has)
      exact ih (holds_step h (Ne.symm ha) ht) has hrun

theorem tidy_of_run {size : Nat} {as : List CloseAct} (hrun : run step as (init size) = some s) :
    s.fds.Tidy := by
  refine run_induction (I := fun s => s.fds.Tidy) ?_ (FdState.tidy_init size) hrun
  intro a s s' h hst
  rcases fds_step hst with hsame | ⟨b, hb, -⟩
  · exact hsame ▸ h
  · exact h.step hb

/-- The prepoll of process `p` and the poll round after it. -/
def roundOf (p : Nat) (driver : Driver) (pending : Bool) (answer : Answer) : List CloseAct :=
  [.prepoll p, .wait driver pending answer]

/-- From a process in the kernel, a round goes through. -/
theorem round_isSome {m : Machine} (hm : m ∈ s.procs p) (hkernel : m.stage = .kernel)
    (driver : Driver) (pending : Bool) (answer : Answer) :
    ∃ s', run step (roundOf p driver pending answer) s = some s' := by
  have hprepoll : step (.prepoll p) s =
      some (s.setFds p (s.fds.setPolled p (s.fds.polled p m.pl).prepoll)) := by
    simp only [step, Option.mem_def.mp hm, Option.bind_some, if_pos hkernel]
    rfl
  refine ⟨_, (run_cons step).mpr ⟨_, hprepoll, rfl⟩⟩

/-- The round after both rings of a socket have been closed leaves its slot as it was;
and so does every other run, unless the process ends in it. -/
theorem closure_never_propagates {size : Nat} {as : List CloseAct} {k : Nat}
    (hrun : run step as (init size) = some s) (hshut : s.Shut p k i) :
    (∀ driver pending answer, ∃ s', run step (roundOf p driver pending answer) s = some s' ∧
      s'.Taken p i) ∧
    ∀ (bs : List CloseAct) (s' : Closings), .die p ∉ bs → run step bs s = some s' → s'.Taken p i := by
  obtain ⟨⟨m, hm, hkernel, -⟩, hmem⟩ := hshut
  have hholds : s.fds.Holds p i := ⟨tidy_of_run hrun, hmem⟩
  have hkept : ∀ (bs : List CloseAct) (s' : Closings), .die p ∉ bs → run step bs s = some s' →
      s'.Taken p i := fun bs s' hbs hrun => taken_of_holds (holds_run hholds hbs hrun)
  refine ⟨fun driver pending answer => ?_, hkept⟩
  obtain ⟨s', hs'⟩ := round_isSome hm hkernel driver pending answer
  exact ⟨s', hs', hkept _ s' (by simp [roundOf]) hs'⟩

/-! ## A connection that closes -/

/-- The process of `connection` closes both sides of its socket, and waits for
something else. -/
def shutConnection : List CloseAct :=
  connected ++ closes .txClose ++ closes .rxClose ++
    [.proc 0 (.co (.stop .yield)), .proc 0 (.unblock taken), .proc 0 .exec, .proc 0 .exec,
      .proc 0 .exec]

/-- The system reports nothing. -/
def quiet : Answer := ⟨some fun _ => 0, fun _ => true, fun _ => none, none⟩

theorem closure_never_propagates_connection :
    ∃ s s', run step shutConnection (init 8) = some s ∧
      run step (roundOf 0 .poll true quiet) s = some s' ∧
      s'.Taken 0 3 := by
  obtain ⟨s, hs, hshut⟩ := (Option.any_eq_true _ _).mp (by decide +kernel :
    (run step shutConnection (init 8)).any (fun s => decide (s.Shut 0 0 3)) = true)
  obtain ⟨s', hs', htaken⟩ :=
    (closure_never_propagates hs (of_decide_eq_true hshut)).1 .poll true quiet
  exact ⟨s, s', hs, hs', htaken⟩

/-- Its slot is not freed. -/
theorem shut_slot_stays :
    ¬∀ (size : Nat) (as : List CloseAct) (s s' : Closings) (p k i : Nat) (driver : Driver)
      (pending : Bool) (answer : Answer), run step as (init size) = some s → s.Shut p k i →
        run step (roundOf p driver pending answer) s = some s' → s'.Freed p i := fun h => by
  obtain ⟨s, hs, hround⟩ := (Option.any_eq_true _ _).mp (by decide +kernel :
    (run step shutConnection (init 8)).any (fun s => decide (s.Shut 0 0 3) &&
      (run step (roundOf 0 .poll true quiet) s).any fun s' => decide ¬s'.Freed 0 3) = true)
  obtain ⟨hshut, hround⟩ := (Bool.and_eq_true _ _).mp hround
  obtain ⟨s', hs', hnot⟩ := (Option.any_eq_true _ _).mp hround
  exact of_decide_eq_true hnot (h 8 _ s s' 0 0 3 _ _ _ hs (of_decide_eq_true hshut) hs')

end Closings

end Vk

/-
# `Mnvkd.Interest` — what a report leaves of what was asked for

The events a slot asks for are kept three times: as they are asked for, as they were
when the system was last told of the slot, and as they come back.
`vk_fd_table_process_fd` drops the events that have come back from those asked for,
and the slot from the dirty list when none is left.

It drops them with an exclusive or: an event that was registered and comes back, but is
no longer asked for, is not dropped but added.  The guard asks for no more than that
all that is asked for has come back, which it has where nothing is.

The driver for `poll(2)` registers what is asked for just before it polls, so that its
copies agree (`inBounds_poll`), and so does that for asynchronous I/O.  With
`epoll(7)` a report only consumes what is asked for exactly when what comes back of
the registered events is still asked for, unless some that is asked for does not come
back (`consumes_iff`).
-/
import Mnvkd.PollAgree

namespace Vk

open Lib

/-- The events `a` are among the events `b`. -/
def Events.Subset (a b : Events) : Prop := a &&& b = a

instance (a b : Events) : Decidable (a.Subset b) := inferInstanceAs (Decidable (_ = _))

theorem Events.subset_iff {a b : Events} :
    a.Subset b ↔ ∀ k, a.getLsbD k = true → b.getLsbD k = true := by
  constructor
  · intro h k hk
    have hand : (a &&& b).getLsbD k = true := by
      rw [h]
      exact hk
    rw [BitVec.getLsbD_and, Bool.and_eq_true] at hand
    exact hand.2
  · intro h
    refine BitVec.eq_of_getLsbD_eq fun k _ => ?_
    rw [BitVec.getLsbD_and]
    cases hk : a.getLsbD k with
    | false => rfl
    | true => rw [h k hk, Bool.and_true]

/-- A call of `vk_fd_table_process_fd`: the table it is made on, the slot, and the
events that are reported of it. -/
structure ProcessCall where
  w : WaitTable
  i : Nat
  revents : Events

namespace ProcessCall

variable (c : ProcessCall)

/-- The table after the call. -/
def result : WaitTable := c.w.processFd c.i c.revents

/-- What the slot asks for before the call. -/
def requested : Events := (c.w.slot c.i).ioftPre.event.events

/-- What it asks for after the call. -/
def left : Events := (c.result.slot c.i).ioftPre.event.events

/-- A call only consumes: it adds no event to those asked for, removes only such as are
reported, takes the slot off the dirty list exactly when none is left, and has nothing
to do with what other slots ask for. -/
structure OnlyConsumes : Prop where
  addsNone : c.left.Subset c.requested
  removesReported : (c.requested &&& ~~~c.left).Subset c.revents
  leaves : c.i ∈ c.w.table.tbl.dirtyFds → (c.i ∉ c.result.table.tbl.dirtyFds ↔ c.left = 0)
  others : ∀ j, j ≠ c.i → c.result.slot j = c.w.slot j

/-- Where all that is asked for is reported, what is reported of the registered events
is asked for. -/
def InBounds : Prop :=
  c.requested.Subset c.revents → (c.revents &&& c.w.post c.i).Subset c.requested

instance : Decidable c.InBounds := inferInstanceAs (Decidable (_ → _))

/-- What is left when all that is asked for is reported. -/
def rest : Events := c.requested ^^^ (c.revents &&& c.w.post c.i)

/-- A slot that asks for `events`. -/
def asking (events : Events) (slot : Fd) : Fd :=
  { slot with ioftPre := { slot.ioftPre with event := { slot.ioftPre.event with events := events } } }

/-- The slots after a call. -/
theorem result_tbl :
    c.result.table.tbl =
      if c.requested.Subset c.revents then
        let tbl := c.w.table.tbl.updFd c.i (asking c.rest)
        if c.rest = 0 then tbl.dropDirty c.i else tbl
      else c.w.table.tbl := by
  have hfresh := c.w.table.enqueueFresh_ite_tbl c.i c.revents
  simp only [result, WaitTable.processFd]
  generalize (if c.revents ≠ 0 then c.w.table.enqueueFresh c.i else c.w.table) = t at hfresh
  have hrequested : (t.tbl.fds c.i).ioftPre.event.events = c.requested := by
    rw [hfresh]
    rfl
  rw [hrequested]
  by_cases hall : c.requested.Subset c.revents
  · rw [if_pos hall, if_pos (show c.requested &&& c.revents = c.requested from hall),
      show c.requested ^^^ (c.revents &&& c.w.post c.i) = c.rest from rfl]
    simp only [WaitTable.setTable]
    split
    · exact congrArg (fun tbl : FdTable => (tbl.updFd c.i (asking c.rest)).dropDirty c.i) hfresh
    · exact congrArg (fun tbl : FdTable => tbl.updFd c.i (asking c.rest)) hfresh
  · rw [if_neg hall, if_neg (show ¬c.requested &&& c.revents = c.requested from hall)]
    exact hfresh

theorem dropDirty_ioftPre (tbl : FdTable) (i j : Nat) :
    ((tbl.dropDirty i).fds j).ioftPre = (tbl.fds j).ioftPre := by
  have hpre := congrArg Fd.ioftPre (PollTable.unqueued_dropDirty tbl i j)
  exact hpre

theorem left_eq : c.left = if c.requested.Subset c.revents then c.rest else c.requested := by
  show (c.result.table.tbl.fds c.i).ioftPre.event.events = _
  rw [result_tbl]
  by_cases hall : c.requested.Subset c.revents
  · simp only [if_pos hall]
    split
    · rw [dropDirty_ioftPre, FdTable.updFd_self]
      rfl
    · rw [FdTable.updFd_self]
      rfl
  · simp only [if_neg hall]
    rfl

theorem result_of_ne {j : Nat} (hj : j ≠ c.i) : c.result.slot j = c.w.slot j := by
  show c.result.table.tbl.fds j = c.w.table.tbl.fds j
  rw [result_tbl]
  split
  · dsimp only
    split
    · rw [FdTable.dropDirty_of_ne _ hj, FdTable.updFd_of_ne _ _ hj]
    · rw [FdTable.updFd_of_ne _ _ hj]
  · rfl

/-- A slot leaves its list exactly when nothing is left. -/
theorem leaves_iff {fds : Nat → List Nat} (h : c.w.table.Lists fds)
    (hdirty : c.i ∈ c.w.table.tbl.dirtyFds) : c.i ∉ c.result.table.tbl.dirtyFds ↔ c.left = 0 := by
  have hqed := h.attached.dirtyQed c.i hdirty
  have hgone : c.i ∉ c.w.table.tbl.dirtyFds.erase c.i := h.attached.dirtyNodup.not_mem_erase
  rw [result_tbl, left_eq]
  by_cases hall : c.requested.Subset c.revents
  · simp only [if_pos hall]
    split
    · rename_i hrest
      refine iff_of_true ?_ hrest
      rw [FdTable.dropDirty_dirtyFds, FdTable.updFd_self,
        if_pos (show (asking c.rest (c.w.table.tbl.fds c.i)).dirtyQed = true from hqed)]
      exact hgone
    · rename_i hrest
      exact iff_of_false (fun hnot => hnot hdirty) hrest
  · simp only [if_neg hall]
    refine iff_of_false (fun hnot => hnot hdirty) fun hnone => hall ?_
    rw [hnone]
    exact BitVec.zero_and

/-- A call only consumes if and only if it is in bounds. -/
theorem onlyConsumes_iff {fds : Nat → List Nat} (h : c.w.table.Lists fds) :
    c.OnlyConsumes ↔ c.InBounds := by
  have hbit : ∀ k, c.rest.getLsbD k =
      (c.requested.getLsbD k ^^ (c.revents.getLsbD k && (c.w.post c.i).getLsbD k)) := by
    intro k
    rw [rest, BitVec.getLsbD_xor, BitVec.getLsbD_and]
  constructor
  · intro hconsumes hall
    have hadds := hconsumes.addsNone
    rw [left_eq, if_pos hall] at hadds
    refine Events.subset_iff.mpr fun k hk => ?_
    by_contra hnot
    refine hnot (Events.subset_iff.mp hadds k ?_)
    rw [hbit, Bool.eq_false_iff.mpr hnot, ← BitVec.getLsbD_and, hk]
    rfl
  · intro hbounds
    refine ⟨?_, ?_, c.leaves_iff h, fun j => c.result_of_ne⟩
    · rw [left_eq]
      split
      · rename_i hall
        refine Events.subset_iff.mpr fun k hk => ?_
        by_contra hnot
        have hfalse := Bool.eq_false_iff.mpr hnot
        refine hnot (Events.subset_iff.mp (hbounds hall) k ?_)
        rw [hbit, hfalse, Bool.false_xor] at hk
        rw [BitVec.getLsbD_and]
        exact hk
      · exact Events.subset_iff.mpr fun k hk => hk
    · rw [left_eq]
      refine Events.subset_iff.mpr fun k hk => ?_
      rw [BitVec.getLsbD_and, Bool.and_eq_true] at hk
      split at hk
      · rename_i hall
        exact Events.subset_iff.mp hall k hk.1
      · rw [BitVec.getLsbD_not, hk.1] at hk
        simp at hk

/-- A call whose registered events are those asked for is in bounds. -/
theorem inBounds_of_registered (h : c.w.post c.i = c.requested) : c.InBounds := by
  intro _
  refine Events.subset_iff.mpr fun k hk => ?_
  rw [h, BitVec.getLsbD_and, Bool.and_eq_true] at hk
  exact hk.2

end ProcessCall

/-! ## The calls of a round -/

namespace WaitTable

variable (w : WaitTable)

/-- The calls that `dispatch` makes. -/
def dispatchCalls {ε : Type} (fd : ε → Int) (call : Nat → ε → WaitTable → ProcessCall)
    (body : Nat → ε → WaitTable → WaitTable) : List ε → WaitTable → List ProcessCall
  | [], _ => []
  | event :: events, w =>
      if fd event ∈ w.interest then
        match w.table.tbl.get (fd event) with
        | none => []
        | some i => call i event w :: dispatchCalls fd call body events (body i event w)
      else dispatchCalls fd call body events w

/-- What `poll(2)` returned is marked in the slot, with the events it was polled for. -/
def pollCall (i : Nat) (polled : Int × Events) (revents : Int → Events) (w : WaitTable) : ProcessCall :=
  ⟨w.setPost i polled.2, i, revents polled.1⟩

/-- The loop of `vk_fd_table_poll` over the poll array. -/
def pollFds (revents : Int → Events) : List (Int × Events) → WaitTable → WaitTable
  | [], w => w
  | polled :: rest, w =>
      match w.table.tbl.get polled.1 with
      | none => pollFds revents rest w
      | some i => pollFds revents rest (w.pollCall i polled revents).result

/-- The calls it makes. -/
def pollCalls (revents : Int → Events) : List (Int × Events) → WaitTable → List ProcessCall
  | [], _ => []
  | polled :: rest, w =>
      match w.table.tbl.get polled.1 with
      | none => pollCalls revents rest w
      | some i =>
          w.pollCall i polled revents :: pollCalls revents rest (w.pollCall i polled revents).result

/-- The calls of `vk_fd_table_process_fd` in a round of `vk_fd_table_wait`. -/
def processCalls (driver : Driver) (pending : Bool) (answer : Answer) : List ProcessCall :=
  match driver with
  | .poll =>
      match pending, answer.revents with
      | true, some revents => pollCalls revents w.table.pollArray (w.setTable w.table.clean)
      | _, _ => []
  | .epoll edge =>
      match w.epollRegister edge answer.accepts, answer.events with
      | (w, true), some events =>
          dispatchCalls Prod.fst (fun i event w => ⟨w, i, event.2⟩)
            (fun i event w => (w.processFd i event.2).cleanFd i) events w
      | _, _ => []
  | .kqueue _ => []
  | .aio =>
      match pending, answer.events with
      | true, some events =>
          dispatchCalls Prod.fst (fun i event w => ⟨w.register i, i, event.2⟩)
            (fun i event w => ((w.register i).processFd i event.2).cleanFd i) events
            (w.drain submitFd w.table.tbl.dirtyFds).1
      | _, _ => []

variable {w} {fds : Nat → List Nat}

/-- What holds of the calls of a dispatch, if it holds of one on a table whose lists
agree with the slots. -/
theorem dispatchCalls_all {ε : Type} {fd : ε → Int} {call : Nat → ε → WaitTable → ProcessCall}
    {body : Nat → ε → WaitTable → WaitTable} {P : ProcessCall → Prop}
    (hbody : ∀ i event w, PollTable.Edits w.table (body i event w).table)
    (hcall : ∀ i event w, w.table.Lists fds → P (call i event w)) (events : List ε)
    (h : w.table.Lists fds) : ∀ c ∈ dispatchCalls fd call body events w, P c := by
  induction events generalizing w with
  | nil => exact nofun
  | cons event events ih =>
      simp only [dispatchCalls]
      split
      · cases w.table.tbl.get (fd event) with
        | none => exact nofun
        | some i =>
            intro c hc
            obtain rfl | hc := List.mem_cons.mp hc
            · exact hcall i event w h
            · exact ih (h.of_edits (hbody i event w)) c hc
      · exact ih h

/-- The array of slots that are open, with what they ask for. -/
def arrayOf (w : WaitTable) (is : List Nat) : List (Int × Events) :=
  is.map fun i : Nat => ((i : Int), (w.slot i).ioftPre.event.events)

/-- A slot whose registered events are those it asks for is processed as
`PollTable.processFd` says. -/
theorem processFd_registered (i : Nat) (revents : Events) (hpost : w.post i = (w.slot i).ioftPre.event.events) :
    (w.processFd i revents).table = w.table.processFd i revents := by
  have htbl := w.table.enqueueFresh_ite_tbl i revents
  simp only [processFd, PollTable.processFd]
  generalize (if revents ≠ 0 then w.table.enqueueFresh i else w.table) = t at htbl
  have hevents : (t.tbl.fds i).ioftPre.event.events = w.post i := by
    rw [htbl, hpost]
    rfl
  rw [hevents]
  split <;> rfl

/-- In the loop over the poll array each slot's registered events are those it asks
for, and the table is the one of `PollTable.pollFds`. -/
theorem pollCalls_spec (revents : Int → Events) (is : List Nat) (h : w.table.Lists fds)
    (hnodup : is.Nodup) :
    (∀ c ∈ pollCalls revents (w.arrayOf is) w, c.w.table.Lists fds ∧ c.InBounds) ∧
      (pollFds revents (w.arrayOf is) w).table = w.table.pollFds revents ((w.arrayOf is).map Prod.fst) := by
  induction is generalizing w with
  | nil => exact ⟨nofun, rfl⟩
  | cons i is ih =>
      obtain ⟨hnot, hnodup⟩ := List.nodup_cons.mp hnodup
      have harray : w.arrayOf (i :: is) = ((i : Int), (w.slot i).ioftPre.event.events) :: w.arrayOf is := rfl
      rw [harray]
      cases hget : w.table.tbl.get (i : Int) with
      | none =>
          simp only [pollCalls, pollFds, hget, List.map_cons, PollTable.pollFds, List.foldl_cons]
          exact ih h hnodup
      | some j =>
          have hij : j = i := by
            simp only [FdTable.get] at hget
            split at hget
            · rw [← Option.some.inj hget, Int.toNat_natCast]
            · cases hget
          subst j
          let c := w.pollCall i ((i : Int), (w.slot i).ioftPre.event.events) revents
          have hpost : c.w.post c.i = c.requested := Function.update_self _ _ _
          have hresult : c.result.table = w.table.processFd i (revents i) :=
            processFd_registered i _ hpost
          have hrest : c.result.arrayOf is = w.arrayOf is := by
            refine List.map_congr_left fun j hj => ?_
            have hne : j ≠ i := by
              intro heq
              exact hnot (heq ▸ hj)
            rw [c.result_of_ne hne]
            rfl
          have hlists : c.result.table.Lists fds := h.of_edits (edits_processFd c.w i _)
          obtain ⟨hcalls, htable⟩ := ih hlists hnodup
          rw [hrest] at hcalls htable
          simp only [pollCalls, pollFds, hget, List.map_cons, PollTable.pollFds, List.foldl_cons]
          refine ⟨fun c' hc' => ?_, ?_⟩
          · obtain rfl | hc' := List.mem_cons.mp hc'
            · exact ⟨h, c.inBounds_of_registered hpost⟩
            · exact hcalls c' hc'
          · rw [← hresult]
            exact htable

/-- The slots in the poll array. -/
def polledFds (t : PollTable) : List Nat :=
  t.tbl.dirtyFds.filter fun i =>
    !(t.clean.tbl.fds i).closed && (t.clean.tbl.fds i).ioftPre.event.events != 0

theorem pollArray_eq (h : w.table.Lists fds) :
    w.table.pollArray = (w.setTable w.table.clean).arrayOf (polledFds w.table) := by
  refine List.map_congr_left fun i hi => ?_
  have hdirty := (List.mem_filter.mp hi).1
  have hclean := w.table.unqueued_clean i
  rw [if_pos hdirty] at hclean
  have hpre := congrArg Fd.ioftPre hclean
  have hfd : (w.table.clean.tbl.fds i).ioftPre.event.fd = i := by
    calc (w.table.clean.tbl.fds i).ioftPre.event.fd
        = (w.table.tbl.fds i).ioftPre.event.fd := congrArg (fun ioft => ioft.event.fd) hpre
      _ = i := h.attached.named i (Or.inr hdirty)
  rw [hfd]
  rfl

/-- What the driver for `poll(2)` processes was registered as it is asked for. -/
theorem processCalls_poll (h : w.table.Lists fds) (pending : Bool) (answer : Answer) :
    ∀ c ∈ w.processCalls .poll pending answer, c.w.table.Lists fds ∧ c.InBounds := by
  simp only [processCalls]
  cases pending with
  | false => exact nofun
  | true =>
      cases answer.revents with
      | none => exact nofun
      | some revents =>
          have hclean : (w.setTable w.table.clean).table.Lists fds :=
            h.of_edits (PollTable.edits_clean w.table)
          rw [show w.table.pollArray = _ from pollArray_eq h]
          exact (pollCalls_spec revents _ hclean (h.attached.dirtyNodup.filter _)).1

/-- The calls are those of the driver as it is modelled on the table. -/
theorem poll_table (h : w.table.Lists fds) (revents : Int → Events) :
    (w.poll true (some revents)).1.table =
      (pollFds revents w.table.pollArray (w.setTable w.table.clean)).table := by
  have hclean : (w.setTable w.table.clean).table.Lists fds := h.of_edits (PollTable.edits_clean w.table)
  have hloop := (pollCalls_spec revents (polledFds w.table) hclean (h.attached.dirtyNodup.filter _)).2
  rw [← pollArray_eq h, PollTable.pollArray_fds] at hloop
  exact hloop.symm

theorem processCalls_aio (h : w.table.Lists fds) (pending : Bool) (answer : Answer) :
    ∀ c ∈ w.processCalls .aio pending answer, c.w.table.Lists fds ∧ c.InBounds := by
  simp only [processCalls]
  cases pending with
  | false => exact nofun
  | true =>
      cases answer.events with
      | none => exact nofun
      | some events =>
          refine dispatchCalls_all (fun i event w => ?_) (fun i event w h => ⟨h, ?_⟩) events
            (h.of_edits (edits_drain w (fun i w => edits_submitFd w i) _))
          · exact (edits_processFd (w.register i) i event.2).trans (PollTable.edits_cleanFd _ i)
          · exact ProcessCall.inBounds_of_registered _ (Function.update_self _ _ _)

theorem processCalls_epoll (h : w.table.Lists fds) (edge pending : Bool) (answer : Answer) :
    ∀ c ∈ w.processCalls (.epoll edge) pending answer, c.w.table.Lists fds := by
  have hregister := edits_epollRegister w edge answer.accepts
  simp only [processCalls]
  generalize w.epollRegister edge answer.accepts = r at hregister
  obtain ⟨w', ok⟩ := r
  cases ok with
  | false => exact nofun
  | true =>
      cases answer.events with
      | none => exact nofun
      | some events =>
          refine dispatchCalls_all (fun i event w => ?_) (fun i event w h => h) events
            (h.of_edits hregister)
          exact (edits_processFd w i event.2).trans (PollTable.edits_cleanFd _ i)

end WaitTable

/-! ## Runs -/

namespace FdState

/-- Every report of a step only consumes what is asked for. -/
def Consumes (a : FdAct) (s : FdState) : Prop :=
  ∀ driver pending answer, a = .wait driver pending answer →
    ∀ c ∈ s.wait.processCalls driver pending answer, c.OnlyConsumes

/-- Every report of `epoll(7)` is in bounds. -/
def InBounds (a : FdAct) (s : FdState) : Prop :=
  ∀ edge pending answer, a = .wait (.epoll edge) pending answer →
    ∀ c ∈ s.wait.processCalls (.epoll edge) pending answer, c.InBounds

theorem consumes_iff_step {fds : Nat → List Nat} {a : FdAct} {s : FdState} (h : s.table.Lists fds) :
    Consumes a s ↔ InBounds a s := by
  constructor
  · intro hconsumes edge pending answer ha c hc
    have hlists := WaitTable.processCalls_epoll h edge pending answer c hc
    exact (c.onlyConsumes_iff hlists).mp (hconsumes _ _ _ ha c hc)
  · intro hbounds driver pending answer ha c hc
    cases driver with
    | poll =>
        obtain ⟨hlists, hin⟩ := WaitTable.processCalls_poll h pending answer c hc
        exact (c.onlyConsumes_iff hlists).mpr hin
    | epoll edge =>
        have hlists := WaitTable.processCalls_epoll h edge pending answer c hc
        exact (c.onlyConsumes_iff hlists).mpr (hbounds edge pending answer ha c hc)
    | kqueue edge => cases hc
    | aio =>
        obtain ⟨hlists, hin⟩ := WaitTable.processCalls_aio h pending answer c hc
        exact (c.onlyConsumes_iff hlists).mpr hin

/-- In every run, whatever drivers poll and whatever is reported, the reports only
consume what is asked for if and only if those of `epoll(7)` are in bounds. -/
theorem consumes_iff (size : Nat) (as : List FdAct) :
    Meets step Consumes as (init size) ↔ Meets step InBounds as (init size) :=
  Meets.congr (I := fun s => s.table.Lists s.fds) (fun _ _ _ h _ hst => lists_step h hst)
    (fun _ _ h => consumes_iff_step h) (lists_init size)

/-- A connection waits to be readable, is reported so, and is reported so again while
nothing is asked for. -/
def reportedTwice : List FdAct :=
  [.prepoll 0 readable,
    .wait (.epoll true) true ⟨none, fun _ => true, fun _ => none, some [(3, POLLIN)]⟩,
    .wait (.epoll true) true ⟨none, fun _ => true, fun _ => none, some [(3, POLLIN)]⟩]

/-- Edge-triggered, the second report makes the slot ask for the event again. -/
theorem report_adds : ¬ ∀ (size : Nat) (as : List FdAct), Meets step Consumes as (init size) := by
  intro h
  have hconsumes := ((h 8 reportedTwice).2 _ rfl).2 _ rfl
  have hadds := (hconsumes.1 _ _ _ rfl _ (List.mem_singleton.mpr rfl)).addsNone
  revert hadds
  decide

end FdState

end Vk

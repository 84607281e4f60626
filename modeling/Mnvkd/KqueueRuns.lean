/-
# `Mnvkd.KqueueRuns` — which changes add their filter

Edge-triggered, a filter stays registered, and only the first change for it is to
carry `EV_ADD`.  The slot has one flag for both filters, which the first change for
either sets: the other filter is never added.  And a change that is taken back because
the next does not fit leaves the flag set, so that neither is.

Both come from one cause, a descriptor whose reading and writing are both registered.
Until that happens the changes of a descriptor are all of one filter, and the flag says
whether there are any (`Good`).  A run in which every call keeps to one filter of its
descriptor adds every filter and fails without a trace, and no other run does
(`adds_iff`).
-/
import Mnvkd.Kqueue
import Mnvkd.Lib.Run

namespace Vk

open Lib

/-- The table, and of each slot the changes that were put on the list since it was
allocated. -/
structure KqState where
  kq : KqTable
  submitted : Nat → List Change

/-- What is done to the slots: one is allocated or given up, its future is replaced,
its changes are put on the list, and the list is given to the system. -/
inductive KqAct where
  | allocate (i : Nat) (procId : Nat)
  | deallocate (i : Nat)
  | request (i : Nat) (ioft : IoFuture)
  | set (i : Nat)
  | kevent (events : List Kevent)

namespace KqState

/-- One operation.  Only an allocated slot has its changes put on the list. -/
def step (edge : Bool) : KqAct → KqState → Option KqState
  | .allocate i procId, s =>
      if (s.kq.slot i).allocated then none
      else some ⟨s.kq.updFd i fun slot => slot.allocate i procId, Function.update s.submitted i []⟩
  | .deallocate i, s => some { s with kq := s.kq.updFd i fun slot => { slot with allocated := false } }
  | .request i ioft, s => some { s with kq := s.kq.updFd i fun slot => { slot with ioftPre := ioft } }
  | .set i, s =>
      if (s.kq.slot i).allocated then
        let kq := (s.kq.kqueueSet edge i).1
        let put := kq.kqChangelist.drop s.kq.kqChangelist.length
        some ⟨kq, Function.update s.submitted i (s.submitted i ++ put)⟩
      else none
  | .kevent events, s => some { s with kq := (s.kq.kevent events).1 }

/-- The first change for each filter of each descriptor adds it. -/
def FirstAdds (s : KqState) : Prop :=
  ∀ i filter change, (s.submitted i).find? (·.filter == filter) = some change → change.flags.add = true

/-- A call without room leaves the list and the slot as they were, and when the list
has been given to the system, it does what it would have done before. -/
structure FailsClean (edge : Bool) (i : Nat) (kq : KqTable) : Prop where
  kept : (kq.kqueueSet edge i).2 = false → (kq.kqueueSet edge i).1 = kq
  retried : (kq.kqueueSet edge i).2 = false →
    ({ (kq.kqueueSet edge i).1 with kqChangelist := [] } : KqTable).kqueueSet edge i =
      ({ kq with kqChangelist := [] } : KqTable).kqueueSet edge i

/-- A step adds every filter, where they stay registered, and a call that fails fails
without a trace. -/
structure Adds (edge : Bool) (a : KqAct) (s : KqState) : Prop where
  first : edge = true → ∀ s', step edge a s = some s' → s'.FirstAdds
  clean : ∀ i, a = .set i → (s.kq.slot i).allocated = true → FailsClean edge i s.kq

/-- A call keeps to one filter of its descriptor: that of the changes there are, and
the only one to be registered.  Where the list is full, or where only the first of the
two fits and the slot was added before, nothing is put on the list. -/
def OneFilter (i : Nat) (s : KqState) : Prop :=
  (s.kq.slot i).closed = true ∨ s.kq.full = true ∨
    (s.kq.kqChangelist.length + 1 = WaitTable.evMax ∧ (s.kq.slot i).added = true ∧
      ∀ filter, s.kq.registers i filter = true) ∨
    ∃ filter, (∀ other, s.kq.registers i other = true → other = filter) ∧
      ∀ change ∈ s.submitted i, change.filter = filter

/-- The condition on a step. -/
def KeepsToOne (edge : Bool) (a : KqAct) (s : KqState) : Prop :=
  edge = true → ∀ i, a = .set i → (s.kq.slot i).allocated = true → OneFilter i s

/-- No slot has been added yet, and none has a change of its own. -/
structure Begun (s : KqState) : Prop where
  added : ∀ i, (s.kq.slot i).added = false
  submitted : ∀ i, s.submitted i = []

/-- The changes of each descriptor are of one filter, the first of them adds it, and
the flag of the slot says whether there are any. -/
structure Good (s : KqState) : Prop where
  one : ∀ i, ∃ filter, ∀ change ∈ s.submitted i, change.filter = filter
  first : s.FirstAdds
  added : ∀ i, (s.kq.slot i).added = true ↔ s.submitted i ≠ []

end KqState

/-! ## What a call does -/

namespace KqTable

/-- What `vk_fd_table_kqueue_set` does: nothing to a closed slot, and to another what
there is room for of the filters that are needed and not registered. -/
inductive Sets (edge : Bool) (i : Nat) (q : KqTable) : KqTable × Bool → Prop
  | closed : (q.slot i).closed = true → Sets edge i q (q, true)
  | none : (∀ filter, q.registers i filter = false) →
      Sets edge i q (q.setPost i (q.slot i).ioftPre, true)
  | full : q.full = true → Sets edge i q (q, false)
  | one (filter : Evfilt) : (q.slot i).closed = false → q.full = false →
      (∀ other, q.registers i other = true ↔ other = filter) →
      Sets edge i q ((q.change edge i filter).setPost i (q.slot i).ioftPre, true)
  | taken : (q.slot i).closed = false → q.kqChangelist.length + 1 = WaitTable.evMax →
      (∀ filter, q.registers i filter = true) →
      Sets edge i q ({ q.change edge i .read with kqChangelist := q.kqChangelist }, false)
  | both : (q.slot i).closed = false → q.full = false →
      q.kqChangelist.length + 1 ≠ WaitTable.evMax → (∀ filter, q.registers i filter = true) →
      Sets edge i q
        (((q.change edge i .read).change edge i .write).setPost i (q.slot i).ioftPre, true)

/-- The change for a filter. -/
def changeOf (edge : Bool) (i : Nat) (filter : Evfilt) (q : KqTable) : Change :=
  ⟨(q.slot i).fd, filter,
    if edge then ⟨!(q.slot i).added, true, false, true⟩ else ⟨true, false, true, false⟩, (q.slot i).fd⟩

theorem change_kqChangelist (edge : Bool) (i : Nat) (filter : Evfilt) (q : KqTable) :
    (q.change edge i filter).kqChangelist = q.kqChangelist ++ [q.changeOf edge i filter] := by
  cases edge <;> rfl

theorem change_slot (i j : Nat) (filter : Evfilt) (q : KqTable) :
    (q.change true i filter).slot j = if j = i then { q.slot i with added := true } else q.slot j :=
  updFd_slot _ i j _

theorem change_ioftPre (edge : Bool) (i : Nat) (filter : Evfilt) (q : KqTable) :
    ((q.change edge i filter).slot i).ioftPre = (q.slot i).ioftPre := by
  cases edge with
  | false => rfl
  | true => rw [change_slot, if_pos rfl]

theorem full_change (edge : Bool) (i : Nat) (filter : Evfilt) (q : KqTable) :
    (q.change edge i filter).full = (q.kqChangelist.length + 1 == WaitTable.evMax) := by
  rw [full, change_kqChangelist, List.length_append]
  rfl

theorem put_one (edge : Bool) (i : Nat) (filter : Evfilt) (ioft : IoFuture) (q : KqTable) :
    ((q.change edge i filter).setPost i ioft).kqChangelist.drop q.kqChangelist.length =
      [q.changeOf edge i filter] := by
  show (q.change edge i filter).kqChangelist.drop _ = _
  rw [change_kqChangelist, List.drop_left]

theorem put_both (edge : Bool) (i : Nat) (ioft : IoFuture) (q : KqTable) :
    (((q.change edge i .read).change edge i .write).setPost i ioft).kqChangelist.drop
        q.kqChangelist.length =
      [q.changeOf edge i .read, (q.change edge i .read).changeOf edge i .write] := by
  show ((q.change edge i .read).change edge i .write).kqChangelist.drop _ = _
  rw [change_kqChangelist, change_kqChangelist, List.append_assoc, List.drop_left]
  rfl

theorem sets_kqueueSet (edge : Bool) (i : Nat) (q : KqTable) : Sets edge i q (q.kqueueSet edge i) := by
  simp only [kqueueSet]
  cases hclosed : (q.slot i).closed with
  | true => exact Sets.closed hclosed
  | false =>
      cases hread : q.registers i .read <;> cases hwrite : q.registers i .write <;>
        cases hfull : q.full
      case false.false.false | false.false.true =>
        refine Sets.none fun filter => ?_
        cases filter with
        | read => exact hread
        | write => exact hwrite
      case false.true.true | true.false.true | true.true.true =>
        have hnone : Sets edge i q (q, false) := Sets.full hfull
        simpa [hfull] using hnone
      case false.true.false =>
        have hone : Sets edge i q ((q.change edge i .write).setPost i (q.slot i).ioftPre, true) := by
          refine Sets.one .write hclosed hfull fun other => ?_
          cases other <;> simp [hread, hwrite]
        simpa [hfull, change_ioftPre] using hone
      case true.false.false =>
        have hone : Sets edge i q ((q.change edge i .read).setPost i (q.slot i).ioftPre, true) := by
          refine Sets.one .read hclosed hfull fun other => ?_
          cases other <;> simp [hread, hwrite]
        simpa [hfull, change_ioftPre] using hone
      case true.true.false =>
        have hall : ∀ filter, q.registers i filter = true := by
          intro filter
          cases filter with
          | read => exact hread
          | write => exact hwrite
        by_cases hlast : q.kqChangelist.length + 1 = WaitTable.evMax
        · have htaken : Sets edge i q
              ({ q.change edge i .read with kqChangelist := q.kqChangelist }, false) :=
            Sets.taken hclosed hlast hall
          simpa [hfull, full_change, hlast] using htaken
        · have hboth : Sets edge i q
              (((q.change edge i .read).change edge i .write).setPost i (q.slot i).ioftPre, true) :=
            Sets.both hclosed hfull hlast hall
          simpa [hfull, full_change, hlast, change_ioftPre] using hboth

end KqTable

/-! ## Runs -/

namespace KqState

variable {s s' : KqState} {edge : Bool} {i j : Nat}

/-- The state a call on a slot leads to. -/
def called (edge : Bool) (i : Nat) (s : KqState) : KqState :=
  ⟨(s.kq.kqueueSet edge i).1, Function.update s.submitted i
    (s.submitted i ++ (s.kq.kqueueSet edge i).1.kqChangelist.drop s.kq.kqChangelist.length)⟩

theorem step_set (h : (s.kq.slot i).allocated = true) : step edge (.set i) s = some (s.called edge i) :=
  if_pos h

theorem updated_submitted (changes : List Change) (kq : KqTable) :
    (⟨kq, Function.update s.submitted i changes⟩ : KqState).submitted j =
      if j = i then changes else s.submitted j :=
  Function.update_apply _ _ _ _

/-- Changes of one filter, the first of which adds it. -/
theorem firstAdds_one {filter : Evfilt} {changes : List Change} {c : Change}
    (hone : ∀ change ∈ changes, change.filter = filter) (hc : c.filter = filter)
    (hold : ∀ change, changes.find? (·.filter == filter) = some change → change.flags.add = true)
    (hadd : changes = [] → c.flags.add = true) {other : Evfilt} {change : Change}
    (h : (changes ++ [c]).find? (·.filter == other) = some change) : change.flags.add = true := by
  have hother : change.filter = other := by simpa using List.find?_some h
  have hmem := List.mem_of_find?_eq_some h
  have hfilter : other = filter := by
    rw [← hother]
    obtain hin | hin := List.mem_append.mp hmem
    · exact hone change hin
    · rw [List.mem_singleton.mp hin, hc]
  rw [hfilter, List.find?_append] at h
  cases changes with
  | nil =>
      rw [List.find?_nil, Option.none_or] at h
      rw [List.mem_singleton.mp (List.mem_of_find?_eq_some h)]
      exact hadd rfl
  | cons d ds =>
      have hd : (d :: ds).find? (·.filter == filter) = some d := by
        simp [hone d List.mem_cons_self]
      rw [hd] at h
      rw [← Option.some.inj h]
      exact hold d hd

/-- No filter is the one for reading and the one for writing. -/
theorem not_forall_eq (filter : Evfilt) : ¬∀ other, other = filter := by
  intro h
  have hread := h .read
  rw [← h .write] at hread
  cases hread

/-- A change of a slot that leaves its flag leaves every flag. -/
theorem updFd_added (q : KqTable) (i : Nat) {f : Fd → Fd}
    (hf : (f (q.slot i)).added = (q.slot i).added) (j : Nat) :
    ((q.updFd i f).slot j).added = (q.slot j).added := by
  rw [KqTable.updFd_slot]
  split
  · rename_i hj
    rw [hf, hj]
  · rfl

/-- Where a descriptor's own changes and the flags stay, the state stays good. -/
theorem Good.of_same (h : s.Good) (hsubmitted : s'.submitted = s.submitted)
    (hadded : ∀ i, (s'.kq.slot i).added = (s.kq.slot i).added) : s'.Good := by
  refine ⟨fun i => ?_, fun i => ?_, fun i => ?_⟩
  · rw [hsubmitted]
    exact h.one i
  · rw [hsubmitted]
    exact h.first i
  · rw [hsubmitted, hadded]
    exact h.added i

/-- A state whose slot `i` has another list and flag, that fit. -/
theorem Good.update {changes : List Change} {kq : KqTable} {filter : Evfilt} (h : s.Good)
    (hone : ∀ change ∈ changes, change.filter = filter)
    (hfirst : ∀ filter change, changes.find? (·.filter == filter) = some change →
      change.flags.add = true)
    (hadded : (kq.slot i).added = true ↔ changes ≠ [])
    (hrest : ∀ j, j ≠ i → (kq.slot j).added = (s.kq.slot j).added) :
    (⟨kq, Function.update s.submitted i changes⟩ : KqState).Good := by
  refine ⟨fun j => ?_, fun j => ?_, fun j => ?_⟩ <;> rw [updated_submitted] <;> split
  · exact ⟨filter, hone⟩
  · exact h.one j
  · exact hfirst
  · exact h.first j
  · rename_i hj
    rw [hj]
    exact hadded
  · rename_i hj
    show (kq.slot j).added = true ↔ _
    rw [hrest j hj]
    exact h.added j

/-- Nothing is put on the list. -/
theorem called_of_same (hlist : (s.kq.kqueueSet edge i).1.kqChangelist = s.kq.kqChangelist) :
    (s.called edge i).submitted = s.submitted := by
  simp only [called]
  rw [hlist, List.drop_length, List.append_nil, Function.update_eq_self]

theorem Good.called (h : s.Good) (hone : OneFilter i s) : (s.called true i).Good := by
  have hsets := KqTable.sets_kqueueSet true i s.kq
  generalize hr : s.kq.kqueueSet true i = r at hsets
  cases hsets with
  | closed =>
      refine h.of_same (called_of_same (by rw [hr])) fun j => ?_
      simp only [KqState.called, hr]
  | none =>
      refine h.of_same (called_of_same (by rw [hr]; rfl)) fun j => ?_
      simp only [KqState.called, hr]
      rfl
  | full =>
      refine h.of_same (called_of_same (by rw [hr])) fun j => ?_
      simp only [KqState.called, hr]
  | one filter hopen hroom hregisters =>
      have hold : ∀ change ∈ s.submitted i, change.filter = filter := by
        obtain hclosed | hfull | ⟨-, -, hall⟩ | ⟨same, hsame, hold⟩ := hone
        · rw [hopen] at hclosed
          cases hclosed
        · rw [hroom] at hfull
          cases hfull
        · exact absurd (fun other => (hregisters other).mp (hall other)) (not_forall_eq filter)
        · rw [hsame filter ((hregisters filter).mpr rfl)]
          exact hold
      simp only [KqState.called, hr, KqTable.put_one]
      have hfilter : ∀ change ∈ s.submitted i ++ [s.kq.changeOf true i filter],
          change.filter = filter := by
        intro change hchange
        obtain hin | hin := List.mem_append.mp hchange
        · exact hold change hin
        · rw [List.mem_singleton.mp hin]
          rfl
      refine h.update hfilter (fun other change hfind => ?_) ?_ fun j hj => ?_
      · refine firstAdds_one hold rfl (fun change hfirst => h.first i filter change hfirst)
          (fun hempty => ?_) hfind
        have hnot : (s.kq.slot i).added = false := by
          rw [← Bool.not_eq_true, h.added i]
          exact fun hne => hne hempty
        show (!(s.kq.slot i).added) = true
        rw [hnot]
        rfl
      · show ((s.kq.change true i filter).slot i).added = true ↔ _
        rw [KqTable.change_slot, if_pos rfl]
        simp
      · show ((s.kq.change true i filter).slot j).added = _
        rw [KqTable.change_slot, if_neg hj]
  | taken hopen hlast hall =>
      have hadded : (s.kq.slot i).added = true := by
        obtain hclosed | hfull | ⟨-, hadded, -⟩ | ⟨same, hsame, -⟩ := hone
        · rw [hopen] at hclosed
          cases hclosed
        · have hlen : s.kq.kqChangelist.length = WaitTable.evMax := eq_of_beq hfull
          omega
        · exact hadded
        · exact absurd (fun other => hsame other (hall other)) (not_forall_eq same)
      refine h.of_same (called_of_same (by rw [hr])) fun j => ?_
      simp only [KqState.called, hr]
      exact updFd_added s.kq i hadded.symm j
  | both hopen hroom hlast hall =>
      obtain hclosed | hfull | ⟨hlen, -⟩ | ⟨same, hsame, -⟩ := hone
      · rw [hopen] at hclosed
        cases hclosed
      · rw [hroom] at hfull
        cases hfull
      · exact absurd hlen hlast
      · exact absurd (fun other => hsame other (hall other)) (not_forall_eq same)

theorem begun_good (h : s.Begun) : s.Good where
  one i := ⟨.read, by rw [h.submitted]; exact nofun⟩
  first i := by rw [h.submitted]; exact nofun
  added i := by simp [h.added, h.submitted]

/-- A step that keeps to one filter leaves a good state good. -/
theorem Good.step {a : KqAct} (h : s.Good) (hone : KeepsToOne true a s)
    (hst : KqState.step true a s = some s') : s'.Good := by
  cases a with
  | allocate i procId =>
      simp only [KqState.step] at hst
      split at hst
      · cases hst
      · rename_i hfree
        obtain rfl := Option.some.inj hst
        have hslot : ∀ j, (s.kq.updFd i fun slot => slot.allocate i procId).slot j =
            if j = i then (s.kq.slot i).allocate i procId else s.kq.slot j :=
          fun j => KqTable.updFd_slot _ i j _
        have hnone : ∀ change ∈ ([] : List Change), change.filter = .read := nofun
        refine h.update hnone nofun ?_ fun j hj => ?_
        · rw [hslot, if_pos rfl]
          simp [Fd.allocate, hfree]
        · rw [hslot, if_neg hj]
  | deallocate i =>
      obtain rfl := Option.some.inj hst
      exact h.of_same rfl (updFd_added s.kq i rfl)
  | request i ioft =>
      obtain rfl := Option.some.inj hst
      exact h.of_same rfl (updFd_added s.kq i rfl)
  | set i =>
      cases hallocated : (s.kq.slot i).allocated with
      | false =>
          simp only [KqState.step, hallocated] at hst
          cases hst
      | true =>
          rw [step_set hallocated] at hst
          obtain rfl := Option.some.inj hst
          exact h.called (hone rfl i rfl hallocated)
  | kevent events =>
      obtain rfl := Option.some.inj hst
      refine h.of_same rfl fun j => ?_
      show (((s.kq.kevent events).1.table.tbl.fds) j).added = _
      rw [KqTable.kevent, KqTable.dispatch_tbl]
      rfl

/-- A change that is taken back leaves nothing where the slot was added before. -/
theorem taken_eq {q : KqTable} (hadded : edge = true → (q.slot i).added = true) :
    ({ q.change edge i .read with kqChangelist := q.kqChangelist } : KqTable) = q := by
  cases edge with
  | false => rfl
  | true =>
      have hself : (q.updFd i fun slot => { slot with added := true }) = q := by
        refine KqTable.updFd_eq_self ?_
        show ({ q.slot i with added := true } : Fd) = q.slot i
        rw [← hadded rfl]
      show ({ (q.updFd i fun slot => { slot with added := true }) with
        kqChangelist := q.kqChangelist } : KqTable) = q
      rw [hself]

/-- A call fails without a trace unless it takes back the change that set the flag. -/
theorem failsClean_of {q : KqTable} (htaken : edge = true → (q.slot i).closed = false →
      q.kqChangelist.length + 1 = WaitTable.evMax → (∀ filter, q.registers i filter = true) →
      (q.slot i).added = true) :
    FailsClean edge i q := by
  have hkept : (q.kqueueSet edge i).2 = false → (q.kqueueSet edge i).1 = q := by
    have hsets := KqTable.sets_kqueueSet edge i q
    generalize q.kqueueSet edge i = r at hsets
    intro hfail
    cases hsets with
    | closed => rfl
    | none => cases hfail
    | full => rfl
    | one => cases hfail
    | taken hopen hlast hall => exact taken_eq fun hedge => htaken hedge hopen hlast hall
    | both => cases hfail
  exact ⟨hkept, fun hfail => by rw [hkept hfail]⟩

/-- Of the changes of a descriptor, the first for its filter adds it. -/
theorem added_of_first {before after : List Change} {c : Change}
    (hadds : ∀ filter change, (before ++ c :: after).find? (·.filter == filter) = some change →
      change.flags.add = true)
    (hnew : ∀ change ∈ before, change.filter ≠ c.filter) : c.flags.add = true := by
  have hnone : before.find? (·.filter == c.filter) = none := by
    refine List.find?_eq_none.mpr fun change hchange => ?_
    simpa using hnew change hchange
  refine hadds c.filter c ?_
  rw [List.find?_append, hnone, Option.none_or, List.find?_cons, beq_self_eq_true]

/-- A call that adds what it registers keeps to one filter. -/
theorem oneFilter_of_adds (h : s.Good) (hallocated : (s.kq.slot i).allocated = true)
    (hadds : Adds true (.set i) s) : OneFilter i s := by
  have hfirst := hadds.first rfl _ (step_set hallocated) i
  obtain ⟨filter, hfilter⟩ := h.one i
  have hfresh : s.submitted i ≠ [] → (s.kq.slot i).added = true := (h.added i).mpr
  have hkept := (hadds.clean i rfl hallocated).kept
  have hsets := KqTable.sets_kqueueSet true i s.kq
  simp only [KqState.called, Function.update_self] at hfirst
  generalize s.kq.kqueueSet true i = r at hsets hfirst hkept
  cases hsets with
  | closed hclosed => exact Or.inl hclosed
  | none hregisters =>
      refine Or.inr (Or.inr (Or.inr ⟨filter, fun other hother => ?_, hfilter⟩))
      rw [hregisters] at hother
      cases hother
  | full hfull => exact Or.inr (Or.inl hfull)
  | one new hopen hroom hregisters =>
      refine Or.inr (Or.inr (Or.inr ⟨new, fun other => (hregisters other).mp, fun change hchange => ?_⟩))
      by_contra hne
      rw [KqTable.put_one] at hfirst
      -- the changes there are, are of the other filter, so this one is not added
      have hadd : (s.kq.changeOf true i new).flags.add = true := by
        refine added_of_first hfirst fun other hother heq => ?_
        rw [hfilter other hother, ← hfilter change hchange] at heq
        exact hne heq
      have hadded := hfresh (List.ne_nil_of_mem hchange)
      simp only [KqTable.changeOf, if_true, hadded] at hadd
      cases hadd
  | taken hopen hlast hall =>
      refine Or.inr (Or.inr (Or.inl ⟨hlast, ?_, hall⟩))
      rw [← hkept rfl]
      show ((s.kq.change true i .read).slot i).added = true
      rw [KqTable.change_slot, if_pos rfl]
  | both hopen hroom hlast hall =>
      exfalso
      rw [KqTable.put_both] at hfirst
      by_cases hold : ∃ change ∈ s.submitted i, change.filter = .write
      · -- the changes there are, are for writing, and the one for reading is not added
        obtain ⟨change, hchange, hwrite⟩ := hold
        have hadd : (s.kq.changeOf true i .read).flags.add = true := by
          refine added_of_first hfirst fun other hother heq => ?_
          rw [hfilter other hother, ← hfilter change hchange, hwrite] at heq
          cases heq
        have hadded := hfresh (List.ne_nil_of_mem hchange)
        simp only [KqTable.changeOf, if_true, hadded] at hadd
        cases hadd
      · -- none is for writing, and the flag is set by the one for reading
        have hadd : ((s.kq.change true i .read).changeOf true i .write).flags.add = true := by
          rw [List.append_cons] at hfirst
          refine added_of_first hfirst fun other hother heq => ?_
          obtain hin | hin := List.mem_append.mp hother
          · exact hold ⟨other, hin, heq⟩
          · rw [List.mem_singleton.mp hin] at heq
            cases heq
        simp only [KqTable.changeOf, if_true, KqTable.change_slot] at hadd
        cases hadd

/-- In a good state a call adds what it registers if and only if it keeps to one
filter. -/
theorem adds_iff_keepsToOne {a : KqAct} (h : edge = true → s.Good) :
    Adds edge a s ↔ KeepsToOne edge a s := by
  constructor
  · intro hadds hedge i ha hallocated
    subst hedge ha
    exact oneFilter_of_adds (h rfl) hallocated hadds
  · intro hone
    refine ⟨fun hedge s' hst => ?_, fun i ha hallocated => failsClean_of ?_⟩
    · subst hedge
      exact ((h rfl).step hone hst).first
    · intro hedge hopen hlast hall
      subst ha
      obtain hclosed | hfull | ⟨-, hadded, -⟩ | ⟨same, hsame, -⟩ := hone hedge i rfl hallocated
      · rw [hopen] at hclosed
        cases hclosed
      · have hlen : s.kq.kqChangelist.length = WaitTable.evMax := eq_of_beq hfull
        omega
      · exact hadded
      · exact absurd (fun other => hsame other (hall other)) (not_forall_eq same)

/-- Every filter is added and every call fails without a trace in exactly the runs all
of whose calls keep to one filter of their descriptor; with one-shot registration in
every run. -/
theorem adds_iff (edge : Bool) (as : List KqAct) (s : KqState) (hbegun : s.Begun) :
    Meets (step edge) (Adds edge) as s ↔ Meets (step edge) (KeepsToOne edge) as s := by
  refine Meets.congr (I := fun s => edge = true → s.Good) (fun a s s' h hone hst hedge => ?_)
    (fun a s h => adds_iff_keepsToOne h) fun _ => begun_good hbegun
  subst hedge
  exact (h rfl).step hone hst

/-- The table of eight slots, with `n` places of the list taken. -/
def start (n : Nat) : KqState where
  kq := { KqTable.unused with
    kqChangelist := List.replicate n ⟨3, .read, ⟨true, true, false, true⟩, 3⟩ }
  submitted := fun _ => []

theorem begun_start (n : Nat) : (start n).Begun := ⟨fun _ => rfl, fun _ => rfl⟩

/-- A descriptor is asked for `events`, and its changes are put on the list. -/
def askFor (events : Events) : List KqAct :=
  [.allocate 5 0, .request 5 { IoFuture.init 0 with event := ⟨5, events, 0⟩ }, .set 5]

theorem adds_iff_readable : Meets (step true) (Adds true) (askFor POLLIN) (start 0) := by
  refine (adds_iff true (askFor POLLIN) (start 0) (begun_start 0)).mpr ?_
  refine ⟨nofun, fun s₁ h₁ => ⟨nofun, fun s₂ h₂ => ⟨fun _ i hi _ => ?_, fun _ _ => trivial⟩⟩⟩
  obtain rfl := KqAct.set.inj hi
  cases h₁
  cases h₂
  refine Or.inr (Or.inr (Or.inr ⟨.read, fun other hother => ?_, nofun⟩))
  cases other with
  | read => rfl
  | write => revert hother; decide

/-- A descriptor asked for reading and writing is not added for writing; and where one
place of the list is left, the call that fails leaves it marked as added. -/
theorem second_filter_fails :
    (¬ ∀ as s, Begun s →
      Meets (step true) (fun a s => ∀ s', step true a s = some s' → s'.FirstAdds) as s) ∧
    (¬ ∀ as s, Begun s →
      Meets (step true) (fun a s => ∀ i, a = .set i → FailsClean true i s.kq) as s) := by
  constructor
  · intro h
    have hmeets := h (askFor (POLLIN ||| POLLOUT)) (start 0) (begun_start 0)
    have hfirst := ((hmeets.2 _ rfl).2 _ rfl).1 _ rfl
    have hadd := hfirst 5 .write ⟨5, .write, ⟨false, true, false, true⟩, 5⟩ rfl
    cases hadd
  · intro h
    have hmeets := h (askFor (POLLIN ||| POLLOUT)) (start 31) (begun_start 31)
    have hclean := ((hmeets.2 _ rfl).2 _ rfl).1 5 rfl
    have hkept := congrArg (fun q => (KqTable.slot q 5).added) (hclean.kept rfl)
    revert hkept
    decide

end KqState

end Vk

/-
# `Mnvkd.FdLists` — the three lists through a slot

A slot can be on the dirty list, on the fresh list and on the list of the process
that has it.  For the first two it carries a flag, for the third a mark with the
process's number.  All the operations on the table keep the lists and what the slots
say of them in agreement, whatever their order and whichever driver polls
(`lists_step`).
-/
import Mnvkd.Drivers
import Mnvkd.KernQueues
import Mnvkd.Lib.Run

namespace Vk

open Lib

namespace FdTable

/-- A slot is on the dirty list once if it is flagged, and not at all if not. -/
def DirtyFits (tbl : FdTable) : Prop :=
  ∀ i, QueueFits True (tbl.dirtyFds.count i) (tbl.fds i).dirtyQed

variable {tbl u : FdTable} {i : Nat} {f : Fd → Fd}

theorem DirtyFits.of_same (h : tbl.DirtyFits) (hdirty : u.dirtyFds = tbl.dirtyFds)
    (hqed : ∀ j, (u.fds j).dirtyQed = (tbl.fds j).dirtyQed) : u.DirtyFits := by
  intro j
  rw [hdirty, hqed]
  exact h j

theorem DirtyFits.updFd (h : tbl.DirtyFits)
    (hf : (f (tbl.fds i)).dirtyQed = (tbl.fds i).dirtyQed) : (tbl.updFd i f).DirtyFits := by
  refine h.of_same rfl fun j => ?_
  rw [updFd_fds]
  split
  · subst j
    exact hf
  · rfl

/-- The flags, where one of them is set or cleared. -/
theorem dirtyQed_updFd (tbl : FdTable) (i j : Nat) (f : Fd → Fd) :
    ((tbl.updFd i f).fds j).dirtyQed =
      Function.update (fun j => (tbl.fds j).dirtyQed) i (f (tbl.fds i)).dirtyQed j := by
  rw [updFd_fds, Function.update_apply]
  split <;> rfl

theorem DirtyFits.enqueueDirty (h : tbl.DirtyFits) : (tbl.enqueueDirty i).DirtyFits := by
  unfold FdTable.enqueueDirty
  split
  · exact h
  · rename_i hqed
    intro j
    rw [dirtyQed_updFd]
    exact Sched.fits_cons h (by simpa using hqed) j

theorem DirtyFits.dropDirty (h : tbl.DirtyFits) : (tbl.dropDirty i).DirtyFits := by
  unfold FdTable.dropDirty
  split
  · intro j
    rw [dirtyQed_updFd]
    exact Sched.fits_erase h j
  · exact h

theorem DirtyFits.dequeueDirty (h : tbl.DirtyFits) : tbl.dequeueDirty.DirtyFits := by
  unfold FdTable.dequeueDirty
  cases hdirty : tbl.dirtyFds with
  | nil => exact h
  | cons i rest =>
      intro j
      have herase := Sched.fits_erase (p := i) h j
      rw [hdirty, List.erase_cons_head] at herase
      rw [dirtyQed_updFd]
      exact herase

/-- A slot that is allocated or dirty has its own number for a descriptor. -/
def Numbered (tbl : FdTable) : Prop :=
  ∀ i, (tbl.fds i).allocated = true ∨ (tbl.fds i).dirtyQed = true → (tbl.fds i).fd = i

theorem Numbered.updFd (h : tbl.Numbered) (hfd : (f (tbl.fds i)).fd = (tbl.fds i).fd)
    (hflags : (f (tbl.fds i)).allocated = true ∨ (f (tbl.fds i)).dirtyQed = true →
      (tbl.fds i).allocated = true ∨ (tbl.fds i).dirtyQed = true) : (tbl.updFd i f).Numbered := by
  intro j hj
  rw [updFd_fds] at hj ⊢
  split at hj
  · rename_i hji
    rw [if_pos hji, hfd, hji]
    exact h i (hflags hj)
  · rename_i hji
    rw [if_neg hji]
    exact h j hj

theorem Numbered.enqueueDirty (h : tbl.Numbered) (hi : (tbl.fds i).fd = i) :
    (tbl.enqueueDirty i).Numbered := by
  intro j hj
  by_cases hji : j = i
  · subst j
    rw [enqueueDirty_self]
    exact hi
  · rw [enqueueDirty_of_ne tbl hji] at hj ⊢
    exact h j hj

theorem Numbered.dropDirty (h : tbl.Numbered) : (tbl.dropDirty i).Numbered := by
  unfold FdTable.dropDirty
  split
  · exact Numbered.updFd h rfl
      fun hi => hi.imp_right nofun
  · exact h

theorem Numbered.dequeueDirty (h : tbl.Numbered) : tbl.dequeueDirty.Numbered := by
  unfold FdTable.dequeueDirty
  cases tbl.dirtyFds with
  | nil => exact h
  | cons i rest =>
      exact Numbered.updFd h rfl fun hi => hi.imp_right nofun

end FdTable

namespace PollTable

/-- A slot is on the fresh list once if it is flagged, and not at all if not. -/
def FreshFits (t : PollTable) : Prop := ∀ i, QueueFits True (t.freshFds.count i) (t.freshQed i)

variable {t u : PollTable} {i : Nat}

theorem FreshFits.enqueueFresh (h : t.FreshFits) : (t.enqueueFresh i).FreshFits := by
  unfold PollTable.enqueueFresh
  split
  · exact h
  · rename_i hqed
    exact Sched.fits_cons h (by simpa using hqed)

theorem FreshFits.dropFresh (h : t.FreshFits) : (t.dropFresh i).FreshFits := by
  unfold PollTable.dropFresh
  split
  · exact Sched.fits_erase h
  · exact h

/-- `vk_fd_table_dequeue_fresh`. -/
def dequeueFresh (t : PollTable) : PollTable :=
  match t.freshFds with
  | [] => t
  | i :: rest => { t with freshFds := rest, freshQed := Function.update t.freshQed i false }

/-- The slots stay as they are. -/
theorem dequeueFresh_tbl (t : PollTable) : t.dequeueFresh.tbl = t.tbl := by
  simp only [PollTable.dequeueFresh]
  split
  next => rfl
  next => rfl

theorem FreshFits.dequeueFresh (h : t.FreshFits) : t.dequeueFresh.FreshFits := by
  unfold PollTable.dequeueFresh
  cases hfresh : t.freshFds with
  | nil => exact h
  | cons i rest =>
      intro j
      have herase := Sched.fits_erase (p := i) h j
      rw [hfresh, List.erase_cons_head] at herase
      exact herase

/-- The lists and what the slots say of them agree. -/
structure Lists (t : PollTable) (fds : Nat → List Nat) : Prop where
  attached : Attached t.tbl fds
  dirty : t.tbl.DirtyFits
  fresh : t.FreshFits
  numbered : t.tbl.Numbered

variable {fds : Nat → List Nat}

/-- The first of the dirty slots is taken off its list. -/
theorem attached_dequeueDirty (h : Attached t.tbl fds) : Attached t.tbl.dequeueDirty fds := by
  unfold FdTable.dequeueDirty
  cases hdirty : t.tbl.dirtyFds with
  | nil => exact h
  | cons i rest =>
      have hnodup := h.dirtyNodup
      rw [hdirty] at hnodup
      have hne : ∀ {j}, j ∈ rest → j ≠ i := by
        rintro j hj rfl
        exact (List.nodup_cons.mp hnodup).1 hj
      refine h.of_same (fun j => ?_) ?_ fun j hj => ?_
      · rw [FdTable.updFd_fds]
        split
        · subst j
          exact ⟨rfl, rfl, rfl, id, rfl⟩
        · exact Fd.Same.refl _
      · rw [hdirty]
        exact List.sublist_cons_self i rest
      · rw [FdTable.updFd_of_ne _ _ (hne hj)]
        exact h.dirtyQed j (hdirty ▸ List.mem_cons_of_mem i hj)

/-- Only the fresh list is changed. -/
theorem Lists.of_tbl (h : t.Lists fds) (htbl : u.tbl = t.tbl) (hfresh : u.FreshFits) : u.Lists fds where
  attached := htbl.symm ▸ h.attached
  dirty := htbl.symm ▸ h.dirty
  fresh := hfresh
  numbered := htbl.symm ▸ h.numbered

/-- What a driver does keeps the lists. -/
theorem Lists.of_edits (h : t.Lists fds) (hm : Edits t u) : u.Lists fds := by
  induction hm with
  | refl t => exact h
  | dequeueDirty t =>
      exact ⟨attached_dequeueDirty h.attached, h.dirty.dequeueDirty, h.fresh, h.numbered.dequeueDirty⟩
  | dropDirty t i => exact ⟨h.attached.dropDirty, h.dirty.dropDirty, h.fresh, h.numbered.dropDirty⟩
  | enqueueFresh t i => exact h.of_tbl (t.enqueueFresh_tbl i) h.fresh.enqueueFresh
  | dropFresh t i => exact h.of_tbl (t.dropFresh_tbl i) h.fresh.dropFresh
  | updFd t i f hf =>
      refine ⟨h.attached.updFd hf.toSame hf.dirtyQed, h.dirty.updFd hf.dirtyQed, h.fresh,
        h.numbered.updFd hf.number fun hi => ?_⟩
      rw [hf.allocated, hf.dirtyQed] at hi
      exact hi
  | trans _ _ ih ih' => exact ih' (ih h)

theorem Lists.dequeueFresh (h : t.Lists fds) : t.dequeueFresh.Lists fds :=
  h.of_tbl (dequeueFresh_tbl t) h.fresh.dequeueFresh

/-- A slot is on each list as often as it says. -/
theorem Lists.counts (h : t.Lists fds) (i : Nat) :
    t.tbl.dirtyFds.count i = (t.tbl.fds i).dirtyQed.toNat ∧
      t.freshFds.count i = (t.freshQed i).toNat ∧
      ∀ p, (fds p).count i = ((t.tbl.fds i).allocated && (t.tbl.fds i).procId == p).toNat := by
  refine ⟨(h.dirty i).2 trivial, (h.fresh i).2 trivial, fun p => ?_⟩
  by_cases hi : i ∈ fds p
  · obtain ⟨hallocated, hid⟩ := h.attached.owned p i hi
    rw [List.count_eq_one_of_mem (h.attached.nodup p) hi, hallocated, hid, beq_self_eq_true]
    rfl
  · have hnot : ((t.tbl.fds i).allocated && (t.tbl.fds i).procId == p) = false := by
      rw [Bool.eq_false_iff]
      intro hand
      obtain ⟨hallocated, hid⟩ := Bool.and_eq_true_iff.mp hand
      exact hi (eq_of_beq hid ▸ h.attached.allocated i hallocated)
    rw [List.count_eq_zero_of_not_mem hi, hnot]
    rfl

end PollTable

/-! ## What the processes do to the table -/

namespace Polled
variable {st : Polled}

theorem dirty_deallocateFd (h : st.tbl.DirtyFits) (i : Nat) : (st.deallocateFd i).tbl.DirtyFits := by
  unfold deallocateFd
  split
  · exact h.updFd rfl
  · exact h

theorem dirty_allocateFd (h : st.tbl.DirtyFits) (i : Nat) (fd : Int) :
    (st.allocateFd i fd).1.tbl.DirtyFits := by
  unfold allocateFd
  split
  · exact h
  · refine h.updFd ?_
    unfold Fd.allocate
    split <;> rfl

theorem dirty_reapClosed (h : st.tbl.DirtyFits) (i : Nat) : (st.reapClosed i).tbl.DirtyFits := by
  unfold reapClosed
  split
  · exact dirty_deallocateFd h.enqueueDirty i
  · exact h

theorem dirty_buryFd (h : st.tbl.DirtyFits) (i : Nat) : (st.buryFd i).tbl.DirtyFits :=
  dirty_deallocateFd
    (FdTable.DirtyFits.enqueueDirty (h.updFd rfl)) i

theorem dirty_prepollBlockedFd (h : st.tbl.DirtyFits) (s : Nat) (ioft : IoFuture) :
    (st.prepollBlockedFd s ioft).tbl.DirtyFits := by
  unfold prepollBlockedFd
  cases st.tbl.get ioft.event.fd with
  | none => exact h
  | some i =>
      have hst₁ : (if (st.tbl.fds i).allocated then st else
          (st.allocateFd i ioft.event.fd).1).tbl.DirtyFits := by
        split
        · exact h
        · exact dirty_allocateFd h i _
      dsimp only
      generalize (if (st.tbl.fds i).allocated then st else (st.allocateFd i ioft.event.fd).1) = st₁
        at hst₁ ⊢
      split
      · exact FdTable.DirtyFits.enqueueDirty (hst₁.updFd rfl)
      · exact hst₁.updFd rfl

theorem dirty_prepollBlockedSocket (h : st.tbl.DirtyFits) (s : Nat) :
    (st.prepollBlockedSocket s).tbl.DirtyFits := by
  have hside : ∀ (st : Polled) (c : Prop) [Decidable c] (ioft : IoFuture), st.tbl.DirtyFits →
      (if c then st.prepollBlockedFd s ioft else st).tbl.DirtyFits := by
    intro st c _ ioft h
    split
    · exact dirty_prepollBlockedFd h s ioft
    · exact h
  exact hside _ _ _ (hside st _ _ h)

/-- What one slot or socket does to the dirty list, a loop over them does. -/
theorem dirty_foldl {body : Polled → Nat → Polled}
    (hbody : ∀ (st : Polled) (i : Nat), st.tbl.DirtyFits → (body st i).tbl.DirtyFits)
    (is : List Nat) (h : st.tbl.DirtyFits) : (is.foldl body st).tbl.DirtyFits := by
  induction is generalizing st with
  | nil => exact h
  | cons i is ih => exact ih (hbody st i h)

theorem dirty_prepoll (h : st.tbl.DirtyFits) : st.prepoll.tbl.DirtyFits :=
  dirty_foldl (fun _ s h => dirty_prepollBlockedSocket h s) _
    (dirty_foldl (fun _ i h => dirty_reapClosed h i) _ h)

theorem dirty_prepollZombie (h : st.tbl.DirtyFits) : st.prepollZombie.tbl.DirtyFits :=
  dirty_foldl (fun _ i h => dirty_buryFd h i) _ h

/-- A slot whose number is right is made dirty and given up. -/
theorem numbered_giveUp (st : Polled) (h : st.tbl.Numbered) {i : Nat} (hi : (st.tbl.fds i).fd = i) :
    (({ st with tbl := st.tbl.enqueueDirty i } : Polled).deallocateFd i).tbl.Numbered := by
  have hdirty := h.enqueueDirty hi
  unfold deallocateFd
  split
  · exact hdirty.updFd (f := fun slot => { slot with allocated := false }) rfl
      fun _ => Or.inr (by rw [FdTable.enqueueDirty_self])
  · exact hdirty

theorem giveUp_number (st : Polled) (i j : Nat) :
    ((({ st with tbl := st.tbl.enqueueDirty i } : Polled).deallocateFd i).tbl.fds j).fd =
      (st.tbl.fds j).fd := by
  have hdirty : ((st.tbl.enqueueDirty i).fds j).fd = (st.tbl.fds j).fd := by
    by_cases hji : j = i
    · subst j
      rw [FdTable.enqueueDirty_self]
    · rw [FdTable.enqueueDirty_of_ne _ hji]
  unfold deallocateFd
  split
  · dsimp only
    rw [FdTable.updFd_fds]
    split
    · subst j
      exact hdirty
    · exact hdirty
  · exact hdirty

/-- What a loop over the slots of a process does, if each turn of it keeps the slots'
numbers. -/
theorem numbered_foldl {body : Polled → Nat → Polled}
    (hbody : ∀ (st : Polled) (i : Nat), st.tbl.Numbered → (st.tbl.fds i).fd = i →
      (body st i).tbl.Numbered)
    (hnumber : ∀ (st : Polled) (i j : Nat), ((body st i).tbl.fds j).fd = (st.tbl.fds j).fd)
    (is : List Nat) (h : st.tbl.Numbered) (his : ∀ i ∈ is, (st.tbl.fds i).fd = i) :
    (is.foldl body st).tbl.Numbered := by
  induction is generalizing st with
  | nil => exact h
  | cons i is ih =>
      refine ih (hbody st i h (his i List.mem_cons_self)) fun j hj => ?_
      rw [hnumber]
      exact his j (List.mem_cons_of_mem _ hj)

theorem numbered_prepollZombie (h : st.tbl.Numbered)
    (hown : ∀ i ∈ st.proc.allocatedFds, (st.tbl.fds i).allocated = true) :
    st.prepollZombie.tbl.Numbered := by
  let bury : Fd → Fd := fun slot =>
    { slot with ioftPre := { slot.ioftPre with rxClosed := true, txClosed := true }, zombie := true }
  have hnumber : ∀ (st : Polled) (i j : Nat), ((st.tbl.updFd i bury).fds j).fd = (st.tbl.fds j).fd := by
    intro st i j
    rw [FdTable.updFd_fds]
    split
    · subst j
      rfl
    · rfl
  refine numbered_foldl (fun st i h hi => ?_) (fun st i j => ?_) _ h
    fun i hi => h i (Or.inl (hown i hi))
  · exact numbered_giveUp { st with tbl := st.tbl.updFd i bury } (h.updFd rfl id)
      ((hnumber st i i).trans hi)
  · exact (giveUp_number { st with tbl := st.tbl.updFd i bury } i j).trans (hnumber st i j)

theorem numbered_prepollBlockedFd (h : st.tbl.Numbered) (s : Nat) (ioft : IoFuture) :
    (st.prepollBlockedFd s ioft).tbl.Numbered := by
  cases hget : st.tbl.get ioft.event.fd with
  | none =>
      have hst : st.prepollBlockedFd s ioft = st := by simp only [prepollBlockedFd, hget]
      rw [hst]
      exact h
  | some i =>
      have hfd : ioft.event.fd = i := by
        unfold FdTable.get at hget
        split at hget
        · cases hget
          omega
        · cases hget
      have hput : ∀ (st₁ : Polled) (ioft' : IoFuture) (c : Prop) [Decidable c], st₁.tbl.Numbered →
          (st₁.tbl.fds i).fd = i →
          (if c then
            { st₁ with tbl :=
              (st₁.tbl.updFd i fun slot => { slot with ioftPre := ioft' }).enqueueDirty i }
          else
            { st₁ with tbl := st₁.tbl.updFd i fun slot => { slot with ioftPre := ioft' } } :
            Polled).tbl.Numbered := by
        intro st₁ ioft' c _ h₁ hi
        have hupd := h₁.updFd (i := i) (f := fun slot => { slot with ioftPre := ioft' }) rfl id
        split
        · exact hupd.enqueueDirty (by rw [FdTable.updFd_self]; exact hi)
        · exact hupd
      simp only [prepollBlockedFd, hget]
      by_cases hallocated : (st.tbl.fds i).allocated = true
      · rw [if_pos hallocated]
        exact hput st _ _ h (h i (Or.inl hallocated))
      · rw [if_neg hallocated]
        have hnot : (st.tbl.fds i).allocated = false := by simpa using hallocated
        have hself : ((st.tbl.updFd i fun slot => slot.allocate ioft.event.fd st.proc.procId).fds i).fd =
            i := by
          simp [Fd.allocate, hnot, hfd]
        have hnumbered : (st.tbl.updFd i fun slot =>
            slot.allocate ioft.event.fd st.proc.procId).Numbered := by
          intro j hj
          by_cases hji : j = i
          · subst j
            exact hself
          · rw [FdTable.updFd_of_ne _ _ hji] at hj ⊢
            exact h j hj
        simp only [allocateFd, if_neg hallocated]
        exact hput ⟨_, _⟩ _ _ hnumbered hself

theorem numbered_prepollBlockedSocket (h : st.tbl.Numbered) (s : Nat) :
    (st.prepollBlockedSocket s).tbl.Numbered := by
  have hside : ∀ (st : Polled) (c : Prop) [Decidable c] (ioft : IoFuture), st.tbl.Numbered →
      (if c then st.prepollBlockedFd s ioft else st).tbl.Numbered := by
    intro st c _ ioft h
    split
    · exact numbered_prepollBlockedFd h s ioft
    · exact h
  exact hside _ _ _ (hside st _ _ h)

theorem numbered_prepoll (h : st.tbl.Numbered)
    (hown : ∀ i ∈ st.proc.allocatedFds, (st.tbl.fds i).allocated = true) :
    st.prepoll.tbl.Numbered := by
  have hsockets : ∀ (ss : List Nat) (st : Polled), st.tbl.Numbered →
      (ss.foldl prepollBlockedSocket st).tbl.Numbered := by
    intro ss
    induction ss with
    | nil => exact fun st h => h
    | cons s ss ih => exact fun st h => ih _ (numbered_prepollBlockedSocket h s)
  refine hsockets _ _ (numbered_foldl (fun st i h hi => ?_) (fun st i j => ?_) _ h
    fun i hi => h i (Or.inl (hown i hi)))
  · unfold reapClosed
    split
    · exact numbered_giveUp st h hi
    · exact h
  · unfold reapClosed
    split
    · exact giveUp_number st i j
    · rfl

end Polled

/-! ## Runs of the table -/

/-- The table with its drivers, and the list of each process. -/
structure FdState where
  wait : WaitTable
  fds : Nat → List Nat

/-- What is done to the table: `vk_proc_prepoll` for process `p`, the same for one that
has ended, a poll round, and a fresh slot is taken. -/
inductive FdAct where
  | prepoll (p : Nat) (pl : ProcLocal)
  | prepollZombie (p : Nat)
  | wait (driver : Driver) (pending : Bool) (answer : Answer)
  | dequeueFresh

namespace FdState

/-- A table as it is allocated. -/
def init (size : Nat) : FdState where
  wait :=
    { table := ⟨⟨size, [], fun _ => ⟨0, 0, false, false, false, false, false,
        ⟨none, ⟨0, 0, 0⟩, 0, 0, false, false⟩⟩⟩, [], fun _ => false⟩
      post := fun _ => 0
      kqNchanges := 0
      interest := []
      ctls := [] }
  fds := fun _ => []

def table (s : FdState) : PollTable := s.wait.table

def polled (s : FdState) (p : Nat) (pl : ProcLocal) : Polled := ⟨⟨p, s.fds p, pl⟩, s.table.tbl⟩

def setPolled (s : FdState) (p : Nat) (st : Polled) : FdState where
  wait := s.wait.setTable { s.table with tbl := st.tbl }
  fds := Function.update s.fds p st.proc.allocatedFds

/-- One operation.  Any of them can come at any time. -/
def step : FdAct → FdState → Option FdState
  | .prepoll p pl, s => some (s.setPolled p (s.polled p pl).prepoll)
  | .prepollZombie p, s => some (s.setPolled p (s.polled p ProcLocal.init).prepollZombie)
  | .wait driver pending answer, s => some { s with wait := (s.wait.wait driver pending answer).1 }
  | .dequeueFresh, s => some { s with wait := s.wait.setTable s.table.dequeueFresh }

theorem lists_setPolled {s : FdState} {p : Nat} {st : Polled} (h : s.table.Lists s.fds)
    (hst : st.Attached s.fds) (hid : st.proc.procId = p) (hdirty : st.tbl.DirtyFits)
    (hnumbered : st.tbl.Numbered) : (s.setPolled p st).table.Lists (s.setPolled p st).fds :=
  ⟨hid ▸ hst, hdirty, h.fresh, hnumbered⟩

/-- Each operation keeps the lists in agreement with the slots. -/
theorem lists_step {a : FdAct} {s s' : FdState} (h : s.table.Lists s.fds) (hst : step a s = some s') :
    s'.table.Lists s'.fds := by
  have hatt : ∀ p pl, (s.polled p pl).Attached s.fds := by
    intro p pl
    show Attached s.table.tbl (Function.update s.fds p (s.fds p))
    rw [Function.update_eq_self]
    exact h.attached
  have hown : ∀ p, ∀ i ∈ s.fds p, (s.table.tbl.fds i).allocated = true :=
    fun p i hi => (h.attached.owned p i hi).1
  cases a with
  | prepoll p pl =>
      obtain rfl := Option.some.inj hst
      obtain ⟨hprepoll, hid⟩ := Polled.attached_prepoll (hatt p pl)
      exact lists_setPolled h hprepoll hid (Polled.dirty_prepoll h.dirty)
        (Polled.numbered_prepoll h.numbered (hown p))
  | prepollZombie p =>
      obtain rfl := Option.some.inj hst
      obtain ⟨hzombie, hid, -⟩ := Polled.attached_prepollZombie (hatt p ProcLocal.init)
      exact lists_setPolled h hzombie hid (Polled.dirty_prepollZombie h.dirty)
        (Polled.numbered_prepollZombie h.numbered (hown p))
  | wait driver pending answer =>
      obtain rfl := Option.some.inj hst
      exact h.of_edits (s.wait.edits_wait driver pending answer)
  | dequeueFresh =>
      obtain rfl := Option.some.inj hst
      exact h.dequeueFresh

theorem lists_init (size : Nat) : (init size).table.Lists (init size).fds where
  attached := ⟨nofun, nofun, fun _ => List.nodup_nil, nofun, nofun, nofun, List.nodup_nil,
    fun i hi => by rcases hi with hi | hi <;> cases hi⟩
  dirty _ := QueueFits.of_eq rfl
  fresh _ := QueueFits.of_eq rfl
  numbered i hi := by rcases hi with hi | hi <;> cases hi

theorem lists_of_run {size : Nat} {as : List FdAct} {s : FdState}
    (hrun : run step as (init size) = some s) : s.table.Lists s.fds :=
  run_induction (fun _ _ _ h hst => lists_step h hst) (lists_init size) hrun

/-- After any operations in any order, each slot is on the dirty list and on the fresh
list once if it is flagged so and not at all if not, and on the list of a process once
if it is allocated and names that process, and not at all if not. -/
theorem lists_agree {size : Nat} {as : List FdAct} {s : FdState}
    (hrun : run step as (init size) = some s) (i : Nat) :
    s.table.tbl.dirtyFds.count i = (s.table.tbl.fds i).dirtyQed.toNat ∧
      s.table.freshFds.count i = (s.table.freshQed i).toNat ∧
      ∀ p, (s.fds p).count i =
        ((s.table.tbl.fds i).allocated && (s.table.tbl.fds i).procId == p).toNat :=
  (lists_of_run hrun).counts i

/-- A connection is registered and polled, and its process ends. -/
def connectionActs : List FdAct :=
  [.prepoll 0 connection, .wait .poll true ⟨some fun _ => POLLIN, fun _ => true, fun _ => none, none⟩,
    .prepollZombie 0, .dequeueFresh]

theorem lists_agree_connection :
    ∃ s, run step connectionActs (init 8) = some s ∧
      ∀ i, s.table.tbl.dirtyFds.count i = (s.table.tbl.fds i).dirtyQed.toNat ∧
        s.table.freshFds.count i = (s.table.freshQed i).toNat ∧
        ∀ p, (s.fds p).count i =
          ((s.table.tbl.fds i).allocated && (s.table.tbl.fds i).procId == p).toNat := by
  obtain ⟨s, hs⟩ : ∃ s, run step connectionActs (init 8) = some s := ⟨_, rfl⟩
  exact ⟨s, hs, lists_agree hs⟩

end FdState

end Vk

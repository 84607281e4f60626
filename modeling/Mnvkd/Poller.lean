/-
# `Mnvkd.Poller` — the poller, and the descriptors of a dead process

The driver of `vk_fd_table_poll` first cleans the dirty slots: those of a zombie
leave both queues and are closed.  The rest it polls, and a slot with an event
is put on the fresh queue, by which `vk_kern_postpoll` finds the process to run.
It is the driver the table starts with; those that keep their registrations with
the operating system are in `Mnvkd.Drivers`.

A slot that is allocated is on the list of the process it carries, and a slot
that is dirty is allocated, or a zombie's, or closed (`Attached`).  Hence a slot is
fresh only while some process has it (`fresh_poll`).
-/
import Mnvkd.FdTable

namespace Vk

/-- `struct vk_fd_table` with its fresh queue. -/
structure PollTable where
  tbl : FdTable
  freshFds : List Nat
  freshQed : Nat → Bool

/-- `vk_fd_table_drop_dirty`. -/
def FdTable.dropDirty (tbl : FdTable) (i : Nat) : FdTable :=
  if (tbl.fds i).dirtyQed then
    { tbl with dirtyFds := tbl.dirtyFds.erase i }.updFd i fun slot => { slot with dirtyQed := false }
  else tbl

namespace PollTable

/-- `vk_fd_table_enqueue_fresh`. -/
def enqueueFresh (t : PollTable) (i : Nat) : PollTable :=
  if t.freshQed i then t
  else { t with freshFds := i :: t.freshFds, freshQed := Function.update t.freshQed i true }

/-- `vk_fd_table_drop_fresh`. -/
def dropFresh (t : PollTable) (i : Nat) : PollTable :=
  if t.freshQed i then
    { t with freshFds := t.freshFds.erase i, freshQed := Function.update t.freshQed i false }
  else t

def dropDirty (t : PollTable) (i : Nat) : PollTable := { t with tbl := t.tbl.dropDirty i }

def updFd (t : PollTable) (i : Nat) (f : Fd → Fd) : PollTable := { t with tbl := t.tbl.updFd i f }

/-- `vk_fd_table_clean_fd`. -/
def cleanFd (t : PollTable) (i : Nat) : PollTable :=
  let slot := t.tbl.fds i
  let t := if slot.zombie then (t.dropDirty i).dropFresh i else t
  if !slot.closed && (slot.zombie || (slot.ioftPre.rxClosed && slot.ioftPre.txClosed)) then
    let t := (t.updFd i fun slot => { slot with closed := true }).dropDirty i
    if slot.zombie then t else t.enqueueFresh i
  else t

/-- `vk_fd_table_process_fd`, on a slot the poller was given the events of. -/
def processFd (t : PollTable) (i : Nat) (revents : Events) : PollTable :=
  let t := if revents ≠ 0 then t.enqueueFresh i else t
  let events := (t.tbl.fds i).ioftPre.event.events
  if events &&& revents = events then
    -- drop returned events
    let rest := events ^^^ (revents &&& events)
    let t := t.updFd i fun slot =>
      { slot with ioftPre := { slot.ioftPre with event := { slot.ioftPre.event with events := rest } } }
    if rest = 0 then t.dropDirty i else t
  else t

/-- The dirty slots are cleaned.  What cleaning one does to the others is
nothing, so the poll array can be built afterwards. -/
def clean (t : PollTable) : PollTable := t.tbl.dirtyFds.foldl cleanFd t

/-- The poll array: the descriptors of the dirty slots with something to poll for. -/
def toPoll (t : PollTable) (dirty : List Nat) : List Int :=
  (dirty.filter fun i => !(t.tbl.fds i).closed && (t.tbl.fds i).ioftPre.event.events != 0).map
    fun i => (t.tbl.fds i).ioftPre.event.fd

/-- What `poll(2)` returned is processed. -/
def pollFds (t : PollTable) (revents : Int → Events) (fds : List Int) : PollTable :=
  fds.foldl (fun t fd =>
    match t.tbl.get fd with
    | some i => t.processFd i (revents fd)
    | none => t) t

/-- `vk_fd_table_poll`.  `pending`: what `vk_kern_pending` says. -/
def poll (t : PollTable) (pending : Bool) (revents : Int → Events) : PollTable :=
  if pending then t.clean.pollFds revents (t.clean.toPoll t.tbl.dirtyFds) else t.clean

end PollTable

namespace Polled

/-- One descriptor of `vk_fd_table_prepoll_zombie`. -/
def buryFd (st : Polled) (i : Nat) : Polled :=
  let tbl := st.tbl.updFd i fun slot =>
    { slot with ioftPre := { slot.ioftPre with rxClosed := true, txClosed := true }, zombie := true }
  ({ st with tbl := tbl.enqueueDirty i }).deallocateFd i

/-- `vk_fd_table_prepoll_zombie`. -/
def prepollZombie (st : Polled) : Polled := st.proc.allocatedFds.foldl buryFd st

end Polled

/-! ## Slots and processes -/

/-- The slots and the processes' lists of them agree: `fds p` is the list of
process `p`. -/
structure Attached (tbl : FdTable) (fds : Nat → List Nat) : Prop where
  allocated : ∀ i, (tbl.fds i).allocated = true → i ∈ fds (tbl.fds i).procId
  owned : ∀ p, ∀ i ∈ fds p, (tbl.fds i).allocated = true ∧ (tbl.fds i).procId = p
  nodup : ∀ p, (fds p).Nodup
  zombie : ∀ i, (tbl.fds i).allocated = true → (tbl.fds i).zombie = false
  dirty : ∀ i ∈ tbl.dirtyFds,
    (tbl.fds i).allocated = true ∨ (tbl.fds i).zombie = true ∨ (tbl.fds i).closed = true
  dirtyQed : ∀ i ∈ tbl.dirtyFds, (tbl.fds i).dirtyQed = true
  dirtyNodup : tbl.dirtyFds.Nodup
  named : ∀ i, (tbl.fds i).allocated = true ∨ i ∈ tbl.dirtyFds → (tbl.fds i).ioftPre.event.fd = i

/-- What a slot means to the processes is the same, but that it may be closed. -/
structure Fd.Same (slot slot' : Fd) : Prop where
  allocated : slot'.allocated = slot.allocated
  procId : slot'.procId = slot.procId
  zombie : slot'.zombie = slot.zombie
  closed : slot.closed = true → slot'.closed = true
  fd : slot'.ioftPre.event.fd = slot.ioftPre.event.fd

theorem Fd.Same.refl (slot : Fd) : slot.Same slot := ⟨rfl, rfl, rfl, id, rfl⟩

theorem Fd.Same.trans {a b c : Fd} (h : a.Same b) (h' : b.Same c) : a.Same c :=
  ⟨h'.allocated.trans h.allocated, h'.procId.trans h.procId, h'.zombie.trans h.zombie,
    h'.closed ∘ h.closed, h'.fd.trans h.fd⟩

namespace FdTable
variable (tbl : FdTable) (i j : Nat)

theorem updFd_of_ne {i j : Nat} (f : Fd → Fd) (h : j ≠ i) : (tbl.updFd i f).fds j = tbl.fds j := by
  rw [updFd_fds, if_neg h]

theorem enqueueDirty_self : ((tbl.enqueueDirty i).fds i) = { tbl.fds i with dirtyQed := true } := by
  unfold enqueueDirty
  split
  · rename_i h
    rw [← h]
  · exact updFd_self { tbl with dirtyFds := i :: tbl.dirtyFds } i _

theorem enqueueDirty_of_ne {i j : Nat} (h : j ≠ i) : (tbl.enqueueDirty i).fds j = tbl.fds j := by
  unfold enqueueDirty
  split
  · rfl
  · exact updFd_of_ne { tbl with dirtyFds := i :: tbl.dirtyFds } _ h

theorem enqueueDirty_dirtyFds :
    (tbl.enqueueDirty i).dirtyFds =
      if (tbl.fds i).dirtyQed then tbl.dirtyFds else i :: tbl.dirtyFds := by
  unfold enqueueDirty
  split <;> rfl

theorem dropDirty_same : (tbl.fds j).Same ((tbl.dropDirty i).fds j) := by
  unfold dropDirty
  split
  · rw [updFd_fds]
    split
    · subst j
      exact ⟨rfl, rfl, rfl, id, rfl⟩
    · exact Fd.Same.refl _
  · exact Fd.Same.refl _

theorem dropDirty_of_ne {i j : Nat} (h : j ≠ i) : (tbl.dropDirty i).fds j = tbl.fds j := by
  unfold dropDirty
  split
  · exact updFd_of_ne { tbl with dirtyFds := tbl.dirtyFds.erase i } _ h
  · rfl

theorem dropDirty_dirtyFds :
    (tbl.dropDirty i).dirtyFds = if (tbl.fds i).dirtyQed then tbl.dirtyFds.erase i else tbl.dirtyFds := by
  unfold dropDirty
  split <;> rfl

end FdTable

namespace Attached
variable {tbl u : FdTable} {fds : Nat → List Nat} {p i : Nat}

/-- No other process has the slots of `p`. -/
theorem notMem_of_not_allocated (h : Attached tbl fds) (hi : (tbl.fds i).allocated = false) (q : Nat) :
    i ∉ fds q := fun hq => by
  rw [(h.owned q i hq).1] at hi
  cases hi

/-- Slots that mean the same to the processes, with no more of them dirty. -/
theorem of_same (h : Attached tbl fds) (hsame : ∀ j, (tbl.fds j).Same (u.fds j))
    (hdirty : u.dirtyFds.Sublist tbl.dirtyFds)
    (hqed : ∀ j ∈ u.dirtyFds, (u.fds j).dirtyQed = true) : Attached u fds where
  allocated j hj := by
    rw [(hsame j).procId]
    exact h.allocated j ((hsame j).allocated.symm.trans hj)
  owned q j hj := by
    rw [(hsame j).allocated, (hsame j).procId]
    exact h.owned q j hj
  nodup := h.nodup
  zombie j hj := (hsame j).zombie.trans (h.zombie j ((hsame j).allocated.symm.trans hj))
  dirty j hj := by
    rw [(hsame j).allocated, (hsame j).zombie]
    exact (h.dirty j (hdirty.subset hj)).imp_right (Or.imp_right (hsame j).closed)
  dirtyQed := hqed
  dirtyNodup := hdirty.nodup h.dirtyNodup
  named j hj := by
    rw [(hsame j).fd]
    exact h.named j (hj.imp (hsame j).allocated.symm.trans fun hj => hdirty.subset hj)

theorem updFd (h : Attached tbl fds) {f : Fd → Fd} (hf : (tbl.fds i).Same (f (tbl.fds i)))
    (hqed : (f (tbl.fds i)).dirtyQed = (tbl.fds i).dirtyQed) : Attached (tbl.updFd i f) fds := by
  refine h.of_same (fun j => ?_) (List.Sublist.refl _) fun j hj => ?_
  · rw [FdTable.updFd_fds]
    split
    · subst j
      exact hf
    · exact Fd.Same.refl _
  · rw [FdTable.updFd_fds]
    split
    · subst j
      exact hqed.trans (h.dirtyQed _ hj)
    · exact h.dirtyQed j hj

theorem dropDirty (h : Attached tbl fds) : Attached (tbl.dropDirty i) fds := by
  refine h.of_same (tbl.dropDirty_same i) ?_ fun j hj => ?_
  · rw [FdTable.dropDirty_dirtyFds]
    split
    · exact List.erase_sublist
    · exact List.Sublist.refl _
  · rw [FdTable.dropDirty_dirtyFds] at hj
    by_cases hji : j = i
    · subst j
      split at hj
      · exact absurd hj h.dirtyNodup.not_mem_erase
      · rename_i hqed
        exact absurd (h.dirtyQed i hj) hqed
    · rw [FdTable.dropDirty_of_ne tbl hji]
      split at hj
      · exact h.dirtyQed j (List.mem_of_mem_erase hj)
      · exact h.dirtyQed j hj

/-- An allocated slot is made dirty. -/
theorem enqueueDirty (h : Attached tbl fds) (hi : (tbl.fds i).allocated = true) :
    Attached (tbl.enqueueDirty i) fds := by
  have hself := tbl.enqueueDirty_self i
  have hother : ∀ {j}, j ≠ i → (tbl.enqueueDirty i).fds j = tbl.fds j := tbl.enqueueDirty_of_ne
  have hsame : ∀ j, (tbl.fds j).Same ((tbl.enqueueDirty i).fds j) := by
    intro j
    by_cases hji : j = i
    · subst j
      rw [hself]
      exact ⟨rfl, rfl, rfl, id, rfl⟩
    · rw [hother hji]
      exact Fd.Same.refl _
  have hmem : ∀ {j}, j ≠ i → j ∈ (tbl.enqueueDirty i).dirtyFds → j ∈ tbl.dirtyFds := by
    intro j hji hj
    rw [FdTable.enqueueDirty_dirtyFds] at hj
    split at hj
    · exact hj
    · exact List.mem_of_ne_of_mem hji hj
  refine ⟨fun j hj => ?_, fun q j hj => ?_, h.nodup, fun j hj => ?_, fun j hj => ?_, fun j hj => ?_, ?_,
    fun j hj => ?_⟩
  · rw [(hsame j).procId]
    exact h.allocated j ((hsame j).allocated.symm.trans hj)
  · rw [(hsame j).allocated, (hsame j).procId]
    exact h.owned q j hj
  · exact (hsame j).zombie.trans (h.zombie j ((hsame j).allocated.symm.trans hj))
  · by_cases hji : j = i
    · subst j
      exact Or.inl ((hsame i).allocated.trans hi)
    · rw [hother hji]
      exact h.dirty j (hmem hji hj)
  · by_cases hji : j = i
    · subst j
      rw [hself]
    · rw [hother hji]
      exact h.dirtyQed j (hmem hji hj)
  · rw [FdTable.enqueueDirty_dirtyFds]
    split
    · exact h.dirtyNodup
    · rename_i hqed
      exact List.nodup_cons.mpr ⟨fun hj => hqed (h.dirtyQed i hj), h.dirtyNodup⟩
  · rw [(hsame j).fd]
    by_cases hji : j = i
    · subst j
      exact h.named i (Or.inl hi)
    · exact h.named j (hj.imp (hsame j).allocated.symm.trans (hmem hji))

/-- A slot of process `p` is given up: it stays dirty, and is a zombie's or closed. -/
theorem release (h : Attached tbl fds) (hi : i ∈ fds p) (hother : ∀ j, j ≠ i → u.fds j = tbl.fds j)
    (hallocated : (u.fds i).allocated = false)
    (hdead : (u.fds i).zombie = true ∨ (u.fds i).closed = true)
    (hfd : (u.fds i).ioftPre.event.fd = (tbl.fds i).ioftPre.event.fd)
    (hqed : (u.fds i).dirtyQed = true)
    (hdirty : u.dirtyFds = if (tbl.fds i).dirtyQed then tbl.dirtyFds else i :: tbl.dirtyFds) :
    Attached u (Function.update fds p ((fds p).erase i)) := by
  have hmem : ∀ {j}, j ≠ i → j ∈ u.dirtyFds → j ∈ tbl.dirtyFds := by
    intro j hji hj
    rw [hdirty] at hj
    split at hj
    · exact hj
    · exact List.mem_of_ne_of_mem hji hj
  have hne : ∀ {j}, (u.fds j).allocated = true → j ≠ i := by
    rintro j hj rfl
    rw [hallocated] at hj
    cases hj
  refine ⟨fun j hj => ?_, fun q j hj => ?_, fun q => ?_, fun j hj => ?_, fun j hj => ?_, fun j hj => ?_,
    ?_, fun j hj => ?_⟩
  · have hji := hne hj
    rw [hother j hji] at hj ⊢
    have hjq := h.allocated j hj
    rw [Function.update_apply]
    split
    · rename_i hq
      rw [hq] at hjq
      exact (List.mem_erase_of_ne hji).mpr hjq
    · exact hjq
  · rw [Function.update_apply] at hj
    split at hj
    · subst q
      have hji : j ≠ i := by
        rintro rfl
        exact (h.nodup p).not_mem_erase hj
      rw [hother j hji]
      exact h.owned p j (List.mem_of_mem_erase hj)
    · rename_i hq
      have hji : j ≠ i := by
        rintro rfl
        exact hq ((h.owned q j hj).2.symm.trans (h.owned p j hi).2)
      rw [hother j hji]
      exact h.owned q j hj
  · rw [Function.update_apply]
    split
    · exact (h.nodup p).erase i
    · exact h.nodup q
  · have hji := hne hj
    rw [hother j hji] at hj ⊢
    exact h.zombie j hj
  · by_cases hji : j = i
    · subst j
      exact Or.inr hdead
    · rw [hother j hji]
      exact h.dirty j (hmem hji hj)
  · by_cases hji : j = i
    · subst j
      exact hqed
    · rw [hother j hji]
      exact h.dirtyQed j (hmem hji hj)
  · rw [hdirty]
    split
    · exact h.dirtyNodup
    · rename_i hq
      exact List.nodup_cons.mpr ⟨fun hj => hq (h.dirtyQed i hj), h.dirtyNodup⟩
  · by_cases hji : j = i
    · subst j
      rw [hfd]
      exact h.named i (Or.inl (h.owned p i hi).1)
    · rw [hother j hji] at hj ⊢
      exact h.named j (hj.imp_right (hmem hji))

/-- A slot that no process has is allocated to `p`, its future already put there. -/
theorem allocate (h : Attached tbl fds) (hi : (tbl.fds i).allocated = false)
    (hother : ∀ j, j ≠ i → u.fds j = tbl.fds j) (hallocated : (u.fds i).allocated = true)
    (hproc : (u.fds i).procId = p) (hzombie : (u.fds i).zombie = false)
    (hfd : (u.fds i).ioftPre.event.fd = i)
    (hqed : (u.fds i).dirtyQed = (tbl.fds i).dirtyQed) (hdirty : u.dirtyFds = tbl.dirtyFds) :
    Attached u (Function.update fds p (i :: fds p)) := by
  refine ⟨fun j hj => ?_, fun q j hj => ?_, fun q => ?_, fun j hj => ?_, fun j hj => ?_, fun j hj => ?_,
    by rw [hdirty]; exact h.dirtyNodup, fun j hj => ?_⟩
  · by_cases hji : j = i
    · subst j
      rw [hproc, Function.update_self]
      exact List.mem_cons_self
    · rw [hother j hji] at hj ⊢
      have hjq := h.allocated j hj
      rw [Function.update_apply]
      split
      · rename_i hq
        rw [hq] at hjq
        exact List.mem_cons_of_mem _ hjq
      · exact hjq
  · rw [Function.update_apply] at hj
    have hmem : j = i ∧ q = p ∨ j ∈ fds q := by
      split at hj
      · subst q
        exact (List.mem_cons.mp hj).imp_left fun hj => ⟨hj, rfl⟩
      · exact Or.inr hj
    clear hj
    obtain ⟨rfl, rfl⟩ | hj := hmem
    · exact ⟨hallocated, hproc⟩
    · have hji : j ≠ i := by
        rintro rfl
        exact h.notMem_of_not_allocated hi q hj
      rw [hother j hji]
      exact h.owned q j hj
  · rw [Function.update_apply]
    split
    · exact List.nodup_cons.mpr ⟨h.notMem_of_not_allocated hi p, h.nodup p⟩
    · exact h.nodup q
  · by_cases hji : j = i
    · subst j
      exact hzombie
    · rw [hother j hji] at hj ⊢
      exact h.zombie j hj
  · by_cases hji : j = i
    · subst j
      exact Or.inl hallocated
    · rw [hother j hji]
      exact h.dirty j (hdirty ▸ hj)
  · by_cases hji : j = i
    · subst j
      rw [hqed]
      exact h.dirtyQed i (hdirty ▸ hj)
    · rw [hother j hji]
      exact h.dirtyQed j (hdirty ▸ hj)
  · by_cases hji : j = i
    · subst j
      exact hfd
    · rw [hother j hji] at hj ⊢
      exact h.named j (by rw [hdirty] at hj; exact hj)

end Attached

/-! ## Prepoll -/

namespace Polled
variable {st : Polled} {fds : Nat → List Nat} {i : Nat}

/-- The slots agree with the lists, the process's own in the place it has in `fds`. -/
def Attached (st : Polled) (fds : Nat → List Nat) : Prop :=
  Vk.Attached st.tbl (Function.update fds st.proc.procId st.proc.allocatedFds)

/-- What a slot of the process is after it has been given up. -/
theorem attached_deallocateFd {tbl : FdTable} (h : st.Attached fds) (hi : i ∈ st.proc.allocatedFds)
    (hother : ∀ j, j ≠ i → tbl.fds j = st.tbl.fds j) (hallocated : (tbl.fds i).allocated = true)
    (hdead : (tbl.fds i).zombie = true ∨ (tbl.fds i).closed = true)
    (hfd : (tbl.fds i).ioftPre.event.fd = (st.tbl.fds i).ioftPre.event.fd)
    (hqed : (tbl.fds i).dirtyQed = (st.tbl.fds i).dirtyQed)
    (hdirty : tbl.dirtyFds = st.tbl.dirtyFds) :
    (({ st with tbl := tbl.enqueueDirty i } : Polled).deallocateFd i).Attached fds := by
  have hself := tbl.enqueueDirty_self i
  have halloc : (((tbl.enqueueDirty i).fds i).allocated) = true := by rw [hself]; exact hallocated
  have hfds : Function.update fds st.proc.procId st.proc.allocatedFds st.proc.procId =
      st.proc.allocatedFds := Function.update_self _ _ _
  have hrel := Vk.Attached.release (p := st.proc.procId) (i := i)
    (u := (tbl.enqueueDirty i).updFd i fun slot => { slot with allocated := false }) h
    (by rw [hfds]; exact hi)
    (fun j hj => by
      rw [FdTable.updFd_of_ne _ _ hj, FdTable.enqueueDirty_of_ne _ hj]
      exact hother j hj)
    (by rw [FdTable.updFd_self])
    (by rw [FdTable.updFd_self, hself]; exact hdead)
    (by rw [FdTable.updFd_self, hself]; exact hfd)
    (by rw [FdTable.updFd_self, hself])
    (by
      show (tbl.enqueueDirty i).dirtyFds = _
      rw [FdTable.enqueueDirty_dirtyFds, hqed, hdirty])
  rw [hfds, Function.update_idem] at hrel
  rw [deallocateFd, if_pos halloc]
  exact hrel

theorem attached_reapClosed (h : st.Attached fds) (hi : i ∈ st.proc.allocatedFds) :
    (st.reapClosed i).Attached fds := by
  unfold reapClosed
  split
  · rename_i hclosed
    have hown := Vk.Attached.owned h st.proc.procId i (by rw [Function.update_self]; exact hi)
    exact attached_deallocateFd h hi (fun _ _ => rfl) hown.1 (Or.inr hclosed) rfl rfl rfl
  · exact h

theorem attached_buryFd (h : st.Attached fds) (hi : i ∈ st.proc.allocatedFds) :
    (st.buryFd i).Attached fds := by
  have hown := Vk.Attached.owned h st.proc.procId i (by rw [Function.update_self]; exact hi)
  exact attached_deallocateFd h hi (fun j hj => FdTable.updFd_of_ne _ _ hj)
    (by rw [FdTable.updFd_self]; exact hown.1) (Or.inl (by rw [FdTable.updFd_self]))
    (by rw [FdTable.updFd_self]) (by rw [FdTable.updFd_self]) rfl

/-- A slot of the process is given up, or nothing is done. -/
theorem reapClosed_proc (st : Polled) (i : Nat) :
    (st.reapClosed i).proc = st.proc ∨
      (st.reapClosed i).proc =
        { st.proc with allocatedFds := st.proc.allocatedFds.erase i } := by
  unfold reapClosed deallocateFd
  split
  · dsimp only
    split
    · exact Or.inr rfl
    · exact Or.inl rfl
  · exact Or.inl rfl

theorem buryFd_proc (h : st.Attached fds) (hi : i ∈ st.proc.allocatedFds) :
    (st.buryFd i).proc = { st.proc with allocatedFds := st.proc.allocatedFds.erase i } := by
  have hown := Vk.Attached.owned h st.proc.procId i (by rw [Function.update_self]; exact hi)
  unfold buryFd deallocateFd
  rw [if_pos]
  rw [FdTable.enqueueDirty_self, FdTable.updFd_self]
  exact hown.1

theorem attached_reapClosed_foldl (is : List Nat) (h : st.Attached fds) (hnodup : is.Nodup)
    (his : ∀ i ∈ is, i ∈ st.proc.allocatedFds) :
    (is.foldl reapClosed st).Attached fds ∧
      (is.foldl reapClosed st).proc.procId = st.proc.procId ∧
      (is.foldl reapClosed st).proc.localPtr = st.proc.localPtr := by
  induction is generalizing st with
  | nil => exact ⟨h, rfl, rfl⟩
  | cons i is ih =>
      have hnodup := List.nodup_cons.mp hnodup
      have hproc := st.reapClosed_proc i
      have hrest : ∀ j ∈ is, j ∈ (st.reapClosed i).proc.allocatedFds := by
        intro j hj
        have hji : j ≠ i := by
          rintro rfl
          exact hnodup.1 hj
        have hmem := his j (List.mem_cons_of_mem _ hj)
        obtain hproc | hproc := hproc <;> rw [hproc]
        · exact hmem
        · exact (List.mem_erase_of_ne hji).mpr hmem
      obtain ⟨h', hid, hlocal⟩ :=
        ih (attached_reapClosed h (his i List.mem_cons_self)) hnodup.2 hrest
      refine ⟨h', hid.trans ?_, hlocal.trans ?_⟩
      · obtain hproc | hproc := hproc <;> rw [hproc]
      · obtain hproc | hproc := hproc <;> rw [hproc]

/-- A zombie gives up all its slots. -/
theorem attached_prepollZombie (h : st.Attached fds) :
    st.prepollZombie.Attached fds ∧ st.prepollZombie.proc.procId = st.proc.procId ∧
      st.prepollZombie.proc.allocatedFds = [] := by
  unfold prepollZombie
  generalize his : st.proc.allocatedFds = is
  induction is generalizing st with
  | nil => exact ⟨h, rfl, his⟩
  | cons i is ih =>
      have hi : i ∈ st.proc.allocatedFds := by rw [his]; exact List.mem_cons_self
      have hproc := buryFd_proc h hi
      obtain ⟨h', hid, hfds⟩ := ih (attached_buryFd h hi) (by rw [hproc, his, List.erase_cons_head])
      exact ⟨h', hid.trans (by rw [hproc]), hfds⟩

/-- A side of a blocked socket is registered, on a slot that some process has or
on one that becomes the process's own. -/
theorem attached_prepollBlockedFd (h : st.Attached fds) (s : Nat) (ioft : IoFuture) :
    (st.prepollBlockedFd s ioft).Attached fds ∧
      (st.prepollBlockedFd s ioft).proc.procId = st.proc.procId := by
  cases hget : st.tbl.get ioft.event.fd with
  | none =>
      have hst : st.prepollBlockedFd s ioft = st := by simp only [prepollBlockedFd, hget]
      rw [hst]
      exact ⟨h, rfl⟩
  | some i =>
      have hfd : ioft.event.fd = i := by
        unfold FdTable.get at hget
        split at hget
        · cases hget
          omega
        · cases hget
      -- the slot is allocated by now, and its future put there
      have hput : ∀ (st₁ : Polled) (ioft' : IoFuture) (c : Prop) [Decidable c],
          st₁.proc.procId = st.proc.procId → (st₁.tbl.fds i).allocated = true →
          Attached ⟨st₁.proc, st₁.tbl.updFd i fun slot => { slot with ioftPre := ioft' }⟩ fds →
          let tbl := st₁.tbl.updFd i fun slot => { slot with ioftPre := ioft' }
          let st₂ : Polled :=
            if c then { st₁ with tbl := tbl.enqueueDirty i } else { st₁ with tbl := tbl }
          st₂.Attached fds ∧ st₂.proc.procId = st.proc.procId := by
        intro st₁ ioft' c _ hproc hallocated h₁
        dsimp only
        split
        · exact ⟨Vk.Attached.enqueueDirty h₁ (by rw [FdTable.updFd_self]; exact hallocated), hproc⟩
        · exact ⟨h₁, hproc⟩
      simp only [prepollBlockedFd, hget]
      by_cases hallocated : (st.tbl.fds i).allocated = true
      · rw [if_pos hallocated]
        refine hput st _ _ rfl hallocated ?_
        exact Vk.Attached.updFd (f := fun slot => { slot with ioftPre := _ }) h
          ⟨rfl, rfl, rfl, id, hfd.trans (Vk.Attached.named h i (Or.inl hallocated)).symm⟩ rfl
      · rw [if_neg hallocated]
        have hnot : (st.tbl.fds i).allocated = false := by simpa using hallocated
        simp only [allocateFd, if_neg hallocated]
        refine hput ⟨_, _⟩ _ _ rfl (by simp [Fd.allocate, hnot]) ?_
        have hall := Vk.Attached.allocate (p := st.proc.procId) (i := i) (u :=
          (st.tbl.updFd i fun slot => slot.allocate ioft.event.fd st.proc.procId).updFd i fun slot =>
            { slot with ioftPre := { IoFuture.init s with event := { (IoFuture.init s).event with
              fd := ioft.event.fd, events := ioft.event.events } } }) h hnot
          (fun j hj => by rw [FdTable.updFd_of_ne _ _ hj, FdTable.updFd_of_ne _ _ hj])
          (by simp [Fd.allocate, hnot]) (by simp [Fd.allocate, hnot]) (by simp [Fd.allocate, hnot])
          (by simp [hfd]) (by simp [Fd.allocate, hnot]) rfl
        rw [Function.update_self, Function.update_idem] at hall
        exact hall

theorem attached_prepollBlockedSocket (h : st.Attached fds) (s : Nat) :
    (st.prepollBlockedSocket s).Attached fds ∧
      (st.prepollBlockedSocket s).proc.procId = st.proc.procId := by
  have hside : ∀ (st : Polled) (c : Prop) [Decidable c] (ioft : IoFuture), st.Attached fds →
      (if c then st.prepollBlockedFd s ioft else st).Attached fds ∧
        (if c then st.prepollBlockedFd s ioft else st).proc.procId = st.proc.procId := by
    intro st c _ ioft h
    split
    · exact attached_prepollBlockedFd h s ioft
    · exact ⟨h, rfl⟩
  let block := (st.proc.localPtr.sockets s).block
  have hrx := hside st (block.ioftRxPre.event.fd ≠ -1) block.ioftRxPre h
  have htx := hside _ (block.ioftTxPre.event.fd ≠ -1 ∧
    block.ioftTxPre.event.fd ≠ block.ioftRxPre.event.fd) block.ioftTxPre hrx.1
  exact ⟨htx.1, htx.2.trans hrx.2⟩

/-- `vk_proc_prepoll` keeps the slots and the lists in agreement. -/
theorem attached_prepoll (h : st.Attached fds) :
    st.prepoll.Attached fds ∧ st.prepoll.proc.procId = st.proc.procId := by
  have hsockets : ∀ (ss : List Nat) (st : Polled), st.Attached fds →
      (ss.foldl prepollBlockedSocket st).Attached fds ∧
        (ss.foldl prepollBlockedSocket st).proc.procId = st.proc.procId := by
    intro ss
    induction ss with
    | nil => exact fun st h => ⟨h, rfl⟩
    | cons s ss ih =>
        intro st h
        have hs := attached_prepollBlockedSocket h s
        have hss := ih _ hs.1
        exact ⟨hss.1, hss.2.trans hs.2⟩
  have hnodup : st.proc.allocatedFds.Nodup := by
    have := Vk.Attached.nodup h st.proc.procId
    rwa [Function.update_self] at this
  have hreap := attached_reapClosed_foldl st.proc.allocatedFds h hnodup fun _ => id
  have h₂ := hsockets (st.proc.allocatedFds.foldl reapClosed st).proc.localPtr.blockedQ _ hreap.1
  exact ⟨h₂.1, h₂.2.trans hreap.2.1⟩

end Polled

/-! ## The poller -/

namespace PollTable
variable (t : PollTable) (i j : Nat)

@[simp] theorem enqueueFresh_tbl : (t.enqueueFresh i).tbl = t.tbl := by
  unfold enqueueFresh
  split <;> rfl

/-- A descriptor with events is fresh, and its slot is the same. -/
theorem enqueueFresh_ite_tbl (revents : Events) :
    (if revents ≠ 0 then t.enqueueFresh i else t).tbl = t.tbl := by
  split
  · exact t.enqueueFresh_tbl i
  · rfl

@[simp] theorem dropFresh_tbl : (t.dropFresh i).tbl = t.tbl := by
  unfold dropFresh
  split <;> rfl

theorem mem_enqueueFresh {i j : Nat} (h : j ∈ (t.enqueueFresh i).freshFds) : j = i ∨ j ∈ t.freshFds := by
  unfold enqueueFresh at h
  split at h
  · exact Or.inr h
  · exact List.mem_cons.mp h

theorem mem_dropFresh {i j : Nat} (h : j ∈ (t.dropFresh i).freshFds) : j ∈ t.freshFds := by
  unfold dropFresh at h
  split at h
  · exact List.mem_of_mem_erase h
  · exact h

/-- A zombie's slot leaves both queues. -/
def dropZombie (t : PollTable) (i : Nat) : PollTable :=
  if (t.tbl.fds i).zombie then (t.dropDirty i).dropFresh i else t

/-- A slot is closed. -/
def closeFd (t : PollTable) (i : Nat) : PollTable :=
  (t.updFd i fun slot => { slot with closed := true }).dropDirty i

theorem cleanFd_eq :
    t.cleanFd i =
      if !(t.tbl.fds i).closed && ((t.tbl.fds i).zombie ||
          ((t.tbl.fds i).ioftPre.rxClosed && (t.tbl.fds i).ioftPre.txClosed)) then
        if (t.tbl.fds i).zombie then (t.dropZombie i).closeFd i
        else ((t.dropZombie i).closeFd i).enqueueFresh i
      else t.dropZombie i := rfl

theorem dropZombie_tbl :
    (t.dropZombie i).tbl = if (t.tbl.fds i).zombie then t.tbl.dropDirty i else t.tbl := by
  unfold dropZombie
  split
  · rw [dropFresh_tbl]
    rfl
  · rfl

theorem mem_dropZombie {i j : Nat} (h : j ∈ (t.dropZombie i).freshFds) : j ∈ t.freshFds := by
  unfold dropZombie at h
  split at h
  · exact mem_dropFresh (t.dropDirty i) h
  · exact h

theorem dropZombie_same : (t.tbl.fds j).Same ((t.dropZombie i).tbl.fds j) := by
  rw [dropZombie_tbl]
  split
  · exact t.tbl.dropDirty_same i j
  · exact Fd.Same.refl _

theorem closeFd_same : (t.tbl.fds j).Same ((t.closeFd i).tbl.fds j) := by
  refine Fd.Same.trans (b := (t.tbl.updFd i fun slot => { slot with closed := true }).fds j) ?_
    (FdTable.dropDirty_same _ i j)
  rw [FdTable.updFd_fds]
  split
  · subst j
    exact ⟨rfl, rfl, rfl, fun _ => rfl, rfl⟩
  · exact Fd.Same.refl _

theorem closeFd_closed : ((t.closeFd i).tbl.fds i).closed = true := by
  refine (FdTable.dropDirty_same (t.tbl.updFd i fun slot => { slot with closed := true }) i i).closed ?_
  rw [FdTable.updFd_self]

/-- Cleaning does not change what a slot means to the processes. -/
theorem cleanFd_same : (t.tbl.fds j).Same ((t.cleanFd i).tbl.fds j) := by
  have hclose := (t.dropZombie_same i j).trans ((t.dropZombie i).closeFd_same i j)
  rw [cleanFd_eq]
  split
  · split
    · exact hclose
    · rw [enqueueFresh_tbl]
      exact hclose
  · exact t.dropZombie_same i j

/-- After cleaning, a zombie's slot is closed. -/
theorem closed_cleanFd (h : (t.tbl.fds i).zombie = true) : ((t.cleanFd i).tbl.fds i).closed = true := by
  cases hclosed : (t.tbl.fds i).closed with
  | true => exact (t.cleanFd_same i i).closed hclosed
  | false =>
      rw [cleanFd_eq, if_pos (by rw [hclosed, h]; rfl), if_pos h]
      exact closeFd_closed _ i

variable {t i j}

theorem attached_cleanFd {fds : Nat → List Nat} (h : Attached t.tbl fds) :
    Attached (t.cleanFd i).tbl fds := by
  have hdrop : Attached (t.dropZombie i).tbl fds := by
    rw [dropZombie_tbl]
    split
    · exact h.dropDirty
    · exact h
  have hclose : Attached ((t.dropZombie i).closeFd i).tbl fds :=
    Attached.dropDirty (Attached.updFd (f := fun slot => { slot with closed := true }) hdrop
      ⟨rfl, rfl, rfl, fun _ => rfl, rfl⟩ rfl)
  rw [cleanFd_eq]
  split
  · split
    · exact hclose
    · rw [enqueueFresh_tbl]
      exact hclose
  · exact hdrop

/-- A slot that cleaning makes fresh is one that some process has. -/
theorem fresh_cleanFd
    (hi : (t.tbl.fds i).allocated = true ∨ (t.tbl.fds i).zombie = true ∨ (t.tbl.fds i).closed = true)
    (hj : j ∈ (t.cleanFd i).freshFds) : j ∈ t.freshFds ∨ (t.tbl.fds j).allocated = true := by
  rw [cleanFd_eq] at hj
  split at hj
  · rename_i hcond
    split at hj
    · exact Or.inl (t.mem_dropZombie hj)
    · rename_i hzombie
      obtain rfl | hj := mem_enqueueFresh _ hj
      · refine Or.inr (hi.resolve_right ?_)
        rintro (h | h)
        · exact hzombie h
        · rw [h] at hcond
          cases hcond
      · exact Or.inl (t.mem_dropZombie hj)
  · exact Or.inl (t.mem_dropZombie hj)

/-- The dirty slots are cleaned: what they mean to the processes is the same, all
of them that are zombies' are closed, and those made fresh are some process's. -/
theorem clean_spec {fds : Nat → List Nat} (is : List Nat) (h : Attached t.tbl fds)
    (his : ∀ i ∈ is,
      (t.tbl.fds i).allocated = true ∨ (t.tbl.fds i).zombie = true ∨ (t.tbl.fds i).closed = true) :
    Attached (is.foldl cleanFd t).tbl fds ∧
      (∀ j, (t.tbl.fds j).Same ((is.foldl cleanFd t).tbl.fds j)) ∧
      (∀ i ∈ is, (t.tbl.fds i).zombie = true → ((is.foldl cleanFd t).tbl.fds i).closed = true) ∧
      ∀ j ∈ (is.foldl cleanFd t).freshFds, j ∈ t.freshFds ∨ (t.tbl.fds j).allocated = true := by
  induction is generalizing t with
  | nil => exact ⟨h, fun _ => Fd.Same.refl _, by simp, fun _ => Or.inl⟩
  | cons i is ih =>
      have hsame := t.cleanFd_same i
      obtain ⟨h', hsame', hclosed', hfresh'⟩ := ih (attached_cleanFd (i := i) h) fun j hj => by
        rw [(hsame j).allocated, (hsame j).zombie]
        exact (his j (List.mem_cons_of_mem _ hj)).imp_right (Or.imp_right (hsame j).closed)
      refine ⟨h', fun j => (hsame j).trans (hsame' j), fun j hj hz => ?_, fun j hj => ?_⟩
      · obtain rfl | hj := List.mem_cons.mp hj
        · exact (hsame' j).closed (t.closed_cleanFd j hz)
        · exact hclosed' j hj ((hsame j).zombie.trans hz)
      · obtain hj | hj := hfresh' j hj
        · exact fresh_cleanFd (his i List.mem_cons_self) hj
        · exact Or.inr ((hsame j).allocated.symm.trans hj)

/-- Processing an event keeps the slots as they are to the processes; only the
slot itself may become fresh. -/
theorem processFd_spec {fds : Nat → List Nat} (h : Attached t.tbl fds) (revents : Events) :
    Attached (t.processFd i revents).tbl fds ∧
      (∀ j, (t.tbl.fds j).Same ((t.processFd i revents).tbl.fds j)) ∧
      ∀ j ∈ (t.processFd i revents).freshFds, j = i ∨ j ∈ t.freshFds := by
  obtain ⟨t₁, ht₁, htbl, hfresh⟩ : ∃ t₁ : PollTable,
      t₁ = (if revents ≠ 0 then t.enqueueFresh i else t) ∧ t₁.tbl = t.tbl ∧
      ∀ j ∈ t₁.freshFds, j = i ∨ j ∈ t.freshFds := by
    refine ⟨_, rfl, t.enqueueFresh_ite_tbl i revents, fun j hj => ?_⟩
    split at hj
    · exact t.mem_enqueueFresh hj
    · exact Or.inr hj
  have hupd : ∀ (events : Events) (j : Nat), (t₁.tbl.fds j).Same ((t₁.tbl.updFd i fun slot =>
      { slot with ioftPre :=
        { slot.ioftPre with event := { slot.ioftPre.event with events := events } } }).fds j) := by
    intro events j
    rw [FdTable.updFd_fds]
    split
    · subst j
      exact ⟨rfl, rfl, rfl, id, rfl⟩
    · exact Fd.Same.refl _
  have hupd' : ∀ events : Events, Attached (t₁.tbl.updFd i fun slot =>
      { slot with ioftPre :=
        { slot.ioftPre with event := { slot.ioftPre.event with events := events } } }) fds := by
    intro events
    rw [htbl]
    exact h.updFd ⟨rfl, rfl, rfl, id, rfl⟩ rfl
  unfold processFd
  rw [← ht₁]
  dsimp only
  split
  · split
    · exact ⟨(hupd' _).dropDirty, fun j => htbl ▸ (hupd _ j).trans (FdTable.dropDirty_same _ i j), hfresh⟩
    · exact ⟨hupd' _, fun j => htbl ▸ hupd _ j, hfresh⟩
  · exact ⟨htbl ▸ h, fun j => htbl ▸ Fd.Same.refl _, hfresh⟩

/-- What the poller is given are descriptors of slots that some process has, so
only such slots become fresh. -/
theorem pollFds_spec {fds : Nat → List Nat} (revents : Int → Events) (polled : List Int)
    (h : Attached t.tbl fds)
    (hpolled : ∀ fd ∈ polled, ∃ i : Nat, fd = i ∧ (t.tbl.fds i).allocated = true)
    (hfresh : ∀ j ∈ t.freshFds, (t.tbl.fds j).allocated = true) :
    Attached (t.pollFds revents polled).tbl fds ∧
      (∀ j, (t.tbl.fds j).Same ((t.pollFds revents polled).tbl.fds j)) ∧
      ∀ j ∈ (t.pollFds revents polled).freshFds,
        ((t.pollFds revents polled).tbl.fds j).allocated = true := by
  induction polled generalizing t with
  | nil => exact ⟨h, fun _ => Fd.Same.refl _, hfresh⟩
  | cons fd polled ih =>
      obtain ⟨n, rfl, hn⟩ := hpolled fd List.mem_cons_self
      cases hget : t.tbl.get (n : Int) with
      | none =>
          have hstep : t.pollFds revents ((n : Int) :: polled) = t.pollFds revents polled := by
            simp only [pollFds, List.foldl_cons, hget]
          rw [hstep]
          exact ih h (fun fd hfd => hpolled fd (List.mem_cons_of_mem _ hfd)) hfresh
      | some i =>
          have hi : i = n := by
            unfold FdTable.get at hget
            split at hget
            · cases hget
              exact Int.toNat_natCast n
            · cases hget
          subst i
          obtain ⟨h₁, hsame₁, hfresh₁⟩ := processFd_spec (i := n) h (revents n)
          have hstep : t.pollFds revents ((n : Int) :: polled) =
              (t.processFd n (revents n)).pollFds revents polled := by
            simp only [pollFds, List.foldl_cons, hget]
          obtain ⟨h', hsame', hfresh'⟩ := ih h₁
            (fun fd hfd => by
              obtain ⟨m, hm, hm'⟩ := hpolled fd (List.mem_cons_of_mem _ hfd)
              exact ⟨m, hm, (hsame₁ m).allocated.trans hm'⟩)
            (fun j hj => by
              rw [(hsame₁ j).allocated]
              obtain rfl | hj := hfresh₁ j hj
              · exact hn
              · exact hfresh j hj)
          rw [hstep]
          exact ⟨h', fun j => (hsame₁ j).trans (hsame' j), hfresh'⟩

/-- The poller leaves the slots as they are to the processes, and a slot that is
fresh afterwards is some process's. -/
theorem fresh_poll {fds : Nat → List Nat} (pending : Bool) (revents : Int → Events)
    (h : Attached t.tbl fds) (hfresh : t.freshFds = []) :
    Attached (t.poll pending revents).tbl fds ∧
      ∀ j ∈ (t.poll pending revents).freshFds,
        ((t.poll pending revents).tbl.fds j).allocated = true := by
  obtain ⟨h₁, hsame₁, hclosed₁, hfresh₁⟩ := clean_spec t.tbl.dirtyFds h h.dirty
  have hfresh₁ : ∀ j ∈ t.clean.freshFds, (t.clean.tbl.fds j).allocated = true := by
    intro j hj
    rw [clean, (hsame₁ j).allocated]
    obtain hj | hj := hfresh₁ j hj
    · rw [hfresh] at hj
      cases hj
    · exact hj
  have hpolled : ∀ fd ∈ t.clean.toPoll t.tbl.dirtyFds,
      ∃ i : Nat, fd = i ∧ (t.clean.tbl.fds i).allocated = true := by
    intro fd hfd
    obtain ⟨i, hi, rfl⟩ := List.mem_map.mp hfd
    obtain ⟨hi, hopen⟩ := List.mem_filter.mp hi
    have hopen : (t.clean.tbl.fds i).closed = false := by
      rw [Bool.and_eq_true, Bool.not_eq_true'] at hopen
      exact hopen.1
    have hnot : ¬((t.tbl.fds i).zombie = true ∨ (t.tbl.fds i).closed = true) := by
      rintro (hz | hc)
      · exact Bool.false_ne_true (hopen.symm.trans (hclosed₁ i hi hz))
      · exact Bool.false_ne_true (hopen.symm.trans ((hsame₁ i).closed hc))
    exact ⟨i, (hsame₁ i).fd.trans (h.named i (Or.inr hi)),
      (hsame₁ i).allocated.trans ((h.dirty i hi).resolve_right hnot)⟩
  unfold poll
  split
  · obtain ⟨h₂, -, hfresh₂⟩ := pollFds_spec revents _ h₁ hpolled hfresh₁
    exact ⟨h₂, hfresh₂⟩
  · exact ⟨h₁, hfresh₁⟩

end PollTable

end Vk

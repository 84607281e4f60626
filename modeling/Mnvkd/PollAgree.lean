/-
# `Mnvkd.PollAgree` — whether two drivers wait for the same

The driver for `poll(2)` cleans the dirty slots and asks for the events of those that
are open.  The one-shot driver for `epoll(7)` takes the same slots off their list and
registers them, but it cleans a slot only after an event, and it has one event where
two are asked for.

So the two wait for the same exactly when each dirty slot that is not closed is not to
be closed either, and asks for one event (`drivers_agree_iff`).
-/
import Mnvkd.FdLists

namespace Vk

open Lib

namespace Fd

/-- A slot on no dirty list. -/
def unqueued (slot : Fd) : Fd := { slot with dirtyQed := false }

/-- What cleaning leaves of a slot. -/
def cleaned (slot : Fd) : Fd := { slot.unqueued with closed := slot.shut || slot.zombie }

theorem cleaned_unqueued (slot : Fd) : slot.unqueued.cleaned = slot.cleaned := rfl

theorem cleaned_cleaned (slot : Fd) : slot.cleaned.cleaned = slot.cleaned := by
  have hclosed : (slot.cleaned.shut || slot.cleaned.zombie) = (slot.shut || slot.zombie) := by
    show (((slot.shut || slot.zombie) || (slot.ioftPre.rxClosed && slot.ioftPre.txClosed)) ||
      slot.zombie) = (slot.shut || slot.zombie)
    unfold shut
    cases slot.closed <;> cases slot.zombie <;> simp
  exact congrArg (fun closed => { slot.unqueued with closed := closed }) hclosed

/-- The descriptor and the events of a slot's one-shot registration, if there is one. -/
def wanted (slot : Fd) : Option (Int × Events) :=
  if slot.closed then none else some (slot.oneShot.fd, slot.oneShot.events)

/-- A slot asks for one event, and is neither to be closed nor a zombie's. -/
def Plain (slot : Fd) : Prop :=
  slot.shut = false ∧ slot.zombie = false ∧
    (slot.ioftPre.event.events = POLLIN ∨ slot.ioftPre.event.events = POLLOUT)

/-- The registration has the slot's events where these are one, and only there. -/
theorem oneShot_events (slot : Fd) :
    slot.oneShot.events = slot.ioftPre.event.events ∧ slot.ioftPre.event.events ≠ 0 ↔
      slot.ioftPre.event.events = POLLIN ∨ slot.ioftPre.event.events = POLLOUT := by
  unfold oneShot
  dsimp only
  generalize slot.ioftPre.event.events = events
  constructor
  · rintro ⟨hevents, hne⟩
    split at hevents
    · exact Or.inl hevents.symm
    · split at hevents
      · exact Or.inr hevents.symm
      · exact absurd hevents.symm hne
  · rintro (rfl | rfl) <;> exact ⟨by decide, by decide⟩

end Fd

namespace PollTable
variable {t : PollTable} {i j : Nat}

/-- The poll array with its events. -/
def pollArray (t : PollTable) : List (Int × Events) :=
  (t.tbl.dirtyFds.filter fun i =>
    !(t.clean.tbl.fds i).closed && (t.clean.tbl.fds i).ioftPre.event.events != 0).map
    fun i => ((t.clean.tbl.fds i).ioftPre.event.fd, (t.clean.tbl.fds i).ioftPre.event.events)

theorem pollArray_fds (t : PollTable) : t.pollArray.map Prod.fst = t.clean.toPoll t.tbl.dirtyFds := by
  rw [pollArray, List.map_map]
  rfl

/-! ## The poll array -/

theorem unqueued_dropDirty (tbl : FdTable) (i j : Nat) :
    ((tbl.dropDirty i).fds j).unqueued = (tbl.fds j).unqueued := by
  unfold FdTable.dropDirty
  split
  · rw [FdTable.updFd_fds]
    split
    · subst j
      rfl
    · rfl
  · rfl

/-- Cleaning a slot closes it if it is to be closed, and leaves the others. -/
theorem unqueued_cleanFd (t : PollTable) (i j : Nat) :
    ((t.cleanFd i).tbl.fds j).unqueued =
      if j = i then (t.tbl.fds i).cleaned else (t.tbl.fds j).unqueued := by
  have hdrop : ∀ j, ((t.dropZombie i).tbl.fds j).unqueued = (t.tbl.fds j).unqueued := by
    intro j
    rw [dropZombie_tbl]
    split
    · exact unqueued_dropDirty t.tbl i j
    · rfl
  have hclose : (((t.dropZombie i).closeFd i).tbl.fds j).unqueued =
      if j = i then { (t.tbl.fds i).unqueued with closed := true } else (t.tbl.fds j).unqueued := by
    refine (unqueued_dropDirty ((t.dropZombie i).tbl.updFd i fun slot => { slot with closed := true })
      i j).trans ?_
    rw [FdTable.updFd_fds]
    split
    · rw [← hdrop i]
      rfl
    · exact hdrop j
  have hshut : (!(t.tbl.fds i).closed && ((t.tbl.fds i).zombie ||
      ((t.tbl.fds i).ioftPre.rxClosed && (t.tbl.fds i).ioftPre.txClosed))) = true →
      ((t.tbl.fds i).shut || (t.tbl.fds i).zombie) = true := by
    unfold Fd.shut
    cases (t.tbl.fds i).closed <;> cases (t.tbl.fds i).zombie <;> simp
  rw [cleanFd_eq]
  split
  · rename_i hcond
    have hcleaned : (t.tbl.fds i).cleaned = { (t.tbl.fds i).unqueued with closed := true } := by
      rw [Fd.cleaned, hshut hcond]
    rw [hcleaned]
    split
    · exact hclose
    · rw [enqueueFresh_tbl]
      exact hclose
  · rename_i hcond
    rw [hdrop]
    split
    · subst j
      have hclosed : ((t.tbl.fds i).shut || (t.tbl.fds i).zombie) = (t.tbl.fds i).closed := by
        revert hcond
        unfold Fd.shut
        cases (t.tbl.fds i).closed <;> cases (t.tbl.fds i).zombie <;> simp
      rw [Fd.cleaned, hclosed]
      rfl
    · rfl

theorem unqueued_clean (t : PollTable) (j : Nat) :
    (t.clean.tbl.fds j).unqueued =
      if j ∈ t.tbl.dirtyFds then (t.tbl.fds j).cleaned else (t.tbl.fds j).unqueued := by
  unfold clean
  generalize t.tbl.dirtyFds = is
  induction is generalizing t with
  | nil => rfl
  | cons i is ih =>
      rw [List.foldl_cons, ih, ← Fd.cleaned_unqueued, unqueued_cleanFd]
      by_cases hji : j = i
      · subst j
        rw [if_pos rfl, if_pos List.mem_cons_self, Fd.cleaned_cleaned, ite_self]
      · rw [if_neg hji, Fd.cleaned_unqueued]
        exact if_congr (by rw [List.mem_cons, or_iff_right hji]) rfl rfl

/-- The poll array has the dirty slots that are neither to be closed nor zombies', with
their events if they have any. -/
theorem mem_pollArray {pair : Int × Events} :
    pair ∈ t.pollArray ↔ ∃ i ∈ t.tbl.dirtyFds, (t.tbl.fds i).shut = false ∧
      (t.tbl.fds i).zombie = false ∧ (t.tbl.fds i).ioftPre.event.events ≠ 0 ∧
      pair = ((t.tbl.fds i).ioftPre.event.fd, (t.tbl.fds i).ioftPre.event.events) := by
  have hslot : ∀ i ∈ t.tbl.dirtyFds, (t.clean.tbl.fds i).ioftPre = (t.tbl.fds i).ioftPre ∧
      (t.clean.tbl.fds i).closed = ((t.tbl.fds i).shut || (t.tbl.fds i).zombie) := by
    intro i hi
    have hclean := t.unqueued_clean i
    rw [if_pos hi] at hclean
    have hpre := congrArg Fd.ioftPre hclean
    have hclosed := congrArg Fd.closed hclean
    exact ⟨hpre, hclosed⟩
  unfold pollArray
  simp only [List.mem_map, List.mem_filter]
  constructor
  · rintro ⟨i, ⟨hi, hopen⟩, rfl⟩
    obtain ⟨hpre, hclosed⟩ := hslot i hi
    rw [hpre, hclosed, Bool.and_eq_true, Bool.not_eq_true', Bool.or_eq_false_iff] at hopen
    exact ⟨i, hi, hopen.1.1, hopen.1.2, by simpa using hopen.2, by rw [hpre]⟩
  · rintro ⟨i, hi, hshut, hzombie, hevents, rfl⟩
    obtain ⟨hpre, hclosed⟩ := hslot i hi
    refine ⟨i, ⟨hi, ?_⟩, by rw [hpre]⟩
    rw [hpre, hclosed, hshut, hzombie]
    simpa using hevents

end PollTable

/-! ## What is registered -/

namespace WaitTable
variable {w : WaitTable}

/-- What `epoll_ctl(2)` has been given. -/
def pairs (w : WaitTable) : List (Int × Events) := w.ctls.map fun ctl => (ctl.fd, ctl.events)

/-- What the one-shot driver gives to `epoll_ctl(2)` when it is not refused. -/
def epollPairs (w : WaitTable) : List (Int × Events) :=
  ({ w with ctls := [] }.epollRegister false fun _ => true).1.pairs

theorem wanted_updFd (t : PollTable) (i j : Nat) {f : Fd → Fd} (hf : ∀ slot, (f slot).wanted = slot.wanted) :
    ((t.updFd i f).tbl.fds j).wanted = (t.tbl.fds j).wanted := by
  show ((t.tbl.updFd i f).fds j).wanted = _
  rw [FdTable.updFd_fds]
  split
  · subst j
    exact hf _
  · rfl

theorem wanted_dequeueDirty (t : PollTable) (j : Nat) :
    (t.dequeueDirty.tbl.fds j).wanted = (t.tbl.fds j).wanted := by
  show (t.tbl.dequeueDirty.fds j).wanted = _
  unfold FdTable.dequeueDirty
  cases t.tbl.dirtyFds with
  | nil => rfl
  | cons i rest =>
      exact wanted_updFd { t with tbl := { t.tbl with dirtyFds := rest } } i j
        (f := fun slot => { slot with dirtyQed := false }) fun _ => rfl

/-- A slot is registered if it is not closed, and what the slots want is the same. -/
theorem oneShot_spec (w : WaitTable) (i : Nat) :
    (w.oneShot (fun _ => true) i).2 = true ∧
      (∀ j, ((w.oneShot (fun _ => true) i).1.slot j).wanted = (w.slot j).wanted) ∧
      ∀ pair, pair ∈ (w.oneShot (fun _ => true) i).1.pairs ↔
        (w.slot i).wanted = some pair ∨ pair ∈ w.pairs := by
  unfold oneShot
  split
  · rename_i hclosed
    refine ⟨rfl, fun _ => rfl, fun pair => ⟨Or.inr, fun h => h.resolve_left ?_⟩⟩
    rw [Fd.wanted, if_pos hclosed]
    exact nofun
  · rename_i hclosed
    refine ⟨rfl, fun j => wanted_updFd w.table i j fun _ => rfl, fun pair => ?_⟩
    rw [Fd.wanted, if_neg hclosed, Option.some_inj]
    exact List.mem_cons.trans (or_congr_left eq_comm)

theorem drain_oneShot (is : List Nat) (w : WaitTable) (pair : Int × Events) :
    pair ∈ (w.drain (oneShot fun _ => true) is).1.pairs ↔
      (∃ i ∈ is, (w.slot i).wanted = some pair) ∨ pair ∈ w.pairs := by
  induction is generalizing w with
  | nil => exact ⟨Or.inr, fun h => h.resolve_left fun ⟨_, hi, _⟩ => nomatch hi⟩
  | cons i is ih =>
      obtain ⟨hok, hwanted, hpairs⟩ := oneShot_spec (w.setTable w.table.dequeueDirty) i
      have hsame : ∀ j, ((w.setTable w.table.dequeueDirty).slot j).wanted = (w.slot j).wanted :=
        wanted_dequeueDirty w.table
      unfold drain
      dsimp only
      rw [if_pos hok, ih, hpairs, hsame]
      simp only [hwanted, hsame, List.exists_mem_cons_iff]
      rw [← or_assoc]
      exact or_congr_left or_comm

theorem mem_epollPairs {pair : Int × Events} :
    pair ∈ w.epollPairs ↔ ∃ i ∈ w.table.tbl.dirtyFds, (w.slot i).closed = false ∧
      pair = ((w.slot i).fd, (w.slot i).oneShot.events) := by
  refine (drain_oneShot w.table.tbl.dirtyFds { w with ctls := [] } pair).trans ?_
  have hnil : pair ∉ ({ w with ctls := [] } : WaitTable).pairs := nofun
  rw [or_iff_left hnil]
  refine exists_congr fun i => and_congr_right fun _ => ?_
  show (w.slot i).wanted = some pair ↔ _
  unfold Fd.wanted
  split
  · rename_i hclosed
    exact ⟨nofun, fun h => absurd (h.1.symm.trans hclosed) Bool.false_ne_true⟩
  · rename_i hclosed
    rw [Option.some_inj, eq_comm]
    exact ⟨fun h => ⟨by simpa using hclosed, h⟩, And.right⟩

/-! ## Where they agree -/

/-- The one-shot driver gives to the system what `poll(2)` is given: the events that are
asked for, of descriptors that are open and of no dead process. -/
def DriversAgree (w : WaitTable) : Prop :=
  (∀ pair, pair ∈ w.epollPairs ↔ pair ∈ w.table.pollArray) ∧
    ∀ pair ∈ w.epollPairs, ∃ i : Nat, pair = ((i : Int), (w.slot i).ioftPre.event.events) ∧
      (w.slot i).closed = false ∧ (w.slot i).zombie = false

/-- Each dirty slot is closed, or plain. -/
def DirtyPlain (w : WaitTable) : Prop :=
  ∀ i ∈ w.table.tbl.dirtyFds, (w.slot i).closed = true ∨ (w.slot i).Plain

theorem driversAgree_of_dirtyPlain {fds : Nat → List Nat} (h : w.table.Lists fds) (hplain : w.DirtyPlain) :
    w.DriversAgree := by
  have hgiven : ∀ {pair}, pair ∈ w.epollPairs → ∃ i ∈ w.table.tbl.dirtyFds, (w.slot i).Plain ∧
      pair = ((i : Int), (w.slot i).ioftPre.event.events) ∧ (w.slot i).closed = false := by
    intro pair hpair
    obtain ⟨i, hi, hopen, rfl⟩ := mem_epollPairs.mp hpair
    have hp := (hplain i hi).resolve_left (by rw [hopen]; exact Bool.false_ne_true)
    refine ⟨i, hi, hp, ?_, hopen⟩
    rw [((w.slot i).oneShot_events.mpr hp.2.2).1]
    exact congrArg (·, _) (h.numbered i (Or.inr (h.attached.dirtyQed i hi)))
  refine ⟨fun pair => ⟨fun hpair => ?_, fun hpair => ?_⟩, fun pair hpair => ?_⟩
  · obtain ⟨i, hi, hp, rfl, -⟩ := hgiven hpair
    refine PollTable.mem_pollArray.mpr ⟨i, hi, hp.1, hp.2.1, ((w.slot i).oneShot_events.mpr hp.2.2).2, ?_⟩
    exact congrArg (·, _) (h.attached.named i (Or.inr hi)).symm
  · obtain ⟨i, hi, hshut, hzombie, hevents, rfl⟩ := PollTable.mem_pollArray.mp hpair
    have hopen : (w.slot i).closed = false := (Bool.or_eq_false_iff.mp hshut).1
    have hp := (hplain i hi).resolve_left (by rw [hopen]; exact Bool.false_ne_true)
    refine mem_epollPairs.mpr ⟨i, hi, hopen, ?_⟩
    rw [((w.slot i).oneShot_events.mpr hp.2.2).1, h.attached.named i (Or.inr hi)]
    exact congrArg (·, _) (h.numbered i (Or.inr (h.attached.dirtyQed i hi))).symm
  · obtain ⟨i, -, hp, rfl, hopen⟩ := hgiven hpair
    exact ⟨i, rfl, hopen, hp.2.1⟩

theorem dirtyPlain_of_driversAgree {fds : Nat → List Nat} (h : w.table.Lists fds) (hagree : w.DriversAgree) :
    w.DirtyPlain := by
  intro i hi
  cases hopen : (w.slot i).closed with
  | true => exact Or.inl rfl
  | false =>
      -- the slot is registered, so it is in the poll array
      have hgiven := mem_epollPairs.mpr ⟨i, hi, hopen, rfl⟩
      obtain ⟨j, hj, hshut, hzombie, hevents, hpair⟩ :=
        PollTable.mem_pollArray.mp ((hagree.1 _).mp hgiven)
      obtain ⟨hfd, hev⟩ := Prod.ext_iff.mp hpair
      have hij : i = j := by
        have hnumber := h.numbered i (Or.inr (h.attached.dirtyQed i hi))
        have hnamed := h.attached.named j (Or.inr hj)
        exact Int.ofNat_inj.mp (hnumber.symm.trans (hfd.trans hnamed))
      subst j
      exact Or.inr ⟨hshut, hzombie, (w.slot i).oneShot_events.mp ⟨hev, hevents⟩⟩

end WaitTable

namespace FdState

/-- In every state of the table that a run reaches, the one-shot driver would wait for
what the driver for `poll(2)` would wait for exactly when each dirty slot is closed, or
asks for one event and is neither to be closed nor a zombie's. -/
theorem drivers_agree_iff {size : Nat} {as : List FdAct} {s : FdState}
    (hrun : run step as (init size) = some s) : s.wait.DriversAgree ↔ s.wait.DirtyPlain :=
  ⟨WaitTable.dirtyPlain_of_driversAgree (lists_of_run hrun),
    WaitTable.driversAgree_of_dirtyPlain (lists_of_run hrun)⟩

/-- A connection that waits to be readable. -/
def readable : ProcLocal :=
  let pl := ProcLocal.init.initThread 0 0 (Pipe.initFd 3 .socketStream) (Pipe.initFd 3 .socketStream)
  (pl.updSocket 0 fun socket =>
    { socket with block := { socket.block with
      ioftRxPre := { socket.block.ioftRxPre with event := ⟨3, POLLIN, 0⟩ } } }).enqueueBlocked 0

/-- With one connection that waits to be readable they agree. -/
theorem drivers_agree_readable :
    ∃ s, run step [.prepoll 0 readable] (init 8) = some s ∧ (s.wait.DriversAgree ↔ s.wait.DirtyPlain) := by
  obtain ⟨s, hs⟩ : ∃ s, run step [.prepoll 0 readable] (init 8) = some s := ⟨_, rfl⟩
  exact ⟨s, hs, drivers_agree_iff hs⟩

/-- The descriptor of a process that has ended is registered with `epoll(7)`. -/
theorem zombie_registered :
    ¬∀ (size : Nat) (as : List FdAct) (s : FdState),
      run step as (init size) = some s → s.wait.DriversAgree := fun h => by
  have hagree := (h 8 [.prepoll 0 readable, .prepollZombie 0] _ rfl).1 (3, POLLIN)
  revert hagree
  decide

end FdState

end Vk

/-
# `Mnvkd.FdOwner` — whose slot a descriptor is registered in

A slot of the descriptor table belongs to the process that has allocated it, until
that process's prepoll finds it closed or the process dies.  But `fd.closed` is set
for the slots of dead processes only: a process that closes a descriptor and goes
on keeps the slot.  When the system gives the number to another process, that one's
prepoll finds the slot allocated, does not ask to whom, and registers its socket
there (`registersOwn_iff`).
-/
import Mnvkd.KernSound
import Mnvkd.KernShutdown

namespace Vk

open Lib

/-- The process a slot is allocated to. -/
def Fd.owner (slot : Fd) : Option Nat := if slot.allocated then some slot.procId else none

namespace Polled
variable (st : Polled)

/-- The process slot `i` is allocated to. -/
def owner (i : Nat) : Option Nat := (st.tbl.fds i).owner

variable {st}

theorem owner_enqueueDirty (i j : Nat) :
    owner { st with tbl := st.tbl.enqueueDirty j } i = st.owner i := by
  by_cases hij : i = j
  · subst j
    show ((st.tbl.enqueueDirty i).fds i).owner = _
    rw [FdTable.enqueueDirty_self]
    rfl
  · show ((st.tbl.enqueueDirty j).fds i).owner = _
    rw [FdTable.enqueueDirty_of_ne _ hij]
    rfl

/-- A slot that is given up has no process. -/
theorem owner_deallocateFd (i j : Nat) :
    (st.deallocateFd j).owner i = if i = j then none else st.owner i := by
  unfold deallocateFd
  split
  · show ((st.tbl.updFd j fun slot => { slot with allocated := false }).fds i).owner = _
    rw [FdTable.updFd_fds]
    split
    · rfl
    · rfl
  · rename_i hnot
    split
    · subst j
      exact if_neg hnot
    · rfl

theorem owner_reapClosed (i j : Nat) :
    (st.reapClosed j).owner i = if i = j ∧ (st.tbl.fds j).closed = true then none else st.owner i := by
  unfold reapClosed
  split
  · rename_i hclosed
    rw [owner_deallocateFd, owner_enqueueDirty]
    simp only [hclosed, and_true]
  · rename_i hopen
    rw [if_neg fun h => hopen h.2]

theorem owner_allocateFd (i j : Nat) (fd : Int) :
    (st.allocateFd j fd).1.owner i =
      if i = j then some ((st.owner i).getD st.proc.procId) else st.owner i := by
  unfold allocateFd
  split
  · rename_i hallocated
    split
    · subst j
      simp only [owner, Fd.owner, if_pos hallocated, Option.getD_some]
    · rfl
  · rename_i hnot
    show ((st.tbl.updFd j fun slot => slot.allocate fd st.proc.procId).fds i).owner = _
    rw [FdTable.updFd_fds]
    split
    · subst j
      simp only [owner, Fd.owner, Fd.allocate, if_neg hnot, if_true, Option.getD_none]
    · rfl

/-- A registration takes a slot that has no process, and leaves any other to whom it
belongs. -/
theorem owner_prepollBlockedFd (s : Nat) (ioft : IoFuture) (i : Nat) :
    (st.prepollBlockedFd s ioft).owner i =
      if st.tbl.get ioft.event.fd = some i then some ((st.owner i).getD st.proc.procId)
      else st.owner i := by
  unfold prepollBlockedFd
  cases hget : st.tbl.get ioft.event.fd with
  | none => rw [if_neg nofun]
  | some j =>
      have hput : ∀ (st₁ : Polled) (ioft' : IoFuture) (c : Prop) [Decidable c],
          owner (if c then { st₁ with tbl :=
            (st₁.tbl.updFd j fun slot => { slot with ioftPre := ioft' }).enqueueDirty j }
            else { st₁ with tbl := st₁.tbl.updFd j fun slot => { slot with ioftPre := ioft' } }) i =
          st₁.owner i := by
        intro st₁ ioft' c _
        have hupd : owner { st₁ with tbl := st₁.tbl.updFd j fun slot => { slot with ioftPre := ioft' } } i =
            st₁.owner i := by
          show ((st₁.tbl.updFd j fun slot => { slot with ioftPre := ioft' }).fds i).owner = _
          rw [FdTable.updFd_fds]
          split
          · subst j
            rfl
          · rfl
        split
        · exact (owner_enqueueDirty i j).trans hupd
        · exact hupd
      dsimp only
      rw [hput]
      have hij : some j = some i ↔ i = j := by
        rw [Option.some.injEq]
        exact eq_comm
      simp only [hij]
      split
      · rename_i hallocated
        split
        · subst j
          simp only [owner, Fd.owner, if_pos hallocated, Option.getD_some]
        · rfl
      · exact owner_allocateFd i j _

/-- Slot `i` is free for the process: it is allocated to no other. -/
def FreeFor (st : Polled) (i : Nat) : Prop := ∀ q, st.owner i = some q → q = st.proc.procId

/-- What is free for the process stays so, and nothing becomes free for it; a slot
that has a process keeps it.  `is`: the slots that are registered. -/
structure Registers (st st' : Polled) (is : List Nat) : Prop where
  procId : st'.proc.procId = st.proc.procId
  localPtr : st'.proc.localPtr = st.proc.localPtr
  size : st'.tbl.size = st.tbl.size
  owner : ∀ i, st'.owner i = if i ∈ is then some ((st.owner i).getD st.proc.procId) else st.owner i

theorem Registers.refl (st : Polled) : Registers st st [] :=
  ⟨rfl, rfl, rfl, fun _ => (if_neg List.not_mem_nil).symm⟩

theorem Registers.trans {a b c : Polled} {is js : List Nat} (h : Registers a b is)
    (h' : Registers b c js) : Registers a c (is ++ js) where
  procId := h'.procId.trans h.procId
  localPtr := h'.localPtr.trans h.localPtr
  size := h'.size.trans h.size
  owner i := by
    rw [h'.owner, h.owner, h.procId]
    by_cases hi : i ∈ is
    · rw [if_pos hi, if_pos (List.mem_append_left js hi)]
      split <;> rfl
    · rw [if_neg hi]
      by_cases hj : i ∈ js
      · rw [if_pos hj, if_pos (List.mem_append_right is hj)]
      · rw [if_neg hj, if_neg fun h => (List.mem_append.mp h).elim hi hj]

/-- The slots of the descriptors that the blocked sockets are registered for. -/
def sideSlots (st : Polled) (s : Nat) : List Nat :=
  (st.proc.localPtr.sides s).filterMap fun event => st.tbl.get event.fd

theorem registers_prepollBlockedFd (st : Polled) (s : Nat) (ioft : IoFuture) :
    Registers st (st.prepollBlockedFd s ioft) (st.tbl.get ioft.event.fd).toList := by
  obtain ⟨hsize, hlocal, -⟩ := makes_prepollBlockedFd st s ioft
  refine ⟨?_, hlocal, hsize, fun i => ?_⟩
  · unfold prepollBlockedFd
    cases st.tbl.get ioft.event.fd with
    | none => rfl
    | some j =>
        have halloc : (if (st.tbl.fds j).allocated then st
            else (st.allocateFd j ioft.event.fd).1).proc.procId = st.proc.procId := by
          unfold allocateFd
          split <;> rfl
        dsimp only
        split
        · exact halloc
        · exact halloc
  · rw [owner_prepollBlockedFd]
    simp only [Option.mem_toList]

theorem registers_prepollBlockedSocket (st : Polled) (s : Nat) :
    Registers st (st.prepollBlockedSocket s) (st.sideSlots s) := by
  have hside : ∀ (st : Polled) (p : Prop) [Decidable p] (ioft : IoFuture),
      Registers st (if p then st.prepollBlockedFd s ioft else st)
        ((if p then [ioft.event] else []).filterMap fun event => st.tbl.get event.fd) := by
    intro st p _ ioft
    split
    · have h := registers_prepollBlockedFd st s ioft
      cases hget : st.tbl.get ioft.event.fd with
      | none => simpa [hget] using h
      | some j => simpa [hget] using h
    · exact Registers.refl st
  obtain ⟨block, hblock⟩ : ∃ block, block = (st.proc.localPtr.sockets s).block := ⟨_, rfl⟩
  obtain ⟨st₁, hst₁⟩ : ∃ st₁, st₁ =
    (if block.ioftRxPre.event.fd ≠ -1 then st.prepollBlockedFd s block.ioftRxPre else st) := ⟨_, rfl⟩
  have hrx := hside st (block.ioftRxPre.event.fd ≠ -1) block.ioftRxPre
  rw [← hst₁] at hrx
  have htx := hside st₁ (block.ioftTxPre.event.fd ≠ -1 ∧
    block.ioftTxPre.event.fd ≠ block.ioftRxPre.event.fd) block.ioftTxPre
  have hget : ∀ fd, st₁.tbl.get fd = st.tbl.get fd := fun fd => by
    rw [FdTable.get, FdTable.get, hrx.size]
  simp only [hget] at htx
  have h := hrx.trans htx
  rw [← List.filterMap_append, hst₁, hblock] at h
  exact h

theorem registers_prepollBlockedSockets (ss : List Nat) (st : Polled) :
    Registers st (ss.foldl prepollBlockedSocket st) (ss.flatMap st.sideSlots) := by
  induction ss generalizing st with
  | nil => exact Registers.refl st
  | cons s ss ih =>
      have hs := registers_prepollBlockedSocket st s
      have hss := ih (st.prepollBlockedSocket s)
      have hslots : (st.prepollBlockedSocket s).sideSlots = st.sideSlots := by
        funext t
        simp only [sideSlots, hs.localPtr, FdTable.get, hs.size]
      rw [hslots] at hss
      exact hs.trans hss

/-- Reaping gives up slots of the process, and of no other. -/
theorem owner_reapClosed_foldl {st : Polled} (is : List Nat) (his : ∀ i ∈ is, st.FreeFor i) :
    (is.foldl reapClosed st).proc.procId = st.proc.procId ∧
      (is.foldl reapClosed st).tbl.size = st.tbl.size ∧
      ∀ i, (is.foldl reapClosed st).FreeFor i ↔ st.FreeFor i := by
  induction is generalizing st with
  | nil => exact ⟨rfl, rfl, fun _ => Iff.rfl⟩
  | cons j is ih =>
      have hproc : (st.reapClosed j).proc.procId = st.proc.procId := by
        unfold reapClosed deallocateFd
        split
        · split <;> rfl
        · rfl
      have hsize : (st.reapClosed j).tbl.size = st.tbl.size := by
        unfold reapClosed deallocateFd
        split
        · split <;> exact enqueueDirty_size _ j
        · rfl
      have hfree : ∀ i, (st.reapClosed j).FreeFor i ↔ st.FreeFor i := by
        intro i
        unfold FreeFor
        rw [owner_reapClosed, hproc]
        split
        · rename_i hij
          exact ⟨fun _ => hij.1 ▸ his j List.mem_cons_self, fun _ => nofun⟩
        · exact Iff.rfl
      obtain ⟨hproc', hsize', hfree'⟩ := ih fun i hi =>
        (hfree i).mpr (his i (List.mem_cons_of_mem j hi))
      exact ⟨hproc'.trans hproc, hsize'.trans hsize, fun i => (hfree' i).trans (hfree i)⟩

theorem Attached.freeFor {st : Polled} {fds : Nat → List Nat} (h : st.Attached fds) :
    ∀ i ∈ st.proc.allocatedFds, st.FreeFor i := by
  intro i hi q hq
  have hown := Vk.Attached.owned h st.proc.procId i (by rw [Function.update_self]; exact hi)
  unfold owner Fd.owner at hq
  rw [if_pos hown.1] at hq
  exact (Option.some.inj hq).symm.trans hown.2

/-- The slot of a registered descriptor ends up with the process, on its list, exactly
if no other process had it. -/
theorem owner_prepoll_iff {st : Polled} {fds : Nat → List Nat} (h : st.Attached fds) {s i : Nat}
    {event : Pollfd} (hs : s ∈ st.proc.localPtr.blockedQ) (he : event ∈ st.proc.localPtr.sides s)
    (hi : st.tbl.get event.fd = some i) :
    ((st.prepoll.tbl.fds i).procId = st.proc.procId ∧ i ∈ st.prepoll.proc.allocatedFds) ↔
      st.FreeFor i := by
  obtain ⟨hatt, hproc⟩ := attached_prepoll h
  obtain ⟨hproc₁, hsize₁, hfree₁⟩ := owner_reapClosed_foldl st.proc.allocatedFds h.freeFor
  have hlocal₁ : (st.proc.allocatedFds.foldl reapClosed st).proc.localPtr = st.proc.localPtr :=
    (makes_reapClosed st.proc.allocatedFds st).localPtr
  obtain ⟨st₁, hst₁⟩ : ∃ st₁, st₁ = st.proc.allocatedFds.foldl reapClosed st := ⟨_, rfl⟩
  have hreg := registers_prepollBlockedSockets st₁.proc.localPtr.blockedQ st₁
  have hprepoll : st.prepoll = st₁.proc.localPtr.blockedQ.foldl prepollBlockedSocket st₁ := by
    rw [hst₁]
    rfl
  rw [← hst₁] at hproc₁ hsize₁ hfree₁ hlocal₁
  have hmem : i ∈ st₁.proc.localPtr.blockedQ.flatMap st₁.sideSlots := by
    rw [hlocal₁]
    refine List.mem_flatMap.mpr ⟨s, hs, List.mem_filterMap.mpr ⟨event, ?_, ?_⟩⟩
    · rw [hlocal₁]
      exact he
    · rw [FdTable.get, hsize₁]
      exact hi
  have howner : st.prepoll.owner i = some ((st₁.owner i).getD st.proc.procId) := by
    rw [hprepoll, hreg.owner, if_pos hmem, hproc₁]
  -- the slot is allocated, so it is on the list of the process it carries
  have hallocated : (st.prepoll.tbl.fds i).allocated = true ∧
      (st.prepoll.tbl.fds i).procId = (st₁.owner i).getD st.proc.procId := by
    unfold owner Fd.owner at howner
    split at howner
    · rename_i hallocated
      exact ⟨hallocated, Option.some.inj howner⟩
    · cases howner
  have hlist := Vk.Attached.allocated hatt i hallocated.1
  refine Iff.trans ?_ (hfree₁ i)
  unfold FreeFor
  rw [hproc₁]
  constructor
  · rintro ⟨hid, -⟩ q hq
    rw [hallocated.2, hq] at hid
    exact hid
  · intro hfree
    have hid : (st.prepoll.tbl.fds i).procId = st.proc.procId := by
      rw [hallocated.2]
      cases hq : st₁.owner i with
      | none => rfl
      | some q => exact hfree q hq
    refine ⟨hid, ?_⟩
    rw [hid, ← hproc, Function.update_self] at hlist
    exact hlist

end Polled

namespace Kern

/-- The process and the table, as `vk_proc_execute` gives them to `vk_proc_prepoll`. -/
def beforePrepoll (k : Kern) (p : Nat) : Kern := if (k.procs p).privileged then k else k.kernEnter

/-- Each descriptor that `vk_proc_prepoll` of process `p` registers for a blocked
socket has a slot that carries the process, and that is on its list. -/
def RegistersOwn (k : Kern) (p : Nat) : Prop :=
  ∀ l, (k.procs p).localPtr = some l → ∀ s ∈ l.pl.blockedQ, ∀ event ∈ l.pl.sides s,
    ∀ i, k.fdTable.tbl.get event.fd = some i →
      (((k.beforePrepoll p).prepollProc p).fdTable.tbl.fds i).procId = p ∧
        i ∈ (((k.beforePrepoll p).prepollProc p).procs p).allocatedFds

/-- The slots of the descriptors that process `p` is blocked on are allocated to no
other process. -/
def SlotsFree (k : Kern) (p : Nat) : Prop :=
  ∀ l, (k.procs p).localPtr = some l → ∀ s ∈ l.pl.blockedQ, ∀ event ∈ l.pl.sides s,
    ∀ i, k.fdTable.tbl.get event.fd = some i →
      (k.fdTable.tbl.fds i).allocated = true → (k.fdTable.tbl.fds i).procId = p

/-- What the prepoll of a process with memory does. -/
theorem registersOwn_iff_slotsFree {k : Kern} {p : Nat} (hsound : k.Sound False) (hlive : k.Live p) :
    k.RegistersOwn p ↔ k.SlotsFree p := by
  obtain ⟨l, hl⟩ := Option.isSome_iff_exists.mp hlive
  obtain ⟨k₁, hk₁, htable, hprocs⟩ : ∃ k₁, k₁ = k.beforePrepoll p ∧ k₁.fdTable = k.fdTable ∧
      k₁.procs = k.procs := by
    refine ⟨_, rfl, ?_, ?_⟩ <;> unfold beforePrepoll <;> split <;> rfl
  have hatt : (k.polled p l.pl).Attached k.slots.allocatedFds := attached_polled hsound.slots l.pl
  have hpolled : k₁.polled p l.pl = k.polled p l.pl := by
    unfold polled
    rw [htable, hprocs]
  have hprepoll : k₁.prepollProc p = (k₁.touch p).setPolled p (k.polled p l.pl).prepoll := by
    unfold prepollProc
    rw [hprocs, hl]
    dsimp only
    rw [hpolled]
  have hiff : ∀ s ∈ l.pl.blockedQ, ∀ event ∈ l.pl.sides s, ∀ i,
      k.fdTable.tbl.get event.fd = some i →
      (((k₁.prepollProc p).fdTable.tbl.fds i).procId = p ∧
        i ∈ ((k₁.prepollProc p).procs p).allocatedFds ↔
        ((k.fdTable.tbl.fds i).allocated = true → (k.fdTable.tbl.fds i).procId = p)) := by
    intro s hs event he i hi
    have hprepoll' := Polled.owner_prepoll_iff hatt hs he hi
    rw [hprepoll, setPolled, updProc_procs_self]
    refine hprepoll'.trans ⟨fun hfree hallocated => ?_, fun hfree q hq => ?_⟩
    · exact hfree _ (if_pos hallocated)
    · unfold Polled.owner Fd.owner at hq
      split at hq
      · rename_i hallocated
        exact (Option.some.inj hq).symm.trans (hfree hallocated)
      · cases hq
  unfold RegistersOwn SlotsFree
  rw [← hk₁]
  refine forall_congr' fun l' => ?_
  constructor
  · intro h hl' s hs event he i hi
    obtain rfl : l = l' := Option.some.inj (hl.symm.trans hl')
    exact (hiff s hs event he i hi).mp (h hl' s hs event he i hi)
  · intro h hl' s hs event he i hi
    obtain rfl : l = l' := Option.some.inj (hl.symm.trans hl')
    exact (hiff s hs event he i hi).mpr (h hl' s hs event he i hi)

/-- In every state of a run in which a process runs: its prepoll registers the
descriptors it is blocked on in slots of its own exactly if their slots are not
allocated to other processes. -/
theorem registersOwn_iff {b : Boot} {as : List KernAct} {k : Kern} {p : Nat}
    (hrun : run step as (boot b) = some k) (hstage : k.stage = .running p) :
    k.RegistersOwn p ↔ k.SlotsFree p :=
  have hsound := sound_of_run hrun
  registersOwn_iff_slotsFree hsound (hsound.current p (by rw [hstage]; rfl))

/-- A process whose thread waits to read from descriptor `fd`. -/
def readingFrom (fd : Int) : Local :=
  let l := Local.init.initThread 0 0 fd
  { l with pl := (l.pl.updSocket 0 fun socket =>
      { socket with block := { socket.block with
          ioftRxPre := { socket.block.ioftRxPre with event := ⟨fd, POLLIN, 0⟩ } } }).enqueueBlocked 0 }

/-- A process waits for its descriptor, and its slot is its own. -/
theorem registersOwn_reading : ∃ k,
    run step [.dequeueFresh, .dequeueRun, .dispatch Heap.cleared (some (readingFrom 5)),
      .compute (readingFrom 5)] (boot (smallBoot false false)) = some k ∧ k.stage = .running 0 ∧
      (k.RegistersOwn 0 ↔ k.SlotsFree 0) := by
  obtain ⟨k, hk, hstage⟩ := (Option.any_eq_true _ _).mp (by decide +kernel :
    (run step [.dequeueFresh, .dequeueRun, .dispatch Heap.cleared (some (readingFrom 5)),
      .compute (readingFrom 5)] (boot (smallBoot false false))).any
      (fun k => decide (k.stage = .running 0)) = true)
  exact ⟨k, hk, of_decide_eq_true hstage,
    registersOwn_iff (b := smallBoot false false) hk (of_decide_eq_true hstage)⟩

/-- A connection whose process is played. -/
def sharedAccept (fd : Int) : Accept where
  fd := fd
  pooled := false
  privileged := false
  isolated := false
  fits := true
  mapped := some 10
  thread := 0
  socket := 0
  setup := .played

/-- A process waits for descriptor 5, closes it, accepts a connection that gets the
same number, and waits for descriptor 7.  When the process of the connection waits for
5, the slot is still that of the first. -/
theorem registered_in_others_slot :
    ¬∀ (b : Boot) (as : List KernAct) (k : Kern) (p : Nat), run step as (boot b) = some k →
      k.stage = .running p → k.RegistersOwn p := by
  intro h
  obtain ⟨k, hk, hslot⟩ := (Option.any_eq_true _ _).mp (by decide +kernel :
    (run step [.dequeueFresh, .dequeueRun, .dispatch Heap.cleared (some (readingFrom 5)),
      .compute (readingFrom 5), .leave 0, .dequeueRun, .prepoll, .poll (fun _ => POLLIN), .dequeueFresh,
      .dequeueRun, .dispatch Heap.cleared (some (readingFrom 5)), .accept (sharedAccept 5),
      .compute (readingFrom 7), .leave 0, .dequeueRun,
      .dispatch Heap.cleared (some (readingFrom 5)), .compute (readingFrom 5)]
      (boot (smallBoot true false))).any (fun k => decide (k.stage = .running 1 ∧
        (k.fdTable.tbl.fds 5).allocated = true ∧ (k.fdTable.tbl.fds 5).procId = 0 ∧
        (k.procs 1).localPtr.any (fun l => decide (0 ∈ l.pl.blockedQ ∧
          ⟨5, POLLIN, 0⟩ ∈ l.pl.sides 0 ∧ k.fdTable.tbl.get 5 = some 5)) = true)) = true)
  obtain ⟨hstage, hallocated, hother, hlocal⟩ := of_decide_eq_true hslot
  obtain ⟨l, hl, hside⟩ := (Option.any_eq_true _ _).mp hlocal
  obtain ⟨hblocked, hevent, hget⟩ := of_decide_eq_true hside
  have hsound := sound_of_run hk
  have hlive : k.Live 1 := hsound.current 1 (by rw [hstage]; rfl)
  have hfree := (registersOwn_iff_slotsFree hsound hlive).mp (h _ _ k 1 hk hstage) l hl 0 hblocked _
    hevent 5 hget hallocated
  rw [hother] at hfree
  cases hfree

end Kern

end Vk

/-
# `Mnvkd.KernDrivers` — the kernel with any driver

The kernel polls with the driver its table was given.  What each of its steps does to
the table are operations of the table (`operates_step`), so what holds after any
operations on a table holds of the kernel's.

A process is woken by a fresh slot only while it has that slot, whatever the order in
which processes end and events come, if `kqueue(2)` reports no event of a zombie's slot
(`wakesLive_of_run`).
-/
import Mnvkd.Rounds
import Mnvkd.FdOwner

namespace Vk

open Lib

/-! ## The processes and the descriptors the system has -/

namespace Polled

/-- What is done to the slots of a process: as long as only zombies' slots are to be
closed, that stays so, and a slot stays allocated or a zombie's. -/
def Tends (st st' : Polled) : Prop :=
  (∀ j, (st.tbl.fds j).shut = true → (st.tbl.fds j).zombie = true) →
    (∀ j, (st'.tbl.fds j).shut = true → (st'.tbl.fds j).zombie = true) ∧
      ∀ j, (st.tbl.fds j).allocated = true ∨ (st.tbl.fds j).zombie = true →
        (st'.tbl.fds j).allocated = true ∨ (st'.tbl.fds j).zombie = true

variable {st st' st'' : Polled}

theorem Tends.refl (st : Polled) : Tends st st := fun h => ⟨h, fun _ => id⟩

theorem Tends.trans (h : Tends st st') (h' : Tends st' st'') : Tends st st'' := fun hshut =>
  have ⟨hshut', htended⟩ := h hshut
  have ⟨hshut'', htended'⟩ := h' hshut'
  ⟨hshut'', fun j hj => htended' j (htended j hj)⟩

/-- One slot is changed. -/
theorem Tends.of_slot (i : Nat) (hother : ∀ j, j ≠ i → (st'.tbl.fds j) = (st.tbl.fds j))
    (hshut : ((st.tbl.fds i).shut = true → (st.tbl.fds i).zombie = true) →
      ((st'.tbl.fds i).shut = true → (st'.tbl.fds i).zombie = true) ∧
      ((st.tbl.fds i).allocated = true ∨ (st.tbl.fds i).zombie = true →
        (st'.tbl.fds i).allocated = true ∨ (st'.tbl.fds i).zombie = true)) : Tends st st' := by
  intro h
  obtain ⟨hshut', htended⟩ := hshut (h i)
  refine ⟨fun j => ?_, fun j => ?_⟩
  · by_cases hji : j = i
    · exact hji ▸ hshut'
    · rw [hother j hji]
      exact h j
  · by_cases hji : j = i
    · exact hji ▸ htended
    · rw [hother j hji]
      exact id

theorem tends_foldl {body : Polled → Nat → Polled} (hbody : ∀ st i, Tends st (body st i))
    (is : List Nat) (st : Polled) : Tends st (is.foldl body st) := by
  induction is generalizing st with
  | nil => exact Tends.refl st
  | cons i is ih => exact (hbody st i).trans (ih _)

/-- A slot is made dirty and given up: what is left of it. -/
theorem giveUp_slot (st : Polled) (i : Nat) :
    (∀ j, j ≠ i → (({ st with tbl := st.tbl.enqueueDirty i } : Polled).deallocateFd i).tbl.fds j =
      st.tbl.fds j) ∧
    (({ st with tbl := st.tbl.enqueueDirty i } : Polled).deallocateFd i).tbl.fds i =
      { st.tbl.fds i with dirtyQed := true, allocated := false } := by
  have hself := st.tbl.enqueueDirty_self i
  unfold deallocateFd
  split
  · refine ⟨fun j hj => ?_, ?_⟩
    · dsimp only
      rw [FdTable.updFd_of_ne _ _ hj, FdTable.enqueueDirty_of_ne _ hj]
    · dsimp only
      rw [FdTable.updFd_self, hself]
  · rename_i hnot
    have hnot : ((st.tbl.enqueueDirty i).fds i).allocated = false := by simpa using hnot
    rw [hself] at hnot
    refine ⟨fun j hj => FdTable.enqueueDirty_of_ne _ hj, ?_⟩
    dsimp only
    rw [hself]
    exact congrArg (fun allocated => { st.tbl.fds i with dirtyQed := true, allocated := allocated }) hnot

theorem tends_reapClosed (st : Polled) (i : Nat) : Tends st (st.reapClosed i) := by
  obtain ⟨hother, hself⟩ := giveUp_slot st i
  unfold reapClosed
  split
  · rename_i hclosed
    refine Tends.of_slot i hother fun hshut => ?_
    -- a closed slot is a zombie's
    have hz := hshut (Bool.or_eq_true_iff.mpr (Or.inl hclosed))
    rw [hself]
    exact ⟨fun _ => hz, fun _ => Or.inr hz⟩
  · exact Tends.refl st

theorem tends_buryFd (st : Polled) (i : Nat) : Tends st (st.buryFd i) := by
  let bury : Fd → Fd := fun slot =>
    { slot with ioftPre := { slot.ioftPre with rxClosed := true, txClosed := true }, zombie := true }
  obtain ⟨hother, hself⟩ := giveUp_slot { st with tbl := st.tbl.updFd i bury } i
  refine Tends.of_slot i (fun j hj => ?_) fun _ => ?_
  · exact (hother j hj).trans (FdTable.updFd_of_ne st.tbl bury hj)
  · have hz : ((st.buryFd i).tbl.fds i).zombie = true := by
      refine (congrArg Fd.zombie hself).trans ?_
      dsimp only
      rw [FdTable.updFd_self]
    exact ⟨fun _ => hz, fun _ => Or.inr hz⟩

/-- A slot that the process has or gets. -/
theorem allocateFd_slot (st : Polled) (i : Nat) (fd : Int) {st₁ : Polled}
    (hst₁ : st₁ = if (st.tbl.fds i).allocated then st else (st.allocateFd i fd).1) :
    (∀ j, j ≠ i → st₁.tbl.fds j = st.tbl.fds j) ∧ (st₁.tbl.fds i).allocated = true ∧
      ((st₁.tbl.fds i).closed = true →
        (st.tbl.fds i).closed = true ∧ (st₁.tbl.fds i).zombie = (st.tbl.fds i).zombie) := by
  cases hallocated : (st.tbl.fds i).allocated with
  | true =>
      rw [if_pos hallocated] at hst₁
      subst hst₁
      exact ⟨fun _ _ => rfl, hallocated, fun hclosed => ⟨hclosed, rfl⟩⟩
  | false =>
      have hnot : ¬(st.tbl.fds i).allocated = true := by rw [hallocated]; exact Bool.false_ne_true
      rw [if_neg hnot, allocateFd, if_neg hnot] at hst₁
      subst hst₁
      have hself : (st.tbl.updFd i fun slot => slot.allocate fd st.proc.procId).fds i =
          (st.tbl.fds i).allocate fd st.proc.procId := FdTable.updFd_self _ _ _
      rw [Fd.allocate, if_neg hnot] at hself
      refine ⟨fun j hj => ?_, ?_, fun hclosed => ?_⟩
      · dsimp only
        rw [FdTable.updFd_of_ne _ _ hj]
      · exact congrArg Fd.allocated hself
      · exact absurd ((congrArg Fd.closed hself).symm.trans hclosed) Bool.false_ne_true

theorem tends_prepollBlockedFd (st : Polled) (s : Nat) (ioft : IoFuture) :
    Tends st (st.prepollBlockedFd s ioft) := by
  unfold prepollBlockedFd
  cases hget : st.tbl.get ioft.event.fd with
  | none => exact Tends.refl st
  | some i =>
      dsimp only
      generalize hst₁ : (if (st.tbl.fds i).allocated then st else (st.allocateFd i ioft.event.fd).1) = st₁
      obtain ⟨hother, hallocated, hclosed⟩ := allocateFd_slot st i ioft.event.fd hst₁.symm
      have hput : ∀ (ioft' : IoFuture) (c : Prop) [Decidable c], (ioft'.rxClosed && ioft'.txClosed) = false →
          Tends st (if c then
            { st₁ with tbl :=
              (st₁.tbl.updFd i fun slot => { slot with ioftPre := ioft' }).enqueueDirty i }
          else
            { st₁ with tbl := st₁.tbl.updFd i fun slot => { slot with ioftPre := ioft' } }) := by
        intro ioft' c _ hopen
        have hslot : ∀ (st₂ : Polled) (queued : Bool), (∀ j, j ≠ i → st₂.tbl.fds j = st₁.tbl.fds j) →
            st₂.tbl.fds i = { st₁.tbl.fds i with ioftPre := ioft', dirtyQed := queued } → Tends st st₂ := by
          intro st₂ queued hother' hself
          refine Tends.of_slot i (fun j hj => (hother' j hj).trans (hother j hj)) fun hshut => ?_
          have hallocated' : (st₂.tbl.fds i).allocated = true := by rw [hself]; exact hallocated
          refine ⟨fun hshut' => ?_, fun _ => Or.inl hallocated'⟩
          rw [hself] at hshut' ⊢
          obtain hclosed' | hboth := Bool.or_eq_true_iff.mp hshut'
          · obtain ⟨hclosed, hzombie⟩ := hclosed hclosed'
            exact hzombie.trans (hshut (Bool.or_eq_true_iff.mpr (Or.inl hclosed)))
          · exact absurd (hopen.symm.trans hboth) Bool.false_ne_true
        split
        · refine hslot _ true (fun j hj => ?_) ?_
          · dsimp only
            rw [FdTable.enqueueDirty_of_ne _ hj, FdTable.updFd_of_ne _ _ hj]
          · dsimp only
            rw [FdTable.enqueueDirty_self, FdTable.updFd_self]
        · refine hslot _ (st₁.tbl.fds i).dirtyQed (fun j hj => ?_) ?_
          · dsimp only
            rw [FdTable.updFd_of_ne _ _ hj]
          · dsimp only
            rw [FdTable.updFd_self]
      exact hput _ _ rfl

theorem tends_prepollBlockedSocket (st : Polled) (s : Nat) : Tends st (st.prepollBlockedSocket s) := by
  have hside : ∀ (st : Polled) (c : Prop) [Decidable c] (ioft : IoFuture),
      Tends st (if c then st.prepollBlockedFd s ioft else st) := by
    intro st c _ ioft
    split
    · exact tends_prepollBlockedFd st s ioft
    · exact Tends.refl st
  exact (hside st _ _).trans (hside _ _ _)

theorem tends_prepoll (st : Polled) : Tends st st.prepoll :=
  (tends_foldl tends_reapClosed st.proc.allocatedFds st).trans
    (tends_foldl tends_prepollBlockedSocket _ _)

theorem tends_prepollZombie (st : Polled) : Tends st st.prepollZombie := tends_foldl tends_buryFd _ st

end Polled

/-- The operations in which the driver has no part. -/
def FdAct.Local (a : FdAct) : Prop := ∀ driver pending answer, a ≠ .wait driver pending answer

namespace FdState
variable {s s' t : FdState}

def setTable (s : FdState) (t : PollTable) : FdState := { s with wait := s.wait.setTable t }

/-- From `s` to `s'` there are operations, none of them a poll round. -/
def Operates (s s' : FdState) : Prop :=
  ∃ as : List FdAct, (∀ a ∈ as, a.Local) ∧ run step as s = some s'

theorem Operates.refl (s : FdState) : Operates s s := ⟨[], nofun, rfl⟩

theorem Operates.of_step {a : FdAct} (ha : a.Local) (h : step a s = some s') : Operates s s' := by
  refine ⟨[a], fun b hb => ?_, (run_cons step).mpr ⟨s', h, rfl⟩⟩
  obtain rfl := List.mem_singleton.mp hb
  exact ha

theorem Operates.trans (h : Operates s s') (h' : Operates s' t) : Operates s t := by
  obtain ⟨as, hlocal, has⟩ := h
  obtain ⟨bs, hlocal', hbs⟩ := h'
  refine ⟨as ++ bs, fun a ha => (List.mem_append.mp ha).elim (hlocal a) (hlocal' a), ?_⟩
  rw [run_append, has]
  exact hbs

/-- What an operation keeps: the system has descriptors of tended slots only, and a slot
that is to be closed is a zombie's. -/
theorem tracks_step {a : FdAct} (h : s.wait.Tracks s.fds)
    (hwait : ∀ driver pending answer, a = .wait driver pending answer →
      s.table.freshFds = [] ∧ s.wait.ReportsLive driver answer)
    (hst : step a s = some s') : s'.wait.Tracks s'.fds := by
  have hlists := lists_step h.lists hst
  have hpolled : ∀ (p : Nat) (st st' : Polled), st.tbl = s.table.tbl → Polled.Tends st st' →
      s' = s.setPolled p st' → s'.wait.Tracks s'.fds := by
    rintro p st st' htbl htends rfl
    unfold Polled.Tends at htends
    rw [htbl] at htends
    obtain ⟨hshut, htended⟩ := htends h.shut
    exact ⟨hlists, hshut, fun i hi => htended i (h.given i hi)⟩
  cases a with
  | prepoll p pl =>
      exact hpolled p (s.polled p pl) _ rfl (Polled.tends_prepoll _) (Option.some.inj hst).symm
  | prepollZombie p =>
      exact hpolled p (s.polled p ProcLocal.init) _ rfl (Polled.tends_prepollZombie _)
        (Option.some.inj hst).symm
  | wait driver pending answer =>
      obtain rfl := Option.some.inj hst
      obtain ⟨hidle, hlive⟩ := hwait driver pending answer rfl
      exact h.round (WaitTable.round_wait pending h hidle hlive)
  | dequeueFresh =>
      obtain rfl := Option.some.inj hst
      refine ⟨hlists, fun i => ?_, fun i hi => ?_⟩
      · show (s.table.dequeueFresh.tbl.fds i).shut = true → (s.table.dequeueFresh.tbl.fds i).zombie = true
        rw [PollTable.dequeueFresh_tbl]
        exact h.shut i
      · show (s.table.dequeueFresh.tbl.fds i).allocated = true ∨
          (s.table.dequeueFresh.tbl.fds i).zombie = true
        rw [PollTable.dequeueFresh_tbl]
        exact h.given i hi

theorem Operates.tracks (h : Operates s s') (htracks : s.wait.Tracks s.fds) : s'.wait.Tracks s'.fds := by
  obtain ⟨as, hlocal, has⟩ := h
  induction as generalizing s with
  | nil =>
      obtain rfl := Option.some.inj has
      exact htracks
  | cons a as ih =>
      obtain ⟨u, hu, has⟩ := (run_cons step).mp has
      exact ih (tracks_step htracks (fun driver pending answer ha =>
        absurd ha (hlocal a List.mem_cons_self driver pending answer)) hu)
        (fun b hb => hlocal b (List.mem_cons_of_mem a hb)) has

theorem tracks_init (size : Nat) : (init size).wait.Tracks (init size).fds where
  lists := lists_init size
  shut _ h := nomatch h
  given _ h := nomatch h

/-- All fresh slots are taken, one after the other. -/
theorem operates_dequeueFresh (h : s.table.FreshFits) :
    Operates s (s.setTable { s.table with freshFds := [], freshQed := fun _ => false }) := by
  generalize hfresh : s.table.freshFds = fresh
  induction fresh generalizing s with
  | nil =>
      have hqed : s.table.freshQed = fun _ => false := by
        funext i
        have hcount := (h i).2 trivial
        rw [hfresh] at hcount
        exact Bool.toNat_eq_zero.mp hcount.symm
      rw [← hqed, ← hfresh]
      exact Operates.refl s
  | cons i fresh ih =>
      have hdequeue : s.table.dequeueFresh =
          { s.table with freshFds := fresh, freshQed := Function.update s.table.freshQed i false } := by
        unfold PollTable.dequeueFresh
        rw [hfresh]
      have hstep : step .dequeueFresh s = some (s.setTable s.table.dequeueFresh) := rfl
      refine (Operates.of_step (a := .dequeueFresh) nofun hstep).trans ?_
      have hrest := ih (s := s.setTable s.table.dequeueFresh) h.dequeueFresh
        (congrArg PollTable.freshFds hdequeue)
      have htable : (s.setTable s.table.dequeueFresh).table = s.table.dequeueFresh := rfl
      rw [htable, hdequeue] at hrest
      rw [hdequeue]
      exact hrest

end FdState

/-! ## What the steps of the kernel do to the table -/

namespace Kern
open FdState (Operates)

/-- The table and the processes' lists, with what the driver `w` has besides the table. -/
def fdState (k : Kern) (w : WaitTable) : FdState := ⟨w.setTable k.fdTable, k.slots.allocatedFds⟩

variable {k k' : Kern} {p : Nat} (w : WaitTable)

theorem fdState_eq {s : Slots} (h : k.slots = s) : k.fdState w = ⟨w.setTable s.table, s.allocatedFds⟩ := by
  subst h
  rfl

theorem fdState_of_slots (h : k'.slots = k.slots) : k'.fdState w = k.fdState w := fdState_eq w h

theorem operates_prepollProc (k : Kern) (p : Nat) : Operates (k.fdState w) ((k.prepollProc p).fdState w) := by
  unfold prepollProc
  cases (k.procs p).localPtr with
  | none => exact Operates.refl _
  | some l =>
      have hslots := setPolled_slots (k := k.touch p) (p := p) (k.polled p l.pl).prepoll
      refine Operates.of_step (a := .prepoll p l.pl) nofun ?_
      dsimp only
      rw [fdState_eq w hslots]
      rfl

theorem operates_freeProc (h : k.slots.Owned) : Operates (k.fdState w) ((k.freeProc p).fdState w) := by
  obtain ⟨-, -, hnil⟩ := Polled.attached_prepollZombie (attached_polled (p := p) h ProcLocal.init)
  refine Operates.of_step (a := .prepollZombie p) nofun ?_
  rw [fdState_eq w (freeProc_slots (k := k) (p := p)), ← hnil]
  rfl

theorem operates_dequeueFresh (h : k.fdTable.FreshFits) :
    Operates (k.fdState w) (k.dequeueFresh.fdState w) := by
  have hslots : k.dequeueFresh.slots =
      { k.slots with table := { k.fdTable with freshFds := [], freshQed := fun _ => false } } := by
    rw [dequeueFresh_unchanged k slots enqueueRun_slots]
    rfl
  rw [fdState_eq w hslots]
  exact FdState.operates_dequeueFresh (s := k.fdState w) h

theorem operates_afterExecute (h : k.slots.Owned) :
    Operates (k.fdState w) ((k.afterExecute p).fdState w) := by
  have hflush := flushProcQueues_slots k p
  have hsame := fdState_of_slots w hflush
  unfold afterExecute
  dsimp only
  split
  · rw [← hsame]
    exact operates_freeProc w (hflush ▸ h)
  · split
    · rw [fdState_of_slots w (show (((k.flushProcQueues p).heapExit p).setStage .dispatch).slots = k.slots by
        rw [setStage_slots, heapExit_slots, hflush])]
      exact Operates.refl _
    · rw [fdState_of_slots w (show ((k.flushProcQueues p).setStage .dispatch).slots = k.slots by
        rw [setStage_slots, hflush])]
      exact Operates.refl _

theorem operates_execute (h : k.slots.Owned) (hlive : k.Live p) (postpoll : Option Local) :
    Operates (k.fdState w) ((k.execute p postpoll).fdState w) := by
  unfold execute
  obtain ⟨l, hl⟩ := Option.isSome_iff_exists.mp hlive
  rw [hl]
  dsimp only
  generalize (if l.pl.runningCr.isSome then some { l with pl := l.pl.raiseSignal.1 } else postpoll) = l'
  have htouch : (k.touch p).Live p := hlive
  cases l' with
  | none => exact operates_afterExecute (k := k.touch p) w h
  | some l =>
      have hslots : (((k.touch p).setLocal p l).heapEnter p).slots = k.slots :=
        (heapEnter_slots _ p).trans (setLocal_slots htouch)
      dsimp only
      generalize ((k.touch p).setLocal p l).heapEnter p = k₁ at hslots ⊢
      have hslots' : ((if (k₁.procs p).privileged then k₁ else k₁.kernExit).setStage (.running p)).slots =
          k.slots := by
        rw [setStage_slots]
        split <;> exact hslots
      rw [fdState_of_slots w hslots']
      exact Operates.refl _

theorem accept_slots {exact : Prop} (hqueues : k.sched.Queues exact) (a : Accept) :
    (k.accept a).slots.table = k.slots.table ∧ (k.accept a).slots.allocatedFds = k.slots.allocatedFds := by
  unfold accept
  cases hfree : k.freeProcs with
  | nil => exact ⟨rfl, rfl⟩
  | cons p rest =>
      obtain ⟨-, hdead, -⟩ := hqueues.take_free (p := p) hfree
      have hnone : (({ k with freeProcs := rest } : Kern).procs p).localPtr = none :=
        Option.isSome_eq_false_iff.mp hdead |> Option.isNone_iff_eq_none.mp
      dsimp only
      obtain ⟨hok, hs, ht⟩ | ⟨hok, hs, ht⟩ := inits_allocHeap a hnone
      · rw [if_pos hok]
        have hlive : (({ k with freeProcs := rest } : Kern).allocHeap p a).1.Live p := by
          show (({ k with freeProcs := rest } : Kern).allocHeap p a).1.sched.live p = true
          rw [hs]
          exact Function.update_self _ _ _
        rw [(@setupProc_spec exact _ _ a hlive).2, ht]
        exact ⟨rfl, rfl⟩
      · rw [if_neg (by rw [hok]; exact Bool.false_ne_true), ht]
        exact ⟨rfl, rfl⟩

/-- A step of the kernel other than its poll does operations on the table. -/
theorem operates_step {exact : Prop} {a : KernAct} (h : k.Sound exact) (hfresh : k.fdTable.FreshFits)
    (hpoll : ∀ revents, a ≠ .poll revents) (hst : step a k = some k') :
    Operates (k.fdState w) (k'.fdState w) := by
  have hsame : ∀ {k₁ : Kern}, k₁.slots = k.slots → Operates (k.fdState w) (k₁.fdState w) := by
    intro k₁ hslots
    rw [fdState_of_slots w hslots]
    exact Operates.refl _
  cases steps_of_step hst with
  | dequeueFresh hstage => exact operates_dequeueFresh w hfresh
  | dequeueRun hstage => exact hsame (dequeueRun_slots k)
  | signal signo hstage =>
      cases signo with
      | term => exact hsame rfl
      | usr1 => exact hsame (dump_slots k)
  | dispatch p kernHd postpoll hstage =>
      have hslots := heapEnter_slots k p
      have hlive : (k.heapEnter p).slots.live p = true := by
        rw [hslots]
        exact h.current p (by rw [hstage]; rfl)
      rw [← fdState_of_slots w hslots]
      exact operates_execute (k := { k.heapEnter p with
        kernHd := kernHd, dispatched := p :: (k.heapEnter p).dispatched }) w
        (show (k.heapEnter p).slots.Owned by rw [hslots]; exact h.slots) hlive postpoll
  | compute p l hstage => exact hsame (setLocal_slots (h.current p (by rw [hstage]; rfl)))
  | accept p a hstage hkern =>
      obtain ⟨htable, hfds⟩ := accept_slots h.queues a
      have hslots : (k.accept a).slots =
          ⟨k.slots.table, k.slots.allocatedFds, (k.accept a).slots.live⟩ := by rw [← htable, ← hfds]
      rw [fdState_eq w hslots]
      exact Operates.refl _
  | fault p postpoll hstage =>
      have hslots : (k.kernEnter.heapEnter p).slots = k.slots := heapEnter_slots _ p
      have hlive : (k.kernEnter.heapEnter p).slots.live p = true := by
        rw [hslots]
        exact h.current p (by rw [hstage]; rfl)
      rw [← fdState_of_slots w hslots]
      exact operates_execute (k := (k.kernEnter.heapEnter p).touch p) w
        (show (k.kernEnter.heapEnter p).slots.Owned by rw [hslots]; exact h.slots) hlive postpoll
  | leave p rc hstage =>
      have hslots : (if (k.procs p).privileged then k else k.kernEnter).slots = k.slots := by
        split <;> rfl
      unfold leave
      dsimp only
      generalize (if (k.procs p).privileged then k else k.kernEnter) = k₁ at hslots ⊢
      rw [← fdState_of_slots w hslots]
      split
      · exact operates_afterExecute w (hslots ▸ h.slots)
      · have hidle : k₁.fdTable.freshFds = [] := by
          show k₁.slots.table.freshFds = []
          rw [hslots]
          exact h.idle (by rw [hstage]; nofun)
        exact (operates_prepollProc w k₁ p).trans
          (operates_afterExecute w (owned_prepollProc (hslots ▸ h.slots) hidle))
  | prepoll hstage => exact hsame (prepoll_slots k)
  | poll revents hstage => exact absurd rfl (hpoll revents)
  | pollError hstage => exact hsame rfl

end Kern

/-! ## The machine -/

/-- A kernel, with the driver its table waits with and what the driver and the system
have besides the table. -/
structure OsKern where
  kern : Kern
  driver : Driver
  post : Nat → Events
  kqNchanges : Nat
  interest : List Int
  ctls : List EpollCtl

namespace OsKern

def waitTable (o : OsKern) : WaitTable where
  table := o.kern.fdTable
  post := o.post
  kqNchanges := o.kqNchanges
  interest := o.interest
  ctls := o.ctls

/-- `vk_kern_poll`. -/
def poll (o : OsKern) (answer : Answer) : OsKern :=
  let wait := o.waitTable.wait o.driver o.kern.pending answer
  { o with
    kern := { o.kern with fdTable := wait.1.table, stage := if wait.2 then .fresh else .stop }
    post := wait.1.post
    kqNchanges := wait.1.kqNchanges
    interest := wait.1.interest
    ctls := wait.1.ctls }

end OsKern

/-- What the kernel does, and what the system answers its driver. -/
inductive OsAct where
  | kern (a : KernAct)
  | poll (answer : Answer)

namespace OsKern

/-- One step of `vk_kern_loop`. -/
def step : OsAct → OsKern → Option OsKern
  | .kern (.poll _), _ => none
  | .kern .pollError, _ => none
  | .kern a, o => (Kern.step a o.kern).map fun k => { o with kern := k }
  | .poll answer, o => if o.kern.stage = .poll then some (o.poll answer) else none

/-- A kernel that starts, with a driver. -/
def boot (b : Boot) (driver : Driver) : OsKern where
  kern := Kern.boot b
  driver := driver
  post := fun _ => 0
  kqNchanges := 0
  interest := []
  ctls := []

/-- What a step does. -/
inductive Steps (o : OsKern) : OsAct → OsKern → Prop
  | kern (a : KernAct) (k : Kern) (hpoll : ∀ revents, a ≠ .poll revents)
      (hst : Kern.step a o.kern = some k) : Steps o (.kern a) { o with kern := k }
  | poll (answer : Answer) (hst : o.kern.stage = .poll) : Steps o (.poll answer) (o.poll answer)

theorem steps_of_step {a : OsAct} {o o' : OsKern} (h : step a o = some o') : Steps o a o' := by
  cases a with
  | kern a =>
      have hmap : ∀ a : KernAct, (∀ revents, a ≠ .poll revents) →
          ((Kern.step a o.kern).map fun k => { o with kern := k }) = some o' → Steps o (.kern a) o' := by
        intro a hpoll h
        obtain ⟨k, hk, rfl⟩ := Option.map_eq_some_iff.mp h
        exact .kern a k hpoll hk
      cases a with
      | poll revents => cases h
      | pollError => cases h
      | _ => exact hmap _ nofun h
  | poll answer =>
      obtain ⟨hst, ho⟩ := Option.ite_none_right_eq_some.mp h
      exact Option.some.inj ho ▸ .poll answer hst

/-! ## The invariant -/

def fdState (o : OsKern) : FdState := ⟨o.waitTable, o.kern.slots.allocatedFds⟩

/-- The invariant, while the kernel runs. -/
structure Sound (o : OsKern) : Prop where
  kern : o.kern.Sound False
  tracks : o.waitTable.Tracks o.kern.slots.allocatedFds

/-- `kqueue(2)` reports no event of a zombie's slot. -/
def ReportsLive (a : OsAct) (o : OsKern) : Prop :=
  ∀ answer, a = .poll answer → o.waitTable.ReportsLive o.driver answer

/-- No step is taken from where the loop has ended. -/
theorem step_of_stop {o : OsKern} (hstop : o.kern.stage = .stop) (a : OsAct) : step a o = none := by
  have hkern : ∀ a, Kern.step a o.kern = none := by
    intro a
    cases a <;> simp [Kern.step, hstop, KernStage.receives]
  cases a with
  | poll answer =>
      have hstage : o.kern.stage ≠ .poll := by
        rw [hstop]
        exact KernStage.noConfusion
      exact if_neg hstage
  | kern a =>
      cases a with
      | poll revents => rfl
      | pollError => rfl
      | _ => exact congrArg (Option.map _) (hkern _)

/-- A slot that is fresh after a round is allocated. -/
theorem owned_poll {o : OsKern} {w : WaitTable} (h : o.kern.slots.Owned) (hidle : o.kern.fdTable.freshFds = [])
    (hround : WaitTable.Round o.waitTable w) (htracks : w.Tracks o.kern.slots.allocatedFds) :
    ({ o.kern.slots with table := w.table } : Slots).Owned where
  attached := htracks.lists.attached
  live := h.live
  fresh i hi := by
    obtain hi | hallocated := hround.fresh i hi
    · have hi : i ∈ o.kern.fdTable.freshFds := hi
      rw [hidle] at hi
      cases hi
    · exact (hround.edits.alike i).allocated.trans hallocated

theorem sound_step {a : OsAct} {o o' : OsKern} (h : o.kern.stage = .stop ∨ o.Sound)
    (hlive : ReportsLive a o) (hst : step a o = some o') : o'.kern.stage = .stop ∨ o'.Sound := by
  obtain hstop | h := h
  · rw [step_of_stop hstop] at hst
    cases hst
  cases steps_of_step hst with
  | kern a k hpoll hk =>
      have hoperates := Kern.operates_step o.waitTable h.kern h.tracks.lists.fresh hpoll hk
      exact Or.inr ⟨Kern.sound_step h.kern False.elim hk, hoperates.tracks h.tracks⟩
  | poll answer hstage =>
      have hidle : o.kern.fdTable.freshFds = [] := h.kern.idle (by rw [hstage]; nofun)
      have hround := WaitTable.round_wait o.kern.pending h.tracks hidle (hlive answer rfl)
      have htracks := h.tracks.round hround
      unfold poll
      generalize o.waitTable.wait o.driver o.kern.pending answer = wait at hround htracks ⊢
      dsimp only
      cases wait.2 with
      | false => exact Or.inl rfl
      | true =>
          exact Or.inr
            { kern := ⟨owned_poll (o := o) h.kern.slots hidle hround htracks, h.kern.queues, fun hne => absurd rfl hne,
                fun p hp => nomatch hp⟩
              tracks := htracks }

theorem sound_boot (b : Boot) (driver : Driver) : (boot b driver).Sound where
  kern := Kern.sound_boot b
  tracks := by
    obtain ⟨-, hfds, -⟩ := Kern.bootProc_spec b
    have hslots := Kern.flushProcQueues_slots (Kern.bootProc b) 0
    have htable : (Kern.boot b).fdTable = (Kern.bootProc b).fdTable := congrArg Slots.table hslots
    have hwait : (boot b driver).waitTable = (FdState.init b.fdCount).wait := by
      show { (FdState.init b.fdCount).wait with table := (Kern.boot b).fdTable } = _
      rw [htable]
      rfl
    have hlists : (boot b driver).kern.slots.allocatedFds = (FdState.init b.fdCount).fds := by
      show (Kern.boot b).slots.allocatedFds = _
      rw [Kern.boot, hslots, hfds]
      rfl
    rw [hwait, hlists]
    exact FdState.tracks_init b.fdCount

/-- Each slot that is fresh before the first loop of `vk_kern_postpoll` is one of the
process it names, and that process has memory. -/
def WakesLive (o : OsKern) : Prop :=
  o.kern.stage = .fresh → ∀ i ∈ o.kern.fdTable.freshFds,
    i ∈ (o.kern.procs (o.kern.fdTable.tbl.fds i).procId).allocatedFds ∧
      o.kern.Live (o.kern.fdTable.tbl.fds i).procId

/-- In every run in which `kqueue(2)` reports no event of a zombie's slot, a process that
is woken has the slot it is woken by: it has not ended since that was registered. -/
theorem wakesLive_of_run {b : Boot} {driver : Driver} {as : List OsAct} {o : OsKern}
    (hlive : Meets step ReportsLive as (boot b driver)) (hrun : run step as (boot b driver) = some o) :
    o.WakesLive := by
  intro hstage i hi
  have hsound := run_of_meets (I := fun o => o.kern.stage = .stop ∨ o.Sound)
    (fun a s s' h hC hst => sound_step h hC hst) (Or.inr (sound_boot b driver)) hlive hrun
  have hsound := (hsound.resolve_left (by rw [hstage]; nofun)).kern.slots
  exact ⟨hsound.attached.allocated i (hsound.fresh i hi), hsound.live_of_fresh hi⟩

/-- Of the other drivers nothing is asked. -/
theorem meets_of_driver {o : OsKern} (hdriver : ∀ edge, o.driver ≠ .kqueue edge) (as : List OsAct) :
    Meets step ReportsLive as o := by
  induction as generalizing o with
  | nil => trivial
  | cons a as ih =>
      refine ⟨fun _ _ edge hedge => absurd hedge (hdriver edge), fun o' hst => ih fun edge => ?_⟩
      cases steps_of_step hst with
      | kern a k hpoll hk => exact hdriver edge
      | poll answer hstage => exact hdriver edge

/-- The first process waits for descriptor 5, and an event of it is reported. -/
def pollFive : List OsAct :=
  [.kern .dequeueFresh, .kern .dequeueRun, .kern (.dispatch Heap.cleared (some (Kern.readingFrom 5))),
    .kern (.compute (Kern.readingFrom 5)), .kern (.leave 0), .kern .dequeueRun, .kern .prepoll,
    .poll ⟨none, fun _ => true, fun _ => none, some [(5, POLLIN)]⟩]

theorem wakesLive_pollFive : ∃ o,
    run step pollFive (boot (Kern.smallBoot true false) (.epoll false)) = some o ∧
      (o.kern.stage = .fresh ∧ o.kern.fdTable.freshFds = [5]) ∧ o.WakesLive := by
  obtain ⟨o, ho, hfresh⟩ := (Option.any_eq_true _ _).mp (by decide +kernel :
    (run step pollFive (boot (Kern.smallBoot true false) (.epoll false))).any
      (fun o => decide (o.kern.stage = .fresh ∧ o.kern.fdTable.freshFds = [5])) = true)
  exact ⟨o, ho, of_decide_eq_true hfresh, wakesLive_of_run (meets_of_driver (fun _ h => by cases h) _) ho⟩

/-- The second process is woken by descriptor 5 and ends without closing it, and
`kqueue(2)` reports the descriptor again. -/
def reportDead : List OsAct :=
  let five : Answer := ⟨none, fun _ => true, fun _ => none, some [(5, POLLIN)]⟩
  [.kern .dequeueFresh, .kern .dequeueRun, .kern (.dispatch Heap.cleared (some (Kern.readingFrom 7))),
    .kern (.accept (Kern.sharedAccept 5)), .kern (.compute (Kern.readingFrom 7)), .kern (.leave 0),
    .kern .dequeueRun, .kern (.dispatch Heap.cleared (some (Kern.readingFrom 5))),
    .kern (.compute (Kern.readingFrom 5)), .kern (.leave 0), .kern .dequeueRun, .kern .prepoll, .poll five,
    .kern .dequeueFresh, .kern .dequeueRun, .kern (.dispatch Heap.cleared (some Local.init)),
    .kern (.compute Local.init), .kern (.leave 0), .kern .dequeueRun, .kern .prepoll, .poll five]

theorem dead_woken :
    ¬∀ (b : Boot) (driver : Driver) (as : List OsAct) (o : OsKern),
      run step as (boot b driver) = some o → o.WakesLive := fun h => by
  obtain ⟨o, ho, hdead⟩ := (Option.any_eq_true _ _).mp (by decide +kernel :
    (run step reportDead (boot (Kern.smallBoot true false) (.kqueue false))).any
      (fun o => decide (o.kern.stage = .fresh ∧ 5 ∈ o.kern.fdTable.freshFds ∧
        (o.kern.procs (o.kern.fdTable.tbl.fds 5).procId).localPtr.isNone = true)) = true)
  obtain ⟨hstage, hfresh, hnone⟩ := of_decide_eq_true hdead
  have hlive := (h _ _ _ o ho hstage 5 hfresh).2
  rw [Kern.Live, Option.isNone_iff_eq_none.mp hnone] at hlive
  cases hlive

end OsKern

end Vk

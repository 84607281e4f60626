/-
# `Mnvkd.KernSound` — the invariant of the kernel

In every state of the kernel that a run reaches, the slots of the descriptor table
and the lists of the processes agree, only processes with memory are in a queue or
have a slot, and the queues have no more than the flags say (`sound_step`).  A
slot is fresh only between the poller and the first loop of `vk_kern_postpoll`, so
no event of a process that is gone is left when another takes its number.
-/
import Mnvkd.KernQueues
import Mnvkd.Lib.Run

namespace Vk

open Lib

namespace Slots

/-- The slots agree with the lists of the processes, only a process with memory
has slots, and a fresh slot is some process's. -/
structure Owned (s : Slots) : Prop where
  attached : Attached s.table.tbl s.allocatedFds
  live : ∀ p, s.allocatedFds p ≠ [] → s.live p = true
  fresh : ∀ i ∈ s.table.freshFds, (s.table.tbl.fds i).allocated = true

variable {s : Slots} {p : Nat}

/-- The process a fresh slot is for has memory. -/
theorem Owned.live_of_fresh (h : s.Owned) {i : Nat} (hi : i ∈ s.table.freshFds) :
    s.live (s.table.tbl.fds i).procId = true :=
  h.live _ (List.ne_nil_of_mem (h.attached.allocated i (h.fresh i hi)))

/-- `vk_proc_init`. -/
def initProc (s : Slots) (p : Nat) : Slots := { s with live := Function.update s.live p true }

theorem Owned.initProc (h : s.Owned) : (s.initProc p).Owned where
  attached := h.attached
  live q hq := by
    show Function.update s.live p true q = true
    rw [Function.update_apply]
    split
    · rfl
    · exact h.live q hq
  fresh := h.fresh

end Slots

namespace Kern

/-! ## The table of a process's prepoll and of its end -/

section Slots
variable {k : Kern} {p : Nat}

theorem setPolled_slots (st : Polled) :
    (k.setPolled p st).slots = { k.slots with
      table := { k.fdTable with tbl := st.tbl }
      allocatedFds := Function.update k.slots.allocatedFds p st.proc.allocatedFds } := by
  rw [setPolled, slots_updProc]
  simp only [slots, Function.update_eq_self_iff.mpr]

theorem attached_polled (h : k.slots.Owned) (pl : ProcLocal) :
    (k.polled p pl).Attached k.slots.allocatedFds := by
  show Attached k.fdTable.tbl (Function.update k.slots.allocatedFds p (k.slots.allocatedFds p))
  rw [Function.update_eq_self]
  exact h.attached

/-- A process's slots and its list are changed together. -/
theorem owned_setPolled {st : Polled} (h : k.slots.Owned) (hidle : k.fdTable.freshFds = [])
    (hst : st.Attached k.slots.allocatedFds) (hid : st.proc.procId = p)
    (hlive : k.Live p ∨ st.proc.allocatedFds = []) : (k.setPolled p st).slots.Owned := by
  rw [setPolled_slots]
  refine ⟨hid ▸ hst, fun q hq => ?_, fun i hi => ?_⟩
  · dsimp only at hq
    rw [Function.update_apply] at hq
    split at hq
    · subst q
      exact hlive.resolve_right hq
    · exact h.live q hq
  · have hi : i ∈ k.fdTable.freshFds := hi
    rw [hidle] at hi
    cases hi

theorem owned_prepollProc (h : k.slots.Owned) (hidle : k.fdTable.freshFds = []) :
    (k.prepollProc p).slots.Owned := by
  unfold prepollProc
  cases hl : (k.procs p).localPtr with
  | none => exact h
  | some l =>
      obtain ⟨hatt, hid⟩ := Polled.attached_prepoll (attached_polled (p := p) h l.pl)
      exact owned_setPolled (k := k.touch p) h hidle hatt hid (Or.inl (by
        show (k.procs p).localPtr.isSome = true
        rw [hl]
        rfl))

theorem freeProc_slots :
    (k.freeProc p).slots = { k.slots with
      table := { k.fdTable with tbl := (k.polled p ProcLocal.init).prepollZombie.tbl }
      allocatedFds := Function.update k.slots.allocatedFds p []
      live := Function.update k.slots.live p false } := by
  have hset := setPolled_slots (k := k) (p := p) (k.polled p ProcLocal.init).prepollZombie
  unfold freeProc
  generalize k.setPolled p _ = k₁ at hset ⊢
  have hpool : ∀ k₂ : Kern, k₂.slots = k₁.slots →
      ({ k₂ with freeProcs := p :: k₂.freeProcs }.updProc p fun _ => KernProc.clear).slots =
        { k.slots with
          table := { k.fdTable with tbl := (k.polled p ProcLocal.init).prepollZombie.tbl }
          allocatedFds := Function.update k.slots.allocatedFds p []
          live := Function.update k.slots.live p false } := by
    intro k₂ hk₂
    rw [slots_updProc]
    show { k₂.slots with
      allocatedFds := Function.update k₂.slots.allocatedFds p []
      live := Function.update k₂.slots.live p false } = _
    rw [hk₂, hset]
    dsimp only
    rw [Function.update_idem]
  dsimp only
  cases (k₁.procs p).pool with
  | none => exact hpool _ rfl
  | some e => exact hpool _ (heapExit_slots _ p)

/-- Of a process that is freed nothing is left in the table. -/
theorem owned_freeProc (h : k.slots.Owned) (hidle : k.fdTable.freshFds = []) :
    (k.freeProc p).slots.Owned := by
  obtain ⟨hatt, hid, hnil⟩ := Polled.attached_prepollZombie (attached_polled (p := p) h ProcLocal.init)
  have hset := owned_setPolled h hidle hatt hid (Or.inr hnil)
  rw [setPolled_slots, hnil] at hset
  rw [freeProc_slots]
  refine ⟨hset.attached, fun q hq => ?_, fun i hi => hset.fresh i hi⟩
  dsimp only at hq ⊢
  rw [Function.update_apply] at hq ⊢
  split
  · rename_i hqp
    rw [if_pos hqp] at hq
    exact absurd rfl hq
  · rename_i hqp
    rw [if_neg hqp] at hq
    exact h.live q hq

end Slots

/-! ## The listener -/

section Accept
variable {exact : Prop} {k : Kern} {p : Nat} (a : Accept)

/-- A new process gets its memory, or nothing that is scheduled has changed. -/
def Inits (p : Nat) (k : Kern) (alloc : Kern × Bool) : Prop :=
  alloc.2 = true ∧ alloc.1.sched = k.sched.initProc p ∧ alloc.1.slots = k.slots.initProc p ∨
    alloc.2 = false ∧ alloc.1.sched = k.sched ∧ alloc.1.slots = k.slots

theorem inits_initPrivate (mapped : Option Nat) : Inits p k (k.initPrivate p mapped) := by
  unfold initPrivate
  cases mapped with
  | none => exact Or.inr ⟨rfl, rfl, rfl⟩
  | some addr =>
      dsimp only
      split
      · refine Or.inl ⟨rfl, ?_, ?_⟩
        · rw [touch_sched, sched_updProc]
          rfl
        · rw [touch_slots, slots_updProc]
          simp only [slots, Slots.initProc, Function.update_eq_self_iff.mpr, Option.isSome_some]
      · exact Or.inr ⟨rfl, rfl, rfl⟩

theorem inits_allocFromPool (hdead : (k.procs p).localPtr = none) (fits : Bool) :
    Inits p k (k.allocFromPool p fits) := by
  cases hfree : k.freeEntries with
  | nil =>
      rw [allocFromPool, hfree]
      exact Or.inr ⟨rfl, rfl, rfl⟩
  | cons e rest =>
      have hsched : (k.takeEntry p e rest).sched = k.sched := takeEntry_sched
      have hslots : (k.takeEntry p e rest).slots = k.slots := takeEntry_slots
      have hdead₁ : ((k.takeEntry p e rest).procs p).localPtr = none := takeEntry_localPtr.trans hdead
      rw [allocFromPool_eq hfree]
      generalize k.takeEntry p e rest = k₁ at hsched hslots hdead₁
      split
      · refine Or.inl ⟨rfl, ?_, ?_⟩
        · rw [touch_sched, sched_updProc, hsched]
          rfl
        · rw [touch_slots, slots_updProc, hslots]
          simp only [Slots.initProc, Option.isSome_some]
          congr 1
          rw [← hslots]
          exact Function.update_eq_self _ _
      · refine Or.inr ⟨rfl, ?_, ?_⟩
        · exact (sched_updProc_of (k := { k₁ with freeEntries := e :: rest }) rfl rfl
            (by rw [show (k₁.procs p).localPtr = none from hdead₁])).trans hsched
        · exact (slots_updProc_of (k := { k₁ with freeEntries := e :: rest }) rfl
            (by rw [show (k₁.procs p).localPtr = none from hdead₁])).trans hslots

theorem inits_allocHeap (hdead : (k.procs p).localPtr = none) : Inits p k (k.allocHeap p a) := by
  unfold allocHeap
  split
  · obtain ⟨hok, hsched, hslots⟩ | ⟨hok, hsched, hslots⟩ := inits_allocFromPool hdead a.fits
    · dsimp only
      rw [if_pos hok]
      exact Or.inl ⟨hok, hsched, hslots⟩
    · dsimp only
      rw [if_neg (by rw [hok]; exact Bool.false_ne_true), Inits, ← hsched, ← hslots]
      exact inits_initPrivate a.mapped
  · exact inits_initPrivate a.mapped

variable {a}

/-- The rest of the setup queues the process, which has its memory by now. -/
theorem setupProc_spec (hlive : k.Live p) :
    (k.sched.Queues exact → (k.setupProc p a).sched.Queues exact) ∧ (k.setupProc p a).slots = k.slots := by
  have hsched := openProc_sched k p a
  have hslots := openProc_slots k p a
  have hlive₁ := openProc_live a hlive
  have hlocal : ∀ l, ((k.openProc p a).setLocal p l).sched = k.sched ∧
      ((k.openProc p a).setLocal p l).slots = k.slots :=
    fun l => ⟨(setLocal_sched hlive₁).trans hsched, (setLocal_slots hlive₁).trans hslots⟩
  rw [setupProc_eq]
  cases a.setup with
  | noThread => exact ⟨fun h => hsched.symm ▸ h, hslots⟩
  | noArg => exact ⟨fun h => (hlocal _).1.symm ▸ h, (hlocal _).2⟩
  | played =>
      refine ⟨fun h => ?_, ?_⟩
      · rw [heapExit_sched]
        refine queues_flush ((hlocal _).1.symm ▸ h) ?_
        rw [Live, setLocal, updProc_procs_self]
        rfl
      · rw [heapExit_slots, flushProcQueues_slots]
        exact (hlocal _).2

theorem accept_spec (hqueues : k.sched.Queues exact) (hslots : k.slots.Owned) :
    (k.accept a).sched.Queues exact ∧ (k.accept a).slots.Owned ∧
      (k.accept a).slots.table = k.slots.table ∧ ∀ q, k.Live q → (k.accept a).Live q := by
  unfold accept
  cases hfree : k.freeProcs with
  | nil => exact ⟨hqueues, hslots, rfl, fun _ => id⟩
  | cons p rest =>
      obtain ⟨hq, hdead, hnot⟩ := hqueues.take_free (p := p) hfree
      have hnone : (({ k with freeProcs := rest } : Kern).procs p).localPtr = none :=
        Option.isSome_eq_false_iff.mp hdead |> Option.isNone_iff_eq_none.mp
      dsimp only
      obtain ⟨hok, hs, ht⟩ | ⟨hok, hs, ht⟩ := inits_allocHeap a hnone
      · rw [if_pos hok]
        have hlive : ∀ q, k.Live q ∨ q = p → (({ k with freeProcs := rest } : Kern).allocHeap p a).1.Live q := by
          intro q hq
          show (({ k with freeProcs := rest } : Kern).allocHeap p a).1.sched.live q = true
          rw [hs]
          show Function.update k.sched.live p true q = true
          rw [Function.update_apply]
          split
          · rfl
          · rename_i hqp
            exact hq.resolve_right hqp
        obtain ⟨hsetup, hsetup'⟩ := setupProc_spec (a := a) (hlive p (Or.inr rfl))
        refine ⟨hsetup ?_, ?_, ?_, fun q hlq => ?_⟩
        · rw [hs]
          exact hq.initProc hdead hnot
        · rw [hsetup', ht]
          exact hslots.initProc
        · rw [hsetup', ht]
          rfl
        · show (Kern.slots _).live q = true
          rw [hsetup']
          exact hlive q (Or.inl hlq)
      · rw [if_neg (by rw [hok]; exact Bool.false_ne_true)]
        refine ⟨hs ▸ hq, ht ▸ hslots, ht ▸ rfl, fun q hlq => ?_⟩
        show (Kern.sched _).live q = true
        rw [hs]
        exact hlq

end Accept

theorem prepollProc_freshFds (k : Kern) (p : Nat) :
    (k.prepollProc p).fdTable.freshFds = k.fdTable.freshFds := by
  unfold prepollProc
  cases (k.procs p).localPtr with
  | none => rfl
  | some l => rfl

/-! ## The invariant -/

/-- The process that a stage is about. -/
def current : KernStage → Option Nat
  | .taken p | .running p => some p
  | .fresh | .dispatch | .prepoll | .poll | .stop => none

/-- The invariant.  `exact`: each flagged process is in the run queue. -/
structure Sound (exact : Prop) (k : Kern) : Prop where
  slots : k.slots.Owned
  queues : k.sched.Queues exact
  idle : k.stage ≠ .fresh → k.fdTable.freshFds = []
  current : ∀ p, current k.stage = some p → k.Live p

/-- `vk_kern_prepoll` wakes only processes that are in the run queue already. -/
def WakesQueued (a : KernAct) (k : Kern) : Prop :=
  a = .prepoll → k.shutdownRequested = true → ∀ p ∈ k.blockedProcs, p ∈ k.runProcs

section Sound
variable {exact : Prop} {k : Kern} {p : Nat}

theorem sound_afterExecute (hslots : k.slots.Owned) (hqueues : k.sched.Queues exact)
    (hidle : k.fdTable.freshFds = []) (hlive : k.Live p) : (k.afterExecute p).Sound exact := by
  obtain ⟨k₁, hk₁, hslots₁, hqueues₁, hidle₁, hlive₁⟩ : ∃ k₁ : Kern, k₁ = k.flushProcQueues p ∧
      k₁.slots.Owned ∧ k₁.sched.Queues exact ∧ k₁.fdTable.freshFds = [] ∧ k₁.Live p := by
    have hflush := flushProcQueues_slots k p
    refine ⟨_, rfl, hflush ▸ hslots, queues_flush hqueues hlive, ?_, ?_⟩
    · show (k.flushProcQueues p).slots.table.freshFds = []
      rw [hflush]
      exact hidle
    · show (k.flushProcQueues p).slots.live p = true
      rw [hflush]
      exact hlive
  unfold afterExecute
  dsimp only
  rw [← hk₁]
  split
  · rename_i hzombie
    refine ⟨owned_freeProc hslots₁ hidle₁, queues_freeProc hqueues₁ hlive₁ hzombie, fun _ => ?_,
      fun q hq => nomatch hq⟩
    show (k₁.freeProc p).slots.table.freshFds = []
    rw [freeProc_slots]
    exact hidle₁
  · split
    · refine ⟨?_, ?_, fun _ => ?_, fun q hq => nomatch hq⟩
      · rw [setStage_slots, heapExit_slots]
        exact hslots₁
      · rw [setStage_sched, heapExit_sched]
        exact hqueues₁
      · show (k₁.heapExit p).slots.table.freshFds = []
        rw [heapExit_slots]
        exact hidle₁
    · exact ⟨hslots₁, hqueues₁, fun _ => hidle₁, fun q hq => nomatch hq⟩

theorem sound_execute (hslots : k.slots.Owned) (hqueues : k.sched.Queues exact)
    (hidle : k.fdTable.freshFds = []) (hlive : k.Live p) (postpoll : Option Local) :
    (k.execute p postpoll).Sound exact := by
  unfold execute
  obtain ⟨l, hl⟩ := Option.isSome_iff_exists.mp hlive
  rw [hl]
  dsimp only
  generalize (if l.pl.runningCr.isSome then some { l with pl := l.pl.raiseSignal.1 } else postpoll) = l'
  have htouch : (k.touch p).Live p := hlive
  cases l' with
  | none => exact sound_afterExecute (k := k.touch p) hslots hqueues hidle hlive
  | some l =>
      obtain ⟨k₁, hk₁, hs, ht⟩ : ∃ k₁ : Kern, k₁ = ((k.touch p).setLocal p l).heapEnter p ∧
          k₁.sched = k.sched ∧ k₁.slots = k.slots :=
        ⟨_, rfl, (heapEnter_sched _ p).trans (setLocal_sched htouch),
          (heapEnter_slots _ p).trans (setLocal_slots htouch)⟩
      have hs' : (if (k₁.procs p).privileged then k₁ else k₁.kernExit).sched = k.sched := by
        split <;> exact hs
      have ht' : (if (k₁.procs p).privileged then k₁ else k₁.kernExit).slots = k.slots := by
        split <;> exact ht
      dsimp only
      rw [← hk₁]
      refine ⟨?_, ?_, fun _ => ?_, fun q hq => ?_⟩
      · rw [setStage_slots, ht']
        exact hslots
      · rw [setStage_sched, hs']
        exact hqueues
      · show (Kern.slots _).table.freshFds = []
        rw [ht']
        exact hidle
      · obtain rfl := Option.some.inj hq
        show (Kern.slots _).live p = true
        rw [setStage_slots, ht']
        exact hlive

/-- The first loop of `vk_kern_postpoll` enqueues processes that have memory. -/
theorem queues_dequeueFresh (h : k.Sound exact) : k.dequeueFresh.sched.Queues exact := by
  have hqueues : k.dequeueFresh.sched.Queues exact ∧
      ∀ i ∈ [], k.dequeueFresh.slots.live (k.dequeueFresh.slots.table.tbl.fds i).procId = true := by
    refine dequeueFresh_invariant k (I := fun fresh k => k.sched.Queues exact ∧
      ∀ i ∈ fresh, k.slots.live (k.slots.table.tbl.fds i).procId = true) ?_
      ⟨h.queues, fun i hi => h.slots.live_of_fresh hi⟩
    rintro i fresh k ⟨h, hlive⟩
    refine ⟨?_, fun j hj => ?_⟩
    · rw [enqueueRun_sched]
      exact h.enqueueRun (hlive i List.mem_cons_self)
    · rw [enqueueRun_slots]
      exact hlive j (List.mem_cons_of_mem _ hj)
  exact hqueues.1

theorem dequeueFresh_slots (h : k.Sound exact) :
    k.dequeueFresh.slots.Owned ∧ k.dequeueFresh.fdTable.freshFds = [] ∧
      k.dequeueFresh.stage = .dispatch := by
  have hslots := dequeueFresh_unchanged k slots enqueueRun_slots
  refine ⟨?_, ?_, dequeueFresh_stage k⟩
  · rw [hslots]
    exact ⟨h.slots.attached, h.slots.live, fun i hi => nomatch hi⟩
  · show k.dequeueFresh.slots.table.freshFds = []
    rw [hslots]
    rfl

theorem dequeueRun_slots (k : Kern) : k.dequeueRun.slots = k.slots := by
  unfold dequeueRun
  cases k.runProcs with
  | nil =>
      dsimp only
      split
      · exact dump_slots k
      · rfl
  | cons p rest => exact slots_updProc_of (k := { k with runProcs := rest, stage := .taken p }) rfl rfl

/-- A process that is taken off the run queue has memory. -/
theorem current_dequeueRun (h : k.sched.Queues exact) :
    k.dequeueRun.stage ≠ .fresh ∧ ∀ p, current k.dequeueRun.stage = some p → k.Live p := by
  unfold dequeueRun
  cases hrun : k.runProcs with
  | nil =>
      dsimp only
      split
      · exact ⟨nofun, nofun⟩
      · exact ⟨nofun, nofun⟩
  | cons p rest =>
      refine ⟨nofun, fun q hq => ?_⟩
      obtain rfl := Option.some.inj hq
      exact h.runLive p (by
        show p ∈ k.runProcs
        rw [hrun]
        exact List.mem_cons_self)

theorem prepoll_stage (k : Kern) : k.prepoll.stage = .poll := by
  have hwake : ∀ (k : Kern) (p : Nat), (k.wakeProc p).stage = k.stage := by
    intro k p
    unfold wakeProc
    cases (k.procs p).localPtr with
    | none => rfl
    | some l =>
        dsimp only
        split
        · exact flushProcQueues_stage _ p
        · exact flushProcQueues_stage _ p
  exact prepoll_unchanged k stage hwake

/-- Every step keeps the invariant. -/
theorem sound_step {k' : Kern} {a : KernAct} (h : k.Sound exact) (hwake : exact → WakesQueued a k)
    (hst : step a k = some k') : k'.Sound exact := by
  have hidle : ∀ p, k.stage = .taken p ∨ k.stage = .running p →
      k.fdTable.freshFds = [] ∧ k.Live p := by
    rintro p (hst | hst)
    · exact ⟨h.idle (by rw [hst]; nofun), h.current p (by rw [hst]; rfl)⟩
    · exact ⟨h.idle (by rw [hst]; nofun), h.current p (by rw [hst]; rfl)⟩
  cases steps_of_step hst with
  | dequeueFresh hstage =>
      obtain ⟨hslots, hfresh, hstage'⟩ := dequeueFresh_slots h
      exact ⟨hslots, queues_dequeueFresh h, fun _ => hfresh, fun p hp => by rw [hstage'] at hp; cases hp⟩
  | dequeueRun hstage =>
      have hslots := dequeueRun_slots k
      obtain ⟨hfresh, hcur⟩ := current_dequeueRun h.queues
      refine ⟨hslots ▸ h.slots, queues_dequeueRun h.queues, fun _ => ?_, fun p hp => ?_⟩
      · show k.dequeueRun.slots.table.freshFds = []
        rw [hslots]
        exact h.idle (by rw [hstage]; nofun)
      · show k.dequeueRun.slots.live p = true
        rw [hslots]
        exact hcur p hp
  | signal signo hstage =>
      cases signo with
      | term => exact ⟨h.slots, h.queues, h.idle, h.current⟩
      | usr1 =>
          have hslots := dump_slots k
          refine ⟨hslots ▸ h.slots, dump_sched k ▸ h.queues, fun hne => ?_, fun p hp => ?_⟩
          · show k.dump.slots.table.freshFds = []
            rw [hslots]
            exact h.idle (by
              rw [← dump_stage k]
              exact hne)
          · show k.dump.slots.live p = true
            rw [hslots]
            refine h.current p ?_
            rw [← dump_stage k]
            exact hp
  | dispatch p kernHd postpoll hstage =>
      obtain ⟨hfresh, hlive⟩ := hidle p (Or.inl hstage)
      have hs := heapEnter_sched k p
      have ht := heapEnter_slots k p
      refine sound_execute (k := { k.heapEnter p with
        kernHd := kernHd, dispatched := p :: (k.heapEnter p).dispatched }) ?_ ?_ ?_ ?_ postpoll
      · exact (show (k.heapEnter p).slots.Owned by rw [ht]; exact h.slots)
      · exact (show (k.heapEnter p).sched.Queues exact by rw [hs]; exact h.queues)
      · exact (show (k.heapEnter p).slots.table.freshFds = [] by rw [ht]; exact hfresh)
      · exact (show (k.heapEnter p).slots.live p = true by rw [ht]; exact hlive)
  | compute p l hstage =>
      obtain ⟨hfresh, hlive⟩ := hidle p (Or.inr hstage)
      refine ⟨setLocal_slots hlive ▸ h.slots, setLocal_sched hlive ▸ h.queues, fun _ => hfresh, ?_⟩
      intro q hq
      show (k.setLocal p l).sched.live q = true
      rw [setLocal_sched hlive]
      exact h.current q hq
  | accept p a hstage hkern =>
      obtain ⟨hfresh, hlive⟩ := hidle p (Or.inr hstage)
      obtain ⟨hq, hs, ht, hl⟩ := accept_spec (a := a) h.queues h.slots
      have hstage' : (k.accept a).stage = k.stage := accept_stage k a
      refine ⟨hs, hq, fun _ => ?_, fun q hq => hl q (h.current q (hstage' ▸ hq))⟩
      show (k.accept a).slots.table.freshFds = []
      rw [ht]
      exact hfresh
  | fault p postpoll hstage =>
      obtain ⟨hfresh, hlive⟩ := hidle p (Or.inr hstage)
      have hs : (k.kernEnter.heapEnter p).sched = k.sched := heapEnter_sched _ p
      have ht : (k.kernEnter.heapEnter p).slots = k.slots := heapEnter_slots _ p
      refine sound_execute (k := (k.kernEnter.heapEnter p).touch p) ?_ ?_ ?_ ?_ postpoll
      · exact (show (k.kernEnter.heapEnter p).slots.Owned by rw [ht]; exact h.slots)
      · exact (show (k.kernEnter.heapEnter p).sched.Queues exact by rw [hs]; exact h.queues)
      · exact (show (k.kernEnter.heapEnter p).slots.table.freshFds = [] by rw [ht]; exact hfresh)
      · exact (show (k.kernEnter.heapEnter p).slots.live p = true by rw [ht]; exact hlive)
  | leave p rc hstage =>
      obtain ⟨hfresh, hlive⟩ := hidle p (Or.inr hstage)
      obtain ⟨k₁, hk₁, hs, ht⟩ : ∃ k₁ : Kern,
          k₁ = (if (k.procs p).privileged then k else k.kernEnter) ∧ k₁.sched = k.sched ∧
          k₁.slots = k.slots := by
        refine ⟨_, rfl, ?_, ?_⟩ <;> split <;> rfl
      have hlive₁ : k₁.Live p := by
        show k₁.slots.live p = true
        rw [ht]
        exact hlive
      have hfresh₁ : k₁.fdTable.freshFds = [] := by
        show k₁.slots.table.freshFds = []
        rw [ht]
        exact hfresh
      unfold leave
      rw [← hk₁]
      dsimp only
      split
      · exact sound_afterExecute (ht ▸ h.slots) (hs ▸ h.queues) hfresh₁ hlive₁
      · refine sound_afterExecute (owned_prepollProc (ht ▸ h.slots) hfresh₁) ?_
          (prepollProc_freshFds k₁ p ▸ hfresh₁) ?_
        · rw [prepollProc_sched, hs]
          exact h.queues
        · show (k₁.prepollProc p).sched.live p = true
          rw [prepollProc_sched]
          exact hlive₁
  | prepoll hstage =>
      have hslots := prepoll_slots k
      refine ⟨hslots ▸ h.slots, queues_prepoll h.queues fun he => hwake he rfl, fun _ => ?_,
        fun p hp => ?_⟩
      · show k.prepoll.slots.table.freshFds = []
        rw [hslots]
        exact h.idle (by rw [hstage]; nofun)
      · rw [prepoll_stage] at hp
        cases hp
  | poll revents hstage =>
      obtain ⟨hatt, hfresh⟩ := PollTable.fresh_poll k.pending revents h.slots.attached
        (h.idle (by rw [hstage]; nofun))
      exact ⟨⟨hatt, h.slots.live, hfresh⟩, h.queues, fun hne => absurd rfl hne, fun p hp => nomatch hp⟩
  | pollError hstage =>
      exact ⟨h.slots, h.queues, fun _ => h.idle (by rw [hstage]; nofun), fun p hp => nomatch hp⟩

/-! ## The start -/

/-- The first process, before it is flushed. -/
theorem bootProc_spec (b : Boot) :
    (bootProc b).Live 0 ∧ (bootProc b).slots.allocatedFds = (fun _ => []) ∧
      (bootProc b).sched = { (alloc b).sched with
        freeProcs := (List.range b.procCount).tail
        live := Function.update (fun _ => false) 0 true } := by
  refine ⟨?_, ?_, ?_⟩
  · rw [Live, bootProc, setLocal, updProc_procs_self]
    rfl
  · funext p
    simp only [bootProc, slots, setLocal, heapEnter, heapExit, touch, updProc_procs]
    split <;> rfl
  · simp only [bootProc, sched, setLocal, heapEnter, heapExit, touch]
    refine Sched.mk.injEq .. |>.mpr ⟨rfl, rfl, rfl, ?_, ?_, ?_⟩
    · funext p
      simp only [updProc_procs]
      split <;> rfl
    · funext p
      simp only [updProc_procs]
      split <;> rfl
    · funext p
      simp only [updProc_procs, Function.update_apply]
      split <;> rfl

theorem sound_boot (b : Boot) : (boot b).Sound exact := by
  obtain ⟨hlive, hfds, hsched⟩ := bootProc_spec b
  have hslots : (bootProc b).slots.Owned := by
    refine ⟨?_, fun p hp => ?_, fun i hi => nomatch hi⟩
    · rw [hfds]
      exact ⟨nofun, nofun, fun _ => List.nodup_nil, nofun, nofun, nofun, List.nodup_nil,
        fun i hi => by rcases hi with hi | hi <;> cases hi⟩
    · rw [hfds] at hp
      exact absurd rfl hp
  have hqueues : (bootProc b).sched.Queues exact := by
    have hrange : List.range b.procCount = 0 :: (List.range b.procCount).tail := by
      obtain ⟨n, hn⟩ := Nat.exists_eq_succ_of_ne_zero (Nat.ne_of_gt b.procCount_pos)
      rw [hn, List.range_succ_eq_map]
      rfl
    have hnodup := List.nodup_cons.mp (hrange ▸ List.nodup_range)
    rw [hsched]
    refine ⟨fun _ => QueueFits.of_eq rfl, fun _ => QueueFits.of_eq rfl, nofun, nofun, fun p hp => ?_,
      hnodup.2⟩
    have hne : p ≠ 0 := by
      rintro rfl
      exact hnodup.1 hp
    show Function.update (fun _ => false) 0 true p = false
    rw [Function.update_of_ne hne]
  have hflush := flushProcQueues_slots (bootProc b) 0
  refine ⟨?_, queues_flush hqueues hlive, fun _ => ?_, fun p hp => ?_⟩
  · rw [boot, hflush]
    exact hslots
  · show ((bootProc b).flushProcQueues 0).slots.table.freshFds = []
    rw [hflush]
    rfl
  · rw [boot, flushProcQueues_stage] at hp
    cases hp

/-- The invariant holds in every state that a run of the kernel reaches. -/
theorem sound_of_run {b : Boot} {as : List KernAct} {k : Kern} (hrun : run step as (boot b) = some k) :
    k.Sound False :=
  run_induction (fun _ _ _ h hst => sound_step h False.elim hst) (sound_boot b) hrun

end Sound

end Kern

end Vk

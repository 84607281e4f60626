/-
# `Mnvkd.KernGuard` — which heaps are entered when

What the functions of the kernel do to the heaps, and the invariant that the
stages have (`Guarded`): while a process runs its heap is entered, and the kernel's
is exactly if the process is privileged; while control is in the kernel its heap is
accessible.  The signal jumper enters the kernel's heap by the descriptor in the
`struct vk_kern_mainline_udata`, which `vk_proc_execute` fills in only for a process
that is not privileged: a fault in one that is has to find something harmless there
(`FaultHarmless`).
-/
import Mnvkd.KernHeaps

namespace Vk

open Lib

namespace Heaps

/-- What `vk_proc_execute` does to the heaps before it calls the executor. -/
def execute (h : Heaps) (p : Nat) : Heaps := if h.privileged p then h else h.kernExit

/-- What it does to them afterwards. -/
def leave (h : Heaps) (p : Nat) : Heaps := if h.privileged p then h else h.kernEnter

/-- The heaps when a zombie is freed. -/
def free (h : Heaps) (p : Nat) : Heaps :=
  match h.pool p with
  | none => { h with pages := h.pages.munmap (h.heap p).addr }.clear p
  | some e =>
      { h with
        pages := ((h.heap p).exit h.pages).2
        freeEntries := e :: h.freeEntries }.clear p

variable {h : Heaps} {p : Nat}

theorem Entered.free (he : h.Entered p) : (h.free p).Idle := by
  have hne := (he.sound.notKern p he.live).symm
  unfold Heaps.free
  cases hpool : h.pool p with
  | none =>
      have hother : ∀ addr, addr ≠ (h.heap p).addr →
          h.pages.munmap (h.heap p).addr addr = h.pages addr :=
        fun addr ha => (h.pages.munmap_apply _ _).trans (if_neg ha)
      exact ⟨he.sound.clear he.live hother (Or.inl rfl), (hother _ hne).trans he.kern⟩
  | some e =>
      have hother : ∀ addr, addr ≠ (h.heap p).addr →
          ((h.heap p).exit h.pages).2 addr = h.pages addr :=
        fun addr ha => Heap.setProt_snd_of_ne _ _ _ ha
      refine ⟨he.sound.clear he.live hother (Or.inr ⟨e, hpool, rfl, ?_⟩), (hother _ hne).trans he.kern⟩
      refine mt (Heap.setProt_snd_eq_none _ _ _ _).mp ?_
      rw [he.sound.told p he.live]
      nofun

/-- What is said of the other processes when one is freed. -/
theorem free_of_ne {q : Nat} (hq : q ≠ p) :
    (h.free p).heap q = h.heap q ∧ (h.free p).isolated q = h.isolated q ∧
      (h.free p).live q = h.live q := by
  unfold free
  cases h.pool p with
  | none =>
      exact ⟨Function.update_of_ne hq _ _, Function.update_of_ne hq _ _, Function.update_of_ne hq _ _⟩
  | some e =>
      exact ⟨Function.update_of_ne hq _ _, Function.update_of_ne hq _ _, Function.update_of_ne hq _ _⟩

theorem free_live : (h.free p).live p = false := by
  unfold free
  cases h.pool p with
  | none => exact Function.update_self _ _ _
  | some e => exact Function.update_self _ _ _

/-- A step gives process `p`, which has no memory yet, a heap, or tries to: the other
processes and the kernel have theirs as before. -/
structure Adds (p : Nat) (h h' : Heaps) : Prop where
  sound : h'.Sound
  hd : h'.hd = h.hd
  kernHd : h'.kernHd = h.kernHd
  kern : h'.pages h.hd.addr = h.pages h.hd.addr
  heap : ∀ q, q ≠ p → h'.heap q = h.heap q
  privileged : ∀ q, q ≠ p → h'.privileged q = h.privileged q
  isolated : ∀ q, q ≠ p → h'.isolated q = h.isolated q
  live : ∀ q, q ≠ p → h'.live q = h.live q

theorem Adds.refl (hs : h.Sound) : Adds p h h :=
  ⟨hs, rfl, rfl, rfl, fun _ _ => rfl, fun _ _ => rfl, fun _ _ => rfl, fun _ _ => rfl⟩

theorem Adds.trans {h' h'' : Heaps} (ha : Adds p h h') (hb : Adds p h' h'') : Adds p h h'' where
  sound := hb.sound
  hd := hb.hd.trans ha.hd
  kernHd := hb.kernHd.trans ha.kernHd
  kern := (ha.hd ▸ hb.kern).trans ha.kern
  heap q hq := (hb.heap q hq).trans (ha.heap q hq)
  privileged q hq := (hb.privileged q hq).trans (ha.privileged q hq)
  isolated q hq := (hb.isolated q hq).trans (ha.isolated q hq)
  live q hq := (hb.live q hq).trans (ha.live q hq)

/-- A heap of the pool is entered through a copy of its descriptor. -/
theorem Sound.enter_entry (hs : h.Sound) (e : Nat) : (h.entryHeap e).enter h.pages =
    (Heap.map (h.entryHeap e).addr true, h.pages.mprotect (h.entryHeap e).addr true) := by
  rw [Heap.enter, hs.entry e]
  rfl

theorem Sound.mprotect_entry {e : Nat} (hs : h.Sound) (he : e ∈ h.freeEntries) :
    h.pages.mprotect (h.entryHeap e).addr true (h.entryHeap e).addr = some true := by
  obtain ⟨b, hb⟩ := Option.ne_none_iff_exists'.mp (hs.entryMapped e he)
  rw [Pages.mprotect_apply, if_pos rfl, hb]
  rfl

/-- The new process enters its heap, or leaves it. -/
theorem Sound.adds_setProt (hs : h.Sound) (hp : h.live p = true) (prot : Bool) :
    Adds p h (h.setProt p prot) :=
  ⟨hs.setProt hp prot, rfl, rfl, setProt_pages_of_ne (hs.notKern p hp).symm _,
    fun _ hq => setProt_heap_of_ne hq _, fun _ _ => rfl, fun _ _ => rfl, fun _ _ => rfl⟩

/-- The flags of a new process. -/
def setFlags (h : Heaps) (p : Nat) (privileged isolated : Bool) : Heaps :=
  { h with
    privileged := Function.update h.privileged p privileged
    isolated := Function.update h.isolated p isolated }

theorem Sound.adds_setFlags (hs : h.Sound) (hp : h.live p = true) (privileged isolated : Bool) :
    Adds p h (h.setFlags p privileged isolated) :=
  ⟨hs.setFlags hp privileged isolated, rfl, rfl, rfl, fun _ _ => rfl,
    fun _ hq => Function.update_of_ne hq _ _, fun _ hq => Function.update_of_ne hq _ _, fun _ _ => rfl⟩

/-- A running process goes on with what another step has added. -/
theorem Adds.running {q : Nat} {h' : Heaps} (ha : Adds q h h') (hr : h.Running p) (hq : p ≠ q) :
    h'.Running p where
  sound := ha.sound
  kern := by
    rw [ha.hd, ha.kern, ha.privileged p hq]
    exact hr.kern
  live := (ha.live p hq).trans hr.live
  prot := by
    rw [ha.heap p hq]
    exact hr.prot
  copy hpriv := by
    rw [ha.hd, ha.kernHd]
    exact hr.copy ((ha.privileged p hq).symm.trans hpriv)

end Heaps

namespace Kern

/-! ## The heaps of the kernel's functions -/

section Equations
variable (k : Kern) (p : Nat)

theorem heapEnter_heaps :
    (k.heapEnter p).heaps = k.heaps.setProt p (k.heaps.heap p).protInside := by
  rw [heapEnter, heaps_updProc]
  simp only [heaps, Heaps.setProt, Heap.enter, Function.update_eq_self_iff.mpr]

theorem heapExit_heaps :
    (k.heapExit p).heaps = k.heaps.setProt p (k.heaps.heap p).protOutside := by
  rw [heapExit, heaps_updProc]
  simp only [heaps, Heaps.setProt, Heap.exit, Function.update_eq_self_iff.mpr]

theorem kernEnter_heaps : k.kernEnter.heaps = k.heaps.kernEnter := rfl

theorem kernExit_heaps : k.kernExit.heaps = k.heaps.kernExit := rfl

theorem freeProc_heaps : (k.freeProc p).heaps = k.heaps.free p := by
  have hset := setPolled_heaps k p (k.polled p ProcLocal.init).prepollZombie
  unfold freeProc
  generalize k.setPolled p _ = k₁ at hset ⊢
  have hpool : (k₁.procs p).pool = k.heaps.pool p := congrArg (fun h => h.pool p) hset
  have hclear : ∀ k₂ : Kern,
      ({ k₂ with freeProcs := p :: k₂.freeProcs }.updProc p fun _ => KernProc.clear).heaps =
        k₂.heaps.clear p := fun k₂ => heaps_updProc { k₂ with freeProcs := p :: k₂.freeProcs } p _
  unfold Heaps.free
  dsimp only
  rw [hclear, hpool, ← hset]
  cases k₁.heaps.pool p with
  | none => rfl
  | some e =>
      dsimp only
      rw [heapExit_heaps]
      simp only [Heaps.setProt, Heaps.clear, Function.update_idem]
      rfl

variable {k p}

/-- A process that is dumped leaves no trace. -/
theorem dumpProc_heaps (h : k.heaps.Sound) : (k.dumpProc p).heaps = k.heaps := by
  unfold dumpProc
  split
  · rfl
  · cases hl : (k.procs p).localPtr with
    | none => rfl
    | some l =>
        have hlive : k.heaps.live p = true := by
          show (k.procs p).localPtr.isSome = true
          rw [hl]
          rfl
        obtain ⟨hinside, houtside⟩ := h.inside p hlive
        dsimp only
        split
        · exact touch_heaps k p
        · rename_i hentered
          have hprot : (k.heaps.heap p).prot = false := by
            have hne : (k.heaps.heap p).prot ≠ (k.heaps.heap p).protInside :=
              fun heq => hentered (beq_iff_eq.mpr heq)
            rw [hinside] at hne
            exact Bool.eq_false_iff.mpr hne
          rw [heapExit_heaps, touch_heaps, heapEnter_heaps]
          have hout : ((k.heaps.setProt p (k.heaps.heap p).protInside).heap p).protOutside =
              (k.heaps.heap p).prot := by
            dsimp only [Heaps.setProt]
            rw [Function.update_self, Heap.setProt_fst, hprot]
            exact houtside
          rw [hout]
          exact h.setProt_setProt hlive _

theorem dump_heaps (h : k.heaps.Sound) : k.dump.heaps = k.heaps := by
  unfold dump
  generalize List.range k.procCount = ps
  induction ps generalizing k with
  | nil => rfl
  | cons p ps ih =>
      have hp := dumpProc_heaps (p := p) h
      exact (ih (hp ▸ h)).trans hp

@[simp] theorem dequeueFresh_heaps : k.dequeueFresh.heaps = k.heaps :=
  dequeueFresh_unchanged k heaps enqueueRun_heaps

theorem dequeueRun_heaps (h : k.heaps.Sound) : k.dequeueRun.heaps = k.heaps := by
  unfold dequeueRun
  cases k.runProcs with
  | nil =>
      dsimp only
      split
      · exact dump_heaps h
      · rfl
  | cons p rest =>
      exact heaps_updProc_of (k := { k with runProcs := rest, stage := .taken p }) rfl rfl rfl rfl rfl

variable (k p)

theorem afterExecute_heaps :
    (k.afterExecute p).heaps =
      if ((k.flushProcQueues p).procs p).isZombie then k.heaps.free p
      else if k.heaps.isolated p then k.heaps.setProt p (k.heaps.heap p).protOutside
      else k.heaps := by
  have hflush := flushProcQueues_heaps k p
  have hisolated : ((k.flushProcQueues p).procs p).isolated = k.heaps.isolated p :=
    congrArg (fun h => h.isolated p) hflush
  unfold afterExecute
  dsimp only
  rw [hisolated, setStage_heaps]
  split
  · rw [freeProc_heaps, hflush]
  · split
    · rw [heapExit_heaps, hflush]
    · exact hflush

variable {k p}

theorem idle_afterExecute (h : k.heaps.Entered p) : (k.afterExecute p).heaps.Idle := by
  rw [afterExecute_heaps]
  split
  · exact h.free
  · split
    · exact h.exit
    · exact h.idle

/-- An execution ends in the coroutines of the process, or after it. -/
theorem execute_cases (h : k.heaps.Entered p) (postpoll : Option Local) :
    k.execute p postpoll = (k.touch p).afterExecute p ∨
      (k.execute p postpoll).stage = .running p ∧
      (k.execute p postpoll).heaps = k.heaps.execute p ∧
      (k.execute p postpoll).blockedProcs = k.blockedProcs ∧
      (k.execute p postpoll).touches = (k.touch p).touches := by
  unfold execute
  obtain ⟨l, hl⟩ := Option.isSome_iff_exists.mp (show (k.procs p).localPtr.isSome = true from h.live)
  rw [hl]
  dsimp only
  cases (if l.pl.runningCr.isSome then some { l with pl := l.pl.raiseSignal.1 } else postpoll) with
  | none => exact Or.inl rfl
  | some l' =>
      have hset : (((k.touch p).setLocal p l').heapEnter p).heaps = k.heaps := by
        rw [heapEnter_heaps, setLocal_heaps (show (k.touch p).Live p from h.live), touch_heaps]
        exact h.enter_self
      dsimp only
      refine Or.inr ⟨rfl, ?_, ?_, ?_⟩
      · rw [setStage_heaps, Heaps.execute]
        have hpriv : ((((k.touch p).setLocal p l').heapEnter p).procs p).privileged =
            k.heaps.privileged p := congrArg (fun h => h.privileged p) hset
        rw [hpriv]
        split
        · exact hset
        · rw [kernExit_heaps, hset]
      · split <;> rfl
      · split <;> rfl

end Equations

/-! ## The listener -/

section Accept
variable {k : Kern} {p : Nat} (a : Accept)

/-- A new process has its heap entered, or there is none. -/
def AddsHeap (p : Nat) (k : Kern) (alloc : Kern × Bool) : Prop :=
  Heaps.Adds p k.heaps alloc.1.heaps ∧ alloc.1.heaps.live p = alloc.2 ∧
    (alloc.2 = true → (alloc.1.heaps.heap p).prot = true)

theorem addsHeap_initPrivate (h : k.heaps.Sound) (hdead : k.heaps.live p = false) (mapped : Option Nat) :
    AddsHeap p k (k.initPrivate p mapped) := by
  have hpool : k.heaps.pool p = none := (h.dead p hdead).1
  unfold initPrivate
  cases mapped with
  | none => exact ⟨Heaps.Adds.refl h, hdead, fun hok => absurd hok Bool.false_ne_true⟩
  | some addr =>
      dsimp only
      split
      · rename_i hfree
        have hfree : k.heaps.pages addr = none := hfree
        have hother : ∀ addr', addr' ≠ addr → k.heaps.pages.mmap addr true addr' = k.heaps.pages addr' :=
          fun addr' ha => (Pages.mmap_apply _ _ _ _).trans (if_neg ha)
        have hmapped : ∀ addr', k.heaps.pages addr' ≠ none → addr' ≠ addr := by
          rintro addr' ha rfl
          exact ha hfree
        have hinit : Heaps.Sound { k.heaps with
            pages := k.heaps.pages.mmap addr true
            freeEntries := k.heaps.freeEntries
            heap := Function.update k.heaps.heap p (Heap.map addr true)
            pool := Function.update k.heaps.pool p none
            live := Function.update k.heaps.live p true } := by
          refine h.initProc ⟨rfl, rfl⟩ ((Pages.mmap_apply _ _ _ _).trans (if_pos rfl)) (fun q hq => ?_)
            (hmapped _ h.kern).symm hother (List.Sublist.refl _) (fun e he => ?_) nofun
          · refine hmapped _ ?_
            rw [h.told q hq]
            exact Option.some_ne_none _
          · exact (hmapped _ (h.entryMapped e he)).symm
        have hheaps : ((({ k with pages := k.pages.mmap addr true } : Kern).updProc p fun proc =>
            { proc with
              localPtr := some Local.init, runQed := false, blockedQed := false,
              heap := Heap.map addr true }).touch p).heaps = { k.heaps with
            pages := k.heaps.pages.mmap addr true
            heap := Function.update k.heaps.heap p (Heap.map addr true)
            pool := Function.update k.heaps.pool p none
            live := Function.update k.heaps.live p true } := by
          rw [touch_heaps, heaps_updProc, ← hpool]
          simp only [heaps, Function.update_eq_self_iff.mpr, Option.isSome_some]
        refine ⟨?_, ?_, fun _ => ?_⟩
        · rw [hheaps]
          exact ⟨hinit, rfl, rfl, hother _ (hmapped _ h.kern), fun q hq => Function.update_of_ne hq _ _,
            fun _ _ => rfl, fun _ _ => rfl, fun q hq => Function.update_of_ne hq _ _⟩
        · rw [hheaps]
          exact Function.update_self _ _ _
        · rw [hheaps]
          dsimp only
          rw [Function.update_self]
          rfl
      · exact ⟨Heaps.Adds.refl h, hdead, fun hok => absurd hok Bool.false_ne_true⟩

/-- The heap of a process that takes entry `e` of the pool, whose memory is set up. -/
theorem addsHeap_pooled {e : Nat} {rest : List Nat} (h : k.heaps.Sound)
    (hfree : k.heaps.freeEntries = e :: rest) :
    Heaps.Adds p k.heaps { k.heaps with
      pages := k.heaps.pages.mprotect (k.heaps.entryHeap e).addr true
      freeEntries := rest
      heap := Function.update k.heaps.heap p (Heap.map (k.heaps.entryHeap e).addr true)
      pool := Function.update k.heaps.pool p (some e)
      live := Function.update k.heaps.live p true } := by
  have he : e ∈ k.heaps.freeEntries := hfree ▸ List.mem_cons_self
  have hnodup := List.nodup_cons.mp (hfree ▸ h.entryNodup)
  have hother : ∀ addr, addr ≠ (k.heaps.entryHeap e).addr →
      k.heaps.pages.mprotect (k.heaps.entryHeap e).addr true addr = k.heaps.pages addr :=
    fun addr ha => Pages.mprotect_of_ne _ _ ha
  refine ⟨?_, rfl, rfl, hother _ (h.entryNotKern e).symm, fun q hq => Function.update_of_ne hq _ _,
    fun _ _ => rfl, fun _ _ => rfl, fun q hq => Function.update_of_ne hq _ _⟩
  refine h.initProc ⟨rfl, rfl⟩ (h.mprotect_entry he) (h.entryFree e he) (h.entryNotKern e) hother ?_
    (fun f hf ha => ?_) fun f hf => ?_
  · rw [hfree]
    exact List.sublist_cons_self e rest
  · have hef : e = f := h.entryApart e f ha
    exact hnodup.1 (hef ▸ hf)
  · rw [← Option.some.inj hf]
    rfl

theorem takeEntry_heaps {e : Nat} {rest : List Nat} (h : k.heaps.Sound) :
    (k.takeEntry p e rest).heaps = { k.heaps with
      pages := k.heaps.pages.mprotect (k.heaps.entryHeap e).addr true
      freeEntries := rest
      heap := Function.update k.heaps.heap p (Heap.map (k.heaps.entryHeap e).addr true) } := by
  have hentry := h.enter_entry e
  simp only [heaps, Heap.enter] at hentry
  rw [takeEntry, heapEnter_heaps, heaps_updProc]
  simp only [heaps, Heaps.setProt, Function.update_eq_self_iff.mpr, Function.update_self,
    Function.update_idem, hentry]

theorem addsHeap_allocFromPool (h : k.heaps.Sound) (hdead : k.heaps.live p = false) (fits : Bool) :
    AddsHeap p k (k.allocFromPool p fits) := by
  cases hfree : k.freeEntries with
  | nil =>
      rw [allocFromPool, hfree]
      exact ⟨Heaps.Adds.refl h, hdead, fun hok => absurd hok Bool.false_ne_true⟩
  | cons e rest =>
      have henter := @takeEntry_heaps k p e rest h
      rw [allocFromPool_eq hfree]
      generalize k.takeEntry p e rest = k₁ at henter
      have hfree : k.heaps.freeEntries = e :: rest := hfree
      have he : e ∈ k.heaps.freeEntries := hfree ▸ List.mem_cons_self
      split
      · have hheaps : ((k₁.updProc p fun proc =>
            { proc with
              localPtr := some Local.init, pool := some e, runQed := false, blockedQed := false
              }).touch p).heaps = { k.heaps with
            pages := k.heaps.pages.mprotect (k.heaps.entryHeap e).addr true
            freeEntries := rest
            heap := Function.update k.heaps.heap p (Heap.map (k.heaps.entryHeap e).addr true)
            pool := Function.update k.heaps.pool p (some e)
            live := Function.update k.heaps.live p true } := by
          rw [touch_heaps, heaps_updProc]
          show { k₁.heaps with
            heap := Function.update k₁.heaps.heap p (k₁.heaps.heap p)
            pool := Function.update k₁.heaps.pool p (some e)
            privileged := Function.update k₁.heaps.privileged p (k₁.heaps.privileged p)
            isolated := Function.update k₁.heaps.isolated p (k₁.heaps.isolated p)
            live := Function.update k₁.heaps.live p true } = _
          rw [Function.update_eq_self, Function.update_eq_self, Function.update_eq_self, henter]
        refine ⟨?_, ?_, fun _ => ?_⟩
        · rw [hheaps]
          exact addsHeap_pooled h hfree
        · rw [hheaps]
          exact Function.update_self _ _ _
        · rw [hheaps]
          dsimp only
          rw [Function.update_self]
          rfl
      · have hheaps : (({ k₁ with freeEntries := e :: rest } : Kern).updProc p fun proc =>
            { proc with localPtr := none }).heaps = { k.heaps with
            pages := k.heaps.pages.mprotect (k.heaps.entryHeap e).addr true
            heap := Function.update k.heaps.heap p (Heap.map (k.heaps.entryHeap e).addr true) } := by
          have hlive : (k₁.procs p).localPtr.isSome = false := by
            show k₁.heaps.live p = false
            rw [henter]
            exact hdead
          refine (heaps_updProc_of (k := { k₁ with freeEntries := e :: rest }) rfl rfl rfl rfl
            (by rw [hlive]; rfl)).trans ?_
          show { k₁.heaps with freeEntries := e :: rest } = _
          rw [henter, ← hfree]
        have hother : ∀ addr, addr ≠ (k.heaps.entryHeap e).addr →
            k.heaps.pages.mprotect (k.heaps.entryHeap e).addr true addr = k.heaps.pages addr :=
          fun addr ha => Pages.mprotect_of_ne _ _ ha
        refine ⟨?_, ?_, fun hok => absurd hok Bool.false_ne_true⟩
        · rw [hheaps]
          refine ⟨h.of_dead hdead he ?_ hother, rfl, rfl, hother _ (h.entryNotKern e).symm,
            fun q hq => Function.update_of_ne hq _ _, fun _ _ => rfl, fun _ _ => rfl, fun _ _ => rfl⟩
          rw [h.mprotect_entry he]
          exact Option.some_ne_none _
        · rw [hheaps]
          exact hdead

theorem addsHeap_allocHeap (h : k.heaps.Sound) (hdead : k.heaps.live p = false) :
    AddsHeap p k (k.allocHeap p a) := by
  unfold allocHeap
  split
  · have hpool := addsHeap_allocFromPool h hdead a.fits
    dsimp only
    split
    · exact hpool
    · rename_i hfail
      obtain ⟨hadds, hlive, -⟩ := hpool
      rw [Bool.eq_false_iff.mpr hfail] at hlive
      obtain ⟨hadds', hlive', hprot⟩ := addsHeap_initPrivate hadds.sound hlive a.mapped
      exact ⟨hadds.trans hadds', hlive', hprot⟩
  · exact addsHeap_initPrivate h hdead a.mapped

variable (k p) in
theorem updFlags_heaps (privileged isolated : Bool) :
    (k.updProc p fun proc => { proc with privileged := privileged, isolated := isolated }).heaps =
      k.heaps.setFlags p privileged isolated := by
  rw [heaps_updProc]
  show { k.heaps with
    heap := Function.update k.heaps.heap p (k.heaps.heap p)
    pool := Function.update k.heaps.pool p (k.heaps.pool p)
    privileged := Function.update k.heaps.privileged p privileged
    isolated := Function.update k.heaps.isolated p isolated
    live := Function.update k.heaps.live p (k.heaps.live p) } = _
  rw [Function.update_eq_self, Function.update_eq_self, Function.update_eq_self]
  rfl

/-- The flags of a new process are set with its heap entered. -/
theorem openProc_heaps (h : k.heaps.Sound) (hlive : k.heaps.live p = true)
    (hprot : (k.heaps.heap p).prot = true) :
    (k.openProc p a).heaps = k.heaps.setFlags p a.privileged a.isolated := by
  have hinside := (h.inside p hlive).1
  rw [openProc, touch_heaps, heapEnter_heaps, updFlags_heaps]
  exact Heaps.setProt_of_prot (hprot.trans hinside.symm)

theorem openProc_setLocal_heaps (h : k.heaps.Sound) (hlive : k.heaps.live p = true)
    (hprot : (k.heaps.heap p).prot = true) (l : Local) :
    ((k.openProc p a).setLocal p l).heaps = k.heaps.setFlags p a.privileged a.isolated :=
  (setLocal_heaps (openProc_live a hlive)).trans (openProc_heaps a h hlive hprot)

theorem setupProc_heaps (h : k.heaps.Sound) (hlive : k.heaps.live p = true)
    (hprot : (k.heaps.heap p).prot = true) :
    (k.setupProc p a).heaps =
      if a.setup = .played then
        (k.heaps.setFlags p a.privileged a.isolated).setProt p (k.heaps.heap p).protOutside
      else k.heaps.setFlags p a.privileged a.isolated := by
  have hlocal := openProc_setLocal_heaps a h hlive hprot
  rw [setupProc_eq]
  cases a.setup with
  | noThread => exact openProc_heaps a h hlive hprot
  | noArg => exact hlocal _
  | played =>
      rw [if_pos rfl, heapExit_heaps, flushProcQueues_heaps, hlocal]
      rfl

/-- What the listener does to the heaps: a free process gets one, or tries to.  If it
is isolated in the end it has been played, with its heap left, or its setup has
failed. -/
theorem accept_heaps (hqueues : k.sched.Queues False) (h : k.heaps.Sound) :
    (k.freeProcs = [] ∧ k.accept a = k) ∨
      ∃ p, k.heaps.live p = false ∧ Heaps.Adds p k.heaps (k.accept a).heaps ∧
        ((k.accept a).heaps.isolated p = true → a.isolated = true ∧
          (a.setup = .played → ((k.accept a).heaps.heap p).prot = false)) := by
  unfold accept
  cases hfree : k.freeProcs with
  | nil => exact Or.inl ⟨rfl, rfl⟩
  | cons p rest =>
      obtain ⟨-, hdead, -⟩ := hqueues.take_free (p := p) hfree
      obtain ⟨hadds, hlive, hprot⟩ :=
        addsHeap_allocHeap a (k := { k with freeProcs := rest }) (p := p) h hdead
      refine Or.inr ⟨p, hdead, ?_⟩
      dsimp only
      split
      · rename_i hok
        have hprot := hprot hok
        rw [hok] at hlive
        rw [setupProc_heaps a hadds.sound hlive hprot]
        have hflags := hadds.sound.adds_setFlags hlive a.privileged a.isolated
        have houtside := (hadds.sound.inside p hlive).2
        split
        · rename_i hplayed
          refine ⟨(hadds.trans hflags).trans (hflags.sound.adds_setProt hlive _), fun hiso => ⟨?_, ?_⟩⟩
          · exact (Function.update_self _ _ _).symm.trans hiso
          · exact fun _ => (Heaps.setProt_prot_self _).trans houtside
        · rename_i hplayed
          refine ⟨hadds.trans hflags, fun hiso => ⟨?_, fun hp => absurd hp hplayed⟩⟩
          exact (Function.update_self _ _ _).symm.trans hiso
      · rename_i hfail
        rw [Bool.eq_false_iff.mpr hfail] at hlive
        refine ⟨hadds, fun hiso => ?_⟩
        rw [(hadds.sound.dead p hlive).2] at hiso
        cases hiso

end Accept

/-! ## The invariant -/

/-- While a process runs its heap is entered, and the kernel's as the process is
privileged; otherwise the kernel's heap is accessible. -/
structure Guarded (k : Kern) : Prop where
  running : ∀ p, k.stage = .running p → k.heaps.Running p
  idle : (∀ p, k.stage ≠ .running p) → k.heaps.Idle

/-- A fault of a privileged process finds a descriptor that the signal jumper can
enter. -/
def FaultHarmless : KernAct → Kern → Prop
  | .fault _, k => ∀ p ∈ current k.stage, k.heaps.privileged p = true → k.heaps.CopyHarmless
  | _, _ => True

instance decidableFaultHarmless (a : KernAct) (k : Kern) : Decidable (FaultHarmless a k) :=
  match a with
  | .fault _ => inferInstanceAs (Decidable (∀ p ∈ current k.stage, _ → _))
  | .dequeueFresh | .dequeueRun | .signal _ | .dispatch _ _ | .compute _ | .accept _ | .leave _
  | .prepoll | .poll _ | .pollError => .isTrue trivial

section Guarded
variable {k k' : Kern} {p : Nat}

theorem dequeueRun_stage (k : Kern) (p : Nat) : k.dequeueRun.stage ≠ .running p := by
  unfold dequeueRun
  cases k.runProcs with
  | nil =>
      dsimp only
      split
      · nofun
      · nofun
  | cons q rest => nofun

theorem Guarded.of_idle (h : k.heaps.Idle) (hstage : ∀ p, k.stage ≠ .running p) : k.Guarded :=
  ⟨fun p hp => absurd hp (hstage p), fun _ => h⟩

theorem Guarded.of_heaps (h : k.Guarded) (hheaps : k'.heaps = k.heaps) (hstage : k'.stage = k.stage) :
    k'.Guarded := by
  refine ⟨fun p hp => ?_, fun hne => ?_⟩
  · rw [hheaps]
    exact h.running p (hstage ▸ hp)
  · rw [hheaps]
    exact h.idle (hstage ▸ hne)

theorem Guarded.sound (h : k.Guarded) : k.heaps.Sound := by
  by_cases hp : ∃ p, k.stage = .running p
  · obtain ⟨p, hp⟩ := hp
    exact (h.running p hp).sound
  · exact (h.idle fun p hst => hp ⟨p, hst⟩).sound

/-- The heaps before a process is executed for the first time in its turn. -/
theorem entered_dispatch (h : k.Guarded) (hstage : k.stage = .taken p) (hlive : k.Live p) :
    (k.heapEnter p).heaps.Entered p := by
  rw [heapEnter_heaps]
  exact (h.idle fun q hq => by rw [hstage] at hq; cases hq).enter hlive

/-- The heaps before it is executed again after a fault. -/
theorem entered_fault {postpoll : Option Local} (h : k.Guarded) (hstage : k.stage = .running p)
    (hfault : FaultHarmless (.fault postpoll) k) :
    (k.kernEnter.heapEnter p).heaps = k.heaps.kernEnter ∧ k.heaps.kernEnter.Entered p := by
  have hcur : p ∈ current k.stage := by
    rw [hstage]
    rfl
  have henter := (h.running p hstage).fault (hfault p hcur)
  refine ⟨?_, henter⟩
  rw [heapEnter_heaps, kernEnter_heaps]
  exact henter.enter_self

/-- The heaps when the executor has returned. -/
theorem entered_leave (h : k.Guarded) (hstage : k.stage = .running p) :
    (if (k.procs p).privileged then k else k.kernEnter).heaps = k.heaps.leave p ∧
      (k.heaps.leave p).Entered p := by
  refine ⟨?_, (h.running p hstage).leave⟩
  unfold Heaps.leave
  show _ = if (k.procs p).privileged then _ else _
  split <;> rfl

theorem guarded_execute (h : k.heaps.Entered p) (postpoll : Option Local) :
    (k.execute p postpoll).Guarded := by
  obtain hafter | ⟨hstage, hheaps, -⟩ := execute_cases h postpoll
  · rw [hafter]
    exact Guarded.of_idle (idle_afterExecute (k := k.touch p) h) nofun
  · refine ⟨fun q hq => ?_, fun hne => absurd hstage (hne p)⟩
    obtain rfl : p = q := KernStage.running.inj (hstage.symm.trans hq)
    rw [hheaps]
    exact h.execute

/-- Every step keeps the invariant. -/
theorem guarded_step {a : KernAct} (hsound : k.Sound False) (h : k.Guarded) (hfault : FaultHarmless a k)
    (hst : step a k = some k') : k'.Guarded := by
  have hidle : ∀ {stage : KernStage}, k.stage = stage → (∀ p, stage ≠ .running p) → k.heaps.Idle :=
    fun hst hne => h.idle fun p hp => hne p (hst.symm.trans hp)
  cases steps_of_step hst with
  | dequeueFresh hstage =>
      refine Guarded.of_idle ?_ fun p hp => ?_
      · rw [dequeueFresh_heaps]
        exact hidle hstage nofun
      · rw [(dequeueFresh_slots hsound).2.2] at hp
        cases hp
  | dequeueRun hstage =>
      refine Guarded.of_idle ?_ (dequeueRun_stage k)
      rw [dequeueRun_heaps h.sound]
      exact hidle hstage nofun
  | signal signo hstage =>
      cases signo with
      | term => exact h.of_heaps rfl rfl
      | usr1 => exact h.of_heaps (dump_heaps h.sound) (dump_stage k)
  | dispatch p kernHd postpoll hstage =>
      have henter := entered_dispatch h hstage (hsound.current p (by rw [hstage]; rfl))
      refine guarded_execute (k := { k.heapEnter p with
        kernHd := kernHd, dispatched := p :: (k.heapEnter p).dispatched }) ?_ postpoll
      exact ⟨henter.sound.of_kern _ henter.sound.kern fun _ _ => rfl, henter.kern, henter.live,
        henter.prot⟩
  | compute p l hstage =>
      exact h.of_heaps (setLocal_heaps (h.running p hstage).live) rfl
  | accept p a hstage hkern =>
      have hrunning := h.running p hstage
      obtain ⟨-, heq⟩ | ⟨q, hdead, hadds, -⟩ := accept_heaps a hsound.queues h.sound
      · rw [heq]
        exact h
      · have hpq : p ≠ q := by
          rintro rfl
          exact Bool.false_ne_true (hdead.symm.trans hrunning.live)
        refine ⟨fun r hr => ?_, fun hne => absurd ((accept_stage k a).trans hstage) (hne p)⟩
        obtain rfl : p = r := KernStage.running.inj (hstage.symm.trans ((accept_stage k a).symm.trans hr))
        exact hadds.running hrunning hpq
  | fault p postpoll hstage =>
      obtain ⟨hheaps, henter⟩ := entered_fault h hstage hfault
      refine guarded_execute (k := (k.kernEnter.heapEnter p).touch p) ?_ postpoll
      rw [touch_heaps, hheaps]
      exact henter
  | leave p rc hstage =>
      obtain ⟨hheaps, henter⟩ := entered_leave h hstage
      refine Guarded.of_idle ?_ nofun
      unfold leave
      dsimp only
      refine idle_afterExecute ?_
      split
      · rw [hheaps]
        exact henter
      · rw [prepollProc_heaps, hheaps]
        exact henter
  | prepoll hstage =>
      refine Guarded.of_idle ?_ fun p hp => ?_
      · rw [prepoll_heaps]
        exact hidle hstage nofun
      · rw [prepoll_stage] at hp
        cases hp
  | poll revents hstage => exact Guarded.of_idle (hidle hstage nofun) nofun
  | pollError hstage => exact Guarded.of_idle (hidle hstage nofun) nofun

end Guarded

/-! ## The start -/

section Boot
variable (b : Boot)

theorem sound_alloc : (alloc b).heaps.Sound where
  hd := rfl
  kern := by
    show (if b.kernAddr = b.kernAddr then some true else _) ≠ none
    rw [if_pos rfl]
    nofun
  inside := nofun
  told := nofun
  apart := nofun
  notKern := nofun
  entry _ := rfl
  entryApart _ _ ha := b.entryAddr_injective ha
  entryNotKern := b.entryAddr_ne_kernAddr
  entryMapped e he := by
    have hmem : b.entryAddr e ∈ (List.range b.entryCount).map b.entryAddr := List.mem_map_of_mem he
    show (if b.entryAddr e = b.kernAddr then some true
      else if b.entryAddr e ∈ (List.range b.entryCount).map b.entryAddr then some false else none) ≠ none
    rw [if_neg (b.entryAddr_ne_kernAddr e), if_pos hmem]
    nofun
  entryFree := nofun
  entryNodup := List.nodup_range
  pooled := nofun
  dead _ _ := ⟨rfl, rfl⟩

/-- The first process, once its heap is mapped, and what is done with it then: the
heap is entered for a moment, and entered again for its thread. -/
theorem bootProc_eq : ∃ k : Kern, k.heaps.Idle ∧ (∀ p, k.heaps.live p = true ↔ p = 0) ∧
    (k.heaps.heap 0).prot = false ∧ k.touches = [] ∧
    bootProc b = (((((((k.heapEnter 0).touch 0).heapExit 0).updProc 0 fun proc =>
      { proc with privileged := b.privileged, isolated := b.isolated }).heapEnter 0).touch 0).setLocal 0
      ((Local.init.initThread b.thread b.socket 0).play b.thread)) := by
  have halloc := sound_alloc b
  have hother : ∀ addr, addr ≠ b.addr →
      (alloc b).heaps.pages.mmap b.addr false addr = (alloc b).heaps.pages addr :=
    fun addr ha => (Pages.mmap_apply _ _ _ _).trans (if_neg ha)
  have hinit : Heaps.Sound { (alloc b).heaps with
      pages := (alloc b).heaps.pages.mmap b.addr false
      freeEntries := (alloc b).heaps.freeEntries
      heap := Function.update (alloc b).heaps.heap 0 (Heap.map b.addr false)
      pool := Function.update (alloc b).heaps.pool 0 none
      live := Function.update (alloc b).heaps.live 0 true } :=
    halloc.initProc ⟨rfl, rfl⟩ ((Pages.mmap_apply _ _ _ _).trans (if_pos rfl)) nofun b.addr_ne
      hother (List.Sublist.refl _) (fun e _ => (b.entryAddr_ne_addr e).symm) nofun
  obtain ⟨k, hk, hheaps⟩ : ∃ k : Kern, k =
      ({ alloc b with
        freeProcs := (List.range b.procCount).tail
        pages := (alloc b).pages.mmap b.addr false }.updProc 0 fun proc =>
        { proc with heap := Heap.map b.addr false, localPtr := some Local.init }) ∧
      k.heaps = { (alloc b).heaps with
        pages := (alloc b).heaps.pages.mmap b.addr false
        heap := Function.update (alloc b).heaps.heap 0 (Heap.map b.addr false)
        pool := Function.update (alloc b).heaps.pool 0 none
        live := Function.update (alloc b).heaps.live 0 true } := by
    refine ⟨_, rfl, ?_⟩
    rw [heaps_updProc]
    show { (alloc b).heaps with
      pages := (alloc b).heaps.pages.mmap b.addr false
      heap := Function.update (alloc b).heaps.heap 0 (Heap.map b.addr false)
      pool := Function.update (alloc b).heaps.pool 0 none
      privileged := Function.update (alloc b).heaps.privileged 0 ((alloc b).heaps.privileged 0)
      isolated := Function.update (alloc b).heaps.isolated 0 ((alloc b).heaps.isolated 0)
      live := Function.update (alloc b).heaps.live 0 true } = _
    rw [Function.update_eq_self, Function.update_eq_self]
  refine ⟨k, ?_, fun p => ?_, ?_, by rw [hk]; rfl, by rw [hk]; rfl⟩
  · rw [hheaps]
    exact ⟨hinit, (hother _ b.addr_ne.symm).trans (if_pos rfl)⟩
  · rw [hheaps]
    show Function.update (fun _ => false) 0 true p = true ↔ p = 0
    rw [Function.update_apply]
    split
    · rename_i hp
      exact iff_of_true rfl hp
    · rename_i hp
      exact iff_of_false Bool.false_ne_true hp
  · rw [hheaps]
    rfl

/-- The heap of the first process is entered when the loop starts, and no other
process has memory. -/
theorem boot_heaps : (boot b).heaps.Entered 0 ∧ ∀ p, (boot b).heaps.live p = true → p = 0 := by
  obtain ⟨k, hidle, hlive, hprot, -, hboot⟩ := bootProc_eq b
  have hlive₀ := (hlive 0).mpr rfl
  obtain ⟨k₁, hk₁, hheaps₁⟩ : ∃ k₁ : Kern, k₁ = ((k.heapEnter 0).touch 0).heapExit 0 ∧
      k₁.heaps = k.heaps := by
    refine ⟨_, rfl, ?_⟩
    rw [heapExit_heaps, touch_heaps, heapEnter_heaps]
    have hout : ((k.heaps.setProt 0 (k.heaps.heap 0).protInside).heap 0).protOutside =
        (k.heaps.heap 0).prot := by
      dsimp only [Heaps.setProt]
      rw [Function.update_self, Heap.setProt_fst, hprot]
      exact (hidle.sound.inside 0 hlive₀).2
    rw [hout]
    exact hidle.sound.setProt_setProt hlive₀ _
  obtain ⟨k₂, hk₂, hheaps₂⟩ : ∃ k₂ : Kern, k₂ = (k₁.updProc 0 fun proc =>
      { proc with privileged := b.privileged, isolated := b.isolated }) ∧
      k₂.heaps = k.heaps.setFlags 0 b.privileged b.isolated := by
    refine ⟨_, rfl, ?_⟩
    rw [updFlags_heaps, hheaps₁]
  have hflags := hidle.sound.adds_setFlags hlive₀ b.privileged b.isolated
  have henter : (k₂.heapEnter 0).heaps.Entered 0 := by
    rw [heapEnter_heaps, hheaps₂]
    exact Heaps.Idle.enter ⟨hflags.sound, hidle.kern⟩ hlive₀
  have hheaps : (boot b).heaps = (k₂.heapEnter 0).heaps := by
    rw [boot, flushProcQueues_heaps, hboot, ← hk₁, ← hk₂, setLocal_heaps (k := (k₂.heapEnter 0).touch 0),
      touch_heaps]
    exact henter.live
  rw [hheaps]
  refine ⟨henter, fun p hp => (hlive p).mp ?_⟩
  rw [heapEnter_heaps, hheaps₂] at hp
  exact hp

theorem guarded_boot : (boot b).Guarded := by
  refine Guarded.of_idle (boot_heaps b).1.idle fun p hp => ?_
  rw [boot, flushProcQueues_stage] at hp
  cases hp

end Boot

end Kern

end Vk

/-
# `Mnvkd.KernHeaps` — the heaps of the kernel and of its processes

Each process with memory has a descriptor of its heap that says what the pages
have, and no two heaps share pages (`Heaps.Sound`).  The descriptors of the
server's pool say that their pages allow no access, whatever they have: a heap that
is taken from the pool is entered through a copy.
-/
import Mnvkd.KernSound

namespace Vk

open Lib

namespace Heaps

/-- Entering or leaving the heap of process `p`. -/
def setProt (h : Heaps) (p : Nat) (prot : Bool) : Heaps :=
  { h with
    pages := ((h.heap p).setProt prot h.pages).2
    heap := Function.update h.heap p ((h.heap p).setProt prot h.pages).1 }

/-- `vk_proc_clear`. -/
def clear (h : Heaps) (p : Nat) : Heaps :=
  { h with
    heap := Function.update h.heap p Heap.cleared
    pool := Function.update h.pool p none
    privileged := Function.update h.privileged p false
    isolated := Function.update h.isolated p false
    live := Function.update h.live p false }

/-- The descriptors of the processes with memory say what their pages have; no two
heaps, and no heap and a free entry of the pool, have the same pages. -/
structure Sound (h : Heaps) : Prop where
  hd : h.hd = Heap.map h.hd.addr true
  kern : h.pages h.hd.addr ≠ none
  inside : ∀ p, h.live p = true → (h.heap p).protInside = true ∧ (h.heap p).protOutside = false
  told : ∀ p, h.live p = true → h.pages (h.heap p).addr = some (h.heap p).prot
  apart : ∀ p q, h.live p = true → h.live q = true → (h.heap p).addr = (h.heap q).addr → p = q
  notKern : ∀ p, h.live p = true → (h.heap p).addr ≠ h.hd.addr
  entry : ∀ e, h.entryHeap e = Heap.map (h.entryHeap e).addr false
  entryApart : ∀ e f, (h.entryHeap e).addr = (h.entryHeap f).addr → e = f
  entryNotKern : ∀ e, (h.entryHeap e).addr ≠ h.hd.addr
  entryMapped : ∀ e ∈ h.freeEntries, h.pages (h.entryHeap e).addr ≠ none
  entryFree : ∀ e ∈ h.freeEntries, ∀ p, h.live p = true → (h.heap p).addr ≠ (h.entryHeap e).addr
  entryNodup : h.freeEntries.Nodup
  pooled : ∀ p, h.live p = true → ∀ e, h.pool p = some e → (h.heap p).addr = (h.entryHeap e).addr
  dead : ∀ p, h.live p = false → h.pool p = none ∧ h.isolated p = false

variable {h : Heaps} {p : Nat}

@[simp] theorem setProt_addr (prot : Bool) (q : Nat) :
    ((h.setProt p prot).heap q).addr = (h.heap q).addr := by
  dsimp only [setProt]
  rw [Function.update_apply]
  split
  · subst q
    rw [Heap.setProt_fst]
  · rfl

theorem setProt_prot_self (prot : Bool) : ((h.setProt p prot).heap p).prot = prot := by
  dsimp only [setProt]
  rw [Function.update_self, Heap.setProt_fst]

theorem setProt_heap_of_ne {q : Nat} (hq : q ≠ p) (prot : Bool) :
    (h.setProt p prot).heap q = h.heap q := Function.update_of_ne hq _ _

theorem setProt_pages_of_ne {addr : Nat} (ha : addr ≠ (h.heap p).addr) (prot : Bool) :
    (h.setProt p prot).pages addr = h.pages addr := Heap.setProt_snd_of_ne _ _ _ ha

/-- A process with memory enters or leaves its heap. -/
theorem Sound.setProt (hs : h.Sound) (hp : h.live p = true) (prot : Bool) :
    (h.setProt p prot).Sound where
  hd := hs.hd
  kern := fun hnone => hs.kern ((Heap.setProt_snd_eq_none _ _ _ _).mp hnone)
  inside q hq := by
    have hin := hs.inside q hq
    dsimp only [Heaps.setProt]
    rw [Function.update_apply]
    split
    · rename_i hqp
      rw [Heap.setProt_fst, ← hqp]
      exact hin
    · exact hin
  told q hq := by
    by_cases hqp : q = p
    · subst q
      rw [setProt_prot_self, setProt_addr]
      exact Heap.setProt_snd_self _ _ _ (hs.told p hp)
    · rw [setProt_heap_of_ne hqp, setProt_pages_of_ne]
      · exact hs.told q hq
      · exact fun ha => hqp (hs.apart q p hq hp ha)
  apart q r hq hr ha := hs.apart q r hq hr (by simpa using ha)
  notKern q hq := by
    rw [setProt_addr]
    exact hs.notKern q hq
  entry := hs.entry
  entryApart := hs.entryApart
  entryNotKern := hs.entryNotKern
  entryMapped e he := fun hnone => hs.entryMapped e he ((Heap.setProt_snd_eq_none _ _ _ _).mp hnone)
  entryFree e he q hq := by
    rw [setProt_addr]
    exact hs.entryFree e he q hq
  entryNodup := hs.entryNodup
  pooled q hq e he := by
    rw [setProt_addr]
    exact hs.pooled q hq e he
  dead := hs.dead

/-- The kernel's pages are protected, by any copy of its descriptor. -/
theorem Sound.of_kern {pages : Pages} (hs : h.Sound) (kernHd : Heap)
    (hkern : pages h.hd.addr ≠ none) (hother : ∀ addr, addr ≠ h.hd.addr → pages addr = h.pages addr) :
    Sound { h with kernHd := kernHd, pages := pages } :=
  { hs with
    kern := hkern
    told := fun q hq => (hother _ (hs.notKern q hq)).trans (hs.told q hq)
    entryMapped := fun e he => by
      show pages (h.entryHeap e).addr ≠ none
      rw [hother _ (hs.entryNotKern e)]
      exact hs.entryMapped e he }

/-- A process gets a heap at an address where nothing else is. -/
theorem Sound.initProc {pages : Pages} {freeEntries : List Nat} {heap : Heap} {pool : Option Nat}
    (hs : h.Sound) (hinside : heap.protInside = true ∧ heap.protOutside = false)
    (htold : pages heap.addr = some heap.prot)
    (hfresh : ∀ q, h.live q = true → (h.heap q).addr ≠ heap.addr) (hkern : heap.addr ≠ h.hd.addr)
    (hother : ∀ addr, addr ≠ heap.addr → pages addr = h.pages addr)
    (hfree : freeEntries.Sublist h.freeEntries)
    (hentry : ∀ e ∈ freeEntries, heap.addr ≠ (h.entryHeap e).addr)
    (hpool : ∀ e, pool = some e → heap.addr = (h.entryHeap e).addr) :
    Sound { h with
      pages := pages
      freeEntries := freeEntries
      heap := Function.update h.heap p heap
      pool := Function.update h.pool p pool
      live := Function.update h.live p true } := by
  have hlive : ∀ q, q ≠ p → Function.update h.live p true q = true → h.live q = true :=
    fun q hq hlive => (Function.update_of_ne hq _ _).symm.trans hlive
  refine { hs with
    kern := ?_, inside := fun q hq => ?_, told := fun q hq => ?_, apart := fun q r hq hr ha => ?_
    notKern := fun q hq => ?_, entryMapped := fun e he => ?_, entryFree := fun e he q hq => ?_
    entryNodup := hfree.nodup hs.entryNodup, pooled := fun q hq e he => ?_, dead := fun q hq => ?_ }
  · show pages h.hd.addr ≠ none
    rw [hother _ hkern.symm]
    exact hs.kern
  · dsimp only at hq ⊢
    by_cases hqp : q = p
    · subst q
      rw [Function.update_self]
      exact hinside
    · rw [Function.update_of_ne hqp]
      exact hs.inside q (hlive q hqp hq)
  · dsimp only at hq ⊢
    by_cases hqp : q = p
    · subst q
      rw [Function.update_self]
      exact htold
    · rw [Function.update_of_ne hqp, hother _ (hfresh q (hlive q hqp hq))]
      exact hs.told q (hlive q hqp hq)
  · dsimp only at hq hr ha
    by_cases hqp : q = p <;> by_cases hrp : r = p
    · exact hqp.trans hrp.symm
    · rw [hqp, Function.update_self, Function.update_of_ne hrp] at ha
      exact absurd ha.symm (hfresh r (hlive r hrp hr))
    · rw [hrp, Function.update_self, Function.update_of_ne hqp] at ha
      exact absurd ha (hfresh q (hlive q hqp hq))
    · rw [Function.update_of_ne hqp, Function.update_of_ne hrp] at ha
      exact hs.apart q r (hlive q hqp hq) (hlive r hrp hr) ha
  · dsimp only at hq ⊢
    by_cases hqp : q = p
    · subst q
      rw [Function.update_self]
      exact hkern
    · rw [Function.update_of_ne hqp]
      exact hs.notKern q (hlive q hqp hq)
  · show pages (h.entryHeap e).addr ≠ none
    rw [hother _ (hentry e he).symm]
    exact hs.entryMapped e (hfree.subset he)
  · dsimp only at hq ⊢
    by_cases hqp : q = p
    · subst q
      rw [Function.update_self]
      exact hentry e he
    · rw [Function.update_of_ne hqp]
      exact hs.entryFree e (hfree.subset he) q (hlive q hqp hq)
  · dsimp only at hq he ⊢
    by_cases hqp : q = p
    · subst q
      rw [Function.update_self] at he ⊢
      exact hpool e he
    · rw [Function.update_of_ne hqp] at he ⊢
      exact hs.pooled q (hlive q hqp hq) e he
  · dsimp only at hq ⊢
    by_cases hqp : q = p
    · subst q
      rw [Function.update_self] at hq
      cases hq
    · rw [Function.update_of_ne hqp] at hq ⊢
      exact hs.dead q hq

/-- A process loses its heap: its pages are unmapped, or go back to the pool. -/
theorem Sound.clear {pages : Pages} {freeEntries : List Nat} (hs : h.Sound) (hp : h.live p = true)
    (hother : ∀ addr, addr ≠ (h.heap p).addr → pages addr = h.pages addr)
    (hfree : freeEntries = h.freeEntries ∨ ∃ e, h.pool p = some e ∧
      freeEntries = e :: h.freeEntries ∧ pages (h.heap p).addr ≠ none) :
    Sound (clear { h with pages := pages, freeEntries := freeEntries } p) := by
  have hlive : ∀ q, Function.update h.live p false q = true → q ≠ p ∧ h.live q = true := by
    intro q hq
    rw [Function.update_apply] at hq
    split at hq
    · cases hq
    · rename_i hqp
      exact ⟨hqp, hq⟩
  have hmem : ∀ e ∈ freeEntries, e ∈ h.freeEntries ∧ (h.entryHeap e).addr ≠ (h.heap p).addr ∨
      h.pool p = some e ∧ pages (h.heap p).addr ≠ none := by
    intro e he
    obtain rfl | ⟨e', hpool, rfl, hmapped⟩ := hfree
    · exact Or.inl ⟨he, (hs.entryFree e he p hp).symm⟩
    · obtain rfl | he := List.mem_cons.mp he
      · exact Or.inr ⟨hpool, hmapped⟩
      · exact Or.inl ⟨he, (hs.entryFree e he p hp).symm⟩
  refine { hs with
    kern := ?_, inside := fun q hq => ?_, told := fun q hq => ?_, apart := fun q r hq hr ha => ?_
    notKern := fun q hq => ?_, entryMapped := fun e he => ?_, entryFree := fun e he q hq => ?_
    entryNodup := ?_, pooled := fun q hq e he => ?_, dead := fun q hq => ?_ }
  · show pages h.hd.addr ≠ none
    rw [hother _ (hs.notKern p hp).symm]
    exact hs.kern
  · obtain ⟨hqp, hq⟩ := hlive q hq
    dsimp only [Heaps.clear]
    rw [Function.update_of_ne hqp]
    exact hs.inside q hq
  · obtain ⟨hqp, hq⟩ := hlive q hq
    dsimp only [Heaps.clear]
    rw [Function.update_of_ne hqp]
    exact (hother _ fun ha => hqp (hs.apart q p hq hp ha)).trans (hs.told q hq)
  · obtain ⟨hqp, hq⟩ := hlive q hq
    obtain ⟨hrp, hr⟩ := hlive r hr
    dsimp only [Heaps.clear] at ha
    rw [Function.update_of_ne hqp, Function.update_of_ne hrp] at ha
    exact hs.apart q r hq hr ha
  · obtain ⟨hqp, hq⟩ := hlive q hq
    dsimp only [Heaps.clear]
    rw [Function.update_of_ne hqp]
    exact hs.notKern q hq
  · show pages (h.entryHeap e).addr ≠ none
    obtain ⟨he, hne⟩ | ⟨hpool, hmapped⟩ := hmem e he
    · rw [hother _ hne]
      exact hs.entryMapped e he
    · rw [← hs.pooled p hp e hpool]
      exact hmapped
  · obtain ⟨hqp, hq⟩ := hlive q hq
    dsimp only [Heaps.clear]
    rw [Function.update_of_ne hqp]
    obtain ⟨he, -⟩ | ⟨hpool, -⟩ := hmem e he
    · exact hs.entryFree e he q hq
    · show (h.heap q).addr ≠ (h.entryHeap e).addr
      rw [← hs.pooled p hp e hpool]
      exact fun ha => hqp (hs.apart q p hq hp ha)
  · obtain rfl | ⟨e, hpool, rfl, -⟩ := hfree
    · exact hs.entryNodup
    · exact List.nodup_cons.mpr
        ⟨fun he => hs.entryFree e he p hp (hs.pooled p hp e hpool), hs.entryNodup⟩
  · obtain ⟨hqp, hq⟩ := hlive q hq
    dsimp only [Heaps.clear] at he ⊢
    rw [Function.update_of_ne hqp] at he ⊢
    exact hs.pooled q hq e he
  · dsimp only [Heaps.clear] at hq ⊢
    by_cases hqp : q = p
    · subst q
      exact ⟨Function.update_self _ _ _, Function.update_self _ _ _⟩
    · rw [Function.update_of_ne hqp] at hq ⊢
      rw [Function.update_of_ne hqp]
      exact hs.dead q hq

/-- A process without memory has another descriptor, and a free entry of the pool
other protections. -/
theorem Sound.of_dead {pages : Pages} {heap : Heap} {e : Nat} (hs : h.Sound) (hdead : h.live p = false)
    (he : e ∈ h.freeEntries) (hmapped : pages (h.entryHeap e).addr ≠ none)
    (hother : ∀ addr, addr ≠ (h.entryHeap e).addr → pages addr = h.pages addr) :
    Sound { h with pages := pages, heap := Function.update h.heap p heap } := by
  have hne : ∀ q, h.live q = true → q ≠ p := by
    rintro q hq rfl
    rw [hdead] at hq
    cases hq
  refine { hs with
    kern := ?_, inside := fun q hq => ?_, told := fun q hq => ?_, apart := fun q r hq hr ha => ?_
    notKern := fun q hq => ?_, entryMapped := fun f hf => ?_, entryFree := fun f hf q hq => ?_
    pooled := fun q hq f hf => ?_ }
  · show pages h.hd.addr ≠ none
    rw [hother _ (hs.entryNotKern e).symm]
    exact hs.kern
  · dsimp only
    rw [Function.update_of_ne (hne q hq)]
    exact hs.inside q hq
  · dsimp only
    rw [Function.update_of_ne (hne q hq), hother _ (hs.entryFree e he q hq)]
    exact hs.told q hq
  · dsimp only at ha
    rw [Function.update_of_ne (hne q hq), Function.update_of_ne (hne r hr)] at ha
    exact hs.apart q r hq hr ha
  · dsimp only
    rw [Function.update_of_ne (hne q hq)]
    exact hs.notKern q hq
  · by_cases hfe : f = e
    · rw [hfe]
      exact hmapped
    · show pages (h.entryHeap f).addr ≠ none
      rw [hother _ fun ha => hfe (hs.entryApart f e ha)]
      exact hs.entryMapped f hf
  · dsimp only
    rw [Function.update_of_ne (hne q hq)]
    exact hs.entryFree f hf q hq
  · dsimp only
    rw [Function.update_of_ne (hne q hq)]
    exact hs.pooled q hq f hf

/-- The flags of a process with memory. -/
theorem Sound.setFlags (hs : h.Sound) (hp : h.live p = true) (privileged isolated : Bool) :
    Sound { h with
      privileged := Function.update h.privileged p privileged
      isolated := Function.update h.isolated p isolated } := by
  refine { hs with dead := fun q hq => ?_ }
  have hqp : q ≠ p := by
    rintro rfl
    rw [hp] at hq
    cases hq
  dsimp only
  rw [Function.update_of_ne hqp]
  exact hs.dead q hq

/-- Entering a heap that is entered does nothing. -/
theorem setProt_of_prot {prot : Bool} (hprot : (h.heap p).prot = prot) : h.setProt p prot = h := by
  subst hprot
  have hset : (h.heap p).setProt (h.heap p).prot h.pages = (h.heap p, h.pages) := by
    rw [Heap.setProt, if_neg (fun hne => hne rfl)]
  unfold setProt
  rw [hset]
  dsimp only
  rw [Function.update_eq_self]

/-- A heap that is entered for a moment is as it was. -/
theorem Sound.setProt_setProt (hs : h.Sound) (hp : h.live p = true) (prot : Bool) :
    (h.setProt p prot).setProt p (h.heap p).prot = h := by
  have htold := hs.told p hp
  by_cases hprot : (h.heap p).prot = prot
  · rw [setProt_of_prot hprot, setProt_of_prot rfl]
  · have hfst : (h.heap p).setProt prot h.pages =
        ({ h.heap p with prot := prot }, h.pages.mprotect (h.heap p).addr prot) := by
      rw [Heap.setProt, if_pos hprot]
    unfold Heaps.setProt
    dsimp only
    rw [hfst, Function.update_self, Heap.setProt, if_pos (Ne.symm hprot)]
    dsimp only
    rw [Function.update_idem, Function.update_eq_self]
    have hpages : (h.pages.mprotect (h.heap p).addr prot).mprotect (h.heap p).addr (h.heap p).prot =
        h.pages := by
      funext addr
      rw [Pages.mprotect_apply, Pages.mprotect_apply, if_pos rfl, htold]
      split
      · rename_i ha
        rw [ha, htold]
        rfl
      · rename_i ha
        exact Pages.mprotect_of_ne _ _ ha
    rw [hpages]

/-! ## The kernel's heap -/

/-- `vk_heap_enter` on the copy of the kernel's descriptor. -/
def kernEnter (h : Heaps) : Heaps :=
  { h with kernHd := (h.kernHd.enter h.pages).1, pages := (h.kernHd.enter h.pages).2 }

/-- The copy is made, and left. -/
def kernExit (h : Heaps) : Heaps :=
  { h with kernHd := (h.hd.exit h.pages).1, pages := (h.hd.exit h.pages).2 }

/-- Control is in the kernel: its heap is accessible. -/
structure Idle (h : Heaps) : Prop where
  sound : h.Sound
  kern : h.pages h.hd.addr = some true

/-- Process `p` is about to be executed, or has been: both heaps are entered. -/
structure Entered (h : Heaps) (p : Nat) : Prop where
  sound : h.Sound
  kern : h.pages h.hd.addr = some true
  live : h.live p = true
  prot : (h.heap p).prot = true

/-- Process `p` runs: the kernel's heap is entered if the process is privileged, and
otherwise there is a copy of its descriptor by which it is entered again. -/
structure Running (h : Heaps) (p : Nat) : Prop where
  sound : h.Sound
  kern : h.pages h.hd.addr = some (h.privileged p)
  live : h.live p = true
  prot : (h.heap p).prot = true
  copy : h.privileged p = false → h.kernHd = ⟨h.hd.addr, false, true, false⟩

theorem Entered.idle (he : h.Entered p) : h.Idle := ⟨he.sound, he.kern⟩

theorem Sound.accessible (hs : h.Sound) (hp : h.live p = true) (hprot : (h.heap p).prot = true) :
    h.pages (h.heap p).addr = some true := by
  rw [hs.told p hp, hprot]

theorem Idle.enter (hi : h.Idle) (hp : h.live p = true) :
    (h.setProt p (h.heap p).protInside).Entered p where
  sound := hi.sound.setProt hp _
  kern := (setProt_pages_of_ne (hi.sound.notKern p hp).symm _).trans hi.kern
  live := hp
  prot := (setProt_prot_self _).trans (hi.sound.inside p hp).1

theorem Entered.exit (he : h.Entered p) : (h.setProt p (h.heap p).protOutside).Idle where
  sound := he.sound.setProt he.live _
  kern := (setProt_pages_of_ne (he.sound.notKern p he.live).symm _).trans he.kern

/-- The heap of a process that runs is entered again without effect. -/
theorem Entered.enter_self (he : h.Entered p) : h.setProt p (h.heap p).protInside = h :=
  setProt_of_prot (he.prot.trans (he.sound.inside p he.live).1.symm)

/-- `vk_proc_execute` leaves the kernel's heap for a process that is not
privileged. -/
theorem Entered.execute (he : h.Entered p) :
    Running (if h.privileged p then h else h.kernExit) p := by
  have hhd := he.sound.hd
  by_cases hpriv : h.privileged p = true
  · rw [if_pos hpriv]
    exact ⟨he.sound, he.kern.trans (by rw [hpriv]), he.live, he.prot, fun hfalse =>
      Bool.noConfusion (hpriv.symm.trans hfalse)⟩
  · rw [if_neg hpriv]
    have hfalse : h.privileged p = false := Bool.eq_false_iff.mpr hpriv
    have hexit : h.hd.exit h.pages =
        (⟨h.hd.addr, false, true, false⟩, h.pages.mprotect h.hd.addr false) := by
      rw [hhd]
      rfl
    have hmasked : h.pages.mprotect h.hd.addr false h.hd.addr = some false := by
      rw [Pages.mprotect_apply, if_pos rfl, he.kern]
      rfl
    unfold kernExit
    rw [hexit]
    refine ⟨he.sound.of_kern _ ?_ fun addr ha => Pages.mprotect_of_ne _ _ ha, ?_, he.live, he.prot,
      fun _ => rfl⟩
    · show h.pages.mprotect h.hd.addr false h.hd.addr ≠ none
      rw [hmasked]
      nofun
    · rw [hfalse]
      exact hmasked

/-- The copy of the kernel's descriptor is one that can be entered: it is the
kernel's, or it says that it has been. -/
def CopyHarmless (h : Heaps) : Prop :=
  h.kernHd.prot = h.kernHd.protInside ∨ h.kernHd.addr = h.hd.addr ∧ h.kernHd.protInside = true

instance (h : Heaps) : Decidable h.CopyHarmless := inferInstanceAs (Decidable (_ ∨ _))

theorem Running.copyHarmless (hr : h.Running p) (hpriv : h.privileged p = false) : h.CopyHarmless := by
  rw [CopyHarmless, hr.copy hpriv]
  exact Or.inr ⟨rfl, rfl⟩

/-- Entering the kernel's heap again. -/
theorem Running.kernEnter (hr : h.Running p) (hcopy : h.CopyHarmless)
    (hkern : h.kernHd.prot = h.kernHd.protInside → h.privileged p = true) :
    h.kernEnter.Entered p := by
  unfold Heaps.kernEnter
  by_cases hprot : h.kernHd.prot = h.kernHd.protInside
  · have hsame : (h.kernHd.enter h.pages).2 = h.pages := by
      rw [Heap.enter, Heap.setProt, if_neg (fun hne => hne hprot)]
    rw [hsame]
    refine ⟨hr.sound.of_kern _ hr.sound.kern fun _ _ => rfl, ?_, hr.live, hr.prot⟩
    exact hr.kern.trans (by rw [hkern hprot])
  · obtain ⟨haddr, hinside⟩ := hcopy.resolve_left hprot
    have hsame : (h.kernHd.enter h.pages).2 = h.pages.mprotect h.hd.addr true := by
      rw [Heap.enter, Heap.setProt, if_pos hprot, haddr, hinside]
    have hopen : h.pages.mprotect h.hd.addr true h.hd.addr = some true := by
      rw [Pages.mprotect_apply, if_pos rfl, hr.kern]
      rfl
    rw [hsame]
    refine ⟨hr.sound.of_kern _ ?_ fun addr ha => Pages.mprotect_of_ne _ _ ha, hopen, hr.live, hr.prot⟩
    rw [hopen]
    nofun

/-- `vk_proc_execute`, after the executor has returned. -/
theorem Running.leave (hr : h.Running p) : Entered (if h.privileged p then h else h.kernEnter) p := by
  by_cases hpriv : h.privileged p = true
  · rw [if_pos hpriv]
    exact ⟨hr.sound, hr.kern.trans (by rw [hpriv]), hr.live, hr.prot⟩
  · rw [if_neg hpriv]
    have hfalse : h.privileged p = false := Bool.eq_false_iff.mpr hpriv
    refine hr.kernEnter (hr.copyHarmless hfalse) fun hprot => ?_
    rw [hr.copy hfalse] at hprot
    cases hprot

/-- `vk_proc_execute_jumper` enters the kernel's heap. -/
theorem Running.fault (hr : h.Running p) (hcopy : h.privileged p = true → h.CopyHarmless) :
    h.kernEnter.Entered p := by
  by_cases hpriv : h.privileged p = true
  · exact hr.kernEnter (hcopy hpriv) fun _ => hpriv
  · have hleave := hr.leave
    rw [if_neg hpriv] at hleave
    exact hleave

end Heaps

end Vk

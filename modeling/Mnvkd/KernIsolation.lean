/-
# `Mnvkd.KernIsolation` — the memory a process cannot reach

While a process runs that is not privileged, the kernel's heap is masked and so is
the heap of every other isolated process; while control is in the kernel, its heap
is accessible (`isolated_of_run`).  The dispatcher leaves the heap of an isolated
process each time its turn ends, and the listener leaves that of a new process when
it has been played.  Where the listener's setup of a process fails before that, it
leaves the heap open (`open_after_failed_setup`).
-/
import Mnvkd.KernGuard
import Mnvkd.KernShutdown

namespace Vk

open Lib

namespace Heaps

/-- Every isolated process but `p` has left its heap. -/
def MaskedBut (h : Heaps) (p : Nat) : Prop :=
  ∀ q, q ≠ p → h.isolated q = true → (h.heap q).prot = false

/-- Every isolated process has left its heap, or the one that has not is alone: it is
the first, before its first turn. -/
def Masked (h : Heaps) : Prop :=
  (∀ q, h.isolated q = true → (h.heap q).prot = false) ∨
    ∃ p, h.MaskedBut p ∧ ∀ r, h.live r = true → r = p

variable {h : Heaps} {p : Nat}

theorem MaskedBut.setProt (hm : h.MaskedBut p) (prot : Bool) : (h.setProt p prot).MaskedBut p := by
  intro q hq hiso
  rw [setProt_heap_of_ne hq]
  exact hm q hq hiso

/-- It is the turn of a process. -/
theorem Masked.maskedBut (hm : h.Masked) (hp : h.live p = true) : h.MaskedBut p := by
  obtain hall | ⟨r, hr, honly⟩ := hm
  · exact fun q _ => hall q
  · obtain rfl := honly p hp
    exact hr

/-- The heaps have been left, if that of `p` has too. -/
theorem MaskedBut.masked (hm : h.MaskedBut p)
    (hp : h.isolated p = true → (h.heap p).prot = false) : h.Masked := by
  refine Or.inl fun q hiso => ?_
  by_cases hqp : q = p
  · subst q
    exact hp hiso
  · exact hm q hqp hiso

theorem MaskedBut.free (hm : h.MaskedBut p) (hs : (h.free p).Sound) : (h.free p).Masked := by
  refine MaskedBut.masked (p := p) (fun q hq hiso => ?_) fun hiso => ?_
  · obtain ⟨hheap, hiso', -⟩ := free_of_ne (h := h) hq
    rw [hheap]
    exact hm q hq (hiso' ▸ hiso)
  · rw [(hs.dead p free_live).2] at hiso
    cases hiso

/-- The listener has added process `p`, while `r` runs. -/
theorem MaskedBut.adds {r : Nat} {h' : Heaps} (hm : h.MaskedBut r) (ha : Adds p h h')
    (hp : h'.isolated p = true → (h'.heap p).prot = false) : h'.MaskedBut r := by
  intro q hq hiso
  by_cases hqp : q = p
  · subst q
    exact hp hiso
  · rw [ha.heap q hqp]
    exact hm q hq ((ha.isolated q hqp).symm.trans hiso)

end Heaps

namespace Kern

/-- What a process that is not privileged cannot reach while it runs, and what the
kernel can while it does. -/
structure Isolated (k : Kern) : Prop where
  kern : ∀ p, k.stage = .running p → (k.procs p).privileged = false → k.pages k.hd.addr = some false
  others : ∀ p, k.stage = .running p → (k.procs p).privileged = false →
    ∀ q, q ≠ p → (k.procs q).isolated = true → k.pages (k.procs q).heap.addr = some false
  back : (∀ p, k.stage ≠ .running p) → k.pages k.hd.addr = some true

/-- While a process runs the other isolated processes have left their heaps, and
otherwise all have. -/
structure Closed (k : Kern) : Prop where
  running : ∀ p, k.stage = .running p → k.heaps.MaskedBut p
  idle : (∀ p, k.stage ≠ .running p) → k.heaps.Masked

/-- The setup of an isolated process does not fail once it has its heap. -/
def AcceptPlays : KernAct → Kern → Prop
  | .accept a, _ => a.isolated = true → a.setup = .played
  | _, _ => True

instance decidableAcceptPlays (a : KernAct) (k : Kern) : Decidable (AcceptPlays a k) :=
  match a with
  | .accept a => inferInstanceAs (Decidable (a.isolated = true → a.setup = .played))
  | .dequeueFresh | .dequeueRun | .signal _ | .dispatch _ _ | .compute _ | .fault _ | .leave _
  | .prepoll | .poll _ | .pollError => .isTrue trivial

section Closed
variable {k k' : Kern} {p : Nat}

theorem Closed.of_masked (h : k.heaps.Masked) (hstage : ∀ p, k.stage ≠ .running p) : k.Closed :=
  ⟨fun p hp => absurd hp (hstage p), fun _ => h⟩

theorem Closed.of_heaps (h : k.Closed) (hheaps : k'.heaps = k.heaps) (hstage : k'.stage = k.stage) :
    k'.Closed := by
  refine ⟨fun p hp => ?_, fun hne => ?_⟩
  · rw [hheaps]
    exact h.running p (hstage ▸ hp)
  · rw [hheaps]
    exact h.idle (hstage ▸ hne)

/-- The turn of a process ends: its heap is left if it is isolated. -/
theorem masked_afterExecute (henter : k.heaps.Entered p) (h : k.heaps.MaskedBut p) :
    (k.afterExecute p).heaps.Masked := by
  rw [afterExecute_heaps]
  split
  · exact h.free henter.free.sound
  · split
    · refine (h.setProt _).masked fun _ => ?_
      rw [Heaps.setProt_prot_self]
      exact (henter.sound.inside p henter.live).2
    · rename_i hiso
      exact h.masked fun hp => absurd hp hiso

theorem closed_execute (henter : k.heaps.Entered p) (h : k.heaps.MaskedBut p) (postpoll : Option Local) :
    (k.execute p postpoll).Closed := by
  obtain hafter | ⟨hstage, hheaps, -⟩ := execute_cases henter postpoll
  · rw [hafter]
    exact Closed.of_masked (masked_afterExecute (k := k.touch p) henter h) nofun
  · refine ⟨fun q hq => ?_, fun hne => absurd hstage (hne p)⟩
    obtain rfl : p = q := KernStage.running.inj (hstage.symm.trans hq)
    rw [hheaps, Heaps.execute]
    split
    · exact h
    · exact h

/-- Every step keeps it. -/
theorem closed_step {a : KernAct} (hsound : k.Sound False) (hguard : k.Guarded) (h : k.Closed)
    (hfault : FaultHarmless a k) (hplays : AcceptPlays a k) (hst : step a k = some k') : k'.Closed := by
  have hidle : ∀ {stage : KernStage}, k.stage = stage → (∀ p, stage ≠ .running p) → k.heaps.Masked :=
    fun hst hne => h.idle fun p hp => hne p (hst.symm.trans hp)
  have hguard' := guarded_step hsound hguard hfault hst
  cases steps_of_step hst with
  | dequeueFresh hstage =>
      refine Closed.of_masked ?_ fun p hp => ?_
      · rw [dequeueFresh_heaps]
        exact hidle hstage nofun
      · rw [(dequeueFresh_slots hsound).2.2] at hp
        cases hp
  | dequeueRun hstage =>
      refine Closed.of_masked ?_ (dequeueRun_stage k)
      rw [dequeueRun_heaps hguard.sound]
      exact hidle hstage nofun
  | signal signo hstage =>
      cases signo with
      | term => exact h.of_heaps rfl rfl
      | usr1 => exact h.of_heaps (dump_heaps hguard.sound) (dump_stage k)
  | dispatch p kernHd postpoll hstage =>
      have hlive : k.Live p := hsound.current p (by rw [hstage]; rfl)
      have henter := entered_dispatch hguard hstage hlive
      refine closed_execute (k := { k.heapEnter p with
        kernHd := kernHd, dispatched := p :: (k.heapEnter p).dispatched }) ?_ ?_ postpoll
      · exact ⟨henter.sound.of_kern _ henter.sound.kern fun _ _ => rfl, henter.kern, henter.live,
          henter.prot⟩
      · show (k.heapEnter p).heaps.MaskedBut p
        rw [heapEnter_heaps]
        exact ((hidle hstage nofun).maskedBut hlive).setProt _
  | compute p l hstage => exact h.of_heaps (setLocal_heaps (hguard.running p hstage).live) rfl
  | accept p a hstage hkern =>
      obtain ⟨-, heq⟩ | ⟨q, hdead, hadds, hiso⟩ := accept_heaps a hsound.queues hguard.sound
      · rw [heq]
        exact h
      · refine ⟨fun r hr => ?_, fun hne => absurd ((accept_stage k a).trans hstage) (hne p)⟩
        refine (h.running r ((accept_stage k a).symm.trans hr)).adds hadds fun hq => ?_
        obtain ⟨hisolated, hprot⟩ := hiso hq
        exact hprot (hplays hisolated)
  | fault p postpoll hstage =>
      obtain ⟨hheaps, henter⟩ := entered_fault hguard hstage hfault
      refine closed_execute (k := (k.kernEnter.heapEnter p).touch p) ?_ ?_ postpoll
      · rw [touch_heaps, hheaps]
        exact henter
      · rw [touch_heaps, hheaps]
        exact h.running p hstage
  | leave p rc hstage =>
      obtain ⟨hheaps, henter⟩ := entered_leave hguard hstage
      have hmasked : (k.heaps.leave p).MaskedBut p := by
        unfold Heaps.leave
        split
        · exact h.running p hstage
        · exact h.running p hstage
      refine Closed.of_masked ?_ nofun
      unfold leave
      dsimp only
      split
      · exact masked_afterExecute (hheaps ▸ henter) (hheaps ▸ hmasked)
      · refine masked_afterExecute ?_ ?_
        · rw [prepollProc_heaps, hheaps]
          exact henter
        · rw [prepollProc_heaps, hheaps]
          exact hmasked
  | prepoll hstage =>
      refine Closed.of_masked ?_ fun p hp => ?_
      · rw [prepoll_heaps]
        exact hidle hstage nofun
      · rw [prepoll_stage] at hp
        cases hp
  | poll revents hstage => exact Closed.of_masked (hidle hstage nofun) nofun
  | pollError hstage => exact Closed.of_masked (hidle hstage nofun) nofun

theorem closed_boot (b : Boot) : (boot b).Closed := by
  obtain ⟨henter, honly⟩ := boot_heaps b
  refine Closed.of_masked (Or.inr ⟨0, fun q hq hiso => ?_, honly⟩) fun p hp => ?_
  · have hdead : (boot b).heaps.live q = false := Bool.eq_false_iff.mpr fun hlive => hq (honly q hlive)
    rw [(henter.sound.dead q hdead).2] at hiso
    cases hiso
  · rw [boot, flushProcQueues_stage] at hp
    cases hp

/-- What the two invariants say of the pages. -/
theorem isolated_of_guarded (hguard : k.Guarded) (h : k.Closed) : k.Isolated where
  kern p hstage hpriv := (hguard.running p hstage).kern.trans (congrArg some hpriv)
  others p hstage hpriv q hq hiso := by
    have hs := hguard.sound
    have hiso : k.heaps.isolated q = true := hiso
    have hlive : k.heaps.live q = true := by
      by_contra hdead
      rw [(hs.dead q (Bool.eq_false_iff.mpr hdead)).2] at hiso
      cases hiso
    have htold := hs.told q hlive
    rw [h.running p hstage q hq hiso] at htold
    exact htold
  back hne := (hguard.idle hne).kern

/-- In a run in which no isolated process's setup fails, and no fault of a
privileged process meets a descriptor that the signal jumper cannot enter, the
memory of the kernel and of the isolated processes is out of reach of a process
that is not privileged. -/
theorem isolated_of_run {b : Boot} {as : List KernAct}
    (hmeets : Meets step (fun a k => FaultHarmless a k ∧ AcceptPlays a k) as (boot b))
    (hrun : run step as (boot b) = some k) : k.Isolated := by
  have h : k.Sound False ∧ k.Guarded ∧ k.Closed :=
    run_of_meets (I := fun k => k.Sound False ∧ k.Guarded ∧ k.Closed)
      (fun a k k' h hC hst => ⟨sound_step h.1 False.elim hst, guarded_step h.1 h.2.1 hC.1 hst,
        closed_step h.1 h.2.1 h.2.2 hC.1 hC.2 hst⟩)
      ⟨sound_boot b, guarded_boot b, closed_boot b⟩ hmeets hrun
  exact isolated_of_guarded h.2.1 h.2.2

end Closed

/-- An accepted connection, with a heap of its own for an isolated process. -/
def isolatedAccept (addr : Nat) (setup : Setup) : Accept where
  fd := 6
  pooled := false
  privileged := false
  isolated := true
  fits := true
  mapped := some addr
  thread := 0
  socket := 0
  setup := setup

/-- A privileged process accepts two connections and ends, and the process of the
first is dispatched. -/
def acceptTwo (setup : Setup) : List KernAct :=
  [.dequeueFresh, .dequeueRun, .dispatch Heap.cleared (some Local.init),
    .accept (isolatedAccept 10 .played), .accept (isolatedAccept 11 setup), .compute Local.init,
    .leave 0, .dequeueRun, .dispatch Heap.cleared (some Local.init)]

/-- Both are played; and the process of the first faults and goes on. -/
theorem isolated_of_run_acceptTwo : ∃ k,
    run step (acceptTwo .played ++ [.fault (some Local.init)]) (boot (smallBoot true false)) = some k ∧ k.Isolated := by
  obtain ⟨k, hk⟩ := Option.isSome_iff_exists.mp (by decide +kernel :
    (run step (acceptTwo .played ++ [.fault (some Local.init)]) (boot (smallBoot true false))).isSome = true)
  exact ⟨k, hk, isolated_of_run (b := smallBoot true false) (by decide +kernel) hk⟩

/-- There is no room for the argument of the second: its heap stays open when the
process of the first runs. -/
theorem open_after_failed_setup :
    ¬∀ (b : Boot) (as : List KernAct) (k : Kern), run step as (boot b) = some k → k.Isolated := by
  intro h
  obtain ⟨k, hk, hopen⟩ := (Option.any_eq_true _ _).mp (by decide +kernel :
    (run step (acceptTwo .noArg) (boot (smallBoot true false))).any (fun k =>
      decide (k.stage = .running 1 ∧ (k.procs 1).privileged = false ∧ (k.procs 2).isolated = true ∧
        k.pages (k.procs 2).heap.addr = some true)) = true)
  obtain ⟨hstage, hpriv, hiso, hpages⟩ := of_decide_eq_true hopen
  have hmasked := (h _ _ k hk).others 1 hstage hpriv 2 (by decide) hiso
  rw [hpages] at hmasked
  cases hmasked

end Kern

end Vk

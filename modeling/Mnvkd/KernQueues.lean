/-
# `Mnvkd.KernQueues` — the queues of the kernel and their flags

A process is in a queue of the kernel at most once, and only while its flag is
set.  Each queue operation keeps that, and each keeps the converse too, that a
flagged process is in the queue: `exact` says whether it is asked for.  Only a flag
that is set by itself (`Queues.setRun`) needs the process to be in the queue
already.
-/
import Mathlib.Data.List.Count
import Mnvkd.KernFrame

namespace Vk

/-- A process that is `n` times in a queue may have this flag; if `exact`, it is
in the queue where it is flagged. -/
def QueueFits (exact : Prop) (n : Nat) (qed : Bool) : Prop := n ≤ qed.toNat ∧ (exact → n = qed.toNat)

theorem QueueFits.eq_zero {exact : Prop} {n : Nat} (h : QueueFits exact n false) : n = 0 :=
  Nat.le_zero.mp h.1

theorem QueueFits.le_one {exact : Prop} {n : Nat} {qed : Bool} (h : QueueFits exact n qed) : n ≤ 1 :=
  Nat.le_trans h.1 (Bool.toNat_le qed)

theorem QueueFits.of_eq {exact : Prop} {n : Nat} {qed : Bool} (h : n = qed.toNat) : QueueFits exact n qed :=
  ⟨Nat.le_of_eq h, fun _ => h⟩

namespace Sched

/-- The queues have the processes whose flags say so, all of which have memory;
those that are free have none. -/
structure Queues (exact : Prop) (s : Sched) : Prop where
  run : ∀ p, QueueFits exact (s.runProcs.count p) (s.runQed p)
  blocked : ∀ p, QueueFits True (s.blockedProcs.count p) (s.blockedQed p)
  runLive : ∀ p ∈ s.runProcs, s.live p = true
  blockedLive : ∀ p ∈ s.blockedProcs, s.live p = true
  free : ∀ p ∈ s.freeProcs, s.live p = false
  freeNodup : s.freeProcs.Nodup

/-! ## The queue operations -/

/-- `vk_kern_enqueue_run`, of the queue alone. -/
def enqueueRun (s : Sched) (p : Nat) : Sched :=
  if s.runQed p then s
  else { s with runProcs := p :: s.runProcs, runQed := Function.update s.runQed p true }

def enqueueBlocked (s : Sched) (p : Nat) : Sched :=
  if s.blockedQed p then s
  else
    { s with blockedProcs := p :: s.blockedProcs, blockedQed := Function.update s.blockedQed p true }

def dropRun (s : Sched) (p : Nat) : Sched :=
  if s.runQed p then
    { s with runProcs := s.runProcs.erase p, runQed := Function.update s.runQed p false }
  else s

def dropBlocked (s : Sched) (p : Nat) : Sched :=
  if s.blockedQed p then
    { s with blockedProcs := s.blockedProcs.erase p, blockedQed := Function.update s.blockedQed p false }
  else s

/-- `vk_kern_flush_proc_queues`, of a process that has these queues. -/
def flush (s : Sched) (p : Nat) (run blocked : Bool) : Sched :=
  let s := if run then s.enqueueRun p else s.dropRun p
  if blocked then s.enqueueBlocked p else s.dropBlocked p

variable {exact : Prop} {s : Sched} {p : Nat}

/-- A queue that `p` is put into, once its flag is set. -/
theorem fits_cons {queue : List Nat} {qed : Nat → Bool}
    (h : ∀ q, QueueFits exact (queue.count q) (qed q)) (hp : qed p = false) (q : Nat) :
    QueueFits exact ((p :: queue).count q) (Function.update qed p true q) := by
  by_cases hq : q = p
  · subst q
    have hzero := h p
    rw [hp] at hzero
    rw [Function.update_self, List.count_cons_self, hzero.eq_zero]
    exact QueueFits.of_eq rfl
  · rw [Function.update_of_ne hq, List.count_cons_of_ne (Ne.symm hq)]
    exact h q

/-- A queue that `p` is removed from, once its flag is cleared. -/
theorem fits_erase {queue : List Nat} {qed : Nat → Bool}
    (h : ∀ q, QueueFits exact (queue.count q) (qed q)) (q : Nat) :
    QueueFits exact ((queue.erase p).count q) (Function.update qed p false q) := by
  by_cases hq : q = p
  · subst q
    rw [Function.update_self, List.count_erase_self]
    exact QueueFits.of_eq (Nat.sub_eq_zero_of_le (h p).le_one)
  · rw [Function.update_of_ne hq, List.count_erase_of_ne hq]
    exact h q

theorem Queues.enqueueRun (h : s.Queues exact) (hp : s.live p = true) :
    (s.enqueueRun p).Queues exact := by
  unfold Sched.enqueueRun
  split
  · exact h
  · rename_i hqed
    refine { h with run := fits_cons h.run (by simpa using hqed), runLive := fun q hq => ?_ }
    obtain rfl | hq := List.mem_cons.mp hq
    · exact hp
    · exact h.runLive q hq

theorem Queues.enqueueBlocked (h : s.Queues exact) (hp : s.live p = true) :
    (s.enqueueBlocked p).Queues exact := by
  unfold Sched.enqueueBlocked
  split
  · exact h
  · rename_i hqed
    refine { h with blocked := fits_cons h.blocked (by simpa using hqed), blockedLive := fun q hq => ?_ }
    obtain rfl | hq := List.mem_cons.mp hq
    · exact hp
    · exact h.blockedLive q hq

theorem Queues.dropRun (h : s.Queues exact) : (s.dropRun p).Queues exact := by
  unfold Sched.dropRun
  split
  · exact { h with
      run := fits_erase h.run, runLive := fun q hq => h.runLive q (List.mem_of_mem_erase hq) }
  · exact h

theorem Queues.dropBlocked (h : s.Queues exact) : (s.dropBlocked p).Queues exact := by
  unfold Sched.dropBlocked
  split
  · exact { h with
      blocked := fits_erase h.blocked
      blockedLive := fun q hq => h.blockedLive q (List.mem_of_mem_erase hq) }
  · exact h

theorem enqueueRun_live : (s.enqueueRun p).live = s.live := by
  unfold enqueueRun
  split <;> rfl

theorem dropRun_live : (s.dropRun p).live = s.live := by
  unfold dropRun
  split <;> rfl

theorem Queues.flush (h : s.Queues exact) (hp : s.live p = true) (run blocked : Bool) :
    (s.flush p run blocked).Queues exact := by
  unfold Sched.flush
  have hrun : (if run then s.enqueueRun p else s.dropRun p).Queues exact ∧
      (if run then s.enqueueRun p else s.dropRun p).live = s.live := by
    split
    · exact ⟨h.enqueueRun hp, enqueueRun_live⟩
    · exact ⟨h.dropRun, dropRun_live⟩
  dsimp only
  split
  · exact hrun.1.enqueueBlocked (by rw [hrun.2]; exact hp)
  · exact hrun.1.dropBlocked

/-- The blocked queue is nothing to the run queue. -/
theorem flushBlocked_run (s : Sched) (p : Nat) (blocked : Bool) :
    (if blocked then s.enqueueBlocked p else s.dropBlocked p).runProcs = s.runProcs ∧
      (if blocked then s.enqueueBlocked p else s.dropBlocked p).runQed = s.runQed := by
  unfold enqueueBlocked dropBlocked
  split <;> split <;> exact ⟨rfl, rfl⟩

/-- Enqueuing a process whose flag is set does nothing. -/
theorem flush_of_qed (hp : s.runQed p = true) (blocked : Bool) :
    (s.flush p true blocked).runProcs = s.runProcs ∧ (s.flush p true blocked).runQed = s.runQed := by
  unfold flush
  rw [if_pos rfl, enqueueRun, if_pos hp]
  exact flushBlocked_run s p blocked

theorem flush_of_nil (hnil : s.runProcs = []) (blocked : Bool) :
    (s.flush p false blocked).runProcs = [] := by
  have hdrop : (s.dropRun p).runProcs = [] := by
    unfold dropRun
    split
    · show s.runProcs.erase p = []
      rw [hnil]
      rfl
    · exact hnil
  unfold flush
  rw [if_neg Bool.false_ne_true]
  exact (flushBlocked_run _ p blocked).1.trans hdrop

/-- The first process of the run queue is taken off it. -/
theorem Queues.dequeueRun {rest : List Nat} (h : s.Queues exact) (hrun : s.runProcs = p :: rest) :
    Queues exact { s with runProcs := rest, runQed := Function.update s.runQed p false } := by
  have herase : rest = s.runProcs.erase p := by rw [hrun, List.erase_cons_head]
  rw [herase]
  exact { h with
    run := fits_erase h.run, runLive := fun q hq => h.runLive q (List.mem_of_mem_erase hq) }

/-- The flag of a process is set, whose place is in the run queue already if that
is to be told by it. -/
theorem Queues.setRun (h : s.Queues exact) (hp : exact → p ∈ s.runProcs) :
    Queues exact { s with runQed := Function.update s.runQed p true } := by
  refine { h with run := fun q => ?_ }
  dsimp only
  by_cases hq : q = p
  · subst q
    rw [Function.update_self]
    have hle := (h.run p).le_one
    exact ⟨hle, fun he => Nat.le_antisymm hle (List.count_pos_iff.mpr (hp he))⟩
  · rw [Function.update_of_ne hq]
    exact h.run q

/-- A process with its flags clear is in neither queue. -/
theorem Queues.count_eq_zero (h : s.Queues exact) (hrun : s.runQed p = false)
    (hblocked : s.blockedQed p = false) : s.runProcs.count p = 0 ∧ s.blockedProcs.count p = 0 := by
  have hr := h.run p
  have hb := h.blocked p
  rw [hrun] at hr
  rw [hblocked] at hb
  exact ⟨hr.eq_zero, hb.eq_zero⟩

/-- A process in neither queue becomes free. -/
theorem Queues.free_proc (h : s.Queues exact) (hp : s.live p = true) (hrun : s.runQed p = false)
    (hblocked : s.blockedQed p = false) :
    Queues exact { s with
      freeProcs := p :: s.freeProcs
      runQed := Function.update s.runQed p false
      blockedQed := Function.update s.blockedQed p false
      live := Function.update s.live p false } := by
  obtain ⟨hr, hb⟩ := h.count_eq_zero hrun hblocked
  have hother : ∀ q, 0 < s.runProcs.count q ∨ 0 < s.blockedProcs.count q → q ≠ p := by
    rintro q hq rfl
    omega
  have hnot : p ∉ s.freeProcs := fun hmem => by
    rw [h.free p hmem] at hp
    cases hp
  refine ⟨?_, ?_, fun q hq => ?_, fun q hq => ?_, fun q hq => ?_, List.nodup_cons.mpr ⟨hnot, h.freeNodup⟩⟩
  · rw [← hrun, Function.update_eq_self]
    exact h.run
  · rw [← hblocked, Function.update_eq_self]
    exact h.blocked
  · exact (Function.update_of_ne (hother q (Or.inl (List.count_pos_iff.mpr hq))) _ _).trans
      (h.runLive q hq)
  · exact (Function.update_of_ne (hother q (Or.inr (List.count_pos_iff.mpr hq))) _ _).trans
      (h.blockedLive q hq)
  · dsimp only
    rw [Function.update_apply]
    split
    · rfl
    · rename_i hqp
      exact h.free q ((List.mem_cons.mp hq).resolve_left hqp)

/-- A free process is taken. -/
theorem Queues.take_free {rest : List Nat} (h : s.Queues exact) (hfree : s.freeProcs = p :: rest) :
    Queues exact { s with freeProcs := rest } ∧ s.live p = false ∧ p ∉ rest := by
  have hnodup := List.nodup_cons.mp (hfree ▸ h.freeNodup)
  refine ⟨{ h with free := fun q hq => ?_, freeNodup := hnodup.2 }, h.free p ?_, hnodup.1⟩
  · exact h.free q (by rw [hfree]; exact List.mem_cons_of_mem _ hq)
  · rw [hfree]
    exact List.mem_cons_self

/-- `vk_proc_init`: a process gets its memory, with its flags clear. -/
def initProc (s : Sched) (p : Nat) : Sched :=
  { s with
    runQed := Function.update s.runQed p false
    blockedQed := Function.update s.blockedQed p false
    live := Function.update s.live p true }

theorem Queues.initProc (h : s.Queues exact) (hdead : s.live p = false) (hfree : p ∉ s.freeProcs) :
    (s.initProc p).Queues exact := by
  have hrun : p ∉ s.runProcs := fun hmem => by
    rw [h.runLive p hmem] at hdead
    cases hdead
  have hblocked : p ∉ s.blockedProcs := fun hmem => by
    rw [h.blockedLive p hmem] at hdead
    cases hdead
  have hne : ∀ {q : Nat} {queue : List Nat}, p ∉ queue → q ∈ queue → q ≠ p := by
    rintro q queue hp hq rfl
    exact hp hq
  have hfits : ∀ {exact : Prop} {queue : List Nat} {qed : Nat → Bool}, p ∉ queue →
      (∀ q, QueueFits exact (queue.count q) (qed q)) →
      ∀ q, QueueFits exact (queue.count q) (Function.update qed p false q) := by
    intro exact queue qed hp hfits q
    rw [← List.erase_of_not_mem hp]
    exact fits_erase hfits q
  refine ⟨hfits hrun h.run, hfits hblocked h.blocked, fun q hq => ?_, fun q hq => ?_, fun q hq => ?_,
    h.freeNodup⟩
  · exact (Function.update_of_ne (hne hrun hq) _ _).trans (h.runLive q hq)
  · exact (Function.update_of_ne (hne hblocked hq) _ _).trans (h.blockedLive q hq)
  · exact (Function.update_of_ne (hne hfree hq) _ _).trans (h.free q hq)

end Sched

namespace Kern

/-! ## The kernel's functions -/

section Equations
variable (k : Kern) (p : Nat)

theorem enqueueRun_sched : (k.enqueueRun p).sched = k.sched.enqueueRun p := by
  unfold enqueueRun Sched.enqueueRun
  by_cases h : (k.procs p).runQed = true
  · rw [if_pos h, if_pos (show k.sched.runQed p = true from h)]
  · rw [if_neg h, if_neg (show ¬k.sched.runQed p = true from h), sched_updProc]
    simp only [sched, Function.update_eq_self_iff.mpr]

theorem enqueueBlocked_sched : (k.enqueueBlocked p).sched = k.sched.enqueueBlocked p := by
  unfold enqueueBlocked Sched.enqueueBlocked
  by_cases h : (k.procs p).blockedQed = true
  · rw [if_pos h, if_pos (show k.sched.blockedQed p = true from h)]
  · rw [if_neg h, if_neg (show ¬k.sched.blockedQed p = true from h), sched_updProc]
    simp only [sched, Function.update_eq_self_iff.mpr]

theorem dropRun_sched : (k.dropRun p).sched = k.sched.dropRun p := by
  unfold dropRun Sched.dropRun
  by_cases h : (k.procs p).runQed = true
  · rw [if_pos h, if_pos (show k.sched.runQed p = true from h), sched_updProc]
    simp only [sched, Function.update_eq_self_iff.mpr]
  · rw [if_neg h, if_neg (show ¬k.sched.runQed p = true from h)]

theorem dropBlocked_sched : (k.dropBlocked p).sched = k.sched.dropBlocked p := by
  unfold dropBlocked Sched.dropBlocked
  by_cases h : (k.procs p).blockedQed = true
  · rw [if_pos h, if_pos (show k.sched.blockedQed p = true from h), sched_updProc]
    simp only [sched, Function.update_eq_self_iff.mpr]
  · rw [if_neg h, if_neg (show ¬k.sched.blockedQed p = true from h)]

variable {k p}

theorem flushProcQueues_sched {l : Local} (hl : (k.procs p).localPtr = some l) :
    (k.flushProcQueues p).sched = k.sched.flush p l.pl.run l.pl.blocked := by
  simp only [flushProcQueues, hl, Sched.flush]
  cases l.pl.run <;> cases l.pl.blocked <;>
    simp [enqueueRun_sched, enqueueBlocked_sched, dropRun_sched, dropBlocked_sched]

variable (k p)

theorem setRun_sched (run : Bool) :
    (k.setRun p run).sched = { k.sched with runQed := Function.update k.sched.runQed p run } := by
  rw [setRun, sched_updProc]
  simp only [sched, Function.update_eq_self_iff.mpr]

theorem freeProc_sched :
    (k.freeProc p).sched = { k.sched with
      freeProcs := p :: k.sched.freeProcs
      runQed := Function.update k.sched.runQed p false
      blockedQed := Function.update k.sched.blockedQed p false
      live := Function.update k.sched.live p false } := by
  have hset := setPolled_sched k p (k.polled p ProcLocal.init).prepollZombie
  unfold freeProc
  generalize k.setPolled p _ = k₁ at hset ⊢
  have hpool : ∀ k₂ : Kern, k₂.sched = k.sched →
      ({ k₂ with freeProcs := p :: k₂.freeProcs }.updProc p fun _ => KernProc.clear).sched =
        { k.sched with
          freeProcs := p :: k.sched.freeProcs
          runQed := Function.update k.sched.runQed p false
          blockedQed := Function.update k.sched.blockedQed p false
          live := Function.update k.sched.live p false } := by
    intro k₂ hk₂
    rw [sched_updProc, ← hk₂]
    rfl
  dsimp only
  cases (k₁.procs p).pool with
  | none => exact hpool _ hset
  | some e => exact hpool _ ((heapExit_sched _ p).trans hset)

end Equations

variable {exact : Prop} {k : Kern} {p : Nat}

theorem queues_flush (h : k.sched.Queues exact) (hp : k.Live p) :
    (k.flushProcQueues p).sched.Queues exact := by
  obtain ⟨l, hl⟩ := Option.isSome_iff_exists.mp hp
  rw [flushProcQueues_sched hl]
  exact h.flush hp _ _

/-- Processes that are queued or not by the flush of another are as they were. -/
theorem mem_flush_of_ne {q : Nat} (hq : q ≠ p) :
    q ∈ (k.flushProcQueues p).runProcs ↔ q ∈ k.runProcs := by
  unfold flushProcQueues
  cases hl : (k.procs p).localPtr with
  | none => exact Iff.rfl
  | some l =>
      have hrun : ∀ k : Kern, q ∈ (if l.pl.run then k.enqueueRun p else k.dropRun p).runProcs ↔
          q ∈ k.runProcs := by
        intro k
        split
        · unfold enqueueRun
          split
          · exact Iff.rfl
          · exact List.mem_cons.trans (or_iff_right hq)
        · unfold dropRun
          split
          · exact List.mem_erase_of_ne hq
          · exact Iff.rfl
      have hblocked : ∀ k : Kern,
          (if l.pl.blocked then k.enqueueBlocked p else k.dropBlocked p).runProcs = k.runProcs := by
        intro k
        unfold enqueueBlocked dropBlocked
        split <;> split <;> rfl
      dsimp only
      rw [hblocked]
      exact hrun (k.touch p)

/-- A process that is woken is in the run queue already, if its flag is to tell. -/
theorem queues_wakeProc (h : k.sched.Queues exact) (hp : exact → p ∈ k.runProcs) :
    (k.wakeProc p).sched.Queues exact := by
  unfold wakeProc
  cases hl : (k.procs p).localPtr with
  | none => exact h
  | some l =>
      have hlive : k.Live p := by rw [Live, hl]; rfl
      have hset : ((k.setRun p true).touch p).sched.Queues exact := by
        rw [touch_sched, setRun_sched]
        exact h.setRun hp
      have hlocal : ∀ l : Local,
          ((((k.setRun p true).touch p).setLocal p l).flushProcQueues p).sched.Queues exact := by
        intro l
        refine queues_flush ?_ ?_
        · rw [setLocal_sched (live_setRun hlive)]
          exact hset
        · rw [Live, setLocal, updProc_procs_self]
          rfl
      dsimp only
      split
      · exact hlocal _
      · exact hlocal _

theorem mem_wakeProc_of_ne {q : Nat} (hq : q ≠ p) :
    q ∈ (k.wakeProc p).runProcs ↔ q ∈ k.runProcs := by
  unfold wakeProc
  cases hl : (k.procs p).localPtr with
  | none => exact Iff.rfl
  | some l =>
      dsimp only
      split
      · exact mem_flush_of_ne hq
      · exact mem_flush_of_ne hq

theorem queues_prepoll (h : k.sched.Queues exact)
    (hwake : exact → k.shutdownRequested = true → ∀ p ∈ k.blockedProcs, p ∈ k.runProcs) :
    k.prepoll.sched.Queues exact := by
  have hnodup : k.blockedProcs.Nodup :=
    List.nodup_iff_count_le_one.mpr fun p => (h.blocked p).le_one
  have hqueues : ([] : List Nat).Nodup ∧ k.prepoll.sched.Queues exact ∧
      (exact → ∀ p ∈ [], p ∈ k.prepoll.runProcs) := by
    refine prepoll_invariant k (I := fun ps k => ps.Nodup ∧ k.sched.Queues exact ∧
      (exact → ∀ p ∈ ps, p ∈ k.runProcs)) ?_
      (fun hshutdown => ⟨hnodup, h, fun he => hwake he hshutdown⟩) ⟨List.nodup_nil, h, fun _ => nofun⟩
    rintro p ps k ⟨hnodup, h, hps⟩
    have hnodup := List.nodup_cons.mp hnodup
    refine ⟨hnodup.2, queues_wakeProc h fun he => hps he p List.mem_cons_self, fun he q hq => ?_⟩
    have hqp : q ≠ p := by
      rintro rfl
      exact hnodup.1 hq
    exact (mem_wakeProc_of_ne hqp).mpr (hps he q (List.mem_cons_of_mem _ hq))
  exact hqueues.2.1

theorem queues_dequeueRun (h : k.sched.Queues exact) : k.dequeueRun.sched.Queues exact := by
  unfold dequeueRun
  cases hrun : k.runProcs with
  | nil =>
      dsimp only
      split
      · rw [setStage_sched, dump_sched]
        exact h
      · exact h
  | cons p rest =>
      have hq := h.dequeueRun (p := p) hrun
      dsimp only
      rw [sched_updProc]
      simp only [sched, Function.update_eq_self_iff.mpr] at hq ⊢
      exact hq

theorem queues_freeProc (h : k.sched.Queues exact) (hp : k.Live p) (hzombie : (k.procs p).isZombie = true) :
    (k.freeProc p).sched.Queues exact := by
  rw [KernProc.isZombie, Bool.not_eq_true', Bool.or_eq_false_iff] at hzombie
  rw [freeProc_sched]
  exact h.free_proc hp hzombie.1 hzombie.2

end Kern

end Vk

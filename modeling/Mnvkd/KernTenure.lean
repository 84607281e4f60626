/-
# `Mnvkd.KernTenure` — who has a process slot and its heap

A process takes a slot from the free list and a heap, of its own or from the server's
pool.  When it is a zombie the dispatcher gives both up, once (`tenure_step`): as long
as the loop runs a slot is on the free list or a live process's, and a heap is unmapped
or goes back to its pool with the process that had it (`Once`).

After the loop `vk_main_init` and `vk_server_init` free their first process, which the
dispatcher has freed when it became a zombie.  Its slot is then on the list twice.
-/
import Mnvkd.KernIsolation

namespace Vk

open Lib

/-- Which slots and which heaps of the pool are free, and what each process has: whether
it is live, where its heap is, and of which entry of the pool.  `mapped`: there are
pages at an address. -/
structure Tenure where
  freeProcs : List Nat
  freeEntries : List Nat
  live : Nat → Bool
  addr : Nat → Nat
  pool : Nat → Option Nat
  mapped : Nat → Bool
  entryAddr : Nat → Nat

namespace Tenure

/-- A slot or a heap has at most one holder. -/
structure Single (t : Tenure) : Prop where
  once : t.freeProcs.Nodup
  dead : ∀ p ∈ t.freeProcs, t.live p = false
  told : ∀ p, t.live p = true → t.mapped (t.addr p) = true
  apart : ∀ p q, t.live p = true → t.live q = true → t.addr p = t.addr q → p = q
  entryOnce : t.freeEntries.Nodup
  entryFree : ∀ e ∈ t.freeEntries, ∀ p, t.live p = true → t.addr p ≠ t.entryAddr e

/-- From `t` to `t'` a process that dies gives up its slot and its heap, and no heap goes
otherwise. -/
structure Once (t t' : Tenure) : Prop where
  slot : ∀ p, t.live p = true → t'.live p = false → p ∈ t'.freeProcs
  heap : ∀ p, t.live p = true → t'.live p = false →
    t'.mapped (t.addr p) = false ∧ t'.freeEntries = t.freeEntries ∨
      t'.mapped = t.mapped ∧ ∃ e, t.pool p = some e ∧ e ∉ t.freeEntries ∧
        t'.freeEntries = e :: t.freeEntries
  unmapped : ∀ a, t.mapped a = true → t'.mapped a = false →
    ∃ p, t.live p = true ∧ t'.live p = false ∧ t.addr p = a
  returned : ∀ e, e ∈ t'.freeEntries → e ∉ t.freeEntries →
    ∃ p, t.live p = true ∧ t'.live p = false ∧ t.pool p = some e

/-- The invariant. -/
structure Sound (t : Tenure) : Prop extends t.Single where
  entryApart : ∀ e f, t.entryAddr e = t.entryAddr f → e = f
  entryMapped : ∀ e ∈ t.freeEntries, t.mapped (t.entryAddr e) = true
  pooled : ∀ p, t.live p = true → ∀ e, t.pool p = some e → t.addr p = t.entryAddr e
  unpooled : ∀ p, t.live p = false → t.pool p = none

/-- A process leaves its slot. -/
def vacate (t : Tenure) (p : Nat) (mapped : Nat → Bool) (freeEntries : List Nat) : Tenure :=
  { t with
    freeProcs := p :: t.freeProcs
    live := Function.update t.live p false
    addr := Function.update t.addr p 0
    pool := Function.update t.pool p none
    mapped, freeEntries }

/-- A process takes the first free slot. -/
def settle (t : Tenure) (p : Nat) (rest : List Nat) (addr : Nat) (pool : Option Nat)
    (mapped : Nat → Bool) (freeEntries : List Nat) : Tenure :=
  { t with
    freeProcs := rest
    live := Function.update t.live p true
    addr := Function.update t.addr p addr
    pool := Function.update t.pool p pool
    mapped, freeEntries }

/-- What can become of slots and heaps: a heap is unmapped or goes back to the pool with
its process, a slot is taken with a heap that is mapped for it or one of the pool, or
with none, and a slot that was taken with none is freed. -/
inductive Edit (t : Tenure) : Tenure → Prop
  | keep : Edit t t
  | unmap (p : Nat) (hlive : t.live p = true) :
      Edit t (t.vacate p (Function.update t.mapped (t.addr p) false) t.freeEntries)
  | giveBack (p e : Nat) (hlive : t.live p = true) (hpool : t.pool p = some e) :
      Edit t (t.vacate p t.mapped (e :: t.freeEntries))
  | map (p a : Nat) (rest : List Nat) (hfree : t.freeProcs = p :: rest) (ha : t.mapped a = false) :
      Edit t (t.settle p rest a none (Function.update t.mapped a true) t.freeEntries)
  | take (p e : Nat) (rest entries : List Nat) (hfree : t.freeProcs = p :: rest)
      (he : t.freeEntries = e :: entries) :
      Edit t (t.settle p rest (t.entryAddr e) (some e) t.mapped entries)
  | lose (p a : Nat) (rest : List Nat) (hfree : t.freeProcs = p :: rest) :
      Edit t { t with freeProcs := rest, addr := Function.update t.addr p a }
  | regain (p : Nat) (hdead : t.live p = false) (hfree : p ∉ t.freeProcs) :
      Edit t { t with freeProcs := p :: t.freeProcs, addr := Function.update t.addr p 0 }

variable {t t' : Tenure} {p : Nat}

/-- The entry of a live process is not free. -/
theorem Sound.entry_not_free (h : t.Sound) (hp : t.live p = true) {e : Nat} (he : t.pool p = some e) :
    e ∉ t.freeEntries :=
  fun hfree => h.entryFree e hfree p hp (h.pooled p hp e he)

theorem live_update {b : Bool} {q : Nat} :
    Function.update t.live p b q = true ↔ q = p ∧ b = true ∨ q ≠ p ∧ t.live q = true := by
  by_cases hq : q = p
  · subst hq
    rw [Function.update_self]
    exact ⟨fun h => Or.inl ⟨rfl, h⟩, fun h => (h.resolve_right fun h => h.1 rfl).2⟩
  · rw [Function.update_of_ne hq]
    exact ⟨fun h => Or.inr ⟨hq, h⟩, fun h => (h.resolve_left fun h => hq h.1).2⟩

/-- A slot that is left is free, and its heap no other process's. -/
theorem Sound.vacate (h : t.Sound) (hp : t.live p = true) {mapped : Nat → Bool} {entries : List Nat}
    (hmapped : ∀ a, a ≠ t.addr p → mapped a = t.mapped a) (honce : entries.Nodup)
    (hentries : ∀ e ∈ entries, mapped (t.entryAddr e) = true ∧
      ∀ q, q ≠ p → t.live q = true → t.addr q ≠ t.entryAddr e) :
    (t.vacate p mapped entries).Sound := by
  have hnot : p ∉ t.freeProcs := fun hfree => Bool.false_ne_true ((h.dead p hfree).symm.trans hp)
  have hother : ∀ q, Function.update t.live p false q = true → q ≠ p ∧ t.live q = true := by
    intro q hq
    obtain ⟨-, hfalse⟩ | hq := live_update.mp hq
    · cases hfalse
    · exact hq
  refine ⟨⟨List.nodup_cons.mpr ⟨hnot, h.once⟩, fun q hq => ?_, fun q hq => ?_,
    fun q r hq hr hqr => ?_, honce, fun e he q hq => ?_⟩, h.entryApart, fun e he => (hentries e he).1,
    fun q hq e he => ?_, fun q hq => ?_⟩
  · obtain rfl | hq := List.mem_cons.mp hq
    · exact Function.update_self _ _ _
    · exact (Function.update_of_ne (ne_of_mem_of_not_mem hq hnot) _ _).trans (h.dead q hq)
  · obtain ⟨hqp, hq⟩ := hother q hq
    show mapped (Function.update t.addr p 0 q) = true
    rw [Function.update_of_ne hqp, hmapped _ fun ha => hqp (h.apart q p hq hp ha)]
    exact h.told q hq
  · obtain ⟨hqp, hq⟩ := hother q hq
    obtain ⟨hrp, hr⟩ := hother r hr
    have hqr : Function.update t.addr p 0 q = Function.update t.addr p 0 r := hqr
    rw [Function.update_of_ne hqp, Function.update_of_ne hrp] at hqr
    exact h.apart q r hq hr hqr
  · obtain ⟨hqp, hq⟩ := hother q hq
    show Function.update t.addr p 0 q ≠ _
    rw [Function.update_of_ne hqp]
    exact (hentries e he).2 q hqp hq
  · obtain ⟨hqp, hq⟩ := hother q hq
    have he : Function.update t.pool p none q = some e := he
    show Function.update t.addr p 0 q = _
    rw [Function.update_of_ne hqp] at he ⊢
    exact h.pooled q hq e he
  · show Function.update t.pool p none q = none
    have hq : Function.update t.live p false q = false := hq
    by_cases hqp : q = p
    · rw [hqp, Function.update_self]
    · rw [Function.update_of_ne hqp] at hq ⊢
      exact h.unpooled q hq

/-- A slot that is taken is a live process's, with a heap that was no process's. -/
theorem Sound.settle (h : t.Sound) {rest : List Nat} (hfree : t.freeProcs = p :: rest) {a : Nat}
    {pool : Option Nat} {mapped : Nat → Bool} {entries : List Nat}
    (hmapped : ∀ b, t.mapped b = true → mapped b = true) (ha : mapped a = true)
    (hapart : ∀ q, t.live q = true → t.addr q ≠ a) (hpool : ∀ e, pool = some e → a = t.entryAddr e)
    (honce : entries.Nodup) (hentries : ∀ e ∈ entries, e ∈ t.freeEntries ∧ t.entryAddr e ≠ a) :
    (t.settle p rest a pool mapped entries).Sound := by
  have hnodup := List.nodup_cons.mp (hfree ▸ h.once)
  have hrest : ∀ q ∈ rest, q ≠ p ∧ t.live q = false := fun q hq =>
    ⟨ne_of_mem_of_not_mem hq hnodup.1, h.dead q (hfree ▸ List.mem_cons_of_mem p hq)⟩
  refine ⟨⟨hnodup.2, fun q hq => ?_, fun q hq => ?_, fun q r hq hr hqr => ?_, honce,
    fun e he q hq => ?_⟩, h.entryApart, fun e he => hmapped _ (h.entryMapped e (hentries e he).1),
    fun q hq e he => ?_, fun q hq => ?_⟩
  · exact (Function.update_of_ne (hrest q hq).1 _ _).trans (hrest q hq).2
  · show mapped (Function.update t.addr p a q) = true
    obtain ⟨rfl, -⟩ | ⟨hqp, hq⟩ := live_update.mp hq
    · rw [Function.update_self]
      exact ha
    · rw [Function.update_of_ne hqp]
      exact hmapped _ (h.told q hq)
  · have hqr : Function.update t.addr p a q = Function.update t.addr p a r := hqr
    obtain ⟨rfl, -⟩ | ⟨hqp, hq'⟩ := live_update.mp hq
    · obtain ⟨rfl, -⟩ | ⟨hrq, hr'⟩ := live_update.mp hr
      · rfl
      · rw [Function.update_self, Function.update_of_ne hrq] at hqr
        exact absurd hqr.symm (hapart r hr')
    · obtain ⟨rfl, -⟩ | ⟨hrp, hr'⟩ := live_update.mp hr
      · rw [Function.update_self, Function.update_of_ne hqp] at hqr
        exact absurd hqr (hapart q hq')
      · rw [Function.update_of_ne hqp, Function.update_of_ne hrp] at hqr
        exact h.apart q r hq' hr' hqr
  · show Function.update t.addr p a q ≠ _
    obtain ⟨rfl, -⟩ | ⟨hqp, hq⟩ := live_update.mp hq
    · rw [Function.update_self]
      exact (hentries e he).2.symm
    · rw [Function.update_of_ne hqp]
      exact h.entryFree e (hentries e he).1 q hq
  · have he : Function.update t.pool p pool q = some e := he
    show Function.update t.addr p a q = _
    obtain ⟨rfl, -⟩ | ⟨hqp, hq⟩ := live_update.mp hq
    · rw [Function.update_self] at he ⊢
      exact hpool e he
    · rw [Function.update_of_ne hqp] at he ⊢
      exact h.pooled q hq e he
  · have hq : Function.update t.live p true q = false := hq
    show Function.update t.pool p pool q = none
    by_cases hqp : q = p
    · rw [hqp, Function.update_self] at hq
      cases hq
    · rw [Function.update_of_ne hqp] at hq ⊢
      exact h.unpooled q hq

/-- Where the heap of a process that is not live is thought to be does not matter. -/
theorem Sound.of_dead (h : t.Sound) (hdead : t.live p = false) {freeProcs : List Nat}
    (honce : freeProcs.Nodup) (hfree : ∀ q ∈ freeProcs, t.live q = false) (a : Nat) :
    Sound { t with freeProcs, addr := Function.update t.addr p a } := by
  have haddr : ∀ q, t.live q = true → Function.update t.addr p a q = t.addr q := by
    intro q hq
    refine Function.update_of_ne ?_ _ _
    rintro rfl
    exact Bool.false_ne_true (hdead.symm.trans hq)
  refine ⟨⟨honce, hfree, fun q hq => ?_, fun q r hq hr hqr => ?_, h.entryOnce, fun e he q hq => ?_⟩,
    h.entryApart, h.entryMapped, fun q hq e he => ?_, h.unpooled⟩
  · show t.mapped (Function.update t.addr p a q) = true
    rw [haddr q hq]
    exact h.told q hq
  · have hqr : Function.update t.addr p a q = Function.update t.addr p a r := hqr
    rw [haddr q hq, haddr r hr] at hqr
    exact h.apart q r hq hr hqr
  · show Function.update t.addr p a q ≠ _
    rw [haddr q hq]
    exact h.entryFree e he q hq
  · show Function.update t.addr p a q = _
    rw [haddr q hq]
    exact h.pooled q hq e he

/-- Each edit keeps the invariant. -/
theorem Sound.edit (h : t.Sound) (he : t.Edit t') : t'.Sound := by
  cases he with
  | keep => exact h
  | unmap p hlive =>
      refine h.vacate hlive (fun a ha => Function.update_of_ne ha _ _) h.entryOnce fun e he => ⟨?_, ?_⟩
      · rw [Function.update_of_ne (h.entryFree e he p hlive).symm]
        exact h.entryMapped e he
      · exact fun q _ hq => h.entryFree e he q hq
  | giveBack p e hlive hpool =>
      have hnot := h.entry_not_free hlive hpool
      refine h.vacate hlive (fun _ _ => rfl) (List.nodup_cons.mpr ⟨hnot, h.entryOnce⟩) fun f hf => ?_
      obtain rfl | hf := List.mem_cons.mp hf
      · rw [← h.pooled p hlive f hpool]
        exact ⟨h.told p hlive, fun q hqp hq ha => hqp (h.apart q p hq hlive ha)⟩
      · exact ⟨h.entryMapped f hf, fun q _ hq => h.entryFree f hf q hq⟩
  | map p a rest hfree ha =>
      have hne : ∀ b, t.mapped b = true → b ≠ a := by
        rintro b hb rfl
        exact Bool.false_ne_true (ha.symm.trans hb)
      refine h.settle hfree (fun b hb => ?_) (Function.update_self _ _ _)
        (fun q hq => hne _ (h.told q hq)) nofun h.entryOnce
        fun e he => ⟨he, hne _ (h.entryMapped e he)⟩
      rw [Function.update_of_ne (hne b hb)]
      exact hb
  | take p e rest entries hfree he =>
      have hmem : e ∈ t.freeEntries := he ▸ List.mem_cons_self
      have hnodup := List.nodup_cons.mp (he ▸ h.entryOnce)
      refine h.settle hfree (fun _ => id) (h.entryMapped e hmem) (h.entryFree e hmem)
        (fun f hf => by rw [Option.some.inj hf]) hnodup.2 fun f hf => ⟨?_, fun ha => ?_⟩
      · exact he ▸ List.mem_cons_of_mem e hf
      · exact hnodup.1 (h.entryApart f e ha ▸ hf)
  | lose p a rest hfree =>
      have hnodup := List.nodup_cons.mp (hfree ▸ h.once)
      exact h.of_dead (h.dead p (hfree ▸ List.mem_cons_self)) hnodup.2
        (fun q hq => h.dead q (hfree ▸ List.mem_cons_of_mem p hq)) a
  | regain p hdead hfree =>
      refine h.of_dead hdead (List.nodup_cons.mpr ⟨hfree, h.once⟩) (fun q hq => ?_) 0
      obtain rfl | hq := List.mem_cons.mp hq
      · exact hdead
      · exact h.dead q hq

/-- Nobody dies, no heap is unmapped and none goes back to the pool. -/
theorem Once.of_none (hlive : ∀ p, t.live p = true → t'.live p = true)
    (hmapped : ∀ a, t.mapped a = true → t'.mapped a = true)
    (hentries : ∀ e ∈ t'.freeEntries, e ∈ t.freeEntries) : Once t t' where
  slot p hp hd := absurd (hlive p hp) (by rw [hd]; exact Bool.false_ne_true)
  heap p hp hd := absurd (hlive p hp) (by rw [hd]; exact Bool.false_ne_true)
  unmapped a ha hd := absurd (hmapped a ha) (by rw [hd]; exact Bool.false_ne_true)
  returned e he hnot := absurd (hentries e he) hnot

/-- The process that dies is `p`. -/
theorem dies_vacate {mapped : Nat → Bool} {entries : List Nat} {q : Nat} (hq : t.live q = true)
    (hd : (t.vacate p mapped entries).live q = false) : q = p := by
  by_contra hqp
  have hd : Function.update t.live p false q = false := hd
  rw [Function.update_of_ne hqp, hq] at hd
  cases hd

/-- Each edit gives up the heaps of the processes that die, and no other. -/
theorem Sound.once_of_edit (h : t.Sound) (he : t.Edit t') : Once t t' := by
  cases he with
  | keep => exact .of_none (fun _ => id) (fun _ => id) fun _ => id
  | unmap p hlive =>
      refine ⟨fun q hq hd => ?_, fun q hq hd => ?_, fun a ha hd => ?_, fun e he hnot => absurd he hnot⟩
      · rw [dies_vacate hq hd]
        exact List.mem_cons_self
      · rw [dies_vacate hq hd]
        exact Or.inl ⟨Function.update_self _ _ _, rfl⟩
      · refine ⟨p, hlive, Function.update_self _ _ _, ?_⟩
        by_contra hne
        have hd : Function.update t.mapped (t.addr p) false a = false := hd
        rw [Function.update_of_ne (Ne.symm hne), ha] at hd
        cases hd
  | giveBack p e hlive hpool =>
      refine ⟨fun q hq hd => ?_, fun q hq hd => ?_, fun a ha hd => ?_, fun f hf hnot => ?_⟩
      · rw [dies_vacate hq hd]
        exact List.mem_cons_self
      · rw [dies_vacate hq hd]
        exact Or.inr ⟨rfl, e, hpool, h.entry_not_free hlive hpool, rfl⟩
      · exact absurd (ha.symm.trans hd) (by decide)
      · obtain rfl | hf := List.mem_cons.mp hf
        · exact ⟨p, hlive, Function.update_self _ _ _, hpool⟩
        · exact absurd hf hnot
  | map p a rest hfree ha =>
      refine .of_none (fun q hq => ?_) (fun b hb => ?_) fun _ => id
      · exact live_update.mpr ((eq_or_ne q p).imp (⟨·, rfl⟩) (⟨·, hq⟩))
      · show Function.update t.mapped a true b = true
        rw [Function.update_apply]
        split
        · rfl
        · exact hb
  | take p e rest entries hfree he =>
      refine .of_none (fun q hq => ?_) (fun _ => id) fun f hf => ?_
      · exact live_update.mpr ((eq_or_ne q p).imp (⟨·, rfl⟩) (⟨·, hq⟩))
      · exact he ▸ List.mem_cons_of_mem e hf
  | lose p a rest hfree => exact .of_none (fun _ => id) (fun _ => id) fun _ => id
  | regain p hdead hfree => exact .of_none (fun _ => id) (fun _ => id) fun _ => id

end Tenure

/-! ## The kernel's slots and heaps -/

namespace Heaps
variable {h : Heaps} {freeProcs : List Nat} {p : Nat}

def tenure (h : Heaps) (freeProcs : List Nat) : Tenure where
  freeProcs := freeProcs
  freeEntries := h.freeEntries
  live := h.live
  addr := fun p => (h.heap p).addr
  pool := h.pool
  mapped := fun a => (h.pages a).isSome
  entryAddr := fun e => (h.entryHeap e).addr

/-- What has pages does not depend on their protection. -/
theorem tenure_congr {h' : Heaps} (hentries : h'.freeEntries = h.freeEntries)
    (hlive : h'.live = h.live) (haddr : ∀ q, (h'.heap q).addr = (h.heap q).addr)
    (hpool : h'.pool = h.pool) (hpages : ∀ a, h'.pages a = none ↔ h.pages a = none)
    (hentry : h'.entryHeap = h.entryHeap) : h'.tenure freeProcs = h.tenure freeProcs := by
  have hmapped : (fun a => (h'.pages a).isSome) = fun a => (h.pages a).isSome := by
    funext a
    rw [Bool.eq_iff_iff, Option.isSome_iff_ne_none, Option.isSome_iff_ne_none]
    exact not_congr (hpages a)
  rw [tenure, tenure, hentries, hlive, hpool, hentry, hmapped, funext haddr]

theorem tenure_setProt (prot : Bool) : (h.setProt p prot).tenure freeProcs = h.tenure freeProcs :=
  tenure_congr rfl rfl (setProt_addr prot) rfl (fun a => Heap.setProt_snd_eq_none _ _ _ a) rfl

theorem tenure_kernEnter : h.kernEnter.tenure freeProcs = h.tenure freeProcs :=
  tenure_congr rfl rfl (fun _ => rfl) rfl (fun a => Heap.setProt_snd_eq_none _ _ _ a) rfl

theorem tenure_kernExit : h.kernExit.tenure freeProcs = h.tenure freeProcs :=
  tenure_congr rfl rfl (fun _ => rfl) rfl (fun a => Heap.setProt_snd_eq_none _ _ _ a) rfl

/-- The dispatcher frees a zombie. -/
theorem edit_free (hp : h.live p = true) :
    (h.tenure freeProcs).Edit ((h.free p).tenure (p :: freeProcs)) := by
  have haddr : (fun q => (Function.update h.heap p Heap.cleared q).addr) =
      Function.update (fun q => (h.heap q).addr) p 0 := by
    funext q
    rw [Function.update_apply, Function.update_apply]
    split <;> rfl
  cases hpool : h.pool p with
  | none =>
      have hmapped : (fun a => (h.pages.munmap (h.heap p).addr a).isSome) =
          Function.update (fun a => (h.pages a).isSome) (h.heap p).addr false := by
        funext a
        rw [Pages.munmap_apply, Function.update_apply]
        split <;> rfl
      have hfree : (h.free p).tenure (p :: freeProcs) = (h.tenure freeProcs).vacate p
          (Function.update (fun a => (h.pages a).isSome) (h.heap p).addr false) h.freeEntries := by
        simp only [free, hpool, clear, tenure, Tenure.vacate, haddr, hmapped]
      rw [hfree]
      exact .unmap p hp
  | some e =>
      have hmapped : (fun a => (((h.heap p).exit h.pages).2 a).isSome) =
          fun a => (h.pages a).isSome := by
        funext a
        rw [Bool.eq_iff_iff, Option.isSome_iff_ne_none, Option.isSome_iff_ne_none]
        exact not_congr (Heap.setProt_snd_eq_none _ _ _ a)
      have hfree : (h.free p).tenure (p :: freeProcs) = (h.tenure freeProcs).vacate p
          (fun a => (h.pages a).isSome) (e :: h.freeEntries) := by
        simp only [free, hpool, clear, tenure, Tenure.vacate, haddr, hmapped]
      rw [hfree]
      exact .giveBack p e hp hpool

/-- Sound heaps have one holder each. -/
theorem Sound.tenure (hs : h.Sound) (honce : freeProcs.Nodup)
    (hdead : ∀ p ∈ freeProcs, h.live p = false) : (h.tenure freeProcs).Sound where
  once := honce
  dead := hdead
  told p hp := by
    show (h.pages (h.heap p).addr).isSome = true
    rw [hs.told p hp]
    rfl
  apart := hs.apart
  entryOnce := hs.entryNodup
  entryFree := hs.entryFree
  entryApart := hs.entryApart
  entryMapped e he := Option.isSome_iff_ne_none.mpr (hs.entryMapped e he)
  pooled := hs.pooled
  unpooled p hp := (hs.dead p hp).1

end Heaps

namespace Kern

def tenure (k : Kern) : Tenure := k.heaps.tenure k.freeProcs

section Equations
variable (k : Kern) (p : Nat)

variable {k} in
theorem tenure_of {k' : Kern} (hheaps : k'.heaps = k.heaps) (hfree : k'.freeProcs = k.freeProcs) :
    k'.tenure = k.tenure := by
  rw [tenure, tenure, hheaps, hfree]

theorem tenure_touch : (k.touch p).tenure = k.tenure := rfl

theorem tenure_heapEnter : (k.heapEnter p).tenure = k.tenure := by
  rw [tenure, heapEnter_heaps, Heaps.tenure_setProt]
  rfl

theorem tenure_heapExit : (k.heapExit p).tenure = k.tenure := by
  rw [tenure, heapExit_heaps, Heaps.tenure_setProt]
  rfl

theorem tenure_kernEnter : k.kernEnter.tenure = k.tenure := by
  rw [tenure, kernEnter_heaps, Heaps.tenure_kernEnter]
  rfl

theorem tenure_kernExit : k.kernExit.tenure = k.tenure := by
  rw [tenure, kernExit_heaps, Heaps.tenure_kernExit]
  rfl

theorem tenure_updProc (f : KernProc → KernProc) :
    (k.updProc p f).tenure = { k.tenure with
      live := Function.update k.tenure.live p (f (k.procs p)).localPtr.isSome
      addr := Function.update k.tenure.addr p (f (k.procs p)).heap.addr
      pool := Function.update k.tenure.pool p (f (k.procs p)).pool } := by
  have haddr : (fun q => (Function.update k.heaps.heap p (f (k.procs p)).heap q).addr) =
      Function.update (fun q => (k.heaps.heap q).addr) p (f (k.procs p)).heap.addr := by
    funext q
    rw [Function.update_apply, Function.update_apply]
    split <;> rfl
  rw [tenure, heaps_updProc]
  simp only [Heaps.tenure, haddr]
  rfl

theorem enqueueRun_freeProcs : (k.enqueueRun p).freeProcs = k.freeProcs := by
  simp only [enqueueRun]
  split <;> rfl

theorem enqueueBlocked_freeProcs : (k.enqueueBlocked p).freeProcs = k.freeProcs := by
  simp only [enqueueBlocked]
  split <;> rfl

theorem dropRun_freeProcs : (k.dropRun p).freeProcs = k.freeProcs := by
  simp only [dropRun]
  split <;> rfl

theorem dropBlocked_freeProcs : (k.dropBlocked p).freeProcs = k.freeProcs := by
  simp only [dropBlocked]
  split <;> rfl

theorem tenure_enqueueRun : (k.enqueueRun p).tenure = k.tenure :=
  tenure_of (enqueueRun_heaps k p) (enqueueRun_freeProcs k p)

theorem flushProcQueues_freeProcs : (k.flushProcQueues p).freeProcs = k.freeProcs := by
  simp only [flushProcQueues]
  cases (k.procs p).localPtr with
  | none => rfl
  | some l =>
      dsimp only
      split <;> split <;>
        simp only [enqueueRun_freeProcs, enqueueBlocked_freeProcs, dropRun_freeProcs,
          dropBlocked_freeProcs, touch]

theorem tenure_flushProcQueues : (k.flushProcQueues p).tenure = k.tenure :=
  tenure_of (flushProcQueues_heaps k p) (flushProcQueues_freeProcs k p)

theorem tenure_dump : k.dump.tenure = k.tenure := by
  refine dump_view k tenure fun k p => dumpProc_view k p tenure rfl ?_
  rw [tenure_heapExit]
  exact tenure_heapEnter k p

theorem tenure_dequeueFresh : k.dequeueFresh.tenure = k.tenure :=
  dequeueFresh_unchanged k tenure tenure_enqueueRun

theorem tenure_dequeueRun : k.dequeueRun.tenure = k.tenure := by
  simp only [dequeueRun]
  cases k.runProcs with
  | nil =>
      dsimp only
      split
      · exact tenure_dump k
      · rfl
  | cons p rest =>
      exact tenure_of (heaps_updProc_of (k := { k with runProcs := rest, stage := .taken p })
        rfl rfl rfl rfl rfl) rfl

theorem tenure_prepoll : k.prepoll.tenure = k.tenure := by
  have hwake : ∀ (k : Kern) (p : Nat), (k.wakeProc p).tenure = k.tenure := by
    intro k p
    refine tenure_of (wakeProc_heaps k p) ?_
    simp only [wakeProc]
    cases (k.procs p).localPtr with
    | none => rfl
    | some l =>
        dsimp only
        split
        · exact flushProcQueues_freeProcs _ p
        · exact flushProcQueues_freeProcs _ p
  exact prepoll_unchanged k tenure hwake

variable {k p}

theorem tenure_setLocal {l : Local} (h : k.Live p) : (k.setLocal p l).tenure = k.tenure :=
  tenure_of (setLocal_heaps h) rfl

/-! ## Zombies -/

theorem edit_freeProc (h : k.Live p) : k.tenure.Edit (k.freeProc p).tenure := by
  have hfree : (k.freeProc p).freeProcs = p :: k.freeProcs :=
    congrArg Sched.freeProcs (freeProc_sched k p)
  rw [tenure, tenure, freeProc_heaps, hfree]
  exact Heaps.edit_free h

theorem edit_afterExecute (h : k.Live p) : k.tenure.Edit (k.afterExecute p).tenure := by
  have hflush := tenure_flushProcQueues k p
  have hlive : (k.flushProcQueues p).Live p := (congrFun (congrArg Tenure.live hflush) p).trans h
  simp only [afterExecute]
  split
  · rw [← hflush]
    exact edit_freeProc hlive
  · split
    · have hexit := tenure_heapExit (k.flushProcQueues p) p
      exact (hexit.trans hflush).symm ▸ .keep
    · exact hflush.symm ▸ .keep

theorem edit_execute (h : k.Live p) (postpoll : Option Local) :
    k.tenure.Edit (k.execute p postpoll).tenure := by
  obtain ⟨l, hl⟩ := Option.isSome_iff_exists.mp h
  simp only [execute, hl]
  generalize (if l.pl.runningCr.isSome then some { l with pl := l.pl.raiseSignal.1 } else postpoll) = l'
  cases l' with
  | none => exact edit_afterExecute (k := k.touch p) h
  | some l' =>
      have hset : (((k.touch p).setLocal p l').heapEnter p).tenure = k.tenure :=
        (tenure_heapEnter _ p).trans (tenure_setLocal (k := k.touch p) h)
      dsimp only
      split
      · exact hset.symm ▸ .keep
      · exact ((tenure_kernExit _).trans hset).symm ▸ .keep

theorem tenure_prepollProc : (k.prepollProc p).tenure = k.tenure := by
  refine tenure_of (prepollProc_heaps k p) ?_
  simp only [prepollProc]
  split <;> rfl

theorem edit_leave (h : k.Live p) (rc : Int) : k.tenure.Edit (k.leave p rc).tenure := by
  have henter : (if (k.procs p).privileged then k else k.kernEnter).tenure = k.tenure := by
    split
    · rfl
    · exact tenure_kernEnter k
  simp only [leave]
  generalize (if (k.procs p).privileged then k else k.kernEnter) = k₁ at henter
  have hlive : k₁.Live p := (congrFun (congrArg Tenure.live henter) p).trans h
  rw [← henter]
  split
  · exact edit_afterExecute hlive
  · have hprepoll : (k₁.prepollProc p).tenure = k₁.tenure := tenure_prepollProc
    rw [← hprepoll]
    exact edit_afterExecute ((congrFun (congrArg Tenure.live hprepoll) p).trans hlive)

/-! ## The listener -/

/-- What has become of a dead process `p` in an attempt to give it a heap. -/
def Allots (p : Nat) (t : Tenure) (alloc : Kern × Bool) : Prop :=
  if alloc.2 then
    (∃ a, t.mapped a = false ∧ alloc.1.tenure = t.settle p t.freeProcs a none
      (Function.update t.mapped a true) t.freeEntries) ∨
    ∃ e entries, t.freeEntries = e :: entries ∧
      alloc.1.tenure = t.settle p t.freeProcs (t.entryAddr e) (some e) t.mapped entries
  else ∃ a, alloc.1.tenure = { t with addr := Function.update t.addr p a }

theorem Allots.of_addr {t : Tenure} {b : Nat} {alloc : Kern × Bool}
    (h : Allots p { t with addr := Function.update t.addr p b } alloc) : Allots p t alloc := by
  have hidem : ∀ a, Function.update (Function.update t.addr p b) p a = Function.update t.addr p a :=
    fun a => Function.update_idem _ _ _
  simp only [Allots, Tenure.settle, hidem] at h ⊢
  exact h

theorem allots_initPrivate (hpool : k.tenure.pool p = none) (mapped : Option Nat) :
    Allots p k.tenure (k.initPrivate p mapped) := by
  have hfail : Allots p k.tenure (k, false) := by
    refine ⟨k.tenure.addr p, ?_⟩
    rw [Function.update_eq_self]
  cases mapped with
  | none => exact hfail
  | some a =>
      simp only [initPrivate]
      split
      · rename_i hfree
        refine Or.inl ⟨a, congrArg Option.isSome hfree, ?_⟩
        have hmapped : (fun b => (k.pages.mmap a true b).isSome) =
            Function.update (fun b => (k.pages b).isSome) a true := by
          funext b
          rw [Pages.mmap_apply, Function.update_apply]
          split <;> rfl
        have hpool : (k.procs p).pool = none := hpool
        show (Kern.touch (Kern.updProc _ _ _) _).tenure = _
        rw [tenure_touch, tenure_updProc]
        show Tenure.mk _ _ _ _ (Function.update _ p (k.procs p).pool)
          (fun b => (k.pages.mmap a true b).isSome) _ = _
        rw [hmapped, hpool]
        rfl
      · exact hfail

theorem tenure_takeEntry (k : Kern) (p e : Nat) (rest : List Nat) :
    (k.takeEntry p e rest).tenure = { k.tenure with
      freeEntries := rest
      addr := Function.update k.tenure.addr p (k.tenure.entryAddr e) } := by
  rw [takeEntry, tenure_heapEnter, tenure_updProc]
  show Tenure.mk _ _ (Function.update k.tenure.live p (k.tenure.live p)) _
    (Function.update k.tenure.pool p (k.tenure.pool p)) _ _ = _
  rw [Function.update_eq_self, Function.update_eq_self]
  rfl

theorem allots_allocFromPool (hdead : k.tenure.live p = false) (fits : Bool) :
    Allots p k.tenure (k.allocFromPool p fits) := by
  cases hfree : k.freeEntries with
  | nil =>
      rw [allocFromPool, hfree]
      refine ⟨k.tenure.addr p, ?_⟩
      rw [Function.update_eq_self]
  | cons e rest =>
      have henter := tenure_takeEntry k p e rest
      rw [allocFromPool_eq hfree]
      generalize k.takeEntry p e rest = k₁ at henter
      have haddr : (k₁.procs p).heap.addr = k.tenure.entryAddr e := by
        show k₁.tenure.addr p = _
        rw [henter]
        exact Function.update_self _ _ _
      split
      · refine Or.inr ⟨e, rest, hfree, ?_⟩
        show (Kern.touch (Kern.updProc _ _ _) _).tenure = _
        rw [tenure_touch, tenure_updProc]
        show Tenure.mk k₁.tenure.freeProcs k₁.tenure.freeEntries (Function.update k₁.tenure.live p true)
          (Function.update k₁.tenure.addr p (k₁.procs p).heap.addr)
          (Function.update k₁.tenure.pool p (some e)) k₁.tenure.mapped k₁.tenure.entryAddr = _
        rw [haddr, henter, Function.update_idem]
        rfl
      · refine ⟨k.tenure.entryAddr e, ?_⟩
        rw [tenure_updProc]
        show Tenure.mk k₁.tenure.freeProcs (e :: rest) (Function.update k₁.tenure.live p false)
          (Function.update k₁.tenure.addr p (k₁.procs p).heap.addr)
          (Function.update k₁.tenure.pool p (k₁.tenure.pool p)) k₁.tenure.mapped k₁.tenure.entryAddr = _
        rw [haddr, henter, Function.update_idem, Function.update_eq_self, ← hdead,
          Function.update_eq_self, ← hfree]
        rfl

theorem allots_allocHeap (hdead : k.tenure.live p = false) (hpool : k.tenure.pool p = none)
    (a : Accept) : Allots p k.tenure (k.allocHeap p a) := by
  simp only [allocHeap]
  split
  · have hallots := allots_allocFromPool hdead a.fits
    split
    · exact hallots
    · rename_i hfail
      rw [Allots, if_neg hfail] at hallots
      obtain ⟨b, hb⟩ := hallots
      have hpool' : (k.allocFromPool p a.fits).1.tenure.pool p = none := by
        rw [hb]
        exact hpool
      have hprivate := allots_initPrivate hpool' a.mapped
      rw [hb] at hprivate
      exact hprivate.of_addr
  · exact allots_initPrivate hpool a.mapped

theorem tenure_setupProc (h : k.Live p) (a : Accept) : (k.setupProc p a).tenure = k.tenure := by
  have htenure : (k.openProc p a).tenure = k.tenure := by
    rw [openProc, tenure_touch, tenure_heapEnter, tenure_updProc]
    show Tenure.mk _ _ (Function.update k.tenure.live p (k.tenure.live p))
      (Function.update k.tenure.addr p (k.tenure.addr p))
      (Function.update k.tenure.pool p (k.tenure.pool p)) _ _ = _
    rw [Function.update_eq_self, Function.update_eq_self, Function.update_eq_self]
  have hlocal : ∀ l, ((k.openProc p a).setLocal p l).tenure = k.tenure :=
    fun l => (tenure_setLocal (openProc_live a h)).trans htenure
  rw [setupProc_eq]
  cases a.setup with
  | noThread => exact htenure
  | noArg => exact hlocal _
  | played =>
      exact (tenure_heapExit _ p).trans ((tenure_flushProcQueues _ p).trans (hlocal _))

theorem edit_accept (h : k.tenure.Sound) (a : Accept) : k.tenure.Edit (k.accept a).tenure := by
  simp only [accept]
  cases hfree : k.freeProcs with
  | nil => exact .keep
  | cons p rest =>
      have hmem : p ∈ k.tenure.freeProcs := by
        show p ∈ k.freeProcs
        rw [hfree]
        exact List.mem_cons_self
      have hdead : k.tenure.live p = false := h.dead p hmem
      have hallots := allots_allocHeap (k := { k with freeProcs := rest }) hdead
        (h.unpooled p hdead) a
      dsimp only
      split
      · rename_i hok
        rw [Allots, if_pos hok] at hallots
        have hlive : (({ k with freeProcs := rest } : Kern).allocHeap p a).1.Live p := by
          obtain ⟨b, -, heq⟩ | ⟨e, es, -, heq⟩ := hallots
          · exact (congrFun (congrArg Tenure.live heq) p).trans (Function.update_self _ _ _)
          · exact (congrFun (congrArg Tenure.live heq) p).trans (Function.update_self _ _ _)
        rw [tenure_setupProc hlive]
        obtain ⟨b, hb, heq⟩ | ⟨e, es, he, heq⟩ := hallots
        · rw [heq]
          exact .map (t := k.tenure) p b rest hfree hb
        · rw [heq]
          exact .take (t := k.tenure) p e rest es hfree he
      · rename_i hfail
        rw [Allots, if_neg hfail] at hallots
        obtain ⟨b, heq⟩ := hallots
        rw [heq]
        exact .lose (t := k.tenure) p b rest hfree

/-- **A step of the loop.**  Slots and heaps are taken and given up one at a time, a heap
with its process. -/
theorem tenure_step {k' : Kern} {a : KernAct} (hsound : k.Sound False) (h : k.tenure.Sound)
    (hst : step a k = some k') : k.tenure.Edit k'.tenure := by
  cases steps_of_step hst with
  | dequeueFresh hstage => exact (tenure_dequeueFresh k).symm ▸ .keep
  | dequeueRun hstage => exact (tenure_dequeueRun k).symm ▸ .keep
  | signal signo hstage =>
      cases signo with
      | term => exact .keep
      | usr1 => exact (tenure_dump k).symm ▸ .keep
  | dispatch p kernHd postpoll hstage =>
      have hlive : k.Live p := hsound.current p (by rw [hstage]; rfl)
      have henter := tenure_heapEnter k p
      rw [← henter]
      exact edit_execute (k := { k.heapEnter p with
        kernHd := kernHd, dispatched := p :: (k.heapEnter p).dispatched })
        ((congrFun (congrArg Tenure.live henter) p).trans hlive) postpoll
  | compute p l hstage =>
      exact (tenure_setLocal (hsound.current p (by rw [hstage]; rfl))).symm ▸ .keep
  | accept p a hstage hkern => exact edit_accept h a
  | fault p postpoll hstage =>
      have hlive : k.Live p := hsound.current p (by rw [hstage]; rfl)
      have henter : ((k.kernEnter.heapEnter p).touch p).tenure = k.tenure :=
        (tenure_heapEnter _ p).trans (tenure_kernEnter k)
      rw [← henter]
      exact edit_execute ((congrFun (congrArg Tenure.live henter) p).trans hlive) postpoll
  | leave p rc hstage => exact edit_leave (hsound.current p (by rw [hstage]; rfl)) rc
  | prepoll hstage => exact (tenure_prepoll k).symm ▸ .keep
  | poll revents hstage => exact .keep
  | pollError hstage => exact .keep

end Equations

/-- The end of `vk_main_init` and `vk_server_init`: `vk_proc_free`, which unmaps a heap
that the descriptor owns, and `vk_kern_free_proc`.  A descriptor that has been cleared
owns none. -/
def teardown (k : Kern) : Kern :=
  let k :=
    if (k.procs 0).heap.protInside then { k with pages := k.pages.munmap (k.procs 0).heap.addr }
    else k
  { k with freeProcs := 0 :: k.freeProcs }.updProc 0 fun _ => KernProc.clear

end Kern

/-! ## Whole runs -/

/-- A kernel, with whether its loop has failed, and whether what comes after the loop is
over. -/
structure Main where
  kern : Kern
  failed : Bool
  done : Bool

inductive MainAct where
  | loop (a : KernAct)
  | teardown

/-- The loop has failed with the poller. -/
def KernAct.fails : KernAct → Bool
  | .pollError => true
  | _ => false

namespace Main

/-- `vk_main_init` and `vk_server_init` alike, up to the loop. -/
def start (b : Boot) : Main := ⟨Kern.boot b, false, false⟩

/-- One step of the loop, or what comes after one that has not failed. -/
def step : MainAct → Main → Option Main
  | .loop a, m =>
      if m.done then none
      else (Kern.step a m.kern).map fun k => { m with kern := k, failed := m.failed || a.fails }
  | .teardown, m =>
      if m.kern.stage = .stop ∧ m.failed = false ∧ m.done = false then
        some { m with kern := m.kern.teardown, done := true }
      else none

/-- Slots and heaps have one holder each, before and after a step that lets each heap go
once; the slot that `vk_kern_alloc_proc` would return is no live process's. -/
structure Held (a : MainAct) (m : Main) : Prop where
  single : m.kern.tenure.Single
  alloc : ∀ p ∈ m.kern.freeProcs.head?, ¬m.kern.Live p
  step : ∀ m', Main.step a m = some m' → m'.kern.tenure.Single ∧ m.kern.tenure.Once m'.kern.tenure

/-- When it is freed after the loop, the slot of the first process is not free, and has a
heap just if the process is live. -/
def FirstLeft : MainAct → Main → Prop
  | .teardown, m =>
      0 ∉ m.kern.freeProcs ∧ ((m.kern.procs 0).heap.protInside = true ↔ m.kern.Live 0)
  | .loop _, _ => True

instance (k : Kern) (p : Nat) : Decidable (k.Live p) := inferInstanceAs (Decidable (_ = true))

instance : (a : MainAct) → (m : Main) → Decidable (FirstLeft a m)
  | .teardown, m =>
      inferInstanceAs (Decidable (0 ∉ m.kern.freeProcs ∧
        ((m.kern.procs 0).heap.protInside = true ↔ m.kern.Live 0)))
  | .loop _, _ => instDecidableTrue

/-- The invariant.  Until the first process is freed after the loop, the kernel's own
holds too. -/
structure Sound (m : Main) : Prop where
  tenure : m.kern.tenure.Sound
  kern : m.done = false → m.kern.Sound False

variable {m m' : Main} {a : MainAct}

theorem edit_teardown (h : m.kern.tenure.Sound) (hfirst : FirstLeft .teardown m) :
    m.kern.tenure.Edit m.kern.teardown.tenure := by
  obtain ⟨hfree, howned⟩ := hfirst
  by_cases hlive : m.kern.Live 0
  · have hmapped : (fun a => (m.kern.pages.munmap (m.kern.procs 0).heap.addr a).isSome) =
        Function.update (fun a => (m.kern.pages a).isSome) (m.kern.procs 0).heap.addr false := by
      funext a
      rw [Pages.munmap_apply, Function.update_apply]
      split <;> rfl
    have hteardown : m.kern.teardown.tenure = m.kern.tenure.vacate 0
        (Function.update m.kern.tenure.mapped (m.kern.tenure.addr 0) false)
        m.kern.tenure.freeEntries := by
      simp only [Kern.teardown, if_pos (howned.mpr hlive)]
      rw [Kern.tenure_updProc]
      show Tenure.mk _ _ _ _ _ (fun a => (m.kern.pages.munmap (m.kern.procs 0).heap.addr a).isSome) _ = _
      rw [hmapped]
      rfl
    rw [hteardown]
    exact .unmap 0 hlive
  · have hdead : m.kern.tenure.live 0 = false := Bool.eq_false_iff.mpr hlive
    have hteardown : m.kern.teardown.tenure = { m.kern.tenure with
        freeProcs := 0 :: m.kern.tenure.freeProcs
        addr := Function.update m.kern.tenure.addr 0 0 } := by
      simp only [Kern.teardown, if_neg (mt howned.mp hlive)]
      rw [Kern.tenure_updProc]
      show Tenure.mk _ _ (Function.update m.kern.tenure.live 0 false) _
        (Function.update m.kern.tenure.pool 0 none) _ _ = _
      rw [← hdead, ← h.unpooled 0 hdead, Function.update_eq_self, Function.update_eq_self]
      rfl
    rw [hteardown]
    exact .regain 0 hdead hfree

/-- Every step that meets the condition is an edit, and keeps the invariant. -/
theorem Sound.step (h : m.Sound) (hfirst : FirstLeft a m) (hst : Main.step a m = some m') :
    m.kern.tenure.Edit m'.kern.tenure ∧ m'.Sound := by
  cases a with
  | loop a =>
      simp only [Main.step] at hst
      split at hst
      · cases hst
      · rename_i hdone
        obtain ⟨k', hk', rfl⟩ := Option.map_eq_some_iff.mp hst
        have hkern := h.kern (Bool.eq_false_iff.mpr hdone)
        have hedit := Kern.tenure_step hkern h.tenure hk'
        exact ⟨hedit, h.tenure.edit hedit, fun _ => Kern.sound_step hkern False.elim hk'⟩
  | teardown =>
      obtain ⟨-, hm'⟩ := Option.ite_none_right_eq_some.mp hst
      cases hm'
      have hedit := edit_teardown h.tenure hfirst
      exact ⟨hedit, h.tenure.edit hedit, nofun⟩

theorem Sound.held (h : m.Sound) (hfirst : FirstLeft a m) : Held a m where
  single := h.tenure.toSingle
  alloc p hp hlive := by
    have hdead := h.tenure.dead p (List.mem_of_mem_head? hp)
    exact Bool.false_ne_true (hdead.symm.trans hlive)
  step m' hst := by
    obtain ⟨hedit, hsound⟩ := h.step hfirst hst
    exact ⟨hsound.tenure.toSingle, h.tenure.once_of_edit hedit⟩

theorem sound_start (b : Boot) : (start b).Sound where
  tenure :=
    have hqueues := (@Kern.sound_boot False b).queues
    (Kern.boot_heaps b).1.sound.tenure hqueues.freeNodup hqueues.free
  kern _ := Kern.sound_boot b

/-- **Who has a slot, and a heap.**  In every run of `vk_main_init` or `vk_server_init`
in which the slot of the first process is not free when it is freed after the loop, each
slot and each heap has one holder at most, and a heap goes once, with its process. -/
theorem held_of_run (b : Boot) (acts : List MainAct)
    (hfirst : Meets step FirstLeft acts (start b)) : Meets step Held acts (start b) :=
  hfirst.imp (fun _ _ _ h hC hst => (h.step hC hst).2) (fun _ _ h hC => h.held hC) (sound_start b)

/-- Two connections are accepted, and their processes die after the first. -/
def acceptTwoEnd : List MainAct :=
  (Kern.acceptTwo .played).map .loop ++ [.loop (.compute Local.init), .loop (.leave 0),
    .loop .dequeueRun, .loop (.dispatch Heap.cleared (some Local.init)), .loop (.leave 0)]

theorem held_of_run_acceptTwoEnd : ∃ m,
    run step acceptTwoEnd (start (Kern.smallBoot true false)) = some m ∧
      m.kern.freeProcs = [1, 2, 0] ∧
      Meets step Held acceptTwoEnd (start (Kern.smallBoot true false)) := by
  obtain ⟨m, hm, hfree⟩ := (Option.any_eq_true _ _).mp (by decide +kernel :
    (run step acceptTwoEnd (start (Kern.smallBoot true false))).any
      (fun m => decide (m.kern.freeProcs = [1, 2, 0])) = true)
  exact ⟨m, hm, of_decide_eq_true hfree, held_of_run _ _ (by decide +kernel)⟩

/-- The first process ends at once, and so does the loop. -/
def endAtOnce : List MainAct :=
  [.loop .dequeueFresh, .loop .dequeueRun, .loop (.dispatch Heap.cleared (some Local.init)),
    .loop (.compute Local.init), .loop (.leave 0), .loop .dequeueRun, .loop .prepoll,
    .loop (.poll fun _ => 0), .loop .dequeueFresh, .loop .dequeueRun]

/-- Then its slot is freed once more. -/
theorem first_freed_twice :
    ¬∀ (b : Boot) (acts : List MainAct), Meets step Held acts (start b) := by
  intro h
  obtain ⟨m, hm, hstep⟩ := (Option.any_eq_true _ _).mp (by decide +kernel :
    (run step endAtOnce (start (Kern.smallBoot true false))).any (fun m =>
      (step .teardown m).any fun m' => decide (m'.kern.freeProcs = [0, 0, 1, 2])) = true)
  obtain ⟨m', hm', hfree⟩ := (Option.any_eq_true _ _).mp hstep
  have hheld : Held .teardown m :=
    Meets.of_run (h (Kern.smallBoot true false) (endAtOnce ++ [.teardown])) hm
  have honce : m'.kern.freeProcs.Nodup := (hheld.step m' hm').1.once
  rw [of_decide_eq_true hfree] at honce
  exact absurd honce (by decide)

end Main

end Vk

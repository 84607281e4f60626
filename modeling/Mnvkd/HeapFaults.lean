/-
# `Mnvkd.HeapFaults` — heaps whose protection may fail to change

In `Mnvkd.Heap` every `mprotect(2)` succeeds.  Here each of them may fail, and leaves the
pages as they are when it does.  A descriptor's `mapping.prot` is both what a call is
skipped by and what is handed to the system, and it is written before the system answers.

Descriptors are copied, and a copy is not told what is done through another.  So whether
a record is true is asked of the descriptor a call was made on, and there are two answers:
one for any number of descriptors of one mapping, and one for a mapping with one descriptor.

| | |
| :-- | :-- |
| `Truthful` | after a call the record is what the pages have |
| `Effective` | the call changes the pages, or they have the protection already |
| `Succeeds` | if the call asks the system, the system does it |
-/
import Mnvkd.Heap
import Mnvkd.Sys
import Mnvkd.Lib.Run

namespace Vk

open Lib

/-- The flags of a protection, an `int`. -/
abbrev Prot := BitVec 32

namespace Prot
def PROT_NONE : Prot := 0
def PROT_READ : Prot := 1
def PROT_WRITE : Prot := 2
end Prot

open Prot

/-- `struct mmapping`, as far as it changes or is looked at. -/
structure Mmapping where
  retval : Nat
  len : Nat
  prot : Prot
  deriving DecidableEq, Repr

/-- `struct vk_heap`, without its stack. -/
structure HeapDesc where
  mapping : Mmapping
  owned : Bool
  protInside : Prot
  protOutside : Prot
  deriving DecidableEq, Repr

namespace HeapDesc

/-- What `vk_heap_map` and `vk_heap_buf` make of a mapping. -/
def describe (retval len : Nat) (prot : Prot) (owned entered : Bool) : HeapDesc :=
  let inside := prot ||| PROT_READ ||| PROT_WRITE
  ⟨⟨retval, len, if entered then inside else prot⟩, owned, inside, prot⟩

inductive Call where
  | enter
  | exit
  deriving DecidableEq, Repr

/-- What a call is for. -/
def target (hd : HeapDesc) : Call → Prot
  | .enter => hd.protInside
  | .exit => hd.protOutside

/-- A call that is not skipped. -/
def Asks (hd : HeapDesc) (c : Call) : Prop := hd.mapping.prot ≠ hd.target c

instance (hd : HeapDesc) (c : Call) : Decidable (hd.Asks c) :=
  inferInstanceAs (Decidable (_ ≠ _))

def record (hd : HeapDesc) (prot : Prot) : HeapDesc :=
  { hd with mapping := { hd.mapping with prot } }

/-- What `vk_heap_enter` and `vk_heap_exit` share.  `answer` is the system's, if it is
asked. -/
def setProt (prot : Prot) (answer : SysResult Unit) (hd : HeapDesc) (real : Prot) :
    SysResult Unit × HeapDesc × Prot :=
  if hd.mapping.prot ≠ prot then
    -- recorded first, and kept when the call fails
    match answer with
    | .err e => (.err e, hd.record prot, real)
    | .ok () => (.ok (), hd.record prot, prot)
  else (.ok (), hd, real)

/-- `vk_heap_enter`. -/
def enter (hd : HeapDesc) (answer : SysResult Unit) (real : Prot) :
    SysResult Unit × HeapDesc × Prot :=
  hd.setProt hd.protInside answer real

/-- `vk_heap_exit`. -/
def exit (hd : HeapDesc) (answer : SysResult Unit) (real : Prot) :
    SysResult Unit × HeapDesc × Prot :=
  hd.setProt hd.protOutside answer real

def call (hd : HeapDesc) (c : Call) (answer : SysResult Unit) (real : Prot) :
    SysResult Unit × HeapDesc × Prot :=
  match c with
  | .enter => hd.enter answer real
  | .exit => hd.exit answer real

section Calls
variable (hd : HeapDesc) (c : Call) (answer : SysResult Unit) (real : Prot)

theorem call_eq : hd.call c answer real = hd.setProt (hd.target c) answer real := by
  cases c <;> rfl

theorem call_of_not_asks (h : ¬hd.Asks c) : hd.call c answer real = (.ok (), hd, real) := by
  rw [call_eq]
  exact if_neg h

theorem call_of_ok (h : hd.Asks c) :
    hd.call c (.ok ()) real = (.ok (), hd.record (hd.target c), hd.target c) := by
  rw [call_eq]
  exact if_pos h

theorem call_of_err (h : hd.Asks c) (e : Errno) :
    hd.call c (.err e) real = (.err e, hd.record (hd.target c), real) := by
  rw [call_eq]
  exact if_pos h

/-- What a call is for is recorded, whatever became of it. -/
theorem call_prot : (hd.call c answer real).2.1.mapping.prot = hd.target c := by
  by_cases h : hd.Asks c
  · cases answer with
    | ok _ =>
        rw [call_of_ok hd c real h]
        rfl
    | err e =>
        rw [call_of_err hd c real h]
        rfl
  · rw [call_of_not_asks hd c answer real h]
    exact Decidable.not_not.mp h

/-- The pages change if the system is asked and does it. -/
theorem call_real : (hd.call c answer real).2.2 =
    if hd.Asks c ∧ answer = .ok () then hd.target c else real := by
  by_cases h : hd.Asks c
  · cases answer with
    | ok _ => rw [call_of_ok hd c real h, if_pos ⟨h, rfl⟩]
    | err e => rw [call_of_err hd c real h, if_neg (fun hok => by cases hok.2)]
  · rw [call_of_not_asks hd c answer real h, if_neg (fun hok => h hok.1)]

end Calls

/-! ## A heap that never fails -/

section Shown
variable {hd : HeapDesc} {real : Prot} {pages : Pages}

/-- `vk_heap_entered`. -/
def entered (hd : HeapDesc) : Bool := hd.mapping.prot == hd.protInside

/-- The heap that only tells whether access is allowed. -/
def heap (hd : HeapDesc) : Heap := ⟨hd.mapping.retval, hd.entered, true, false⟩

/-- The descriptor is of a heap that is either entered or left, and its pages are mapped
as `real` has them. -/
structure Shown (hd : HeapDesc) (real : Prot) (pages : Pages) : Prop where
  differ : hd.protInside ≠ hd.protOutside
  prot : hd.mapping.prot = hd.protInside ∨ hd.mapping.prot = hd.protOutside
  pages : pages hd.mapping.retval = some (real == hd.protInside)

/-- The heap's call, where no call fails. -/
def heapCall (hd : Heap) (pages : Pages) : Call → Heap × Pages
  | .enter => hd.enter pages
  | .exit => hd.exit pages

theorem Shown.asks_iff (h : Shown hd real pages) (c : Call) :
    hd.Asks c ↔ hd.heap.prot ≠ (hd.target c == hd.protInside) := by
  have hdiffer := h.differ
  have hdiffer' := hdiffer.symm
  cases c <;> obtain hin | hout := h.prot <;> simp_all [Asks, heap, entered, target]

theorem heapCall_eq (hd : HeapDesc) (pages : Pages) (c : Call) (h : Shown hd real pages) :
    heapCall hd.heap pages c = hd.heap.setProt (hd.target c == hd.protInside) pages := by
  have hdiffer' := h.differ.symm
  cases c with
  | enter =>
      show hd.heap.setProt true pages = _
      rw [show (hd.target .enter == hd.protInside) = true from beq_self_eq_true _]
  | exit =>
      show hd.heap.setProt false pages = _
      rw [show (hd.target .exit == hd.protInside) = false from beq_eq_false_iff_ne.mpr hdiffer']

/-- Where the system does what it is asked a call does what the heap's call does. -/
theorem Shown.call (h : Shown hd real pages) (c : Call) :
    (hd.call c (.ok ()) real).2.1.heap = (heapCall hd.heap pages c).1 ∧
      Shown (hd.call c (.ok ()) real).2.1 (hd.call c (.ok ()) real).2.2
        (heapCall hd.heap pages c).2 := by
  rw [heapCall_eq hd pages c h]
  by_cases hasks : hd.Asks c
  · rw [call_of_ok hd c real hasks]
    refine ⟨?_, h.differ, ?_, ?_⟩
    · rw [Heap.setProt_fst]
      rfl
    · cases c with
      | enter => exact Or.inl rfl
      | exit => exact Or.inr rfl
    · have hne := (h.asks_iff c).mp hasks
      simp only [Heap.setProt, if_pos hne]
      show pages.mprotect hd.mapping.retval _ hd.mapping.retval = _
      rw [Pages.mprotect_apply, if_pos rfl, h.pages]
      rfl
  · rw [call_of_not_asks hd c (.ok ()) real hasks]
    have heq := Decidable.not_not.mp fun hne => hasks ((h.asks_iff c).mpr hne)
    have hsame : hd.heap.setProt (hd.target c == hd.protInside) pages = (hd.heap, pages) := by
      simp only [Heap.setProt, heq, ne_eq, not_true_eq_false, if_false]
    rw [hsame]
    exact ⟨rfl, h⟩

end Shown

end HeapDesc

/-! ## Many descriptors of one mapping -/

/-- What the pages of a mapping have, and its descriptors. -/
structure Mapped where
  real : Prot
  desc : Nat → HeapDesc

namespace Mapped

open HeapDesc (Call)

/-- `vk_heap_map`, where `mmap(2)` gave the pages what was recorded; every descriptor to
come is a copy of this one. -/
def map (retval len : Nat) (prot : Prot) (entered : Bool) : Mapped :=
  let hd := HeapDesc.describe retval len prot true entered
  ⟨hd.mapping.prot, fun _ => hd⟩

/-- A call on a descriptor, with what the system answers if it is asked; or a descriptor
is copied. -/
inductive Action where
  | call (who : Nat) (c : Call) (answer : SysResult Unit)
  | copy (src dst : Nat)

def step : Action → Mapped → Option Mapped
  | .call who c answer, m =>
      let r := (m.desc who).call c answer m.real
      some ⟨r.2.2, Function.update m.desc who r.2.1⟩
  | .copy src dst, m => some { m with desc := Function.update m.desc dst (m.desc src) }

/-- After a call the record of its descriptor is what the pages have, so that the next call
is skipped only where there is nothing to do. -/
def Truthful (a : Action) (m : Mapped) : Prop :=
  ∀ who c answer, a = .call who c answer → ∀ m', step a m = some m' →
    (m'.desc who).mapping.prot = m'.real ∧
      ∀ d, (m'.desc who).Asks d ↔ m'.real ≠ (m'.desc who).target d

/-- The system is asked and does it, or the pages have the protection already. -/
def Effective (a : Action) (m : Mapped) : Prop :=
  ∀ who c answer, a = .call who c answer →
    ((m.desc who).Asks c ∧ answer = .ok ()) ∨ m.real = (m.desc who).target c

/-- If the system is asked it does it. -/
def Succeeds (a : Action) (m : Mapped) : Prop :=
  ∀ who c answer, a = .call who c answer → (m.desc who).Asks c → answer = .ok ()

section Calls
variable {m m' : Mapped} {a : Action}

/-- What is skipped where the record is true is done. -/
theorem asks_iff {hd : HeapDesc} {real : Prot} (h : hd.mapping.prot = real) (d : Call) :
    hd.Asks d ↔ real ≠ hd.target d := by
  rw [← h]
  exact Iff.rfl

theorem truthful_iff_effective (a : Action) (m : Mapped) : Truthful a m ↔ Effective a m := by
  cases a with
  | copy src dst =>
      exact iff_of_true (fun _ _ _ h => nomatch h) (fun _ _ _ h => nomatch h)
  | call who c answer =>
      constructor
      · rintro h _ _ _ ⟨⟩
        obtain ⟨hprot, -⟩ := h who c answer rfl _ rfl
        simp only [Function.update_self, HeapDesc.call_prot, HeapDesc.call_real] at hprot
        split at hprot
        · rename_i hok
          exact Or.inl hok
        · exact Or.inr hprot.symm
      · rintro h _ _ _ ⟨⟩ m' hstep
        cases hstep
        have hreal : (m.desc who).target c = ((m.desc who).call c answer m.real).2.2 := by
          rw [HeapDesc.call_real]
          split
          · rfl
          · rename_i hok
            exact ((h who c answer rfl).resolve_left hok).symm
        have hprot : ((m.desc who).call c answer m.real).2.1.mapping.prot =
            ((m.desc who).call c answer m.real).2.2 := by
          rw [HeapDesc.call_prot, hreal]
        simp only [Function.update_self]
        exact ⟨hprot, asks_iff hprot⟩

/-! ## One descriptor -/

/-- A call on one descriptor. -/
def on (who : Nat) (p : Call × SysResult Unit) : Action := .call who p.1 p.2

/-- Where the record is true a call is effective if the system does what it is asked. -/
theorem effective_iff_succeeds {who : Nat} (p : Call × SysResult Unit)
    (h : (m.desc who).mapping.prot = m.real) : Effective (on who p) m ↔ Succeeds (on who p) m := by
  obtain ⟨c, answer⟩ := p
  constructor
  · rintro heff _ _ _ ⟨⟩ hasks
    obtain ⟨-, hok⟩ | hreal := heff who c answer rfl
    · exact hok
    · exact absurd hreal ((asks_iff h c).mp hasks)
  · rintro hsucc _ _ _ ⟨⟩
    by_cases hasks : (m.desc who).Asks c
    · exact Or.inl ⟨hasks, hsucc who c answer rfl hasks⟩
    · exact Or.inr (Decidable.not_not.mp fun hne => hasks ((asks_iff h c).mpr hne))

/-- Calls on one descriptor whose record is true keep it true as long as the system does
what it is asked. -/
theorem one_descriptor {who : Nat} (calls : List (Call × SysResult Unit))
    (h : (m.desc who).mapping.prot = m.real) :
    Meets step Truthful (calls.map (on who)) m ↔ Meets step Succeeds (calls.map (on who)) m := by
  induction calls generalizing m with
  | nil => exact Iff.rfl
  | cons p calls ih =>
      have hiff := (truthful_iff_effective (on who p) m).trans (effective_iff_succeeds p h)
      constructor
      · rintro ⟨hfirst, hrest⟩
        refine ⟨hiff.mp hfirst, fun t ht => ?_⟩
        exact (ih (hfirst who p.1 p.2 rfl t ht).1).mp (hrest t ht)
      · rintro ⟨hfirst, hrest⟩
        refine ⟨hiff.mpr hfirst, fun t ht => ?_⟩
        exact (ih (hiff.mpr hfirst who p.1 p.2 rfl t ht).1).mpr (hrest t ht)

end Calls

/-- **Recorded protections.**  Through any calls on any descriptors of a mapping, wherever
they were copied from, the record is what the pages have after every call exactly when
every call changes the pages or finds them as it would have them; and through any calls on
the one descriptor that mapped it, exactly when the system does what it is asked each
time. -/
theorem records_truthful (m : Mapped) (actions : List Action) (retval len : Nat) (prot : Prot)
    (entered : Bool) (who : Nat) (calls : List (Call × SysResult Unit)) :
    (Meets step Truthful actions m ↔ Meets step Effective actions m) ∧
      (Meets step Truthful (calls.map (on who)) (map retval len prot entered) ↔
        Meets step Succeeds (calls.map (on who)) (map retval len prot entered)) := by
  constructor
  · exact ⟨Meets.mono fun a m => (truthful_iff_effective a m).mp,
      Meets.mono fun a m => (truthful_iff_effective a m).mpr⟩
  · exact one_descriptor calls rfl

/-- A heap is left and entered again, and the system does not do the second: it is
recorded as entered, and its pages allow nothing. -/
theorem failed_enter_recorded :
    ¬Meets step Truthful ([(.exit, .ok ()), (.enter, .err Errno.EINVAL)].map (on 0))
      (map 4096 4096 PROT_NONE true) := by
  rintro ⟨-, h⟩
  exact absurd ((h _ rfl).1 0 .enter _ rfl _ rfl).1 (by decide)

end Mapped

end Vk

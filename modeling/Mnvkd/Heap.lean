/-
# `Mnvkd.Heap` — heaps that are masked and entered

A `struct vk_heap` describes a mapping and the protections it has inside and
outside.  Entering a heap gives its pages the one, leaving it the other; either
is a call of `mprotect(2)` only where the descriptor says that the pages have
another protection.  A descriptor is copied freely, so what a copy says and what
the pages have are two things.

Every `mprotect(2)` succeeds here.
-/
import Mathlib.Logic.Function.Basic

namespace Vk

/-- What the system has mapped: for each address where a mapping starts, whether
its pages may be accessed. -/
abbrev Pages := Nat → Option Bool

namespace Pages

def mmap (pages : Pages) (addr : Nat) (prot : Bool) : Pages :=
  Function.update pages addr (some prot)

def munmap (pages : Pages) (addr : Nat) : Pages := Function.update pages addr none

def mprotect (pages : Pages) (addr : Nat) (prot : Bool) : Pages :=
  Function.update pages addr ((pages addr).map fun _ => prot)

section Lemmas
variable (pages : Pages) (addr other : Nat) (prot : Bool)

theorem mmap_apply : pages.mmap addr prot other = if other = addr then some prot else pages other :=
  Function.update_apply _ _ _ _

theorem munmap_apply : pages.munmap addr other = if other = addr then none else pages other :=
  Function.update_apply _ _ _ _

theorem mprotect_apply :
    pages.mprotect addr prot other =
      if other = addr then (pages addr).map fun _ => prot else pages other :=
  Function.update_apply _ _ _ _

theorem mprotect_of_ne {addr other : Nat} (h : other ≠ addr) :
    pages.mprotect addr prot other = pages other := by
  rw [mprotect_apply, if_neg h]

/-- What is mapped stays mapped, and what is not stays so. -/
theorem mprotect_eq_none : pages.mprotect addr prot other = none ↔ pages other = none := by
  rw [mprotect_apply]
  split
  · subst other
    exact Option.map_eq_none_iff
  · rfl

end Lemmas

end Pages

/-- `struct vk_heap`, without its stack.  A protection is whether it allows
access. -/
structure Heap where
  addr : Nat
  prot : Bool
  protInside : Bool
  protOutside : Bool
  deriving DecidableEq, Repr

namespace Heap

/-- A descriptor that has been cleared. -/
def cleared : Heap := ⟨0, false, false, false⟩

/-- `vk_heap_map`, of pages that outside allow no access. -/
def map (addr : Nat) (entered : Bool) : Heap := ⟨addr, entered, true, false⟩

/-- `vk_heap_entered`. -/
def entered (hd : Heap) : Bool := hd.prot == hd.protInside

def setProt (hd : Heap) (prot : Bool) (pages : Pages) : Heap × Pages :=
  if hd.prot ≠ prot then ({ hd with prot := prot }, pages.mprotect hd.addr prot) else (hd, pages)

/-- `vk_heap_enter`. -/
def enter (hd : Heap) (pages : Pages) : Heap × Pages := hd.setProt hd.protInside pages

/-- `vk_heap_exit`. -/
def exit (hd : Heap) (pages : Pages) : Heap × Pages := hd.setProt hd.protOutside pages

section Lemmas
variable (hd : Heap) (prot : Bool) (pages : Pages)

@[simp] theorem setProt_fst : (hd.setProt prot pages).1 = { hd with prot := prot } := by
  unfold setProt
  split
  · rfl
  · rename_i h
    rw [← Decidable.not_not.mp h]

/-- Pages elsewhere are not touched. -/
theorem setProt_snd_of_ne {addr : Nat} (h : addr ≠ hd.addr) :
    (hd.setProt prot pages).2 addr = pages addr := by
  unfold setProt
  split
  · exact pages.mprotect_of_ne prot h
  · rfl

theorem setProt_snd_eq_none (addr : Nat) :
    (hd.setProt prot pages).2 addr = none ↔ pages addr = none := by
  unfold setProt
  split
  · exact pages.mprotect_eq_none _ _ _
  · rfl

/-- Where the descriptor says what its pages have, they get what is asked for. -/
theorem setProt_snd_self (h : pages hd.addr = some hd.prot) :
    (hd.setProt prot pages).2 hd.addr = some prot := by
  unfold setProt
  split
  · show pages.mprotect hd.addr prot hd.addr = some prot
    rw [Pages.mprotect_apply, if_pos rfl, h]
    rfl
  · rename_i hprot
    show pages hd.addr = some prot
    rw [h, Decidable.not_not.mp hprot]

end Lemmas

end Heap

end Vk

/-
# `Lib.Memory` — a memory of cells, read and written in blocks

A memory is a total function from addresses to cells.  A block is a list of
cells at consecutive addresses: `load` reads one, `store` overwrites one.
What the rest of the library uses is how the two meet: a block read back
where it was stored, a block read beside it, and two blocks stored one after
the other.
-/
import Mathlib.Data.List.Basic
import Mathlib.Tactic.Common

namespace Lib

universe u

/-- One cell at every address. -/
abbrev Memory (α : Type u) := Nat → α

namespace Memory

variable {α : Type u}

/-- The `n` cells from address `a` on. -/
def load (m : Memory α) (a n : Nat) : List α := (List.range n).map fun i => m (a + i)

/-- Overwrite the cells from address `a` on with `bs`. -/
def store (m : Memory α) (a : Nat) (bs : List α) : Memory α := fun x =>
  if h : a ≤ x ∧ x < a + bs.length then bs[x - a] else m x

variable (m m' : Memory α) (a b n k : Nat) (bs cs : List α)

/-! ## Loading -/

@[simp] theorem length_load : (m.load a n).length = n := by simp [load]

@[simp] theorem load_zero : m.load a 0 = [] := rfl

theorem getElem_load {i : Nat} (h : i < (m.load a n).length) : (m.load a n)[i] = m (a + i) := by
  simp [load]

/-- A block is its first part followed by the rest. -/
theorem load_add : m.load a (n + k) = m.load a n ++ m.load (a + n) k := by
  simp [load, List.range_add, Nat.add_assoc]

theorem load_succ : m.load a (n + 1) = m a :: m.load (a + 1) n := by
  rw [Nat.add_comm, load_add]
  simp [load]

/-- A load reads only its own cells. -/
theorem load_congr {m m' : Memory α} {a n : Nat} (h : ∀ x, a ≤ x → x < a + n → m x = m' x) :
    m.load a n = m'.load a n := by
  refine List.map_congr_left fun i hi => h _ (Nat.le_add_right a i) ?_
  have := List.mem_range.mp hi
  omega

theorem take_load : (m.load a n).take k = m.load a (min k n) := by
  simp [load, List.take_range, ← List.map_take]

theorem drop_load (h : k ≤ n) : (m.load a n).drop k = m.load (a + k) (n - k) := by
  conv_lhs => rw [← Nat.add_sub_cancel' h, load_add]
  rw [List.drop_left' (length_load m a k)]

/-! ## Storing -/

/-- Inside the block a store has written the block's own cell. -/
theorem store_of_mem {x : Nat} (h₁ : a ≤ x) (h₂ : x < a + bs.length) :
    m.store a bs x = bs[x - a] :=
  dif_pos ⟨h₁, h₂⟩

/-- Outside it the memory is as before. -/
theorem store_of_not_mem {x : Nat} (h : ¬(a ≤ x ∧ x < a + bs.length)) : m.store a bs x = m x :=
  dif_neg h

@[simp] theorem store_nil : m.store a [] = m := by
  funext x
  exact store_of_not_mem m a [] (by simp)

/-- A block reads back as it was stored. -/
@[simp] theorem load_store : (m.store a bs).load a bs.length = bs := by
  refine List.ext_getElem (by simp) fun i h₁ h₂ => ?_
  rw [getElem_load, store_of_mem _ _ _ (Nat.le_add_right a i) (by omega)]
  simp

/-- A block beside the stored one reads as before. -/
theorem load_store_of_disjoint (h : a + n ≤ b ∨ b + bs.length ≤ a) :
    (m.store b bs).load a n = m.load a n :=
  load_congr fun x h₁ h₂ => store_of_not_mem m b bs (by omega)

/-- Two blocks stored end to end are one block. -/
theorem store_store : (m.store a bs).store (a + bs.length) cs = m.store a (bs ++ cs) := by
  funext x
  by_cases h₂ : a + bs.length ≤ x ∧ x < a + bs.length + cs.length
  · rw [store_of_mem _ _ _ h₂.1 h₂.2, store_of_mem _ _ _ (by omega) (by simp; omega),
      List.getElem_append_right (by omega)]
    congr 1
    omega
  · rw [store_of_not_mem _ _ _ h₂]
    by_cases h₁ : a ≤ x ∧ x < a + bs.length
    · rw [store_of_mem _ _ _ h₁.1 h₁.2, store_of_mem _ _ _ h₁.1 (by simp; omega),
        List.getElem_append_left (by omega)]
    · rw [store_of_not_mem _ _ _ h₁, store_of_not_mem _ _ _ (by simp; omega)]

end Memory

end Lib

/-
# `Lib.Blocks` — looking for a cell, one by one or many at once

`Memory.find` is the first of the cells of a block that meets a test.  A search of the
front of the block and then of the rest is a search of the block (`find_add`).

A machine looks at many bytes at once: it compares the lanes of two vectors, packs the
result into a word with a bit for each lane, and counts the zeroes below the lowest set
bit.  That bit is the first lane that was equal (`firstSet_movemask`).
-/
import Mathlib.Data.List.Basic
import Mnvkd.Lib.Memory

namespace Lib

universe u

namespace Memory

variable {α : Type u}

/-- The address of the first cell that meets the test, of the `n` from `a` on. -/
def find (p : α → Bool) (m : Memory α) (a n : Nat) : Option Nat :=
  ((m.load a n).findIdx? p).map (a + ·)

section Find
variable (p : α → Bool) (m : Memory α) (a n k : Nat)

theorem find_add : find p m a (n + k) = (find p m a n).or (find p m (a + n) k) := by
  simp only [find, load_add, List.findIdx?_append, length_load]
  cases (m.load a n).findIdx? p with
  | some i => rfl
  | none =>
      rw [Option.none_or, Option.map_none, Option.none_or, Option.map_map]
      congr 1
      funext i
      show a + (i + n) = a + n + i
      omega

end Find

end Memory

/-! ## Lanes -/

/-- Bytes side by side. -/
abbrev Lanes (n : Nat) := Fin n → UInt8

namespace Lanes

variable {n w : Nat}

/-- The bytes at an address. -/
def loadu (m : Memory UInt8) (a : Nat) : Lanes n := fun i => m (a + i)

/-- One byte in every lane. -/
def set1 (b : UInt8) : Lanes n := fun _ => b

/-- All bits of a lane where the lanes are equal, and none elsewhere. -/
def cmpeq (x y : Lanes n) : Lanes n := fun i => if x i = y i then 0xff else 0

theorem msb_cmpeq (x y : Lanes n) (i : Fin n) :
    (cmpeq x y i).toBitVec.msb = decide (x i = y i) := by
  by_cases h : x i = y i
  · simp only [cmpeq, h]
    rfl
  · simp only [cmpeq, h]
    rfl

/-- The highest bit of every lane, in a word. -/
def movemask (w : Nat) (x : Lanes n) : BitVec w :=
  (BitVec.ofBoolListLE (List.ofFn fun i => (x i).toBitVec.msb)).setWidth w

/-- The place of the lowest set bit. -/
def firstSet (mask : BitVec w) : Option Nat := if mask ≠ 0 then some mask.ctz.toNat else none

/-- The lowest set bit of a word that has a bit for each item is at the first item that
meets the test. -/
theorem firstSet_eq {α : Type u} (p : α → Bool) (as : List α) (mask : BitVec w)
    (h : ∀ i, mask.getLsbD i = true ↔ ∃ hi : i < as.length, p as[i] = true) :
    firstSet mask = as.findIdx? p := by
  by_cases hzero : mask = 0
  · rw [firstSet, if_neg (fun hne => hne hzero), eq_comm, List.findIdx?_eq_none_iff]
    intro a ha
    obtain ⟨i, hi, rfl⟩ := List.getElem_of_mem ha
    rw [Bool.eq_false_iff]
    intro hp
    have hset := (h i).mpr ⟨hi, hp⟩
    rw [hzero] at hset
    exact Bool.false_ne_true (BitVec.getLsbD_zero.symm.trans hset)
  · rw [firstSet, if_pos hzero, eq_comm, List.findIdx?_eq_some_iff_getElem]
    obtain ⟨hlt, hp⟩ := (h _).mp (BitVec.getLsbD_true_ctz_of_ne_zero hzero)
    refine ⟨hlt, hp, fun j hj hpj => ?_⟩
    have hclear := BitVec.getLsbD_false_of_lt_ctz hj
    rw [(h j).mpr ⟨Nat.lt_trans hj hlt, hpj⟩] at hclear
    cases hclear

section Mask
variable (m : Memory UInt8) (a : Nat) (b : UInt8)

/-- The lowest set bit of the mask of a comparison is at the first byte that is the one
looked for, in a word that is wide enough for a bit for each lane. -/
theorem firstSet_movemask (hw : n ≤ w) :
    firstSet (movemask w (cmpeq (loadu (n := n) m a) (set1 b))) =
      (m.load a n).findIdx? (· == b) := by
  refine firstSet_eq _ _ _ fun i => ?_
  rw [movemask, BitVec.getLsbD_setWidth, BitVec.getLsbD_ofBoolListLE, List.getD_eq_getElem?_getD]
  constructor
  · intro hset
    have hbit := (Bool.and_eq_true_iff.mp hset).2
    by_cases hi : i < n
    · rw [List.getElem?_eq_getElem (by rwa [List.length_ofFn]), Option.getD_some,
        List.getElem_ofFn, msb_cmpeq, decide_eq_true_eq] at hbit
      refine ⟨by rwa [Memory.length_load], ?_⟩
      rw [Memory.getElem_load, beq_iff_eq]
      exact hbit
    · rw [List.getElem?_eq_none (by rw [List.length_ofFn]; omega)] at hbit
      cases hbit
  · rintro ⟨hi, heq⟩
    rw [Memory.getElem_load, beq_iff_eq] at heq
    rw [Memory.length_load] at hi
    rw [List.getElem?_eq_getElem (by rwa [List.length_ofFn]), Option.getD_some,
      List.getElem_ofFn, msb_cmpeq, decide_eq_true (Nat.lt_of_lt_of_le hi hw), Bool.true_and,
      decide_eq_true_eq]
    exact heq

/-- The first lane of a comparison that is not 0 is at the first byte that is the one
looked for. -/
theorem findIdx?_cmpeq :
    (List.ofFn (cmpeq (loadu (n := n) m a) (set1 b))).findIdx? (· != 0) =
      (m.load a n).findIdx? (· == b) := by
  have hload : m.load a n = List.ofFn (loadu (n := n) m a) := by
    refine List.ext_getElem (by simp) fun i hi hi' => ?_
    rw [Memory.getElem_load, List.getElem_ofFn]
    rfl
  have hcmp : List.ofFn (cmpeq (loadu (n := n) m a) (set1 b)) =
      (List.ofFn (loadu (n := n) m a)).map fun c => if c = b then 0xff else 0 := by
    rw [List.map_ofFn]
    rfl
  have htest : ((· != 0) ∘ fun c : UInt8 => if c = b then (0xff : UInt8) else 0) = (· == b) := by
    funext c
    by_cases h : c = b
    · simp only [Function.comp, h, beq_self_eq_true]
      rfl
    · simp only [Function.comp, if_neg h, beq_eq_false_iff_ne.mpr h]
      rfl
  rw [hload, hcmp, List.findIdx?_map, htest]

end Mask

end Lanes

end Lib

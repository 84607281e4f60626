/-
# `Lib.Carve` — a buffer cut in pieces

Pieces of given sizes are cut off a buffer one behind the other.  They share no byte,
and none reaches beyond the sum of the sizes; where all sizes are multiples of a number,
the pieces start at multiples of it.

    carve            the pieces
    carve_stop_le    they end where the sizes are used up
    carve_apart      they share no byte
    carve_dvd        they are aligned as their sizes are
    carve_replicate  pieces of one size, by their index
-/
import Mathlib.Algebra.GroupWithZero.Nat
import Mathlib.Data.Set.Defs

namespace Lib

/-- So many bytes from an address on. -/
structure Extent where
  start : Nat
  len : Nat
  deriving DecidableEq, Repr

namespace Extent

/-- The first address behind it. -/
def stop (e : Extent) : Nat := e.start + e.len

def bytes (e : Extent) : Set Nat := {x | e.start ≤ x ∧ x < e.stop}

/-- They share no byte. -/
def Apart (a b : Extent) : Prop := ∀ x ∈ a.bytes, x ∉ b.bytes

theorem apart_of_le {a b : Extent} (h : a.stop ≤ b.start) : a.Apart b := by
  rintro x ⟨-, hxa⟩ ⟨hxb, -⟩
  exact absurd (Nat.lt_of_lt_of_le hxa h) (Nat.not_lt.mpr hxb)

end Extent

/-- The pieces of these sizes, from an address on. -/
def carve : Nat → List Nat → List Extent
  | _, [] => []
  | start, len :: lens => ⟨start, len⟩ :: carve (start + len) lens

section Carve
variable {start : Nat} {lens : List Nat} {e : Extent}

theorem carve_start_le (he : e ∈ carve start lens) : start ≤ e.start := by
  induction lens generalizing start with
  | nil => cases he
  | cons len lens ih =>
      obtain rfl | he := List.mem_cons.mp he
      · exact Nat.le_refl _
      · exact Nat.le_trans (Nat.le_add_right _ _) (ih he)

theorem carve_stop_le (he : e ∈ carve start lens) : e.stop ≤ start + lens.sum := by
  induction lens generalizing start with
  | nil => cases he
  | cons len lens ih =>
      rw [List.sum_cons, ← Nat.add_assoc]
      obtain rfl | he := List.mem_cons.mp he
      · exact Nat.le_add_right _ _
      · exact ih he

theorem carve_apart (start : Nat) (lens : List Nat) : (carve start lens).Pairwise Extent.Apart := by
  induction lens generalizing start with
  | nil => exact List.Pairwise.nil
  | cons len lens ih =>
      refine List.Pairwise.cons (fun e he => ?_) (ih _)
      exact Extent.apart_of_le (carve_start_le he)

theorem carve_dvd {d : Nat} (hstart : d ∣ start) (hlens : ∀ len ∈ lens, d ∣ len)
    (he : e ∈ carve start lens) : d ∣ e.start := by
  induction lens generalizing start with
  | nil => cases he
  | cons len lens ih =>
      obtain rfl | he := List.mem_cons.mp he
      · exact hstart
      · have hlen := hlens len List.mem_cons_self
        exact ih (Nat.dvd_add hstart hlen) (fun l hl => hlens l (List.mem_cons_of_mem _ hl)) he

theorem carve_replicate (start n len : Nat) :
    carve start (List.replicate n len) = (List.range n).map fun i => ⟨start + len * i, len⟩ := by
  induction n generalizing start with
  | zero => rfl
  | succ n ih =>
      rw [List.replicate_succ, List.range_succ_eq_map, List.map_cons, List.map_map, carve, ih,
        Nat.mul_zero, Nat.add_zero]
      congr 1
      refine List.map_congr_left fun i _ => ?_
      show (⟨start + len + len * i, len⟩ : Extent) = ⟨start + len * (i + 1), len⟩
      rw [Nat.mul_succ, Nat.add_assoc, Nat.add_comm len]

end Carve

end Lib

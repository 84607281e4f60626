/-
# `Lib.Search` — binary search by a comparison

The rows are searched for a key that is only known by how it compares with each
of them.  Where the rows lie in order (`Ordered`) the search ends, and finds the
row a search from the front would find (`search_eq`).
-/
import Mathlib.Data.List.Basic
import Mathlib.Tactic.Common

namespace Lib.Search

universe u

variable {α : Type u} (cmp : α → Ordering)

/-- The search between `low` and `high`, in so many turns; `cmp` places the key
against a row.  The outer option is empty when the turns run out. -/
def search (rows : List α) : Nat → Int → Int → Option (Option α)
  | 0, _, _ => none
  | fuel + 1, low, high =>
      if low ≤ high then
        let mid := low + (high - low) / 2
        match rows[mid.toNat]? with
        | none => some none
        | some row =>
            match cmp row with
            | .eq => some (some row)
            | .lt => search rows fuel low (mid - 1)
            | .gt => search rows fuel (mid + 1) high
      else some none

/-- A row that is not below the key has only rows above the key behind it. -/
def Ordered (rows : List α) : Prop := rows.Pairwise fun a b => cmp a ≠ .gt → cmp b = .lt

/-- What the search has passed lies on the side it was passed on. -/
structure Between (rows : List α) (low high : Int) : Prop where
  low_nonneg : 0 ≤ low
  low_le : low ≤ high + 1
  high_lt : high < rows.length
  below : ∀ (i : Nat) (h : i < rows.length), (i : Int) < low → cmp rows[i] = .gt
  above : ∀ (i : Nat) (h : i < rows.length), high < (i : Int) → cmp rows[i] = .lt

variable {cmp} {rows : List α}

theorem Ordered.getElem (h : Ordered cmp rows) {i j : Nat} (hj : j < rows.length) (hij : i < j)
    (hi : cmp rows[i] ≠ .gt) : cmp rows[j] = .lt :=
  List.pairwise_iff_getElem.mp h i j (Nat.lt_trans hij hj) hj hij hi

/-- A row that is found is the first, and none other. -/
theorem Ordered.find?_eq (h : Ordered cmp rows) {i : Nat} (hi : i < rows.length)
    (heq : cmp rows[i] = .eq) : rows.find? (cmp · == .eq) = some rows[i] := by
  rw [List.find?_eq_some_iff_getElem]
  refine ⟨by rw [heq]; rfl, i, hi, rfl, ?_⟩
  intro j hj
  have hne : cmp rows[j] ≠ .eq := by
    intro hjeq
    have hlt := h.getElem hi hj (by rw [hjeq]; decide)
    rw [heq] at hlt
    cases hlt
  simpa using hne

theorem Between.find?_eq_none {low high : Int} (h : Between cmp rows low high)
    (hend : high < low) : rows.find? (cmp · == .eq) = none := by
  rw [List.find?_eq_none]
  intro row hrow
  obtain ⟨i, hi, rfl⟩ := List.getElem_of_mem hrow
  rcases Int.lt_or_le (i : Int) low with hlow | hlow
  · rw [h.below i hi hlow]
    decide
  · rw [h.above i hi (Int.lt_of_lt_of_le hend hlow)]
    decide

section Step
variable {low high mid : Int} (ho : Ordered cmp rows) (h : Between cmp rows low high)
include ho h

/-- A key below the middle row is below all that follow it. -/
theorem Between.left (hmid : mid.toNat < rows.length) (hlow : low ≤ mid)
    (hlt : cmp rows[mid.toNat] = .lt) : Between cmp rows low (mid - 1) where
  low_nonneg := h.low_nonneg
  low_le := by omega
  high_lt := by omega
  below := h.below
  above i hi hmi := by
    have hlow_nonneg := h.low_nonneg
    rcases Nat.lt_or_eq_of_le (show mid.toNat ≤ i by omega) with hgt | rfl
    · exact ho.getElem hi hgt (by rw [hlt]; decide)
    · exact hlt

/-- A key above the middle row is above all before it. -/
theorem Between.right (hmid : mid.toNat < rows.length) (hlow : low ≤ mid) (hhigh : mid ≤ high)
    (hgt : cmp rows[mid.toNat] = .gt) : Between cmp rows (mid + 1) high where
  low_nonneg := by have := h.low_nonneg; omega
  low_le := by omega
  high_lt := h.high_lt
  below i hi him := by
    have hlow_nonneg := h.low_nonneg
    rcases Nat.lt_or_eq_of_le (show i ≤ mid.toNat by omega) with hlt | rfl
    · apply Decidable.byContradiction
      intro hne
      have hmid_lt := ho.getElem hmid hlt hne
      rw [hgt] at hmid_lt
      cases hmid_lt
    · exact hgt
  above := h.above

end Step

/-- With a turn for each row between the ends, and one more, the search ends where a
search from the front ends. -/
theorem search_between (ho : Ordered cmp rows) (fuel : Nat) (low high : Int)
    (h : Between cmp rows low high) (hfuel : high - low + 1 < fuel) :
    search cmp rows fuel low high = some (rows.find? (cmp · == .eq)) := by
  induction fuel generalizing low high with
  | zero =>
      have := h.low_le
      omega
  | succ fuel ih =>
      rw [search]
      split
      next hle =>
        have hmid : (low + (high - low) / 2).toNat < rows.length := by
          have := h.low_nonneg
          have := h.high_lt
          omega
        simp only [List.getElem?_eq_getElem hmid]
        cases hcmp : cmp rows[(low + (high - low) / 2).toNat] with
        | eq => exact (congrArg some (ho.find?_eq hmid hcmp)).symm
        | lt => exact ih _ _ (h.left ho hmid (by omega) hcmp) (by omega)
        | gt => exact ih _ _ (h.right ho hmid (by omega) (by omega) hcmp) (by omega)
      next hlt => rw [h.find?_eq_none (by omega)]

/-- The search of all rows. -/
theorem search_eq (ho : Ordered cmp rows) {fuel : Nat} (hfuel : rows.length < fuel) :
    search cmp rows fuel 0 (rows.length - 1) = some (rows.find? (cmp · == .eq)) := by
  apply search_between ho
  · exact ⟨Int.le_refl 0, by omega, by omega, fun i hi h => by omega, fun i hi h => by omega⟩
  · omega

end Lib.Search

/-
# `Lib.Circular` — windows of a circular buffer

A circular buffer of `n` cells is the first `n` cells of a memory; a window of
it is a starting cell and a length, and wraps past the last cell to the first.
`cells` lists the window's cells in order, `window` what they hold.

Proved here: a window splits and joins like a list (`cells_add`); it is one or
two straight blocks (`window_of_le`, `window_wrap`); a window of full length
lists every cell once (`cells_perm`); and writing a block into the cells just
after a window makes the window longer by that block (`window_put`).
-/
import Mathlib.Data.List.Perm.Basic
import Mathlib.Data.List.Nodup
import Mnvkd.Lib.Memory

namespace Lib.Circular

universe u

variable {α : Type u}

/-- The cells of the window of `len` cells that starts at `s`, in order. -/
def cells (n s len : Nat) : List Nat := (List.range len).map fun i => (s + i) % n

/-- What a window holds. -/
def window (m : Memory α) (n s len : Nat) : List α := (cells n s len).map m

/-! ## The cells of a window -/

variable {n s len k : Nat}

@[simp] theorem length_cells : (cells n s len).length = len := by simp [cells]

@[simp] theorem cells_zero : cells n s 0 = [] := rfl

theorem cells_add : cells n s (len + k) = cells n s len ++ cells n (s + len) k := by
  simp [cells, List.range_add, Nat.add_assoc]

/-- Only the starting cell's place in the buffer matters. -/
theorem cells_mod : cells n (s % n) len = cells n s len := by
  simp [cells]

/-- A window that stays below the end is a straight block. -/
theorem cells_of_le (h : s + len ≤ n) : cells n s len = (List.range len).map (s + ·) := by
  refine List.map_congr_left fun i hi => Nat.mod_eq_of_lt ?_
  have := List.mem_range.mp hi
  omega

/-- A window that passes the end is the block up to it, then one from the first cell. -/
theorem cells_wrap (hs : s ≤ n) (h : n ≤ s + len) (hl : len ≤ n) :
    cells n s len = (List.range (n - s)).map (s + ·) ++ (List.range (len - (n - s))).map (0 + ·) := by
  have hsplit : len = (n - s) + (len - (n - s)) := by omega
  conv_lhs => rw [hsplit, cells_add]
  have hmod : (s + (n - s)) % n = 0 := by rw [Nat.add_sub_cancel' hs, Nat.mod_self]
  rw [cells_of_le (by omega), ← cells_mod (s := s + (n - s)), hmod, cells_of_le (by omega)]

theorem lt_of_mem_cells {p : Nat} (hn : 0 < n) (h : p ∈ cells n s len) : p < n := by
  obtain ⟨i, -, rfl⟩ := List.mem_map.mp h
  exact Nat.mod_lt _ hn

/-- A window of full length lists every cell of the buffer once. -/
theorem cells_perm (hn : 0 < n) : (cells n s n).Perm (List.range n) := by
  have hs : s % n < n := Nat.mod_lt s hn
  rw [← cells_mod, cells_wrap (Nat.le_of_lt hs) (by omega) (Nat.le_refl _)]
  have hrange : List.range n
      = (List.range (s % n)).map (0 + ·) ++ (List.range (n - s % n)).map (s % n + ·) := by
    conv_lhs => rw [← Nat.add_sub_cancel' (Nat.le_of_lt hs), List.range_add]
    simp
  rw [hrange, Nat.sub_sub_self (Nat.le_of_lt hs)]
  exact List.perm_append_comm

theorem nodup_cells (hn : 0 < n) (h : len ≤ n) : (cells n s len).Nodup := by
  have hfull : (cells n s n).Nodup := (cells_perm hn).nodup_iff.mpr List.nodup_range
  have hsplit : n = len + (n - len) := by omega
  have happ : cells n s n = cells n s len ++ cells n (s + len) (n - len) := by
    conv_lhs => rw [hsplit, cells_add, ← hsplit]
  rw [happ] at hfull
  exact hfull.of_append_left

/-- A window and the cells after it share none. -/
theorem disjoint_cells (hn : 0 < n) (h : len + k ≤ n) :
    (cells n s len).Disjoint (cells n (s + len) k) := by
  have hnd : (cells n s (len + k)).Nodup := nodup_cells hn h
  rw [cells_add] at hnd
  exact List.disjoint_of_nodup_append hnd

/-! ## What a window holds -/

variable {m m' : Memory α}

@[simp] theorem length_window : (window m n s len).length = len := by simp [window]

@[simp] theorem window_zero : window m n s 0 = [] := rfl

theorem window_mod : window m n (s % n) len = window m n s len := by
  simp [window, cells_mod]

theorem window_add :
    window m n s (len + k) = window m n s len ++ window m n (s + len) k := by
  simp [window, cells_add]

theorem window_congr (h : ∀ p ∈ cells n s len, m p = m' p) :
    window m n s len = window m' n s len :=
  List.map_congr_left h

/-- The same block stored in two memories that agree on a window leaves them
agreeing on it. -/
theorem window_store_congr (h : window m n s len = window m' n s len) (a : Nat) (bs : List α) :
    window (m.store a bs) n s len = window (m'.store a bs) n s len := by
  refine window_congr fun p hp => ?_
  have hsame : m p = m' p := (List.map_inj_left.mp h) p hp
  by_cases hmem : a ≤ p ∧ p < a + bs.length
  · rw [Memory.store_of_mem _ _ _ hmem.1 hmem.2, Memory.store_of_mem _ _ _ hmem.1 hmem.2]
  · rw [Memory.store_of_not_mem _ _ _ hmem, Memory.store_of_not_mem _ _ _ hmem, hsame]

theorem take_window (h : k ≤ len) : (window m n s len).take k = window m n s k := by
  conv_lhs => rw [← Nat.add_sub_cancel' h, window_add]
  rw [List.take_left' length_window]

theorem drop_window (h : k ≤ len) : (window m n s len).drop k = window m n (s + k) (len - k) := by
  conv_lhs => rw [← Nat.add_sub_cancel' h, window_add]
  rw [List.drop_left' length_window]

theorem window_of_le (h : s + len ≤ n) : window m n s len = m.load s len := by
  rw [window, cells_of_le h, List.map_map]
  rfl

theorem window_wrap (hs : s ≤ n) (h : n ≤ s + len) (hl : len ≤ n) :
    window m n s len = m.load s (n - s) ++ m.load 0 (len - (n - s)) := by
  rw [window, cells_wrap hs h hl, List.map_append, List.map_map, List.map_map]
  rfl

/-! ## Writing after a window -/

/-- Write `bs` into the window that starts at `s`: up to the end of the buffer,
then from its first cell. -/
def put (m : Memory α) (n s : Nat) (bs : List α) : Memory α :=
  (m.store s (bs.take (n - s))).store 0 (bs.drop (n - s))

variable {bs : List α}

theorem put_of_le (h : s + bs.length ≤ n) : put m n s bs = m.store s bs := by
  rw [put, List.take_of_length_le (by omega), List.drop_of_length_le (by omega), Memory.store_nil]

/-- The window written holds the block. -/
theorem window_put_self (hs : s < n) (h : bs.length ≤ n) :
    window (put m n s bs) n s bs.length = bs := by
  by_cases hw : s + bs.length ≤ n
  · rw [put_of_le hw, window_of_le hw, Memory.load_store]
  · have htake : (bs.take (n - s)).length = n - s := by simp; omega
    have hdrop : (bs.drop (n - s)).length = bs.length - (n - s) := by simp
    have hfirst : (m.store s (bs.take (n - s))).load s (n - s) = bs.take (n - s) := by
      have := Memory.load_store m s (bs.take (n - s))
      rwa [htake] at this
    rw [window_wrap (Nat.le_of_lt hs) (by omega) h, put,
      Memory.load_store_of_disjoint _ _ _ _ _ (by omega), ← hdrop, Memory.load_store, hfirst,
      List.take_append_drop]

/-- Every other cell of the buffer holds what it held. -/
theorem put_of_not_mem {p : Nat} (hs : s < n) (h : bs.length ≤ n) (hp : p < n)
    (hmem : p ∉ cells n s bs.length) : put m n s bs p = m p := by
  by_cases hw : s + bs.length ≤ n
  · rw [put_of_le hw]
    refine Memory.store_of_not_mem _ _ _ fun hin => hmem ?_
    rw [cells_of_le hw]
    exact List.mem_map.mpr ⟨p - s, List.mem_range.mpr (by omega), by omega⟩
  · rw [cells_wrap (Nat.le_of_lt hs) (by omega) h] at hmem
    simp only [List.mem_append, List.mem_map, List.mem_range, not_or, not_exists, not_and] at hmem
    rw [put, Memory.store_of_not_mem, Memory.store_of_not_mem]
    · rintro ⟨h₁, -⟩
      exact hmem.1 (p - s) (by omega) (by omega)
    · rintro ⟨-, h₂⟩
      exact hmem.2 p (by simp at h₂; omega) (by omega)

/-- A block written just after a window makes the window longer by that block. -/
theorem window_put (hn : 0 < n) (h : len + bs.length ≤ n) :
    window (put m n ((s + len) % n) bs) n s (len + bs.length) = window m n s len ++ bs := by
  have hlt : (s + len) % n < n := Nat.mod_lt _ hn
  have hnew : window (put m n ((s + len) % n) bs) n (s + len) bs.length = bs := by
    rw [← window_mod]
    exact window_put_self hlt (by omega)
  have hold : window (put m n ((s + len) % n) bs) n s len = window m n s len :=
    window_congr fun p hp => put_of_not_mem hlt (by omega) (lt_of_mem_cells hn hp) (by
      rw [cells_mod]
      exact disjoint_cells hn h hp)
  rw [window_add, hnew, hold]

end Lib.Circular

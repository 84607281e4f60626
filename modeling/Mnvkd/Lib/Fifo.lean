/-
# `Lib.Fifo` — families of bounded queues

A bounded queue holds at most `capacity` items, and that is a field of it: a
queue that overflows cannot be written down.  A family of them, one at each
index, is driven by events that name the items: `append` needs the room,
`remove` needs the items to be the first ones queued.  A run of events that
exists is therefore a run in which nothing was lost, invented or reordered.
-/
import Mathlib.Data.List.Infix
import Mathlib.Logic.Function.Basic
import Mnvkd.Lib.Run

namespace Lib

universe u v

/-- A queue of at most `capacity` items. -/
structure Fifo (α : Type u) where
  capacity : Nat
  queue : List α
  fits : queue.length ≤ capacity

namespace Fifo

variable {α : Type u}

theorem ext' {a b : Fifo α} (h₁ : a.capacity = b.capacity) (h₂ : a.queue = b.queue) : a = b := by
  cases a
  cases b
  cases h₁
  cases h₂
  rfl

def empty (capacity : Nat) : Fifo α := ⟨capacity, [], Nat.zero_le _⟩

/-- Append items at the back, if there is room for all of them. -/
def append (f : Fifo α) (bs : List α) : Option (Fifo α) :=
  if h : f.queue.length + bs.length ≤ f.capacity then
    some ⟨f.capacity, f.queue ++ bs, by rw [List.length_append]; exact h⟩
  else none

/-- Remove items from the front, if they are what is there. -/
def remove [DecidableEq α] (f : Fifo α) (bs : List α) : Option (Fifo α) :=
  if bs <+: f.queue then
    some ⟨f.capacity, f.queue.drop bs.length,
      Nat.le_trans (by rw [List.length_drop]; exact Nat.sub_le _ _) f.fits⟩
  else none

theorem append_eq_some {f f' : Fifo α} {bs : List α} (hroom : f.queue.length + bs.length ≤ f.capacity)
    (hc : f'.capacity = f.capacity) (hq : f'.queue = f.queue ++ bs) : f.append bs = some f' := by
  rw [append, dif_pos hroom]
  exact congrArg some (ext' hc.symm hq.symm)

theorem remove_eq_some [DecidableEq α] {f f' : Fifo α} {n : Nat} (hn : n ≤ f.queue.length)
    (hc : f'.capacity = f.capacity) (hq : f'.queue = f.queue.drop n) :
    f.remove (f.queue.take n) = some f' := by
  rw [remove, if_pos (List.take_prefix n f.queue)]
  refine congrArg some (ext' hc.symm ?_)
  show f.queue.drop (f.queue.take n).length = f'.queue
  rw [hq, List.length_take, Nat.min_eq_left hn]

/-! ## Families -/

/-- What happens to a family of queues. -/
inductive Event (ι : Type v) (α : Type u) where
  | reset (i : ι) (capacity : Nat)
  | append (i : ι) (bs : List α)
  | remove (i : ι) (bs : List α)

variable {ι : Type v} [DecidableEq ι] [DecidableEq α]

def step : Event ι α → (ι → Fifo α) → Option (ι → Fifo α)
  | .reset i capacity, fs => some (Function.update fs i (empty capacity))
  | .append i bs, fs => ((fs i).append bs).map (Function.update fs i)
  | .remove i bs, fs => ((fs i).remove bs).map (Function.update fs i)

theorem step_append {fs : ι → Fifo α} {i : ι} {bs : List α} {f : Fifo α}
    (h : (fs i).append bs = some f) : step (.append i bs) fs = some (Function.update fs i f) := by
  simp [step, h]

theorem step_remove {fs : ι → Fifo α} {i : ι} {bs : List α} {f : Fifo α}
    (h : (fs i).remove bs = some f) : step (.remove i bs) fs = some (Function.update fs i f) := by
  simp [step, h]

end Fifo

end Lib

/-
# `Mnvkd.Lib.MarkedQueue` — a queue of distinct members, and a flag for it

An intrusive list cannot hold a member twice, so each member carries a mark that
says whether it is in.  A flag beside the list says whether there is any member,
for those who do not look at the list.  Marks and flag are kept by hand, by the
operation that inserts at the head and those that remove; `Exact` is what they
are to say, and each operation keeps it.
-/
import Mathlib.Logic.Function.Basic
import Mathlib.Data.List.Basic

namespace Lib

structure MarkedQueue (ι : Type u) where
  flag : Bool
  queue : List ι
  mark : ι → Bool

namespace MarkedQueue

variable {ι : Type u} [DecidableEq ι]

/-- Nothing queued, nothing marked. -/
def empty : MarkedQueue ι := ⟨false, [], fun _ => false⟩

/-- Insert at the head, unless it is in. -/
def enqueue (q : MarkedQueue ι) (i : ι) : MarkedQueue ι :=
  if q.mark i then q
  else
    { flag := if q.queue.isEmpty then true else q.flag
      queue := i :: q.queue
      mark := Function.update q.mark i true }

/-- Remove a member wherever it is, and lower the flag if none is left. -/
def drop (q : MarkedQueue ι) (i : ι) : MarkedQueue ι :=
  let q := if q.mark i then { q with queue := q.queue.erase i, mark := Function.update q.mark i false }
    else q
  { q with flag := if q.queue.isEmpty then false else q.flag }

/-- Remove the head. -/
def dequeue (q : MarkedQueue ι) : MarkedQueue ι :=
  match q.queue with
  | [] => q
  | i :: rest =>
      { flag := if rest.isEmpty then false else q.flag
        queue := rest
        mark := Function.update q.mark i false }

/-- The flag says whether there is a member, and the marks who it is, once. -/
structure Exact (q : MarkedQueue ι) : Prop where
  flag : q.flag = true ↔ q.queue ≠ []
  mark : ∀ i, q.mark i = true ↔ i ∈ q.queue
  nodup : q.queue.Nodup

omit [DecidableEq ι] in
theorem exact_empty : (empty : MarkedQueue ι).Exact :=
  ⟨by simp [empty], fun i => by simp [empty], List.nodup_nil⟩

variable {q : MarkedQueue ι}

omit [DecidableEq ι] in
/-- A flag that is lowered when nothing is left says whether there is a member,
if it said so of a queue with more. -/
theorem lowered_flag {flag : Bool} {queue : List ι} (h : queue ≠ [] → flag = true) :
    (if queue.isEmpty then false else flag) = true ↔ queue ≠ [] := by
  cases queue with
  | nil => simp
  | cons i rest => simp [h (List.cons_ne_nil i rest)]

theorem Exact.enqueue (h : q.Exact) (i : ι) : (q.enqueue i).Exact := by
  unfold MarkedQueue.enqueue
  split
  · exact h
  · rename_i hi
    have hnew : i ∉ q.queue := fun hmem => hi ((h.mark i).mpr hmem)
    refine ⟨?_, fun j => ?_, List.nodup_cons.mpr ⟨hnew, h.nodup⟩⟩
    · have hflag := h.flag
      cases hq : q.queue with
      | nil => simp
      | cons j rest => simpa [hq] using hflag
    · by_cases hj : j = i
      · simp [hj]
      · simp [hj, h.mark j]

theorem Exact.drop (h : q.Exact) (i : ι) : (q.drop i).Exact := by
  unfold MarkedQueue.drop
  dsimp only
  split
  · rename_i hi
    refine ⟨lowered_flag fun hne => ?_, fun j => ?_, h.nodup.erase i⟩
    · refine h.flag.mpr fun hnil => hne ?_
      simp [hnil]
    · by_cases hj : j = i
      · simp [hj, h.nodup.mem_erase_iff]
      · simp [h.nodup.mem_erase_iff, hj, h.mark j]
  · exact ⟨lowered_flag h.flag.mpr, h.mark, h.nodup⟩

theorem Exact.dequeue (h : q.Exact) : q.dequeue.Exact := by
  unfold MarkedQueue.dequeue
  split
  · exact h
  · rename_i i rest hq
    obtain ⟨hhead, hrest⟩ := List.nodup_cons.mp (hq ▸ h.nodup)
    refine ⟨lowered_flag fun _ => h.flag.mpr (by rw [hq]; exact List.cons_ne_nil i rest), fun j => ?_,
      hrest⟩
    by_cases hj : j = i
    · simp [hj, hhead]
    · simp [h.mark j, hq, hj]

end MarkedQueue

end Lib

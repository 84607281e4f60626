/-
# `Lib.Heads` — one from each queue

A list of keys is gone through, and each takes the first item of its queue, if there is
one.  A key may come more than once; it then takes the next item.

    heads           what is taken, in the order of the keys
    left            what stays in the queues: all but as many as the key came
    mem_heads       an item is taken if it is among as many as its key came
    heads_nodup     and once, where no item is in two queues or twice in one
-/
import Mathlib.Data.List.Nodup
import Mathlib.Logic.Function.Basic

namespace Lib

universe u v

variable {κ : Type u} {α : Type v} [DecidableEq κ]

/-- What the keys take. -/
def heads : List κ → (κ → List α) → List α
  | [], _ => []
  | k :: ks, q => (q k).head?.toList ++ heads ks (Function.update q k (q k).tail)

/-- What stays in the queues. -/
def left (ks : List κ) (q : κ → List α) : κ → List α := fun k => (q k).drop (ks.count k)

section Lemmas
variable (ks : List κ) (k : κ) (q : κ → List α)

theorem left_cons : left (k :: ks) q = left ks (Function.update q k (q k).tail) := by
  funext j
  by_cases h : j = k
  · subst h
    simp only [left, List.count_cons_self, Function.update_self, List.drop_tail]
  · simp only [left, Function.update_of_ne h, List.count_cons_of_ne (Ne.symm h)]

/-- What is taken is in front of what stays. -/
theorem mem_heads (a : α) : a ∈ heads ks q ↔ ∃ k, a ∈ (q k).take (ks.count k) := by
  induction ks generalizing q with
  | nil => simp [heads]
  | cons j ks ih =>
      rw [heads, List.mem_append, ih]
      constructor
      · rintro (hhead | ⟨k, hk⟩)
        · refine ⟨j, ?_⟩
          cases hq : q j with
          | nil =>
              rw [hq] at hhead
              cases hhead
          | cons b rest =>
              rw [hq] at hhead
              obtain rfl : a = b := List.mem_singleton.mp hhead
              rw [List.count_cons_self, List.take_succ_cons]
              exact List.mem_cons_self
        · refine ⟨k, ?_⟩
          by_cases h : k = j
          · subst h
            rw [Function.update_self] at hk
            rw [List.count_cons_self]
            cases hq : q k with
            | nil =>
                rw [hq, List.tail_nil, List.take_nil] at hk
                cases hk
            | cons b rest =>
                rw [hq, List.tail_cons] at hk
                rw [List.take_succ_cons]
                exact List.mem_cons_of_mem b hk
          · rwa [Function.update_of_ne h, ← List.count_cons_of_ne (Ne.symm h)] at hk
      · rintro ⟨k, hk⟩
        by_cases h : k = j
        · subst h
          cases hq : q k with
          | nil =>
              rw [hq, List.take_nil] at hk
              cases hk
          | cons b rest =>
              rw [hq, List.count_cons_self, List.take_succ_cons] at hk
              obtain rfl | hk := List.mem_cons.mp hk
              · exact Or.inl (List.mem_singleton.mpr rfl)
              · refine Or.inr ⟨k, ?_⟩
                rwa [Function.update_self, List.tail_cons]
        · refine Or.inr ⟨k, ?_⟩
          rwa [List.count_cons_of_ne (Ne.symm h), ← Function.update_of_ne h (q j).tail q] at hk

variable {q}

/-- No item is in two queues, or twice in one. -/
structure Apart (q : κ → List α) : Prop where
  nodup : ∀ k, (q k).Nodup
  disjoint : ∀ k j a, a ∈ q k → a ∈ q j → k = j

theorem Apart.tail (h : Apart q) : Apart (Function.update q k (q k).tail) := by
  have hsub : ∀ j, (Function.update q k (q k).tail j).Sublist (q j) := by
    intro j
    by_cases hj : j = k
    · subst hj
      rw [Function.update_self]
      exact List.tail_sublist _
    · rw [Function.update_of_ne hj]
  exact ⟨fun j => (hsub j).nodup (h.nodup j),
    fun i j a hi hj => h.disjoint i j a ((hsub i).subset hi) ((hsub j).subset hj)⟩

/-- An item that is in no queue can be put in one. -/
theorem Apart.snoc (h : Apart q) {a : α} (ha : ∀ k, a ∉ q k) :
    Apart (Function.update q k (q k ++ [a])) := by
  have hmem : ∀ j b, b ∈ Function.update q k (q k ++ [a]) j → b ∈ q j ∨ (b = a ∧ j = k) := by
    intro j b hb
    by_cases hj : j = k
    · subst hj
      rw [Function.update_self] at hb
      obtain hb | hb := List.mem_append.mp hb
      · exact Or.inl hb
      · exact Or.inr ⟨List.mem_singleton.mp hb, rfl⟩
    · rw [Function.update_of_ne hj] at hb
      exact Or.inl hb
  constructor
  · intro j
    by_cases hj : j = k
    · subst hj
      rw [Function.update_self]
      refine List.Nodup.append (h.nodup j) (List.nodup_singleton a) ?_
      intro b hb hba
      rw [List.mem_singleton.mp hba] at hb
      exact ha j hb
    · rw [Function.update_of_ne hj]
      exact h.nodup j
  · intro i j b hi hj
    obtain hqi | ⟨hba, hik⟩ := hmem i b hi
    · obtain hqj | ⟨hba, -⟩ := hmem j b hj
      · exact h.disjoint i j b hqi hqj
      · rw [hba] at hqi
        exact absurd hqi (ha i)
    · obtain hqj | ⟨-, hjk⟩ := hmem j b hj
      · rw [hba] at hqj
        exact absurd hqj (ha j)
      · rw [hik, hjk]

/-- Nothing is taken twice. -/
theorem Apart.heads_nodup (h : Apart q) : (heads ks q).Nodup := by
  induction ks generalizing q with
  | nil => exact List.nodup_nil
  | cons k ks ih =>
      rw [heads]
      cases hq : q k with
      | nil =>
          have hsame : Function.update q k [] = q := by
            rw [← hq]
            exact Function.update_eq_self k q
          rw [List.head?_nil, List.tail_nil, hsame]
          exact ih h
      | cons b rest =>
          have htail := h.tail k
          rw [hq, List.tail_cons] at htail
          rw [List.head?_cons, List.tail_cons]
          refine List.nodup_cons.mpr ⟨fun hb => ?_, ih htail⟩
          obtain ⟨j, hj⟩ := (mem_heads ks _ b).mp hb
          have hmem := List.mem_of_mem_take hj
          have hnodup := h.nodup k
          rw [hq] at hnodup
          by_cases hjk : j = k
          · subst hjk
            rw [Function.update_self] at hmem
            exact (List.nodup_cons.mp hnodup).1 hmem
          · rw [Function.update_of_ne hjk] at hmem
            exact hjk (h.disjoint j k b hmem (by rw [hq]; exact List.mem_cons_self))

end Lemmas

end Lib

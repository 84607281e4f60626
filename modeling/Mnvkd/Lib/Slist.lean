/-
# `Mnvkd.Lib.Slist` — a list linked through its members

A singly linked list that runs through its members: a first one, and for each a link to
the next.  `Path next first xs` says that the links lead through `xs`.  Inserting puts a
member in front; removing one looks for the member before it and leads its link past.

What is removed keeps its own link (`next_remove`), so a walk that removes each member
it is at can still go on from there.
-/
import Mathlib.Logic.Function.Basic
import Mathlib.Data.List.Basic

namespace Lib

universe u

structure Slist (ι : Type u) where
  first : Option ι
  next : ι → Option ι

namespace Slist

variable {ι : Type u}

/-- From `start` the links lead through the members of a list, and then end. -/
inductive Path (next : ι → Option ι) : Option ι → List ι → Prop where
  | nil : Path next none []
  | cons {x : ι} {xs : List ι} : Path next (next x) xs → Path next (some x) (x :: xs)

/-- The list is `xs`. -/
def Is (l : Slist ι) (xs : List ι) : Prop := Path l.next l.first xs

variable [DecidableEq ι]

/-- `SLIST_INSERT_HEAD`. -/
def insertHead (l : Slist ι) (x : ι) : Slist ι := ⟨some x, Function.update l.next x l.first⟩

/-- The member before `x`, looked for from `start` for at most `n` links. -/
def before (l : Slist ι) (x : ι) : Nat → Option ι → Option ι
  | n + 1, some y => if l.next y = some x then some y else before l x n (l.next y)
  | _, _ => none

/-- `SLIST_REMOVE`, of a list of at most `n` members. -/
def remove (l : Slist ι) (n : Nat) (x : ι) : Slist ι :=
  if l.first = some x then { l with first := l.next x }
  else
    match l.before x n l.first with
    | some y => { l with next := Function.update l.next y (l.next x) }
    | none => l

variable {l : Slist ι} {next next' : ι → Option ι} {start : Option ι} {x y : ι} {xs : List ι}

omit [DecidableEq ι] in
theorem Path.tail (h : Path next start (x :: xs)) : start = some x ∧ Path next (next x) xs := by
  cases h with
  | cons h => exact ⟨rfl, h⟩

omit [DecidableEq ι] in
/-- Only the links of the members count. -/
theorem Path.congr (h : Path next start xs) (hsame : ∀ y ∈ xs, next' y = next y) :
    Path next' start xs := by
  induction h with
  | nil => exact Path.nil
  | @cons x xs h ih =>
      refine Path.cons ?_
      rw [hsame x List.mem_cons_self]
      exact ih fun y hy => hsame y (List.mem_cons_of_mem x hy)

theorem Path.update (h : Path next start xs) (hx : x ∉ xs) (link : Option ι) :
    Path (Function.update next x link) start xs := by
  refine h.congr fun y hy => ?_
  have hne : y ≠ x := by
    intro heq
    exact hx (heq ▸ hy)
  exact Function.update_of_ne hne _ _

theorem is_insertHead (h : l.Is xs) (hx : x ∉ xs) : (l.insertHead x).Is (x :: xs) := by
  refine Path.cons ?_
  show Path (Function.update l.next x l.first) (Function.update l.next x l.first x) xs
  rw [Function.update_self]
  exact h.update hx l.first

/-- The link of the member before leads past one that is removed. -/
theorem Path.unlink {earlier later : List ι} (h : Path next start (earlier ++ y :: x :: later))
    (hnodup : (earlier ++ y :: x :: later).Nodup) :
    Path (Function.update next y (next x)) start (earlier ++ y :: later) := by
  induction earlier generalizing start with
  | nil =>
      cases h with
      | cons h =>
          generalize hlink : next y = link at h
          cases h with
          | cons h =>
              have hy : y ∉ later := fun hy =>
                (List.nodup_cons.mp hnodup).1 (List.mem_cons_of_mem x hy)
              refine Path.cons ?_
              rw [Function.update_self]
              exact h.update hy _
  | cons z earlier ih =>
      cases h with
      | cons h =>
          obtain ⟨hz, hnodup⟩ := List.nodup_cons.mp hnodup
          have hne : z ≠ y := by
            intro heq
            exact hz (heq ▸ List.mem_append_right earlier List.mem_cons_self)
          refine Path.cons ?_
          rw [Function.update_of_ne hne]
          exact ih h hnodup

/-- The member before one that is not the first is found. -/
theorem Path.before_spec {n : Nat} (h : Path l.next start (y :: xs)) (hx : x ∈ xs)
    (hnodup : (y :: xs).Nodup) (hn : (y :: xs).length ≤ n) :
    ∃ earlier z later, y :: xs = earlier ++ z :: x :: later ∧ l.before x n start = some z := by
  induction xs generalizing start y n with
  | nil => cases hx
  | cons w xs ih =>
      cases h with
      | cons h =>
          obtain ⟨m, rfl⟩ : ∃ m, n = m + 1 := ⟨n - 1, by simp only [List.length_cons] at hn; omega⟩
          generalize hlink : l.next y = link at h
          cases h with
          | cons h =>
              by_cases hw : w = x
              · subst hw
                refine ⟨[], y, xs, rfl, ?_⟩
                rw [before, if_pos hlink]
              · have hmem : x ∈ xs := (List.mem_cons.mp hx).resolve_left (Ne.symm hw)
                have hm : (w :: xs).length ≤ m := Nat.le_of_succ_le_succ hn
                obtain ⟨earlier, z, later, hsplit, hfound⟩ :=
                  ih (Path.cons h) hmem (List.nodup_cons.mp hnodup).2 hm
                refine ⟨y :: earlier, z, later, by rw [hsplit]; rfl, ?_⟩
                have hne : ¬l.next y = some x := by
                  rw [hlink]
                  exact fun heq => hw (Option.some.inj heq)
                rw [before, if_neg hne, hlink]
                exact hfound

omit [DecidableEq ι] in
theorem Path.first_eq (h : Path next start xs) : start = xs.head? := by
  cases h <;> rfl

omit [DecidableEq ι] in
/-- The links lead through one list only. -/
theorem Path.unique {ys : List ι} (h : Path next start xs) (h' : Path next start ys) : xs = ys := by
  induction h generalizing ys with
  | nil =>
      cases h' with
      | nil => rfl
  | cons _ ih =>
      cases h' with
      | cons h' => exact congrArg _ (ih h')

theorem is_remove {n : Nat} (h : l.Is xs) (hnodup : xs.Nodup) (hx : x ∈ xs) (hn : xs.length ≤ n) :
    (l.remove n x).Is (xs.erase x) ∧ (l.remove n x).next x = l.next x := by
  cases xs with
  | nil => cases hx
  | cons y xs =>
      have hfirst : l.first = some y := Path.first_eq h
      by_cases hxy : y = x
      · subst hxy
        rw [remove, if_pos hfirst, List.erase_cons_head]
        exact ⟨h.tail.2, rfl⟩
      · have hne : ¬l.first = some x := by
          rw [hfirst]
          exact fun heq => hxy (Option.some.inj heq)
        have hmem : x ∈ xs := (List.mem_cons.mp hx).resolve_left (Ne.symm hxy)
        obtain ⟨earlier, z, later, hsplit, hfound⟩ := Path.before_spec h hmem hnodup hn
        rw [hsplit] at hnodup
        have hz : z ≠ x := by
          have htail := (List.nodup_append.mp hnodup).2.1
          intro heq
          exact (List.nodup_cons.mp htail).1 (heq ▸ List.mem_cons_self)
        have hx' : x ∉ earlier := by
          intro hin
          exact (List.nodup_append.mp hnodup).2.2 x hin x
            (List.mem_cons_of_mem z List.mem_cons_self) rfl
        have herase : (y :: xs).erase x = earlier ++ z :: later := by
          rw [hsplit, List.erase_append_right _ hx', List.erase_cons_tail (by simpa using hz),
            List.erase_cons_head]
        rw [remove, if_neg hne, hfound, herase]
        refine ⟨?_, Function.update_of_ne (Ne.symm hz) _ _⟩
        have hpath : Path l.next l.first (earlier ++ z :: x :: later) := hsplit ▸ h
        exact hpath.unlink hnodup

/-- What is removed keeps its link. -/
theorem next_remove {n : Nat} (h : l.Is xs) (hnodup : xs.Nodup) (hx : x ∈ xs) (hn : xs.length ≤ n) :
    (l.remove n x).next x = l.next x := (is_remove h hnodup hx hn).2

omit [DecidableEq ι] in
/-- The first member's link leads to the second. -/
theorem Is.next_first (h : l.Is (x :: xs)) : l.next x = xs.head? := Path.first_eq h.tail.2

end Slist

end Lib

/-
# `Mnvkd.ThreadLife` — what a thread takes from the micro-heap and gives back

`vk_init` pushes a thread's socket and `vk_begin`, when the thread starts, its `self`;
when it has ended `vk_deinit` pops two blocks, whatever was pushed.  A thread in error
is entered at its `vk_finally`, so one that gets an error before it starts ends without
a `self`, and so does one whose `self` found no room: then the second pop takes a block
of another thread.

A thread that did start gives back what it took if, when it ends, no other thread's
block lies above its socket.  Its descendants have ended by then, and an ended thread
has no block left (`Sound`).
-/
import Mathlib.Data.List.Forall2
import Mathlib.Data.List.TakeWhile
import Mnvkd.ProcLocal
import Mnvkd.Stack

namespace Vk

open Lib

/-- The fields of `struct vk_thread` by which `vk_begin` decides where to go on.  A
label of the function is a number from 0. -/
structure Entry where
  counter : Int
  status : ProcStat
  errorCounter : Int
  deriving DecidableEq, Repr

namespace Entry

/-- `vk_init`. -/
def init : Entry := ⟨-1, .run, -2⟩

/-- `vk_is_ready`. -/
def isReady (that : Entry) : Bool := that.status == .run || that.status == .err

/-- `vk_ready`. -/
def ready (that : Entry) : Entry :=
  if that.status = .ended then that
  else if that.status = .err then that
  else { that with status := .run }

/-- `vk_yield`, at the label `n`. -/
def yield (status : ProcStat) (n : Nat) (that : Entry) : Entry :=
  { that with counter := n, status := status }

/-- `vk_raise`, at the label `n`. -/
def raise (n : Nat) (that : Entry) : Entry := yield .err n { that with errorCounter := n }

/-- `vk_raise_at`.  The label is one of the function that raises. -/
def raiseAt (n : Nat) (there : Entry) : Entry := { there with errorCounter := n, status := .err }

/-- `vk_lower`. -/
def lower (that : Entry) : Entry := { that with counter := that.errorCounter, status := .run }

/-- `vk_begin`, before it switches on the counter. -/
def begin (that : Entry) : Entry :=
  if that.status = .err then { that with counter := -2, status := .run } else that

end Entry

/-- What a thread has taken: whether `vk_begin` pushed its `self`, how many blocks more
it pushed by `vk_calloc` than it popped by `vk_free`, whether it was popped by
`vk_deinit`.  `mark` is where the cursor was before `vk_init`, `parent` the thread that
called it. -/
structure Life where
  parent : Option Nat
  mark : Nat
  started : Bool
  own : Int
  ended : Bool

/-- How many blocks a thread has, beside its socket. -/
def Life.taken (l : Life) : Int := (if l.started then 1 else 0) + l.own

theorem Life.taken_start {l : Life} (h : l.started = false) :
    Life.taken { l with started := true } = l.taken + 1 := by
  simp only [taken, h, if_true, Bool.false_eq_true, if_false]
  omega

theorem Life.taken_own (l : Life) (n : Int) :
    Life.taken { l with own := l.own + n } = l.taken + n :=
  (Int.add_assoc ..).symm

/-- Who pushed a block. -/
inductive Frame where
  | kern
  | socket (t : Nat)
  | mem (t : Nat)
  deriving DecidableEq, Repr

/-- A process's micro-heap and its threads, numbered as `vk_init` initialized them. -/
structure Lives where
  heap : Stack.Traced
  frames : List Frame
  running : Option Nat
  count : Nat
  entry : Nat → Entry
  life : Nat → Life

/-- What a process, a running thread or the executor does next.  `exec` is a push by
`vk_proc_alloc` or `vk_proc_alloc_thread`; `signal` is `vk_proc_local_raise_signal`,
from which the running thread does not return. -/
inductive LifeAct where
  | kern (nmemb count : Nat)
  | init (size : Nat)
  | ready (t : Nat)
  | raiseAt (t n : Nat)
  | signal (t n : Nat)
  | enter (t size n : Nat)
  | calloc (nmemb count n : Nat)
  | free (n : Nat)
  | yield (status : ProcStat) (n : Nat)
  | raise (n : Nat)
  | lower
  | finish (n : Nat)
  deriving DecidableEq, Repr

namespace Lives

def updEntry (s : Lives) (t : Nat) (f : Entry → Entry) : Lives :=
  { s with entry := Function.update s.entry t (f (s.entry t)) }

def updLife (s : Lives) (t : Nat) (f : Life → Life) : Lives :=
  { s with life := Function.update s.life t (f (s.life t)) }

/-- The running thread returns. -/
def leave (s : Lives) : Lives := { s with running := none }

/-- `vk_stack_push`, by `f`. -/
def push (page nmemb count : Nat) (f : Frame) (s : Lives) : Option Lives :=
  match s.heap.stack.push page nmemb count with
  | (.err _, _) => none
  | (.ok _, _) =>
      (Stack.Traced.step page (.push nmemb count) s.heap).map fun heap =>
        { s with heap, frames := f :: s.frames }

/-- `vk_stack_pop`. -/
def pop (s : Lives) : SysResult Unit × Lives :=
  (s.heap.stack.pop.1,
    { s with heap := ⟨s.heap.stack.pop.2, s.heap.live.tail⟩, frames := s.frames.tail })

/-- `vk_init`.  The socket that found no room is initialized at `NULL`. -/
def init (page size : Nat) (s : Lives) : Option Lives :=
  (s.push page 1 size (.socket s.count)).map fun s' =>
    { s' with
      count := s.count + 1
      entry := Function.update s.entry s.count .init
      life := Function.update s.life s.count
        ⟨s.running, s.heap.stack.addrCursor, false, 0, false⟩ }

/-- `vk_deinit`. -/
def deinit (s : Lives) : Lives := s.pop.2.pop.2

/-- `func(that)`, up to where `vk_begin` has switched.  In the start case it pushes
`self`. -/
def enter (page t size n : Nat) (s : Lives) : Lives :=
  let s := s.updEntry t .begin
  if (s.entry t).counter = -1 then
    match s.push page 1 size (.mem t) with
    | some s => { s.updLife t fun l => { l with started := true } with running := some t }
    | none => s.updEntry t (.raise n)
  else { s with running := some t }

/-- `vk_calloc`. -/
def calloc (page t nmemb count n : Nat) (s : Lives) : Lives :=
  match s.push page nmemb count (.mem t) with
  | some s => s.updLife t fun l => { l with own := l.own + 1 }
  | none => (s.updEntry t (.raise n)).leave

/-- `vk_free`.  In `vk_finally` the error is only reported. -/
def free (t n : Nat) (s : Lives) : Lives :=
  let s' := s.pop.2.updLife t fun l => { l with own := l.own - 1 }
  match s.pop.1 with
  | .ok () => s'
  | .err _ => if (s'.entry t).counter = -2 then s' else (s'.updEntry t (.raise n)).leave

/-- `vk_end`, and then the executor. -/
def finish (t n : Nat) (s : Lives) : Lives :=
  ((s.updEntry t (.yield .ended n)).leave.deinit).updLife t fun l => { l with ended := true }

/-- A step of the running thread. -/
def inside (page t : Nat) : LifeAct → Lives → Option Lives
  | .init size, s => s.init page size
  | .calloc nmemb count n, s => some (s.calloc page t nmemb count n)
  | .free n, s => some (s.free t n)
  | .yield status n, s =>
      if status = .ended then none else some (s.updEntry t (.yield status n)).leave
  | .raise n, s => some (s.updEntry t (.raise n)).leave
  | .lower, s => some (s.updEntry t .lower).leave
  | .finish n, s => some (s.finish t n)
  | .signal u n, s => if u < s.count then some (s.updEntry u (.raiseAt n)).leave else none
  | .ready u, s => if u < s.count then some (s.updEntry u .ready) else none
  | .raiseAt u n, s => if u < s.count then some (s.updEntry u (.raiseAt n)) else none
  | _, _ => none

/-- A step while no thread runs. -/
def outside (page : Nat) : LifeAct → Lives → Option Lives
  | .kern nmemb count, s => s.push page nmemb count .kern
  | .init size, s => s.init page size
  | .ready t, s => if t < s.count then some (s.updEntry t .ready) else none
  | .raiseAt t n, s => if t < s.count then some (s.updEntry t (.raiseAt n)) else none
  | .enter t size n, s =>
      if t < s.count ∧ (s.entry t).isReady = true then some (s.enter page t size n) else none
  | _, _ => none

def step (page : Nat) (a : LifeAct) (s : Lives) : Option Lives :=
  match s.running with
  | some t => s.inside page t a
  | none => s.outside page a

/-- A process whose heap is empty. -/
def fresh (addr len : Nat) (link : Nat → Nat) : Lives where
  heap := .init addr len link
  frames := []
  running := none
  count := 0
  entry := fun _ => .init
  life := fun _ => ⟨none, 0, false, 0, true⟩

/-! ## What is claimed, of which coroutines, and when it holds -/

/-- `vk_deinit` leaves the cursor where it was before `vk_init`. -/
def Neutral (page : Nat) (a : LifeAct) (s : Lives) : Prop :=
  ∀ t n, s.running = some t → a = .finish n →
    ∀ s', step page a s = some s' → s'.heap.stack.addrCursor = (s.life t).mark

/-- A thread ends after its children, with as many calls of `vk_free` made as of
`vk_calloc`. -/
def Balanced : LifeAct → Lives → Prop
  | .finish _, s => ∀ t ∈ s.running,
      (s.life t).own = 0 ∧ ∀ c < s.count, (s.life c).parent = some t → (s.life c).ended = true
  | _, _ => True

/-- Whether `t` is the parent of `c`, or the parent's parent, up to `k` times. -/
def descends (s : Lives) (t : Nat) : Nat → Nat → Bool
  | 0, _ => false
  | k + 1, c =>
      match (s.life c).parent with
      | none => false
      | some p => p == t || descends s t k p

/-- The block is that of the thread, or of a descendant. -/
def within (s : Lives) (t : Nat) : Frame → Bool
  | .kern => false
  | .socket u | .mem u => u == t || s.descends t s.count u

/-- No push wraps the cursor, and no popped block is covered.  `vk_begin` starts a thread
once, and does not enter it after its end; `vk_free` pops a block of its own thread; and
a thread that ends was started, with only its own and its descendants' blocks above its
socket. -/
def Sane (page : Nat) : LifeAct → Lives → Prop
  | .kern nmemb count, s => Stack.Traced.wraps page nmemb count s.heap = false
  | .init size, s => Stack.Traced.wraps page 1 size s.heap = false
  | .enter t size _, s =>
      (s.life t).ended = false ∧ ((s.entry t).begin.counter = -1 →
        (s.life t).started = false ∧ Stack.Traced.wraps page 1 size s.heap = false)
  | .calloc nmemb count _, s => Stack.Traced.wraps page nmemb count s.heap = false
  | .free _, s => ∀ t ∈ s.running,
      s.frames.head? = some (.mem t) ∧ ∀ b ∈ s.heap.live.head?, b.covered = false
  | .finish _, s => ∀ t ∈ s.running,
      (s.life t).started = true ∧
        (∀ f ∈ s.frames.takeWhile (· ≠ .socket t), s.within t f = true) ∧
        ∀ b ∈ s.heap.live.take 2, b.covered = false
  | _, _ => True

instance : (a : LifeAct) → (s : Lives) → Decidable (Balanced a s)
  | .finish _, s => inferInstanceAs (Decidable (∀ t ∈ s.running, _ ∧ ∀ c < _, _ → _))
  | .kern .., _ | .init _, _ | .ready _, _ | .raiseAt .., _ | .signal .., _ | .enter .., _
  | .calloc .., _ | .free _, _ | .yield .., _ | .raise _, _ | .lower, _ => instDecidableTrue

instance (page : Nat) : (a : LifeAct) → (s : Lives) → Decidable (Sane page a s)
  | .kern .., _ | .init _, _ | .calloc .., _ => inferInstanceAs (Decidable (_ = false))
  | .enter .., _ => inferInstanceAs (Decidable (_ ∧ (_ → _ ∧ _)))
  | .free _, s => inferInstanceAs (Decidable (∀ t ∈ s.running,
      s.frames.head? = some (.mem t) ∧ ∀ b ∈ s.heap.live.head?, b.covered = false))
  | .finish _, s => inferInstanceAs (Decidable (∀ t ∈ s.running, _ ∧ (∀ f ∈ _, _) ∧ ∀ b ∈ _, _))
  | .ready _, _ | .raiseAt .., _ | .signal .., _ | .yield .., _ | .raise _, _ | .lower, _ =>
      instDecidableTrue

/-! ## What every step keeps -/

/-- Below a thread's socket there is no other block of the thread. -/
def Nested : List Frame → Prop
  | [] => True
  | .socket t :: rest => .mem t ∉ rest ∧ Nested rest
  | _ :: rest => Nested rest

/-- The thread was initialized and has not ended. -/
def Alive (s : Lives) (t : Nat) : Prop := t < s.count ∧ (s.life t).ended = false

instance (s : Lives) (t : Nat) : Decidable (s.Alive t) := inferInstanceAs (Decidable (_ ∧ _))

/-- The blocks of a thread that is alive are its socket, its `self` once it has started,
and what it took itself; a thread that has ended has none.  A thread ends after its
children. -/
structure Sound (page : Nat) (s : Lives) : Prop where
  heap : s.heap.Sound page
  marks : List.Forall₂ (fun f b => ∀ t, f = .socket t → b.mark = (s.life t).mark)
    s.frames s.heap.live
  sockets : ∀ t, s.frames.count (.socket t) = if s.Alive t then 1 else 0
  mems : ∀ t, (s.frames.count (.mem t) : Int) = if s.Alive t then (s.life t).taken else 0
  nested : Nested s.frames
  parents : ∀ c p, c < s.count → (s.life c).parent = some p →
    p < s.count ∧ ((s.life p).ended = true → (s.life c).ended = true)
  running : ∀ t, s.running = some t → s.Alive t

variable {page : Nat} {s s' : Lives} {t : Nat}

theorem Nested.tail {f : Frame} {fs : List Frame} (h : Nested (f :: fs)) : Nested fs := by
  cases f with
  | kern => exact h
  | socket t => exact h.2
  | mem t => exact h

/-- Control changes nothing that the invariant is about. -/
theorem Sound.control (h : Sound page s) (entry : Nat → Entry) {running : Option Nat}
    (hrunning : ∀ t, running = some t → s.Alive t) :
    Sound page { s with entry, running } :=
  ⟨h.heap, h.marks, h.sockets, h.mems, h.nested, h.parents, hrunning⟩

theorem Sound.leave (h : Sound page s) (entry : Nat → Entry) :
    Sound page { s with entry, running := none } :=
  h.control entry fun t ht => by cases ht

/-- A thread with a block is alive. -/
theorem Sound.alive_of_socket (h : Sound page s) (ht : .socket t ∈ s.frames) : s.Alive t := by
  by_contra hdead
  have hcount := h.sockets t
  rw [if_neg hdead] at hcount
  exact List.count_eq_zero.mp hcount ht

theorem Sound.alive_of_mem (h : Sound page s) (ht : .mem t ∈ s.frames) : s.Alive t := by
  by_contra hdead
  have hcount := h.mems t
  rw [if_neg hdead] at hcount
  exact List.count_eq_zero.mp (by omega) ht

/-! ## Pushes -/

/-- Covering a block moves no mark. -/
theorem forall₂_cover {R : Frame → Nat → Prop} {fs : List Frame} {live : List Stack.Allocation}
    (h : List.Forall₂ (fun f b => R f b.mark) fs live) :
    List.Forall₂ (fun f b => R f b.mark) fs (Stack.cover live) := by
  induction h with
  | nil => exact .nil
  | @cons f b fs rest hfb hrest ih =>
      simp only [Stack.cover]
      split
      · exact .cons hfb ih
      · exact .cons hfb hrest

/-- A push puts one block on top, and that its mark says where the cursor was. -/
theorem push_spec {nmemb count : Nat} {f : Frame} (h : s.push page nmemb count f = some s') :
    Stack.Traced.step page (.push nmemb count) s.heap = some s'.heap ∧
      s' = { s with heap := s'.heap, frames := f :: s.frames } ∧
      ∃ b rest, s'.heap.live = b :: rest ∧ b.mark = s.heap.stack.addrCursor ∧
        (rest = s.heap.live ∨ rest = Stack.cover s.heap.live) := by
  cases hpush : s.heap.stack.push page nmemb count with
  | mk rc stack =>
      cases rc with
      | err e =>
          simp only [push, hpush] at h
          cases h
      | ok addr =>
          have hstep := Stack.Traced.step_push hpush
          simp only [push, hpush, hstep, Option.map_some, Option.some.injEq] at h
          subst h
          refine ⟨hstep, rfl, _, _, rfl, rfl, ?_⟩
          split
          · exact Or.inr rfl
          · exact Or.inl rfl

/-- After a push the heap is sound, and the sockets' blocks have the threads' marks. -/
theorem Sound.pushed (hpage : 8 ≤ page) (h : Sound page s) {nmemb count : Nat} {f : Frame}
    (hwraps : Stack.Traced.wraps page nmemb count s.heap = false)
    (hpush : s.push page nmemb count f = some s') (life : Nat → Life)
    (hlife : ∀ t, .socket t ∈ s.frames → (life t).mark = (s.life t).mark)
    (hf : ∀ t, f = .socket t → s.heap.stack.addrCursor = (life t).mark) :
    s'.heap.Sound page ∧ List.Forall₂ (fun f b => ∀ t, f = .socket t → b.mark = (life t).mark)
      (f :: s.frames) s'.heap.live := by
  obtain ⟨hstep, -, b, rest, hlive, hmark, hrest⟩ := push_spec hpush
  refine ⟨h.heap.step (c := .push nmemb count) hpage hwraps hstep, ?_⟩
  have hmarks : List.Forall₂ (fun f b => ∀ t, f = .socket t → b.mark = (life t).mark)
      s.frames s.heap.live := by
    rw [List.forall₂_iff_zip]
    refine ⟨h.marks.length_eq, fun {f b} hzip t ht => ?_⟩
    have hmem := (List.of_mem_zip hzip).1
    rw [hlife t (ht ▸ hmem)]
    exact (List.forall₂_iff_zip.mp h.marks).2 hzip t ht
  rw [hlive]
  refine .cons (fun t ht => hmark.trans (hf t ht)) ?_
  obtain rfl | rfl := hrest
  · exact hmarks
  · exact forall₂_cover (R := fun f mark => ∀ t, f = .socket t → mark = (life t).mark) hmarks

/-- `vk_proc_alloc` and `vk_proc_alloc_thread`. -/
theorem Sound.kern (hpage : 8 ≤ page) (h : Sound page s) {nmemb count : Nat}
    (hwraps : Stack.Traced.wraps page nmemb count s.heap = false)
    (hpush : s.push page nmemb count .kern = some s') : Sound page s' := by
  obtain ⟨hheap, hmarks⟩ := h.pushed hpage hwraps hpush s.life (fun _ _ => rfl)
    fun t ht => by cases ht
  obtain ⟨-, hs', -⟩ := push_spec hpush
  rw [hs']
  refine ⟨hheap, hmarks, fun t => ?_, fun t => ?_, h.nested, h.parents, h.running⟩
  · dsimp only
    rw [List.count_cons_of_ne (by simp)]
    exact h.sockets t
  · dsimp only
    rw [List.count_cons_of_ne (by simp)]
    exact h.mems t

/-- A thread takes blocks of its own, or gives them back. -/
theorem Sound.update (h : Sound page s) (ht : s.Alive t) {l : Life} {heap : Stack.Traced}
    {frames : List Frame} (hparent : l.parent = (s.life t).parent)
    (hmark : l.mark = (s.life t).mark) (hended : l.ended = (s.life t).ended)
    (hheap : heap.Sound page)
    (hmarks : List.Forall₂ (fun f b => ∀ t, f = .socket t → b.mark = (s.life t).mark)
      frames heap.live)
    (hsockets : ∀ u, frames.count (.socket u) = s.frames.count (.socket u))
    (hmems : ∀ u, (frames.count (.mem u) : Int) =
      s.frames.count (.mem u) + if u = t then l.taken - (s.life t).taken else 0)
    (hnested : Nested frames) :
    Sound page { s with heap, frames, life := Function.update s.life t l } := by
  have hsame : ∀ u, (Function.update s.life t l u).parent = (s.life u).parent ∧
      (Function.update s.life t l u).mark = (s.life u).mark ∧
      (Function.update s.life t l u).ended = (s.life u).ended := by
    intro u
    by_cases hu : u = t
    · subst hu
      rw [Function.update_self]
      exact ⟨hparent, hmark, hended⟩
    · rw [Function.update_of_ne hu]
      exact ⟨rfl, rfl, rfl⟩
  have halive : ∀ u,
      Alive { s with heap, frames, life := Function.update s.life t l } u ↔ s.Alive u := by
    intro u
    show _ ∧ (Function.update s.life t l u).ended = false ↔ _
    rw [(hsame u).2.2]
    rfl
  refine ⟨hheap, hmarks.imp fun f b hfb u hu => ?_, fun u => ?_, fun u => ?_, hnested,
    fun c p hc hp => ?_, fun u hu => (halive u).mpr (h.running u hu)⟩
  · dsimp only
    rw [(hsame u).2.1]
    exact hfb u hu
  · rw [if_congr (halive u) rfl rfl, ← h.sockets u]
    exact hsockets u
  · rw [if_congr (halive u) rfl rfl]
    show (frames.count (.mem u) : Int) =
      if s.Alive u then (Function.update s.life t l u).taken else 0
    rw [hmems u, h.mems u]
    by_cases hu : u = t
    · subst hu
      rw [if_pos ht, if_pos ht, if_pos rfl, Function.update_self]
      omega
    · rw [if_neg hu, Function.update_of_ne hu, Int.add_zero]
  · dsimp only at hc hp ⊢
    rw [(hsame c).1] at hp
    rw [(hsame p).2.2, (hsame c).2.2]
    exact h.parents c p hc hp

/-- A block of the thread's own, counted as its `self` or as taken by `vk_calloc`. -/
theorem Sound.mem (hpage : 8 ≤ page) (h : Sound page s) {nmemb count : Nat}
    (hwraps : Stack.Traced.wraps page nmemb count s.heap = false)
    (hpush : s.push page nmemb count (.mem t) = some s') (ht : s.Alive t) {l : Life}
    (hparent : l.parent = (s.life t).parent) (hmark : l.mark = (s.life t).mark)
    (hended : l.ended = (s.life t).ended) (htaken : l.taken = (s.life t).taken + 1) :
    Sound page { s' with life := Function.update s.life t l } := by
  obtain ⟨hheap, hmarks⟩ := h.pushed hpage hwraps hpush s.life (fun _ _ => rfl)
    fun u hu => by cases hu
  obtain ⟨-, hs', -⟩ := push_spec hpush
  rw [hs']
  refine h.update ht hparent hmark hended hheap hmarks (fun u => ?_) (fun u => ?_) h.nested
  · rw [List.count_cons_of_ne (by simp)]
  · by_cases hu : u = t
    · subst hu
      rw [List.count_cons_self, if_pos rfl, htaken]
      omega
    · rw [List.count_cons_of_ne (by simpa using Ne.symm hu), if_neg hu, Int.add_zero]

/-- `vk_init`.  The new thread has its socket, and no child yet. -/
theorem Sound.init (hpage : 8 ≤ page) (h : Sound page s) {size : Nat}
    (hwraps : Stack.Traced.wraps page 1 size s.heap = false)
    (hinit : s.init page size = some s') : Sound page s' := by
  simp only [Lives.init, Option.map_eq_some_iff] at hinit
  obtain ⟨s₁, hpush, rfl⟩ := hinit
  have hdead : ¬s.Alive s.count := fun ht => absurd ht.1 (Nat.lt_irrefl _)
  have hne : ∀ u, s.Alive u → u ≠ s.count := by
    rintro u hu rfl
    exact hdead hu
  have hlife : ∀ u, u ≠ s.count → Function.update s.life s.count
      ⟨s.running, s.heap.stack.addrCursor, false, 0, false⟩ u = s.life u :=
    fun u hu => Function.update_of_ne hu _ _
  obtain ⟨hheap, hmarks⟩ := h.pushed hpage hwraps hpush
    (Function.update s.life s.count ⟨s.running, s.heap.stack.addrCursor, false, 0, false⟩)
    (fun u hu => by rw [hlife u (hne u (h.alive_of_socket hu))])
    (fun u hu => by
      cases hu
      rw [Function.update_self])
  obtain ⟨-, hs', -⟩ := push_spec hpush
  rw [hs']
  have halive : ∀ u, Alive { s with
      heap := s₁.heap, frames := .socket s.count :: s.frames, count := s.count + 1
      entry := Function.update s.entry s.count .init
      life := Function.update s.life s.count
        ⟨s.running, s.heap.stack.addrCursor, false, 0, false⟩ } u ↔ u = s.count ∨ s.Alive u := by
    intro u
    show u < s.count + 1 ∧ (Function.update s.life s.count _ u).ended = false ↔ _
    by_cases hu : u = s.count
    · subst hu
      rw [Function.update_self]
      exact ⟨fun _ => Or.inl rfl, fun _ => ⟨Nat.lt_succ_self _, rfl⟩⟩
    · rw [hlife u hu]
      exact ⟨fun h => Or.inr ⟨by omega, h.2⟩,
        fun h => (h.resolve_left hu).imp_left fun _ => by omega⟩
  refine ⟨hheap, hmarks, fun u => ?_, fun u => ?_,
    ⟨fun hmem => hdead (h.alive_of_mem hmem), h.nested⟩,
    fun c p hc hp => ?_, fun u hu => (halive u).mpr (Or.inr (h.running u hu))⟩
  · dsimp only
    rw [if_congr (halive u) rfl rfl]
    have hsockets := h.sockets u
    by_cases hu : u = s.count
    · subst hu
      rw [if_neg hdead] at hsockets
      rw [List.count_cons_self, hsockets, if_pos (Or.inl rfl)]
    · rw [List.count_cons_of_ne (by simpa using Ne.symm hu), hsockets,
        if_congr (or_iff_right hu) rfl rfl]
  · dsimp only
    rw [if_congr (halive u) rfl rfl, List.count_cons_of_ne (by simp)]
    have hmems := h.mems u
    by_cases hu : u = s.count
    · subst hu
      rw [if_neg hdead] at hmems
      rw [hmems, if_pos (Or.inl rfl), Function.update_self]
      rfl
    · rw [hlife u hu, hmems, if_congr (or_iff_right hu) rfl rfl]
  · dsimp only at hc hp ⊢
    by_cases hcnew : c = s.count
    · subst hcnew
      rw [Function.update_self] at hp
      have hrunning := h.running p hp
      rw [hlife p (hne p hrunning), hrunning.2]
      exact ⟨Nat.lt_succ_of_lt hrunning.1, fun hended => by cases hended⟩
    · rw [hlife c hcnew] at hp ⊢
      obtain ⟨hlt, hended⟩ := h.parents c p (by omega) hp
      rw [hlife p (Nat.ne_of_lt hlt)]
      exact ⟨Nat.lt_succ_of_lt hlt, hended⟩

/-! ## Pops -/

theorem forall₂_tail {α β : Type} {R : α → β → Prop} {as : List α} {bs : List β}
    (h : List.Forall₂ R as bs) : List.Forall₂ R as.tail bs.tail := by
  cases h with
  | nil => exact .nil
  | cons _ hrest => exact hrest

/-- After a pop the heap is sound, and the sockets' blocks have the threads' marks. -/
theorem popped (hpage : 8 ≤ page) (hheap : s.heap.Sound page)
    (hmarks : List.Forall₂ (fun f b => ∀ t, f = .socket t → b.mark = (s.life t).mark)
      s.frames s.heap.live)
    (hcovered : ∀ b ∈ s.heap.live.head?, b.covered = false) :
    s.pop.2.heap.Sound page ∧
      List.Forall₂ (fun f b => ∀ t, f = .socket t → b.mark = (s.life t).mark)
        s.pop.2.frames s.pop.2.heap.live :=
  ⟨hheap.pop hpage hcovered, forall₂_tail hmarks⟩

/-- `vk_free`, of a block of the thread's own. -/
theorem Sound.free (hpage : 8 ≤ page) (h : Sound page s) (ht : s.Alive t)
    (hhead : s.frames.head? = some (.mem t))
    (hcovered : ∀ b ∈ s.heap.live.head?, b.covered = false) {l : Life}
    (hparent : l.parent = (s.life t).parent) (hmark : l.mark = (s.life t).mark)
    (hended : l.ended = (s.life t).ended) (htaken : l.taken = (s.life t).taken - 1) :
    Sound page { s.pop.2 with life := Function.update s.life t l } := by
  obtain ⟨hheap, hmarks⟩ := popped hpage h.heap h.marks hcovered
  obtain ⟨fs, hfs⟩ : ∃ fs, s.frames = .mem t :: fs := List.head?_eq_some_iff.mp hhead
  have htail : s.pop.2.frames = fs := by
    show s.frames.tail = fs
    rw [hfs]
    rfl
  refine h.update ht hparent hmark hended hheap hmarks (fun u => ?_) (fun u => ?_) ?_
  · rw [htail, hfs, List.count_cons_of_ne (by simp)]
  · rw [htail, hfs]
    by_cases hu : u = t
    · subst hu
      rw [List.count_cons_self, if_pos rfl, htaken]
      omega
    · rw [List.count_cons_of_ne (by simpa using Ne.symm hu), if_neg hu, Int.add_zero]
  · have hnested := h.nested
    rw [hfs] at hnested
    exact htail ▸ hnested.tail

/-- The descendants of a thread have ended, if its children have. -/
theorem Sound.ended_of_descends (h : Sound page s)
    (hchildren : ∀ c < s.count, (s.life c).parent = some t → (s.life c).ended = true) {k c : Nat}
    (hc : c < s.count) (hd : s.descends t k c = true) : (s.life c).ended = true := by
  induction k generalizing c with
  | zero => cases hd
  | succ k ih =>
      simp only [descends] at hd
      split at hd
      · cases hd
      · rename_i p hp
        obtain ⟨hlt, hended⟩ := h.parents c p hc hp
        by_cases hpt : p = t
        · exact hchildren c hc (hpt ▸ hp)
        · rw [beq_false_of_ne hpt, Bool.false_or] at hd
          exact hended (ih hlt hd)

theorem Nested.append_right {fs gs : List Frame} (h : Nested (fs ++ gs)) : Nested gs := by
  induction fs with
  | nil => exact h
  | cons f fs ih => exact ih h.tail

/-- What is above a block, the block, and what is below. -/
theorem exists_takeWhile_append {f : Frame} {fs : List Frame} (h : f ∈ fs) :
    ∃ gs, fs = fs.takeWhile (· ≠ f) ++ f :: gs := by
  induction fs with
  | nil => cases h
  | cons g fs ih =>
      by_cases hg : g = f
      · exact ⟨fs, by simp [hg]⟩
      · obtain ⟨gs, hgs⟩ := ih ((List.mem_cons.mp h).resolve_left (Ne.symm hg))
        refine ⟨gs, ?_⟩
        rw [List.takeWhile_cons_of_pos (by simpa using hg), List.cons_append]
        exact congrArg (g :: ·) hgs

/-- A thread that ends has its two blocks on top, if it was started. -/
theorem Sound.frames_of_finish (h : Sound page s) (ht : s.Alive t)
    (hstarted : (s.life t).started = true) (hown : (s.life t).own = 0)
    (hchildren : ∀ c < s.count, (s.life c).parent = some t → (s.life c).ended = true)
    (hwithin : ∀ f ∈ s.frames.takeWhile (· ≠ .socket t), s.within t f = true) :
    ∃ fs, s.frames = .mem t :: .socket t :: fs ∧ .mem t ∉ fs ∧ .socket t ∉ fs := by
  have hsockets := h.sockets t
  have hmems := h.mems t
  rw [if_pos ht] at hsockets hmems
  rw [Life.taken, if_pos hstarted, hown] at hmems
  have hsocket : .socket t ∈ s.frames := List.count_pos_iff.mp (by omega)
  obtain ⟨fs, hfs⟩ := exists_takeWhile_append hsocket
  have habove : ∀ f ∈ s.frames.takeWhile (· ≠ .socket t), f = .mem t := by
    intro f hf
    have hmem : f ∈ s.frames := by
      rw [hfs]
      exact List.mem_append_left _ hf
    have hne : f ≠ .socket t := by simpa using List.mem_takeWhile_imp hf
    have hin := hwithin f hf
    -- a descendant has ended, and has no block
    have hdead : ∀ u, s.Alive u → s.descends t s.count u = false := by
      intro u hu
      by_contra hd
      rw [Bool.not_eq_false] at hd
      have hended := h.ended_of_descends hchildren hu.1 hd
      rw [hu.2] at hended
      cases hended
    cases f with
    | kern => cases hin
    | socket u =>
        simp only [within, hdead u (h.alive_of_socket hmem), Bool.or_false, beq_iff_eq] at hin
        exact absurd (congrArg Frame.socket hin) hne
    | mem u =>
        simp only [within, hdead u (h.alive_of_mem hmem), Bool.or_false, beq_iff_eq] at hin
        exact congrArg Frame.mem hin
  have hnested := h.nested
  rw [hfs] at hnested hsockets hmems
  have hbelow : .mem t ∉ fs := hnested.append_right.1
  generalize s.frames.takeWhile (· ≠ .socket t) = above at hfs habove hsockets hmems
  have hreplicate : above = List.replicate above.length (.mem t) :=
    List.eq_replicate_iff.mpr ⟨rfl, habove⟩
  rw [List.count_append, List.count_cons_of_ne (by simp), List.count_eq_zero.mpr hbelow,
    List.count_eq_length.mpr fun f hf => (habove f hf).symm] at hmems
  rw [List.count_append, List.count_cons_self] at hsockets
  have hone : above.length = 1 := by omega
  rw [hone] at hreplicate
  refine ⟨fs, ?_, hbelow, List.count_eq_zero.mp (by omega)⟩
  rw [hfs, hreplicate]
  rfl

/-- `vk_deinit` of a thread that has its two blocks on top takes the cursor back to
where it was before `vk_init`. -/
theorem Sound.deinit (hpage : 8 ≤ page) (h : Sound page s) {fs : List Frame}
    (hframes : s.frames = .mem t :: .socket t :: fs)
    (hcovered : ∀ b ∈ s.heap.live.take 2, b.covered = false) :
    (s.deinit.heap.Sound page ∧
      List.Forall₂ (fun f b => ∀ t, f = .socket t → b.mark = (s.life t).mark)
        fs s.deinit.heap.live) ∧ s.deinit.heap.stack.addrCursor = (s.life t).mark := by
  have hmarks := h.marks
  rw [hframes] at hmarks
  obtain ⟨b₁, live₁, -, hmarks₁, hlive⟩ := List.forall₂_cons_left_iff.mp hmarks
  obtain ⟨b₂, live₂, hmark, hmarks₂, hlive₁⟩ := List.forall₂_cons_left_iff.mp hmarks₁
  subst hlive₁
  rw [hlive] at hcovered
  obtain ⟨hheap, -⟩ := popped hpage h.heap h.marks fun b hb => by
    rw [hlive] at hb
    cases hb
    exact hcovered _ (by simp)
  have hhead : b₂ ∈ s.pop.2.heap.live.head? := by
    show b₂ ∈ s.heap.live.tail.head?
    rw [hlive]
    rfl
  have hclear : b₂.covered = false := hcovered _ (by simp)
  have hcursor : s.deinit.heap.stack.addrCursor = (s.life t).mark := by
    have hpop := hheap.pop_cursor hpage hhead
    rw [hclear] at hpop
    exact hpop.trans ((hheap.head hhead).1.trans (hmark t rfl))
  have hlive' : s.deinit.heap.live = live₂ := by
    show s.heap.live.tail.tail = live₂
    rw [hlive]
    rfl
  refine ⟨⟨hheap.pop hpage fun b hb => ?_, hlive' ▸ hmarks₂⟩, hcursor⟩
  rw [Option.mem_unique hb hhead]
  exact hclear

/-- A thread that has ended has no block, and the others have theirs. -/
theorem Sound.finish (h : Sound page s) (ht : s.Alive t) {fs : List Frame}
    (hframes : s.frames = .mem t :: .socket t :: fs) (hmem : .mem t ∉ fs)
    (hsocket : .socket t ∉ fs) {heap : Stack.Traced} (hheap : heap.Sound page)
    (hmarks : List.Forall₂ (fun f b => ∀ t, f = .socket t → b.mark = (s.life t).mark) fs heap.live)
    (hchildren : ∀ c < s.count, (s.life c).parent = some t → (s.life c).ended = true)
    (entry : Nat → Entry) :
    Sound page { s with
      heap, entry, frames := fs, running := none
      life := Function.update s.life t { s.life t with ended := true } } := by
  have hlife : ∀ u, u ≠ t →
      Function.update s.life t { s.life t with ended := true } u = s.life u :=
    fun u hu => Function.update_of_ne hu _ _
  have hsame : ∀ u, (Function.update s.life t { s.life t with ended := true } u).parent =
      (s.life u).parent ∧
        (Function.update s.life t { s.life t with ended := true } u).mark = (s.life u).mark := by
    intro u
    by_cases hu : u = t
    · subst hu
      rw [Function.update_self]
      exact ⟨rfl, rfl⟩
    · rw [hlife u hu]
      exact ⟨rfl, rfl⟩
  have halive : ∀ u, Alive { s with
      heap, entry, frames := fs, running := none
      life := Function.update s.life t { s.life t with ended := true } } u ↔
        u ≠ t ∧ s.Alive u := by
    intro u
    show u < s.count ∧ (Function.update s.life t _ u).ended = false ↔ _
    by_cases hu : u = t
    · subst hu
      rw [Function.update_self]
      exact ⟨fun h => (by cases h.2), fun h => absurd rfl h.1⟩
    · rw [hlife u hu]
      exact ⟨fun h => ⟨hu, h⟩, fun h => h.2⟩
  have hnested := h.nested
  rw [hframes] at hnested
  refine ⟨hheap, hmarks.imp fun f b hfb u hu => ?_, fun u => ?_, fun u => ?_, hnested.2,
    fun c p hc hp => ?_, fun u hu => by cases hu⟩
  · dsimp only
    rw [(hsame u).2]
    exact hfb u hu
  · rw [if_congr (halive u) rfl rfl]
    by_cases hu : u = t
    · subst hu
      rw [if_neg fun h => h.1 rfl]
      exact List.count_eq_zero.mpr hsocket
    · have hsockets := h.sockets u
      rw [hframes, List.count_cons_of_ne (by simp),
        List.count_cons_of_ne (by simpa using Ne.symm hu)] at hsockets
      rw [if_congr (and_iff_right hu) rfl rfl]
      exact hsockets
  · rw [if_congr (halive u) rfl rfl]
    by_cases hu : u = t
    · subst hu
      rw [if_neg fun h => h.1 rfl]
      exact congrArg Nat.cast (List.count_eq_zero.mpr hmem)
    · have hmems := h.mems u
      rw [hframes, List.count_cons_of_ne (by simpa using Ne.symm hu),
        List.count_cons_of_ne (by simp)] at hmems
      rw [if_congr (and_iff_right hu) rfl rfl]
      dsimp only
      rw [hlife u hu]
      exact hmems
  · dsimp only at hc hp ⊢
    rw [(hsame c).1] at hp
    obtain ⟨hlt, hended⟩ := h.parents c p hc hp
    refine ⟨hlt, fun hpe => ?_⟩
    by_cases hct : c = t
    · subst hct
      rw [Function.update_self]
    · rw [hlife c hct]
      by_cases hpt : p = t
      · exact hchildren c hc (hpt ▸ hp)
      · rw [hlife p hpt] at hpe
        exact hended hpe

/-! ## Runs -/

/-- A step of the running thread. -/
theorem Sound.inside (hpage : 8 ≤ page) (h : Sound page s) (ht : s.running = some t)
    {a : LifeAct} (hbalanced : Balanced a s) (hsane : Sane page a s)
    (hstep : s.inside page t a = some s') : Sound page s' := by
  have halive : s.Alive t := h.running t ht
  cases a with
  | kern nmemb count => cases hstep
  | enter u size n => cases hstep
  | init size =>
      exact h.init hpage hsane hstep
  | ready u =>
      simp only [Lives.inside] at hstep
      split at hstep <;> cases hstep
      exact h.control _ h.running
  | raiseAt u n =>
      simp only [Lives.inside] at hstep
      split at hstep <;> cases hstep
      exact h.control _ h.running
  | signal u n =>
      simp only [Lives.inside] at hstep
      split at hstep <;> cases hstep
      exact h.leave _
  | yield status n =>
      simp only [Lives.inside] at hstep
      split at hstep <;> cases hstep
      exact h.leave _
  | raise n =>
      cases hstep
      exact h.leave _
  | lower =>
      cases hstep
      exact h.leave _
  | calloc nmemb count n =>
      simp only [Lives.inside, Option.some.injEq, Lives.calloc] at hstep
      split at hstep
      · rename_i s₁ hpush
        subst hstep
        obtain ⟨-, hs₁, -⟩ := push_spec hpush
        have hlife : s₁.life = s.life := by rw [hs₁]
        have hmem := h.mem (l := { s.life t with own := (s.life t).own + 1 }) hpage hsane hpush
          halive rfl rfl rfl (Life.taken_own _ 1)
        simp only [updLife, hlife]
        exact hmem
      · subst hstep
        exact h.leave _
  | free n =>
      have hsane := hsane t ht
      simp only [Lives.inside, Option.some.injEq] at hstep
      subst hstep
      have hfree : Sound page (s.pop.2.updLife t fun l => { l with own := l.own - 1 }) :=
        h.free (l := { s.life t with own := (s.life t).own - 1 }) hpage halive hsane.1 hsane.2
          rfl rfl rfl (Life.taken_own _ (-1))
      simp only [Lives.free]
      split
      · exact hfree
      · split
        · exact hfree
        · exact hfree.leave _
  | finish n =>
      have hsane := hsane t ht
      have hbalanced := hbalanced t ht
      simp only [Lives.inside, Option.some.injEq] at hstep
      subst hstep
      obtain ⟨fs, hframes, hmem, hsocket⟩ :=
        h.frames_of_finish halive hsane.1 hbalanced.1 hbalanced.2 hsane.2.1
      obtain ⟨⟨hheap, hmarks⟩, -⟩ := h.deinit hpage hframes hsane.2.2
      have hfs : s.frames.tail.tail = fs := by
        rw [hframes]
        rfl
      have hfinish := h.finish halive hframes hmem hsocket hheap hmarks hbalanced.2
        (Function.update s.entry t (.yield .ended n (s.entry t)))
      rw [← hfs] at hfinish
      exact hfinish

/-- `func(that)`.  A thread that starts has its `self`, or an error. -/
theorem Sound.enter (hpage : 8 ≤ page) (h : Sound page s) {size n : Nat} (ht : s.Alive t)
    (hsane : (s.entry t).begin.counter = -1 →
      (s.life t).started = false ∧ Stack.Traced.wraps page 1 size s.heap = false) :
    Sound page (s.enter page t size n) := by
  have halive : ∀ u, some t = some u → s.Alive u := by
    intro u hu
    cases hu
    exact ht
  have hentry : ((s.updEntry t .begin).entry t).counter = (s.entry t).begin.counter :=
    congrArg Entry.counter (Function.update_self _ _ _)
  simp only [Lives.enter]
  split
  · rename_i hcounter
    obtain ⟨hstarted, hwraps⟩ := hsane (hentry.symm.trans hcounter)
    have h' : Sound page (s.updEntry t .begin) := h.control _ h.running
    split
    · rename_i s₁ hpush
      obtain ⟨-, hs₁, -⟩ := push_spec hpush
      have hlife : s₁.life = s.life := by rw [hs₁]; rfl
      have hmem := h'.mem (l := { s.life t with started := true }) hpage hwraps hpush ht rfl rfl rfl
        (Life.taken_start hstarted)
      simp only [updLife, hlife]
      refine hmem.control s₁.entry fun u hu => ?_
      cases hu
      refine ⟨?_, ?_⟩
      · show t < s₁.count
        rw [hs₁]
        exact ht.1
      · show (Function.update s.life t { s.life t with started := true } t).ended = false
        rw [Function.update_self]
        exact ht.2
    · exact h.control _ h.running
  · exact h.control _ halive

/-- A step while no thread runs. -/
theorem Sound.outside (hpage : 8 ≤ page) (h : Sound page s) {a : LifeAct} (hsane : Sane page a s)
    (hstep : s.outside page a = some s') : Sound page s' := by
  cases a with
  | kern nmemb count =>
      exact h.kern hpage hsane hstep
  | init size =>
      exact h.init hpage hsane hstep
  | ready u =>
      simp only [Lives.outside] at hstep
      split at hstep <;> cases hstep
      exact h.control _ h.running
  | raiseAt u n =>
      simp only [Lives.outside] at hstep
      split at hstep <;> cases hstep
      exact h.control _ h.running
  | enter u size n =>
      simp only [Lives.outside] at hstep
      split at hstep
      · rename_i hu
        cases hstep
        exact h.enter hpage ⟨hu.1, hsane.1⟩ hsane.2
      · cases hstep
  | signal u n => cases hstep
  | yield status n => cases hstep
  | raise n => cases hstep
  | lower => cases hstep
  | calloc nmemb count n => cases hstep
  | free n => cases hstep
  | finish n => cases hstep

theorem Sound.step (hpage : 8 ≤ page) (h : Sound page s) {a : LifeAct} (hbalanced : Balanced a s)
    (hsane : Sane page a s) (hstep : step page a s = some s') : Sound page s' := by
  simp only [Lives.step] at hstep
  split at hstep
  · rename_i t ht
    exact h.inside hpage ht hbalanced hsane hstep
  · exact h.outside hpage hsane hstep

/-- A thread that ends in a sound state gives back what it took. -/
theorem Sound.neutral (hpage : 8 ≤ page) (h : Sound page s) {a : LifeAct} (hbalanced : Balanced a s)
    (hsane : Sane page a s) : Neutral page a s := by
  rintro t n ht rfl s' hstep
  have hsane := hsane t ht
  have hbalanced := hbalanced t ht
  simp only [Lives.step, ht, Lives.inside, Option.some.injEq] at hstep
  subst hstep
  obtain ⟨fs, hframes, -, -⟩ :=
    h.frames_of_finish (h.running t ht) hsane.1 hbalanced.1 hbalanced.2 hsane.2.1
  exact (h.deinit hpage hframes hsane.2.2).2

theorem sound_fresh {addr len : Nat} (hstop : addr + len + page ≤ 2 ^ 64) (link : Nat → Nat) :
    Sound page (fresh addr len link) where
  heap := ⟨rfl, Nat.le_add_right _ _, hstop⟩
  marks := .nil
  sockets _ := (if_neg fun h => absurd h.1 (Nat.not_lt_zero _)).symm
  mems _ := (if_neg fun h => absurd h.1 (Nat.not_lt_zero _)).symm
  nested := trivial
  parents c _ hc := absurd hc (Nat.not_lt_zero c)
  running t ht := by cases ht

/-- **A thread's life is heap-neutral.**  In every run of coroutines that balance their
own blocks and end after their children, a thread that ends takes the cursor back to
where it was before its `vk_init`, provided it was started and what is above its socket
is its own or its descendants'. -/
theorem heap_neutral {addr len : Nat} (hpage : 8 ≤ page) (hstop : addr + len + page ≤ 2 ^ 64)
    (link : Nat → Nat) (acts : List LifeAct)
    (hbalanced : Meets (step page) Balanced acts (fresh addr len link))
    (hsane : Meets (step page) (Sane page) acts (fresh addr len link)) :
    Meets (step page) (Neutral page) acts (fresh addr len link) := by
  exact (hbalanced.and hsane).imp (I := Sound page)
    (fun _ _ _ h hC hstep => h.step hpage hC.1 hC.2 hstep)
    (fun _ _ h hC => h.neutral hpage hC.1 hC.2)
    (sound_fresh hstop link)

/-- A requestor and a responder to which it sends one request. -/
def request : List LifeAct :=
  [.kern 1 256, .kern 1 128, .init 512, .enter 0 40 0, .calloc 1 128 1, .init 512, .yield .yield 2,
    .ready 0, .enter 1 64 0, .finish 3, .enter 0 40 0, .free 4, .finish 5]

theorem heap_neutral_request :
    Meets (step 4096) (Neutral 4096) request (fresh 4096 139264 fun _ => 0) :=
  heap_neutral (by decide) (by decide) _ _ (by decide +kernel) (by decide +kernel)

/-- An error is raised at a thread before it starts: it is entered at its `vk_finally`,
and when it has ended the cursor is below the socket, in what the process had there. -/
theorem error_before_start_pops_other :
    Meets (step 4096) Balanced [.kern 1 256, .kern 1 128, .init 512, .raiseAt 0 3, .enter 0 40 0,
      .finish 5] (fresh 4096 139264 fun _ => 0) ∧
    ¬Meets (step 4096) (Neutral 4096) [.kern 1 256, .kern 1 128, .init 512, .raiseAt 0 3,
      .enter 0 40 0, .finish 5] (fresh 4096 139264 fun _ => 0) := by
  refine ⟨by decide +kernel, fun h => ?_⟩
  obtain ⟨s, hs, hend⟩ := (Option.any_eq_true _ _).mp
    (by decide +kernel : (run (step 4096) [.kern 1 256, .kern 1 128, .init 512, .raiseAt 0 3,
      .enter 0 40 0] (fresh 4096 139264 fun _ => 0)).any (fun s => decide (s.running = some 0 ∧
        (step 4096 (.finish 5) s).any fun s' =>
          decide (s'.heap.stack.addrCursor ≠ (s.life 0).mark))) = true)
  obtain ⟨hrunning, hend⟩ := of_decide_eq_true hend
  obtain ⟨s', hs', hne⟩ := (Option.any_eq_true _ _).mp hend
  have hneutral : Neutral 4096 (.finish 5) s := Meets.of_run h hs
  exact of_decide_eq_true hne (hneutral 0 5 hrunning rfl s' hs')

end Lives

end Vk

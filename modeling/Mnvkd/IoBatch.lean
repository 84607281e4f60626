/-
# `Mnvkd.IoBatch` — a round of requests

`vk_io_batch_sync_run` takes the first request of the queue of each stream, has it made, and
lists it; a request that waits for its descriptor is listed once more with the event it
waits for.  Two streams may share a queue, and a stream may have none.

A queue links the requests themselves, so a request is in one queue at most, and once;
that is what `IoQueues` carries with it.
-/
import Mnvkd.IoOp
import Mnvkd.Lib.Heads

namespace Vk

open Lib

/-- The queues, each a list of the requests linked in it.  A request has one link. -/
structure IoQueues where
  queue : Nat → List Nat
  apart : Apart queue

namespace IoQueues

/-- `vk_io_queue_init`, of every queue. -/
def init : IoQueues :=
  ⟨fun _ => [], fun _ => List.nodup_nil, fun _ _ _ h => absurd h List.not_mem_nil⟩

/-- `vk_io_queue_push`, of a request that is not linked. -/
def push (qs : IoQueues) (q op : Nat) (h : ∀ k, op ∉ qs.queue k) : IoQueues where
  queue := Function.update qs.queue q (qs.queue q ++ [op])
  apart := qs.apart.snoc q h

/-- `vk_io_queue_pop`. -/
def pop (qs : IoQueues) (q : Nat) : Option Nat × IoQueues :=
  ((qs.queue q).head?, ⟨Function.update qs.queue q (qs.queue q).tail, qs.apart.tail q⟩)

end IoQueues

/-- `struct vk_io_fd_stream`. -/
structure IoFdStream where
  fd : Nat
  q : Option Nat
  deriving DecidableEq, Repr

/-- The requests and the queues, and what has been listed. -/
structure IoBatch where
  ops : Nat → IoOp
  queues : IoQueues
  completed : List Nat
  needsPoll : List Pollfd

namespace IoBatch

/-- `want_events_for_kind`. -/
def wantEventsForKind : IoKind → Events
  | .read => POLLIN
  | .write => POLLOUT
  | .forward => 0
  | .flush => 0
  | .hup => 0

/-- What a request waits for. -/
def pollfd (op : IoOp) : Pollfd := ⟨op.fd, wantEventsForKind op.kind, 0⟩

/-- The request is listed as it was left. -/
def list (b : IoBatch) (ptr : Nat) (op : IoOp) : IoBatch :=
  { b with
    ops := Function.update b.ops ptr op
    completed := b.completed ++ [ptr]
    needsPoll := if op.state = .needsPoll then b.needsPoll ++ [pollfd op] else b.needsPoll }

/-- A turn of the loop, with what the system answers if it is asked. -/
def turn (b : IoBatch) (s : IoFdStream) (answer : SysResult Nat) : IoBatch :=
  match s.q with
  | none => b
  | some q =>
      match b.queues.pop q with
      | (none, _) => b
      | (some ptr, queues) =>
          let op := ((b.ops ptr).execRw answer).2
          { b with queues }.list ptr op

/-- `vk_io_batch_sync_run`. -/
def run (ops : Nat → IoOp) (queues : IoQueues) (streams : List (IoFdStream × SysResult Nat)) :
    IoBatch :=
  streams.foldl (fun b s => b.turn s.1 s.2) ⟨ops, queues, [], []⟩

/-! ## A round -/

/-- The queues that are asked, in the order of the streams. -/
def asked (streams : List (IoFdStream × SysResult Nat)) : List Nat :=
  streams.filterMap fun s => s.1.q

/-- The requests that wait for their descriptors, of those listed. -/
def waiting (ops : Nat → IoOp) (ptrs : List Nat) : List Pollfd :=
  (ptrs.filter fun ptr => (ops ptr).state = .needsPoll).map fun ptr => pollfd (ops ptr)

/-- Through the queues asked the state has gone from `b` to `b'`. -/
structure Went (keys : List Nat) (b b' : IoBatch) : Prop where
  queues : b'.queues.queue = left keys b.queues.queue
  completed : b'.completed = b.completed ++ heads keys b.queues.queue
  tried : ∀ ptr ∈ heads keys b.queues.queue,
    ∃ answer, b'.ops ptr = ((b.ops ptr).execRw answer).2
  others : ∀ ptr, ptr ∉ heads keys b.queues.queue → b'.ops ptr = b.ops ptr
  needsPoll : b'.needsPoll = b.needsPoll ++ waiting b'.ops (heads keys b.queues.queue)

section Round
variable {b b' : IoBatch} {keys : List Nat} {q ptr : Nat} {rest : List Nat}

/-- What is asked of an empty queue changes nothing. -/
theorem Went.cons_empty (hq : b.queues.queue q = []) (h : Went keys b b') :
    Went (q :: keys) b b' := by
  have hsame : Function.update b.queues.queue q (b.queues.queue q).tail = b.queues.queue := by
    rw [hq, List.tail_nil, ← hq]
    exact Function.update_eq_self _ _
  have hheads : heads (q :: keys) b.queues.queue = heads keys b.queues.queue := by
    rw [heads, hsame, hq]
    rfl
  have hleft : left (q :: keys) b.queues.queue = left keys b.queues.queue := by
    rw [left_cons, hsame]
  constructor
  · rw [hleft]
    exact h.queues
  · rw [hheads]
    exact h.completed
  · rw [hheads]
    exact h.tried
  · rw [hheads]
    exact h.others
  · rw [hheads]
    exact h.needsPoll

/-- The first request of a queue is tried and listed, and then the others are: it is not
among them. -/
theorem Went.cons (hq : b.queues.queue q = ptr :: rest) (answer : SysResult Nat)
    (h : Went keys
      ({ b with queues := (b.queues.pop q).2 }.list ptr ((b.ops ptr).execRw answer).2) b') :
    Went (q :: keys) b b' := by
  have hheads : heads (q :: keys) b.queues.queue =
      ptr :: heads keys (b.queues.pop q).2.queue := by
    simp only [heads, IoQueues.pop, hq, List.head?_cons, Option.toList_some, List.cons_append,
      List.nil_append]
  have hnodup := b.queues.apart.heads_nodup (q :: keys)
  rw [hheads] at hnodup
  obtain ⟨hnot, -⟩ := List.nodup_cons.mp hnodup
  have hptr : b'.ops ptr = ((b.ops ptr).execRw answer).2 :=
    (h.others ptr hnot).trans (Function.update_self _ _ _)
  constructor
  · rw [left_cons]
    exact h.queues
  · rw [hheads, h.completed]
    exact List.append_assoc _ _ _
  · rw [hheads]
    intro p hp
    obtain rfl | hlater := List.mem_cons.mp hp
    · exact ⟨answer, hptr⟩
    · obtain ⟨answer', ha⟩ := h.tried p hlater
      have hne : p ≠ ptr := fun heq => hnot (heq ▸ hlater)
      simp only [list, Function.update_of_ne hne] at ha
      exact ⟨answer', ha⟩
  · rw [hheads]
    intro p hp
    obtain ⟨hne, hp⟩ := not_or.mp (fun hor => hp (List.mem_cons.mpr hor))
    exact (h.others p hp).trans (Function.update_of_ne hne _ _)
  · rw [hheads, h.needsPoll]
    simp only [waiting, list, List.filter_cons, hptr, decide_eq_true_eq]
    split
    · rw [List.map_cons, hptr, List.append_assoc]
      rfl
    · rfl

/-- Every round goes through the queues of its streams. -/
theorem went_foldl (streams : List (IoFdStream × SysResult Nat)) (b : IoBatch) :
    Went (asked streams) b (streams.foldl (fun b s => b.turn s.1 s.2) b) := by
  induction streams generalizing b with
  | nil =>
      refine ⟨rfl, (List.append_nil _).symm, ?_, fun _ _ => rfl, (List.append_nil _).symm⟩
      intro ptr hptr
      cases hptr
  | cons s streams ih =>
      obtain ⟨⟨fd, stream⟩, answer⟩ := s
      cases stream with
      | none => exact ih b
      | some q =>
          cases hq : b.queues.queue q with
          | nil =>
              have hturn : b.turn ⟨fd, some q⟩ answer = b := by
                simp only [turn, IoQueues.pop, hq, List.head?_nil]
              rw [List.foldl_cons, hturn]
              exact Went.cons_empty hq (ih b)
          | cons ptr rest =>
              have hturn : b.turn ⟨fd, some q⟩ answer =
                  { b with queues := (b.queues.pop q).2 }.list ptr
                    ((b.ops ptr).execRw answer).2 := by
                simp only [turn, IoQueues.pop, hq, List.head?_cons]
              rw [List.foldl_cons, hturn]
              exact Went.cons hq answer (ih _)

/-! ## What a round should do -/

/-- What a request that waits is to be polled for: a read for bytes to read, a write for
room to write. -/
inductive Asks (op : IoOp) : Pollfd → Prop
  | read : op.kind = .read → Asks op ⟨op.fd, POLLIN, 0⟩
  | write : op.kind = .write → Asks op ⟨op.fd, POLLOUT, 0⟩

/-- From each stream's queue the first request is removed, if there is one, and the others
stay as they were; each is listed once, in the order of the streams, and is done, has
failed or waits; and those that wait are listed with what they are to be polled for. -/
structure Reports (ops : Nat → IoOp) (queues : IoQueues)
    (streams : List (IoFdStream × SysResult Nat)) (b : IoBatch) : Prop where
  removed : ∀ q, b.queues.queue q = (queues.queue q).drop ((asked streams).count q)
  completed : b.completed = heads (asked streams) queues.queue
  once : b.completed.Nodup
  exact : ∀ ptr, ptr ∈ b.completed ↔
    ∃ q, ptr ∈ (queues.queue q).take ((asked streams).count q)
  settled : ∀ ptr ∈ b.completed, (b.ops ptr).settled = true
  needsPoll : List.Forall₂ (fun ptr => Asks (ops ptr))
    (b.completed.filter fun ptr => (b.ops ptr).state = .needsPoll) b.needsPoll

/-- A request a call is made for is listed with what it is to be polled for. -/
theorem asks_pollfd {op : IoOp} (h : op.unmade = false) (answer : SysResult Nat) :
    Asks op (pollfd (op.execRw answer).2) := by
  obtain ⟨hfd, hkind⟩ := op.execRw_same answer
  rw [pollfd, hfd, hkind]
  cases hk : op.kind with
  | read => exact .read hk
  | write => exact .write hk
  | forward => simp [IoOp.unmade, hk] at h
  | flush => simp [IoOp.unmade, hk] at h
  | hup => simp [IoOp.unmade, hk] at h

/-- Only for a request a call is made for is there something to poll for. -/
theorem Asks.unmade {op : IoOp} {pfd : Pollfd} (h : Asks op pfd) : op.unmade = false := by
  cases h with
  | read hk => rw [IoOp.unmade, hk]
  | write hk => rw [IoOp.unmade, hk]

/-- **A round of requests.**  A round removes, lists and sorts the first requests of its
streams' queues as it should exactly when every request that comes up is one a call is
made for, or was done or had failed already. -/
theorem run_reports_iff (ops : Nat → IoOp) (queues : IoQueues)
    (streams : List (IoFdStream × SysResult Nat)) :
    Reports ops queues streams (run ops queues streams) ↔
      ∀ ptr ∈ heads (asked streams) queues.queue,
        (ops ptr).unmade = false ∨ (ops ptr).state = .done ∨ (ops ptr).state = .error := by
  have hwent := went_foldl streams ⟨ops, queues, [], []⟩
  have hcompleted : (run ops queues streams).completed = heads (asked streams) queues.queue :=
    hwent.completed
  have htried : ∀ ptr ∈ heads (asked streams) queues.queue,
      ∃ answer, (run ops queues streams).ops ptr = ((ops ptr).execRw answer).2 := hwent.tried
  -- a request that no call is made for stays in its state
  have hstays : ∀ ptr ∈ heads (asked streams) queues.queue, (ops ptr).unmade = true →
      (run ops queues streams).ops ptr = ops ptr := by
    intro ptr hptr hunmade
    obtain ⟨answer, hops⟩ := htried ptr hptr
    rw [hops, (ops ptr).execRw_of_unmade answer hunmade]
  have hpolled : List.Forall₂ (fun ptr => Asks (ops ptr))
        ((run ops queues streams).completed.filter fun ptr =>
          ((run ops queues streams).ops ptr).state = .needsPoll)
        (run ops queues streams).needsPoll ↔
      ∀ ptr ∈ (run ops queues streams).completed.filter fun ptr =>
          ((run ops queues streams).ops ptr).state = .needsPoll,
        Asks (ops ptr) (pollfd ((run ops queues streams).ops ptr)) := by
    have hwaiting : (run ops queues streams).needsPoll =
        waiting (run ops queues streams).ops (run ops queues streams).completed := by
      rw [hcompleted]
      exact hwent.needsPoll.trans (List.nil_append _)
    rw [hwaiting, waiting, List.forall₂_map_right_iff, List.forall₂_same]
  constructor
  · intro h ptr hptr
    have hlisted : ptr ∈ (run ops queues streams).completed := by rwa [hcompleted]
    obtain ⟨answer, hops⟩ := htried ptr hptr
    have hsettled := h.settled ptr hlisted
    rw [hops, (ops ptr).settled_execRw answer] at hsettled
    obtain hmade | hsettled := hsettled
    · exact Or.inl hmade
    · cases hunmade : (ops ptr).unmade with
      | false => exact Or.inl rfl
      | true =>
          refine Or.inr ((IoOp.settled_iff _).mp hsettled |>.elim Or.inl fun hor =>
            hor.elim Or.inr fun hwaits => ?_)
          -- it would be listed, with nothing to poll for
          have hin : ptr ∈ (run ops queues streams).completed.filter
              fun ptr => ((run ops queues streams).ops ptr).state = .needsPoll := by
            rw [List.mem_filter, hstays ptr hptr hunmade]
            exact ⟨hlisted, decide_eq_true hwaits⟩
          have hasks := hpolled.mp h.needsPoll ptr hin
          rw [hasks.unmade] at hunmade
          cases hunmade
  · intro h
    constructor
    · intro q
      exact congrFun hwent.queues q
    · exact hcompleted
    · rw [hcompleted]
      exact queues.apart.heads_nodup _
    · intro ptr
      rw [hcompleted]
      exact mem_heads _ _ ptr
    · intro ptr hptr
      rw [hcompleted] at hptr
      obtain ⟨answer, hops⟩ := htried ptr hptr
      rw [hops, (ops ptr).settled_execRw answer, IoOp.settled_iff]
      exact (h ptr hptr).imp_right fun hor => hor.imp_right Or.inl
    · refine hpolled.mpr fun ptr hptr => ?_
      obtain ⟨hptr, hwaits⟩ := List.mem_filter.mp hptr
      rw [hcompleted] at hptr
      cases hunmade : (ops ptr).unmade with
      | false =>
          obtain ⟨answer, hops⟩ := htried ptr hptr
          rw [hops]
          exact asks_pollfd hunmade answer
      | true =>
          -- done and failed are not listed
          have hstate := of_decide_eq_true hwaits
          rw [hstays ptr hptr hunmade] at hstate
          obtain hmade | hdone | herror := h ptr hptr
          · rw [hunmade] at hmade
            cases hmade
          · rw [hdone] at hstate
            cases hstate
          · rw [herror] at hstate
            cases hstate

end Round

/-- A request to flush, the only one of the only queue. -/
theorem flush_stays_pending :
    ¬Reports (fun _ => { IoOp.init with kind := .flush })
      (IoQueues.init.push 0 1 fun _ => List.not_mem_nil) [(⟨3, some 0⟩, .ok 0)]
      (run (fun _ => { IoOp.init with kind := .flush })
        (IoQueues.init.push 0 1 fun _ => List.not_mem_nil) [(⟨3, some 0⟩, .ok 0)]) := by
  intro h
  exact absurd (h.settled 1 (by decide)) (by decide)

end IoBatch

end Vk

/-
# `Lib.Channel` — a buffered byte channel with end-of-message marks

A channel between one sender and one receiver has a queue at each end and an
end-of-message mark on the sender's side.  Six things happen to it:

    push bs    the sender appends bs to its queue
    move n     n items go from the front of the sender's queue to the back of
               the receiver's
    pull bs    the receiver removes bs from the front of its queue
    mark       the sender marks the end of a message, and waits
    take       the receiver takes the mark
    pass       the sender, its mark gone, goes on

`step` lets the queues move as queues do, whatever the marks.  On that alone
everything pushed is what was pulled followed by what the two queues hold
(`pushed_eq`).  A channel is used in an `Orderly` way when the sender marks
only what it has flushed, pushes nothing while it waits, and the receiver
takes the mark only when nothing is left to pull; then the marks cut what was
pushed exactly where the takes cut what was pulled (`Consistent`).
-/
import Mathlib.Data.List.Infix
import Mnvkd.Lib.Run

namespace Lib

universe u

/-- The two queues, the mark, and whether the sender waits for it to be taken. -/
structure Channel (α : Type u) where
  sent : List α
  arrived : List α
  mark : Bool
  waiting : Bool

namespace Channel

variable {α : Type u}

/-- What happens to a channel. -/
inductive Event (α : Type u) where
  | push (bs : List α)
  | move (n : Nat)
  | pull (bs : List α)
  | mark
  | take
  | pass

/-- Empty queues, no mark. -/
def empty : Channel α := ⟨[], [], false, false⟩

/-- One event.  A move or a pull of more than is queued does not happen. -/
def step [DecidableEq α] : Event α → Channel α → Option (Channel α)
  | .push bs, c => some { c with sent := c.sent ++ bs }
  | .move n, c =>
      if n ≤ c.sent.length then
        some { c with sent := c.sent.drop n, arrived := c.arrived ++ c.sent.take n }
      else none
  | .pull bs, c =>
      if bs <+: c.arrived then some { c with arrived := c.arrived.drop bs.length } else none
  | .mark, c => some { c with mark := true, waiting := true }
  | .take, c => some { c with mark := false }
  | .pass, c => some { c with waiting := false }

/-- The mark an event leaves. -/
def Event.toMark : Event α → Bool → Bool
  | .mark, _ => true
  | .take, _ => false
  | .push _, b | .move _, b | .pull _, b | .pass, b => b

/-- Whether the sender waits after it. -/
def Event.toWaiting : Event α → Bool → Bool
  | .mark, _ => true
  | .pass, _ => false
  | .push _, b | .move _, b | .pull _, b | .take, b => b

/-- The mark a list of events leaves. -/
def markAfter (es : List (Event α)) (b : Bool) : Bool := es.foldl (fun b e => e.toMark b) b

def waitingAfter (es : List (Event α)) (b : Bool) : Bool := es.foldl (fun b e => e.toWaiting b) b

theorem markAfter_append (es fs : List (Event α)) (b : Bool) :
    markAfter (es ++ fs) b = markAfter fs (markAfter es b) := List.foldl_append

theorem waitingAfter_append (es fs : List (Event α)) (b : Bool) :
    waitingAfter (es ++ fs) b = waitingAfter fs (waitingAfter es b) := List.foldl_append

/-! ## Conservation -/

/-- Everything pushed, in order. -/
def pushed : List (Event α) → List α
  | [] => []
  | .push bs :: es => bs ++ pushed es
  | _ :: es => pushed es

/-- Everything pulled, in order. -/
def pulled : List (Event α) → List α
  | [] => []
  | .pull bs :: es => bs ++ pulled es
  | _ :: es => pulled es

theorem pushed_append (es fs : List (Event α)) : pushed (es ++ fs) = pushed es ++ pushed fs := by
  induction es with
  | nil => rfl
  | cons e es ih => cases e <;> simp [pushed, ih]

theorem pulled_append (es fs : List (Event α)) : pulled (es ++ fs) = pulled es ++ pulled fs := by
  induction es with
  | nil => rfl
  | cons e es ih => cases e <;> simp [pulled, ih]

/-- What was queued and pushed is what was pulled and is queued still: nothing
is lost, duplicated or reordered. -/
theorem pushed_eq [DecidableEq α] {es : List (Event α)} {c c' : Channel α} (h : run step es c = some c') :
    c.arrived ++ c.sent ++ pushed es = pulled es ++ c'.arrived ++ c'.sent := by
  induction es generalizing c with
  | nil => cases h; simp [pushed, pulled]
  | cons e es ih =>
      obtain ⟨d, hd, hrun⟩ := (run_cons step).mp h
      have ih := ih hrun
      cases e with
      | push bs =>
          cases hd
          simpa [pushed, pulled] using ih
      | move n =>
          simp only [step, Option.ite_none_right_eq_some, Option.some.injEq] at hd
          obtain ⟨-, rfl⟩ := hd
          simpa [pushed, pulled] using ih
      | pull bs =>
          simp only [step, Option.ite_none_right_eq_some, Option.some.injEq] at hd
          obtain ⟨⟨rest, hrest⟩, rfl⟩ := hd
          simp only [← hrest, List.drop_left, pulled, pushed] at ih ⊢
          simp only [List.append_assoc] at ih ⊢
          rw [ih]
      | mark => cases hd; exact ih
      | take => cases hd; exact ih
      | pass => cases hd; exact ih

/-- What an event shows.  A move does not show. -/
def Event.shown : Event α → List (Event α)
  | .move _ => []
  | .push bs => [.push bs]
  | .pull bs => [.pull bs]
  | .mark => [.mark]
  | .take => [.take]
  | .pass => [.pass]

theorem pushed_shown (es : List (Event α)) : pushed (es.flatMap Event.shown) = pushed es := by
  induction es with
  | nil => rfl
  | cons e es ih =>
      rw [List.flatMap_cons]
      cases e <;> simp [Event.shown, pushed, ih]

theorem pulled_shown (es : List (Event α)) : pulled (es.flatMap Event.shown) = pulled es := by
  induction es with
  | nil => rfl
  | cons e es ih =>
      rw [List.flatMap_cons]
      cases e <;> simp [Event.shown, pulled, ih]

/-! ## Messages -/

/-- A stream cut into messages: the finished ones, and the one being made. -/
structure Ledger (α : Type u) where
  closed : List (List α)
  current : List α

/-- What the sender has marked, what the receiver has taken, and how often the
sender went on. -/
structure History (α : Type u) where
  outbox : Ledger α
  inbox : Ledger α
  passes : Nat

def Ledger.add (l : Ledger α) (bs : List α) : Ledger α := { l with current := l.current ++ bs }

def Ledger.close (l : Ledger α) : Ledger α := ⟨l.closed ++ [l.current], []⟩

/-- Record one event. -/
def History.record (h : History α) : Event α → History α
  | .push bs => { h with outbox := h.outbox.add bs }
  | .pull bs => { h with inbox := h.inbox.add bs }
  | .mark => { h with outbox := h.outbox.close }
  | .take => { h with inbox := h.inbox.close }
  | .pass => { h with passes := h.passes + 1 }
  | .move _ => h

/-- The history of a run. -/
def history (es : List (Event α)) : History α := es.foldl History.record ⟨⟨[], []⟩, ⟨[], []⟩, 0⟩

/-- The sender marks only what it has flushed and pushes nothing while it
waits; the receiver takes a mark with nothing left to pull. -/
def Orderly : Event α → Channel α → Prop
  | .push bs, c => c.waiting = true → bs = []
  | .mark, c => c.waiting = false ∧ c.sent = []
  | .take, c => c.mark = true ∧ c.sent = [] ∧ c.arrived = []
  | .pass, c => c.waiting = true ∧ c.mark = false
  | .move _, _ => True
  | .pull _, _ => True

/-- A history that agrees with the channel.  While the mark stands the
receiver is one message behind, and that message is what it has pulled of it
followed by what has arrived. -/
structure Consistent (h : History α) (c : Channel α) : Prop where
  unmarked : c.mark = false →
    h.outbox.closed = h.inbox.closed ∧ h.outbox.current = h.inbox.current ++ c.arrived ++ c.sent
  marked : c.mark = true →
    h.outbox.closed = h.inbox.closed ++ [h.inbox.current ++ c.arrived] ∧
      h.outbox.current = [] ∧ c.sent = [] ∧ c.waiting = true
  passes : h.outbox.closed.length = h.passes + c.waiting.toNat

theorem consistent_empty : Consistent (history ([] : List (Event α))) empty :=
  ⟨fun _ => ⟨rfl, rfl⟩, fun h => absurd h (by simp [empty]), rfl⟩

/-- One orderly event keeps the history in agreement with the channel. -/
theorem Consistent.step [DecidableEq α] {h : History α} {e : Event α} {c c' : Channel α} (hc : Consistent h c)
    (ho : Orderly e c) (hstep : Channel.step e c = some c') : Consistent (h.record e) c' := by
  obtain ⟨hun, hma, hpa⟩ := hc
  cases e with
  | push bs =>
      cases hstep
      refine ⟨fun hm => ?_, fun hm => ?_, hpa⟩
      · obtain ⟨h₁, h₂⟩ := hun hm
        exact ⟨h₁, by simp [History.record, Ledger.add, h₂]⟩
      · obtain ⟨h₁, h₂, h₃, h₄⟩ := hma hm
        obtain rfl := ho h₄
        exact ⟨h₁, by simp [History.record, Ledger.add, h₂], by simp [h₃], h₄⟩
  | move n =>
      simp only [Channel.step, Option.ite_none_right_eq_some, Option.some.injEq] at hstep
      obtain ⟨-, rfl⟩ := hstep
      refine ⟨fun hm => ?_, fun hm => ?_, hpa⟩
      · obtain ⟨h₁, h₂⟩ := hun hm
        exact ⟨h₁, by simp [History.record, h₂]⟩
      · obtain ⟨h₁, h₂, h₃, h₄⟩ := hma hm
        exact ⟨by simp [History.record, h₁, h₃], h₂, by simp [h₃], h₄⟩
  | pull bs =>
      simp only [Channel.step, Option.ite_none_right_eq_some, Option.some.injEq] at hstep
      obtain ⟨⟨rest, hrest⟩, rfl⟩ := hstep
      refine ⟨fun hm => ?_, fun hm => ?_, hpa⟩
      · obtain ⟨h₁, h₂⟩ := hun hm
        exact ⟨h₁, by simp [History.record, Ledger.add, h₂, ← hrest]⟩
      · obtain ⟨h₁, h₂, h₃, h₄⟩ := hma hm
        exact ⟨by simp [History.record, Ledger.add, h₁, ← hrest], h₂, h₃, h₄⟩
  | mark =>
      cases hstep
      obtain ⟨hw, hs⟩ := ho
      have hm : c.mark = false := by
        cases hmark : c.mark with
        | false => rfl
        | true => exact absurd (hma hmark).2.2.2 (by simp [hw])
      obtain ⟨h₁, h₂⟩ := hun hm
      refine ⟨fun hm' => absurd hm' (by simp), fun _ => ⟨?_, rfl, hs, rfl⟩, ?_⟩
      · simp [History.record, Ledger.close, h₁, h₂, hs]
      · simp [History.record, Ledger.close, hpa, hw]
  | take =>
      cases hstep
      obtain ⟨hm, hs, ha⟩ := ho
      obtain ⟨h₁, h₂, h₃, h₄⟩ := hma hm
      refine ⟨fun _ => ⟨?_, ?_⟩, fun hm' => absurd hm' (by simp), hpa⟩
      · simp [History.record, Ledger.close, h₁, ha]
      · simp [History.record, Ledger.close, h₂, hs, ha]
  | pass =>
      cases hstep
      obtain ⟨hw, hm⟩ := ho
      refine ⟨fun _ => hun hm, fun hm' => absurd hm' (by simp [hm]), ?_⟩
      simp only [History.record, hpa, hw, Bool.toNat_true, Bool.toNat_false, Nat.add_zero]

/-- An orderly run keeps them in agreement. -/
theorem consistent_run [DecidableEq α] {es : List (Event α)} {h : History α} {c c' : Channel α}
    (hc : Consistent h c) (ho : Meets Channel.step Orderly es c)
    (hrun : run Channel.step es c = some c') : Consistent (es.foldl History.record h) c' := by
  induction es generalizing h c with
  | nil => cases hrun; exact hc
  | cons e es ih =>
      obtain ⟨d, hd, hrun⟩ := (run_cons _).mp hrun
      exact ih (hc.step ho.1 hd) (ho.2 d hd) hrun

/-- The receiver's messages are the sender's first ones. -/
theorem Consistent.closed_prefix {h : History α} {c : Channel α} (hc : Consistent h c) :
    h.inbox.closed <+: h.outbox.closed := by
  cases hm : c.mark with
  | false => rw [(hc.unmarked hm).1]
  | true => rw [(hc.marked hm).1]; exact List.prefix_append _ _

/-- Between the receiver and the sender there is at most the message the mark
stands for, and the sender has gone on no more often than marks were taken. -/
theorem Consistent.counts {h : History α} {c : Channel α} (hc : Consistent h c) :
    h.passes ≤ h.inbox.closed.length ∧ h.inbox.closed.length ≤ h.outbox.closed.length ∧
      h.outbox.closed.length ≤ h.passes + 1 := by
  have hp := hc.passes
  cases hm : c.mark with
  | false =>
      have h₁ := congrArg List.length (hc.unmarked hm).1
      have : c.waiting.toNat ≤ 1 := Bool.toNat_le _
      omega
  | true =>
      obtain ⟨h₁, -, -, h₄⟩ := hc.marked hm
      have h₁ := congrArg List.length h₁
      simp only [List.length_append, List.length_cons, List.length_nil] at h₁
      rw [h₄, Bool.toNat_true] at hp
      omega

end Channel

end Lib

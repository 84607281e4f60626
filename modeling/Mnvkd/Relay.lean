/-
# `Mnvkd.Relay` — a row of forwards

Each stage of a relay forwards what it reads: the first from a descriptor, the last to
one, and between two of them is a virtual pipe.  The stages take their turns in any
order, stop in the middle, and wake one another.  What a pipe carries is what is sent
at its one end and received at its other, and what a forward receives it sends; so the
equations of the source, of the pipes and of the sink add up to one of the whole row
(`relay_exact`).
-/
import Mnvkd.ForwardExact
import Mnvkd.FdStream

namespace Vk

open Lib Errno

/-- Socket `s` is only forwarded: no turn reads into memory or writes from it. -/
def OnlyForwards (s : Nat) (a : Act) (m : Machine) : Prop :=
  match m.stage, a with
  | .inside t, .co .turn => ∀ p ∈ m.pos t, p.2 = s → p.1 ∉ [IoLoop.read, .readline, .write]
  | _, _ => True

instance (s : Nat) (a : Act) (m : Machine) : Decidable (OnlyForwards s a m) := by
  unfold OnlyForwards
  split
  · infer_instance
  · infer_instance

/-- What is on its way behind socket `s`, to the last of the sockets `rest`. -/
def behind (pl : ProcLocal) (s : Nat) : List Nat → List UInt8
  | [] => txQueue pl s
  | r :: rest => behind pl r rest ++ (rxQueue pl r ++ txQueue pl s)

/-- A row of sockets, with a virtual pipe from each to the next: the first reads from a
descriptor, and the last writes to one. -/
structure Relay (s : Nat) (rest : List Nat) (m : Machine) : Prop where
  source : FdSource s m
  pipes : (s :: rest).IsChain (Joined m.pl)
  sink : FdSink (rest.getLastD s) m

/-- The sockets of the row are only forwarded, and its two descriptors answer what they
are asked. -/
structure RelayStep (s : Nat) (rest : List Nat) (a : Act) (m : Machine) : Prop where
  reads : ReadsWithin s a m
  forwards : ∀ r ∈ s :: rest, OnlyForwards r a m
  writes : WritesWithin (rest.getLastD s) a m

instance (s : Nat) (rest : List Nat) (a : Act) (m : Machine) : Decidable (RelayStep s rest a m) :=
  decidable_of_iff (ReadsWithin s a m ∧ (∀ r ∈ s :: rest, OnlyForwards r a m) ∧
      WritesWithin (rest.getLastD s) a m)
    ⟨fun h => ⟨h.1, h.2.1, h.2.2⟩, fun h => ⟨h.reads, h.forwards, h.writes⟩⟩

section Relays

variable {m m' : Machine} {a : Act} {as : List Act} {s r w : Nat} {rest : List Nat}

theorem receives_eq_sends (h : OnlyForwards s a m) : m.receives s a = m.sends s a := by
  unfold Machine.receives Machine.sends Machine.turnOn
  unfold OnlyForwards at h
  split
  next t hst =>
    simp only [hst] at h
    split
    next k b hpos =>
      have hk := h (k, b) hpos
      split
      next hb =>
        have hk := hk hb.1
        cases k <;> simp_all [receivedBy, sentBy]
      next => rfl
    next => rfl
  next => rfl

/-- Leaving a loop moves no byte. -/
theorem leaveEvents_moves_none (w : Nat) (pl : ProcLocal) (k : IoLoop) (b : Nat) :
    Channel.pushed (leaveEvents w pl k b) = [] ∧ Channel.pulled (leaveEvents w pl k b) = [] := by
  cases k with
  | hupFlush | hup =>
      simp only [leaveEvents]
      split <;> exact ⟨rfl, rfl⟩
  | read | readline | write | forward | pollread | flush | once => exact ⟨rfl, rfl⟩

/-- What a turn writes to a pipe is what it sends on its first socket. -/
theorem pushed_turnEvents (hne : w ≠ r) (pl : ProcLocal) (k : IoLoop) (b : Nat) :
    Channel.pushed (turnEvents w r pl k b)
      = if b = w ∧ (k.loop w).test pl = true then sentBy pl k w else [] := by
  unfold turnEvents
  by_cases htest : (k.loop b).test pl = true
  · rw [if_pos htest]
    by_cases hb : b = w
    · subst hb
      rw [if_pos ⟨rfl, htest⟩]
      cases k <;> simp [bodyEvents, sentBy, Channel.pushed, hne]
    · have hno : ¬(b = w ∧ (k.loop w).test pl = true) := fun h => hb h.1
      rw [if_neg hno]
      cases k with
      | read | readline | forward =>
          simp only [bodyEvents, if_neg hb]
          split <;> rfl
      | write =>
          simp only [bodyEvents, if_neg hb]
          rfl
      | pollread | flush | hupFlush | hup | once => rfl
  · have hno : ¬(b = w ∧ (k.loop w).test pl = true) := by
      rintro ⟨rfl, h⟩
      exact htest h
    rw [if_neg htest, if_neg hno]
    exact (leaveEvents_moves_none w pl k b).1

/-- What it delivers from a pipe is what it receives from the second. -/
theorem pulled_turnEvents (hne : w ≠ r) (pl : ProcLocal) (k : IoLoop) (b : Nat) :
    Channel.pulled (turnEvents w r pl k b)
      = if b = r ∧ (k.loop r).test pl = true then receivedBy pl k r else [] := by
  unfold turnEvents
  by_cases htest : (k.loop b).test pl = true
  · rw [if_pos htest]
    by_cases hb : b = r
    · subst hb
      rw [if_pos ⟨rfl, htest⟩]
      cases k <;> simp [bodyEvents, receivedBy, Channel.pulled, hne.symm]
    · have hno : ¬(b = r ∧ (k.loop r).test pl = true) := fun h => hb h.1
      rw [if_neg hno]
      cases k with
      | read | readline =>
          simp only [bodyEvents, if_neg hb]
          rfl
      | write | forward =>
          simp only [bodyEvents, if_neg hb]
          split <;> rfl
      | pollread | flush | hupFlush | hup | once => rfl
  · have hno : ¬(b = r ∧ (k.loop r).test pl = true) := by
      rintro ⟨rfl, h⟩
      exact htest h
    rw [if_neg htest, if_neg hno]
    exact (leaveEvents_moves_none w pl k b).2

/-- What a step shows of a pipe that is not read off its sockets' turns moves no byte. -/
theorem pipeEvents_cases (w r : Nat) (a : Act) (m : Machine) :
    (∃ t k b, m.stage = .inside t ∧ a = .co .turn ∧ m.pos t = some (k, b) ∧
      pipeEvents w r a m = turnEvents w r m.pl k b) ∨
    (Channel.pushed (pipeEvents w r a m) = [] ∧ Channel.pulled (pipeEvents w r a m) = [] ∧
      ∀ shows s, m.turnOn shows s a = []) := by
  unfold pipeEvents Machine.turnOn
  split
  next t hst =>
    cases hpos : m.pos t with
    | none => exact Or.inr ⟨rfl, rfl, fun _ _ => by simp only [hst, hpos]⟩
    | some p => exact Or.inl ⟨t, p.1, p.2, hst, rfl, hpos, rfl⟩
  next t b hst =>
    refine Or.inr ⟨?_, ?_, fun _ _ => by simp only [hst]⟩
    all_goals split <;> rfl
  next hturn hreadhup =>
    refine Or.inr ⟨rfl, rfl, fun _ _ => ?_⟩
    split
    next t hst => exact absurd rfl (hturn t hst)
    next => rfl

theorem pushed_sends (hne : w ≠ r) : Channel.pushed (pipeEvents w r a m) = m.sends w a := by
  rcases pipeEvents_cases w r a m with ⟨t, k, b, hst, rfl, hpos, hevents⟩ | ⟨hpushed, -, hnone⟩
  · rw [hevents, pushed_turnEvents hne, Machine.sends, Machine.turnOn_turn hst hpos]
  · rw [hpushed, Machine.sends, hnone]

theorem pulled_receives (hne : w ≠ r) : Channel.pulled (pipeEvents w r a m) = m.receives r a := by
  rcases pipeEvents_cases w r a m with ⟨t, k, b, hst, rfl, hpos, hevents⟩ | ⟨-, hpulled, hnone⟩
  · rw [hevents, pulled_turnEvents hne, Machine.receives, Machine.turnOn_turn hst hpos]
  · rw [hpulled, Machine.receives, hnone]

/-- One step of a row, from the transmit ring of its first socket on. -/
theorem behind_step (hpipes : (s :: rest).IsChain (Joined m.pl)) (hsink : FdSink (rest.getLastD s) m)
    (hforwards : ∀ r ∈ rest, OnlyForwards r a m) (hwrites : WritesWithin (rest.getLastD s) a m)
    (hstep : Machine.step a m = some m') :
    behind m.pl s rest ++ m.sends s a = m.accepts (rest.getLastD s) a ++ behind m'.pl s rest := by
  induction rest generalizing s with
  | nil => exact hsink.queue_step hwrites hstep
  | cons r rest ih =>
      obtain ⟨hj, hpipes⟩ := List.isChain_cons_cons.mp hpipes
      rw [List.getLastD_cons] at hsink hwrites ⊢
      have hlater := ih hpipes hsink (fun b hb => hforwards b (List.mem_cons_of_mem r hb)) hwrites
      have hpipe := (pipe_step hj hstep).2
      rw [pushed_sends hj.ne, pulled_receives hj.ne,
        receives_eq_sends (hforwards r List.mem_cons_self)] at hpipe
      calc behind m.pl s (r :: rest) ++ m.sends s a
          = behind m.pl r rest ++ (rxQueue m.pl r ++ txQueue m.pl s ++ m.sends s a) := by
            simp only [behind, List.append_assoc]
        _ = behind m.pl r rest ++ m.sends r a ++ (rxQueue m'.pl r ++ txQueue m'.pl s) := by
            rw [hpipe, List.append_assoc]
        _ = m.accepts (rest.getLastD r) a ++ behind m'.pl s (r :: rest) := by
            rw [hlater, behind, List.append_assoc]

theorem Relay.step (h : Relay s rest m) (hstep : Machine.step a m = some m') : Relay s rest m' where
  source := h.source.step hstep
  pipes := h.pipes.imp fun _ _ hj => (pipe_step hj hstep).1
  sink := h.sink.step hstep

/-- What a row of forwards has in it, and what its source gives it, is what its sink
accepts and what it has in it then: over every order of the steps of the coroutines,
however the stream is cut and whichever of the stages are slow. -/
theorem relay_exact (h : Relay s rest m) (hc : Meets Machine.step (RelayStep s rest) as m)
    (hrun : run Machine.step as m = some m') :
    behind m.pl s rest ++ rxQueue m.pl s ++ trace Machine.step (fun a m => m.gives s a) as m
      = trace Machine.step (fun a m => m.accepts (rest.getLastD s) a) as m
        ++ (behind m'.pl s rest ++ rxQueue m'.pl s) := by
  refine run_queue (fun m => behind m.pl s rest ++ rxQueue m.pl s)
    (fun _ _ _ (h : Relay s rest _) _ hstep => h.step hstep) (fun a m m' h hc hstep => ?_) h hc hrun
  have hfirst := h.source.queue_step hc.reads hstep
  have hlater := behind_step h.pipes h.sink (fun r hr => hc.forwards r (List.mem_cons_of_mem s hr))
    hc.writes hstep
  rw [receives_eq_sends (hc.forwards s List.mem_cons_self)] at hfirst
  rw [List.append_assoc, hfirst, ← List.append_assoc, hlater, List.append_assoc]

end Relays

/-! ## A relay of two stages -/

theorem wired_pipeline : ProcLocal.Wired pipeline.pl := fun s w => by
  unfold pipeline Socket.init
  dsimp only
  refine ⟨?_, ?_⟩
  · split <;> exact nofun
  · split <;> exact nofun

theorem relay_pipeline : Relay 0 [1] pipeline where
  source := {
    fd := ⟨⟨3, rfl⟩, fun b hb => by
      unfold pipeline Socket.init at hb
      dsimp only at hb
      split at hb <;> cases hb⟩
    notListen := fun h => by cases h
    wired := wired_pipeline
    rings := ringsWf_pipeline }
  pipes := by simpa using joined_pipeline
  sink := {
    fd := ⟨⟨4, rfl⟩, fun b hb => by
      unfold pipeline Socket.init at hb
      dsimp only at hb
      split at hb <;> cases hb⟩
    wired := wired_pipeline
    rings := ringsWf_pipeline }

/-- The second stage waits.  The first forwards two bytes and one, and waits; and then
the second forwards them to a sink that takes two. -/
def relaying : List Act :=
  [.play 0, .play 1, .start, .exec, .exec, .co (.call (.forward 1 100))] ++
  waitsOnce (.err EAGAIN) (.ok 0) ++ [.exec, .exec, .co (.call (.forward 0 100))] ++
  waitsOnce (.ok [97, 98]) (.ok 0) ++ waitsOnce (.ok [99]) (.ok 0) ++
  waitsOnce (.err EAGAIN) (.ok 0) ++ waitsOnce (.err EAGAIN) (.ok 0) ++ [.exec, .exec] ++
  waitsOnce (.err EAGAIN) (.ok 2)

theorem relay_exact_pipeline : ∃ m', run Machine.step relaying pipeline = some m' ∧
    [97, 98, 99] = [97, 98] ++ (behind m'.pl 0 [1] ++ rxQueue m'.pl 0) := by
  obtain ⟨m', hm'⟩ := Option.isSome_iff_exists.mp
    (by decide +kernel : (run Machine.step relaying pipeline).isSome = true)
  have hexact := relay_exact relay_pipeline
    (by decide +kernel : Meets Machine.step (RelayStep 0 [1]) relaying pipeline) hm'
  have hgives : trace Machine.step (fun a m => m.gives 0 a) relaying pipeline = [97, 98, 99] := by
    decide +kernel
  have haccepts : trace Machine.step (fun a m => m.accepts ([1].getLastD 0) a) relaying pipeline
      = [97, 98] := by decide +kernel
  rw [hgives, haccepts] at hexact
  exact ⟨m', hm', hexact⟩

end Vk

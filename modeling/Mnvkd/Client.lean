/-
# `Mnvkd.Client` — the parent of a client

`vk_connection_client` connects, plays a receiver and a sender on the connection, and
pauses until both have completed.  A pause ends where someone plays the thread, or where
it is resumed from a socket it has waited for.  The parent has waited for none, the end
of a child plays no one, and so the pause is its last.

The process ends all the same.  When both children have ended none of it runs or is
blocked, and the kernel takes it for a zombie.
-/
import Mnvkd.Ended
import Mnvkd.Responder

namespace Vk

open Lib

namespace Machine

variable {m m' : Machine} {a : Act} {p t u b : Nat} {kids : List Nat}

/-! ## The children -/

/-- Each pipe of the process is a descriptor. -/
def Physical (m : Machine) : Prop := ∀ s w, ¬ m.pl.Peer s w

/-- The kernel plays no thread, and a child plays children only and uses the sockets that
block it. -/
def MindsOwn (kids : List Nat) : Act → Machine → Prop
  | .play _, _ => False
  | .co (.play u), _ => u ∈ kids
  | .co (.readhup s), m => m.stage = .inside (m.pl.blockedVk s)
  | .co (.call c), m => m.stage = .inside (m.pl.blockedVk c.socketPtr)
  | _, _ => True

/-- The children of a parent that has paused: they and no others are in the queues, and of
those that have ended none is, once the executor has cleaned up. -/
structure Minding (p : Nat) (kids : List Nat) (m : Machine) : Prop where
  orderly : Orderly m
  physical : Physical m
  orphan : p ∉ kids
  parked : Parked p m
  run : ∀ u ∈ m.pl.runQ, u ∈ kids
  current : ∀ u ∈ m.current, u ∈ kids ∨ u = p
  blocked : ∀ b ∈ m.pl.blockedQ, m.pl.blockedVk b ∈ kids
  inside : ∀ u, m.stage = .inside u → ¬Ended u m
  dead : ∀ u, Ended u m → m.stage = .back u ∨
    u ∉ m.pl.runQ ∧ ∀ b ∈ m.pl.blockedQ, m.pl.blockedVk b ≠ u

section Step
variable (h : Minding p kids m)
include h

/-- A thread that runs is a child. -/
theorem Minding.kid (hst : m.stage = .inside t) : t ∈ kids := by
  have hcurrent : t ∈ m.current := by
    rw [Machine.current, hst]
    rfl
  refine (h.current t hcurrent).resolve_right fun htp => ?_
  exact h.parked.rests.paused (htp ▸ hst)

/-- So is a thread that comes back to wait. -/
theorem Minding.kid_back (hst : m.stage = .back t) (hwait : (m.pl.threads t).status = .wait) :
    t ∈ kids := by
  have hcurrent : t ∈ m.current := by
    rw [Machine.current, hst]
    rfl
  refine (h.current t hcurrent).resolve_right fun htp => ?_
  exact h.parked.rests.not_wait (htp ▸ hwait)

/-- What a step may wake is a child. -/
theorem Minding.wakes (hstep : step a m = some m') (hminds : MindsOwn kids a m)
    (hwake : MayWake a m u) : u ∈ kids := by
  have hpeer : ∀ s, ¬ m.pl.PeerBlocks s u := fun s ⟨w, hw, _⟩ => h.physical s w hw
  cases stepped hstep with
  | start hst | answer hst | exec _ hst => simp [MayWake, hst] at hwake
  | play hst v => exact hminds.elim
  | retry hst s os hs =>
      simp only [MayWake, hst] at hwake
      rw [hwake.resolve_right (hpeer s)]
      exact h.blocked s hs
  | unblock v hst os =>
      simp only [MayWake, hst] at hwake
      obtain ⟨-, s, -, hblocks⟩ := hwake
      exact absurd hblocks (hpeer s)
  | co v hst c =>
      have hkid := h.kid hst
      cases c with
      | play w =>
          simp only [MayWake, hst] at hwake
          rw [hwake]
          exact hminds
      | readhup s =>
          simp only [MayWake, hst] at hwake
          rw [hwake.resolve_right (hpeer s)]
          exact hkid
      | call | turn | store | raise | stop =>
          simp only [MayWake, hst] at hwake
          rw [hwake]
          exact hkid

/-- A socket that comes into the blocked queue blocks a child that has not ended. -/
theorem Minding.queues (hstep : step a m = some m') (hminds : MindsOwn kids a m)
    (hb : b ∈ m'.pl.blockedQ) : b ∈ m.pl.blockedQ ∨
      m.pl.blockedVk b ∈ kids ∧ ¬Ended (m.pl.blockedVk b) m := by
  rcases blockedQ_step hstep h.orderly.queued hb with
    hold | ⟨t, hst, hwait, hs⟩ | ⟨t, -, rfl⟩ | ⟨t, op, -, rfl, -⟩
  · exact Or.inl hold
  · right
    rw [h.orderly.backsOwn t b hst hwait hs]
    refine ⟨h.kid_back hst hwait, fun hended => ?_⟩
    rw [Ended, hwait] at hended
    cases hended
  · have hblocks : m.stage = .inside (m.pl.blockedVk b) := hminds
    exact Or.inr ⟨h.kid hblocks, h.inside _ hblocks⟩
  · have hblocks : m.stage = .inside (m.pl.blockedVk b) := hminds
    exact Or.inr ⟨h.kid hblocks, h.inside _ hblocks⟩

omit h in
/-- A socket comes to block a thread as that thread runs. -/
theorem blocks_step (hstep : step a m = some m') (b : Nat) :
    m'.pl.blockedVk b = m.pl.blockedVk b ∨ m.stage = .inside (m'.pl.blockedVk b) := by
  rcases blockedVk_step hstep b with hsame | ⟨t, k, hst, -, -, rfl⟩
  · exact Or.inl hsame
  · right
    rw [ProcLocal.blockedVk, waitOn_self]
    exact hst

omit h in
/-- The executor comes to a thread that it has been at, or out of the run queue. -/
theorem current_step (hstep : step a m = some m') (hu : u ∈ m'.current) :
    u ∈ m.current ∨ u ∈ m.pl.runQ := by
  have hat : ∀ {stage : Stage}, m.stage = stage → stage = .inside u ∨ stage = .back u ∨
      stage = .exec (.loop u) → u ∈ m.current := by
    rintro stage hst (rfl | rfl | rfl)
    · rw [Machine.current, hst]; rfl
    · rw [Machine.current, hst]; rfl
    · rw [Machine.current, hst]; rfl
  rw [Machine.current] at hu
  split at hu
  · rename_i t hst'
    obtain rfl := Option.some.inj hu
    rcases inside_step hstep hst' with hst | ⟨hst, -, -⟩
    · exact Or.inl (hat hst (Or.inl rfl))
    · exact Or.inl (hat hst (Or.inr (Or.inr rfl)))
  · rename_i t hst'
    obtain rfl := Option.some.inj hu
    exact Or.inl (hat (back_step hstep hst') (Or.inl rfl))
  · rename_i t hst'
    obtain rfl := Option.some.inj hu
    rcases loop_cases hstep hst' with ⟨-, ht, -⟩ | hst
    · exact Or.inr ht
    · exact Or.inl (hat hst (Or.inr (Or.inl rfl)))
  · cases hu
  · cases hu
  · cases hu

/-- The executor cleans up behind a thread that has ended. -/
theorem Minding.cleaned (hstep : step a m = some m') (hst : m.stage = .back u)
    (hended : Ended u m) : u ∉ m'.pl.runQ ∧ ∀ b ∈ m'.pl.blockedQ, m'.pl.blockedVk b ≠ u := by
  have hq := h.orderly.queued
  have hblocks : ∀ b, m'.pl.blockedVk b = m.pl.blockedVk b := fun b =>
    (blocks_step hstep b).resolve_right fun hinside => by
      rw [hst] at hinside
      cases hinside
  simp only [hblocks]
  cases stepped hstep with
  | start hu | play hu | answer hu | retry hu | exec _ hu | co _ hu => cases hst.symm.trans hu
  | unblock t hu os =>
      obtain rfl := Stage.back.inj (hst.symm.trans hu)
      refine ⟨RaiseMachine.unqueued_afterCall hq hended os, fun b hb => ?_⟩
      have hclear : Queued ({ m.pl with runningCr := none } : ProcLocal) :=
        ⟨hq.run, hq.runNodup, hq.blocked, hq.blockedNodup⟩
      have hkept := (ProcLocal.mem_dropBlockedFor_iff hclear u b).mp (by
        rw [Ended] at hended
        unfold ProcLocal.afterCall at hb
        simp only [hended, if_true] at hb
        split at hb
        · rwa [ProcLocal.dropRun_blockedQ] at hb
        · exact hb)
      exact hkept.2

/-- A child that has ended and been cleaned up after stays out of both queues. -/
theorem Minding.stays (hstep : step a m = some m') (hminds : MindsOwn kids a m) (hended : Ended u m)
    (hrun : u ∉ m.pl.runQ) (hblocked : ∀ b ∈ m.pl.blockedQ, m.pl.blockedVk b ≠ u) :
    u ∉ m'.pl.runQ ∧ ∀ b ∈ m'.pl.blockedQ, m'.pl.blockedVk b ≠ u := by
  have houtside : m.stage ≠ .inside u := fun hst => h.inside u hst hended
  refine ⟨(Tomb.step ⟨hended, hrun⟩ houtside hstep).1.unqueued, fun b hb hvk => ?_⟩
  rcases blocks_step hstep b with hsame | hinside
  · rw [hsame] at hvk
    rcases h.queues hstep hminds hb with hold | ⟨-, halive⟩
    · exact hblocked b hold hvk
    · exact halive (hvk ▸ hended)
  · exact houtside (hvk ▸ hinside)

omit h in
theorem Physical.step (h : Physical m) (hstep : Machine.step a m = some m') : Physical m' := by
  intro s w hw
  obtain ⟨hrx, htx⟩ := refs_step hstep s
  rw [ProcLocal.Peer, hrx, htx] at hw
  exact h s w hw

theorem Minding.step (hstep : Machine.step a m = some m') (hminds : MindsOwn kids a m) :
    Minding p kids m' where
  orderly := h.orderly.step hstep
  physical := h.physical.step hstep
  orphan := h.orphan
  parked := h.parked.step h.orderly hstep fun hwake => h.orphan (h.wakes hstep hminds hwake)
  run u hu := (runQ_step hstep h.orderly.queued hu).elim (h.run u) (h.wakes hstep hminds)
  current u hu := (current_step hstep hu).elim (h.current u) fun hq => Or.inl (h.run u hq)
  blocked b hb := by
    rcases blocks_step hstep b with hsame | hinside
    · rw [hsame]
      exact (h.queues hstep hminds hb).elim (h.blocked b) And.left
    · exact h.kid hinside
  inside u hst' hended' := by
    rcases ended_step hstep hended' with hended | ⟨-, -, hback⟩
    · rcases inside_step hstep hst' with hst | ⟨-, hready, -⟩
      · exact h.inside u hst hended
      · rw [Thread.isReady, hended] at hready
        cases hready
    · cases hst'.symm.trans hback
  dead u hended' := by
    rcases ended_step hstep hended' with hended | ⟨-, -, hback⟩
    · right
      rcases h.dead u hended with hst | ⟨hrun, hblocked⟩
      · exact h.cleaned hstep hst hended
      · exact h.stays hstep hminds hended hrun hblocked
    · exact Or.inl hback

end Step

/-! ## The parent -/

/-- When its children have ended and the process is not executed, none of it is in a
queue. -/
theorem Minding.zombie (h : Minding p kids m) (hended : ∀ u ∈ kids, Ended u m)
    (hst : m.stage = .kernel) : m.pl.isZombie = true := by
  have hdead : ∀ u ∈ kids, u ∉ m.pl.runQ ∧ ∀ b ∈ m.pl.blockedQ, m.pl.blockedVk b ≠ u := fun u hu =>
    (h.dead u (hended u hu)).resolve_left fun hback => by cases hst.symm.trans hback
  have hrun : m.pl.runQ = [] :=
    List.eq_nil_iff_forall_not_mem.mpr fun u hu => (hdead u (h.run u hu)).1 hu
  have hblocked : m.pl.blockedQ = [] :=
    List.eq_nil_iff_forall_not_mem.mpr fun b hb => (hdead _ (h.blocked b hb)).2 b hb rfl
  rw [ProcLocal.isZombie, hrun, hblocked]
  rfl

/-- `vk_connection_client`, from where it runs both children.  Neither has ended by then, so
it enters its loop, and pauses. -/
def connectionClient (sender receiver : Nat) : List Act :=
  [.co (.play receiver), .co (.play sender), .co (.stop .yield)]

/-- The parent as it comes there: it runs on a connection of descriptors, alone in its
process, and has initialised both children. -/
structure Connected (p sender receiver : Nat) (m : Machine) : Prop where
  orderly : Orderly m
  physical : Physical m
  inside : m.stage = .inside p
  outside : m.pos p = none
  runQ : m.pl.runQ = []
  blockedQ : m.pl.blockedQ = []
  orphan : p ∉ [sender, receiver]
  fresh : ∀ u, ¬Ended u m

/-- A coroutine plays a thread. -/
theorem play_step (h : step (.co (.play u)) m = some m') (hst : m.stage = .inside p)
    (hpos : m.pos p = none) :
    m'.pl = m.pl.enqueueRun u ∧ m'.pos p = none ∧ m'.stage = .inside p := by
  simp only [step, hst, co, hpos] at h
  cases h
  exact ⟨rfl, hpos, rfl⟩

/-- Where none has ended, none has after a step in which none ends. -/
theorem fresh_step (h : step a m = some m') (hending : ending a m = none)
    (hfresh : ∀ u, ¬Ended u m) (u : Nat) : ¬Ended u m' := fun hended => by
  rcases ended_step h hended with hold | ⟨hends, -⟩
  · exact hfresh u hold
  · rw [hending] at hends
    cases hends

/-- The parent is parked, and minds its children. -/
theorem Connected.minding {sender receiver : Nat} (h : Connected p sender receiver m)
    (hrun : run step (connectionClient sender receiver) m = some m') :
    Minding p [sender, receiver] m' := by
  obtain ⟨m₁, h₁, hrun₁⟩ := (run_cons step).mp hrun
  obtain ⟨m₂, h₂, hrun₂⟩ := (run_cons step).mp hrun₁
  obtain ⟨m₃, h₃, hrun₃⟩ := (run_cons step).mp hrun₂
  obtain rfl := Option.some.inj hrun₃
  obtain ⟨hpl₁, hpos₁, hst₁⟩ := play_step h₁ h.inside h.outside
  obtain ⟨hpl₂, -, hst₂⟩ := play_step h₂ hst₁ hpos₁
  have hkids : ∀ u ∈ m₂.pl.runQ, u ∈ [sender, receiver] := fun u hu => by
      rw [hpl₂, hpl₁] at hu
      rcases ProcLocal.enqueueRun_runQ _ _ u hu with hu | rfl
      · rcases ProcLocal.enqueueRun_runQ _ _ u hu with hu | rfl
        · rw [h.runQ] at hu
          cases hu
        · simp
      · simp
  have hparked := parked_of_stop hst₂ (fun hp => h.orphan (hkids p hp)) h₃
  have horderly := ((h.orderly.step h₁).step h₂).step h₃
  have hphysical := ((h.physical.step h₁).step h₂).step h₃
  have hback : m₃.stage = .back p ∧ m₃.pl.runQ = m₂.pl.runQ ∧ m₃.pl.blockedQ = m₂.pl.blockedQ := by
    cases stepped h₃ with
    | co u hu c m' hco =>
        cases coStepped hco with
        | stop hpos status hstatus =>
            exact ⟨congrArg _ (Stage.inside.inj (hu.symm.trans hst₂)), rfl, rfl⟩
  obtain ⟨hst, hrunQ, hblockedQ⟩ := hback
  have halive := fresh_step h₃ (by simp only [ending, hst₂])
    (fresh_step h₂ (by simp only [ending, hst₁]) (fresh_step h₁ (by simp only [ending, h.inside]) h.fresh))
  exact {
    orderly := horderly
    physical := hphysical
    orphan := h.orphan
    parked := hparked
    run := fun u hu => hkids u (hrunQ ▸ hu)
    current := fun u hu => by
      rw [current, hst] at hu
      exact Or.inr (Option.some.inj hu).symm
    blocked := fun b hb => by
      rw [hblockedQ, hpl₂, hpl₁, ProcLocal.enqueueRun_blockedQ, ProcLocal.enqueueRun_blockedQ,
        h.blockedQ] at hb
      cases hb
    inside := fun u hu => by cases hst.symm.trans hu
    dead := fun u hended => absurd hended (halive u) }

end Machine

/-- The parent of a client does not go on from its pause, whatever its two children do on
their own sockets: it never completes.  And when both have, the kernel finds a zombie. -/
theorem client_parent_parked {p sender receiver : Nat} {m m₁ m' : Machine} {as : List Act}
    (h : Machine.Connected p sender receiver m)
    (hstart : run Machine.step (Machine.connectionClient sender receiver) m = some m₁)
    (hminds : Meets Machine.step (Machine.MindsOwn [sender, receiver]) as m₁)
    (hrun : run Machine.step as m₁ = some m') :
    m'.stage ≠ .inside p ∧ ¬Machine.Ended p m' ∧
      (Machine.Ended sender m' → Machine.Ended receiver m' → m'.stage = .kernel →
        m'.pl.isZombie = true) := by
  have hminding := run_of_meets (I := Machine.Minding p [sender, receiver])
    (fun _ _ _ h hminds hstep => h.step hstep hminds) (h.minding hstart) hminds hrun
  refine ⟨hminding.parked.rests.paused, hminding.parked.rests.not_ended, fun hs hr hst => ?_⟩
  refine hminding.zombie (fun u hu => ?_) hst
  simp only [List.mem_cons, List.not_mem_nil, or_false] at hu
  rcases hu with rfl | rfl
  · exact hs
  · exact hr

/-! ## A client -/

instance (kids : List Nat) : (a : Act) → (m : Machine) → Decidable (Machine.MindsOwn kids a m)
  | .play _, _ => .isFalse id
  | .co (.play u), _ => inferInstanceAs (Decidable (u ∈ kids))
  | .co (.readhup s), m => inferInstanceAs (Decidable (m.stage = .inside (m.pl.blockedVk s)))
  | .co (.call c), m => inferInstanceAs (Decidable (m.stage = .inside (m.pl.blockedVk c.socketPtr)))
  | .start, _ | .answer .., _ | .retry .., _ | .exec, _ | .unblock _, _ => .isTrue trivial
  | .co .turn, _ | .co (.store _), _ | .co (.raise _), _ | .co (.stop _), _ => .isTrue trivial

/-- The parent of a client runs, thread 0; each thread has a socket of two descriptors. -/
def client : Machine where
  pl := { ProcLocal.init with
    threads := Thread.init
    sockets := fun s => Socket.cleared.init s s (Pipe.initFd 3 .socketStream) (Pipe.initFd 3 .socketStream) }
  pos := fun _ => none
  stage := .inside 0

theorem connected_client : Machine.Connected 0 1 2 client where
  orderly := {
    queued := ⟨fun _ => ⟨nofun, nofun⟩, List.nodup_nil, fun _ => ⟨nofun, nofun⟩, List.nodup_nil⟩
    wired := fun s w => ⟨nofun, nofun⟩
    backsOwn := fun t s hst => by cases hst
    waits := fun t hst => by cases hst }
  physical s w hw := by
    rcases hw with hw | hw | hw <;> cases hw
  inside := rfl
  outside := rfl
  runQ := rfl
  blockedQ := rfl
  orphan := by decide
  fresh u := nofun

/-- The sender ends at once.  The receiver waits for a byte, which comes, and ends. -/
def oneReply : List Act :=
  goOn ++ [.co (.stop .ended)] ++ goOn ++
  [.co (.call (.read 2 8 1)), .co .turn, .unblock wouldBlock, .exec, .exec, .exec,
    .retry 2 (readable [0]), .start, .exec, .exec, .co .turn, .co .turn, .co (.stop .ended),
    .unblock wouldBlock, .exec, .exec, .exec]

theorem client_parent_parked_client : ∃ m₁ m',
    run Machine.step (Machine.connectionClient 1 2) client = some m₁ ∧
    run Machine.step oneReply m₁ = some m' ∧
    (Machine.Ended 1 m' ∧ Machine.Ended 2 m' ∧ m'.stage = .kernel) ∧
      ¬Machine.Ended 0 m' ∧ m'.pl.isZombie = true := by
  obtain ⟨m₁, hm₁, hend⟩ := (Option.any_eq_true _ _).mp
    (by decide +kernel : (run Machine.step (Machine.connectionClient 1 2) client).any (fun m =>
      decide (Meets Machine.step (Machine.MindsOwn [1, 2]) oneReply m ∧
        (run Machine.step oneReply m).any (fun m' =>
          decide (Machine.Ended 1 m' ∧ Machine.Ended 2 m' ∧ m'.stage = .kernel)))) = true)
  obtain ⟨hminds, hreplied⟩ := of_decide_eq_true hend
  obtain ⟨m', hm', hend'⟩ := (Option.any_eq_true _ _).mp hreplied
  obtain ⟨hs, hr, hst⟩ := of_decide_eq_true hend'
  obtain ⟨-, hparked, hzombie⟩ := client_parent_parked connected_client hm₁ hminds hm'
  exact ⟨m₁, m', hm₁, hm', ⟨hs, hr, hst⟩, hparked, hzombie hs hr hst⟩

end Vk

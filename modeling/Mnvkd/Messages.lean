/-
# `Mnvkd.Messages` — hang-ups delimit messages

The writer of a virtual pipe ends each message by `vk_hup`, which flushes, marks
EOF on its transmit ring and waits for it to be taken; the reader reads up to the
hang-up and takes it by `vk_readhup`.  The mark of the channel is then the EOF on
the writer's ring, and the channel's sender waits while the writer is in the loop
of its hang-up (`Talks`).  Seen so, every step is orderly
(`Lib.Channel.Orderly`), and what the channel knows of messages holds of the pipe
(`hups_delimit`).
-/
import Mnvkd.Ownership
import Mnvkd.VirtualPipe

namespace Vk

open Lib Channel

/-! ## What shows, and when -/

/-- The events of a step, each with what the machine was doing. -/
inductive Shown (w r : Nat) (m : Machine) : Act → List (Event UInt8) → Prop where
  | silent (a : Act) : Shown w r m a []
  | push (t : Nat) (k : IoLoop) (bs : List UInt8) (hst : m.stage = .inside t)
      (hpos : m.pos t = some (k, w)) (hk : k ≠ .hup) : Shown w r m (.co .turn) [.push bs]
  | pull (t : Nat) (k : IoLoop) (bs : List UInt8) (hst : m.stage = .inside t)
      (hpos : m.pos t = some (k, r)) : Shown w r m (.co .turn) [.pull bs]
  | mark (t : Nat) (hst : m.stage = .inside t) (hpos : m.pos t = some (.hupFlush, w))
      (hflushed : (m.pl.sockets w).tx.txLen = 0) : Shown w r m (.co .turn) [.mark]
  | pass (t : Nat) (hst : m.stage = .inside t) (hpos : m.pos t = some (.hup, w))
      (hdone : m.pl.uncommitted w = 0) : Shown w r m (.co .turn) [.pass]
  | take (hup : m.pl.pollhup r = true) : Shown w r m (.co (.readhup r)) [.take]

section Shown

variable {w r t s : Nat} {m : Machine} {k : IoLoop}

theorem shown_body (hst : m.stage = .inside t) (hpos : m.pos t = some (k, s)) :
    Shown w r m (.co .turn) (bodyEvents w r m.pl k s) := by
  cases k with
  | read | readline =>
      simp only [bodyEvents]
      split
      · subst s
        exact .pull t _ _ hst hpos
      · exact .silent _
  | write =>
      simp only [bodyEvents]
      split
      · subst s
        exact .push t _ _ hst hpos (by decide)
      · exact .silent _
  | forward =>
      simp only [bodyEvents]
      split
      · subst s
        exact .pull t _ _ hst hpos
      · split
        · subst s
          exact .push t _ _ hst hpos (by decide)
        · exact .silent _
  | pollread | flush | hupFlush | hup | once => exact .silent _

theorem shown_leave (hst : m.stage = .inside t) (hpos : m.pos t = some (k, s))
    (htest : (k.loop s).test m.pl = false) : Shown w r m (.co .turn) (leaveEvents w m.pl k s) := by
  cases k with
  | hupFlush =>
      simp only [leaveEvents]
      split
      · rename_i hs
        obtain ⟨rfl, -⟩ := hs
        have hflushed : (flushLoop s).test m.pl = false := htest
        simp only [flushLoop, decide_eq_false_iff_not, Nat.not_lt, Nat.le_zero] at hflushed
        exact .mark t hst hpos hflushed
      · exact .silent _
  | hup =>
      simp only [leaveEvents]
      split
      · subst s
        have hdone : (hupLoop w).test m.pl = false := htest
        simp only [hupLoop, decide_eq_false_iff_not, Nat.not_lt, Nat.le_zero] at hdone
        exact .pass t hst hpos hdone
      · exact .silent _
  | read | readline | pollread | write | flush | forward | once => exact .silent _

theorem shown (w r : Nat) (a : Act) (m : Machine) : Shown w r m a (pipeEvents w r a m) := by
  unfold pipeEvents
  split
  · rename_i t hst
    split
    · rename_i k s hpos
      unfold turnEvents
      split
      · exact shown_body hst hpos
      · exact shown_leave hst hpos (by simpa using ‹¬(k.loop s).test m.pl = true›)
    · exact .silent _
  · split
    · rename_i h
      obtain ⟨-, rfl, hup⟩ := h
      exact .take hup
    · exact .silent _
  · exact .silent _

end Shown

/-! ## The writer's hang-up -/

/-- Socket `w` is used by thread `tw` alone, which does not close its transmit
side. -/
def HungUpBy (tw w : Nat) (a : Act) (m : Machine) : Prop :=
  ∀ p ∈ m.called a, p.2.socketPtr = w → p.1 = tw ∧ p.2.op ≠ .txClose

instance (tw w : Nat) (a : Act) (m : Machine) : Decidable (HungUpBy tw w a m) :=
  inferInstanceAs (Decidable (∀ p ∈ m.called a, p.2.socketPtr = w → p.1 = tw ∧ p.2.op ≠ .txClose))

theorem HungUpBy.usedBy {tw w : Nat} {a : Act} {m : Machine} (h : HungUpBy tw w a m) :
    UsedBy tw w a m :=
  fun p hp hs => (h p hp hs).1

/-- The channel is the pipe, its mark the EOF on the writer's ring, and its sender
waits while `tw` is in the loop of a hang-up. -/
structure Talks (tw w r : Nat) (m : Machine) (c : Channel UInt8) : Prop extends Holds w r m c where
  mark : c.mark = (m.pl.sockets w).tx.eof
  waiting : c.waiting = decide (m.pos tw = some (.hup, w))
  alone : ∀ t k, m.pos t = some (k, w) → t = tw
  -- the loop is done once EOF has been taken
  taken : m.pos tw = some (.hup, w) → m.pl.uncommitted w = 0 → (m.pl.sockets w).tx.eof = false
  noReadhup : ∀ s, (m.pl.sockets s).block.op ≠ .readhup
  noClose : (m.pl.sockets w).block.op ≠ .txClose

/-- A turn in the flush of a hang-up: it has flushed and marks EOF, or it waits. -/
theorem turn_hupFlush (m : Machine) (t s : Nat) :
    ((m.pl.sockets s).tx.txLen = 0 ∧ m.turn t .hupFlush s = m.leave t .hupFlush s) ∨
    ((m.pl.sockets s).tx.txLen ≠ 0 ∧
      m.turn t .hupFlush s = { m with pl := m.pl.waitOn t s, stage := .back t }) := by
  by_cases htest : (m.pl.sockets s).tx.txLen = 0
  · left
    have hturn : (IoLoop.hupFlush.loop s).turn m.pl = .done m.pl :=
      Loop.turn_of_not_test _ (by simp [IoLoop.loop, flushLoop, htest])
    exact ⟨htest, by unfold Machine.turn; rw [hturn]⟩
  · right
    have hturn : (IoLoop.hupFlush.loop s).turn m.pl = .wait m.pl :=
      (Loop.turn_eq_wait _).mpr ⟨by simpa [IoLoop.loop, flushLoop] using Nat.pos_of_ne_zero htest,
        rfl, rfl, rfl, rfl⟩
    exact ⟨htest, by unfold Machine.turn; rw [hturn]⟩

/-- A turn in the loop of a hang-up: it is done, or it goes on and is done next
time only if EOF has been taken. -/
theorem turn_hup (m : Machine) (t s : Nat) :
    (m.pl.uncommitted s = 0 ∧ m.turn t .hup s = m.setPos t none) ∨
    (m.pl.uncommitted s ≠ 0 ∧ (m.turn t .hup s).pos = m.pos ∧
      ((m.turn t .hup s).pl.sockets s).tx = (m.pl.sockets s).tx ∧
      ((m.turn t .hup s).pl.uncommitted s = 0 → (m.pl.sockets s).tx.eof = false)) := by
  have hsocket : ((hupLoop s).body m.pl).sockets s = { m.pl.sockets s with
      block := (m.pl.sockets s).block.commit (if (m.pl.sockets s).tx.eof then 0 else 1) } :=
    blockCommit_self m.pl s _
  have hlen : ((hupLoop s).body m.pl).uncommitted s = 0 → m.pl.uncommitted s ≠ 0 →
      (m.pl.sockets s).tx.eof = false := fun h0 hpos => by
    rw [ProcLocal.uncommitted, hsocket] at h0
    cases heof : (m.pl.sockets s).tx.eof with
    | false => rfl
    | true =>
        rw [heof] at h0
        simp only [Block.commit, Block.getUncommitted, if_true] at h0
        exact absurd h0 (by simpa [ProcLocal.uncommitted, Block.getUncommitted] using hpos)
  have hturned := (IoLoop.hup.loop s).turned m.pl
  unfold Machine.turn
  generalize (IoLoop.hup.loop s).turn m.pl = outcome at hturned
  cases hturned with
  | left htest =>
      left
      have hdone : (hupLoop s).test m.pl = false := htest
      simp only [hupLoop, decide_eq_false_iff_not, Nat.not_lt, Nat.le_zero] at hdone
      exact ⟨hdone, rfl⟩
  | failed htest hfails =>
      have hrc : ((hupLoop s).body m.pl).commitFailed s = true := hfails
      rw [ProcLocal.commitFailed, hsocket] at hrc
      simp only [Block.commit] at hrc
      split at hrc <;> simp at hrc
  | done htest hfails hleaves => cases hleaves
  | wait htest hfails hleaves hwaits =>
      right
      have hpos : m.pl.uncommitted s ≠ 0 :=
        Nat.ne_of_gt (of_decide_eq_true (show decide (m.pl.uncommitted s > 0) = true from htest))
      have hwait := Machine.waitOn_self ((hupLoop s).body m.pl) t s
      refine ⟨hpos, rfl, ?_, fun h0 => hlen ?_ hpos⟩
      · show ((((hupLoop s).body m.pl).waitOn t s).sockets s).tx = _
        rw [hwait, hsocket]
      · have h0' : (((hupLoop s).body m.pl).waitOn t s).uncommitted s = 0 := h0
        rw [ProcLocal.uncommitted, hwait] at h0'
        exact h0'
  | again htest hfails hleaves hwaits =>
      right
      have hpos : m.pl.uncommitted s ≠ 0 :=
        Nat.ne_of_gt (of_decide_eq_true (show decide (m.pl.uncommitted s > 0) = true from htest))
      refine ⟨hpos, rfl, ?_, fun h0 => hlen h0 hpos⟩
      show (((hupLoop s).body m.pl).sockets s).tx = _
      rw [hsocket]

section Talks

variable {tw w r : Nat} {a : Act} {m m' : Machine} {c : Channel UInt8}

theorem Talks.keepsEof (h : Talks tw w r m c) : KeepsEofAt w r a m := by
  have hkeeps : ∀ s, KeepsEof w r m.pl s := fun s =>
    ⟨fun hop hs => h.noClose (hs ▸ hop), fun hop _ => h.noReadhup s hop⟩
  unfold KeepsEofAt
  split
  · exact hkeeps _
  · exact fun _ s _ => hkeeps s
  · trivial

/-- A reader at a hang-up has nothing left to read. -/
theorem Talks.pollhup (h : Talks tw w r m c) (hup : m.pl.pollhup r = true) :
    c.mark = true ∧ c.sent = [] ∧ c.arrived = [] := by
  unfold ProcLocal.pollhup ProcLocal.getReaderNodata Pipe.getSocket at hup
  rw [h.joined.rxRef] at hup
  simp only [Socket.empty, Socket.nodataTx, Vectoring.hasNodata, Bool.and_eq_true] at hup
  obtain ⟨hrx, heof, htx⟩ := hup
  exact ⟨h.mark.trans heof, h.sent.trans (((h.joined.wf w).2.isEmpty_iff).mp htx),
    h.arrived.trans (((h.joined.wf r).1.isEmpty_iff).mp hrx)⟩

/-- What shows is orderly. -/
theorem Talks.orderly (h : Talks tw w r m c) (n : Nat) :
    Meets Channel.step Orderly (pipeEvents w r a m ++ [.move n]) c := by
  have hone : ∀ e, Orderly e c → Meets Channel.step Orderly ([e] ++ [.move n]) c := fun e he =>
    ⟨he, fun _ _ => ⟨trivial, fun _ _ => trivial⟩⟩
  have hshown := shown w r a m
  generalize pipeEvents w r a m = es at hshown
  cases hshown with
  | silent => exact ⟨trivial, fun _ _ => trivial⟩
  | push t k bs hst hpos hk =>
      refine hone _ fun hw => absurd hw ?_
      obtain rfl := h.alone t k hpos
      simp [h.waiting, hpos, hk]
  | pull => exact hone _ trivial
  | mark t hst hpos hflushed =>
      obtain rfl := h.alone t _ hpos
      refine hone _ ⟨by simp [h.waiting, hpos], ?_⟩
      rw [h.sent, txQueue, ← List.length_eq_zero_iff, Vectoring.length_queue, hflushed]
  | pass t hst hpos hdone =>
      obtain rfl := h.alone t _ hpos
      exact hone _ ⟨by simp [h.waiting, hpos], h.mark.trans (h.taken hpos hdone)⟩
  | take hup => exact hone _ (h.pollhup hup)

/-! ### One step -/

theorem noClose_step (h : Talks tw w r m c) (hby : HungUpBy tw w a m)
    (hstep : Machine.step a m = some m') : (m'.pl.sockets w).block.op ≠ .txClose := by
  rcases Machine.op_step hstep w with hop | ⟨t, -, -, hop⟩ | ⟨t, d, hst, ha, -, hs, hop⟩
  · rw [hop]
    exact h.noClose
  · simp [hop]
  · rw [hop]
    exact (hby (t, d) (ha ▸ Machine.called_call hst d) hs).2

/-- The sender of the channel waits as long as the writer is in the loop, and the
loop is done once EOF has been taken. -/
structure Waits (tw w : Nat) (m m' : Machine) (es : List (Event UInt8)) : Prop where
  waiting : waitingAfter es (decide (m.pos tw = some (.hup, w)))
    = decide (m'.pos tw = some (.hup, w))
  taken : m'.pos tw = some (.hup, w) → m'.pl.uncommitted w = 0 → (m'.pl.sockets w).tx.eof = false

/-- A turn of the writer's own. -/
theorem waits_turn (hst : m.stage = .inside tw) {k : IoLoop}
    (hpos : m.pos tw = some (k, w)) :
    Waits tw w m (m.turn tw k w) (turnEvents w r m.pl k w) := by
  by_cases hhup : k = .hup
  · subst k
    rcases turn_hup m tw w with ⟨hdone, hturn⟩ | ⟨hmore, hsame, htx, heof⟩
    · have hevents : turnEvents w r m.pl .hup w = [.pass] := by
        have htest : (hupLoop w).test m.pl = false := by simp [hupLoop, hdone]
        simp [turnEvents, IoLoop.loop, htest, leaveEvents]
      refine ⟨?_, fun hpos' => ?_⟩
      · rw [hevents, hturn, Machine.setPos_pos]
        simp [waitingAfter, Event.toWaiting]
      · rw [hturn, Machine.setPos_pos] at hpos'
        simp at hpos'
    · have hevents : turnEvents w r m.pl .hup w = [] := by
        have htest : (hupLoop w).test m.pl = true := by
          simp only [hupLoop, decide_eq_true_eq]
          omega
        simp [turnEvents, IoLoop.loop, htest, bodyEvents]
      refine ⟨?_, fun _ h0 => ?_⟩
      · rw [hevents, hsame]
        rfl
      · rw [htx]
        exact heof h0
  · by_cases hflush : k = .hupFlush
    · subst k
      have hnot : decide (m.pos tw = some (IoLoop.hup, w)) = false := by simp [hpos]
      rcases turn_hupFlush m tw w with ⟨hdone, hturn⟩ | ⟨hmore, hturn⟩
      · have hevents : turnEvents w r m.pl .hupFlush w = leaveEvents w m.pl .hupFlush w := by
          have htest : (flushLoop w).test m.pl = false := by simp [flushLoop, hdone]
          simp [turnEvents, IoLoop.loop, htest]
        have hpos' := Machine.leave_pos m tw .hupFlush w tw
        rw [if_pos rfl] at hpos'
        cases heof : (m.pl.sockets w).tx.eof with
        | true =>
            rw [if_neg (by simp [heof])] at hpos'
            refine ⟨?_, fun hp => ?_⟩
            · rw [hevents, hturn, hpos', hnot, leaveEvents, if_neg (by simp [Socket.eofTx, heof])]
              rfl
            · rw [hturn, hpos'] at hp
              cases hp
        | false =>
            rw [if_pos ⟨rfl, heof⟩] at hpos'
            refine ⟨?_, fun _ h0 => ?_⟩
            · rw [hevents, hturn, hpos', hnot, leaveEvents, if_pos ⟨rfl, by simpa [Socket.eofTx] using heof⟩]
              simp [waitingAfter, Event.toWaiting]
            · rw [hturn, Machine.leave_of_not_eof heof, Machine.setPos_pl, ProcLocal.uncommitted,
                ProcLocal.beginHup, ProcLocal.blockInit, updBlock_self] at h0
              cases h0
      · have hevents : turnEvents w r m.pl .hupFlush w = [] := by
          have htest : (flushLoop w).test m.pl = true := by
            simp only [flushLoop, decide_eq_true_eq]
            omega
          simp [turnEvents, IoLoop.loop, htest, bodyEvents]
        have hpos' : (m.turn tw .hupFlush w).pos tw = m.pos tw := by rw [hturn]
        refine ⟨?_, fun hp => ?_⟩
        · rw [hevents, hpos', hnot]
          rfl
        · rw [hpos', hpos] at hp
          cases hp
    · have hnot : decide (m.pos tw = some (IoLoop.hup, w)) = false := by simp [hpos, hhup]
      have hpos' : (m.turn tw k w).pos tw ≠ some (IoLoop.hup, w) := by
        rcases Machine.turn_pos m (t := tw) (k := k) (s := w) tw with hsame | ⟨-, hnone | ⟨hk, -⟩⟩
        · rw [hsame, hpos]
          simp [hhup]
        · simp [hnone]
        · exact absurd hk hflush
      refine ⟨?_, fun hp => absurd hp hpos'⟩
      rw [hnot, decide_eq_false hpos']
      have hshown := shown w r (.co .turn) m
      simp only [pipeEvents, hst, hpos] at hshown
      generalize turnEvents w r m.pl k w = es at hshown
      cases hshown with
      | silent | push | pull => rfl
      | mark t hst' hmark =>
          rw [hst] at hst'
          cases hst'
          rw [hpos] at hmark
          cases hmark
          exact absurd rfl hflush
      | pass t hst' hpass =>
          rw [hst] at hst'
          cases hst'
          rw [hpos] at hpass
          cases hpass
          exact absurd rfl hhup

/-- A step that is not. -/
theorem waits_other (h : Talks tw w r m c) (hby : HungUpBy tw w a m)
    (hstep : Machine.step a m = some m')
    (hnot : ¬(m.stage = .inside tw ∧ ∃ k, m.pos tw = some (k, w))) {n : Nat}
    (hn : Shows w r (KeepsEofAt w r a m) m.pl m'.pl (pipeEvents w r a m ++ [.move n])) :
    Waits tw w m m' (pipeEvents w r a m) := by
  have hsame : m'.pos tw = some (.hup, w) ↔ m.pos tw = some (.hup, w) := by
    rcases Machine.pos_step hstep tw with
      hsame | ⟨hst, hnone | ⟨s, -, hflush, hhup⟩ | ⟨d, -, hpos, -, hcall⟩⟩
    · rw [hsame]
    · refine ⟨fun hp => ?_, fun hp => absurd ⟨hst, _, hp⟩ hnot⟩
      rw [hnone] at hp
      cases hp
    · refine ⟨fun hp => ?_, fun hp => absurd ⟨hst, _, hp⟩ hnot⟩
      rw [hhup] at hp
      cases hp
      exact absurd ⟨hst, _, hflush⟩ hnot
    · constructor
      · intro hp
        rw [hcall] at hp
        cases d <;> cases hp
      · intro hp
        rw [hpos] at hp
        cases hp
  -- nothing marks or passes but a turn of the writer's own
  have hevents : (∀ b, waitingAfter (pipeEvents w r a m) b = b) ∧
      markAfter (pipeEvents w r a m ++ [.move n]) false = false := by
    have hshown := shown w r a m
    generalize pipeEvents w r a m = es at hshown
    cases hshown with
    | silent | push | pull | take => exact ⟨fun _ => rfl, rfl⟩
    | mark t hst hpos =>
        obtain rfl := h.alone t _ hpos
        exact absurd ⟨hst, _, hpos⟩ hnot
    | pass t hst hpos =>
        obtain rfl := h.alone t _ hpos
        exact absurd ⟨hst, _, hpos⟩ hnot
  refine ⟨?_, fun hp h0 => ?_⟩
  · rw [hevents.1]
    exact decide_eq_decide.mpr hsame.symm
  · have hpos := hsame.mp hp
    have hused : Machine.usedSocket a m ≠ some w := by
      intro hused
      cases Machine.stepped hstep with
      | co t hst a m' hco =>
          cases Machine.coStepped hco with
          | turn k b hpos' =>
              simp only [Machine.usedSocket, hst, hpos', Option.map_some, Option.some.injEq] at hused
              subst hused
              obtain rfl := h.alone t _ hpos'
              exact hnot ⟨hst, _, hpos'⟩
          | call hpos' d hknown =>
              simp only [Machine.usedSocket, hst, Option.some.injEq] at hused
              obtain ⟨rfl, -⟩ := hby (t, d) (Machine.called_call hst d) hused
              rw [hpos] at hpos'
              cases hpos'
          | readhup | play | store | raise | stop => simp [Machine.usedSocket, hst] at hused
      | start hst | play hst | answer hst | retry hst | exec _ hst | unblock _ hst =>
          simp [Machine.usedSocket, hst] at hused
    have hlen := (Machine.sameUse_step hstep hused).len
    rw [hn.eof h.keepsEof, h.taken hpos (hlen.symm.trans h0)]
    exact hevents.2

/-- A step keeps the channel with the pipe. -/
theorem Talks.step (h : Talks tw w r m c) (hby : HungUpBy tw w a m)
    (hstep : Machine.step a m = some m') :
    ∃ n c', run Channel.step (pipeEvents w r a m ++ [.move n]) c = some c' ∧ Talks tw w r m' c' := by
  obtain ⟨n, hn⟩ := shows_step h.joined hstep
  have hwaits : Waits tw w m m' (pipeEvents w r a m) := by
    by_cases hown : m.stage = .inside tw ∧ ∃ k, m.pos tw = some (k, w)
    · obtain ⟨hst, k, hpos⟩ := hown
      obtain ⟨rfl, rfl⟩ := Machine.turn_of_pos hstep hst hpos
      have hturn := waits_turn (r := r) hst hpos
      rwa [show turnEvents w r m.pl k w = pipeEvents w r (.co .turn) m by
        simp [pipeEvents, hst, hpos]] at hturn
    · exact waits_other h hby hstep hown hn
  refine ⟨n, _, hn.run_channel h.sent h.arrived, ⟨⟨hn.joined, rfl, rfl⟩, ?_, ?_,
    alone_step h.alone hby.usedBy hstep, hwaits.taken, noReadhup_step h.noReadhup hstep, noClose_step h hby hstep⟩⟩
  · show markAfter _ c.mark = _
    rw [h.mark, hn.eof h.keepsEof]
  · show waitingAfter _ c.waiting = _
    rw [waitingAfter_append, h.waiting, hwaits.waiting]
    rfl

end Talks

/-! ## Runs -/

/-- A pipe on which nothing has been sent yet, and whose writer's socket is in no
operation. -/
structure Fresh (w r : Nat) (m : Machine) : Prop where
  joined : Joined m.pl w r
  tx : txQueue m.pl w = []
  rx : rxQueue m.pl r = []
  eof : (m.pl.sockets w).tx.eof = false
  free : ∀ t k, m.pos t ≠ some (k, w)
  noReadhup : ∀ s, (m.pl.sockets s).block.op ≠ .readhup
  noClose : (m.pl.sockets w).block.op ≠ .txClose

theorem Fresh.talks {w r : Nat} {m : Machine} (h : Fresh w r m) (tw : Nat) :
    Talks tw w r m Channel.empty where
  joined := h.joined
  sent := h.tx.symm
  arrived := h.rx.symm
  mark := h.eof.symm
  waiting := (decide_eq_false (h.free tw _)).symm
  alone t k hpos := absurd hpos (h.free t k)
  taken hpos := absurd hpos (h.free tw _)
  noReadhup := h.noReadhup
  noClose := h.noClose

/-- What shows of a run agrees with the pipe it leads to. -/
theorem talks_run {tw w r : Nat} {as : List Act} {m m' : Machine} {c : Channel UInt8}
    {h : History UInt8} (ht : Talks tw w r m c) (hc : Consistent h c)
    (hby : Meets Machine.step (HungUpBy tw w) as m) (hrun : run Machine.step as m = some m') :
    ∃ c', Talks tw w r m' c' ∧
      Consistent ((trace Machine.step (pipeEvents w r) as m).foldl History.record h) c' := by
  induction as generalizing m c h with
  | nil => cases hrun; exact ⟨c, ht, hc⟩
  | cons a as ih =>
      obtain ⟨m₁, hstep, hrun⟩ := (run_cons _).mp hrun
      obtain ⟨n, c₁, hevents, ht₁⟩ := ht.step hby.1 hstep
      have hc₁ := consistent_run hc (ht.orderly n) hevents
      obtain ⟨c', ht', hc'⟩ := ih ht₁ hc₁ (hby.2 m₁ hstep) hrun
      refine ⟨c', ht', ?_⟩
      rw [trace_cons _ _ hstep, List.foldl_append]
      rwa [List.foldl_append] at hc'

/-- The messages of a run: those the writer has ended by a hang-up it has marked,
those the reader has ended by taking one, and how many hang-ups the writer has
come out of. -/
def messages (w r : Nat) (as : List Act) (m : Machine) : History UInt8 :=
  history (trace Machine.step (pipeEvents w r) as m)

/-- Hang-ups delimit messages.  In every run the messages the reader has seen
between its hang-ups are, in order, the messages the writer has ended by its own;
every hang-up is taken at most once, and all but the last have been; and the
writer has come out of no more hang-ups than the reader has taken. -/
theorem hups_delimit {tw w r : Nat} {as : List Act} {m m' : Machine} (hfresh : Fresh w r m)
    (hby : Meets Machine.step (HungUpBy tw w) as m) (hrun : run Machine.step as m = some m') :
    (messages w r as m).inbox.closed <+: (messages w r as m).outbox.closed ∧
    (messages w r as m).passes ≤ (messages w r as m).inbox.closed.length ∧
    (messages w r as m).outbox.closed.length ≤ (messages w r as m).passes + 1 := by
  obtain ⟨c', -, hc'⟩ := talks_run (hfresh.talks tw) consistent_empty hby hrun
  obtain ⟨hpasses, -, houtbox⟩ := hc'.counts
  exact ⟨hc'.closed_prefix, hpasses, houtbox⟩

/-- The first coroutine of the pipeline writes two bytes and hangs up; the second
reads up to the hang-up, takes it and ends, and the first comes out of it. -/
def hupAndReadhup : List Act :=
  [.play 1, .play 0, .start, .exec, .exec,
    .co (.store (Memory.store (fun _ => 0) 0 [104, 105])),
    .co (.call (.write 0 0 2)), .co .turn, .co .turn,
    .co (.call (.hup 0)), .co .turn, .unblock wouldBlock, .exec, .co .turn, .co .turn,
    .unblock wouldBlock, .exec, .exec, .exec,
    .co (.call (.read 1 8 4)), .co .turn, .co (.readhup 1),
    .co (.stop .ended), .unblock wouldBlock, .exec, .exec, .exec, .co .turn, .co .turn]

theorem fresh_pipeline : Fresh 0 1 pipeline where
  joined := joined_pipeline
  tx := rfl
  rx := rfl
  eof := rfl
  free t k h := by cases h
  noReadhup s h := by cases h
  noClose h := by cases h

theorem hups_delimit_pipeline : ∃ m', run Machine.step hupAndReadhup pipeline = some m' ∧
    (messages 0 1 hupAndReadhup pipeline).inbox.closed
      <+: (messages 0 1 hupAndReadhup pipeline).outbox.closed ∧
    (messages 0 1 hupAndReadhup pipeline).inbox.closed = [[104, 105]] ∧
    (messages 0 1 hupAndReadhup pipeline).passes = 1 := by
  obtain ⟨m', hm'⟩ := Option.isSome_iff_exists.mp
    (by decide : (run Machine.step hupAndReadhup pipeline).isSome = true)
  have hby : Meets Machine.step (HungUpBy 0 0) hupAndReadhup pipeline := by decide
  exact ⟨m', hm', (hups_delimit fresh_pipeline hby hm').1, by decide, by decide⟩

end Vk

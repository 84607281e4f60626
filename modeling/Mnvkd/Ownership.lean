/-
# `Mnvkd.Ownership` — a socket of one coroutine

A coroutine that alone operates on a socket finds its block as it left it: while
it is in a loop the block has the loop's operation, and while it waits the socket
blocks it (`Owned`).  That holds over every run in which no other coroutine
operates on the socket (`Owned.step`).
-/
import Mnvkd.MachineFrame

namespace Vk

open Lib

namespace Machine

variable {m m' : Machine} {a : Act} {t u s : Nat}

/-! ## Threads -/

theorem body_threads (pl : ProcLocal) (k : IoLoop) (s : Nat) :
    ((k.loop s).body pl).threads = pl.threads := by
  cases k <;> rfl

theorem waitOn_threads (pl : ProcLocal) (t s u : Nat) : (pl.waitOn t s).threads u = if u = t then
    { pl.threads t with waitingSocketPtr := some s, status := .wait } else pl.threads u :=
  ProcLocal.updThread_threads pl t u fun that =>
    { that with waitingSocketPtr := some s, status := .wait }

theorem raise_status (m : Machine) (t : Nat) (e : Errno) (u : Nat) :
    ((m.raise t e).pl.threads u).status = (m.pl.threads u).status ∨
    ((m.raise t e).pl.threads u).status = .run ∨ u = t := by
  by_cases hu : u = t
  · exact Or.inr (Or.inr hu)
  · exact (ProcLocal.rouses_raiseAt m.pl e hu).imp_right Or.inl

theorem raise_status_self (m : Machine) (t : Nat) (e : Errno) :
    ((m.raise t e).pl.threads t).status = .err := by
  show ((m.pl.raiseAt t e).threads t).status = _
  unfold ProcLocal.raiseAt
  dsimp only
  rw [ProcLocal.updThread_threads_self]

theorem leave_status (m : Machine) (t : Nat) (k : IoLoop) (s u : Nat) :
    ((m.leave t k s).pl.threads u).status = (m.pl.threads u).status ∨
    ((m.leave t k s).pl.threads u).status = .run ∨ u = t ∧ (m.leave t k s).stage = .back t := by
  by_cases hk : k = .hupFlush
  · subst k
    cases heof : (m.pl.sockets s).tx.eof with
    | true =>
        rw [leave_of_eof heof]
        exact (raise_status _ t _ u).imp_right fun h => h.imp_right fun h => ⟨h, rfl⟩
    | false =>
        rw [leave_of_not_eof heof]
        exact Or.inl rfl
  · rw [leave_of_ne hk]
    exact Or.inl rfl

theorem turn_status (m : Machine) (t : Nat) (k : IoLoop) (s u : Nat) :
    ((m.turn t k s).pl.threads u).status = (m.pl.threads u).status ∨
    ((m.turn t k s).pl.threads u).status = .run ∨ u = t ∧ (m.turn t k s).stage = .back t := by
  have hbody := body_threads m.pl k s
  have hturned := (k.loop s).turned m.pl
  unfold turn
  generalize (k.loop s).turn m.pl = outcome at hturned
  cases hturned with
  | left => exact leave_status m t k s u
  | done =>
      have hleave := leave_status { m with pl := (k.loop s).body m.pl } t k s u
      rw [show ({ m with pl := (k.loop s).body m.pl } : Machine).pl.threads = m.pl.threads from hbody]
        at hleave
      exact hleave
  | failed =>
      have hraise := raise_status { m with pl := (k.loop s).body m.pl } t
        ((k.loop s).body m.pl).errno u
      rw [show ({ m with pl := (k.loop s).body m.pl } : Machine).pl.threads = m.pl.threads from hbody]
        at hraise
      exact hraise.imp_right fun h => h.imp_right fun h => ⟨h, rfl⟩
  | wait =>
      by_cases hu : u = t
      · exact Or.inr (Or.inr ⟨hu, rfl⟩)
      · left
        dsimp only
        rw [waitOn_threads, if_neg hu, hbody]
  | again =>
      left
      show (((k.loop s).body m.pl).threads u).status = _
      rw [hbody]

theorem execute_status (m : Machine) (phase : Phase) : m.pl.Rouses (m.execute phase).pl := by
  have hupd : ∀ (pl : ProcLocal) (t : Nat) (f : Thread → Thread),
      (∀ that, (f that).status = that.status) → pl.Rouses (pl.updThread t f) := fun pl t f hf u => by
    left
    rw [ProcLocal.updThread_threads]
    split
    · subst u
      exact hf _
    · rfl
  cases phase with
  | pick =>
      show m.pl.Rouses m.pl.pickRun.pl
      unfold ProcLocal.pickRun ProcLocal.dequeueRun
      cases m.pl.runQ with
      | nil => exact ProcLocal.rouses_of_threads rfl
      | cons t rest =>
          exact hupd { m.pl with run := if rest.isEmpty then false else m.pl.run, runQ := rest } t
            (fun that => { that with runEnq := false }) fun _ => rfl
  | loop t =>
      unfold execute
      dsimp only
      split
      · unfold enterThread
        dsimp only
        split
        · exact hupd _ t _ fun _ => rfl
        · exact ProcLocal.rouses_of_threads rfl
      · show m.pl.Rouses (m.pl.leaveLoop t).pl
        unfold ProcLocal.leaveLoop
        dsimp only
        split
        · exact (ProcLocal.settles_ready _ t).status
        · exact ProcLocal.rouses_of_threads rfl
  | returned rc => exact ProcLocal.rouses_of_threads rfl

theorem readhup_status (m : Machine) (t s u : Nat) :
    ((m.readhup t s).pl.threads u).status = (m.pl.threads u).status ∨
    ((m.readhup t s).pl.threads u).status = .run ∨ u = t ∧ (m.readhup t s).stage = .back t := by
  unfold readhup
  split
  · have hhandles := (ProcLocal.handles_handleReadhup m.pl s).status
    generalize (m.pl.handleReadhup s).pl = pl at hhandles
    dsimp only
    split
    · have hraise := raise_status { m with
        pl := (pl.setRx s ((pl.sockets s).rx.readhup pl.errno).ring).setErrno
          ((pl.sockets s).rx.readhup pl.errno).errno } t
        ((pl.sockets s).rx.readhup pl.errno).errno u
      rcases hraise with hsame | hrun | hu
      · exact (hhandles u).imp (hsame.trans ·) fun h => Or.inl (hsame.trans h)
      · exact Or.inr (Or.inl hrun)
      · exact Or.inr (Or.inr ⟨hu, rfl⟩)
    · exact (hhandles u).imp_right Or.inl
  · exact (raise_status m t _ u).imp_right fun h => h.imp_right fun h => ⟨h, rfl⟩

/-- A thread's status changes to run, or as its own function comes back. -/
theorem status_step (h : step a m = some m') (u : Nat) :
    (m'.pl.threads u).status = (m.pl.threads u).status ∨ (m'.pl.threads u).status = .run ∨
    m.stage = .inside u ∧ m'.stage = .back u := by
  have hown : ∀ {t : Nat} {p q : Prop}, m.stage = .inside t →
      (p ∨ q ∨ u = t ∧ m'.stage = .back t) →
      p ∨ q ∨ m.stage = .inside u ∧ m'.stage = .back u := fun hst h =>
    h.imp_right fun h => h.imp_right fun h => by
      obtain ⟨rfl, hst'⟩ := h
      exact ⟨hst, hst'⟩
  cases stepped h with
  | start | answer => exact Or.inl rfl
  | play hst t => exact ((ProcLocal.settles_enqueueRun m.pl t).status u).imp_right Or.inl
  | retry hst s os => exact (ProcLocal.rouses_retrySocket m.pl s os u).imp_right Or.inl
  | exec phase hst => exact (execute_status m phase u).imp_right Or.inl
  | unblock t hst os => exact (ProcLocal.rouses_afterCall m.pl os t u).imp_right Or.inl
  | co t hst a m' hco =>
      cases coStepped hco with
      | turn k s hpos => exact hown hst (turn_status m t k s u)
      | call hpos c hknown =>
          have henter : (c.enter m.pl).threads = m.pl.threads := by
            cases c with
            | once s op =>
                show (m.pl.beginOnce s op).threads = _
                unfold ProcLocal.beginOnce ProcLocal.enqueueBlocked
                dsimp only
                split
                · split <;> rfl
                · rfl
            | _ => rfl
          unfold call
          split
          · rename_i e _
            have hraise := raise_status { m with pl := c.enter m.pl } t e u
            rw [show ({ m with pl := c.enter m.pl } : Machine).pl.threads = m.pl.threads from henter]
              at hraise
            exact hraise.imp_right fun h => h.imp_right fun h => by
              subst h
              exact ⟨hst, rfl⟩
          · left
            rw [setPos_pl, henter]
      | readhup hpos s => exact hown hst (readhup_status m t s u)
      | play hpos v => exact ((ProcLocal.settles_enqueueRun m.pl v).status u).imp_right Or.inl
      | store hpos mem => exact Or.inl rfl
      | raise hpos e =>
          exact hown hst ((raise_status m t e u).imp_right fun h => h.imp_right fun h => ⟨h, rfl⟩)
      | stop hpos status hstatus =>
          by_cases hu : u = t
          · subst hu
            exact Or.inr (Or.inr ⟨hst, rfl⟩)
          · left
            rw [ProcLocal.updThread_threads, if_neg hu]

/-- A thread that raises does not wait. -/
theorem not_wait_of_raise {e : Errno} {p : Prop} (h : ((m.raise t e).pl.threads t).status = .wait) :
    p := by
  rw [raise_status_self] at h
  cases h

/-- Leaving a loop, a thread goes on or raises. -/
theorem not_wait_of_leave {k : IoLoop} {p : Prop} (hst : m.stage = .inside t)
    (hst' : (m.leave t k s).stage = .back t)
    (hwait : ((m.leave t k s).pl.threads t).status = .wait) : p := by
  by_cases hk : k = .hupFlush
  · subst k
    cases heof : (m.pl.sockets s).tx.eof with
    | true =>
        rw [leave_of_eof heof] at hwait
        exact not_wait_of_raise hwait
    | false =>
        rw [leave_of_not_eof heof, setPos_stage, hst] at hst'
        cases hst'
  · rw [leave_of_ne hk, setPos_stage, hst] at hst'
    cases hst'

theorem leave_stage (m : Machine) (t : Nat) (k : IoLoop) (s : Nat) :
    (m.leave t k s).stage = m.stage ∨ (m.leave t k s).stage = .back t := by
  by_cases hk : k = .hupFlush
  · subst k
    cases heof : (m.pl.sockets s).tx.eof with
    | true =>
        rw [leave_of_eof heof]
        exact Or.inr rfl
    | false =>
        rw [leave_of_not_eof heof]
        exact Or.inl rfl
  · rw [leave_of_ne hk]
    exact Or.inl rfl

/-- A coroutine's step leaves it running, or back. -/
theorem co_stage {c : CoAct} (h : m.co t c = some m') :
    m'.stage = m.stage ∨ m'.stage = .back t := by
  cases coStepped h with
  | turn k s hpos =>
      have hturned := (k.loop s).turned m.pl
      unfold turn
      generalize (k.loop s).turn m.pl = outcome at hturned
      cases hturned with
      | left => exact leave_stage m t k s
      | done => exact leave_stage { m with pl := (k.loop s).body m.pl } t k s
      | failed | wait => exact Or.inr rfl
      | again => exact Or.inl rfl
  | call hpos c hknown =>
      unfold call
      split
      · exact Or.inr rfl
      · exact Or.inl rfl
  | readhup hpos s =>
      unfold readhup
      split
      · dsimp only
        split
        · exact Or.inr rfl
        · exact Or.inl rfl
      · exact Or.inr rfl
  | play | store => exact Or.inl rfl
  | raise | stop => exact Or.inr rfl

/-- The executor calls a thread that is ready, and it runs until it comes back. -/
theorem inside_step (h : step a m = some m') (hst' : m'.stage = .inside u) :
    m.stage = .inside u ∨
    m.stage = .exec (.loop u) ∧ (m.pl.threads u).isReady = true ∧ m' = m.enterThread u := by
  cases stepped h with
  | start | unblock => cases hst'
  | play hst | answer hst | retry hst =>
      have hkernel : m.stage = .inside u := hst'
      rw [hst] at hkernel
      cases hkernel
  | exec phase hst =>
      cases phase with
      | pick | returned => cases hst'
      | loop t =>
          unfold execute at hst' ⊢
          dsimp only at hst' ⊢
          split at hst'
          · rename_i hready
            cases hst'
            exact Or.inr ⟨hst, hready, if_pos hready⟩
          · cases hst'
  | co t hst c m' hco =>
      rcases co_stage hco with hsame | hback
      · exact Or.inl (hsame.symm.trans hst')
      · rw [hback] at hst'
        cases hst'

/-- A thread comes back from where it runs. -/
theorem back_step (hstep : step a m = some m') (hst' : m'.stage = .back u) :
    m.stage = .inside u := by
  cases stepped hstep with
  | start | unblock => cases hst'
  | play hst | answer hst | retry hst =>
      have hkernel : m.stage = .back u := hst'
      rw [hst] at hkernel
      cases hkernel
  | exec phase hst =>
      cases phase with
      | pick | returned => cases hst'
      | loop t =>
          unfold execute at hst'
          dsimp only at hst'
          split at hst'
          · cases hst'
          · cases hst'
  | co t hst c m' hco =>
      rcases co_stage hco with hsame | hback
      · rw [hsame, hst] at hst'
        cases hst'
      · rw [hback] at hst'
        cases hst'
        exact hst

/-- A thread that comes back waiting has taken a turn that waits. -/
theorem waited_step (h : step a m = some m') (hst : m.stage = .inside u)
    (hst' : m'.stage = .back u) (hwait : (m'.pl.threads u).status = .wait) :
    ∃ k s, a = .co .turn ∧ m.pos u = some (k, s) ∧
      (k.loop s).turn m.pl = .wait ((k.loop s).body m.pl) ∧
      m' = { m with pl := ((k.loop s).body m.pl).waitOn u s, stage := .back u } := by
  cases stepped h with
  | start hu | play hu | answer hu | retry hu | exec _ hu | unblock _ hu =>
      rw [hst] at hu
      cases hu
  | co t hu a m' hco =>
      rw [hst] at hu
      cases hu
      cases coStepped hco with
      | turn k s hpos =>
          refine ⟨k, s, rfl, hpos, ?_⟩
          have hturned := (k.loop s).turned m.pl
          unfold turn at hst' hwait ⊢
          generalize (k.loop s).turn m.pl = outcome at hturned hst' hwait ⊢
          cases hturned with
          | left => exact not_wait_of_leave hst hst' hwait
          | done =>
              exact not_wait_of_leave (m := { m with pl := (k.loop s).body m.pl }) hst hst' hwait
          | failed => exact not_wait_of_raise hwait
          | wait => exact ⟨rfl, rfl⟩
          | again =>
              rw [hst] at hst'
              cases hst'
      | call hpos c hknown =>
          unfold call at hst' hwait
          split at hst'
          · rename_i e he
            rw [he] at hwait
            exact not_wait_of_raise hwait
          · rw [setPos_stage, hst] at hst'
            cases hst'
      | readhup hpos s =>
          unfold readhup at hst' hwait
          split at hst'
          · rename_i hup
            rw [if_pos hup] at hwait
            dsimp only at hst' hwait
            split at hst'
            · rename_i hrc
              rw [if_pos hrc] at hwait
              exact not_wait_of_raise hwait
            · rw [hst] at hst'
              cases hst'
          · rename_i hup
            rw [if_neg hup] at hwait
            exact not_wait_of_raise hwait
      | play hpos v | store hpos mem =>
          rw [hst] at hst'
          cases hst'
      | raise hpos e => exact not_wait_of_raise hwait
      | stop hpos status hstatus =>
          rw [ProcLocal.updThread_threads_self] at hwait
          exact absurd (Or.inl hwait) hstatus

end Machine

/-! ## Owned sockets -/

/-- The operations of the block while its thread is in a loop. -/
def IoLoop.admits : IoLoop → Op → Prop
  | .read, op | .readline, op | .pollread, op => op = .read
  | .write, op => op = .write
  | .flush, op | .hupFlush, op => op = .flush
  | .forward, op => op = .forward
  | .hup, op => op = .hup
  | .once, op => op ∈ onceOps

theorem IoCall.admits_first {c : IoCall} (h : c.known = true) : c.first.admits c.op := by
  cases c with
  | once s op =>
      show op ∈ onceOps
      simpa [IoCall.known] using h
  | _ => rfl

/-- No block ever has the operation of a hang-up being read, which does not wait. -/
theorem noReadhup_step {m m' : Machine} {a : Act} (h : ∀ s, (m.pl.sockets s).block.op ≠ .readhup)
    (hstep : Machine.step a m = some m') (s : Nat) : (m'.pl.sockets s).block.op ≠ .readhup := by
  rcases Machine.op_step hstep s with hop | ⟨t, -, -, hop⟩ | ⟨t, d, -, -, hknown, -, hop⟩
  · rw [hop]
    exact h s
  · simp [hop]
  · rw [hop]
    exact IoCall.op_ne_readhup hknown

/-- No other coroutine than `t` begins an operation on socket `s`. -/
def UsedBy (t s : Nat) (a : Act) (m : Machine) : Prop :=
  ∀ p ∈ m.called a, p.2.socketPtr = s → p.1 = t

instance (t s : Nat) (a : Act) (m : Machine) : Decidable (UsedBy t s a m) :=
  inferInstanceAs (Decidable (∀ p ∈ m.called a, p.2.socketPtr = s → p.1 = t))

/-- Thread `t` alone operates on socket `s`, and finds the block as it left it. -/
structure Owned (t s : Nat) (m : Machine) : Prop where
  alone : ∀ u k, m.pos u = some (k, s) → u = t
  admits : ∀ k, m.pos t = some (k, s) → k.admits (m.pl.sockets s).block.op
  blocks : ∀ k, m.pos t = some (k, s) → (m.pl.threads t).status = .wait → m.pl.blockedVk s = t
  ready : ∀ u, m.stage = .inside u → (m.pl.threads u).isReady = true

section Owned

variable {m m' : Machine} {a : Act} {t s : Nat}

theorem Owned.usedSocket (h : Owned t s m) (hby : UsedBy t s a m) (hstep : Machine.step a m = some m')
    (hs : Machine.usedSocket a m = some s) : m.stage = .inside t ∧
      ((∃ k, m.pos t = some (k, s) ∧ m' = m.turn t k s) ∨
      ∃ c, m.pos t = none ∧ c.known = true ∧ c.socketPtr = s ∧ m' = m.call t c) := by
  cases Machine.stepped hstep with
  | co u hst a m' hco =>
      cases Machine.coStepped hco with
      | turn k b hpos =>
          simp only [Machine.usedSocket, hst, hpos, Option.map_some, Option.some.injEq] at hs
          subst hs
          obtain rfl := h.alone u k hpos
          exact ⟨hst, Or.inl ⟨k, hpos, rfl⟩⟩
      | call hpos c hknown =>
          simp only [Machine.usedSocket, hst, Option.some.injEq] at hs
          obtain rfl := hby (u, c) (Machine.called_call hst c) hs
          exact ⟨hst, Or.inr ⟨c, hpos, hknown, hs, rfl⟩⟩
      | readhup | play | store | raise | stop => simp [Machine.usedSocket, hst] at hs
  | start hst | play hst | answer hst | retry hst | exec _ hst | unblock _ hst =>
      simp [Machine.usedSocket, hst] at hs

/-- A thread is in a loop on a socket that the step did not operate on only if it
was there before. -/
theorem Machine.pos_of_unused {u : Nat} {k : IoLoop} (hstep : Machine.step a m = some m')
    (hs : Machine.usedSocket a m ≠ some s) (hpos : m'.pos u = some (k, s)) :
    m.pos u = some (k, s) := by
  rcases Machine.pos_step hstep u with
    hsame | ⟨hst, hnone | ⟨b, rfl, hflush, hhup⟩ | ⟨c, rfl, -, -, hcall⟩⟩
  · rw [← hsame]
    exact hpos
  · rw [hnone] at hpos
    cases hpos
  · rw [hhup] at hpos
    cases hpos
    exact absurd (by simp [Machine.usedSocket, hst, hflush]) hs
  · rw [hcall] at hpos
    cases hpos
    exact absurd (by simp [Machine.usedSocket, hst]) hs

theorem alone_step (h : ∀ u k, m.pos u = some (k, s) → u = t) (hby : UsedBy t s a m)
    (hstep : Machine.step a m = some m') (u : Nat) (k : IoLoop) (hpos : m'.pos u = some (k, s)) :
    u = t := by
  rcases Machine.pos_step hstep u with
    hsame | ⟨hst, hnone | ⟨b, -, hflush, hhup⟩ | ⟨c, rfl, -, -, hcall⟩⟩
  · exact h u k (hsame ▸ hpos)
  · rw [hnone] at hpos
    cases hpos
  · rw [hhup] at hpos
    cases hpos
    exact h u _ hflush
  · rw [hcall] at hpos
    simp only [Option.some.injEq, Prod.mk.injEq] at hpos
    exact hby (u, c) (Machine.called_call hst c) hpos.2

theorem Owned.admits_step (h : Owned t s m) (hby : UsedBy t s a m)
    (hstep : Machine.step a m = some m') (k : IoLoop) (hpos : m'.pos t = some (k, s)) :
    k.admits (m'.pl.sockets s).block.op := by
  by_cases hs : Machine.usedSocket a m = some s
  · obtain ⟨-, ⟨k', hk', rfl⟩ | ⟨c, -, hknown, rfl, rfl⟩⟩ := h.usedSocket hby hstep hs
    · rcases Machine.turn_op m t k' s with ⟨hsame | hnone, hop⟩ | ⟨-, hhup, hop⟩
      · rw [hsame, hk'] at hpos
        cases hpos
        rw [hop]
        exact h.admits k hk'
      · rw [hnone] at hpos
        cases hpos
      · rw [hhup] at hpos
        cases hpos
        exact hop
    · unfold Machine.call at hpos ⊢
      split at hpos
      · rw [Machine.raise_pos, if_pos rfl] at hpos
        cases hpos
      · rw [Machine.setPos_pos, if_pos rfl] at hpos
        cases hpos
        rw [Machine.setPos_pl, enter_op]
        exact IoCall.admits_first hknown
  · rw [(Machine.sameUse_step hstep hs).op]
    exact h.admits k (Machine.pos_of_unused hstep hs hpos)

theorem isReady_iff {that : Thread} :
    that.isReady = true ↔ that.status = .run ∨ that.status = .err := by
  simp [Thread.isReady]

theorem Owned.ready_step (h : Owned t s m) (hstep : Machine.step a m = some m') (u : Nat)
    (hst' : m'.stage = .inside u) : (m'.pl.threads u).isReady = true := by
  have hready : (m.pl.threads u).isReady = true := by
    rcases Machine.inside_step hstep hst' with hst | ⟨-, hready, -⟩
    · exact h.ready u hst
    · exact hready
  rcases Machine.status_step hstep u with hsame | hrun | ⟨-, hback⟩
  · rw [isReady_iff, hsame]
    exact isReady_iff.mp hready
  · exact isReady_iff.mpr (Or.inl hrun)
  · rw [hst'] at hback
    cases hback

/-- The coroutine that runs does not wait. -/
theorem Owned.not_wait (h : Owned t s m) {u : Nat} (hst : m.stage = .inside u) :
    (m.pl.threads u).status ≠ .wait := by
  intro hwait
  rcases isReady_iff.mp (h.ready u hst) with hready | hready
  · rw [hwait] at hready
    cases hready
  · rw [hwait] at hready
    cases hready

theorem Owned.blocks_step (h : Owned t s m) (hby : UsedBy t s a m)
    (hstep : Machine.step a m = some m') (k : IoLoop) (hpos : m'.pos t = some (k, s))
    (hwait : (m'.pl.threads t).status = .wait) : m'.pl.blockedVk s = t := by
  rcases Machine.status_step hstep t with hsame | hrun | ⟨hst, hback⟩
  · rw [hsame] at hwait
    by_cases hs : Machine.usedSocket a m = some s
    · exact absurd hwait (h.not_wait (h.usedSocket hby hstep hs).1)
    · exact (Machine.sameUse_step hstep hs).blockedVk.trans
        (h.blocks k (Machine.pos_of_unused hstep hs hpos) hwait)
  · rw [hrun] at hwait
    cases hwait
  · obtain ⟨k', s', -, hpos', -, rfl⟩ := Machine.waited_step hstep hst hback hwait
    rw [hpos'] at hpos
    cases hpos
    show (((((k.loop s).body m.pl).waitOn t s).sockets s).block.blockedVk) = t
    rw [Machine.waitOn_self]

/-- A step of the machine keeps a socket owned. -/
theorem Owned.step (h : Owned t s m) (hby : UsedBy t s a m) (hstep : Machine.step a m = some m') :
    Owned t s m' :=
  ⟨alone_step h.alone hby hstep, h.admits_step hby hstep, h.blocks_step hby hstep,
    h.ready_step hstep⟩

end Owned

end Vk

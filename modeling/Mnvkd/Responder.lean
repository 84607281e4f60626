/-
# `Mnvkd.Responder` — a call that waits for a responder to end

A service coroutine starts a responder, and at its end it runs `vk_call` and then
frees the responder's thread object: it is to resume when the responder has ended.
But `vk_call` plays the responder and pauses, and no more.  What resumes the parent
is whatever enqueues it: a handler of the responder that has taken something from
the parent's ring, or a retry of a socket that still blocks the parent.  The end
of the responder does not.

    resumes_at_end    where the parent is enqueued in the responder's last slice,
                      and never before, it resumes exactly at the end
    caller_early      it resumes before the end
    caller_lost       the responder ends and no one resumes it
-/
import Mnvkd.Eof
import Mnvkd.Paused
import Mnvkd.VirtualPipe

namespace Vk

open Lib

namespace Machine

variable {m m' : Machine} {a : Act} {p q : Nat}

/-! ## The call -/

/-- Thread `p` has paused in `vk_call`, and comes back. -/
structure InCall (p q : Nat) (m : Machine) : Prop where
  ne : p ≠ q
  stage : m.stage = .back p
  paused : (m.pl.threads p).status = .yield
  queued : Queued m.pl
  wired : ProcLocal.Wired m.pl

/-- Thread `p` has not gone on. -/
def Paused (p : Nat) (_ : Act) (m : Machine) : Prop := m.stage ≠ .inside p

/-- The process runs no other coroutine. -/
def OnlyTwo (p q : Nat) (_ : Act) (m : Machine) : Prop := ∀ t ∈ m.current, t = p ∨ t = q

/-- Nothing runs, and nothing will. -/
def Idle (m : Machine) : Prop := m.stage = .kernel ∧ m.pl.runQ = [] ∧ m.pl.blockedQ = []

def Ended (q : Nat) (m : Machine) : Prop := (m.pl.threads q).status = .ended

/-- The parent goes on when the responder has ended, and it is not left behind. -/
structure ResumesAtEnd (p q : Nat) (m : Machine) : Prop where
  notBefore : m.stage = .inside p → Ended q m
  notLost : Idle m → ¬Ended q m

/-! ## The condition -/

/-- The call is made when the parent is not enqueued, unless the responder has
ended already. -/
def CallsInTime (p q : Nat) (m : Machine) : Prop := Ended q m ↔ p ∈ m.pl.runQ

/-- The coroutine that ends. -/
def ending (a : Act) (m : Machine) : Option Nat :=
  match m.stage, a with
  | .inside t, .co (.stop .ended) => some t
  | _, _ => none

/-- While the responder has not ended, the poller resumes no one else, the
executor leaves the responder only where the parent is not enqueued, and the
responder ends only where it is. -/
def Handshake (p q : Nat) (a : Act) (m : Machine) : Prop :=
  ¬Ended q m →
    (m.stage = .kernel → ¬MayWake a m p) ∧
    (m.stage = .exec (.loop q) → (m.pl.threads q).isReady = false → p ∉ m.pl.runQ) ∧
    (ending a m = some q → p ∈ m.pl.runQ)

/-- Where the call stands.  Either the responder has not ended, and the parent is
enqueued only while the executor is at the responder; or it has, and the parent is
enqueued, or the executor has come to it. -/
structure Calling (p q : Nat) (m : Machine) : Prop where
  orderly : Orderly m
  rests : Rests p m
  before : ¬Ended q m → (p ∈ m.pl.runQ → m.current = some q) ∧
    ¬(m.stage = .exec (.loop p) ∧ (m.pl.threads p).isReady = true)
  after : Ended q m → m.stage ≠ .inside q ∧
    (p ∈ m.pl.runQ ∨ m.stage = .exec (.loop p) ∧ (m.pl.threads p).isReady = true)

theorem InCall.calling (h : InCall p q m) (htime : CallsInTime p q m) : Calling p q m where
  orderly := {
    queued := h.queued
    wired := h.wired
    backsOwn := fun t s hst hwait => by
      cases h.stage.symm.trans hst
      rw [h.paused] at hwait
      cases hwait
    waits := fun t hst hwait => by
      cases h.stage.symm.trans hst
      rw [h.paused] at hwait
      cases hwait }
  rests := ⟨by rw [h.stage]; exact Stage.noConfusion, Or.inr ⟨h.paused, Or.inl h.stage⟩⟩
  before hended := by
    refine ⟨fun hp => absurd (htime.mpr hp) hended, fun hloop => ?_⟩
    rw [h.stage] at hloop
    cases hloop.1
  after hended := by
    rw [h.stage]
    exact ⟨Stage.noConfusion, Or.inl (htime.mp hended)⟩

/-! ## One step -/

/-- A thread ends as its function comes back ended. -/
theorem ended_step (h : step a m = some m') (hended' : Ended q m') :
    Ended q m ∨ ending a m = some q ∧ m'.pl.runQ = m.pl.runQ ∧
      m'.stage = .back q := by
  rcases status_step h q with hsame | hrun | ⟨hst, hst'⟩
  · exact Or.inl (hsame.symm.trans hended')
  · rw [Ended, hrun] at hended'
    cases hended'
  · right
    rcases back_cases h hst hst' with herr | ⟨k, s, -, -, -, rfl⟩ | ⟨status, rfl, -, -, rfl⟩
    · rw [Ended, herr] at hended'
      cases hended'
    · rw [Ended, waitOn_threads, if_pos rfl] at hended'
      cases hended'
    · have hstatus : status = .ended := by
        rw [Ended, ProcLocal.updThread_threads_self] at hended'
        exact hended'
      subst hstatus
      exact ⟨by simp only [ending, hst], rfl, rfl⟩

/-- A thread that has ended stays ended. -/
theorem ended_of_step (h : step a m = some m') (ho : Orderly m) (hst : m.stage ≠ .inside q)
    (hended : Ended q m) : Ended q m' := by
  rcases roused_step h ho.queued ho.wired ho.backsOwn q with hsame | hinside | ⟨hne, -⟩
  · exact hsame.trans hended
  · exact absurd hinside hst
  · exact absurd hended hne

/-- The executor goes on with the responder while it is ready. -/
theorem Calling.current_step (h : Calling p q m) (hstep : step a m = some m')
    (hq : m.current = some q) (hready : m.stage = .exec (.loop q) → (m.pl.threads q).isReady = true) :
    m'.current = some q := by
  unfold current at hq
  cases hst : m.stage with
  | kernel =>
      rw [hst] at hq
      cases hq
  | inside t =>
      rw [hst] at hq
      cases hq
      rcases step_of_inside hstep hst with hst' | hst'
      · rw [current, hst']
      · rw [current, hst']
  | back t =>
      rw [hst] at hq
      cases hq
      rw [current, back_step_loop hstep hst h.orderly.wired (h.orderly.waits _ hst)]
  | exec phase =>
      rw [hst] at hq
      cases phase with
      | pick | returned => cases hq
      | loop t =>
          cases hq
          rcases loop_step hstep hst with ⟨-, hst'⟩ | ⟨hnot, -⟩
          · rw [current, hst']
          · rw [hready hst] at hnot
            cases hnot

/-- Until the responder has ended the parent is enqueued only in its slices. -/
theorem Calling.before_step (h : Calling p q m) (htwo : OnlyTwo p q a m) (hshake : Handshake p q a m)
    (hstep : step a m = some m') (hended : ¬Ended q m) :
    (p ∈ m'.pl.runQ → m'.current = some q) ∧
      ¬(m'.stage = .exec (.loop p) ∧ (m'.pl.threads p).isReady = true) := by
  obtain ⟨hkernel, hleaves, -⟩ := hshake hended
  obtain ⟨hqueued, hloop⟩ := h.before hended
  have hother : ∀ {t}, m.current = some t → t ≠ p → t = q := fun ht hne =>
    (htwo _ ht).resolve_left hne
  refine ⟨fun hp => ?_, fun ⟨hst', hready⟩ => ?_⟩
  · rcases runQ_step hstep h.orderly.queued hp with hp | hwake
    · refine h.current_step hstep (hqueued hp) fun hst => ?_
      by_contra hnot
      exact hleaves hst (by simpa using hnot) hp
    · cases hst : m.stage with
      | kernel => exact absurd hwake (hkernel hst)
      | exec phase =>
          simp only [MayWake, hst] at hwake
      | inside t =>
          have hcurrent : m.current = some t := by rw [current, hst]
          have htq := hother hcurrent fun htp => h.rests.paused (by rw [hst, htp])
          rw [htq] at hcurrent
          refine h.current_step hstep hcurrent fun hloop => ?_
          rw [hst] at hloop
          cases hloop
      | back t =>
          have hcurrent : m.current = some t := by rw [current, hst]
          have htq := hother hcurrent fun htp => by
            -- the parent has come back yielding, and wakes no one
            subst htp
            have hwait : (m.pl.threads t).status = .wait := by
              cases a with
              | unblock os =>
                  simp only [MayWake, hst] at hwake
                  exact hwake.1
              | _ => simp only [MayWake, hst] at hwake
            exact h.rests.not_wait hwait
          rw [htq] at hcurrent
          refine h.current_step hstep hcurrent fun hloop => ?_
          rw [hst] at hloop
          cases hloop
  · obtain ⟨hst, hp⟩ := h.rests.picked hstep hst' hready
    have hcurrent := hqueued hp
    rw [current, hst] at hcurrent
    cases hcurrent

/-- Once the responder has ended the parent is enqueued until the executor comes to
it. -/
theorem Calling.after_step (h : Calling p q m) (hstep : step a m = some m') (hended : Ended q m) :
    m'.stage ≠ .inside q ∧
      (m'.stage = .inside p ∨ p ∈ m'.pl.runQ ∨
        m'.stage = .exec (.loop p) ∧ (m'.pl.threads p).isReady = true) := by
  obtain ⟨hnot, hwho⟩ := h.after hended
  refine ⟨fun hst' => ?_, ?_⟩
  · rcases inside_step hstep hst' with hst | ⟨-, hready, -⟩
    · exact hnot hst
    · rw [Thread.isReady, show (m.pl.threads q).status = .ended from hended] at hready
      cases hready
  · rcases hwho with hp | ⟨hst, hready⟩
    · right
      rcases keeps_step hstep h.orderly.queued hp with hp' | ⟨hst, hst'⟩ | ⟨-, hpended⟩
      · exact Or.inl hp'
      · exact Or.inr ⟨hst', h.rests.ready_of_picked hstep hst⟩
      · exact absurd hpended h.rests.not_ended
    · rcases Machine.loop_step hstep hst with ⟨-, hst'⟩ | ⟨hnot, -⟩
      · exact Or.inl hst'
      · rw [hready] at hnot
        cases hnot

/-- The call goes on, or the parent does. -/
theorem Calling.step (h : Calling p q m) (htwo : OnlyTwo p q a m) (hshake : Handshake p q a m)
    (hstep : Machine.step a m = some m') : Calling p q m' ∨ m'.stage = .inside p ∧ Ended q m' := by
  have hstays : Ended q m → Ended q m' := fun hended =>
    ended_of_step hstep h.orderly (h.after hended).1 hended
  by_cases hst' : m'.stage = .inside p
  · refine Or.inr ⟨hst', hstays ?_⟩
    by_contra hended
    rcases inside_step hstep hst' with hst | ⟨hst, hready, -⟩
    · exact h.rests.paused hst
    · exact (h.before hended).2 ⟨hst, hready⟩
  · left
    exact {
      orderly := h.orderly.step hstep
      rests := h.rests.step h.orderly hstep hst'
      before := fun hended' => h.before_step htwo hshake hstep fun hended => hended' (hstays hended)
      after := fun hended' => by
        by_cases hended : Ended q m
        · obtain ⟨hnot, hinside | hwho⟩ := h.after_step hstep hended
          · exact absurd hinside hst'
          · exact ⟨hnot, hwho⟩
        · rcases ended_step hstep hended' with hbefore | ⟨hending, hrunQ, hback⟩
          · exact absurd hbefore hended
          · rw [hback, hrunQ]
            exact ⟨Stage.noConfusion, Or.inl ((hshake hended).2.2 hending)⟩ }

/-! ## Whole runs -/

/-- Called in time, and with a handshake at the responder's end, the parent resumes
exactly when the responder has ended. -/
theorem resumes_at_end {as : List Act} (h : InCall p q m) (htime : CallsInTime p q m)
    (hpaused : Meets Machine.step (Paused p) as m) (htwo : Meets Machine.step (OnlyTwo p q) as m)
    (hshake : Meets Machine.step (Handshake p q) as m) (hrun : run Machine.step as m = some m') :
    ResumesAtEnd p q m' := by
  have h' : Calling p q m' ∨ m'.stage = .inside p ∧ Ended q m' :=
    run_of_meets (C := fun a m => Paused p a m ∧ OnlyTwo p q a m ∧ Handshake p q a m)
      (I := fun m => Calling p q m ∨ m.stage = .inside p ∧ Ended q m)
      (fun _ _ _ h hc hstep => h.elim (fun h => h.step hc.2.1 hc.2.2 hstep)
        fun h => absurd h.1 hc.1)
      (Or.inl (h.calling htime)) (hpaused.and (htwo.and hshake)) hrun
  constructor
  · intro hst'
    exact h'.elim (fun h' => absurd hst' h'.rests.paused) And.right
  · intro hidle hended
    rcases h' with h' | ⟨hst', -⟩
    · rcases (h'.after hended).2 with hp | ⟨hst', -⟩
      · rw [hidle.2.1] at hp
        cases hp
      · rw [hidle.1] at hst'
        cases hst'
    · rw [hidle.1] at hst'
      cases hst'

end Machine

/-! ## The calls of a pipeline -/

instance (p : Nat) (a : Act) (m : Machine) : Decidable (Machine.Paused p a m) :=
  inferInstanceAs (Decidable (m.stage ≠ .inside p))

instance (p q : Nat) (a : Act) (m : Machine) : Decidable (Machine.OnlyTwo p q a m) :=
  inferInstanceAs (Decidable (∀ t ∈ m.current, t = p ∨ t = q))

instance (q : Nat) (m : Machine) : Decidable (Machine.Ended q m) :=
  inferInstanceAs (Decidable (_ = _))

instance (p q : Nat) (a : Act) (m : Machine) : Decidable (Machine.Handshake p q a m) :=
  inferInstanceAs (Decidable (¬Machine.Ended q m → (_ = _ → ¬Machine.MayWake a m p) ∧
    (_ = _ → _ = _ → _ ∉ _) ∧ (_ = _ → _ ∈ _)))

/-- What holds of the process of a call that is reached from `m₀`, until the caller
goes on. -/
def InEveryCall (m₀ : Machine) (p q : Nat) (P : Machine → Prop) : Prop :=
  ∀ (before after : List Act) (m m' : Machine), run Machine.step before m₀ = some m →
    Machine.InCall p q m → Meets Machine.step (Machine.Paused p) after m →
      Meets Machine.step (Machine.OnlyTwo p q) after m → run Machine.step after m = some m' → P m'

theorem inCall_pipeline {before : List Act} {m : Machine}
    (hrun : run Machine.step before pipeline = some m) (hst : m.stage = .back 0)
    (hpaused : (m.pl.threads 0).status = .yield) : Machine.InCall 0 1 m where
  ne := by decide
  stage := hst
  paused := hpaused
  queued := run_induction (fun _ _ _ hq hstep => Machine.queued_step hstep hq) (s := pipeline)
    ⟨fun _ => ⟨nofun, nofun⟩, List.nodup_nil, fun _ => ⟨nofun, nofun⟩, List.nodup_nil⟩ hrun
  wired := run_induction (I := fun m => ProcLocal.Wired m.pl)
    (fun _ _ _ hw hstep => Machine.wired_step hstep hw) (s := pipeline) (fun s w => by
      unfold pipeline Socket.init
      dsimp only
      constructor
      · split <;> exact nofun
      · split <;> exact nofun) hrun

/-- The parent plays the responder, hands it one byte, and calls it. -/
def handOver : List Act :=
  [.play 0, .start, .exec, .exec, .co (.play 1), .co (.call (.write 0 0 1)), .co .turn, .co .turn,
    .co (.call (.flush 0)), .co .turn, .unblock wouldBlock, .exec, .co .turn] ++ Machine.vkCall 1

/-- The executor goes on to the responder. -/
def goOn : List Act := [.unblock wouldBlock, .exec, .exec, .exec]

/-- The responder plays the parent before it ends. -/
def playParent : List Act :=
  goOn ++ [.co (.play 0), .co (.stop .ended), .unblock wouldBlock, .exec, .exec, .exec]

theorem resumes_at_end_pipeline : ∃ m m', run Machine.step handOver pipeline = some m ∧
    run Machine.step playParent m = some m' ∧ m'.stage = .inside 0 ∧
      Machine.ResumesAtEnd 0 1 m' := by
  obtain ⟨m, hm, hend⟩ := (Option.any_eq_true _ _).mp
    (by decide : (run Machine.step handOver pipeline).any (fun m =>
      decide (m.stage = .back 0 ∧ (m.pl.threads 0).status = .yield ∧ ¬Machine.Ended 1 m ∧
        0 ∉ m.pl.runQ ∧ Meets Machine.step (Machine.Paused 0) playParent m ∧
        Meets Machine.step (Machine.OnlyTwo 0 1) playParent m ∧
        Meets Machine.step (Machine.Handshake 0 1) playParent m ∧
        (run Machine.step playParent m).any (fun m' => decide (m'.stage = .inside 0)))) = true)
  obtain ⟨hst, hpaused, hended, hqueued, hrests, htwo, hshake, hplayed⟩ := of_decide_eq_true hend
  obtain ⟨m', hm', hst'⟩ := (Option.any_eq_true _ _).mp hplayed
  exact ⟨m, m', hm, hm', of_decide_eq_true hst',
    Machine.resumes_at_end (inCall_pipeline hm hst hpaused)
      (iff_of_false hended hqueued) hrests htwo hshake hm'⟩

/-- The responder waits to read, and the peer hangs up before it has sent a line, so
the parent raises, and calls the responder from its error handler. -/
def raiseFirst : List Act :=
  [.play 0, .start, .exec, .exec, .co (.play 1), .co (.call (.readline 0 0 8)), .co .turn] ++ goOn ++
  [.co (.call (.read 1 8 1)), .co .turn, .unblock wouldBlock, .exec, .exec, .exec,
    .retry 0 (readable []), .start, .exec, .exec, .co .turn, .co (.raise Errno.EINVAL),
    .unblock wouldBlock, .exec] ++ Machine.vkCall 1

/-- A parent that has raised is in the run queue, so it resumes while the responder
still waits. -/
theorem caller_early : ¬InEveryCall pipeline 0 1 fun m => m.stage = .inside 0 → Machine.Ended 1 m := by
  intro hall
  let after := goOn ++ [.co .turn, .unblock wouldBlock, .exec, .exec, .exec]
  obtain ⟨m, hm, hend⟩ := (Option.any_eq_true _ _).mp
    (by decide : (run Machine.step raiseFirst pipeline).any (fun m =>
      decide (m.stage = .back 0 ∧ (m.pl.threads 0).status = .yield ∧
        Meets Machine.step (Machine.Paused 0) after m ∧
        Meets Machine.step (Machine.OnlyTwo 0 1) after m ∧
        (run Machine.step after m).any fun m' =>
          decide (m'.stage = .inside 0 ∧ ¬Machine.Ended 1 m'))) = true)
  obtain ⟨hst, hpaused, hrests, htwo, hresumed⟩ := of_decide_eq_true hend
  obtain ⟨m', hm', hend'⟩ := (Option.any_eq_true _ _).mp hresumed
  obtain ⟨hst', hended⟩ := of_decide_eq_true hend'
  exact hended (hall _ after m m' hm (inCall_pipeline hm hst hpaused) hrests htwo hm' hst')

/-- A responder that reads, closes its side and ends leaves the parent paused for
good. -/
theorem caller_lost : ¬InEveryCall pipeline 0 1 fun m => Machine.Idle m → ¬Machine.Ended 1 m := by
  intro hall
  let after := goOn ++ [.co (.call (.read 1 8 1)), .co .turn, .co .turn,
    .co (.call (.once 1 .txClose)), .co .turn, .unblock wouldBlock, .exec, .co .turn,
    .co (.stop .ended), .unblock wouldBlock, .exec, .exec, .exec]
  obtain ⟨m, hm, hend⟩ := (Option.any_eq_true _ _).mp
    (by decide +kernel : (run Machine.step handOver pipeline).any (fun m =>
      decide (m.stage = .back 0 ∧ (m.pl.threads 0).status = .yield ∧
        Meets Machine.step (Machine.Paused 0) after m ∧
        Meets Machine.step (Machine.OnlyTwo 0 1) after m ∧
        (run Machine.step after m).any fun m' => decide ((m'.stage = .kernel ∧ m'.pl.runQ = [] ∧
          m'.pl.blockedQ = []) ∧ Machine.Ended 1 m'))) = true)
  obtain ⟨hst, hpaused, hrests, htwo, hresumed⟩ := of_decide_eq_true hend
  obtain ⟨m', hm', hend'⟩ := (Option.any_eq_true _ _).mp hresumed
  obtain ⟨hidle, hended⟩ := of_decide_eq_true hend'
  exact hall _ after m m' hm (inCall_pipeline hm hst hpaused) hrests htwo hm' hidle hended

theorem not_resumesAtEnd : ¬InEveryCall pipeline 0 1 (Machine.ResumesAtEnd 0 1) := fun hall =>
  caller_lost fun before after m m' hm hcall hrests htwo hm' =>
    (hall before after m m' hm hcall hrests htwo hm').notLost

end Vk

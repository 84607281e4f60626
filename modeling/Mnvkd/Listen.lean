/-
# `Mnvkd.Listen` — messages to a listening thread

A thread in `vk_listen` looks into its future queue, takes the first future if
there is one, and else comes back in `VK_PROC_LISTEN`, to look again when it is
entered.  Who sends to it enqueues the thread and the future in one go, in
`vk_send` and `vk_respond` in different orders; either way the thread does not sleep
with a future in its queue (`Listener.listen`), and what it takes is what has been
sent to it, in order (`listens_in_order`).
-/
import Mnvkd.Future

namespace Vk

open Lib

/-! ## Coming back to listen -/

namespace ProcLocal

theorem not_listen_enqueueRun (pl : ProcLocal) (t : Nat) :
    ((pl.enqueueRun t).threads t).status ≠ .listen := by
  intro hlisten
  have hready := enqueueRun_status_self pl t
  rw [hlisten] at hready
  exact absurd hready (by decide)

end ProcLocal

namespace Machine

variable {m m' : Machine} {a : Act} {t u : Nat}

/-- A thread that a turn of its loop brings back waits, or raises. -/
theorem turn_not_listen (k : IoLoop) (s : Nat) (hst : m.stage = .inside t)
    (hback : (m.turn t k s).stage = .back t) : ((m.turn t k s).pl.threads t).status ≠ .listen := by
  have hraised : ∀ (n : Machine) (e : Errno), ((n.raise t e).pl.threads t).status ≠ .listen := by
    intro n e
    rw [raise_status_self]
    exact ProcStat.noConfusion
  have hleft : ∀ n : Machine, n.stage = .inside t → (n.leave t k s).stage = .back t →
      ((n.leave t k s).pl.threads t).status ≠ .listen := by
    intro n hn hback
    by_cases hk : k = .hupFlush
    · subst k
      cases heof : (n.pl.sockets s).tx.eof with
      | true =>
          rw [leave_of_eof heof]
          exact hraised _ _
      | false =>
          rw [leave_of_not_eof heof, setPos_stage, hn] at hback
          cases hback
    · rw [leave_of_ne hk, setPos_stage, hn] at hback
      cases hback
  have hturned := (k.loop s).turned m.pl
  unfold turn at hback ⊢
  generalize (k.loop s).turn m.pl = outcome at hturned hback ⊢
  cases hturned with
  | left => exact hleft m hst hback
  | done => exact hleft { m with pl := (k.loop s).body m.pl } hst hback
  | failed => exact hraised _ _
  | wait =>
      dsimp only
      rw [waitOn_threads, if_pos rfl]
      exact ProcStat.noConfusion
  | again => cases hst.symm.trans hback

/-- A thread listens if it did, or as it comes back to. -/
theorem listen_step (h : step a m = some m') (hlisten : (m'.pl.threads u).status = .listen) :
    (m.pl.threads u).status = .listen ∨ m.stage = .inside u ∧ a = .co (.stop .listen) := by
  rcases status_step h u with hsame | hrun | ⟨hst, hback⟩
  · exact Or.inl (hsame.symm.trans hlisten)
  · rw [hrun] at hlisten
    cases hlisten
  · right
    have hraised : ∀ (n : Machine) (e : Errno), ((n.raise u e).pl.threads u).status ≠ .listen := by
      intro n e
      rw [raise_status_self]
      exact ProcStat.noConfusion
    cases stepped h with
    | start hu | play hu | answer hu | retry hu | exec _ hu | unblock _ hu => cases hst.symm.trans hu
    | co t hu c m' hco =>
        cases hst.symm.trans hu
        cases coStepped hco with
        | turn k s hpos => exact absurd hlisten (turn_not_listen k s hst hback)
        | call hpos c hknown =>
            unfold call at hback hlisten
            split at hlisten
            · exact absurd hlisten (hraised _ _)
            · rename_i hnone
              rw [hnone] at hback
              cases hst.symm.trans hback
        | readhup hpos s =>
            unfold readhup at hback hlisten
            split at hlisten
            · rename_i hhup
              rw [if_pos hhup] at hback
              dsimp only at hback hlisten
              split at hlisten
              · exact absurd hlisten (hraised _ _)
              · rename_i hrc
                rw [if_neg hrc] at hback
                cases hst.symm.trans hback
            · exact absurd hlisten (hraised _ _)
        | play | store => cases hst.symm.trans hback
        | raise hpos e => exact absurd hlisten (hraised m e)
        | stop hpos status hstatus =>
            rw [ProcLocal.updThread_threads_self] at hlisten
            subst hlisten
            exact ⟨hst, rfl⟩

/-- A thread that has been played does not listen. -/
theorem not_listen_of_play (h : step (.co (.play u)) m = some m') :
    (m'.pl.threads u).status ≠ .listen := by
  cases stepped h with
  | co t hu c m' hco =>
      cases coStepped hco with
      | play hpos => exact ProcLocal.not_listen_enqueueRun m.pl u

end Machine

/-- In no queue. -/
def Place.unlinked : Place → Bool
  | .queued _ => false
  | .idle | .taken _ => true

theorem Place.ne_queued {p : Place} (h : p.unlinked = true) (u : Nat) : p ≠ .queued u := by
  rintro rfl
  cases h

namespace FtMachine

variable {s s' : FtMachine} {t : Nat}

/-! ## What is sent and what is taken -/

/-- The future that a step enqueues to thread `t`. -/
def sends (t : Nat) (a : FtAct) (s : FtMachine) : List Nat :=
  match a with
  | .request there ft _ | .send there ft _ => if there = t then [ft] else []
  | .respond ft _ => if (s.fts ft).vk = t then [ft] else []
  | .base _ | .resume | .listen => []

/-- The future that thread `t` takes with `vk_listen`. -/
def takes (t : Nat) (a : FtAct) (s : FtMachine) : List Nat :=
  match a with
  | .listen => if s.m.stage = .inside t then (s.ftQ t).head?.toList else []
  | .base _ | .request .. | .resume | .respond .. | .send .. => []

/-- A thread comes back in `VK_PROC_LISTEN`, other than from `vk_listen`. -/
def sleeps : Act → Bool
  | .co (.stop .listen) => true
  | _ => false

/-- Thread `t` is a listener: it makes no request, and comes back in
`VK_PROC_LISTEN` from `vk_listen` only.  And the futures are distinct: none is sent
that is in a queue. -/
def Listening (t : Nat) (a : FtAct) (s : FtMachine) : Prop :=
  match a with
  | .base a => sleeps a = true → s.m.stage ≠ .inside t
  | .request _ ft _ => s.m.stage ≠ .inside t ∧ (s.fts ft).place.unlinked = true
  | .send _ ft _ => (s.fts ft).place.unlinked = true
  | .resume | .listen | .respond .. => True

instance (t : Nat) : (a : FtAct) → (s : FtMachine) → Decidable (Listening t a s)
  | .base a, s => inferInstanceAs (Decidable (sleeps a = true → s.m.stage ≠ .inside t))
  | .request _ ft _, s =>
      inferInstanceAs (Decidable (s.m.stage ≠ .inside t ∧ (s.fts ft).place.unlinked = true))
  | .send _ ft _, s => inferInstanceAs (Decidable ((s.fts ft).place.unlinked = true))
  | .resume, _ | .listen, _ | .respond .., _ => isTrue trivial

/-- A listener with no request under way does not sleep with a future in its queue. -/
structure Listener (t : Nat) (s : FtMachine) : Prop where
  linked : Linked s
  call : ∀ ft, s.call t ≠ some (.requesting ft)
  sleeps : (s.m.pl.threads t).status = .listen → s.ftQ t = []

/-- A thread that is played with a future does not sleep; another sleeps as before. -/
theorem Listener.sleeps_of_play (h : Listener t s) {m : Machine} {there ft : Nat}
    (hplay : Machine.step (.co (.play there)) s.m = some m)
    (hsleeps : (m.pl.threads t).status = .listen) :
    (if t = there then s.ftQ there ++ [ft] else s.ftQ t) = [] := by
  by_cases ht : t = there
  · subst t
    exact absurd hsleeps (Machine.not_listen_of_play hplay)
  · rw [if_neg ht]
    rcases Machine.listen_step hplay hsleeps with hlistens | ⟨-, hstop⟩
    · exact h.sleeps hlistens
    · cases hstop

theorem Listener.base (h : Listener t s) {a : Act} {m : Machine} (hC : Listening t (.base a) s)
    (hstep : Machine.step a s.m = some m) : Listener t (s.setM m) where
  linked := h.linked.setM m
  call := h.call
  sleeps hsleeps := by
    rcases Machine.listen_step hstep hsleeps with hlistens | ⟨hst, rfl⟩
    · exact h.sleeps hlistens
    · exact absurd hst (hC rfl)

theorem Listener.request (h : Listener t s) {u there ft msg : Nat}
    (hC : Listening t (.request there ft msg) s) (hst : s.m.stage = .inside u)
    (hreq : s.vkRequest u there ft msg = some s') : Listener t s' := by
  obtain ⟨m₁, m, hplay, hstop, rfl⟩ := vkRequest_eq_some hreq
  obtain ⟨hnot, hdistinct⟩ := hC
  have hne : t ≠ u := fun he => hnot (he ▸ hst)
  refine ⟨?_, fun g hcall => ?_, fun hsleeps => ?_⟩
  · refine Linked.setReply (Linked.setCall (Linked.setM ?_ m) u _) ft none
    refine ((h.linked.updFt ft fun _ => Iff.rfl).updFt ft fun _ => Iff.rfl).ftEnqueue there fun v => ?_
    rw [updFt_fts, if_pos rfl, updFt_fts, if_pos rfl]
    exact Place.ne_queued hdistinct v
  · rw [setReply_call, setCall_call, if_neg hne] at hcall
    exact h.call g hcall
  · rw [setReply_ftQ, setCall_ftQ, setM_ftQ, ftEnqueue_ftQ]
    rcases Machine.listen_step hstop hsleeps with hsleeps | ⟨-, hlisten⟩
    · exact h.sleeps_of_play hplay hsleeps
    · cases hlisten

theorem Listener.resume (h : Listener t s) {u ft : Nat} (hcall : s.call u = some (.requesting ft))
    (hreq : s.vkRequested u ft = some s') : Listener t s' ∧ s'.ftQ t = s.ftQ t := by
  have hne : t ≠ u := fun he => h.call ft (he ▸ hcall)
  unfold vkRequested at hreq
  cases hdequeue : s.ftDequeue u with
  | none =>
      rw [hdequeue] at hreq
      cases hreq
  | some taken =>
      obtain ⟨g, s₁⟩ := taken
      rw [hdequeue] at hreq
      cases hreq
      have hlinked := h.linked.ftDequeue hdequeue
      obtain ⟨rest, -, rfl⟩ := ftDequeue_eq_some hdequeue
      have hftQ : (((s.setFtQ u rest).updFt g fun f => { f with place := .idle }).ftQ t) = s.ftQ t := by
        rw [updFt_ftQ, setFtQ_ftQ, if_neg hne]
      refine ⟨⟨(hlinked.updFt ft fun _ => Iff.rfl).setCall u none, fun g' hcall' => ?_, fun hsleeps => ?_⟩,
        hftQ⟩
      · rw [setCall_call, if_neg hne] at hcall'
        exact h.call g' hcall'
      · exact hftQ.trans (h.sleeps hsleeps)

/-- A thread listens: it takes the first future in its queue, or sleeps where there is
none. -/
theorem Listener.listen (h : Listener t s) {u : Nat} (hst : s.m.stage = .inside u)
    (hlisten : s.vkListen u = some s') :
    Listener t s' ∧ s.ftQ t = takes t .listen s ++ s'.ftQ t := by
  have htakes : takes t .listen s = if u = t then (s.ftQ t).head?.toList else [] := by
    simp only [takes, hst, Stage.inside.injEq]
  have hcalls : ∀ c : Option FtCall, (∀ ft, c ≠ some (.requesting ft)) → ∀ ft,
      (if t = u then c else s.call t) ≠ some (.requesting ft) := by
    intro c hc ft
    split
    · exact hc ft
    · exact h.call ft
  unfold vkListen at hlisten
  cases hdequeue : s.ftDequeue u with
  | none =>
      have hempty : s.ftQ u = [] := by
        unfold ftDequeue at hdequeue
        split at hdequeue
        · assumption
        · cases hdequeue
      rw [hdequeue] at hlisten
      obtain ⟨m, hstop, rfl⟩ := Option.map_eq_some_iff.mp hlisten
      refine ⟨⟨h.linked.congr rfl rfl, fun ft => ?_, fun hsleeps => ?_⟩, ?_⟩
      · rw [setCall_call]
        exact hcalls (some .listening) (fun _ => nofun) ft
      · rcases Machine.listen_step hstop hsleeps with hlistens | ⟨hst', -⟩
        · exact h.sleeps hlistens
        · cases hst.symm.trans hst'
          exact hempty
      · rw [htakes]
        show s.ftQ t = _ ++ s.ftQ t
        split
        · subst u
          rw [hempty]
          rfl
        · rfl
  | some taken =>
      obtain ⟨ft, s₁⟩ := taken
      rw [hdequeue] at hlisten
      cases hlisten
      have hlinked := h.linked.ftDequeue hdequeue
      obtain ⟨rest, hhead, rfl⟩ := ftDequeue_eq_some hdequeue
      have hftQ : s.ftQ t = takes t .listen s ++ (s.setFtQ u rest).ftQ t := by
        rw [htakes, setFtQ_ftQ]
        by_cases hu : u = t
        · subst u
          rw [if_pos rfl, if_pos rfl, hhead]
          rfl
        · rw [if_neg hu, if_neg (Ne.symm hu)]
          rfl
      refine ⟨⟨?_, fun g => ?_, fun hsleeps => ?_⟩, hftQ⟩
      · refine (hlinked.updFt ft fun v => ?_).setCall u none
        rw [updFt_fts, if_pos rfl]
        simp only [reduceCtorEq]
      · rw [setCall_call]
        exact hcalls none (fun _ => nofun) g
      · have hempty := h.sleeps hsleeps
        rw [hftQ, List.append_eq_nil_iff] at hempty
        exact hempty.2

theorem Listener.respond (h : Listener t s) {u ft msg : Nat} (htaken : (s.fts ft).place = .taken u)
    (hrespond : s.vkRespond ft msg = some s') :
    Listener t s' ∧ s'.ftQ t = s.ftQ t ++ sends t (.respond ft msg) s := by
  obtain ⟨m, hplay, rfl⟩ := Option.map_eq_some_iff.mp hrespond
  have hftQ : (((s.setM m).futureResolve ft msg).ftEnqueue (s.fts ft).vk ft).ftQ t
      = if t = (s.fts ft).vk then s.ftQ (s.fts ft).vk ++ [ft] else s.ftQ t := ftEnqueue_ftQ _ _ _ _
  refine ⟨⟨?_, h.call, fun hsleeps => ?_⟩, ?_⟩
  · refine Linked.setReply ?_ ft (some msg)
    refine ((h.linked.setM m).updFt ft fun _ => Iff.rfl).ftEnqueue (s.fts ft).vk fun v => ?_
    rw [updFt_fts, if_pos rfl, setM_fts, htaken]
    exact Place.noConfusion
  · rw [setReply_ftQ, hftQ]
    exact h.sleeps_of_play hplay hsleeps
  · rw [setReply_ftQ, hftQ, sends]
    by_cases ht : t = (s.fts ft).vk
    · rw [if_pos ht, if_pos ht.symm, ht]
    · rw [if_neg ht, if_neg (Ne.symm ht), List.append_nil]

theorem Listener.send (h : Listener t s) {u there ft msg : Nat}
    (hC : Listening t (.send there ft msg) s) (hsend : s.vkSend u there ft msg = some s') :
    Listener t s' ∧ s'.ftQ t = s.ftQ t ++ sends t (.send there ft msg) s := by
  obtain ⟨m, hplay, rfl⟩ := Option.map_eq_some_iff.mp hsend
  have hftQ : ((((s.setM m).ftEnqueue there ft).futureBind ft u).futureResolve ft msg).ftQ t
      = if t = there then s.ftQ there ++ [ft] else s.ftQ t := ftEnqueue_ftQ _ _ _ _
  refine ⟨⟨?_, h.call, fun hsleeps => ?_⟩, ?_⟩
  · refine Linked.setReply ?_ ft none
    exact (((h.linked.setM m).ftEnqueue there (Place.ne_queued hC)).updFt ft fun _ => Iff.rfl).updFt ft fun _ => Iff.rfl
  · rw [setReply_ftQ, hftQ]
    exact h.sleeps_of_play hplay hsleeps
  · rw [setReply_ftQ, hftQ, sends]
    by_cases ht : t = there
    · rw [if_pos ht, if_pos ht.symm, ht]
    · rw [if_neg ht, if_neg (Ne.symm ht), List.append_nil]

/-- A step keeps a listener from sleeping on a future, and its queue in order. -/
theorem Listener.step {a : FtAct} (h : Listener t s) (hC : Listening t a s)
    (hstep : FtMachine.step a s = some s') :
    Listener t s' ∧ s.ftQ t ++ sends t a s = takes t a s ++ s'.ftQ t := by
  cases stepped hstep with
  | base a m hbase => exact ⟨h.base hC hbase, List.append_nil _⟩
  | request u there ft msg s' hst hrunning hreq =>
      refine ⟨h.request hC hst hreq, ?_⟩
      obtain ⟨m₁, m, hplay, hstop, rfl⟩ := vkRequest_eq_some hreq
      refine Eq.trans ?_ (List.nil_append _).symm
      rw [setReply_ftQ, setCall_ftQ, setM_ftQ, ftEnqueue_ftQ, sends]
      by_cases ht : t = there
      · rw [if_pos ht, if_pos ht.symm, ht]
        rfl
      · rw [if_neg ht, if_neg (Ne.symm ht), List.append_nil]
        rfl
  | resume u ft s' hst hcall hreq =>
      obtain ⟨hlistener, hftQ⟩ := h.resume hcall hreq
      exact ⟨hlistener, (List.append_nil _).trans hftQ.symm⟩
  | listen u s' hst hcall hlisten =>
      obtain ⟨hlistener, hftQ⟩ := h.listen hst hlisten
      exact ⟨hlistener, (List.append_nil _).trans hftQ⟩
  | respond u ft msg s' hst htaken hrespond =>
      obtain ⟨hlistener, hftQ⟩ := h.respond htaken hrespond
      exact ⟨hlistener, hftQ.symm⟩
  | send u there ft msg s' hst hsend =>
      obtain ⟨hlistener, hftQ⟩ := h.send hC hsend
      exact ⟨hlistener, hftQ.symm⟩

/-! ## Whole runs -/

theorem Quiet.listener (h : Quiet s) (t : Nat) : Listener t s where
  linked := h.delivers.linked
  call ft hcall := by
    rw [h.call] at hcall
    cases hcall
  sleeps _ := h.empty t

/-- What a listener takes is, with what is left in its queue, what has been sent to it,
in order.  No future is in its queue twice, and it does not sleep while there is one. -/
theorem listens_in_order {as : List FtAct} {s s' : FtMachine} (h : Quiet s) (t : Nat)
    (hC : Meets FtMachine.step (Listening t) as s) (hrun : run FtMachine.step as s = some s') :
    trace FtMachine.step (sends t) as s = trace FtMachine.step (takes t) as s ++ s'.ftQ t ∧
      (s'.ftQ t).Nodup ∧ ((s'.m.pl.threads t).status = .listen → s'.ftQ t = []) := by
  have hlistener : Listener t s' :=
    run_of_meets (fun _ _ _ h hC hstep => (h.step hC hstep).1) (h.listener t) hC hrun
  have hqueue := run_queue (fun s => s.ftQ t)
    (fun _ _ _ (h : Listener t _) hC hstep => (h.step hC hstep).1)
    (fun _ _ _ h hC hstep => (h.step hC hstep).2) (h.listener t) hC hrun
  rw [h.empty t, List.nil_append] at hqueue
  exact ⟨hqueue, hlistener.linked.nodup t, hlistener.sleeps⟩

/-! ## Two messages -/

/-- The pipeline's first thread sends two futures to the second, which takes the one and
the other, responds to the first, and sleeps. -/
def twoMessages : List FtAct :=
  entered ++ [.send 1 0 5, .send 1 1 6, .base (.co (.stop .yield)), .base (.unblock wouldBlock),
    .base .exec, .base .exec, .base .exec, .listen, .listen, .respond 0 7, .listen]

theorem listens_in_order_twoThreads : ∃ s', run FtMachine.step twoMessages twoThreads = some s' ∧
    (s'.m.pl.threads 1).status = .listen ∧
    trace FtMachine.step (takes 1) twoMessages twoThreads = [0, 1] ∧
    trace FtMachine.step (sends 1) twoMessages twoThreads = [0, 1] := by
  obtain ⟨s', hs', hend⟩ := (Option.any_eq_true _ _).mp
    (by decide +kernel : (run FtMachine.step twoMessages twoThreads).any (fun s =>
      decide ((s.m.pl.threads 1).status = .listen)) = true)
  have hsleeps := of_decide_eq_true hend
  have htakes : trace FtMachine.step (takes 1) twoMessages twoThreads = [0, 1] := by decide +kernel
  obtain ⟨hqueue, -, hempty⟩ := listens_in_order quiet_twoThreads 1 (by decide +kernel) hs'
  rw [htakes, hempty hsleeps] at hqueue
  exact ⟨s', hs', hsleeps, htakes, hqueue⟩

end FtMachine

end Vk

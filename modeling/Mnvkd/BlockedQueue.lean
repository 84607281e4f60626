/-
# `Mnvkd.BlockedQueue` — whom a blocked socket resumes

A socket in the blocked queue names the thread that the poller's retry resumes.
When the process returns to the kernel that thread should be waiting for the
socket.  A handler queues a socket also where it readies the thread: a read that
has got something and could take more.  The entry then stays behind when the
thread is done with the operation.  It is removed by a retry and by the thread's
end; a thread that pauses, listens, or waits for another socket leaves it there.

    Tracked             the thread of a queued socket waits, or is about to run
    blocked_waits       what holds as long as threads leave no entry behind
    read_leaves_entry   a read of one byte that does
-/
import Mnvkd.Eof
import Mnvkd.Schedule
import Mnvkd.VirtualPipe

namespace Vk

open Lib

/-- Thread `t` waits for socket `s`. -/
def ProcLocal.WaitsFor (pl : ProcLocal) (t s : Nat) : Prop :=
  (pl.threads t).status = .wait ∧ (pl.threads t).waitingSocketPtr = some s

namespace Machine

variable {m m' : Machine} {a : Act}

/-- The coroutine that takes the step, and what it does. -/
def acting (a : Act) (m : Machine) : Option (Nat × CoAct) :=
  match m.stage, a with
  | .inside t, .co c => some (t, c)
  | _, _ => none

theorem acting_of_inside {t : Nat} (h : m.stage = .inside t) (c : CoAct) :
    acting (.co c) m = some (t, c) := by
  simp only [acting, h]

/-- By `c` the thread `t` leaves no socket in the blocked queue while it goes on to
something else.  If it pauses or listens it blocks on no queued socket, if it comes
to wait it blocks on no other, and it reads a hang-up on a socket of its own. -/
def TidyCo (m : Machine) (t : Nat) : CoAct → Prop
  | .stop status => status ≠ .ended → ∀ s ∈ m.pl.blockedQ, m.pl.blockedVk s ≠ t
  | .turn => ∀ p ∈ m.pos t, ((p.1.loop p.2).turn m.pl).isWait = true →
      ∀ s ∈ m.pl.blockedQ, m.pl.blockedVk s = t → s = p.2
  | .readhup s => m.pl.blockedVk s = t
  | .call _ | .play _ | .store _ | .raise _ => True

instance (m : Machine) (t : Nat) : (c : CoAct) → Decidable (m.TidyCo t c)
  | .stop status => inferInstanceAs (Decidable (status ≠ .ended → ∀ s ∈ m.pl.blockedQ, _ ≠ t))
  | .turn => inferInstanceAs (Decidable (∀ p ∈ m.pos t, _ = true → ∀ s ∈ m.pl.blockedQ, _ → _))
  | .readhup s => inferInstanceAs (Decidable (m.pl.blockedVk s = t))
  | .call _ | .play _ | .store _ | .raise _ => .isTrue trivial

def Tidy (a : Act) (m : Machine) : Prop := ∀ p ∈ acting a m, m.TidyCo p.1 p.2

instance (a : Act) (m : Machine) : Decidable (Tidy a m) :=
  inferInstanceAs (Decidable (∀ p ∈ acting a m, m.TidyCo p.1 p.2))

theorem Tidy.co {t : Nat} {c : CoAct} (h : Tidy (.co c) m) (hst : m.stage = .inside t) :
    m.TidyCo t c :=
  h (t, c) (acting_of_inside hst c)

/-- The thread that a queued socket blocks waits for it, or the executor is at the
thread, or will be; or the thread that is to wait for it has just queued it. -/
def Tracked (m : Machine) (s : Nat) : Prop :=
  m.pl.WaitsFor (m.pl.blockedVk s) s ∨ m.current = some (m.pl.blockedVk s) ∨
  (m.pl.blockedVk s ∈ m.pl.runQ ∧ (m.pl.threads (m.pl.blockedVk s)).isReady = true) ∨
  ∃ t, m.stage = .inside t ∧ m.pos t = some (.once, s) ∧ 0 < m.pl.uncommitted s

/-- The blocked queue of a process whose steps are tidy. -/
structure Tracks (m : Machine) : Prop where
  queued : Queued m.pl
  wired : ProcLocal.Wired m.pl
  each : ∀ s ∈ m.pl.blockedQ, Tracked m s
  loop : ∀ t, m.stage = .exec (.loop t) → (m.pl.threads t).isReady = false →
    ∀ s ∈ m.pl.blockedQ, m.pl.blockedVk s = t → m.pl.WaitsFor t s
  waits : ∀ t, m.stage = .back t → (m.pl.threads t).status = .wait →
    ∃ s, (m.pl.threads t).waitingSocketPtr = some s ∧ m.pl.blockedVk s = t ∧
      ∀ b ∈ m.pl.blockedQ, m.pl.blockedVk b = t → b = s
  stops : ∀ t, m.stage = .back t → (m.pl.threads t).status ≠ .wait →
    (m.pl.threads t).isReady = false → (m.pl.threads t).status ≠ .ended →
    ∀ s ∈ m.pl.blockedQ, m.pl.blockedVk s ≠ t
  drained : ∀ rc, m.stage = .exec (.returned rc) → m.pl.runQ = []

theorem Tracks.backsOwn (h : Tracks m) : BacksOwn m := fun t s hst hwait hs => by
  obtain ⟨b, hb, hvk, -⟩ := h.waits t hst hwait
  rw [hb] at hs
  cases hs
  exact hvk

theorem Tracks.back_waits (h : Tracks m) {t : Nat} (hst : m.stage = .back t)
    (hwait : (m.pl.threads t).status = .wait) : (m.pl.threads t).waitingSocketPtr ≠ none := by
  obtain ⟨s, hs, -⟩ := h.waits t hst hwait
  rw [hs]
  exact Option.some_ne_none s

/-! ## One step -/

/-- The executor stays at a thread until it leaves its loop, which it does not
while the thread is ready. -/
theorem Tracks.current_step (h : Tracks m) (hstep : step a m = some m') {u : Nat}
    (hu : m.current = some u) :
    m'.current = some u ∨
    m.stage = .exec (.loop u) ∧ (m.pl.threads u).isReady = false ∧
      m'.pl = (m.pl.leaveLoop u).pl := by
  unfold current at hu
  cases hst : m.stage with
  | kernel =>
      rw [hst] at hu
      cases hu
  | inside t =>
      rw [hst] at hu
      cases hu
      left
      rcases step_of_inside hstep hst with hst' | hst'
      · rw [current, hst']
      · rw [current, hst']
  | back t =>
      rw [hst] at hu
      cases hu
      left
      rw [current, back_step_loop hstep hst h.wired (h.back_waits hst)]
  | exec phase =>
      rw [hst] at hu
      cases phase with
      | pick | returned =>
          cases hu
      | loop t =>
          cases hu
          rcases loop_step hstep hst with ⟨-, hst'⟩ | ⟨hready, -, hleft⟩
          · left
            rw [current, hst']
          · exact Or.inr ⟨rfl, hready, hleft⟩

/-- A thread that waits stays as it is when the executor leaves its loop. -/
theorem leaveLoop_of_waits {pl : ProcLocal} {t u s : Nat} (h : pl.WaitsFor u s) :
    (pl.leaveLoop t).pl.WaitsFor u s := by
  unfold ProcLocal.leaveLoop
  dsimp only
  split
  · rename_i hyields
    have hut : u ≠ t := fun hut => by
      subst hut
      rw [Thread.isYielding, h.1] at hyields
      cases hyields
    unfold ProcLocal.WaitsFor
    rw [ProcLocal.ready, ProcLocal.updThread_threads, if_neg hut]
    exact h
  · exact h

/-- A thread that waits for a socket waits on, or the executor is at it, or it has
been enqueued. -/
theorem Tracks.waits_step (h : Tracks m) (htidy : Tidy a m) (hstep : step a m = some m')
    {u s : Nat} (hwaits : m.pl.WaitsFor u s) :
    m'.pl.WaitsFor u s ∨ m'.current = some u ∨
      u ∈ m'.pl.runQ ∧ (m'.pl.threads u).isReady = true := by
  by_cases hcurrent : m.current = some u
  · rcases h.current_step hstep hcurrent with hcurrent' | ⟨-, -, hleft⟩
    · exact Or.inr (Or.inl hcurrent')
    · left
      rw [hleft]
      exact leaveLoop_of_waits hwaits
  · have hinside : m.stage ≠ .inside u := fun hst => hcurrent (by rw [current, hst])
    rcases waiting_step hstep u with hsocket | hst | hst'
    · rcases roused_step hstep h.queued h.wired h.backsOwn u with hstatus | hst | ⟨-, hrun, hwho⟩
      · exact Or.inl ⟨hstatus.trans hwaits.1, hsocket.trans hwaits.2⟩
      · exact absurd hst hinside
      · rcases hwho with hqueued | hu | ⟨t, b, hst, rfl, hub⟩
        · exact Or.inr (Or.inr ⟨hqueued, by rw [Thread.isReady, hrun]; rfl⟩)
        · exact absurd hu hcurrent
        · have hvk : m.pl.blockedVk b = t := htidy.co hst
          exact absurd (hst.trans (by rw [hub, hvk])) hinside
    · exact absurd hst hinside
    · right
      left
      rw [current, hst']

/-- A queued thread that is ready stays so until the executor is at it. -/
theorem Tracks.ready_step (h : Tracks m) (hstep : step a m = some m') {u : Nat}
    (hu : u ∈ m.pl.runQ) (hready : (m.pl.threads u).isReady = true) :
    m'.current = some u ∨ u ∈ m'.pl.runQ ∧ (m'.pl.threads u).isReady = true := by
  rcases keeps_step hstep h.queued hu with hu' | ⟨-, hst'⟩ | ⟨-, hended⟩
  · rcases roused_step hstep h.queued h.wired h.backsOwn u with hstatus | hst | ⟨-, hrun, -⟩
    · exact Or.inr ⟨hu', by rwa [Thread.isReady, hstatus]⟩
    · left
      rcases step_of_inside hstep hst with hst' | hst'
      · rw [current, hst']
      · rw [current, hst']
    · exact Or.inr ⟨hu', by rw [Thread.isReady, hrun]; rfl⟩
  · left
    rw [current, hst']
  · rw [Thread.isReady, hended] at hready
    cases hready

/-- A thread that is about to wait for the socket it has queued takes the turn that
waits. -/
theorem once_waits {t s : Nat} (hst : m.stage = .inside t) (hpos : m.pos t = some (.once, s))
    (hleft : 0 < m.pl.uncommitted s) (hstep : step a m = some m') :
    m'.stage = .back t ∧ m'.pl.blockedVk s = t := by
  cases stepped hstep with
  | start hu | play hu | answer hu | retry hu | exec _ hu | unblock _ hu =>
      rw [hst] at hu
      cases hu
  | co u hu c m' hco =>
      rw [hst] at hu
      cases hu
      cases coStepped hco with
      | turn k b hpos' =>
          rw [hpos] at hpos'
          cases hpos'
          have hturn : ((IoLoop.once).loop s).turn m.pl
              = .wait (((IoLoop.once).loop s).body m.pl) := by
            simp only [IoLoop.loop, Loop.turn, onceLoop, hleft, decide_true, if_true,
              Bool.false_eq_true, if_false]
          unfold turn
          rw [hturn]
          refine ⟨rfl, ?_⟩
          rw [ProcLocal.blockedVk, waitOn_self]
      | call hpos' | readhup hpos' | play hpos' | store hpos' | raise hpos' | stop hpos' =>
          rw [hpos] at hpos'
          cases hpos'

/-- The thread that an operation which waits once has queued a socket for stands in
its loop. -/
theorem called_once {t s : Nat} {op : Op} (hst : m.stage = .inside t)
    (hstep : step (.co (.call (.once s op))) m = some m') :
    m'.stage = .inside t ∧ m'.pos t = some (.once, s) ∧ 0 < m'.pl.uncommitted s := by
  cases stepped hstep with
  | co u hu c m' hco =>
      rw [hst] at hu
      cases hu
      cases coStepped hco with
      | call hpos c hknown =>
          refine ⟨hst, ?_, ?_⟩
          · show (Function.update m.pos t (some (IoLoop.once, s))) t = _
            rw [Function.update_self]
          · show 0 < (ProcLocal.blockInit _ s 0 1 op).uncommitted s
            rw [ProcLocal.uncommitted, ProcLocal.blockInit, updBlock_self]
            exact Nat.zero_lt_one

theorem Tracks.each_step (h : Tracks m) (htidy : Tidy a m) (hstep : step a m = some m') {s : Nat}
    (hs : s ∈ m'.pl.blockedQ) : Tracked m' s := by
  have hcurrent : ∀ {u}, m'.pl.blockedVk s = u → m'.current = some u → Tracked m' s :=
    fun hvk hu => Or.inr (Or.inl (hvk ▸ hu))
  rcases blockedVk_step hstep s with hvk | ⟨t, k, -, -, -, rfl⟩
  · rcases blockedQ_step hstep h.queued hs with hs | ⟨t, hst, hwait, hsocket⟩ | ⟨t, hst, rfl⟩ |
      ⟨t, op, hst, rfl, -⟩
    · rcases h.each s hs with hwaits | hu | ⟨hqueued, hready⟩ | ⟨t, hst, hpos, hleft⟩
      · rw [← hvk] at hwaits
        exact (h.waits_step htidy hstep hwaits).imp_right (Or.imp_right Or.inl)
      · rcases h.current_step hstep hu with hu' | ⟨hst, hready, hleft⟩
        · exact hcurrent hvk hu'
        · left
          rw [hvk, hleft]
          exact leaveLoop_of_waits (h.loop _ hst hready s hs rfl)
      · rw [← hvk] at hqueued hready
        rw [hvk] at hqueued hready
        exact (h.ready_step hstep hqueued hready).elim (hcurrent hvk)
          fun hqueued' => Or.inr (Or.inr (Or.inl (hvk ▸ hqueued')))
      · obtain ⟨hst', hvk'⟩ := once_waits hst hpos hleft hstep
        exact hcurrent hvk' (by rw [current, hst'])
    · obtain ⟨b, hb, hvk', -⟩ := h.waits t hst hwait
      rw [hsocket] at hb
      cases hb
      refine hcurrent (hvk.trans hvk') ?_
      rw [current, back_step_loop hstep hst h.wired (h.back_waits hst)]
    · have hvk' : m.pl.blockedVk s = t := htidy.co hst
      refine hcurrent (hvk.trans hvk') ?_
      rcases step_of_inside hstep hst with hst' | hst'
      · rw [current, hst']
      · rw [current, hst']
    · exact Or.inr (Or.inr (Or.inr ⟨t, called_once hst hstep⟩))
  · refine hcurrent (u := t) ?_ rfl
    rw [ProcLocal.blockedVk, waitOn_self]

/-- Coming back, the executor applies what the thread waits for, and queues no other
socket. -/
theorem Tracks.loop_of_back (h : Tracks m) (hstep : step a m = some m') {t : Nat}
    (hst : m.stage = .back t) (hready' : (m'.pl.threads t).isReady = false) {s : Nat}
    (hs : s ∈ m'.pl.blockedQ) (hvk' : m'.pl.blockedVk s = t) : m'.pl.WaitsFor t s := by
  have hvk : m.pl.blockedVk s = t := by
    rcases blockedVk_step hstep s with hsame | ⟨u, k, hu, -⟩
    · exact hsame.symm.trans hvk'
    · rw [hst] at hu
      cases hu
  have hstatus : (m'.pl.threads t).status = (m.pl.threads t).status := by
    rcases roused_step hstep h.queued h.wired h.backsOwn t with hsame | hu | ⟨-, hrun, -⟩
    · exact hsame
    · rw [hst] at hu
      cases hu
    · rw [Thread.isReady, hrun] at hready'
      cases hready'
  have hwaiting : (m'.pl.threads t).waitingSocketPtr = (m.pl.threads t).waitingSocketPtr := by
    rcases waiting_step hstep t with hsame | hu | hu
    · exact hsame
    · rw [hst] at hu
      cases hu
    · rw [back_step_loop hstep hst h.wired (h.back_waits hst)] at hu
      cases hu
  by_cases hwait : (m.pl.threads t).status = .wait
  · obtain ⟨b, hb, -, honly⟩ := h.waits t hst hwait
    have hsb : s = b := by
      rcases blockedQ_step hstep h.queued hs with hs | ⟨u, hu, -, hsocket⟩ | ⟨u, hu, -⟩ | ⟨u, op, hu, -⟩
      · exact honly s hs hvk
      · rw [hst] at hu
        cases hu
        rw [hb] at hsocket
        cases hsocket
        rfl
      · rw [hst] at hu
        cases hu
      · rw [hst] at hu
        cases hu
    subst hsb
    exact ⟨hstatus.trans hwait, hwaiting.trans hb⟩
  · exfalso
    cases stepped hstep with
    | start hu | play hu | answer hu | retry hu | exec _ hu | co _ hu =>
        rw [hst] at hu
        cases hu
    | unblock u hu os =>
        rw [hst] at hu
        cases hu
        dsimp only at hs hready' hstatus
        by_cases hended : (m.pl.threads t).status = .ended
        · -- the sockets that block the thread have been dropped
          have hclear : Queued ({ m.pl with runningCr := none } : ProcLocal) :=
            ⟨h.queued.run, h.queued.runNodup, h.queued.blocked, h.queued.blockedNodup⟩
          have hdropped := (ProcLocal.mem_dropBlockedFor_iff hclear t s).mp (by
            unfold ProcLocal.afterCall at hs
            dsimp only at hs
            rw [if_pos hended] at hs
            dsimp only at hs
            split at hs
            · rw [ProcLocal.dropRun_blockedQ] at hs
              exact hs
            · exact hs)
          exact hdropped.2 hvk
        · have hready : (m.pl.threads t).isReady = false := by
            rw [Thread.isReady, hstatus] at hready'
            exact hready'
          refine h.stops t hst hwait hready hended s ?_ hvk
          unfold ProcLocal.afterCall at hs
          dsimp only at hs
          rw [if_neg hended] at hs
          unfold ProcLocal.unblock at hs
          dsimp only at hs
          split at hs
          · exact absurd ‹_› hwait
          · exact hs

theorem pickRun_sockets (pl : ProcLocal) :
    pl.pickRun.pl.sockets = pl.sockets ∧ pl.pickRun.pl.blockedQ = pl.blockedQ := by
  rcases ProcLocal.pickRun_cases pl with ⟨-, hsame⟩ | ⟨u, rest, -, -, -, -, hsockets, hblocked⟩
  · rw [hsame]
    exact ⟨rfl, rfl⟩
  · exact ⟨hsockets, hblocked⟩

theorem Tracks.loop_step (h : Tracks m) (hstep : step a m = some m') {t : Nat}
    (hst' : m'.stage = .exec (.loop t)) (hready' : (m'.pl.threads t).isReady = false) {s : Nat}
    (hs : s ∈ m'.pl.blockedQ) (hvk' : m'.pl.blockedVk s = t) : m'.pl.WaitsFor t s := by
  rcases loop_cases hstep hst' with ⟨hst, -, hpicked⟩ | hst
  · obtain ⟨hstatus, hwaiting⟩ := ProcLocal.pickRun_thread m.pl t
    obtain ⟨hsockets, hblocked⟩ := pickRun_sockets m.pl
    rw [hpicked, hblocked] at hs
    rw [hpicked, ProcLocal.blockedVk, hsockets] at hvk'
    rw [hpicked, Thread.isReady, hstatus] at hready'
    have hvk : m.pl.blockedVk s = t := hvk'
    rcases h.each s hs with hwaits | hu | ⟨-, hready⟩ | ⟨u, hu, -⟩
    · rw [hvk] at hwaits
      rw [hpicked]
      exact ⟨hstatus.trans hwaits.1, hwaiting.trans hwaits.2⟩
    · rw [current, hst] at hu
      cases hu
    · rw [hvk, Thread.isReady, hready'] at hready
      cases hready
    · rw [hst] at hu
      cases hu
  · exact h.loop_of_back hstep hst hready' hs hvk'

theorem Tracks.waits_back (htidy : Tidy a m) (hstep : step a m = some m') {t : Nat}
    (hst' : m'.stage = .back t) (hwait : (m'.pl.threads t).status = .wait) :
    ∃ s, (m'.pl.threads t).waitingSocketPtr = some s ∧ m'.pl.blockedVk s = t ∧
      ∀ b ∈ m'.pl.blockedQ, m'.pl.blockedVk b = t → b = s := by
  have hst := back_step hstep hst'
  obtain ⟨k, s, rfl, hpos, hturn, rfl⟩ := waited_step hstep hst hst' hwait
  refine ⟨s, ?_, ?_, fun b hb hvk => ?_⟩
  · dsimp only
    rw [waitOn_threads, if_pos rfl]
  · dsimp only
    rw [ProcLocal.blockedVk, waitOn_self]
  · by_cases hbs : b = s
    · exact hbs
    · have honly : ∀ b ∈ m.pl.blockedQ, m.pl.blockedVk b = t → b = s :=
        htidy.co hst (k, s) hpos (by rw [hturn]; rfl)
      refine honly b ?_ ?_
      · exact (body_blockedQ m.pl k s) ▸ hb
      · dsimp only at hvk
        rw [ProcLocal.blockedVk, waitOn_other _ hbs] at hvk
        exact (body_blockedVk m.pl k s b).symm.trans hvk

theorem Tracks.stops_back (htidy : Tidy a m) (hstep : step a m = some m') {t : Nat}
    (hst' : m'.stage = .back t) (hwait : (m'.pl.threads t).status ≠ .wait)
    (hready : (m'.pl.threads t).isReady = false) (hended : (m'.pl.threads t).status ≠ .ended) :
    ∀ s ∈ m'.pl.blockedQ, m'.pl.blockedVk s ≠ t := by
  have hst := back_step hstep hst'
  rcases back_cases hstep hst hst' with herr | ⟨k, s, -, -, -, rfl⟩ | ⟨status, rfl, -, -, rfl⟩
  · rw [Thread.isReady, herr] at hready
    cases hready
  · exact absurd (by dsimp only; rw [waitOn_threads, if_pos rfl]) hwait
  · dsimp only at hended
    rw [ProcLocal.updThread_threads_self] at hended
    exact htidy.co hst hended

theorem Tracks.drained_step (h : Tracks m) (hstep : step a m = some m') {rc : Int}
    (hst' : m'.stage = .exec (.returned rc)) : m'.pl.runQ = [] := by
  rcases returned_cases hstep hst' with ⟨-, hnil, hsame⟩ | ⟨t, hst⟩
  · rw [hsame]
    exact hnil
  · rw [back_step_loop hstep hst h.wired (h.back_waits hst)] at hst'
    cases hst'

theorem Tracks.step (h : Tracks m) (htidy : Tidy a m) (hstep : Machine.step a m = some m') :
    Tracks m' where
  queued := queued_step hstep h.queued
  wired := wired_step hstep h.wired
  each _ hs := h.each_step htidy hstep hs
  loop _ hst' hready' _ hs hvk' := h.loop_step hstep hst' hready' hs hvk'
  waits _ hst' hwait := Tracks.waits_back htidy hstep hst' hwait
  stops _ hst' hwait hready hended := Tracks.stops_back htidy hstep hst' hwait hready hended
  drained _ hst' := h.drained_step hstep hst'

/-! ## Whole runs -/

/-- A process that is not executed and that no socket blocks. -/
structure Unblocked (m : Machine) : Prop where
  queued : Queued m.pl
  wired : ProcLocal.Wired m.pl
  stage : m.stage = .kernel
  none : m.pl.blockedQ = []

theorem Unblocked.tracks (h : Unblocked m) : Tracks m where
  queued := h.queued
  wired := h.wired
  each s hs := by
    rw [h.none] at hs
    cases hs
  loop t hst := by
    rw [h.stage] at hst
    cases hst
  waits t hst := by
    rw [h.stage] at hst
    cases hst
  stops t hst := by
    rw [h.stage] at hst
    cases hst
  drained rc hst := by
    rw [h.stage] at hst
    cases hst

/-- When a process returns to the kernel, each socket in its blocked queue blocks a
thread that waits for that socket, as long as its threads leave no entry behind. -/
theorem blocked_waits {as : List Act} {rc : Int} (h : Unblocked m)
    (htidy : Meets Machine.step Tidy as m) (hrun : run Machine.step as m = some m')
    (hst' : m'.stage = .exec (.returned rc)) :
    ∀ s ∈ m'.pl.blockedQ, m'.pl.WaitsFor (m'.pl.blockedVk s) s := by
  have h' : Tracks m' := run_of_meets (fun _ _ _ h hc hstep => h.step hc hstep) h.tracks htidy hrun
  intro s hs
  rcases h'.each s hs with hwaits | hu | ⟨hqueued, -⟩ | ⟨t, hst, -⟩
  · exact hwaits
  · rw [current, hst'] at hu
    cases hu
  · rw [h'.drained rc hst'] at hqueued
    cases hqueued
  · rw [hst'] at hst
    cases hst

end Machine

/-! ## A read that leaves an entry -/

theorem unblocked_proxy : Machine.Unblocked (proxy emptyRing emptyRing) where
  queued := ⟨fun _ => ⟨nofun, nofun⟩, List.nodup_nil, fun _ => ⟨nofun, nofun⟩, List.nodup_nil⟩
  wired _ _ := ⟨nofun, nofun⟩
  stage := rfl
  none := rfl

/-- A read of `len` bytes, which waits until one is read. -/
def readOnce (len : Nat) : List Act :=
  [.play 0, .start, .exec, .exec, .co (.call (.read 0 0 len)), .co .turn,
    .unblock (readable [97]), .exec, .co .turn]

/-- The read of two bytes waits for the other. -/
def readAgain : List Act := readOnce 2 ++ [.unblock wouldBlock, .exec, .exec]

/-- The read of one byte is done, and the thread pauses. -/
def readAndPause : List Act := readOnce 1 ++ [.co .turn, .co (.stop .yield), .unblock wouldBlock, .exec, .exec]

theorem blocked_waits_readAgain : ∃ m', run Machine.step readAgain (proxy emptyRing emptyRing)
      = some m' ∧ m'.stage = .exec (.returned 0) ∧ m'.pl.blockedQ = [0] ∧
    ∀ s ∈ m'.pl.blockedQ, m'.pl.WaitsFor (m'.pl.blockedVk s) s := by
  obtain ⟨m', hm', hend⟩ := (Option.any_eq_true _ _).mp
    (by decide : (run Machine.step readAgain (proxy emptyRing emptyRing)).any
      (fun m => decide (m.stage = .exec (.returned 0) ∧ m.pl.blockedQ = [0])) = true)
  obtain ⟨hstage, hqueue⟩ := of_decide_eq_true hend
  exact ⟨m', hm', hstage, hqueue,
    Machine.blocked_waits unblocked_proxy (by decide) hm' hstage⟩

/-- A read of one byte leaves its socket in the blocked queue: the poller's retry
resumes the thread where it has paused. -/
theorem read_leaves_entry : ¬∀ (as : List Act) (m m' : Machine) (rc : Int), Machine.Unblocked m →
    run Machine.step as m = some m' → m'.stage = .exec (.returned rc) →
      ∀ s ∈ m'.pl.blockedQ, m'.pl.WaitsFor (m'.pl.blockedVk s) s := by
  intro hall
  obtain ⟨m', hm', hend⟩ := (Option.any_eq_true _ _).mp
    (by decide : (run Machine.step readAndPause (proxy emptyRing emptyRing)).any
      (fun m => decide (m.stage = .exec (.returned 0) ∧ m.pl.blockedQ = [0] ∧
        (m.pl.threads (m.pl.blockedVk 0)).status = .run)) = true)
  obtain ⟨hstage, hqueue, hrun⟩ := of_decide_eq_true hend
  have hwaits := hall readAndPause _ m' 0 unblocked_proxy hm' hstage 0
    (by rw [hqueue]; exact List.mem_singleton_self 0)
  rw [ProcLocal.WaitsFor, hrun] at hwaits
  cases hwaits.1

end Vk

/-
# `Mnvkd.ForwardExact` — a forward moves what was asked for

`vk_socket_forward` of `len` bytes, from a descriptor or a virtual pipe to a
descriptor or a virtual pipe, moves the next `len` bytes of its input to its
output, or all there are before the end, counts them, and leaves the rest; and it
is not left waiting when they have been moved.  It does so in every run in which
the end of its input is marked in time (`forward_exact`):

  - the handler does not ask a descriptor to fill a ring that has no room, which
    the ring takes for the end of the stream;
  - the writer of a virtual pipe does not mark EOF while the forward waits for the
    pipe, which wakes nobody.

A forward whose output is slow gets into the first, and cuts the stream short
(`forward_short`).
-/
import Mnvkd.Conduit
import Mnvkd.Paused

namespace Vk

open Lib Errno

/-! ## What is read and what is written -/

section Ends

variable {x x' : Conduit} {m m' : Machine} {a : Act} {s t w r : Nat}

/-- Thread `t` reads a virtual pipe, and waits for it with EOF marked and drained only
on its way back. -/
structure FedByPipe (t w s : Nat) (m : Machine) : Prop where
  joined : Joined m.pl w s
  noReadhup : ∀ b, (m.pl.sockets b).block.op ≠ .readhup
  woken : (m.pl.sockets w).tx.eof = true → Dry t w s m → Woken t s m

/-- EOF is not marked while thread `t` waits for the pipe, which is empty; a close may
be, with an effect pending on the reader's ring. -/
structure EndsInTime (t w s : Nat) (a : Act) (m : Machine) : Prop where
  hup : HangsUp w a m → ¬Dry t w s m
  close : ClosesTx w a m → Dry t w s m → (m.pl.sockets s).rx.effect = true

theorem FedByPipe.step (h : FedByPipe t w s m) (howned : Owned t s m) (hc : EndsInTime t w s a m)
    (hstep : Machine.step a m = some m') : FedByPipe t w s m' where
  joined := (pipe_step h.joined hstep).1
  noReadhup := noReadhup_step h.noReadhup hstep
  woken := woken_step h.joined howned h.noReadhup h.woken hc.hup hc.close hstep

/-- What socket `s` reads from. -/
inductive FedFrom (t s : Nat) (x : Conduit) : Prop where
  | fd (h : FedByFd s x)
  | pipe (w : Nat) (h : FedByPipe t w s x.m)

/-- What it writes to. -/
inductive DrainedTo (s : Nat) (x : Conduit) : Prop where
  | fd (h : DrainedByFd s x.m.pl)
  | pipe (r : Nat) (h : Joined x.m.pl s r)

theorem FedFrom.wf (h : FedFrom t s x) : (x.m.pl.sockets s).rx.Wf := by
  cases h with
  | fd h => exact h.wf
  | pipe w h => exact (h.joined.wf s).1

theorem DrainedTo.wf (h : DrainedTo s x) : (x.m.pl.sockets s).tx.Wf := by
  cases h with
  | fd h => exact h.wf
  | pipe r h => exact (h.wf s).2

theorem FedFrom.straight (h : FedFrom t s x) : ProcLocal.Straight s x.m.pl := by
  cases h with
  | fd h => exact h.straight
  | pipe w h =>
      refine ⟨fun href => h.joined.ne ?_, fun href => h.joined.ne ?_⟩
      · rw [h.joined.rxRef] at href
        exact PipeRef.vkTx.inj href
      · exact (h.joined.onlyWriter s href).symm

end Ends

/-! ## A forward -/

/-- Socket `s` is thread `t`'s own, and can be forwarded. -/
structure Forwards (t s : Nat) (x : Conduit) : Prop where
  source : FedFrom t s x
  sink : DrainedTo s x
  owned : Owned t s x.m
  orderly : Machine.Orderly x.m
  small : (x.m.pl.sockets s).rx.bufLen < 2 ^ 63

/-- The forward goes on, and no other thread operates on its socket. -/
def Under (t s : Nat) (a : Act) (x : Conduit) : Prop :=
  x.m.pos t = some (.forward, s) ∧ UsedBy t s a x.m

instance (t s : Nat) (a : Act) (x : Conduit) : Decidable (Under t s a x) :=
  inferInstanceAs (Decidable (_ ∧ _))

/-- The end of the input is marked in time, and only there: a descriptor is not read
into a ring that has no room, and EOF is not marked while the forward waits for the
pipe. -/
def InTime (t s : Nat) (a : Act) (x : Conduit) : Prop :=
  match (x.m.pl.sockets s).rxFd.ref with
  | .osFd _ => ReadsInRoom s a x.m
  | .vkTx w => EndsInTime t w s a x.m
  | .vkRx _ => True

section Steps

variable {x x' : Conduit} {m m' : Machine} {a : Act} {s t : Nat}

/-- A step of the conduit is one of the machine, whose answers are those of the
descriptors. -/
theorem machine_of_step (h : Conduit.step s a x = some x') :
    (x.m.forwards s a).all (x.answers s) = true ∧ Machine.step a x.m = some x'.m ∧
      x' = ⟨x'.m, x.unread.drop (Conduit.taken s a x.m).length⟩ := by
  simp only [Conduit.step] at h
  split at h
  next hanswers =>
    obtain ⟨m', hm', rfl⟩ := Option.map_eq_some_iff.mp h
    exact ⟨hanswers, hm', rfl⟩
  next => cases h

theorem Forwards.actsOn (h : Forwards t s x) (hu : Under t s a x) (hstep : Machine.step a x.m = some m') :
    ActsOn t s a x.m m' := h.owned.actsOn hu.2 hu.1 hstep

/-- A step moves what it takes off the input, and counts it. -/
structure Counts (s : Nat) (a : Act) (x x' : Conduit) : Prop where
  le : (x.m.moved s a).length ≤ x.m.pl.uncommitted s
  left : x'.m.pl.uncommitted s = x.m.pl.uncommitted s - (x.m.moved s a).length
  counted : x'.m.pl.committed s = x.m.pl.committed s + (x.m.moved s a).length

theorem Forwards.counts (h : Forwards t s x) (hlen : x.m.pl.uncommitted s < 2 ^ 64)
    (hu : Under t s a x) (hstep : Machine.step a x.m = some x'.m) : Counts s a x x' := by
  have hunused : Machine.usedSocket a x.m ≠ some s → Counts s a x x' := fun hused => by
    have hsame := Machine.sameCall_step hstep hused
    have hnone := moved_of_unused hused
    refine ⟨?_, ?_, ?_⟩
    · rw [hnone]
      exact Nat.zero_le _
    · rw [hnone]
      exact hsame.len
    · rw [hnone]
      exact hsame.copied
  cases h.actsOn hu hstep with
  | turn hst ha hm' =>
      subst ha
      obtain ⟨n, hleaves, hmoved, hle, hqueue⟩ :=
        turnLeaves_turn h.source.wf h.sink.wf h.small hlen hst hu.1
      have hn : (x.m.moved s (.co .turn)).length = n := by
        rw [hmoved, List.length_take]
        exact Nat.min_eq_left hqueue
      rw [← hm'] at hleaves
      exact ⟨hn ▸ hle, hn ▸ hleaves.len, hn ▸ hleaves.copied⟩
  | handler os hf => exact hunused (unused_of_forwards hf)
  | apart hhandler hused => exact hunused hused

/-- The size of a ring stays. -/
theorem Forwards.rxLen_step (h : Forwards t s x) (hlen : x.m.pl.uncommitted s < 2 ^ 64)
    (hu : Under t s a x) (hstep : Machine.step a x.m = some m') :
    (m'.pl.sockets s).rx.bufLen = (x.m.pl.sockets s).rx.bufLen := by
  cases h.actsOn hu hstep with
  | turn hst ha hm' =>
      obtain ⟨n, hleaves, -⟩ := turnLeaves_turn h.source.wf h.sink.wf h.small hlen hst hu.1
      obtain ⟨b, hrx⟩ := hleaves.rx
      rw [hm']
      exact hrx.flags.bufLen
  | handler os hf =>
      obtain ⟨b, b', hself⟩ := seen_self s a x.m
      have hreach := ((ProcLocal.reach_handleForward (a := s) (x.m.seen s a) os).rxLen s)
      rw [((forwarded_step hstep hf).socket s).rx.bufLen, hreach, hself]
      rfl
  | apart hhandler hused => exact (undisturbed_step hstep hhandler hused).rxLen

/-- A step keeps the input, and what it moves leaves it at its front. -/
theorem Forwards.source_step (h : Forwards t s x) (hlen : x.m.pl.uncommitted s < 2 ^ 64)
    (hu : Under t s a x) (hc : InTime t s a x) (hstep : Conduit.step s a x = some x') :
    FedFrom t s x' ∧ x.rest s ++ x.came s a = x.m.moved s a ++ x'.rest s := by
  obtain ⟨hanswers, hm', hx'⟩ := machine_of_step hstep
  have hacts := h.actsOn hu hm'
  cases h.source with
  | fd hfed =>
      obtain ⟨fd, -, hfd⟩ := hfed.fd
      have hroom : ReadsInRoom s a x.m := by
        simp only [InTime, hfd] at hc
        exact hc
      have hnone : x.came s a = [] := by
        simp only [Conduit.came, hfd]
      obtain ⟨hfed', hrest⟩ := hfed.step h.orderly.wired h.sink.wf h.small hlen hu.1 hacts hanswers hroom
        hm' hx'
      rw [hnone, List.append_nil]
      exact ⟨.fd hfed', hrest⟩
  | pipe w hpipe =>
      have hends : EndsInTime t w s a x.m := by
        simp only [InTime, hpipe.joined.rxRef] at hc
        exact hc
      have hcame : x.came s a = Channel.pushed (pipeEvents w s a x.m) := by
        simp only [Conduit.came, hpipe.joined.rxRef]
      obtain ⟨hjoined, hqueue⟩ := pipe_step hpipe.joined hm'
      refine ⟨.pipe w (hpipe.step h.owned hends hm'), ?_⟩
      rw [rest_of_pipe hpipe.joined, rest_of_pipe hjoined, hcame, hqueue, pulled_forward hu.1 hacts]

/-- A step keeps the output, and what it moves joins it at its back. -/
theorem Forwards.sink_step (h : Forwards t s x) (hlen : x.m.pl.uncommitted s < 2 ^ 64)
    (hu : Under t s a x) (hstep : Conduit.step s a x = some x') :
    DrainedTo s x' ∧ x.out s ++ x.m.moved s a = x.gone s a ++ x'.out s := by
  obtain ⟨hanswers, hm', -⟩ := machine_of_step hstep
  have hacts := h.actsOn hu hm'
  cases h.sink with
  | fd hdrained =>
      obtain ⟨fd, -, hfd⟩ := hdrained.fd
      obtain ⟨hdrained', hout⟩ := hdrained.step h.orderly.wired h.source.straight h.source.wf h.small hlen
        hu.1 hacts hanswers hm'
      have hgone : x.gone s a = Conduit.sent s a x.m := by
        simp only [Conduit.gone, hfd]
      refine ⟨.fd hdrained', ?_⟩
      rw [hdrained.out_eq, hdrained'.out_eq, hgone, hout]
  | pipe r hjoined =>
      obtain ⟨hjoined', hqueue⟩ := pipe_step hjoined hm'
      have hgone : x.gone s a = Channel.pulled (pipeEvents s r a x.m) := by
        simp only [Conduit.gone, hjoined.txRef]
      refine ⟨.pipe r hjoined', ?_⟩
      rw [out_of_pipe hjoined, out_of_pipe hjoined', hgone, ← hqueue, pushed_forward hjoined.ne hu.1 hacts]

theorem Forwards.step (h : Forwards t s x) (hlen : x.m.pl.uncommitted s < 2 ^ 64)
    (hu : Under t s a x) (hc : InTime t s a x) (hstep : Conduit.step s a x = some x') :
    Forwards t s x' where
  source := (h.source_step hlen hu hc hstep).1
  sink := (h.sink_step hlen hu hstep).1
  owned := h.owned.step hu.2 (machine_of_step hstep).2.1
  orderly := h.orderly.step (machine_of_step hstep).2.1
  small := by
    rw [h.rxLen_step hlen hu (machine_of_step hstep).2.1]
    exact h.small

end Steps

/-! ## Waiting -/

/-- The poller is asked whether socket `s` has something to read. -/
def PolledForInput (s : Nat) (pl : ProcLocal) : Prop :=
  s ∈ pl.blockedQ ∧ 0 ≤ (pl.sockets s).rxFd.getFd ∧ (pl.sockets s).rx.rxBlocked = true

/-- The poller is asked whether socket `s` has room for what it writes. -/
def PolledForRoom (s : Nat) (pl : ProcLocal) : Prop :=
  s ∈ pl.blockedQ ∧ 0 ≤ (pl.sockets s).txFd.getFd ∧ (pl.sockets s).tx.txBlocked = true

/-- Thread `t` waits in the forward. -/
def WaitsIn (t s : Nat) (m : Machine) : Prop :=
  m.pos t = some (.forward, s) ∧ (m.pl.threads t).status = .wait

/-- A thread that waits in a forward is on its way back, with an effect pending if it has
moved all it was to move; or the poller is asked for what it waits for. -/
structure Attended (t s : Nat) (x : Conduit) : Prop where
  waiting : x.m.stage = .back t → (x.m.pl.threads t).waitingSocketPtr = some s
  effect : x.m.stage = .back t → x.m.pl.uncommitted s = 0 → (x.m.pl.sockets s).tx.effect = true
  input : FedByFd s x → x.m.stage ≠ .back t → PolledForInput s x.m.pl
  room : x.m.stage ≠ .back t → x.m.pl.uncommitted s = 0 → PolledForRoom s x.m.pl

section Waiting

variable {x x' : Conduit} {m m' : Machine} {a : Act} {s t : Nat} {os : Os}

/-- A thread that has come back waiting for a socket has its operation applied. -/
theorem handlerOf_of_back (hst : m.stage = .back t) (hwait : (m.pl.threads t).status = .wait)
    (hs : (m.pl.threads t).waitingSocketPtr = some s) (hstep : Machine.step a m = some m') :
    ∃ os, m.handlerOf s a = some os := by
  cases Machine.stepped hstep with
  | unblock u hst' os =>
      rw [hst] at hst'
      cases hst'
      refine ⟨os, ?_⟩
      simp only [Machine.handlerOf, hst, hwait, hs, and_self, if_true]
  | start hst' | play hst' | answer hst' | retry hst' | exec _ hst' | co _ hst' =>
      rw [hst] at hst'
      cases hst'

/-- A poller's retry of a forward readies the thread that the socket blocks. -/
theorem not_wait_retry (hw : ProcLocal.Wired m.pl) (hop : (m.pl.sockets s).block.op = .forward)
    (os : Os) : (((m.pl.retrySocket s os).pl).threads (m.pl.blockedVk s)).status ≠ .wait := by
  have hhandles := ProcLocal.handles_unflagged m.pl s
  obtain ⟨pl₁, pl₂, -, -, hhandled⟩ :=
    ProcLocal.handleForward_cases (ProcLocal.Handles.wired hhandles hw) s os
  have hrc : ((m.pl.unflagged s).socketHandler s os).rc = 0 := by
    simp only [ProcLocal.socketHandler, (hhandles.block s).op, hop, hhandled]
    rfl
  rw [ProcLocal.retrySocket_eq, if_neg (by rw [hrc]; decide)]
  exact ProcLocal.not_wait_enqueueRun _ _

/-- A thread that still waits when its forward has been applied has come back. -/
theorem Forwards.unblocked (h : Forwards t s x) (hwaits : WaitsIn t s x.m)
    (hf : x.m.forwards s a = some os) (hstep : Machine.step a x.m = some m')
    (hwait' : (m'.pl.threads t).status = .wait) :
    x.m.stage = .back t ∧ x.m.seen s a = { x.m.pl with runningCr := none } ∧
      m'.pl = ((x.m.seen s a).handleForward s os).pl := by
  obtain ⟨hop, hhandler⟩ := handlerOf_of_forwards hf
  have hblocks := h.owned.blocks _ hwaits.1 hwaits.2
  simp only [Machine.handlerOf] at hhandler
  cases Machine.stepped hstep with
  | retry hst b os' hb =>
      simp only [hst] at hhandler
      split at hhandler
      next hbs =>
        subst hbs
        have hnot := not_wait_retry h.orderly.wired hop os'
        rw [hblocks] at hnot
        exact absurd hwait' hnot
      next => cases hhandler
  | unblock u hst os' =>
      simp only [hst] at hhandler
      split at hhandler
      next hback =>
        cases hhandler
        obtain rfl : t = u := hblocks.symm.trans (h.orderly.backsOwn u s hst hback.1 hback.2)
        refine ⟨hst, rfl, ?_⟩
        show (x.m.pl.afterCall t os).pl = _
        rw [ProcLocal.afterCall_of_wait hback.1 hback.2]
        simp only [ProcLocal.socketHandler, hop, Machine.seen]
      next => cases hhandler
  | start hst | play hst | answer hst | exec _ hst | co _ hst =>
      simp only [hst] at hhandler
      cases hhandler

/-- A thread that comes back waiting has an effect pending if it has moved all it was to
move. -/
theorem Forwards.attended_turn (h : Forwards t s x) (hlen : x.m.pl.uncommitted s < 2 ^ 64)
    (hst : x.m.stage = .inside t)
    (hm' : x'.m = x.m.turn t .forward s) (hwaits' : WaitsIn t s x'.m) : Attended t s x' := by
  obtain ⟨hleaves, hsucceeds⟩ := turnLeaves_forwardCommit h.source.wf h.sink.wf h.small hlen
  have hnot := h.owned.not_wait hst
  cases forwardTurned (t := t) hsucceeds with
  | left htest hturn =>
      rw [hm', hturn] at hwaits'
      exact absurd hwaits'.2 hnot
  | again htest hturn =>
      rw [hm', hturn] at hwaits'
      have hthreads : (x.m.pl.forwardCommit s).threads = x.m.pl.threads :=
        Machine.body_threads x.m.pl .forward s
      have hwait' : ((x.m.pl.forwardCommit s).threads t).status = .wait := hwaits'.2
      rw [hthreads] at hwait'
      exact absurd hwait' hnot
  | wait htest hturn =>
      have hstage : x'.m.stage = .back t := by rw [hm', hturn]
      have hself := Machine.waitOn_self (x.m.pl.forwardCommit s) t s
      have htx : (x'.m.pl.sockets s).tx = ((x.m.pl.forwardCommit s).sockets s).tx := by
        rw [hm', hturn]
        show (((x.m.pl.forwardCommit s).waitOn t s).sockets s).tx = _
        rw [hself]
      have hleft : x'.m.pl.uncommitted s = (x.m.pl.forwardCommit s).uncommitted s := by
        rw [hm', hturn]
        show ((((x.m.pl.forwardCommit s).waitOn t s).sockets s).block.len) = _
        rw [hself]
        rfl
      refine ⟨fun _ => ?_, fun _ hall => ?_, fun _ hne => absurd hstage hne, fun hne => absurd hstage hne⟩
      · rw [hm', hturn]
        show (((x.m.pl.forwardCommit s).waitOn t s).threads t).waitingSocketPtr = some s
        rw [Machine.waitOn_threads, if_pos rfl]
      · -- the turn has moved the last of it
        have htest : (!x.m.pl.pollhup s && decide (x.m.pl.uncommitted s > 0)) = true := htest
        have hmore : 0 < x.m.pl.uncommitted s := of_decide_eq_true (Bool.and_eq_true_iff.mp htest).2
        have hcount := hleaves.len
        obtain ⟨b, hmoved⟩ := hleaves.tx
        rw [htx, hmoved.effect]
        exact Bool.or_eq_true_iff.mpr (Or.inr (decide_eq_true (by omega)))

/-- A thread that still waits when it has come back and its forward has been applied has
asked the poller for what it waits for. -/
theorem Forwards.attended_handler (h : Forwards t s x) (hwaits : WaitsIn t s x.m)
    (hattended : Attended t s x) (hc : InTime t s a x) (hf : x.m.forwards s a = some os)
    (hstep : Conduit.step s a x = some x') (hwait' : (x'.m.pl.threads t).status = .wait)
    (hasleep : x'.m.pl.Asleep s) : Attended t s x' := by
  obtain ⟨hanswers, hm', -⟩ := machine_of_step hstep
  obtain ⟨hst, hseen, hpl⟩ := h.unblocked hwaits hf hm' hwait'
  have hanswered : x.answers s os = true := by
    rw [hf] at hanswers
    exact hanswers
  have hstage : x'.m.stage ≠ .back t := fun hback => by
    have hinside := Machine.back_step hm' hback
    rw [hst] at hinside
    cases hinside
  have hhandles := handles_seen s a x.m
  have hw := ProcLocal.Handles.wired hhandles h.orderly.wired
  have hs := h.source.straight.of_handles hhandles
  have hq : Queued (x.m.seen s a) := by
    rw [hseen]
    exact ⟨h.orderly.queued.run, h.orderly.queued.runNodup, h.orderly.queued.blocked,
      h.orderly.queued.blockedNodup⟩
  have hrefs := Machine.refs_step hm' s
  rw [hpl] at hasleep
  have hnofill := (ProcLocal.asleep_handleForward hw hs hasleep).2
  have hleft : x'.m.pl.uncommitted s = x.m.pl.uncommitted s :=
    (Machine.sameCall_step hm' (unused_of_forwards hf)).len
  refine ⟨fun hback => absurd hback hstage, fun hback => absurd hback hstage, fun hfed _ => ?_,
    fun _ hall => ?_⟩
  · -- the ring had room, so what was read has an effect or blocks
    obtain ⟨fd, hfd, href⟩ := hfed.fd
    rw [hrefs.1] at href
    have hfedBefore : FedByFd s x := by
      cases h.source with
      | fd hfed => exact hfed
      | pipe w hpipe =>
          rw [hpipe.joined.rxRef] at href
          cases href
    have hroom : (x.m.pl.sockets s).rx.rxLen ≠ 0 := by
      simp only [InTime, href] at hc
      exact hc (by rw [readOf_of_forwards hf]; rfl) (Or.inl (handlerOf_of_forwards hf).1)
    obtain ⟨-, -, -, -, hgot⟩ := hfedBefore.filled (a := a) hanswered
    have hblocked := (hgot hroom).resolve_left (Bool.eq_false_iff.mp hnofill)
    have hrx := (ProcLocal.handleForward_rx hw hs os).rxBlocked.trans hblocked
    have hgetFd : 0 ≤ ((x.m.seen s a).sockets s).rxFd.getFd := by
      rw [Pipe.getFd, hhandles.rxRef, href]
      exact hfd
    refine ⟨?_, ?_, ?_⟩
    · rw [hpl]
      exact ProcLocal.mem_handleForward hw hq os (Or.inl ⟨hgetFd, hrx⟩)
    · rw [Pipe.getFd, hrefs.1, href]
      exact hfd
    · rw [hpl]
      exact hrx
  · -- the effect was not of use, so the write has blocked
    have heffect : ((x.m.seen s a).sockets s).tx.effect = true := by
      rw [hseen]
      exact hattended.effect hst (hleft.symm.trans hall)
    cases h.sink with
    | fd hdrained =>
        obtain ⟨fd, hfd, href⟩ := hdrained.fd
        obtain ⟨e, htx, hnowrite⟩ := ProcLocal.handleForward_tx hw hs os ((hhandles.txRef s).trans href)
        have htakes : os.writev.takesOf ((x.m.seen s a).sockets s).tx.txLen = true := by
          rw [hseen]
          exact takesOf_of_answers hanswered href
        have hwf : ((x.m.seen s a).sockets s).tx.Wf := by
          rw [hseen]
          exact hdrained.wf
        obtain ⟨-, -, hblocks⟩ := hwf.takes htakes e
        have hblocked := htx.txBlocked.trans (hblocks heffect (hnowrite hasleep))
        have hgetFd : 0 ≤ ((x.m.seen s a).sockets s).txFd.getFd := by
          rw [Pipe.getFd, hhandles.txRef, href]
          exact hfd
        refine ⟨?_, ?_, ?_⟩
        · rw [hpl]
          exact ProcLocal.mem_handleForward hw hq os (Or.inr ⟨hgetFd, hblocked⟩)
        · rw [Pipe.getFd, hrefs.2, href]
          exact hfd
        · rw [hpl]
          exact hblocked
    | pipe r hjoined =>
        have hstill : Still s r x.m.pl { x.m.pl with runningCr := none } := still_of_eq hjoined rfl
        have hjoined' : Joined (x.m.seen s a) s r := by
          rw [hseen]
          exact hstill.joined
        rw [ProcLocal.effect_of_asleep hw hs hjoined' hasleep] at heffect
        cases heffect

/-- Where neither a turn is taken nor the handler runs, the poller is asked as before. -/
theorem Forwards.attended_apart (h : Forwards t s x) (hwaits : WaitsIn t s x.m)
    (hattended : Attended t s x) (hhandler : x.m.handlerOf s a = none)
    (hused : Machine.usedSocket a x.m ≠ some s) (hm' : Machine.step a x.m = some x'.m)
    (hwait' : (x'.m.pl.threads t).status = .wait) : Attended t s x' := by
  have hblocks := h.owned.blocks _ hwaits.1 hwaits.2
  have hrefs := Machine.refs_step hm' s
  have hundisturbed := undisturbed_step hm' hhandler hused
  have hstage' : x'.m.stage ≠ .back t := fun hback =>
    h.owned.not_wait (Machine.back_step hm' hback) hwaits.2
  have hstage : x.m.stage ≠ .back t := fun hst => by
    obtain ⟨os, hos⟩ := handlerOf_of_back hst hwaits.2 (hattended.waiting hst) hm'
    rw [hhandler] at hos
    cases hos
  have hqueue : s ∈ x.m.pl.blockedQ → s ∈ x'.m.pl.blockedQ := fun hmem => by
    rcases Machine.mem_blockedQ_step hm' hmem with hq | hq | ⟨u, -, hended, hu⟩
    · exact hq
    · exact absurd hwait' (hblocks ▸ hq)
    · rw [← hu, hblocks, hwaits.2] at hended
      cases hended
  have hleft : x'.m.pl.uncommitted s = x.m.pl.uncommitted s := (Machine.sameCall_step hm' hused).len
  refine ⟨fun hback => absurd hback hstage', fun hback => absurd hback hstage', fun hfed _ => ?_,
    fun _ hall => ?_⟩
  · obtain ⟨fd, hfd, href⟩ := hfed.fd
    rw [hrefs.1] at href
    cases h.source with
    | fd hfedBefore =>
        obtain ⟨hmem, hgetFd, hblocked⟩ := hattended.input hfedBefore hstage
        refine ⟨hqueue hmem, ?_, ?_⟩
        · rw [Pipe.getFd, hrefs.1]
          exact hgetFd
        · rw [(hundisturbed.rx ⟨⟨fd, href⟩, hfedBefore.alone⟩).rxBlocked]
          exact hblocked
    | pipe w hpipe =>
        rw [hpipe.joined.rxRef] at href
        cases href
  · obtain ⟨hmem, hgetFd, hblocked⟩ := hattended.room hstage (hleft.symm.trans hall)
    cases h.sink with
    | fd hdrained =>
        obtain ⟨fd, -, href⟩ := hdrained.fd
        refine ⟨hqueue hmem, ?_, ?_⟩
        · rw [Pipe.getFd, hrefs.2]
          exact hgetFd
        · rw [(hundisturbed.tx ⟨⟨fd, href⟩, hdrained.alone⟩).txBlocked]
          exact hblocked
    | pipe r hjoined =>
        rw [Pipe.getFd, hjoined.txRef] at hgetFd
        cases hgetFd

/-- A step leaves no waiting thread unattended. -/
theorem Forwards.attended_step (h : Forwards t s x) (hlen : x.m.pl.uncommitted s < 2 ^ 64)
    (hattended : (x.m.pl.threads t).status = .wait → Attended t s x) (hu : Under t s a x)
    (hc : InTime t s a x) (hstep : Conduit.step s a x = some x') (hwaits' : WaitsIn t s x'.m) :
    Attended t s x' := by
  obtain ⟨-, hm', -⟩ := machine_of_step hstep
  have hbefore : x.m.stage ≠ .inside t → (x.m.pl.threads t).status = .wait := fun hst => by
    rcases Machine.status_step hm' t with hsame | hrun | ⟨hinside, -⟩
    · exact hsame.symm.trans hwaits'.2
    · rw [hwaits'.2] at hrun
      cases hrun
    · exact absurd hinside hst
  have hblocks' := (h.owned.step hu.2 hm').blocks _ hwaits'.1 hwaits'.2
  have hasleep : x'.m.pl.Asleep s := by
    rw [ProcLocal.Asleep, hblocks']
    exact hwaits'.2
  cases h.actsOn hu hm' with
  | turn hst ha hturn => exact h.attended_turn hlen hst hturn hwaits'
  | handler os hf =>
      have hst : x.m.stage ≠ .inside t := fun hst => by
        obtain ⟨-, hhandler⟩ := handlerOf_of_forwards hf
        simp only [Machine.handlerOf, hst] at hhandler
        cases hhandler
      have hwait := hbefore hst
      exact h.attended_handler ⟨hu.1, hwait⟩ (hattended hwait) hc hf hstep hwaits'.2 hasleep
  | apart hhandler hused =>
      have hst : x.m.stage ≠ .inside t := fun hst => by
        obtain ⟨rfl, -⟩ := Machine.turn_of_pos hm' hst hu.1
        exact hused (usedSocket_turn hst hu.1)
      have hwait := hbefore hst
      exact h.attended_apart ⟨hu.1, hwait⟩ (hattended hwait) hhandler hused hm' hwaits'.2

end Waiting

/-! ## Runs -/

/-- The input has ended: there is no more to read, or EOF is marked. -/
def AtEnd (s : Nat) (x : Conduit) : Prop :=
  match (x.m.pl.sockets s).rxFd.ref with
  | .osFd _ => x.unread = []
  | .vkTx w => (x.m.pl.sockets w).tx.eof = true
  | .vkRx _ => False

/-- There is nothing to move any more: as much as was asked for has been, or all there is
before the end. -/
def Through (s : Nat) (x : Conduit) : Prop :=
  x.m.pl.uncommitted s = 0 ∨ x.rest s = [] ∧ AtEnd s x

/-- Thread `t` waits in the forward, which has nothing to move any more, and nothing will
wake it: the poller is not asked for room where as much as was asked for has been moved,
and where the input has ended not for input. -/
structure LeftWaiting (t s : Nat) (x : Conduit) : Prop where
  waits : WaitsIn t s x.m
  idle : x.m.idle = true
  through : x.m.pl.uncommitted s = 0 ∧ ¬PolledForRoom s x.m.pl ∨
    0 < x.m.pl.uncommitted s ∧ (x.rest s = [] ∧ AtEnd s x) ∧ ¬PolledForInput s x.m.pl

/-- A forward of `len` bytes. -/
structure Forwarding (t s len : Nat) (x : Conduit) : Prop where
  forwards : Forwards t s x
  total : x.m.pl.committed s + x.m.pl.uncommitted s = len
  attended : WaitsIn t s x.m → Attended t s x
  returned : x.m.pos t ≠ some (.forward, s) → x.m.pos t = none ∧ Through s x

section Runs

variable {x x' : Conduit} {a : Act} {s t len : Nat}

/-- A loop that is left is through. -/
theorem Forwards.through (h : Forwards t s x) (htest : (forwardLoop s).test x.m.pl = false) :
    Through s x := by
  have htest : (!x.m.pl.pollhup s && decide (x.m.pl.uncommitted s > 0)) = false := htest
  rcases Bool.and_eq_false_iff.mp htest with hup | hall
  · refine Or.inr ?_
    rw [Bool.not_eq_false'] at hup
    cases h.source with
    | fd hfed =>
        obtain ⟨fd, -, hfd⟩ := hfed.fd
        obtain ⟨hqueue, hsignalled⟩ := (ProcLocal.pollhup_of_queue hfed.wf).mp hup
        have heof : (x.m.pl.sockets s).rx.eof = true := by
          simpa only [ProcLocal.hupSignalled, Pipe.getSocket, hfd, hfed.unpolled, Bool.false_and,
            Bool.or_false] using hsignalled
        refine ⟨?_, ?_⟩
        · rw [hfed.rest_eq, hfed.ended heof, rxQueue, hqueue]
          rfl
        · simp only [AtEnd, hfd]
          exact hfed.ended heof
    | pipe w hpipe =>
        obtain ⟨hrx, htx, heof⟩ := (pollhup_joined hpipe.joined).mp hup
        refine ⟨?_, ?_⟩
        · rw [rest_of_pipe hpipe.joined, hrx, htx]
          rfl
        · simp only [AtEnd, hpipe.joined.rxRef]
          exact heof
  · exact Or.inl (Nat.eq_zero_of_not_pos (of_decide_eq_false hall))

/-- An attended thread is not left waiting. -/
theorem Forwarding.not_leftWaiting (h : Forwarding t s len x) : ¬LeftWaiting t s x := by
  intro hleft
  have hattended := h.attended hleft.waits
  have hstage : x.m.stage ≠ .back t := fun hback => by
    have hidle := hleft.idle
    simp only [Machine.idle, hback] at hidle
    cases hidle
  rcases hleft.through with ⟨hall, hroom⟩ | ⟨-, ⟨hrest, hend⟩, hinput⟩
  · exact hroom (hattended.room hstage hall)
  · cases h.forwards.source with
    | fd hfed => exact hinput (hattended.input hfed hstage)
    | pipe w hpipe =>
        rw [rest_of_pipe hpipe.joined, List.append_eq_nil_iff] at hrest
        simp only [AtEnd, hpipe.joined.rxRef] at hend
        have hdry : Dry t w s x.m :=
          ⟨hleft.waits.2, ⟨.forward, by decide, hleft.waits.1⟩, hrest.2, hrest.1⟩
        exact hstage (hpipe.woken hend hdry).stage

theorem Forwarding.step (h : Forwarding t s len x) (hlen : len < 2 ^ 64)
    (hc : Under t s a x ∧ InTime t s a x) (hstep : Conduit.step s a x = some x') :
    Forwarding t s len x' := by
  obtain ⟨hu, hc⟩ := hc
  obtain ⟨-, hm', hx'⟩ := machine_of_step hstep
  have htotal := h.total
  have hfits : x.m.pl.uncommitted s < 2 ^ 64 := by omega
  have hcounts := h.forwards.counts hfits hu hm'
  refine ⟨h.forwards.step hfits hu hc hstep, ?_, fun hwaits' => ?_, fun hpos' => ?_⟩
  · have hle := hcounts.le
    rw [hcounts.left, hcounts.counted]
    omega
  · exact h.forwards.attended_step hfits (fun hwait => h.attended ⟨hu.1, hwait⟩) hu hc hstep hwaits'
  · -- only a turn that leaves the loop changes where the thread stands
    rcases Machine.pos_step hm' t with hsame | ⟨hst, -⟩
    · exact absurd (hsame.trans hu.1) hpos'
    · obtain ⟨rfl, hturn⟩ := Machine.turn_of_pos hm' hst hu.1
      obtain ⟨-, hsucceeds⟩ :=
        turnLeaves_forwardCommit h.forwards.source.wf h.forwards.sink.wf h.forwards.small hfits
      cases forwardTurned (t := t) hsucceeds with
      | left htest hleft =>
          have hunread : x'.unread = x.unread := by
            rw [hx', taken_of_not_forwards (forwards_of_used (usedSocket_turn hst hu.1))]
            rfl
          have hleft : x'.m = x.m.setPos t none := hturn.trans hleft
          have hsame : x' = ⟨x.m.setPos t none, x.unread⟩ := by
            rw [← hleft, ← hunread]
          refine ⟨?_, ?_⟩
          · rw [hleft, Machine.setPos_pos, if_pos rfl]
          · rw [hsame]
            exact h.forwards.through htest
      | again htest hagain =>
          refine absurd ?_ hpos'
          rw [hturn, hagain]
          exact hu.1
      | wait htest hwait =>
          refine absurd ?_ hpos'
          rw [hturn, hwait]
          exact hu.1

/-- A coroutine that calls a forward enters it. -/
theorem call_of_step {m m' : Machine} (hst : m.stage = .inside t)
    (h : Machine.step (.co (.call (.forward s len))) m = some m') :
    m' = Machine.setPos { m with pl := m.pl.beginForward s len } t (some (.forward, s)) := by
  cases Machine.stepped h with
  | co u hu a m' hco =>
      rw [hst] at hu
      cases hu
      cases Machine.coStepped hco with
      | call hpos c hknown => rfl

/-- A forward begins, with the input and the output as they are. -/
theorem Forwards.call (h : Forwards t s x) (hin : x.m.stage = .inside t)
    (hcall : Conduit.step s (.co (.call (.forward s len))) x = some x') :
    Forwarding t s len x' ∧ x'.m.pl.committed s = 0 ∧ x'.rest s = x.rest s ∧ x'.out s = x.out s := by
  obtain ⟨-, hm', hx'⟩ := machine_of_step hcall
  have hentered := call_of_step hin hm'
  have hapart : x.m.handlerOf s (.co (.call (.forward s len))) = none := by
    simp only [Machine.handlerOf, hin]
  have hunread : x'.unread = x.unread := by
    rw [hx', taken_of_not_forwards (forwards_of_not_handlerOf hapart)]
    rfl
  have hpl : x'.m.pl = x.m.pl.beginForward s len := by rw [hentered]; rfl
  -- the block of the socket is all that changes
  have hself : x'.m.pl.sockets s = { x.m.pl.sockets s with
      block := (x.m.pl.sockets s).block.init 0 len .forward } := by
    rw [hpl]
    exact updBlock_self x.m.pl s fun block => block.init 0 len .forward
  have hrings : ∀ b, (x'.m.pl.sockets b).rx = (x.m.pl.sockets b).rx ∧
      (x'.m.pl.sockets b).tx = (x.m.pl.sockets b).tx := fun b => by
    rw [hpl, ProcLocal.beginForward, ProcLocal.blockInit, ProcLocal.updBlock, ProcLocal.updSocket_sockets]
    split
    · subst b
      exact ⟨rfl, rfl⟩
    · exact ⟨rfl, rfl⟩
  have hrefs := Machine.refs_step hm'
  have hby : UsedBy t s (.co (.call (.forward s len))) x.m := fun p hp _ => by
    rw [Machine.called_call hin] at hp
    cases hp
    rfl
  have hforwards : Forwards t s x' := {
    source := by
      cases h.source with
      | fd hfed =>
          obtain ⟨fd, hfd, href⟩ := hfed.fd
          refine .fd ⟨⟨fd, hfd, (hrefs s).1.trans href⟩, fun b => ?_, ?_, ?_, fun heof => ?_⟩
          · rw [(hrefs b).2]
            exact hfed.alone b
          · rw [(hrings s).1]
            exact hfed.wf
          · rw [hself]
            exact hfed.unpolled
          · rw [(hrings s).1] at heof
            exact hunread.trans (hfed.ended heof)
      | pipe w hpipe =>
          refine .pipe w (hpipe.step h.owned ⟨fun hhup => ?_, fun hclose => ?_⟩ hm')
          · obtain ⟨u, -, hturn, -⟩ := hhup
            cases hturn
          · obtain ⟨-, ⟨os, hretry⟩ | ⟨u, os, -, hback, -⟩⟩ := hclose
            · cases hretry
            · cases hback
    sink := by
      cases h.sink with
      | fd hdrained =>
          obtain ⟨fd, hfd, href⟩ := hdrained.fd
          refine .fd ⟨⟨fd, hfd, (hrefs s).2.trans href⟩, fun b => ?_, ?_⟩
          · rw [(hrefs b).1]
            exact hdrained.alone b
          · rw [(hrings s).2]
            exact hdrained.wf
      | pipe r hjoined => exact .pipe r (pipe_step hjoined hm').1
    owned := h.owned.step hby hm'
    orderly := h.orderly.step hm'
    small := by
      rw [(hrings s).1]
      exact h.small }
  have hcommitted : x'.m.pl.committed s = 0 := by
    rw [ProcLocal.committed, hself]
    rfl
  refine ⟨⟨hforwards, ?_, fun hwaits => ?_, fun hpos => ?_⟩, hcommitted, ?_, ?_⟩
  · rw [hcommitted, ProcLocal.uncommitted, hself]
    exact Nat.zero_add len
  · have hstage : x'.m.stage = .inside t := by
      rw [hentered]
      exact hin
    exact absurd hwaits.2 (hforwards.owned.not_wait hstage)
  · refine absurd ?_ hpos
    rw [hentered, Machine.setPos_pos, if_pos rfl]
  · simp only [Conduit.rest, rxQueue, txQueue, hrings, hrefs, hunread]
  · simp only [Conduit.out, rxQueue, txQueue, hrings, hrefs]

/-- A forward of `len` bytes is exact.  `input` is what there was to read when it began,
and what has come since; `out` what was to be taken then; `moved` what it has moved and
`gone` what has been taken.  What it moves is the front of the input, in order, and the
rest is still to be read; it joins the output at its back.  Where it has returned, it has
moved the next `len` bytes, or all there are before the end, and counted them; and it is
not left waiting. -/
structure MovesExactly (t s len : Nat) (input out moved gone : List UInt8) (x : Conduit) : Prop where
  front : input = moved ++ x.rest s
  back : out ++ moved = gone ++ x.out s
  le : moved.length ≤ len
  returned : x.m.pos t = none → moved = input.take len ∧ x.m.pl.committed s = moved.length ∧
    (moved.length < len → AtEnd s x)
  wakes : ¬LeftWaiting t s x

/-- A forward of any length, however its input comes and its output goes, is exact in
every run in which the end of the input is marked in time. -/
theorem forward_exact {as : List Act} {x₁ : Conduit} (h : Forwards t s x) (hlen : len < 2 ^ 64)
    (hin : x.m.stage = .inside t)
    (hcall : Conduit.step s (.co (.call (.forward s len))) x = some x₁)
    (hunder : Meets (Conduit.step s) (Under t s) as x₁)
    (hc : Meets (Conduit.step s) (InTime t s) as x₁) (hrun : run (Conduit.step s) as x₁ = some x') :
    MovesExactly t s len (x.rest s ++ trace (Conduit.step s) (Conduit.came s) as x₁) (x.out s)
      (trace (Conduit.step s) (fun a x => x.m.moved s a) as x₁)
      (trace (Conduit.step s) (Conduit.gone s) as x₁) x' := by
  obtain ⟨hbegun, hnone, hrest, hout⟩ := h.call hin hcall
  have hstep : ∀ a y y', Forwarding t s len y → Under t s a y ∧ InTime t s a y →
      Conduit.step s a y = some y' → Forwarding t s len y' := fun a y y' hy hc hst =>
    hy.step hlen hc hst
  have hfits : ∀ {y : Conduit}, Forwarding t s len y → y.m.pl.uncommitted s < 2 ^ 64 := fun hy => by
    have htotal := hy.total
    omega
  have hmeets := hunder.and hc
  have hend := run_of_meets hstep hbegun hmeets hrun
  have hfront := run_queue (Conduit.rest s) hstep
    (fun a y y' hy hc hst => (hy.forwards.source_step (hfits hy) hc.1 hc.2 hst).2) hbegun hmeets hrun
  have hback := run_queue (Conduit.out s) hstep
    (fun a y y' hy hc hst => (hy.forwards.sink_step (hfits hy) hc.1 hst).2) hbegun hmeets hrun
  have hcount := run_length (fun a y => y.m.moved s a) (fun y => y.m.pl.committed s) hstep
    (fun a y y' hy hc hst =>
      (hy.forwards.counts (hfits hy) hc.1 (machine_of_step hst).2.1).counted) hbegun hmeets hrun
  simp only [hnone, Nat.zero_add] at hcount
  have htotal := hend.total
  rw [hrest] at hfront
  rw [hout] at hback
  refine ⟨hfront, hback, by omega, fun hpos => ?_, hend.not_leftWaiting⟩
  have hthrough := (hend.returned (by rw [hpos]; nofun)).2
  rw [hfront]
  generalize trace (Conduit.step s) (fun a x => x.m.moved s a) as x₁ = moved at hcount ⊢
  rcases hthrough with hall | ⟨hnil, hended⟩
  · have hlength : moved.length = len := by omega
    exact ⟨(List.take_left' hlength).symm, hcount, fun hless => absurd hlength (Nat.ne_of_lt hless)⟩
  · refine ⟨?_, hcount, fun _ => hended⟩
    rw [hnil, List.append_nil, List.take_of_length_le (by omega)]

end Runs

/-! ## A proxy -/

/-- The coroutine of a proxy runs, with `unread` to be read from its descriptor. -/
def proxying (rx tx : Vectoring) (unread : List UInt8) : Conduit :=
  ⟨{ proxy rx tx with stage := .inside 0 }, unread⟩

theorem forwards_proxying {rx tx : Vectoring} (hrx : rx.Wf) (htx : tx.Wf) (heof : rx.eof = false)
    (hsmall : rx.bufLen < 2 ^ 63) (unread : List UInt8) : Forwards 0 0 (proxying rx tx unread) where
  source := .fd {
    fd := ⟨3, by decide, rfl⟩
    alone := nofun
    wf := hrx
    unpolled := rfl
    ended := fun h => by
      rw [show rx.eof = true from h] at heof
      cases heof }
  sink := .fd ⟨⟨4, by decide, rfl⟩, nofun, htx⟩
  owned := {
    alone := nofun
    admits := nofun
    blocks := nofun
    ready := fun _ _ => rfl }
  orderly := {
    queued := ⟨fun _ => iff_of_false nofun nofun, List.nodup_nil, fun _ => iff_of_false nofun nofun,
      List.nodup_nil⟩
    wired := fun _ _ => ⟨nofun, nofun⟩
    backsOwn := nofun
    waits := nofun }
  small := hsmall

/-- The system answers a read and a write. -/
def answering (readv : SysResult (List UInt8)) (writev : SysResult Nat) : Os :=
  ⟨readv, writev, .err EAGAIN, .ok (), .ok ()⟩

/-- The coroutine waits, its handler is answered so, and it runs again. -/
def waitsOnce (readv : SysResult (List UInt8)) (writev : SysResult Nat) : List Act :=
  [.co .turn, .unblock (answering readv writev), .exec]

/-- Three bytes come, and are sent at the end of the stream. -/
def threeBytes : List Act :=
  waitsOnce (.ok [97, 98, 99]) (.ok 0) ++ waitsOnce (.ok []) (.ok 3) ++ [.co .turn]

/-- A forward that is called, and what follows. -/
def forwarding (len : Nat) (as : List Act) (x : Conduit) : Option (Conduit × Conduit) :=
  (Conduit.step 0 (.co (.call (.forward 0 len))) x).bind fun x₁ =>
    (run (Conduit.step 0) as x₁).map fun x' => (x₁, x')

theorem forwarding_eq_some {len : Nat} {as : List Act} {x x₁ x' : Conduit}
    (h : forwarding len as x = some (x₁, x')) :
    Conduit.step 0 (.co (.call (.forward 0 len))) x = some x₁ ∧
      run (Conduit.step 0) as x₁ = some x' := by
  obtain ⟨y, hcall, h⟩ := Option.bind_eq_some_iff.mp h
  obtain ⟨y', hrun, hsame⟩ := Option.map_eq_some_iff.mp h
  cases hsame
  exact ⟨hcall, hrun⟩

theorem forward_exact_proxying : ∃ x₁ x',
    forwarding 100 threeBytes (proxying emptyRing emptyRing [97, 98, 99]) = some (x₁, x') ∧
      MovesExactly 0 0 100
        ((proxying emptyRing emptyRing [97, 98, 99]).rest 0 ++
          trace (Conduit.step 0) (Conduit.came 0) threeBytes x₁)
        ((proxying emptyRing emptyRing [97, 98, 99]).out 0)
        (trace (Conduit.step 0) (fun a x => x.m.moved 0 a) threeBytes x₁)
        (trace (Conduit.step 0) (Conduit.gone 0) threeBytes x₁) x' := by
  obtain ⟨⟨x₁, x'⟩, hforwarding, hmeets⟩ := (Option.any_eq_true _ _).mp (by decide +kernel :
    (forwarding 100 threeBytes (proxying emptyRing emptyRing [97, 98, 99])).any (fun p =>
      decide (Meets (Conduit.step 0) (fun a x => Under 0 0 a x ∧ ReadsInRoom 0 a x.m ∧
        (x.m.pl.sockets 0).rxFd.ref = .osFd 3) threeBytes p.1)) = true)
  obtain ⟨hcall, hrun⟩ := forwarding_eq_some hforwarding
  have hmeets := of_decide_eq_true hmeets
  refine ⟨x₁, x', hforwarding, forward_exact
    (forwards_proxying wf_emptyRing wf_emptyRing rfl (by decide) _) (by decide) rfl hcall
    (hmeets.mono fun _ _ h => h.1) (hmeets.mono fun _ _ h => ?_) hrun⟩
  simp only [InTime, h.2.2]
  exact h.2.1

/-- The sink has been slow, and both rings are full: a handler asks for no byte, and gets
none. -/
def slowSink : List Act :=
  waitsOnce (.ok []) (.ok 16384) ++ waitsOnce (.err EAGAIN) (.ok 16384) ++ [.co .turn]

/-- A forward with a slow sink returns with less than it was to move, and a byte unread. -/
theorem forward_short :
    ¬∀ (t s len : Nat) (as : List Act) (x x₁ x' : Conduit), Forwards t s x → len < 2 ^ 64 →
      x.m.stage = .inside t → Conduit.step s (.co (.call (.forward s len))) x = some x₁ →
      Meets (Conduit.step s) (Under t s) as x₁ → run (Conduit.step s) as x₁ = some x' →
      MovesExactly t s len (x.rest s ++ trace (Conduit.step s) (Conduit.came s) as x₁) (x.out s)
        (trace (Conduit.step s) (fun a x => x.m.moved s a) as x₁)
        (trace (Conduit.step s) (Conduit.gone s) as x₁) x' := by
  intro hall
  obtain ⟨⟨x₁, x'⟩, hforwarding, hshort⟩ := (Option.any_eq_true _ _).mp (by decide +kernel :
    (forwarding 20000 slowSink (proxying fullRing fullRing [97])).any (fun p =>
      decide (Meets (Conduit.step 0) (Under 0 0) slowSink p.1 ∧ p.2.m.pos 0 = none ∧
        p.2.m.pl.committed 0 = 16384 ∧ (p.2.m.pl.sockets 0).rxFd.ref = .osFd 3 ∧
        p.2.unread = [97])) = true)
  obtain ⟨hunder, hpos, hcommitted, href, hunread⟩ := of_decide_eq_true hshort
  obtain ⟨hcall, hrun⟩ := forwarding_eq_some hforwarding
  have hwf : fullRing.Wf := wf_emptyRing.of_markReceived _
  obtain ⟨-, hcount, hended⟩ := (hall 0 0 20000 slowSink _ x₁ x'
    (forwards_proxying hwf hwf (by decide) (by decide) [97]) (by decide) rfl hcall hunder
    hrun).returned hpos
  have hcommitted : x'.m.pl.committed 0 = 16384 := hcommitted
  have href : (x'.m.pl.sockets 0).rxFd.ref = .osFd 3 := href
  have hunread : x'.unread = [97] := hunread
  rw [hcommitted] at hcount
  have hend := hended (by omega)
  simp only [AtEnd, href, hunread, List.cons_ne_nil] at hend

end Vk

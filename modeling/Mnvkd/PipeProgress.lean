/-
# `Mnvkd.PipeProgress` — waits for bytes and for room

A writer waits for room in its transmit ring, a reader for bytes in its receive
ring.  Were both to wait so at the two ends of one pipe, neither would ever be
woken: no descriptor is between them.  It does not come to that.  Whichever of the
two waits last has its operation applied on its way back, and that moves bytes, for
the one has some to send and the other room for them.

The wait of `vk_hup` for its EOF to be taken is no wait for room, and nothing here
is about it: there both ends can wait for ever (`hup_hangs_reader`).

    AttendedPipe.step           no step leaves both waiting so, but on their way back
    pipe_not_stuck          and no run does
    stages_split            of stages in a row that all wait, some first ones wait for
                            what they read, and the others for what they write
    forward_strands_pipe    a forward from a descriptor that does not hand over does
                            strand the two ends
-/
import Mnvkd.Conduit
import Mnvkd.PipePasses

namespace Vk

open Lib
open ProcLocal (Rested Roused HandsOver)

/-! ## A step -/

/-- Where a forward of `w` is applied it reads from a pipe, or it reads from a
descriptor and hands over what the reader is to have. -/
def HandsOverAt (w r : Nat) (a : Act) (m : Machine) : Prop :=
  (m.forwards w a).isSome → match (m.pl.sockets w).rxFd.ref with
    | .osFd _ => HandsOver w r m.pl
    | .vkTx _ => True
    | .vkRx _ => False

instance (w r : Nat) (a : Act) (m : Machine) : Decidable (HandsOverAt w r a m) := by
  unfold HandsOverAt
  cases (m.pl.sockets w).rxFd.ref <;> infer_instance

section Steps

variable {tw tr w r t s : Nat} {a : Act} {m m' : Machine} {pl pl' pl'' : ProcLocal} {os : Os}

/-- Scheduling leaves it at that. -/
theorem passed_settle (h : Rested w r pl pl' ∨ Roused w r pl') (hdata : SameData pl' pl'')
    (hrouses : ProcLocal.Rouses pl' pl'') : Rested w r pl pl'' ∨ Roused w r pl'' := by
  have hawake : ∀ a, ¬pl'.Asleep a → ¬pl''.Asleep a := fun a ha => by
    unfold ProcLocal.Asleep at ha ⊢
    rw [ProcLocal.blockedVk_of_sameData hdata a]
    exact hrouses.not_wait ha
  rcases h with hrested | hroused
  · exact Or.inl (hrested.trans (.of_sameData hdata))
  · exact Or.inr ⟨hawake w hroused.1, hawake r hroused.2⟩

/-- Clearing flags leaves what does not depend on them. -/
theorem unflagged_rings {β : Type} (g : Vectoring → β) (hrx : ∀ ring b, g (ring.setRxBlocked b) = g ring)
    (htx : ∀ ring b, g (ring.setTxBlocked b) = g ring) (pl : ProcLocal) (s a : Nat) :
    g ((pl.unflagged s).sockets a).rx = g (pl.sockets a).rx ∧
      g ((pl.unflagged s).sockets a).tx = g (pl.sockets a).tx := by
  have hflag : g ((pl.unflagRx s).sockets a).rx = g (pl.sockets a).rx ∧
      ((pl.unflagRx s).sockets a).tx = (pl.sockets a).tx := by
    unfold ProcLocal.unflagRx
    split
    · rw [ProcLocal.updSocket_sockets]
      split
      · subst a
        exact ⟨hrx _ _, rfl⟩
      · exact ⟨rfl, rfl⟩
    · exact ⟨rfl, rfl⟩
  unfold ProcLocal.unflagged ProcLocal.unflagTx
  split
  · rw [ProcLocal.updSocket_sockets]
    split
    · subst a
      exact ⟨hflag.1, (htx _ _).trans (congrArg g hflag.2)⟩
    · exact ⟨hflag.1, congrArg g hflag.2⟩
  · exact ⟨hflag.1, congrArg g hflag.2⟩

theorem unflagged_queue (pl : ProcLocal) (s a : Nat) :
    rxQueue (pl.unflagged s) a = rxQueue pl a ∧ txQueue (pl.unflagged s) a = txQueue pl a :=
  unflagged_rings Vectoring.queue (fun _ _ => rfl) (fun _ _ => rfl) pl s a

theorem passes_unflagged (pl : ProcLocal) (s : Nat) : ProcLocal.Passes w r pl (pl.unflagged s) :=
  ⟨ProcLocal.handles_unflagged pl s, Or.inl ⟨(unflagged_queue pl s w).2, (unflagged_queue pl s r).1⟩⟩

/-- What the handler of socket `s` starts from is as good as what the step starts from. -/
theorem HandsOverAt.seen (h : HandsOverAt w r a m) (hhandler : (m.handlerOf w a).isSome)
    (hop : (m.pl.sockets w).block.op = .forward) {fd : Int}
    (href : (m.pl.sockets w).rxFd.ref = .osFd fd) (hqueue : txQueue pl w = txQueue m.pl w)
    (hroom : (pl.sockets r).rx.rxLen = (m.pl.sockets r).rx.rxLen) : HandsOver w r pl := by
  have hover := h (by rw [Machine.forwards, if_pos hop]; exact hhandler)
  rw [href] at hover
  exact hover.congr hqueue hroom

theorem passed_retry (hj : Joined m.pl w r) (hst : m.stage = .kernel)
    (hover : HandsOverAt w r (.retry s os) m) :
    Rested w r m.pl (m.pl.retrySocket s os).pl ∨ Roused w r (m.pl.retrySocket s os).pl := by
  have hflags := passes_unflagged (w := w) (r := r) m.pl s
  have hj' := hj.of_moves (transfers_unflagged hj s).toMoves
  have hhandler : ProcLocal.Passes w r (m.pl.unflagged s) ((m.pl.unflagged s).socketHandler s os).pl := by
    refine ProcLocal.passes_socketHandler hj' fun hs hop fd href => ?_
    subst hs
    rw [(hflags.block s).op] at hop
    rw [hflags.rxRef] at href
    exact hover.seen (by simp [Machine.handlerOf, hst]) hop href (unflagged_queue m.pl s s).2
      (unflagged_rings Vectoring.rxLen (fun _ _ => rfl) (fun _ _ => rfl) m.pl s r).1
  have hpass := (hflags.trans hhandler).pass
  rw [ProcLocal.retrySocket_eq]
  split
  · exact hpass
  · exact passed_settle hpass
      ((ProcLocal.sameData_dropBlocked _ s).trans (ProcLocal.settles_enqueueRun _ _).toSameData)
      ((ProcLocal.rouses_of_threads (ProcLocal.dropBlocked_threads _ s)).trans
        (ProcLocal.settles_enqueueRun _ _).status)

theorem passed_afterCall (hj : Joined m.pl w r) (hst : m.stage = .back t)
    (hover : HandsOverAt w r (.unblock os) m) :
    Rested w r m.pl (m.pl.afterCall t os).pl ∨ Roused w r (m.pl.afterCall t os).pl := by
  rcases ProcLocal.afterCall_cases m.pl t os with hsame | ⟨s, hwait, hs, hhandled⟩
  · exact Or.inl (.of_sameData hsame)
  · have hclear : Still w r m.pl { m.pl with runningCr := none } := still_of_eq hj rfl
    rw [hhandled]
    refine (ProcLocal.passes_socketHandler hclear.joined fun hsw hop fd href => ?_).pass
    subst hsw
    exact hover.seen (by simp [Machine.handlerOf, hst, hwait, hs]) hop href rfl rfl

theorem rested_readhup (m : Machine) (t b : Nat) : Rested w r m.pl (m.readhup t b).pl := by
  unfold Machine.readhup
  split
  · have hhandled := ProcLocal.rested_handleReadhup m.pl w r b
    generalize (m.pl.handleReadhup b).pl = pl at hhandled
    have htaken : Rested w r m.pl ((pl.setRx b ((pl.sockets b).rx.readhup pl.errno).ring).setErrno
        ((pl.sockets b).rx.readhup pl.errno).errno) := by
      refine hhandled.trans ⟨?_, ?_⟩
      · show ((pl.setRx b _).sockets w).tx.queue = _
        rw [ProcLocal.setRx_tx]
        rfl
      · show ((pl.setRx b _).sockets r).rx.queue = _
        rw [ProcLocal.setRx_rx]
        split
        · rw [(Vectoring.rests_readhup _ _).queue, rxQueue, ‹r = b›]
        · rfl
    dsimp only
    split
    · refine ⟨?_, ?_⟩
      · rw [txQueue, Machine.raise_sockets]
        exact htaken.1
      · rw [rxQueue, Machine.raise_sockets]
        exact htaken.2
    · exact htaken
  · refine ⟨?_, ?_⟩
    · rw [txQueue, Machine.raise_sockets]
      rfl
    · rw [rxQueue, Machine.raise_sockets]
      rfl

/-- A coroutine's step leaves the ring of a socket that it does not operate on. -/
theorem queues_co {c : CoAct} (hst : m.stage = .inside t) (hco : m.co t c = some m') :
    (Machine.usedSocket (.co c) m ≠ some w → txQueue m'.pl w = txQueue m.pl w) ∧
      (Machine.usedSocket (.co c) m ≠ some r → rxQueue m'.pl r = rxQueue m.pl r) := by
  have hsame : m'.pl.sockets = m.pl.sockets →
      (Machine.usedSocket (.co c) m ≠ some w → txQueue m'.pl w = txQueue m.pl w) ∧
      (Machine.usedSocket (.co c) m ≠ some r → rxQueue m'.pl r = rxQueue m.pl r) := fun h => by
    unfold txQueue rxQueue
    rw [h]
    exact ⟨fun _ => rfl, fun _ => rfl⟩
  cases Machine.coStepped hco with
  | turn k b hpos =>
      simp only [Machine.usedSocket, hst, hpos, Option.map_some, ne_eq, Option.some.injEq]
      exact ⟨fun h => by rw [txQueue, Machine.turn_other (Ne.symm h)]; rfl,
        fun h => by rw [rxQueue, Machine.turn_other (Ne.symm h)]; rfl⟩
  | call hpos d hknown =>
      simp only [Machine.usedSocket, hst, ne_eq, Option.some.injEq]
      exact ⟨fun h => by rw [txQueue, Machine.call_other d (Ne.symm h)]; rfl,
        fun h => by rw [rxQueue, Machine.call_other d (Ne.symm h)]; rfl⟩
  | readhup hpos b =>
      have hrested := rested_readhup (w := w) (r := r) m t b
      exact ⟨fun _ => hrested.1, fun _ => hrested.2⟩
  | play hpos u => exact hsame (by rw [ProcLocal.enqueueRun_sockets])
  | store hpos mem => exact hsame rfl
  | raise hpos e => exact hsame (by rw [Machine.raise_sockets])
  | stop hpos status hstatus => exact hsame rfl

/-- A socket whose thread sleeps through a step, and that the step did not operate on,
keeps what it holds of the pipe. -/
theorem kept_step (hj : Joined m.pl w r) (hover : HandsOverAt w r a m)
    (hstep : Machine.step a m = some m') :
    (Machine.usedSocket a m ≠ some w → m'.pl.Asleep w → txQueue m'.pl w = txQueue m.pl w) ∧
      (Machine.usedSocket a m ≠ some r → m'.pl.Asleep r → rxQueue m'.pl r = rxQueue m.pl r) := by
  have hpassed : ∀ {pl : ProcLocal}, Rested w r m.pl pl ∨ Roused w r pl →
      (Machine.usedSocket a m ≠ some w → pl.Asleep w → txQueue pl w = txQueue m.pl w) ∧
      (Machine.usedSocket a m ≠ some r → pl.Asleep r → rxQueue pl r = rxQueue m.pl r) := fun h => by
    rcases h with hrested | hroused
    · exact ⟨fun _ _ => hrested.1, fun _ _ => hrested.2⟩
    · exact ⟨fun _ h => absurd h hroused.1, fun _ h => absurd h hroused.2⟩
  have hsame : ∀ {pl : ProcLocal}, pl.sockets = m.pl.sockets →
      (Machine.usedSocket a m ≠ some w → pl.Asleep w → txQueue pl w = txQueue m.pl w) ∧
      (Machine.usedSocket a m ≠ some r → pl.Asleep r → rxQueue pl r = rxQueue m.pl r) := fun h =>
    hpassed (Or.inl ⟨by rw [txQueue, h]; rfl, by rw [rxQueue, h]; rfl⟩)
  cases Machine.stepped hstep with
  | start => exact hsame rfl
  | play hst t => exact hsame (ProcLocal.enqueueRun_sockets _ _)
  | answer hst b rx tx =>
      have hstill : Still w r m.pl (m.answer b rx tx).pl := still_updBlock (s := b) hj fun block =>
        { block with
          ioftRxRet := { block.ioftRxRet with event := rx }
          ioftTxRet := { block.ioftTxRet with event := tx } }
      exact hpassed (Or.inl ⟨hstill.tx, hstill.rx⟩)
  | retry hst b os => exact hpassed (passed_retry hj hst hover)
  | exec phase hst => exact hsame (Machine.execute_sockets m phase)
  | unblock t hst os => exact hpassed (passed_afterCall hj hst hover)
  | co t hst c m' hco =>
      obtain ⟨htx, hrx⟩ := queues_co (w := w) (r := r) hst hco
      exact ⟨fun hs _ => htx hs, fun hs _ => hrx hs⟩

end Steps

/-! ## The two ends -/

/-- The loops a coroutine leaves only with its bytes sent. -/
def sendLoops : List IoLoop := [.write, .flush, .hupFlush]

/-- The loops it leaves only with bytes received. -/
def receiveLoops : List IoLoop := [.read, .readline, .pollread]

/-- Thread `t` waits to send on socket `w`. -/
structure Sending (t w : Nat) (m : Machine) : Prop where
  status : (m.pl.threads t).status = .wait
  pos : (∃ k ∈ sendLoops, m.pos t = some (k, w)) ∨
    m.pos t = some (.forward, w) ∧ txQueue m.pl w ≠ []

/-- Thread `t` waits to receive on socket `r`. -/
structure Receiving (t r : Nat) (m : Machine) : Prop where
  status : (m.pl.threads t).status = .wait
  pos : (∃ k ∈ receiveLoops, m.pos t = some (k, r)) ∨
    m.pos t = some (.forward, r) ∧ rxQueue m.pl r = []

/-- Thread `t` is on its way back to wait for socket `s`. -/
structure Returning (t s : Nat) (m : Machine) : Prop where
  stage : m.stage = .back t
  waiting : (m.pl.threads t).waitingSocketPtr = some s

/-- What a step is to meet: each end is one coroutine's, and a forward hands over. -/
structure Attends (tw w tr r : Nat) (a : Act) (m : Machine) : Prop where
  writer : UsedBy tw w a m
  reader : UsedBy tr r a m
  handsOver : HandsOverAt w r a m

/-- A pipe with a coroutine at each end.  Who waits to send has bytes to send, who
waits to receive has room, and both wait only where one is on its way back. -/
structure AttendedPipe (tw w tr r : Nat) (m : Machine) : Prop where
  joined : Joined m.pl w r
  writer : Owned tw w m
  reader : Owned tr r m
  noReadhup : ∀ s, (m.pl.sockets s).block.op ≠ .readhup
  writes : m.pos tw = some (.write, w) → (m.pl.sockets w).tx.eof = false
  once : m.pos tr = some (.pollread, r) → m.pl.uncommitted r ≤ 1
  unsent : Sending tw w m → txQueue m.pl w ≠ []
  drained : Receiving tr r m → rxQueue m.pl r = []
  returning : Sending tw w m → Receiving tr r m → Returning tw w m ∨ Returning tr r m

section Ends

variable {tw tr w r t s : Nat} {a : Act} {m m' : Machine}

theorem sendLoops_admits {k : IoLoop} (hk : k ∈ sendLoops ∨ k = .forward) {op : Op}
    (h : k.admits op) : op ∈ ProcLocal.sendOps := by
  simp only [sendLoops, List.mem_cons, List.not_mem_nil, or_false] at hk
  rcases hk with (rfl | rfl | rfl) | rfl <;> (cases h; decide)

theorem receiveLoops_admits {k : IoLoop} (hk : k ∈ receiveLoops ∨ k = .forward) {op : Op}
    (h : k.admits op) : op ∈ ProcLocal.receiveOps := by
  simp only [receiveLoops, List.mem_cons, List.not_mem_nil, or_false] at hk
  rcases hk with (rfl | rfl | rfl) | rfl <;> (cases h; decide)

/-- A thread that a step leaves waiting for its socket has waited through it, or has
just taken a turn that waits and is on its way back. -/
theorem Owned.sleeps_step (h : Owned t s m) (hby : UsedBy t s a m) (hstep : Machine.step a m = some m')
    {k : IoLoop} (hstatus : (m'.pl.threads t).status = .wait) (hpos : m'.pos t = some (k, s)) :
    ((m.pl.threads t).status = .wait ∧ m.pos t = some (k, s) ∧ Machine.usedSocket a m ≠ some s ∧
        m'.pl.Asleep s) ∨
      (Returning t s m' ∧ m.pos t = some (k, s) ∧
        (k.loop s).turn m.pl = .wait ((k.loop s).body m.pl) ∧
        m'.pl = ((k.loop s).body m.pl).waitOn t s) := by
  rcases Machine.status_step hstep t with hsame | hrun | ⟨hst, hback⟩
  · left
    have hwait : (m.pl.threads t).status = .wait := hsame.symm.trans hstatus
    have hst : m.stage ≠ .inside t := fun hst => h.not_wait hst hwait
    have hpos' : m.pos t = some (k, s) := by
      rcases Machine.pos_step hstep t with hp | ⟨hin, -⟩
      · rw [← hp]
        exact hpos
      · exact absurd hin hst
    refine ⟨hwait, hpos', fun hs => hst (h.usedSocket hby hstep hs).1, ?_⟩
    unfold ProcLocal.Asleep
    rw [(h.step hby hstep).blocks k hpos hstatus]
    exact hstatus
  · rw [hrun] at hstatus
    cases hstatus
  · right
    obtain ⟨k', s', -, hpos', hturn, rfl⟩ := Machine.waited_step hstep hst hback hstatus
    rw [hpos'] at hpos
    cases hpos
    refine ⟨⟨rfl, ?_⟩, hpos', hturn, rfl⟩
    dsimp only
    rw [Machine.waitOn_threads, if_pos rfl]

/-- A loop that sends waits with its ring full. -/
theorem unsent_of_wait {pl : ProcLocal} {k : IoLoop} (hwf : (pl.sockets w).tx.Wf) (hk : k ∈ sendLoops)
    (heof : k = .write → (pl.sockets w).tx.eof = false)
    (hturn : (k.loop w).turn pl = .wait ((k.loop w).body pl)) :
    txQueue ((k.loop w).body pl) w ≠ [] := by
  obtain ⟨htest, -, -, -, hwaits⟩ := (Loop.turn_eq_wait _).mp hturn
  have hflush : (flushLoop w).test pl = true → txQueue pl w ≠ [] := fun h hempty => by
    have hlen : 0 < (pl.sockets w).tx.txLen := of_decide_eq_true h
    rw [← Vectoring.length_queue, show (pl.sockets w).tx.queue = [] from hempty] at hlen
    exact Nat.lt_irrefl 0 hlen
  simp only [sendLoops, List.mem_cons, List.not_mem_nil, or_false] at hk
  rcases hk with rfl | rfl | rfl
  · obtain ⟨hrc, hm⟩ := hwf.send pl.mem (pl.sockets w).block.buf (pl.sockets w).block.getUncommitted
      fun h => by rw [heof rfl] at h; exact absurd h.2 (by decide)
    have hleft : 0 < (pl.sendCommit w).uncommitted w := of_decide_eq_true hwaits
    rw [ProcLocal.sendCommit, ProcLocal.uncommitted, blockCommit_self, hrc,
      ProcLocal.setTx_block, Block.commit_natCast] at hleft
    have htx : txQueue ((IoLoop.write.loop w).body pl) w = ((pl.sockets w).tx.send pl.mem
        (pl.sockets w).block.buf (pl.sockets w).block.getUncommitted).1.queue := by
      show ((pl.sendCommit w).sockets w).tx.queue = _
      rw [ProcLocal.sendCommit, blockCommit_self, ProcLocal.setTx_tx_self]
    have hpos := hwf.bufLen_pos
    have hle := hwf.txLen_le
    intro hempty
    have hlen := congrArg List.length (hm.queue.symm.trans (htx.symm.trans hempty))
    rw [List.length_append, Vectoring.length_queue, Memory.length_load, List.length_nil] at hlen
    simp only [Block.getUncommitted, Vectoring.rxLen] at hleft hlen
    omega
  · exact hflush htest
  · exact hflush htest

theorem AttendedPipe.unsent_step (h : AttendedPipe tw w tr r m) (hc : Attends tw w tr r a m)
    (hstep : Machine.step a m = some m') (hs : Sending tw w m') : txQueue m'.pl w ≠ [] := by
  rcases hs.pos with ⟨k, hk, hpos⟩ | ⟨-, hq⟩
  · rcases h.writer.sleeps_step hc.writer hstep hs.status hpos with
      ⟨hwait, hpos', hused, hasleep⟩ | ⟨-, hpos', hturn, hpl⟩
    · rw [(kept_step h.joined hc.handsOver hstep).1 hused hasleep]
      exact h.unsent ⟨hwait, Or.inl ⟨k, hk, hpos'⟩⟩
    · have hunsent := unsent_of_wait (h.joined.wf w).2 hk (fun hk => h.writes (hk ▸ hpos')) hturn
      rw [hpl, txQueue, Machine.waitOn_self]
      exact hunsent
  · exact hq

/-- A loop that receives waits with its ring empty. -/
theorem drained_of_wait {pl : ProcLocal} {k : IoLoop} (hwf : (pl.sockets r).rx.Wf)
    (hk : k ∈ receiveLoops) (honce : k = .pollread → pl.uncommitted r ≤ 1)
    (hturn : (k.loop r).turn pl = .wait ((k.loop r).body pl)) :
    rxQueue ((k.loop r).body pl) r = [] := by
  simp only [receiveLoops, List.mem_cons, List.not_mem_nil, or_false] at hk
  rcases hk with rfl | rfl | rfl
  · exact (ProcLocal.read_drains hwf hturn).2
  · exact (ProcLocal.readline_drains hwf hturn).2
  · exact (ProcLocal.pollread_drains hwf (honce rfl) hturn).2

theorem AttendedPipe.drained_step (h : AttendedPipe tw w tr r m) (hc : Attends tw w tr r a m)
    (hstep : Machine.step a m = some m') (hs : Receiving tr r m') : rxQueue m'.pl r = [] := by
  rcases hs.pos with ⟨k, hk, hpos⟩ | ⟨-, hq⟩
  · rcases h.reader.sleeps_step hc.reader hstep hs.status hpos with
      ⟨hwait, hpos', hused, hasleep⟩ | ⟨-, hpos', hturn, hpl⟩
    · rw [(kept_step h.joined hc.handsOver hstep).2 hused hasleep]
      exact h.drained ⟨hwait, Or.inl ⟨k, hk, hpos'⟩⟩
    · have hdrained := drained_of_wait (h.joined.wf r).1 hk (fun hk => h.once (hk ▸ hpos')) hturn
      rw [hpl, rxQueue, Machine.waitOn_self]
      exact hdrained
  · exact hq

/-- Nobody is in a write with EOF marked: a write is refused there, and no one else
marks it. -/
theorem AttendedPipe.writes_step (h : AttendedPipe tw w tr r m) (hc : Attends tw w tr r a m)
    (hstep : Machine.step a m = some m') (hpos : m'.pos tw = some (.write, w)) :
    (m'.pl.sockets w).tx.eof = false := by
  rw [← Bool.not_eq_true]
  intro heof
  have hbefore : m.pos tw ≠ some (.write, w) := fun hpos' => by
    rcases eof_step h.joined h.noReadhup hstep heof with hmarked | ⟨t, -, -, hflush⟩ | ⟨hclose, -⟩
    · rw [h.writes hpos'] at hmarked
      cases hmarked
    · rw [h.writer.alone t _ hflush, hpos'] at hflush
      cases hflush
    · have hop : (m.pl.sockets w).block.op = .write := h.writer.admits _ hpos'
      rw [hop] at hclose
      cases hclose
  rcases Machine.pos_step hstep tw with hsame | ⟨hst, hnone | ⟨b, -, -, hhup⟩ | ⟨c, rfl, hp, -, hcall⟩⟩
  · exact hbefore (hsame.symm.trans hpos)
  · rw [hnone] at hpos
    cases hpos
  · rw [hhup] at hpos
    cases hpos
  · cases Machine.stepped hstep with
    | co u hst' _ m' hco =>
        rw [hst] at hst'
        cases hst'
        cases Machine.coStepped hco with
        | call _ _ _ =>
            rw [hcall] at hpos
            obtain ⟨b, buf, len, rfl⟩ : ∃ b buf len, c = .write b buf len := by
              cases c <;> simp_all [IoCall.first]
            cases hpos
            by_cases hguard : (m.pl.sockets b).eofTx = true
            · rw [Machine.call, IoCall.refused, if_pos hguard] at hcall
              dsimp only at hcall
              rw [Machine.raise_pos, if_pos rfl] at hcall
              cases hcall
            · rw [Machine.call, IoCall.refused, if_neg hguard] at heof
              refine hguard (Eq.trans ?_ heof)
              show _ = ((m.pl.blockInit b buf len .write).sockets b).tx.eof
              rw [ProcLocal.blockInit, updBlock_self]
              rfl

theorem Sending.loop (h : Sending t w m) :
    ∃ k, (k ∈ sendLoops ∨ k = .forward) ∧ m.pos t = some (k, w) := by
  rcases h.pos with ⟨k, hk, hpos⟩ | ⟨hpos, -⟩
  · exact ⟨k, Or.inl hk, hpos⟩
  · exact ⟨.forward, Or.inr rfl, hpos⟩

theorem Receiving.loop (h : Receiving t r m) :
    ∃ k, (k ∈ receiveLoops ∨ k = .forward) ∧ m.pos t = some (k, r) := by
  rcases h.pos with ⟨k, hk, hpos⟩ | ⟨hpos, -⟩
  · exact ⟨k, Or.inl hk, hpos⟩
  · exact ⟨.forward, Or.inr rfl, hpos⟩

/-- A thread on its way back has the operation it waits for applied. -/
theorem Returning.unblocks (h : Returning t s m) (hwait : (m.pl.threads t).status = .wait)
    (hstep : Machine.step a m = some m') : ∃ os, a = .unblock os ∧
      m'.pl = (({ m.pl with runningCr := none } : ProcLocal).socketHandler s os).pl := by
  cases Machine.stepped hstep with
  | unblock u hst os =>
      rw [h.stage] at hst
      cases hst
      exact ⟨os, rfl, ProcLocal.afterCall_of_wait hwait h.waiting⟩
  | start hst | play hst | answer hst | retry hst | exec _ hst | co _ hst =>
      rw [h.stage] at hst
      cases hst

/-- Where the writer is on its way back and the reader waits, both are readied. -/
theorem AttendedPipe.roused_writer (h : AttendedPipe tw w tr r m) (hc : Attends tw w tr r a m)
    (hstep : Machine.step a m = some m') (hreturn : Returning tw w m) (hsend : Sending tw w m)
    (hrx : rxQueue m.pl r = []) : Roused w r m'.pl := by
  obtain ⟨k, hk, hpos⟩ := hsend.loop
  obtain ⟨os, rfl, hpl⟩ := hreturn.unblocks hsend.status hstep
  have hclear : Still w r m.pl { m.pl with runningCr := none } := still_of_eq h.joined rfl
  rw [hpl]
  refine ProcLocal.roused_writer hclear.joined hrx (h.unsent hsend)
    (sendLoops_admits hk (h.writer.admits k hpos)) fun hop => ?_
  have hover := hc.handsOver (by
    simp [Machine.forwards, show (m.pl.sockets w).block.op = .forward from hop, Machine.handlerOf,
      hreturn.stage, hsend.status, hreturn.waiting])
  refine ⟨fun b href => ?_, fun fd href => ?_⟩
  · rw [show (m.pl.sockets w).rxFd.ref = .vkRx b from href] at hover
    exact hover
  · rw [show (m.pl.sockets w).rxFd.ref = .osFd fd from href] at hover
    exact hover

theorem AttendedPipe.roused_reader (h : AttendedPipe tw w tr r m) (hstep : Machine.step a m = some m')
    (hreturn : Returning tr r m) (hreceive : Receiving tr r m) (htx : txQueue m.pl w ≠ []) :
    Roused w r m'.pl := by
  obtain ⟨k, hk, hpos⟩ := hreceive.loop
  obtain ⟨os, rfl, hpl⟩ := hreturn.unblocks hreceive.status hstep
  have hclear : Still w r m.pl { m.pl with runningCr := none } := still_of_eq h.joined rfl
  rw [hpl]
  exact ProcLocal.roused_reader hclear.joined (h.drained hreceive) htx
    (receiveLoops_admits hk (h.reader.admits k hpos))

theorem AttendedPipe.returning_step (h : AttendedPipe tw w tr r m) (hc : Attends tw w tr r a m)
    (hstep : Machine.step a m = some m') (hsend : Sending tw w m') (hreceive : Receiving tr r m') :
    Returning tw w m' ∨ Returning tr r m' := by
  obtain ⟨k, hk, hpos⟩ := hsend.loop
  obtain ⟨l, hl, hpos'⟩ := hreceive.loop
  rcases h.writer.sleeps_step hc.writer hstep hsend.status hpos with
    ⟨hwait, hbefore, hused, hasleep⟩ | ⟨hreturn, -⟩
  · rcases h.reader.sleeps_step hc.reader hstep hreceive.status hpos' with
      ⟨hwait', hbefore', hused', hasleep'⟩ | ⟨hreturn, -⟩
    · -- both have waited before, one of them on its way back: so both have been readied
      exfalso
      obtain ⟨hkept, hkept'⟩ := kept_step h.joined hc.handsOver hstep
      have htx : txQueue m.pl w ≠ [] := by
        rw [← hkept hused hasleep]
        exact h.unsent_step hc hstep hsend
      have hrx : rxQueue m.pl r = [] := by
        rw [← hkept' hused' hasleep']
        exact h.drained_step hc hstep hreceive
      have hsend₀ : Sending tw w m := ⟨hwait, by
        rcases hk with hk | rfl
        · exact Or.inl ⟨k, hk, hbefore⟩
        · exact Or.inr ⟨hbefore, htx⟩⟩
      have hreceive₀ : Receiving tr r m := ⟨hwait', by
        rcases hl with hl | rfl
        · exact Or.inl ⟨l, hl, hbefore'⟩
        · exact Or.inr ⟨hbefore', hrx⟩⟩
      rcases h.returning hsend₀ hreceive₀ with hreturn | hreturn
      · exact (h.roused_writer hc hstep hreturn hsend₀ hrx).1 hasleep
      · exact (h.roused_reader hstep hreturn hreceive₀ htx).1 hasleep
    · exact Or.inr hreturn
  · exact Or.inl hreturn

/-- A step keeps a pipe attended. -/
theorem AttendedPipe.step (h : AttendedPipe tw w tr r m) (hc : Attends tw w tr r a m)
    (hstep : Machine.step a m = some m') : AttendedPipe tw w tr r m' := by
  obtain ⟨n, hn⟩ := shows_step h.joined hstep
  exact ⟨hn.joined, h.writer.step hc.writer hstep, h.reader.step hc.reader hstep,
    noReadhup_step h.noReadhup hstep, h.writes_step hc hstep,
    h.reader.once_step h.once hc.reader hstep, h.unsent_step hc hstep, h.drained_step hc hstep,
    h.returning_step hc hstep⟩

end Ends

/-- In no run of two coroutines at the ends of a pipe does the one wait to send while
the other waits to receive, unless one of them is on its way back to be unblocked. -/
theorem pipe_not_stuck {tw tr w r : Nat} {as : List Act} {m m' : Machine}
    (h : AttendedPipe tw w tr r m) (hc : Meets Machine.step (Attends tw w tr r) as m)
    (hrun : run Machine.step as m = some m') (hback : ∀ t, m'.stage ≠ .back t) :
    ¬(Sending tw w m' ∧ Receiving tr r m') := by
  have h' : AttendedPipe tw w tr r m' := run_of_meets (fun _ _ _ h hc hstep => h.step hc hstep) h hc hrun
  rintro ⟨hsend, hreceive⟩
  rcases h'.returning hsend hreceive with hreturn | hreturn
  · exact hback tw hreturn.stage
  · exact hback tr hreturn.stage

theorem attendedPipe_of_free {tw tr w r : Nat} {m : Machine} (hj : Joined m.pl w r)
    (hnr : ∀ s, (m.pl.sockets s).block.op ≠ .readhup) (hpos : ∀ t, m.pos t = none)
    (hst : m.stage = .kernel) : AttendedPipe tw w tr r m := by
  have hnone : ∀ {t : Nat} {p : IoLoop × Nat}, m.pos t ≠ some p := fun {t p} h => by
    rw [hpos] at h
    cases h
  have howned : ∀ t s, Owned t s m := fun t s =>
    ⟨fun u k h => absurd h hnone, fun k h => absurd h hnone, fun k h => absurd h hnone,
      fun u h => by rw [hst] at h; cases h⟩
  have hsend : ¬Sending tw w m := fun h => by
    obtain ⟨k, -, hk⟩ := h.loop
    exact hnone hk
  exact ⟨hj, howned tw w, howned tr r, hnr, fun h => absurd h hnone, fun h => absurd h hnone,
    fun h => absurd h hsend, fun h => by
      obtain ⟨k, -, hk⟩ := h.loop
      exact absurd hk hnone, fun h => absurd h hsend⟩

/-! ## Stages in a row -/

/-- Where each of a row is on the one side or the other, and none on the second is
followed by one on the first, the row changes sides once. -/
theorem split_of_isChain {α : Type} {P Q : α → Prop} :
    ∀ {l : List α}, l.IsChain (fun x y => ¬(Q x ∧ P y)) → (∀ x ∈ l, P x ∨ Q x) →
      ∃ front back, l = front ++ back ∧ (∀ x ∈ front, P x) ∧ ∀ x ∈ back, Q x
  | [], _, _ => ⟨[], [], rfl, by simp, by simp⟩
  | [x], _, h => by
      rcases h x (List.mem_singleton_self x) with hx | hx
      · exact ⟨[x], [], rfl, by simpa using hx, by simp⟩
      · exact ⟨[], [x], rfl, by simp, by simpa using hx⟩
  | x :: y :: l, hchain, h => by
      rw [List.isChain_cons_cons] at hchain
      obtain ⟨front, back, heq, hfront, hback⟩ :=
        split_of_isChain hchain.2 fun z hz => h z (List.mem_cons_of_mem x hz)
      rcases h x List.mem_cons_self with hx | hx
      · refine ⟨x :: front, back, by rw [heq]; rfl, fun z hz => ?_, hback⟩
        rcases List.mem_cons.mp hz with rfl | hz
        · exact hx
        · exact hfront z hz
      · -- the next one cannot be on the first side, so the front is empty
        cases front with
        | nil =>
            refine ⟨[], x :: back, by rw [heq]; rfl, by simp, fun z hz => ?_⟩
            rcases List.mem_cons.mp hz with rfl | hz
            · exact hx
            · exact hback z hz
        | cons z front =>
            cases heq
            exact absurd ⟨hx, hfront y List.mem_cons_self⟩ hchain.1

/-- Coroutines in a row, each with its socket, and a pipe from each to the next.  When
they all wait, and none is on its way back, then some first ones wait to receive and
all the others wait to send: the row waits for its two ends, never for itself. -/
theorem stages_split {stages : List (Nat × Nat)} {as : List Act} {m m' : Machine}
    (h : stages.IsChain fun p q => AttendedPipe p.1 p.2 q.1 q.2 m)
    (hc : Meets Machine.step (fun a m => stages.IsChain fun p q => Attends p.1 p.2 q.1 q.2 a m) as m)
    (hrun : run Machine.step as m = some m') (hback : ∀ t, m'.stage ≠ .back t)
    (hwait : ∀ p ∈ stages, Receiving p.1 p.2 m' ∨ Sending p.1 p.2 m') :
    ∃ front back, stages = front ++ back ∧ (∀ p ∈ front, Receiving p.1 p.2 m') ∧
      ∀ p ∈ back, Sending p.1 p.2 m' := by
  have h' : stages.IsChain fun p q => AttendedPipe p.1 p.2 q.1 q.2 m' := by
    refine run_of_meets (I := fun m => stages.IsChain fun p q => AttendedPipe p.1 p.2 q.1 q.2 m)
      (fun a s s' h hc hstep => ?_) h hc hrun
    rw [List.isChain_iff_getElem] at h hc ⊢
    exact fun i hi => (h i hi).step (hc i hi) hstep
  refine split_of_isChain (h'.imp fun p q hpq hboth => ?_) hwait
  rcases hpq.returning hboth.1 hboth.2 with hreturn | hreturn
  · exact hback _ hreturn.stage
  · exact hback _ hreturn.stage

/-! ## A narrow pipeline -/

/-- A pipeline whose rings hold two bytes. -/
def narrowPipeline : Machine where
  pl := { pipeline.pl with
    sockets := fun s => { pipeline.pl.sockets s with
      rx := Vectoring.cleared.init (fun _ => 0) 2
      tx := Vectoring.cleared.init (fun _ => 0) 2 } }
  pos := fun _ => none
  stage := .kernel

theorem joined_narrowPipeline : Joined narrowPipeline.pl 0 1 where
  txRef := rfl
  rxRef := rfl
  onlyReader s h := joined_pipeline.onlyReader s h
  onlyWriter s h := joined_pipeline.onlyWriter s h
  ne := by decide
  wf s := ⟨Vectoring.wf_init _ _ (by decide), Vectoring.wf_init _ _ (by decide)⟩

theorem attendedPipe_narrow : AttendedPipe 0 0 1 1 narrowPipeline :=
  attendedPipe_of_free joined_narrowPipeline (fun s h => by cases h) (fun t => rfl) rfl

instance (t w : Nat) (m : Machine) : Decidable (Sending t w m) :=
  decidable_of_iff ((m.pl.threads t).status = .wait ∧
      ((∃ k ∈ sendLoops, m.pos t = some (k, w)) ∨
        m.pos t = some (.forward, w) ∧ txQueue m.pl w ≠ []))
    ⟨fun h => ⟨h.1, h.2⟩, fun h => ⟨h.status, h.pos⟩⟩

instance (t r : Nat) (m : Machine) : Decidable (Receiving t r m) :=
  decidable_of_iff ((m.pl.threads t).status = .wait ∧
      ((∃ k ∈ receiveLoops, m.pos t = some (k, r)) ∨
        m.pos t = some (.forward, r) ∧ rxQueue m.pl r = []))
    ⟨fun h => ⟨h.1, h.2⟩, fun h => ⟨h.status, h.pos⟩⟩

instance (tw w tr r : Nat) (a : Act) (m : Machine) : Decidable (Attends tw w tr r a m) :=
  decidable_of_iff (UsedBy tw w a m ∧ UsedBy tr r a m ∧ HandsOverAt w r a m)
    ⟨fun h => ⟨h.1, h.2.1, h.2.2⟩, fun h => ⟨h.writer, h.reader, h.handsOver⟩⟩

/-- The reader waits for four bytes; then the writer writes eight, as the pipe has room. -/
def readThenWrite : List Act :=
  [.play 0, .play 1, .start, .exec, .exec,
    .co (.call (.read 1 8 4)), .co .turn, .unblock wouldBlock, .exec, .exec, .exec,
    .co (.call (.write 0 0 8)), .co .turn, .unblock wouldBlock]

theorem pipe_not_stuck_narrowPipeline : ∃ m', run Machine.step readThenWrite narrowPipeline = some m' ∧
    ¬(Sending 0 0 m' ∧ Receiving 1 1 m') := by
  obtain ⟨m', hm', hst⟩ := (Option.any_eq_true _ _).mp
    (by decide : (run Machine.step readThenWrite narrowPipeline).any
      (fun m => decide (m.stage = .exec (.loop 0))) = true)
  have hc : Meets Machine.step (Attends 0 0 1 1) readThenWrite narrowPipeline := by decide
  exact ⟨m', hm', pipe_not_stuck attendedPipe_narrow hc hm' fun t h => by
    rw [of_decide_eq_true hst] at h
    cases h⟩

/-- The first stage waits for its source, and the second for its sink. -/
def readAndWrite : List Act :=
  [.play 0, .play 1, .start, .exec, .exec,
    .co (.call (.write 1 8 4)), .co .turn, .unblock wouldBlock, .exec, .exec, .exec,
    .co (.call (.read 0 0 4)), .co .turn, .unblock wouldBlock, .exec]

theorem stages_split_narrowPipeline : ∃ m', run Machine.step readAndWrite narrowPipeline = some m' ∧
    ∃ front back, [(0, 0), (1, 1)] = front ++ back ∧ (∀ p ∈ front, Receiving p.1 p.2 m') ∧
      ∀ p ∈ back, Sending p.1 p.2 m' := by
  obtain ⟨m', hm', hends⟩ := (Option.any_eq_true _ _).mp
    (by decide +kernel : (run Machine.step readAndWrite narrowPipeline).any
      (fun m => decide (m.stage = .exec .pick ∧ Receiving 0 0 m ∧ Sending 1 1 m)) = true)
  obtain ⟨hst, hreceive, hsend⟩ := of_decide_eq_true hends
  have hc : Meets Machine.step (Attends 0 0 1 1) readAndWrite narrowPipeline := by decide +kernel
  refine ⟨m', hm', stages_split (by simpa using attendedPipe_narrow)
    (hc.mono fun a m h => by simpa using h) hm' (fun t h => by rw [hst] at h; cases h) fun p hp => ?_⟩
  rcases List.mem_pair.mp hp with rfl | rfl
  · exact Or.inl hreceive
  · exact Or.inr hsend

/-- The reader waits for four bytes; then the writer writes two, and forwards from a
descriptor that has two at a time, until nobody is to run. -/
def readThenForward : List Act :=
  [.play 0, .play 1, .start, .exec, .exec,
    .co (.call (.read 1 8 4)), .co .turn, .unblock wouldBlock, .exec, .exec, .exec,
    .co (.call (.write 0 0 2)), .co .turn, .co .turn, .co (.call (.forward 0 8)), .co .turn,
    .unblock (readable [97, 98]), .exec, .co .turn, .unblock (readable [99, 100]), .exec,
    .co .turn, .unblock (readable []), .exec, .exec]

/-- The forward has filled the ring of the reader, which waits for bytes all the same,
and nothing is to run. -/
theorem forward_strands_pipe : ¬∀ (tw tr w r : Nat) (as : List Act) (m m' : Machine),
    AttendedPipe tw w tr r m → Meets Machine.step (fun a m => UsedBy tw w a m ∧ UsedBy tr r a m) as m →
      run Machine.step as m = some m' → m'.idle = true ∧ m'.pl.runQ = [] →
        ¬(Sending tw w m' ∧ Receiving tr r m') := by
  intro hall
  obtain ⟨m', hm', hstuck⟩ := (Option.any_eq_true _ _).mp
    (by decide +kernel : (run Machine.step readThenForward narrowPipeline).any
      (fun m => decide ((m.idle = true ∧ m.pl.runQ = []) ∧ Sending 0 0 m ∧ Receiving 1 1 m)) = true)
  have hby : Meets Machine.step (fun a m => UsedBy 0 0 a m ∧ UsedBy 1 1 a m) readThenForward
      narrowPipeline := by decide +kernel
  obtain ⟨hidle, hboth⟩ := of_decide_eq_true hstuck
  exact hall 0 1 0 1 readThenForward narrowPipeline m' attendedPipe_narrow hby hm' hidle hboth

end Vk

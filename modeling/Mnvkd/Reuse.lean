/-
# `Mnvkd.Reuse` — a thread in memory that was used before

A process of a pool is given the heap of one that has ended, and a micro-heap
gives out again what was popped from it; neither is cleared.  `vk_init` assigns a
thread, its socket, and the socket's rings, pipes, block and futures field by
field, over what an earlier connection left there; the memory that the coroutine
then takes for itself it does not touch.

Two runs over different contents cannot be told apart where what an operation
reads is the same in both.  They then differ in bytes that no ring holds, in what
is left of the memory they began with, and in fields that nothing reads, and every
operation keeps that (`Machine.Alike`): it reads of a ring's buffer what is queued,
and what it stores there or in memory it stores in both.

    closed     not assigned by `vk_vectoring_init`, and read by
               `vk_socket_handle_block`, which tells the block's futures
    error      not assigned by `VK_SOCKET_INIT`, and read by nothing
    memory     read by `vk_write`, and by the exit tests of `vk_readline`, which
               look for a newline where nothing was stored

So initialising hides what was there exactly where the two flags were the same and
memory was (`init_hides`); and of memory only the newlines count, as long as
coroutines write no bytes but those they have.
-/
import Mnvkd.HandlerAlike
import Mnvkd.MachineFrame
import Mnvkd.ReadlineStream

namespace Vk

open Lib Errno

open Vectoring (newline)

/-- What two memories are to each other they stay when the same is stored in both. -/
structure Steady (M : Memory UInt8 → Memory UInt8 → Prop) : Prop where
  refl : ∀ mem, M mem mem
  store : ∀ mem mem' a bs, M mem mem' → M (mem.store a bs) (mem'.store a bs)

namespace ProcLocal
variable {pl pl' : ProcLocal} {M : Memory UInt8 → Memory UInt8 → Prop}

/-! ## The loops -/

/-- What `vk_write` is to take from memory yet. -/
def unwritten (pl : ProcLocal) (s : Nat) : List UInt8 :=
  pl.mem.load (pl.sockets s).block.buf (pl.uncommitted s)

/-- Whether the exit tests of `vk_readline` look at a newline, at the top of its loop and
behind its body. -/
def sees (pl : ProcLocal) (s : Nat) : Bool × Bool :=
  (lastCommitted pl s == newline, lastCommitted ((readlineLoop s).body pl) s == newline)

section Loops
variable (hM : Steady M) (h : pl.Alike M pl')
include h

include hM in
theorem UpTo.recvCommit (s : Nat) : (pl.recvCommit s).Alike M (pl'.recvCommit s) := by
  have hs := h.socket s
  obtain ⟨hring, hrc, hdst, hdst'⟩ := hs.rx.recv pl.mem pl'.mem (pl.sockets s).block.buf
    (pl.sockets s).block.getUncommitted
  unfold ProcLocal.recvCommit ProcLocal.blockCommit
  dsimp only
  rw [hs.block, hrc, hdst, hdst']
  exact ((h.setMem (hM.store _ _ _ _ h.mem)).setRx s hring).updBlock s _

/-- A turn of `vk_write` takes the same bytes where what it is to take is the same. -/
theorem UpTo.sendCommit (s : Nat) (hsame : pl'.unwritten s = pl.unwritten s) :
    (pl.sendCommit s).Alike M (pl'.sendCommit s) := by
  have hs := h.socket s
  obtain ⟨hring, hrc⟩ := hs.tx.send pl.mem (pl.sockets s).block.buf
    (pl.sockets s).block.getUncommitted
  unfold ProcLocal.unwritten ProcLocal.uncommitted at hsame
  rw [hs.block] at hsame
  unfold ProcLocal.sendCommit ProcLocal.blockCommit
  dsimp only
  rw [hs.block, Vectoring.send_congr hsame, hrc]
  exact (h.setTx s hring).updBlock s _

theorem UpTo.forwardCommit (s : Nat) : (pl.forwardCommit s).Alike M (pl'.forwardCommit s) := by
  have hs := h.socket s
  have hsplice := hs.tx.splice hs.rx (ssize (pl.sockets s).block.getUncommitted) pl.errno
  unfold ProcLocal.forwardCommit ProcLocal.blockCommit
  dsimp only
  rw [hs.block, h.errno, hsplice.rc, hsplice.errno]
  exact (((h.setRx s hsplice.tx).setTx s hsplice.rx).setErrno _).updBlock s _

theorem UpTo.waitOn (t s : Nat) : (pl.waitOn t s).Alike M (pl'.waitOn t s) :=
  (h.updThread t fun that => { that with waitingSocketPtr := some s, status := .wait }).updBlock s
    fun block => { block with blockedVk := t }

theorem UpTo.uncommitted (s : Nat) : pl'.uncommitted s = pl.uncommitted s :=
  congrArg Block.getUncommitted (h.socket s).block

theorem UpTo.committed (s : Nat) : pl'.committed s = pl.committed s :=
  congrArg Block.getCommitted (h.socket s).block

theorem UpTo.commitFailed (s : Nat) : pl'.commitFailed s = pl.commitFailed s := by
  unfold ProcLocal.commitFailed
  rw [(h.socket s).block]


theorem UpTo.requestLine (s : Nat) : (requestLine pl s).Alike M (requestLine pl' s) := by
  have hrequest : (fun block : Block =>
        block.setUncommitted ((pl'.sockets s).rx.txLineRequest block.getUncommitted))
      = fun block =>
        block.setUncommitted ((pl.sockets s).rx.txLineRequest block.getUncommitted) := by
    funext block
    rw [(h.socket s).rx.txLineRequest]
  unfold Vk.requestLine
  rw [hrequest]
  exact h.updBlock s _

include hM in
/-- Every loop goes the same way in alike processes, if what it reads from memory is the
same. -/
theorem UpTo.turnLoop (k : IoLoop) (s : Nat)
    (hwrite : k = .write → pl'.unwritten s = pl.unwritten s)
    (hline : k = .readline → pl'.sees s = pl.sees s) :
    ((k.loop s).turn pl).Rel (ProcLocal.Alike M) ((k.loop s).turn pl') := by
  cases k with
  | read =>
      have hbody := h.recvCommit hM s
      refine Loop.turn_rel h hbody ?_ (hbody.commitFailed s) (hbody.pollhup s) ?_
      · simp only [IoLoop.loop, readLoop, h.pollhup, h.uncommitted]
      · simp only [IoLoop.loop, readLoop, hbody.uncommitted]
  | readline =>
      have hbody := (h.requestLine s).recvCommit hM s
      refine Loop.turn_rel h hbody ?_ (hbody.commitFailed s) (hbody.pollhup s) ?_
      · obtain ⟨htop, -⟩ := Prod.mk.inj (hline rfl)
        simp only [IoLoop.loop, readlineLoop, h.pollhup, h.uncommitted, h.committed, bne]
        exact congrArg (fun b => _ && (_ || !b)) htop
      · obtain ⟨-, hbehind⟩ := Prod.mk.inj (hline rfl)
        have huncommitted := hbody.uncommitted s
        simp only [IoLoop.loop, readlineLoop, huncommitted, bne]
        exact congrArg (fun b => decide (_ > 0) && !b) hbehind
  | pollread =>
      have hbody : ((pollreadLoop s).body pl).Alike M ((pollreadLoop s).body pl') := by
        simp only [pollreadLoop, Socket.empty, (h.socket s).rx.agrees.isEmpty]
        exact h.updBlock s _
      refine Loop.turn_rel h hbody ?_ (hbody.commitFailed s) (hbody.pollhup s) ?_
      · simp only [IoLoop.loop, pollreadLoop, h.pollhup, h.uncommitted]
      · exact congrArg (fun n => decide (n > 0)) (hbody.uncommitted s)
  | write =>
      have hbody := h.sendCommit s (hwrite rfl)
      refine Loop.turn_rel h hbody ?_ (hbody.commitFailed s) rfl ?_
      · simp only [IoLoop.loop, writeLoop, h.uncommitted]
      · simp only [IoLoop.loop, writeLoop, hbody.uncommitted]
  | flush | hupFlush =>
      refine Loop.turn_rel h h ?_ rfl rfl rfl
      simp only [IoLoop.loop, flushLoop, (h.socket s).tx.agrees.txLen]
  | forward =>
      have hbody := h.forwardCommit s
      refine Loop.turn_rel h hbody ?_ (hbody.commitFailed s) rfl ?_
      · simp only [IoLoop.loop, forwardLoop, h.pollhup, h.uncommitted]
      · simp only [IoLoop.loop, forwardLoop, hbody.pollhup, hbody.uncommitted]
  | hup =>
      have hbody : ((hupLoop s).body pl).Alike M ((hupLoop s).body pl') := by
        simp only [hupLoop, Socket.eofTx, (h.socket s).tx.agrees.eof]
        exact h.updBlock s _
      refine Loop.turn_rel h hbody ?_ (hbody.commitFailed s) rfl ?_
      · simp only [IoLoop.loop, hupLoop, h.uncommitted]
      · exact congrArg (fun n => decide (n > 0)) (hbody.uncommitted s)
  | once =>
      have hbody := h.updBlock s fun block => block.setUncommitted 0
      refine Loop.turn_rel h hbody ?_ rfl rfl rfl
      simp only [IoLoop.loop, onceLoop, h.uncommitted]

/-- An operation begins. -/
theorem UpTo.enter (c : IoCall) : (c.enter pl).Alike M (c.enter pl') := by
  cases c with
  | read s buf len => exact h.updBlock s fun block => block.init buf len .read
  | readline s buf len => exact h.updBlock s fun block => block.init buf len .read
  | pollread s => exact h.updBlock s fun block => block.init 0 1 .read
  | write s buf len => exact h.updBlock s fun block => block.init buf len .write
  | flush s => exact h.updBlock s fun block => block.init 0 0 .flush
  | forward s len => exact h.updBlock s fun block => block.init 0 len .forward
  | hup s => exact h.updBlock s fun block => block.init 0 0 .flush
  | once s op =>
      have hqueued : (if op = .readable ∨ op = .writable then pl.enqueueBlocked s else pl).Alike M
          (if op = .readable ∨ op = .writable then pl'.enqueueBlocked s else pl') := by
        split
        · exact h.enqueueBlocked s
        · exact h
      exact hqueued.updBlock s fun block => block.init 0 1 op

theorem UpTo.refused (c : IoCall) : c.refused pl' = c.refused pl := by
  cases c with
  | write s buf len =>
      unfold IoCall.refused Socket.eofTx
      dsimp only
      rw [(h.socket s).tx.agrees.eof]
  | _ => rfl

end Loops

/-! ## The executor -/

section Executor
variable (h : pl.Alike M pl')
include h

theorem UpTo.pickRun :
    pl.pickRun.pl.Alike M pl'.pickRun.pl ∧ pl'.pickRun.phase = pl.pickRun.phase := by
  unfold ProcLocal.pickRun dequeueRun
  rw [h.runQ]
  cases pl.runQ with
  | nil => exact ⟨h, rfl⟩
  | cons t rest =>
      refine ⟨?_, rfl⟩
      exact (h.apart
        (fun pl => { pl with run := if rest.isEmpty then false else pl.run, runQ := rest })
        (fun _ _ => rfl) rfl rfl).updThread t fun that => { that with runEnq := false }

theorem UpTo.setRunningCr (t : Option Nat) :
    UpTo Vectoring.Alike M { pl with runningCr := t } { pl' with runningCr := t } :=
  h.apart (fun pl => { pl with runningCr := t }) (fun _ _ => rfl) rfl rfl

theorem UpTo.afterCall (t : Nat) (os : Os) :
    (pl.afterCall t os).pl.Alike M (pl'.afterCall t os).pl ∧
      (pl'.afterCall t os).phase = (pl.afterCall t os).phase := by
  have hthat : pl'.threads t = pl.threads t := congrFun h.threads t
  have hback := h.setRunningCr none
  have hdrop := hback.dropBlockedFor t
  have hunblock := hback.unblock t os
  have henq : (ProcLocal.dropBlockedFor { pl' with runningCr := none } t).threads t
      = (ProcLocal.dropBlockedFor { pl with runningCr := none } t).threads t :=
    congrFun hdrop.threads t
  unfold ProcLocal.afterCall
  dsimp only
  rw [hthat, henq, hunblock.rc]
  split
  · refine ⟨?_, rfl⟩
    dsimp only
    split
    · exact hdrop.dropRun t
    · exact hdrop
  · exact ⟨hunblock.pl, rfl⟩

theorem UpTo.leaveLoop (t : Nat) :
    (pl.leaveLoop t).pl.Alike M (pl'.leaveLoop t).pl ∧
      (pl'.leaveLoop t).phase = (pl.leaveLoop t).phase := by
  have hthat : pl'.threads t = pl.threads t := congrFun h.threads t
  refine ⟨?_, rfl⟩
  unfold ProcLocal.leaveLoop
  rw [hthat]
  dsimp only
  split
  · exact h.ready t
  · exact h

end Executor

end ProcLocal

/-! ## The machine -/

/-- The machine and another over a process that differs as `R` and `M` have it. -/
inductive Machine.UpTo (R : Vectoring → Vectoring → Prop)
    (M : Memory UInt8 → Memory UInt8 → Prop) (m : Machine) : Machine → Prop where
  | pl (pl : ProcLocal) (h : m.pl.UpTo R M pl) : UpTo R M m { m with pl := pl }

abbrev Machine.Alike (M : Memory UInt8 → Memory UInt8 → Prop) (m m' : Machine) : Prop :=
  Machine.UpTo Vectoring.Alike M m m'

/-- What the turn of a loop reads from memory: the bytes that are to be written yet, or
whether the exit tests of a line look at a newline. -/
inductive Taken where
  | bytes (bs : List UInt8)
  | newlines (tests : Bool × Bool)
  deriving DecidableEq

/-- What the coroutine that runs reads from memory in the loop it is in. -/
def Machine.reads (m : Machine) : Option Taken :=
  match m.stage with
  | .inside t =>
      match m.pos t with
      | some (.write, s) => some (.bytes (m.pl.unwritten s))
      | some (.readline, s) => some (.newlines (m.pl.sees s))
      | _ => none
  | _ => none

namespace Machine
variable {m m' : Machine} {M : Memory UInt8 → Memory UInt8 → Prop}

/-- Machines over alike processes that stand in the same place. -/
theorem alike {pl pl' : ProcLocal} (h : pl.Alike M pl') (pos : Nat → Option (IoLoop × Nat))
    (stage : Stage) : Machine.Alike M ⟨pl, pos, stage⟩ ⟨pl', pos, stage⟩ :=
  .pl (m := ⟨pl, pos, stage⟩) pl' h

theorem UpTo.proc {R : Vectoring → Vectoring → Prop} (h : m.UpTo R M m') :
    m.pl.UpTo R M m'.pl := by
  cases h with
  | pl pl h => exact h

section Steps
variable (hM : Steady M) (h : m.Alike M m')
include h

theorem UpTo.pos : m'.pos = m.pos := by cases h; rfl

theorem UpTo.stage : m'.stage = m.stage := by cases h; rfl

theorem UpTo.setPl {pl pl' : ProcLocal} (hpl : pl.Alike M pl') :
    Machine.Alike M { m with pl := pl } { m' with pl := pl' } := by
  cases h with
  | pl _ _ => exact alike hpl m.pos m.stage

theorem UpTo.setStage (stage : Stage) :
    Machine.Alike M { m with stage := stage } { m' with stage := stage } := by
  cases h with
  | pl pl h => exact alike h m.pos stage

theorem UpTo.goTo {pl pl' : ProcLocal} (hpl : pl.Alike M pl') (stage : Stage) :
    Machine.Alike M { m with pl := pl, stage := stage } { m' with pl := pl', stage := stage } :=
  (h.setPl hpl).setStage stage

theorem UpTo.setPos (t : Nat) (p : Option (IoLoop × Nat)) :
    (m.setPos t p).Alike M (m'.setPos t p) := by
  cases h with
  | pl pl h => exact alike h _ m.stage

theorem UpTo.raise (t : Nat) (e : Errno) : (m.raise t e).Alike M (m'.raise t e) :=
  (h.goTo (h.proc.raiseAt t e) (.back t)).setPos t none

theorem UpTo.leave (t : Nat) (k : IoLoop) (s : Nat) : (m.leave t k s).Alike M (m'.leave t k s) := by
  have hdone := h.setPos t none
  cases k with
  | hupFlush =>
      have hio := (h.proc.socket s).tx.hup m.pl.errno
      have hmarked := (h.proc.setTx s hio.ring).setErrno
        ((m.pl.sockets s).tx.hup m.pl.errno).errno
      unfold Machine.leave
      dsimp only
      rw [h.proc.errno, hio.rc, hio.errno]
      split
      · exact (h.setPl hmarked).raise t _
      · exact (h.setPl (hmarked.updBlock s fun block => block.init 0 1 .hup)).setPos t _
  | _ => exact hdone

include hM in
theorem UpTo.turn (t : Nat) (k : IoLoop) (s : Nat)
    (hwrite : k = .write → m'.pl.unwritten s = m.pl.unwritten s)
    (hline : k = .readline → m'.pl.sees s = m.pl.sees s) :
    (m.turn t k s).Alike M (m'.turn t k s) := by
  have hturn := h.proc.turnLoop hM k s hwrite hline
  unfold Machine.turn
  generalize (k.loop s).turn m.pl = turn at hturn ⊢
  generalize (k.loop s).turn m'.pl = turn' at hturn ⊢
  cases hturn with
  | done hpl => exact (h.setPl hpl).leave t k s
  | again hpl => exact h.setPl hpl
  | wait hpl => exact h.goTo (hpl.waitOn t s) (.back t)
  | raise hpl =>
      dsimp only
      rw [hpl.errno]
      exact (h.setPl hpl).raise t _

theorem UpTo.readhup (t s : Nat) : (m.readhup t s).Alike M (m'.readhup t s) := by
  have hpl := (h.proc.handleReadhup s).pl
  have hio := (hpl.socket s).rx.readhup (m.pl.handleReadhup s).pl.errno
  have hread := (hpl.setRx s hio.ring).setErrno
    (((m.pl.handleReadhup s).pl.sockets s).rx.readhup (m.pl.handleReadhup s).pl.errno).errno
  unfold Machine.readhup
  dsimp only
  rw [h.proc.pollhup, hpl.errno, hio.rc, hio.errno]
  split
  · split
    · exact (h.setPl hread).raise t _
    · exact h.setPl hread
  · exact h.raise t EAGAIN

theorem UpTo.call (t : Nat) (c : IoCall) : (m.call t c).Alike M (m'.call t c) := by
  unfold Machine.call
  rw [h.proc.refused]
  cases c.refused m.pl with
  | none => exact (h.setPl (h.proc.enter c)).setPos t _
  | some e => exact (h.setPl (h.proc.enter c)).raise t e

include hM in
theorem UpTo.co {t : Nat} (hst : m.stage = .inside t) (hsame : m'.reads = m.reads)
    (a : CoAct) : Option.Rel (Machine.Alike M) (m.co t a) (m'.co t a) := by
  have hpos : m'.pos t = m.pos t := congrFun h.pos t
  unfold Machine.co
  rw [hpos]
  cases hat : m.pos t with
  | some at_ =>
      cases a with
      | turn =>
          obtain ⟨k, s⟩ := at_
          simp only [reads, h.stage, hst, hpos, hat] at hsame
          refine .some (h.turn hM t k s (fun hk => ?_) fun hk => ?_)
          · subst hk
            exact Taken.bytes.inj (Option.some.inj hsame)
          · subst hk
            exact Taken.newlines.inj (Option.some.inj hsame)
      | _ => exact .none
  | none =>
      cases a with
      | call c =>
          dsimp only
          split
          · exact .some (h.call t c)
          · exact .none
      | turn => exact .none
      | readhup s => exact .some (h.readhup t s)
      | play u => exact .some (h.setPl (h.proc.enqueueRun u))
      | store mem => exact .some (h.setPl (h.proc.setMem (hM.refl mem)))
      | raise e => exact .some (h.raise t e)
      | stop status =>
          dsimp only
          split
          · exact .none
          · exact .some (h.goTo
              (h.proc.updThread t fun that => { that with status := status }) (.back t))

theorem UpTo.enterThread (t : Nat) : (m.enterThread t).Alike M (m'.enterThread t) := by
  have hrunning := h.proc.setRunningCr (some t)
  have hpos : m'.pos t = m.pos t := congrFun h.pos t
  unfold Machine.enterThread
  dsimp only
  rw [hpos]
  cases m.pos t with
  | none => exact h.goTo hrunning (.inside t)
  | some at_ =>
      exact h.goTo
        (hrunning.updThread t fun that => { that with waitingSocketPtr := none }) (.inside t)

theorem UpTo.execute (phase : Phase) : (m.execute phase).Alike M (m'.execute phase) := by
  cases phase with
  | pick =>
      obtain ⟨hpl, hphase⟩ := h.proc.pickRun
      unfold Machine.execute
      dsimp only
      rw [hphase]
      exact h.goTo hpl _
  | loop t =>
      have hthat : m'.pl.threads t = m.pl.threads t := congrFun h.proc.threads t
      obtain ⟨hpl, hphase⟩ := h.proc.leaveLoop t
      unfold Machine.execute
      dsimp only
      rw [hthat, hphase]
      split
      · exact h.enterThread t
      · exact h.goTo hpl _
  | returned rc => exact h.setStage .kernel

theorem UpTo.answer (s : Nat) (rx tx : Pollfd) : (m.answer s rx tx).Alike M (m'.answer s rx tx) :=
  h.setPl (h.proc.updBlock s _)

include hM in
/-- Alike machines take the same steps, and stay alike, if what they read from memory is
the same. -/
theorem UpTo.step (hsame : m'.reads = m.reads) (a : Act) :
    Option.Rel (Machine.Alike M) (Machine.step a m) (Machine.step a m') := by
  unfold Machine.step
  rw [h.stage]
  cases hst : m.stage with
  | kernel =>
      cases a with
      | start => exact .some (h.setStage (.exec .pick))
      | play t => exact .some (h.goTo (h.proc.enqueueRun t) .kernel)
      | answer s rx tx =>
          dsimp only
          rw [h.proc.blockedQ]
          split
          · exact .some (h.answer s rx tx)
          · exact .none
      | retry s os =>
          dsimp only
          rw [h.proc.blockedQ]
          split
          · exact .some (h.goTo (h.proc.retrySocket s os).pl .kernel)
          · exact .none
      | _ => exact .none
  | exec phase =>
      cases a with
      | exec => exact .some (h.execute phase)
      | _ => exact .none
  | inside t =>
      cases a with
      | co a => exact h.co hM hst hsame a
      | _ => exact .none
  | back t =>
      cases a with
      | unblock os =>
          obtain ⟨hpl, hphase⟩ := h.proc.afterCall t os
          dsimp only
          rw [hphase]
          exact .some (h.goTo hpl _)
      | _ => exact .none

end Steps

end Machine

/-! ## What can be told -/

/-- The rings are the same in every field but `closed`, and in what is queued. -/
def Vectoring.ButClosed (ring ring' : Vectoring) : Prop :=
  Vectoring.Agrees { ring with closed := false } { ring' with closed := false }

theorem Vectoring.Alike.butClosed {ring ring' : Vectoring} (h : ring.Alike ring') :
    ring.ButClosed ring' := by
  cases h with
  | same => exact ⟨rfl, rfl⟩
  | around start hwf hqueue => exact ⟨rfl, hqueue⟩

theorem Vectoring.ButClosed.queue {ring ring' : Vectoring} (h : ring.ButClosed ring') :
    ring'.queue = ring.queue := by
  have hagrees : Vectoring.Agrees { ring with closed := false } { ring' with closed := false } := h
  exact hagrees.queue

/-- Rings related by `R` are related by what it implies. -/
theorem Socket.UpTo.mono {R R' : Vectoring → Vectoring → Prop}
    (hR : ∀ ring ring', R ring ring' → R' ring ring') {socket socket' : Socket}
    (h : socket.UpTo R socket') : socket.UpTo R' socket' := by
  cases h with
  | rings rx tx error hrx htx => exact .rings rx tx error (hR _ _ hrx) (hR _ _ htx)

theorem ProcLocal.UpTo.mono {R R' : Vectoring → Vectoring → Prop}
    {M : Memory UInt8 → Memory UInt8 → Prop}
    (hR : ∀ ring ring', R ring ring' → R' ring ring') {pl pl' : ProcLocal} (h : pl.UpTo R M pl') :
    pl.UpTo R' M pl' := by
  cases h with
  | sockets sockets mem h hmem => exact .sockets sockets mem (fun s => (h s).mono hR) hmem

theorem Machine.UpTo.mono {R R' : Vectoring → Vectoring → Prop}
    {M : Memory UInt8 → Memory UInt8 → Prop}
    (hR : ∀ ring ring', R ring ring' → R' ring ring') {m m' : Machine} (h : m.UpTo R M m') :
    m.UpTo R' M m' := by
  cases h with
  | pl pl h => exact .pl pl (h.mono hR)

/-- The memories hold the same, but where they hold what they held at first. -/
def Since (mem₀ mem₀' mem mem' : Memory UInt8) : Prop :=
  ∀ a, mem' a = mem a ∨ mem a = mem₀ a ∧ mem' a = mem₀' a

/-- The memories hold newlines at the same places. -/
def SameNewlines (mem mem' : Memory UInt8) : Prop := ∀ a, mem' a = newline ↔ mem a = newline

section Since
variable {mem₀ mem₀' mem mem' : Memory UInt8}

theorem since_first (mem mem' : Memory UInt8) : Since mem mem' mem mem' :=
  fun _ => Or.inr ⟨rfl, rfl⟩

theorem steady_since (mem₀ mem₀' : Memory UInt8) : Steady (Since mem₀ mem₀') where
  refl _ _ := Or.inl rfl
  store mem mem' a bs hmem x := by
    by_cases hx : a ≤ x ∧ x < a + bs.length
    · rw [Memory.store_of_mem _ _ _ hx.1 hx.2, Memory.store_of_mem _ _ _ hx.1 hx.2]
      exact Or.inl rfl
    · rw [Memory.store_of_not_mem _ _ _ hx, Memory.store_of_not_mem _ _ _ hx]
      exact hmem x

theorem Since.newlines (h : Since mem₀ mem₀' mem mem') (hfirst : SameNewlines mem₀ mem₀') :
    SameNewlines mem mem' := by
  intro a
  rcases h a with heq | ⟨h₀, h₀'⟩
  · rw [heq]
  · rw [h₀, h₀']
    exact hfirst a

/-- Memories that were the same at first are the same. -/
theorem Since.eq (h : Since mem₀ mem₀ mem mem') : mem' = mem := by
  funext a
  rcases h a with heq | ⟨h₀, h₀'⟩
  · exact heq
  · rw [h₀, h₀']

end Since

/-! ## What is done later -/

/-- What is done after `vk_init`: a coroutine stores bytes, in the memory it finds, or
it is another step. -/
inductive Later where
  | store (addr : Nat) (bytes : List UInt8)
  | act (a : Act)

namespace Machine

/-- A later step. -/
def later (p : Later) (m : Machine) : Option Machine :=
  match p with
  | .store addr bytes => step (.co (.store (m.pl.mem.store addr bytes))) m
  | .act (.co (.store _)) => none
  | .act a => step a m

/-- What the coroutine that runs is to write yet, if it stands in a `vk_write`. -/
def writes (m : Machine) : Option (List UInt8) :=
  match m.reads with
  | some (.bytes bs) => some bs
  | _ => none

/-- `f` is the same in both machines wherever the steps lead. -/
def SameAlong {α : Type} (f : Machine → α) : List Later → Machine → Machine → Prop
  | [], _, _ => True
  | p :: ps, m, m' => f m' = f m ∧
      ∀ n n', later p m = some n → later p m' = some n' → SameAlong f ps n n'

section Later
variable {m m' : Machine} {M : Memory UInt8 → Memory UInt8 → Prop} (hM : Steady M)
  (h : m.Alike M m')
include hM h

theorem UpTo.later (hsame : m'.reads = m.reads) (p : Later) :
    Option.Rel (Machine.Alike M) (Machine.later p m) (Machine.later p m') := by
  cases p with
  | store addr bytes =>
      have hmem := hM.store _ _ addr bytes h.proc.mem
      unfold Machine.later Machine.step
      dsimp only
      rw [h.stage]
      cases m.stage with
      | inside t =>
          have hpos : m'.pos t = m.pos t := congrFun h.pos t
          unfold Machine.co
          dsimp only
          rw [hpos]
          cases m.pos t with
          | none => exact .some (h.setPl (h.proc.setMem hmem))
          | some at_ => exact .none
      | kernel => exact .none
      | exec phase => exact .none
      | back t => exact .none
  | act a =>
      cases a with
      | co a =>
          cases a with
          | store mem => exact .none
          | _ => exact h.step hM hsame _
      | _ => exact h.step hM hsame _

/-- Alike machines go through the same steps, and stay alike, as long as what they read
from memory is the same. -/
theorem UpTo.run {ps : List Later} (hsame : SameAlong reads ps m m') :
    Option.Rel (Machine.Alike M) (Lib.run Machine.later ps m) (Lib.run Machine.later ps m') := by
  induction ps generalizing m m' with
  | nil => exact .some h
  | cons p ps ih =>
      have hstep := h.later hM hsame.1 p
      have hnext := hsame.2
      show Option.Rel _ ((Machine.later p m).bind _) ((Machine.later p m').bind _)
      generalize Machine.later p m = n at hstep hnext ⊢
      generalize Machine.later p m' = n' at hstep hnext ⊢
      cases hstep with
      | none => exact .none
      | some hn => exact ih hn (hnext _ _ rfl rfl)

/-- What follows of what alike machines have in common is so along their runs. -/
theorem UpTo.sameAlong {α : Type} {f : Machine → α} {C : List Later → Machine → Machine → Prop}
    (hnext : ∀ p ps n n', C (p :: ps) n n' → ∀ k k', Machine.later p n = some k →
      Machine.later p n' = some k' → C ps k k')
    (hf : ∀ p ps n n', C (p :: ps) n n' → n.Alike M n' → n'.reads = n.reads ∧ f n' = f n)
    {ps : List Later} (hC : C ps m m') : SameAlong f ps m m' := by
  induction ps generalizing m m' with
  | nil => trivial
  | cons p ps ih =>
      obtain ⟨hreads, hsame⟩ := hf p ps m m' hC h
      refine ⟨hsame, fun n n' hn hn' => ih ?_ (hnext p ps m m' hC n n' hn hn')⟩
      have hstep := h.later hM hreads p
      rw [hn, hn'] at hstep
      cases hstep with
      | some hnext => exact hnext

end Later

/-- The machine reads nothing from memory along the steps. -/
abbrev Unread (ps : List Later) (m : Machine) : Prop :=
  Meets later (fun _ m => m.reads = none) ps m

theorem UpTo.reads_eq_none {m m' : Machine} {M : Memory UInt8 → Memory UInt8 → Prop}
    (h : m.Alike M m') (hnone : m.reads = none) :
    m'.reads = none := by
  unfold reads at hnone ⊢
  rw [h.stage, h.pos]
  grind

/-- Where nothing is read from memory, nothing depends on it. -/
theorem UpTo.run_unread {m m' : Machine} {M : Memory UInt8 → Memory UInt8 → Prop}
    (hM : Steady M) (h : m.Alike M m') {ps : List Later} (hun : Unread ps m) :
    Unread ps m' ∧
      Option.Rel (Machine.Alike M) (Lib.run Machine.later ps m) (Lib.run Machine.later ps m') := by
  induction ps generalizing m m' with
  | nil => exact ⟨trivial, .some h⟩
  | cons p ps ih =>
      obtain ⟨hnone, hnext⟩ := hun
      have hnone' := h.reads_eq_none hnone
      have hstep := h.later hM (hnone'.trans hnone.symm) p
      have hall : ∀ n', Machine.later p m' = some n' → Unread ps n' := fun n' hn' => by
        rw [hn'] at hstep
        generalize hn : Machine.later p m = n at hstep
        cases hstep with
        | some hrel => exact (ih hrel (hnext _ hn)).1
      refine ⟨⟨hnone', hall⟩, ?_⟩
      show Option.Rel _ ((Machine.later p m).bind _) ((Machine.later p m').bind _)
      generalize hn : Machine.later p m = n at hstep ⊢
      generalize Machine.later p m' = n' at hstep ⊢
      cases hstep with
      | none => exact .none
      | some hrel => exact (ih hrel (hnext _ hn)).2

theorem sameAlong_of_meets {α : Type} {f : Machine → α} {c : α} {ps : List Later} {m m' : Machine}
    (h : Meets later (fun _ m => f m = c) ps m) (h' : Meets later (fun _ m => f m = c) ps m') :
    SameAlong f ps m m' := by
  induction ps generalizing m m' with
  | nil => trivial
  | cons p ps ih =>
      exact ⟨h'.1.trans h.1.symm, fun n n' hn hn' => ih (h.2 n hn) (h'.2 n' hn')⟩

end Machine

/-! ## Initialising over other contents -/

/-- What is found in the memory that becomes a thread and its socket, and in the rest. -/
structure Held where
  that : Thread
  socket : Socket
  mem : Memory UInt8

/-- The flags of the rings that no initialisation assigns are the same. -/
def SameClosed (held held' : Held) : Prop :=
  held'.socket.rx.closed = held.socket.rx.closed ∧ held'.socket.tx.closed = held.socket.tx.closed

namespace ProcLocal

/-- The process, with this in the memory that becomes thread `t` and socket `s`, and in
the rest. -/
def reused (pl : ProcLocal) (t s : Nat) (held : Held) : ProcLocal :=
  ({ pl with mem := held.mem }.updThread t fun _ => held.that).updSocket s fun _ => held.socket

theorem alike_socketInit {held held' : Held} (h : SameClosed held held') (s t : Nat)
    (rxFd txFd : Pipe) :
    (held.socket.init s t rxFd txFd).Alike (held'.socket.init s t rxFd txFd) := by
  obtain ⟨hrx, htx⟩ := h
  have hlen : 0 < Socket.bufLen := by decide
  exact @Socket.UpTo.rings _ (held.socket.init s t rxFd txFd) _ _ held'.socket.error
    (Vectoring.alike_init hrx held.socket.rx.bufStart held'.socket.rx.bufStart hlen)
    (Vectoring.alike_init htx held.socket.tx.bufStart held'.socket.tx.bufStart hlen)

/-- Of what was there before, the socket's memory is left where `VK_SOCKET_INIT` leaves it,
and the rest of memory. -/
theorem initThread_reused (pl : ProcLocal) (t s : Nat) (held : Held) (rxFd txFd : Pipe) :
    (pl.reused t s held).initThread t s rxFd txFd =
      ({ pl with mem := held.mem }.updThread t fun _ => Thread.init s).updSocket s fun _ =>
        held.socket.init s t rxFd txFd := by
  simp only [reused, initThread, updThread, updSocket, Function.update_idem, Function.update_self]

theorem alike_mem (pl : ProcLocal) {M : Memory UInt8 → Memory UInt8 → Prop}
    {mem mem' : Memory UInt8} (hmem : M mem mem') :
    ProcLocal.Alike M { pl with mem := mem } { pl with mem := mem' } :=
  @ProcLocal.UpTo.sockets _ M { pl with mem := mem } pl.sockets mem'
    (fun s => .rings _ _ (pl.sockets s).error .same .same) hmem

theorem alike_initThread (pl : ProcLocal) (t s : Nat) {held held' : Held}
    (h : SameClosed held held') {M : Memory UInt8 → Memory UInt8 → Prop}
    (hmem : M held.mem held'.mem) (rxFd txFd : Pipe) :
    ((pl.reused t s held).initThread t s rxFd txFd).Alike M
      ((pl.reused t s held').initThread t s rxFd txFd) := by
  rw [initThread_reused, initThread_reused]
  exact ((alike_mem pl hmem).updThread t _).updSocket s
    (f := fun _ => held.socket.init s t rxFd txFd)
    (g := fun _ => held'.socket.init s t rxFd txFd) (alike_socketInit h s t rxFd txFd)

end ProcLocal

namespace Machine

/-- The machine once `vk_init` has initialised thread `t` and its socket `s` over
this. -/
def initOver (m : Machine) (t s : Nat) (rxFd txFd : Pipe) (held : Held) : Machine :=
  { m with pl := (m.pl.reused t s held).initThread t s rxFd txFd }

/-- Later steps that meet `C` are the same over both, and leave the same in both but what
was not assigned: in every field but the flags `closed`, in every byte that a ring holds,
and in memory but where both hold what they held at first.  What a program does next it
decides on that, so it does the same over both. -/
def Hides (C : List Later → Machine → Machine → Prop) (held held' : Held) : Prop :=
  ∀ (m : Machine) (t s : Nat) (rxFd txFd : Pipe) (ps : List Later),
    C ps (m.initOver t s rxFd txFd held) (m.initOver t s rxFd txFd held') →
      Option.Rel (UpTo Vectoring.ButClosed (Since held.mem held'.mem))
        (run later ps (m.initOver t s rxFd txFd held))
        (run later ps (m.initOver t s rxFd txFd held'))

theorem alike_initOver (m : Machine) (t s : Nat) (rxFd txFd : Pipe) {held held' : Held}
    (h : SameClosed held held') {M : Memory UInt8 → Memory UInt8 → Prop}
    (hmem : M held.mem held'.mem) :
    (m.initOver t s rxFd txFd held).Alike M (m.initOver t s rxFd txFd held') :=
  alike (ProcLocal.alike_initThread m.pl t s h hmem rxFd txFd) m.pos m.stage

section Hides
variable {held held' : Held}

/-- Where the flags were the same, all that can tell is what is read from memory. -/
theorem hides_of_reads {C : List Later → Machine → Machine → Prop} (h : SameClosed held held')
    (hC : ∀ ps m m', C ps m m' → m.Alike (Since held.mem held'.mem) m' → SameAlong reads ps m m') :
    Hides C held held' := fun m t s rxFd txFd ps hps => by
  have halike := alike_initOver m t s rxFd txFd h (since_first held.mem held'.mem)
  have hrun := halike.run (steady_since held.mem held'.mem) (hC ps _ _ hps halike)
  generalize run later ps (m.initOver t s rxFd txFd held) = n at hrun ⊢
  generalize run later ps (m.initOver t s rxFd txFd held') = n' at hrun ⊢
  cases hrun with
  | none => exact .none
  | some hn => exact .some (hn.mono fun _ _ => Vectoring.Alike.butClosed)

theorem SameAlong.map {α β : Type} {f : Machine → α} (g : α → β) {ps : List Later} {m m' : Machine}
    (h : SameAlong f ps m m') : SameAlong (fun m => g (f m)) ps m m' := by
  induction ps generalizing m m' with
  | nil => trivial
  | cons p ps ih =>
      exact ⟨congrArg g h.1, fun n n' hn hn' => ih (h.2 n n' hn hn')⟩

/-- Memories with the same newlines read the same, if what is written is the same. -/
theorem UpTo.reads_of_writes {m m' : Machine}
    (h : m.Alike (Since held.mem held'.mem) m') (hfirst : SameNewlines held.mem held'.mem)
    (hwrites : m'.writes = m.writes) : m'.reads = m.reads := by
  have hline : ∀ s, m'.pl.sees s = m.pl.sees s := fun s => by
    have hsame : ∀ {pl pl' : ProcLocal}, pl.Alike (Since held.mem held'.mem) pl' →
        (lastCommitted pl' s == newline) = (lastCommitted pl s == newline) := fun {pl pl'} hpl => by
      have hnl := hpl.mem.newlines hfirst
      unfold lastCommitted
      rw [(hpl.socket s).block, hpl.committed]
      exact Bool.eq_iff_iff.mpr (by simpa only [beq_iff_eq] using hnl _)
    exact Prod.ext (hsame h.proc)
      (hsame ((h.proc.requestLine s).recvCommit (steady_since held.mem held'.mem) s))
  unfold writes at hwrites
  unfold reads at hwrites ⊢
  rw [h.stage, h.pos] at hwrites ⊢
  grind

/-- Memories that held the same read the same. -/
theorem UpTo.reads_of_mem {m m' : Machine} (h : m.Alike (Since held.mem held'.mem) m')
    (hfirst : held'.mem = held.mem) : m'.reads = m.reads := by
  have hmem : m'.pl.mem = m.pl.mem := by
    have hsince := h.proc.mem
    rw [hfirst] at hsince
    exact hsince.eq
  refine h.reads_of_writes (fun a => by rw [hfirst]) ?_
  have hunwritten : ∀ s, m'.pl.unwritten s = m.pl.unwritten s := fun s => by
    unfold ProcLocal.unwritten
    rw [hmem, (h.proc.socket s).block, h.proc.uncommitted]
  unfold writes reads
  rw [h.stage, h.pos]
  grind

end Hides

/-! ## What shows what was there -/

/-- A process with nothing in it, and then a thread connected to descriptor 3. -/
def fresh (held : Held) : Machine :=
  initOver ⟨ProcLocal.init, fun _ => none, .kernel⟩ 0 0 (Pipe.initFd 3 .socketStream)
    (Pipe.initFd 3 .socketStream) held

/-- The thread is enqueued and runs. -/
def entered : List Later := [.act (.play 0), .act .start, .act .exec, .act .exec]

/-- The thread reads, and there is nothing to read yet. -/
def firstRead : List Later :=
  entered ++ [.act (.co (.call (.read 0 0 1))), .act (.co .turn),
    .act (.unblock ⟨.err EAGAIN, .err EAGAIN, .err EAGAIN, .ok (), .ok ()⟩)]

/-- The thread reads a line behind `a`, and there is nothing to read yet: that it waits
for some shows in the handler's turn. -/
def lineBehind (a : Nat) : List Later :=
  entered ++ [.act (.co (.call (.readline 0 (a + 1) 1))), .act (.co .turn),
    .act (.unblock ⟨.err EAGAIN, .err EAGAIN, .err EAGAIN, .ok (), .ok ()⟩)]

/-- The thread writes what is at `a`. -/
def writeByte (a : Nat) : List Later :=
  entered ++ [.act (.co (.call (.write 0 a 1))), .act (.co .turn)]

/-- What its block's futures say: whether a ring was closed. -/
def saysClosed (m : Machine) : Bool × Bool :=
  ((m.pl.sockets 0).block.ioftRxPre.rxClosed, (m.pl.sockets 0).block.ioftTxPre.txClosed)

/-- Cleared memory, but for the flags of the two rings. -/
def flagged (rx tx : Bool) : Held where
  that := Thread.init 0
  socket := { Socket.cleared with
    rx := { Vectoring.cleared with closed := rx }
    tx := { Vectoring.cleared with closed := tx } }
  mem := fun _ => 0

theorem unread_firstRead (held : Held) :
    Unread firstRead (fresh held) ∧ (run later firstRead (fresh held)).map saysClosed =
      some (held.socket.rx.closed, held.socket.tx.closed) := by
  have hflagged : ∀ rx tx, Unread firstRead (fresh (flagged rx tx)) ∧
      (run later firstRead (fresh (flagged rx tx))).map saysClosed = some (rx, tx) := by
    decide +kernel
  obtain ⟨hun, hsays⟩ := hflagged held.socket.rx.closed held.socket.tx.closed
  have hM : Steady fun _ _ => True := ⟨fun _ => trivial, fun _ _ _ _ _ => trivial⟩
  have hclosed : SameClosed (flagged held.socket.rx.closed held.socket.tx.closed) held := ⟨rfl, rfl⟩
  have halike : (fresh (flagged held.socket.rx.closed held.socket.tx.closed)).Alike
      (fun _ _ => True) (fresh held) := alike_initOver _ 0 0 _ _ hclosed trivial
  obtain ⟨hun', hrun⟩ := halike.run_unread hM hun
  refine ⟨hun', ?_⟩
  generalize run later firstRead (fresh held) = n' at hrun ⊢
  generalize run later firstRead (fresh (flagged _ _)) = n at hrun hsays
  cases hrun with
  | none => cases hsays
  | some hn =>
      refine Eq.trans (congrArg some ?_) hsays
      unfold saysClosed
      rw [(hn.proc.socket 0).block]

theorem entered_fresh (held : Held) : ∃ m, run later entered (fresh held) = some m ∧
    m.stage = .inside 0 ∧ m.pos 0 = none ∧ m.pl.mem = held.mem ∧
    m.pl.sockets 0 =
      held.socket.init 0 0 (Pipe.initFd 3 .socketStream) (Pipe.initFd 3 .socketStream) :=
  ⟨_, rfl, rfl, rfl, rfl, rfl⟩

/-- A new socket on descriptor 3 has nothing and is signalled nothing. -/
theorem atTop_new (held : Held) (buf len : Nat) {pl : ProcLocal} (hmem : pl.mem = held.mem)
    (hsocket : pl.sockets 0 =
      held.socket.init 0 0 (Pipe.initFd 3 .socketStream) (Pipe.initFd 3 .socketStream)) :
    AtTop ⟨(Pipe.initFd 3 .socketStream).ref, .socketStream, Socket.bufLen⟩ 0 buf len held.mem []
      ⟨[], false⟩ (pl.beginRead 0 buf len) := by
  have hbegun : (pl.beginRead 0 buf len).sockets 0 =
      { pl.sockets 0 with block := (pl.sockets 0).block.init buf len .read } := by
    rw [ProcLocal.beginRead, ProcLocal.blockInit, ProcLocal.updBlock,
      ProcLocal.updSocket_sockets_self]
  rw [hsocket] at hbegun
  refine ⟨⟨?_, ?_, ?_, ?_⟩, ?_, ?_, ?_, ?_, ?_, rfl, fun _ _ => ?_, by simp⟩
  · rw [hbegun]
    exact Vectoring.wf_init _ _ (by decide)
  · rw [hbegun]
    rfl
  · rw [hbegun]
    rfl
  · rw [hbegun]
    rfl
  · rw [hbegun]
    rfl
  · unfold ProcLocal.hupSignalled
    rw [hbegun]
    rfl
  · rw [hbegun]
    rfl
  · unfold ProcLocal.committed
    rw [hbegun]
    rfl
  · unfold ProcLocal.uncommitted
    rw [hbegun]
    rfl
  · exact congrFun hmem _

/-- The coroutine stands in the operation it has begun. -/
def within (m : Machine) (t : Nat) (c : IoCall) : Machine :=
  { m with pl := c.enter m.pl }.setPos t (some (c.first, c.socketPtr))

/-- An operation begins, and takes its first turn. -/
theorem run_called {m : Machine} {t : Nat} (hst : m.stage = .inside t) (hpos : m.pos t = none)
    {c : IoCall} (hknown : c.known = true) (hrefused : c.refused m.pl = none) (ps : List Later) :
    run later (.act (.co (.call c)) :: .act (.co .turn) :: ps) m =
      run later ps ((m.within t c).turn t c.first c.socketPtr) := by
  have hcall : later (.act (.co (.call c))) m = some (m.within t c) := by
    show step (.co (.call c)) m = _
    simp only [step, hst, co, hpos, if_pos hknown, call, hrefused, within]
  have hin : (m.within t c).pos t = some (c.first, c.socketPtr) := Function.update_self ..
  have hturn : later (.act (.co .turn)) (m.within t c) =
      some ((m.within t c).turn t c.first c.socketPtr) := by
    have hst' : (m.within t c).stage = .inside t := hst
    show step (.co .turn) (m.within t c) = _
    simp only [step, hst', co, hin]
  show (later _ m).bind _ = _
  rw [hcall]
  show (later _ (m.within t c)).bind _ = _
  rw [hturn]
  rfl

/-- It waits for the line unless a newline is in front of where the line is to go. -/
theorem run_lineBehind (held : Held) (a : Nat) :
    (run later (lineBehind a) (fresh held)).isSome = (held.mem a != newline) := by
  obtain ⟨m, hrun, hst, hpos, hmem, hsocket⟩ := entered_fresh held
  have hturn := (atTop_new held (a + 1) 1 hmem hsocket).turn (by decide) (Or.inl rfl) (by simp)
    (by simp) (by simp)
  unfold lineBehind
  rw [run_append, hrun, Option.bind_some, run_called hst hpos rfl rfl]
  show ((later _ ((m.within 0 (.readline 0 (a + 1) 1)).turn 0 .readline 0)).bind _).isSome = _
  show ((step _ _).bind _).isSome = _
  unfold step
  by_cases hnl : held.mem a = newline
  · rw [if_neg (by simp), if_neg fun h => h.2 hnl] at hturn
    have hinside : ((m.within 0 (.readline 0 (a + 1) 1)).turn 0 .readline 0).stage = .inside 0 := by
      unfold turn
      rw [show (IoLoop.readline.loop 0).turn (m.within 0 (.readline 0 (a + 1) 1)).pl = _ from hturn]
      exact hst
    rw [hinside, hnl]
    exact (bne_self_eq_false newline).symm
  · rw [if_neg (by simp), if_pos ⟨by decide, hnl⟩] at hturn
    have hback : ((m.within 0 (.readline 0 (a + 1) 1)).turn 0 .readline 0).stage = .back 0 := by
      unfold turn
      rw [show (IoLoop.readline.loop 0).turn (m.within 0 (.readline 0 (a + 1) 1)).pl = _ from hturn]
    rw [hback, bne_iff_ne.mpr hnl]
    rfl

/-- What a turn of `vk_write` leaves in the ring. -/
theorem turn_write_tx (m : Machine) (t s : Nat) (h : 0 < m.pl.uncommitted s) :
    ((m.turn t .write s).pl.sockets s).tx =
      ((m.pl.sockets s).tx.send m.pl.mem (m.pl.sockets s).block.buf (m.pl.uncommitted s)).1 := by
  have hbody : (((writeLoop s).body m.pl).sockets s).tx =
      ((m.pl.sockets s).tx.send m.pl.mem (m.pl.sockets s).block.buf (m.pl.uncommitted s)).1 := by
    show ((m.pl.sendCommit s).sockets s).tx = _
    unfold ProcLocal.sendCommit
    rw [blockCommit_self]
    exact ProcLocal.setTx_tx_self _ _ _
  have htest : (writeLoop s).test m.pl = true := decide_eq_true h
  have hturned := (writeLoop s).turned m.pl
  unfold turn
  rw [show (IoLoop.write.loop s).turn m.pl = (writeLoop s).turn m.pl from rfl]
  generalize (writeLoop s).turn m.pl = turned at hturned ⊢
  cases hturned with
  | left hleft => exact absurd htest (by rw [hleft]; exact Bool.false_ne_true)
  | failed =>
      rw [raise_sockets]
      exact hbody
  | done => exact hbody
  | wait =>
      show ((ProcLocal.waitOn _ t s).sockets s).tx = _
      rw [waitOn_self]
      exact hbody
  | again => exact hbody

/-- What it has written is what was there. -/
theorem run_writeByte (held : Held) (a : Nat) :
    (run later (writeByte a) (fresh held)).map (fun m => (m.pl.sockets 0).tx.queue) =
      some [held.mem a] := by
  obtain ⟨m, hrun, hst, hpos, hmem, hsocket⟩ := entered_fresh held
  have hrefused : (IoCall.write 0 a 1).refused m.pl = none := by
    show (if (m.pl.sockets 0).eofTx then _ else _) = _
    rw [hsocket]
    rfl
  have hbegun : ((m.pl.beginWrite 0 a 1).sockets 0) =
      { m.pl.sockets 0 with block := (m.pl.sockets 0).block.init a 1 .write } := by
    rw [ProcLocal.beginWrite, ProcLocal.blockInit, ProcLocal.updBlock,
      ProcLocal.updSocket_sockets_self]
  rw [hsocket] at hbegun
  unfold writeByte
  rw [run_append, hrun, Option.bind_some, run_called hst hpos rfl hrefused]
  refine congrArg some ?_
  show (((m.within 0 (.write 0 a 1)).turn 0 .write 0).pl.sockets 0).tx.queue = _
  rw [turn_write_tx _ _ _ (by
    show 0 < ((m.pl.beginWrite 0 a 1).sockets 0).block.getUncommitted
    rw [hbegun]
    exact Nat.one_pos)]
  have hwf := Vectoring.wf_init held.socket.tx held.socket.tx.bufStart
    (show 0 < Socket.bufLen by decide)
  have hsent := (hwf.send m.pl.mem a 1 (by simp [Vectoring.init])).2.queue
  show (((m.pl.beginWrite 0 a 1).sockets 0).tx.send m.pl.mem
    ((m.pl.beginWrite 0 a 1).sockets 0).block.buf
    ((m.pl.beginWrite 0 a 1).sockets 0).block.getUncommitted).1.queue = _
  rw [hbegun]
  refine Eq.trans hsent ?_
  rw [hmem]
  rfl

/-- No coroutine stands in a `vk_write`. -/
def NoneWrites (m : Machine) : Prop := ∀ t s, m.pos t ≠ some (.write, s)

theorem NoneWrites.writes {m : Machine} (h : m.NoneWrites) : m.writes = none := by
  unfold Machine.writes reads
  grind [NoneWrites]

theorem NoneWrites.later {p : Later} {m m' : Machine} (h : m.NoneWrites)
    (hp : ∀ s buf len, p ≠ .act (.co (.call (.write s buf len))))
    (hstep : Machine.later p m = some m') : m'.NoneWrites := fun t s hpos => by
  obtain ⟨a, hstep, hcall⟩ : ∃ a, step a m = some m' ∧ ∀ c, a = .co (.call c) → p = .act a := by
    cases p with
    | store addr bytes => exact ⟨_, hstep, fun c hc => by cases hc⟩
    | act a =>
        refine ⟨a, ?_, fun _ _ => rfl⟩
        unfold Machine.later at hstep
        split at hstep
        · rename_i heq
          cases heq
        · cases hstep
        · rename_i heq
          cases heq
          exact hstep
  rcases pos_step hstep t with hsame | ⟨-, hnone | ⟨w, -, -, hhup⟩ | ⟨c, hc, -, -, hin⟩⟩
  · exact h t s (hsame ▸ hpos)
  · rw [hnone] at hpos
    cases hpos
  · rw [hhup] at hpos
    cases hpos
  · rw [hin] at hpos
    cases c with
    | write w buf len => exact hp w buf len ((hcall _ hc).trans (by rw [hc]))
    | _ => cases hpos

theorem NoneWrites.meets {ps : List Later} {m : Machine} (h : m.NoneWrites)
    (hps : ∀ p ∈ ps, ∀ s buf len, p ≠ .act (.co (.call (.write s buf len)))) :
    Meets Machine.later (fun _ m => m.writes = none) ps m := by
  induction ps generalizing m with
  | nil => trivial
  | cons p ps ih =>
      exact ⟨h.writes, fun n hn => ih (h.later (hps p List.mem_cons_self) hn) fun q hq =>
        hps q (List.mem_cons_of_mem _ hq)⟩

section Shows
variable {held held' : Held}

theorem Hides.fresh {C : List Later → Machine → Machine → Prop} (h : Hides C held held')
    {ps : List Later} (hps : C ps (Machine.fresh held) (Machine.fresh held')) :
    Option.Rel (UpTo Vectoring.ButClosed (Since held.mem held'.mem))
      (run later ps (Machine.fresh held)) (run later ps (Machine.fresh held')) :=
  h _ 0 0 _ _ ps hps

theorem SameClosed.of_hides (h : Hides (SameAlong reads) held held') : SameClosed held held' := by
  obtain ⟨hun, hsays⟩ := unread_firstRead held
  obtain ⟨hun', hsays'⟩ := unread_firstRead held'
  have hrun := h.fresh (sameAlong_of_meets hun hun')
  generalize run later firstRead (fresh held) = n at hrun hsays
  generalize run later firstRead (fresh held') = n' at hrun hsays'
  cases hrun with
  | none => cases hsays
  | some hn =>
      have hblock := (hn.proc.socket 0).block
      have hsame := Option.some.inj (hsays'.symm.trans
        ((congrArg some (by unfold saysClosed; rw [hblock])).trans hsays))
      exact ⟨congrArg Prod.fst hsame, congrArg Prod.snd hsame⟩

theorem SameNewlines.of_hides (h : Hides (SameAlong writes) held held') :
    SameNewlines held.mem held'.mem := fun a => by
  have hmeets : ∀ that : Held,
      Meets later (fun _ m => m.writes = none) (lineBehind a) (fresh that) := fun that =>
    NoneWrites.meets (fun t s hpos => by cases hpos) (by simp [lineBehind, entered])
  have hrun := h.fresh (sameAlong_of_meets (hmeets held) (hmeets held'))
  have hwaits := run_lineBehind held a
  have hwaits' := run_lineBehind held' a
  generalize run later (lineBehind a) (fresh held) = n at hrun hwaits
  generalize run later (lineBehind a) (fresh held') = n' at hrun hwaits'
  have hsome : n'.isSome = n.isSome := by cases hrun <;> rfl
  rw [hwaits, hwaits'] at hsome
  grind

theorem eq_of_hides (h : Hides (fun _ _ _ => True) held held') : held'.mem = held.mem := by
  funext a
  have hrun := @Hides.fresh _ _ _ h (writeByte a) trivial
  have hbyte := run_writeByte held a
  have hbyte' := run_writeByte held' a
  generalize run later (writeByte a) (fresh held) = n at hrun hbyte
  generalize run later (writeByte a) (fresh held') = n' at hrun hbyte'
  cases hrun with
  | none => cases hbyte
  | some hn =>
      have hqueue := (hn.proc.socket 0).tx.queue
      have hsame := Option.some.inj (hbyte'.symm.trans ((congrArg some hqueue).trans hbyte))
      exact List.head_eq_of_cons_eq hsame

/-- A weaker condition hides more. -/
theorem Hides.mono {C D : List Later → Machine → Machine → Prop}
    (hDC : ∀ ps m m', D ps m m' → C ps m m') (h : Hides C held held') : Hides D held held' :=
  fun m t s rxFd txFd ps hps => h m t s rxFd txFd ps (hDC ps _ _ hps)

end Shows

/-- What was there before shows in no run in which the same is read from memory exactly
where the flags `closed` of the two rings were the same; in none in which the same is
written from memory exactly where memory also held its newlines at the same places; and in
none at all exactly where it also held the same. -/
theorem init_hides (held held' : Held) :
    (Hides (SameAlong reads) held held' ↔ SameClosed held held') ∧
      (Hides (SameAlong writes) held held' ↔
        SameClosed held held' ∧ SameNewlines held.mem held'.mem) ∧
      (Hides (fun _ _ _ => True) held held' ↔
        SameClosed held held' ∧ held'.mem = held.mem) := by
  have hM := steady_since held.mem held'.mem
  have hwrites : ∀ {ps m m'}, SameAlong reads ps m m' → SameAlong writes ps m m' := fun h =>
    h.map fun reads => match reads with
      | some (.bytes bs) => some bs
      | _ => none
  refine ⟨⟨SameClosed.of_hides, fun h => hides_of_reads h fun _ _ _ hps _ => hps⟩, ⟨fun h => ?_, ?_⟩,
    fun h => ?_, ?_⟩
  · exact ⟨SameClosed.of_hides (h.mono fun _ _ _ => hwrites), SameNewlines.of_hides h⟩
  · rintro ⟨hclosed, hnewlines⟩
    refine hides_of_reads hclosed fun ps m m' hps h =>
      h.sameAlong hM (fun p ps n n' hC => hC.2) (fun p ps n n' hC hn => ?_) hps
    have hreads := hn.reads_of_writes hnewlines hC.1
    exact ⟨hreads, hreads⟩
  · exact ⟨SameClosed.of_hides (h.mono fun _ _ _ _ => trivial), eq_of_hides h⟩
  · rintro ⟨hclosed, hmem⟩
    refine hides_of_reads hclosed fun ps m m' _ h =>
      h.sameAlong hM (C := fun _ _ _ => True) (fun _ _ _ _ _ _ _ _ _ => trivial)
        (fun p ps n n' _ hn => ?_) trivial
    have hreads := hn.reads_of_mem hmem
    exact ⟨hreads, hreads⟩

/-- Over a closed connection the block of the next says that its descriptor is closed, and
where the memory that is left holds newlines the next goes round in `vk_readline` for ever:
over cleared memory neither is so. -/
theorem stale_closed_shows :
    (run later firstRead (fresh (flagged true true))).map saysClosed = some (true, true) ∧
      (run later firstRead (fresh (flagged false false))).map saysClosed = some (false, false) ∧
      (run later (lineBehind 0)
        (fresh { flagged false false with mem := fun _ => newline })).isSome = false ∧
      (run later (lineBehind 0) (fresh (flagged false false))).isSome = true ∧
      ¬∀ held held' : Held, Hides (fun _ _ _ => True) held held' := by
  have hshut : (run later firstRead (fresh (flagged true true))).map saysClosed =
      some (true, true) := (unread_firstRead _).2
  have hcleared : (run later firstRead (fresh (flagged false false))).map saysClosed =
      some (false, false) := (unread_firstRead _).2
  refine ⟨hshut, hcleared, ?_, ?_, fun h => ?_⟩
  · rw [run_lineBehind]
    exact bne_self_eq_false newline
  · rw [run_lineBehind]
    decide
  · have hmem := eq_of_hides (h (flagged false false)
      { flagged false false with mem := fun _ => newline })
    have hbyte : newline = (0 : UInt8) := congrFun hmem 0
    exact absurd hbyte (by decide)

end Machine

end Vk

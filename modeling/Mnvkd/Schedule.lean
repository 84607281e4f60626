/-
# `Mnvkd.Schedule` — how a step changes the queues

A thread comes into the run queue only where a step may wake it (`MayWake`), and
leaves it when the executor picks it or when it has ended; its status changes as
its own function comes back, or to run, and then it is in the run queue or is the
one that runs.  These are the facts of the scheduler; what they are about is every
step of the machine.
-/
import Mnvkd.Ownership
import Mnvkd.Wakes

namespace Vk

open Lib

/-! ## Members that leave -/

namespace ProcLocal

variable {pl : ProcLocal}

theorem Queued.dropBlocked (hq : Queued pl) (s : Nat) : Queued (pl.dropBlocked s) := by
  unfold ProcLocal.dropBlocked
  dsimp only
  split
  · refine ⟨hq.run, hq.runNodup, fun a => ?_, hq.blockedNodup.erase s⟩
    show ((pl.updSocket s fun socket => { socket with blockedEnq := false }).sockets a).blockedEnq = true ↔
      a ∈ pl.blockedQ.erase s
    rw [updSocket_sockets, hq.blockedNodup.mem_erase_iff]
    split
    · rename_i ha
      simp [ha]
    · rename_i ha
      rw [hq.blocked a]
      simp [ha]
  · exact ⟨hq.run, hq.runNodup, hq.blocked, hq.blockedNodup⟩

/-- A socket that is dropped is not queued any more, and the others are. -/
theorem mem_dropBlocked_iff (hq : Queued pl) (s a : Nat) :
    a ∈ (pl.dropBlocked s).blockedQ ↔ a ∈ pl.blockedQ ∧ a ≠ s := by
  unfold ProcLocal.dropBlocked
  dsimp only
  split
  · show a ∈ pl.blockedQ.erase s ↔ _
    rw [hq.blockedNodup.mem_erase_iff, and_comm]
  · rename_i henq
    show a ∈ pl.blockedQ ↔ _
    constructor
    · rintro ha
      refine ⟨ha, fun has => henq ?_⟩
      exact (hq.blocked s).mpr (has ▸ ha)
    · exact And.left

@[simp] theorem dropBlocked_runQ (pl : ProcLocal) (s : Nat) : (pl.dropBlocked s).runQ = pl.runQ := by
  unfold ProcLocal.dropBlocked
  dsimp only
  split <;> rfl

theorem dropBlocked_blockedVk (pl : ProcLocal) (s a : Nat) :
    (pl.dropBlocked s).blockedVk a = pl.blockedVk a :=
  ((sameData_dropBlocked pl s).socket a).block.blockedVk

/-- Of the sockets in a list those that block thread `t` are dropped. -/
theorem foldl_dropBlocked (t : Nat) (queue : List Nat) : ∀ {pl : ProcLocal}, Queued pl →
    let pl' := queue.foldl
      (fun pl s => if (pl.sockets s).block.blockedVk = t then pl.dropBlocked s else pl) pl
    Queued pl' ∧ pl'.runQ = pl.runQ ∧ (∀ a, pl'.blockedVk a = pl.blockedVk a) ∧
      ∀ a, a ∈ pl'.blockedQ ↔ a ∈ pl.blockedQ ∧ ¬(a ∈ queue ∧ pl.blockedVk a = t) := by
  induction queue with
  | nil => exact fun hq => ⟨hq, rfl, fun _ => rfl, fun a => by simp⟩
  | cons s queue ih =>
      intro pl hq
      rw [List.foldl_cons]
      split
      · rename_i hs
        obtain ⟨hq', hrunQ, hvk, hmem⟩ := ih (Queued.dropBlocked hq s)
        refine ⟨hq', hrunQ.trans (dropBlocked_runQ pl s),
          fun a => (hvk a).trans (dropBlocked_blockedVk pl s a), fun a => ?_⟩
        rw [hmem, mem_dropBlocked_iff hq, dropBlocked_blockedVk, List.mem_cons]
        constructor
        · rintro ⟨⟨ha, has⟩, hnot⟩
          exact ⟨ha, fun ⟨hin, hvk⟩ => hnot ⟨hin.resolve_left has, hvk⟩⟩
        · rintro ⟨ha, hnot⟩
          exact ⟨⟨ha, fun has => hnot ⟨Or.inl has, has ▸ hs⟩⟩, fun ⟨hin, hvk⟩ =>
            hnot ⟨Or.inr hin, hvk⟩⟩
      · rename_i hs
        obtain ⟨hq', hrunQ, hvk, hmem⟩ := ih hq
        refine ⟨hq', hrunQ, hvk, fun a => ?_⟩
        rw [hmem, List.mem_cons]
        constructor
        · rintro ⟨ha, hnot⟩
          refine ⟨ha, fun ⟨hin, hvk⟩ => ?_⟩
          rcases hin with rfl | hin
          · exact hs hvk
          · exact hnot ⟨hin, hvk⟩
        · rintro ⟨ha, hnot⟩
          exact ⟨ha, fun ⟨hin, hvk⟩ => hnot ⟨Or.inr hin, hvk⟩⟩

theorem Queued.dropBlockedFor (hq : Queued pl) (t : Nat) : Queued (pl.dropBlockedFor t) :=
  (foldl_dropBlocked t pl.blockedQ hq).1

theorem dropBlockedFor_runQ (hq : Queued pl) (t : Nat) : (pl.dropBlockedFor t).runQ = pl.runQ :=
  (foldl_dropBlocked t pl.blockedQ hq).2.1

/-- Afterwards no socket that blocks the thread is queued. -/
theorem mem_dropBlockedFor_iff (hq : Queued pl) (t a : Nat) :
    a ∈ (pl.dropBlockedFor t).blockedQ ↔ a ∈ pl.blockedQ ∧ pl.blockedVk a ≠ t := by
  refine ((foldl_dropBlocked t pl.blockedQ hq).2.2.2 a).trans ?_
  constructor
  · rintro ⟨ha, hnot⟩
    exact ⟨ha, fun hvk => hnot ⟨ha, hvk⟩⟩
  · rintro ⟨ha, hvk⟩
    exact ⟨ha, fun h => hvk h.2⟩

theorem Queued.dropRun (hq : Queued pl) (t : Nat) : Queued (pl.dropRun t) := by
  unfold ProcLocal.dropRun
  dsimp only
  split
  · refine ⟨fun u => ?_, hq.runNodup.erase t, hq.blocked, hq.blockedNodup⟩
    show ((pl.updThread t fun that => { that with runEnq := false }).threads u).runEnq = true ↔
      u ∈ pl.runQ.erase t
    rw [updThread_threads, hq.runNodup.mem_erase_iff]
    split
    · rename_i hu
      simp [hu]
    · rename_i hu
      rw [hq.run u]
      simp [hu]
  · exact ⟨hq.run, hq.runNodup, hq.blocked, hq.blockedNodup⟩

theorem mem_dropRun_iff (hq : Queued pl) (t u : Nat) :
    u ∈ (pl.dropRun t).runQ ↔ u ∈ pl.runQ ∧ u ≠ t := by
  unfold ProcLocal.dropRun
  dsimp only
  split
  · show u ∈ pl.runQ.erase t ↔ _
    rw [hq.runNodup.mem_erase_iff, and_comm]
  · rename_i henq
    show u ∈ pl.runQ ↔ _
    constructor
    · rintro hu
      exact ⟨hu, fun hut => henq ((hq.run t).mpr (hut ▸ hu))⟩
    · exact And.left

theorem dropRun_waiting (pl : ProcLocal) (t u : Nat) :
    ((pl.dropRun t).threads u).waitingSocketPtr = (pl.threads u).waitingSocketPtr := by
  unfold dropRun
  dsimp only
  split
  · show ((ProcLocal.updThread _ t _).threads u).waitingSocketPtr = _
    rw [updThread_threads]
    split
    · subst u
      rfl
    · rfl
  · rfl

theorem dropRun_status (pl : ProcLocal) (t u : Nat) :
    ((pl.dropRun t).threads u).status = (pl.threads u).status := by
  unfold ProcLocal.dropRun
  dsimp only
  split
  · rw [updThread_threads]
    split
    · subst u
      rfl
    · rfl
  · rfl

/-- Cleaning up after a thread that has ended changes no status. -/
theorem afterCall_status_of_ended {t : Nat} {os : Os} (h : (pl.threads t).status = .ended)
    (u : Nat) : ((pl.afterCall t os).pl.threads u).status = (pl.threads u).status := by
  unfold afterCall
  simp only [h, if_true]
  split
  · rw [dropRun_status, dropBlockedFor_threads]
  · rw [dropBlockedFor_threads]

/-- The executor takes the head of the run queue, and returns where there is
none. -/
theorem pickRun_cases (pl : ProcLocal) :
    pl.runQ = [] ∧ pl.pickRun = ⟨pl, .returned 0⟩ ∨
    ∃ t rest, pl.runQ = t :: rest ∧ pl.pickRun.phase = .loop t ∧ pl.pickRun.pl.runQ = rest ∧
      pl.pickRun.pl.threads
        = (pl.updThread t fun that => { that with runEnq := false }).threads ∧
      pl.pickRun.pl.sockets = pl.sockets ∧ pl.pickRun.pl.blockedQ = pl.blockedQ := by
  unfold pickRun dequeueRun
  cases hq : pl.runQ with
  | nil => exact Or.inl ⟨rfl, rfl⟩
  | cons t rest => exact Or.inr ⟨t, rest, rfl, rfl, rfl, rfl, rfl, rfl⟩

/-- Picking a thread changes neither what a thread waits for nor its status. -/
theorem pickRun_thread (pl : ProcLocal) (t : Nat) :
    (pl.pickRun.pl.threads t).status = (pl.threads t).status ∧
      (pl.pickRun.pl.threads t).waitingSocketPtr = (pl.threads t).waitingSocketPtr := by
  rcases pickRun_cases pl with ⟨-, hsame⟩ | ⟨u, rest, -, -, -, hthreads, -⟩
  · rw [hsame]
    exact ⟨rfl, rfl⟩
  · rw [hthreads, updThread_threads]
    split
    · subst t
      exact ⟨rfl, rfl⟩
    · exact ⟨rfl, rfl⟩

theorem Queued.pickRun (hq : Queued pl) : Queued pl.pickRun.pl := by
  rcases pickRun_cases pl with ⟨-, hsame⟩ | ⟨t, rest, hrunQ, -, hrest, hthreads, hsockets, hblocked⟩
  · rw [hsame]
    exact hq
  · have hnodup := hq.runNodup
    rw [hrunQ, List.nodup_cons] at hnodup
    refine ⟨fun u => ?_, by rw [hrest]; exact hnodup.2, ?_, by rw [hblocked]; exact hq.blockedNodup⟩
    · rw [hthreads, hrest, updThread_threads]
      split
      · rename_i hu
        subst u
        simp [hnodup.1]
      · rename_i hu
        rw [hq.run u, hrunQ, List.mem_cons]
        simp [hu]
    · rw [hsockets, hblocked]
      exact hq.blocked

/-! ## Handlers that do not fail -/

/-- Every pipe leads where its side can: receive pipes to transmit rings and
transmit pipes to receive rings, or to descriptors. -/
def Wired (pl : ProcLocal) : Prop :=
  ∀ s w, (pl.sockets s).rxFd.ref ≠ .vkRx w ∧ (pl.sockets s).txFd.ref ≠ .vkTx w

theorem Handles.wired {pl pl' : ProcLocal} (h : Handles pl pl') (hw : Wired pl) : Wired pl' :=
  fun s w => by
    rw [h.rxRef, h.txRef]
    exact hw s w

theorem rc_handleRead (hw : Wired pl) (s : Nat) (os : Os) : (pl.handleRead s os).rc = 0 := by
  cases href : (pl.sockets s).rxFd.ref with
  | osFd fd | vkTx w =>
      simp only [handleRead, href]
      rfl
  | vkRx w => exact absurd href (hw s w).1

theorem rc_handleWrite (hw : Wired pl) (s : Nat) (os : Os) : (pl.handleWrite s os).rc = 0 := by
  cases href : (pl.sockets s).txFd.ref with
  | osFd fd | vkRx w =>
      simp only [handleWrite, href]
      rfl
  | vkTx w => exact absurd href (hw s w).2

theorem rc_handleForward (hw : Wired pl) (s : Nat) (os : Os) : (pl.handleForward s os).rc = 0 := by
  cases href : (pl.sockets s).rxFd.ref with
  | osFd fd =>
      simp only [handleForward, href]
      cases href' : (pl.sockets s).txFd.ref with
      | osFd fd => rfl
      | vkRx r =>
          dsimp only
          split <;> rfl
      | vkTx r => exact absurd href' (hw s r).2
  | vkTx w =>
      simp only [handleForward, href]
      cases href' : (pl.sockets s).txFd.ref with
      | osFd fd | vkRx r => rfl
      | vkTx r => exact absurd href' (hw s r).2
  | vkRx w => exact absurd href (hw s w).1

theorem rc_handleHup (hw : Wired pl) (s : Nat) : (pl.handleHup s).rc = 0 := by
  cases href : (pl.sockets s).txFd.ref with
  | osFd fd =>
      simp only [handleHup, href]
      rfl
  | vkRx r =>
      simp only [handleHup, href]
      split <;> rfl
  | vkTx r => exact absurd href (hw s r).2

theorem rc_handleReadhup (hw : Wired pl) (s : Nat) : (pl.handleReadhup s).rc = 0 := by
  cases href : (pl.sockets s).rxFd.ref with
  | osFd fd =>
      simp only [handleReadhup, href]
      rfl
  | vkTx w =>
      rw [handleReadhup_eq href]
      split <;> rfl
  | vkRx w => exact absurd href (hw s w).1

theorem rc_closes (pl : ProcLocal) (s : Nat) (os : Os) (rc : SysResult Unit) :
    (pl.handleTxClose s os).rc = 0 ∧ (pl.closeRx s rc).rc = 0 ∧ (pl.handleTxShutdown s os).rc = 0 := by
  refine ⟨?_, ?_, ?_⟩
  · unfold handleTxClose
    dsimp only
    split <;> rfl
  · unfold closeRx
    dsimp only
    split <;> rfl
  · unfold handleTxShutdown
    dsimp only
    split <;> rfl

/-- Where the wiring is right no handler fails. -/
theorem rc_socketHandler (hw : Wired pl) (s : Nat) (os : Os) : (pl.socketHandler s os).rc = 0 := by
  cases hop : (pl.sockets s).block.op <;> simp only [socketHandler, hop]
  case read =>
      have hread := rc_handleRead hw s os
      split
      · exact hread
      · split
        · exact rc_handleWrite (Handles.wired (handles_handleRead pl s os) hw) s os
        · exact hread
  case write => exact rc_handleWrite hw s os
  case forward => exact rc_handleForward hw s os
  case flush => exact rc_handleWrite hw s os
  case hup => exact rc_handleHup hw s
  case readhup => exact rc_handleReadhup hw s
  case txClose => exact (rc_closes pl s os os.close).1
  case rxClose => exact (rc_closes pl s os os.close).2.1
  case rxShutdown => exact (rc_closes pl s os os.shutdown).2.1
  case txShutdown => exact (rc_closes pl s os os.close).2.2
  case readable => rfl
  case writable => rfl

end ProcLocal

/-! ## A coroutine's own step -/

/-- What a coroutine does to the queues by itself: it may enqueue itself, as it does
to raise; no other thread changes, nor where a pipe leads. -/
structure Own (t : Nat) (pl pl' : ProcLocal) : Prop where
  queued : Queued pl → Queued pl'
  others : ∀ u, u ≠ t → pl'.threads u = pl.threads u
  runQ : ∀ u ∈ pl'.runQ, u ∈ pl.runQ ∨ u = t
  keeps : ∀ u ∈ pl.runQ, u ∈ pl'.runQ
  wiring : ∀ a, (pl'.sockets a).rxFd = (pl.sockets a).rxFd ∧
    (pl'.sockets a).txFd = (pl.sockets a).txFd

section Own

variable {t : Nat} {pl pl' pl'' : ProcLocal}

theorem Own.trans (h : Own t pl pl') (h' : Own t pl' pl'') : Own t pl pl'' := by
  refine ⟨fun hq => h'.queued (h.queued hq), fun u hu => (h'.others u hu).trans (h.others u hu),
    fun u hu => ?_, fun u hu => h'.keeps u (h.keeps u hu), fun a =>
      ⟨(h'.wiring a).1.trans (h.wiring a).1, (h'.wiring a).2.trans (h.wiring a).2⟩⟩
  rcases h'.runQ u hu with hu | hu
  · exact h.runQ u hu
  · exact Or.inr hu

/-- A socket but for its rings, its block and its error. -/
def SameEnds (socket socket' : Socket) : Prop :=
  socket'.blockedEnq = socket.blockedEnq ∧ socket'.rxFd = socket.rxFd ∧ socket'.txFd = socket.txFd

theorem own_of_same (hthreads : pl'.threads = pl.threads) (hrun : pl'.runQ = pl.runQ)
    (hblocked : pl'.blockedQ = pl.blockedQ)
    (hends : ∀ a, SameEnds (pl.sockets a) (pl'.sockets a)) : Own t pl pl' where
  queued hq := by
    refine ⟨fun t => ?_, ?_, fun a => ?_, ?_⟩
    · rw [hthreads, hrun]
      exact hq.run t
    · rw [hrun]
      exact hq.runNodup
    · rw [(hends a).1, hblocked]
      exact hq.blocked a
    · rw [hblocked]
      exact hq.blockedNodup
  others u _ := by rw [hthreads]
  runQ u hu := Or.inl (hrun ▸ hu)
  keeps u hu := by rw [hrun]; exact hu
  wiring a := (hends a).2

theorem Own.refl (pl : ProcLocal) : Own t pl pl := own_of_same rfl rfl rfl fun _ => ⟨rfl, rfl, rfl⟩

/-- A thread's own record changes, but for its mark. -/
theorem own_updThread (pl : ProcLocal) {f : Thread → Thread}
    (hf : ∀ that, (f that).runEnq = that.runEnq) : Own t pl (pl.updThread t f) where
  queued hq := by
    refine ⟨fun u => ?_, hq.runNodup, hq.blocked, hq.blockedNodup⟩
    rw [ProcLocal.updThread_threads, ProcLocal.updThread_runQ]
    split
    · subst u
      rw [hf]
      exact hq.run t
    · exact hq.run u
  others u hu := by rw [ProcLocal.updThread_threads, if_neg hu]
  runQ u hu := Or.inl hu
  keeps u hu := hu
  wiring a := ⟨rfl, rfl⟩

theorem own_updSocket (pl : ProcLocal) (s : Nat) {f : Socket → Socket}
    (hends : ∀ socket, SameEnds socket (f socket)) : Own t pl (pl.updSocket s f) := by
  refine own_of_same rfl rfl rfl fun a => ?_
  rw [ProcLocal.updSocket_sockets]
  split
  · subst a
    exact hends _
  · exact ⟨rfl, rfl, rfl⟩

theorem own_setRx (pl : ProcLocal) (s : Nat) (ring : Vectoring) : Own t pl (pl.setRx s ring) :=
  own_updSocket pl s (f := fun socket => { socket with rx := ring }) fun _ => ⟨rfl, rfl, rfl⟩

theorem own_setTx (pl : ProcLocal) (s : Nat) (ring : Vectoring) : Own t pl (pl.setTx s ring) :=
  own_updSocket pl s (f := fun socket => { socket with tx := ring }) fun _ => ⟨rfl, rfl, rfl⟩

theorem own_updBlock (pl : ProcLocal) (s : Nat) (f : Block → Block) : Own t pl (pl.updBlock s f) :=
  own_updSocket pl s (f := fun socket => { socket with block := f socket.block }) fun _ =>
    ⟨rfl, rfl, rfl⟩

/-- A body is about rings and a block. -/
theorem body_ends (pl : ProcLocal) (k : IoLoop) (s a : Nat) :
    SameEnds (pl.sockets a) (((k.loop s).body pl).sockets a) := by
  by_cases ha : a = s
  · subst a
    have hrx : ∀ (pl : ProcLocal) (ring : Vectoring),
        SameEnds (pl.sockets s) ((pl.setRx s ring).sockets s) := fun pl ring => by
      obtain ⟨-, -, hrxFd, htxFd, henq⟩ := ProcLocal.setRx_rest pl s s ring
      exact ⟨henq, hrxFd, htxFd⟩
    have htx : ∀ (pl : ProcLocal) (ring : Vectoring),
        SameEnds (pl.sockets s) ((pl.setTx s ring).sockets s) := fun pl ring => by
      obtain ⟨-, -, hrxFd, htxFd, henq⟩ := ProcLocal.setTx_rest pl s s ring
      exact ⟨henq, hrxFd, htxFd⟩
    have hrecv : ∀ pl : ProcLocal, SameEnds (pl.sockets s) ((pl.recvCommit s).sockets s) :=
      fun pl => by
        unfold ProcLocal.recvCommit
        dsimp only
        rw [blockCommit_self]
        exact hrx { pl with mem := _ } _
    cases k with
    | read => exact hrecv pl
    | readline =>
        have hline := hrecv (requestLine pl s)
        rw [requestLine, updBlock_self] at hline
        exact hline
    | pollread | hup =>
        show SameEnds _ ((pl.blockCommit s _).sockets s)
        rw [blockCommit_self]
        exact ⟨rfl, rfl, rfl⟩
    | once =>
        show SameEnds _ ((pl.updBlock s fun block => block.setUncommitted 0).sockets s)
        rw [updBlock_self]
        exact ⟨rfl, rfl, rfl⟩
    | write =>
        show SameEnds _ ((pl.sendCommit s).sockets s)
        unfold ProcLocal.sendCommit
        dsimp only
        rw [blockCommit_self]
        exact htx pl _
    | flush | hupFlush => exact ⟨rfl, rfl, rfl⟩
    | forward =>
        show SameEnds _ ((pl.forwardCommit s).sockets s)
        unfold ProcLocal.forwardCommit
        dsimp only
        rw [blockCommit_self]
        have hset := htx (pl.setRx s ((pl.sockets s).tx.splice (pl.sockets s).rx
          (ProcLocal.ssize (pl.sockets s).block.getUncommitted) pl.errno).tx) ((pl.sockets s).tx.splice
            (pl.sockets s).rx (ProcLocal.ssize (pl.sockets s).block.getUncommitted) pl.errno).rx
        obtain ⟨henq, hrxFd, htxFd⟩ := hrx pl ((pl.sockets s).tx.splice (pl.sockets s).rx
          (ProcLocal.ssize (pl.sockets s).block.getUncommitted) pl.errno).tx
        exact ⟨hset.1.trans henq, hset.2.1.trans hrxFd, hset.2.2.trans htxFd⟩
  · rw [body_other pl s k ha]
    exact ⟨rfl, rfl, rfl⟩

theorem own_body (pl : ProcLocal) (k : IoLoop) (s : Nat) : Own t pl ((k.loop s).body pl) :=
  own_of_same (Machine.body_threads pl k s) (by cases k <;> rfl) (by cases k <;> rfl)
    (body_ends pl k s)

theorem own_enqueueRun (pl : ProcLocal) : Own t pl (pl.enqueueRun t) where
  queued hq := ProcLocal.Queued.enqueueRun hq t
  others u hu := by
    have hready : (pl.ready t).threads u = pl.threads u := by
      rw [ProcLocal.ready, ProcLocal.updThread_threads, if_neg hu]
    rcases ProcLocal.enqueueRun_cases pl t with ⟨-, -, -, hthreads⟩ | ⟨-, hsame⟩
    · rw [hthreads, ProcLocal.updThread_threads, if_neg hu, hready]
    · rw [hsame, hready]
  runQ u hu := ProcLocal.enqueueRun_runQ pl t u hu
  keeps u hu := by
    rcases ProcLocal.enqueueRun_cases pl t with ⟨-, -, hrunQ, -⟩ | ⟨-, hsame⟩
    · rw [hrunQ]
      exact List.mem_cons_of_mem _ hu
    · rw [hsame]
      exact hu
  wiring a := by
    rw [ProcLocal.enqueueRun_sockets]
    exact ⟨rfl, rfl⟩

theorem own_raiseAt (pl : ProcLocal) (e : Errno) : Own t pl (pl.raiseAt t e) := by
  have herror : Own t pl (pl.updThread t fun that => { that with error := e }) :=
    own_updThread pl fun _ => rfl
  have henqueue := own_enqueueRun (t := t) (pl.updThread t fun that => { that with error := e })
  have hstatus := own_updThread (t := t) ((pl.updThread t fun that =>
    { that with error := e }).enqueueRun t) (f := fun that => { that with status := .err })
    fun _ => rfl
  exact (herror.trans henqueue).trans hstatus

theorem own_waitOn (pl : ProcLocal) (s : Nat) : Own t pl (pl.waitOn t s) := by
  have hwait := own_updThread (t := t) pl (f := fun that =>
    { that with waitingSocketPtr := some s, status := .wait }) fun _ => rfl
  exact hwait.trans (own_updBlock _ s fun block => { block with blockedVk := t })

end Own

namespace Machine

variable {m m' : Machine} {t s : Nat}

theorem own_raise (m : Machine) (t : Nat) (e : Errno) : Own t m.pl (m.raise t e).pl :=
  own_raiseAt m.pl e

theorem own_leave (m : Machine) (t : Nat) (k : IoLoop) (s : Nat) :
    Own t m.pl (m.leave t k s).pl := by
  by_cases hk : k = .hupFlush
  · subst k
    cases heof : (m.pl.sockets s).tx.eof with
    | true =>
        rw [leave_of_eof heof]
        have hset : Own t m.pl ((m.pl.setTx s (m.pl.sockets s).tx).setErrno Errno.EINVAL) :=
          (own_setTx m.pl s _).trans (own_of_same rfl rfl rfl fun _ => ⟨rfl, rfl, rfl⟩)
        exact hset.trans (own_raiseAt _ _)
    | false =>
        rw [leave_of_not_eof heof]
        exact (own_setTx m.pl s _).trans (own_updBlock _ s fun block => block.init 0 1 .hup)
  · rw [leave_of_ne hk]
    exact Own.refl m.pl

theorem own_turn (m : Machine) (t : Nat) (k : IoLoop) (s : Nat) : Own t m.pl (m.turn t k s).pl := by
  have hbody := own_body (t := t) m.pl k s
  have hturned := (k.loop s).turned m.pl
  unfold turn
  generalize (k.loop s).turn m.pl = outcome at hturned
  cases hturned with
  | left => exact own_leave m t k s
  | failed => exact hbody.trans (own_raise { m with pl := (k.loop s).body m.pl } t _)
  | done => exact hbody.trans (own_leave { m with pl := (k.loop s).body m.pl } t k s)
  | wait => exact hbody.trans (own_waitOn _ s)
  | again => exact hbody

theorem own_enter (pl : ProcLocal) (c : IoCall) : Own t pl (c.enter pl) := by
  have hinit : ∀ (pl : ProcLocal) (s buf len : Nat) (op : Op),
      Own t pl (pl.blockInit s buf len op) := fun pl s buf len op =>
    own_updBlock pl s fun block => block.init buf len op
  cases c with
  | once s op =>
      have hqueue : Own t pl (if op = .readable ∨ op = .writable then pl.enqueueBlocked s else pl) := by
        split
        · obtain ⟨hthreads, hrun⟩ := ProcLocal.enqueueBlocked_rest pl s
          refine ⟨fun hq => ProcLocal.Queued.enqueueBlocked hq s, fun u _ => by rw [hthreads],
            fun u hu => Or.inl (hrun ▸ hu), fun u hu => by rw [hrun]; exact hu, fun a => ?_⟩
          rcases ProcLocal.enqueueBlocked_cases pl s with ⟨-, -, hsockets⟩ | ⟨-, hsame⟩
          · rw [hsockets, ProcLocal.updSocket_sockets]
            split
            · subst a
              exact ⟨rfl, rfl⟩
            · exact ⟨rfl, rfl⟩
          · rw [hsame]
            exact ⟨rfl, rfl⟩
        · exact Own.refl pl
      exact hqueue.trans (hinit _ s 0 1 op)
  | _ => exact hinit _ _ _ _ _

theorem own_call (m : Machine) (t : Nat) (c : IoCall) : Own t m.pl (m.call t c).pl := by
  unfold call
  split
  · exact (own_enter m.pl c).trans (own_raise { m with pl := c.enter m.pl } t _)
  · exact own_enter m.pl c

/-- Reading a hang-up may run its handler, and then the coroutine goes on by itself. -/
theorem readhup_own (m : Machine) (t s : Nat) :
    ∃ pl, (pl = m.pl ∨ pl = (m.pl.handleReadhup s).pl) ∧ Own t pl (m.readhup t s).pl := by
  unfold readhup
  split
  · refine ⟨(m.pl.handleReadhup s).pl, Or.inr rfl, ?_⟩
    generalize (m.pl.handleReadhup s).pl = pl
    have htaken : Own t pl ((pl.setRx s ((pl.sockets s).rx.readhup pl.errno).ring).setErrno
        ((pl.sockets s).rx.readhup pl.errno).errno) :=
      (own_setRx pl s _).trans (own_of_same rfl rfl rfl fun _ => ⟨rfl, rfl, rfl⟩)
    dsimp only
    split
    · exact htaken.trans (own_raiseAt _ _)
    · exact htaken
  · exact ⟨m.pl, Or.inl rfl, own_raiseAt m.pl _⟩

theorem readhup_wakes (m : Machine) (t s : Nat) :
    ∃ pl, Handles m.pl pl ∧ ProcLocal.HandlerWakes s m.pl pl ∧ Own t pl (m.readhup t s).pl := by
  obtain ⟨pl, rfl | rfl, hown⟩ := readhup_own m t s
  · exact ⟨m.pl, (Settles.refl m.pl).handles, Wakes.refl m.pl, hown⟩
  · exact ⟨_, ProcLocal.handles_handleReadhup m.pl s, ProcLocal.wakes_handleReadhup m.pl s, hown⟩

/-! ## The queues -/

/-- The thread that the executor is at. -/
def current (m : Machine) : Option Nat :=
  match m.stage with
  | .inside t | .back t | .exec (.loop t) => some t
  | .kernel | .exec .pick | .exec (.returned _) => none

/-- The step may put thread `u` in the run queue. -/
def MayWake (a : Act) (m : Machine) (u : Nat) : Prop :=
  match m.stage, a with
  | .kernel, .play t => u = t
  | .kernel, .retry s _ => u = m.pl.blockedVk s ∨ m.pl.PeerBlocks s u
  | .inside _, .co (.play t) => u = t
  | .inside t, .co (.readhup s) => u = t ∨ m.pl.PeerBlocks s u
  | .inside t, .co _ => u = t
  | .back t, .unblock _ => (m.pl.threads t).status = .wait ∧
      ∃ s, (m.pl.threads t).waitingSocketPtr = some s ∧ m.pl.PeerBlocks s u
  | _, _ => False

/-- The threads that the step may put in the run queue. -/
def woken (a : Act) (m : Machine) : List Nat :=
  match m.stage, a with
  | .kernel, .play t => [t]
  | .kernel, .retry s _ => m.pl.blockedVk s :: (m.pl.peers s).map m.pl.blockedVk
  | .inside _, .co (.play t) => [t]
  | .inside t, .co (.readhup s) => t :: (m.pl.peers s).map m.pl.blockedVk
  | .inside t, .co _ => [t]
  | .back t, .unblock _ =>
      if (m.pl.threads t).status = .wait then
        (m.pl.threads t).waitingSocketPtr.toList.flatMap fun s => (m.pl.peers s).map m.pl.blockedVk
      else []
  | _, _ => []

theorem mem_woken_iff {a : Act} {m : Machine} {u : Nat} : u ∈ woken a m ↔ MayWake a m u := by
  have hpeers : ∀ s, u ∈ (m.pl.peers s).map m.pl.blockedVk ↔ m.pl.PeerBlocks s u := fun s => by
    simp only [List.mem_map, ProcLocal.mem_peers_iff, ProcLocal.PeerBlocks]
  unfold woken MayWake
  split
  case h_1 | h_3 | h_5 => exact List.mem_singleton
  case h_2 | h_4 => rw [List.mem_cons, hpeers]
  case h_6 t os hst =>
      split
      · rename_i hwait
        simp only [List.mem_flatMap, Option.mem_toList, hpeers, hwait, true_and]
      · rename_i hwait
        simp only [List.not_mem_nil, hwait, false_and]
  case h_7 => exact iff_of_false List.not_mem_nil not_false

instance (a : Act) (m : Machine) (u : Nat) : Decidable (MayWake a m u) :=
  decidable_of_iff (u ∈ woken a m) mem_woken_iff

theorem wakes_unflagged {that : Nat} {others : Nat → Prop} (pl : ProcLocal) (s a : Nat) :
    Wakes that others s pl (pl.unflagged a) := by
  have hrx : Wakes that others s pl (pl.unflagRx a) := by
    unfold ProcLocal.unflagRx
    split
    · exact ProcLocal.wakes_setRx pl a ((pl.sockets a).rx.setRxBlocked false)
    · exact Wakes.refl pl
  refine hrx.trans fun _ => ?_
  unfold ProcLocal.unflagged ProcLocal.unflagTx
  split
  · exact ProcLocal.wakes_setTx _ a (((pl.unflagRx a).sockets a).tx.setTxBlocked false)
  · exact Wakes.refl _

/-- The handler that a retry runs. -/
theorem wakes_retryHandler (pl : ProcLocal) (s : Nat) (os : Os) :
    ProcLocal.HandlerWakes s pl ((pl.unflagged s).socketHandler s os).pl := by
  have hhandles := ProcLocal.handles_unflagged pl s
  refine (wakes_unflagged pl s s).trans fun hvk => ?_
  have hhandler := ProcLocal.wakes_socketHandler (pl.unflagged s) s os
  have hpeers : ∀ u, (pl.unflagged s).PeerBlocks s u ↔ pl.PeerBlocks s u := fun u => by
    simp only [ProcLocal.PeerBlocks, ProcLocal.Peer, hhandles.rxRef, hhandles.txRef, hvk]
  rwa [ProcLocal.HandlerWakes, hvk, funext fun u => propext (hpeers u)] at hhandler

/-- The handler that a thread's return runs. -/
theorem wakes_afterCallHandler (pl : ProcLocal) (s : Nat) (os : Os) :
    ProcLocal.HandlerWakes s pl (({ pl with runningCr := none } : ProcLocal).socketHandler s os).pl := by
  have hclear : ProcLocal.HandlerWakes s pl { pl with runningCr := none } :=
    wakes_of_same rfl rfl rfl (fun _ => rfl) fun _ => rfl
  have hhandler := ProcLocal.wakes_socketHandler { pl with runningCr := none } s os
  exact Wakes.trans hclear fun _ => hhandler

theorem queued_execute (hq : Queued m.pl) (phase : Phase) : Queued (m.execute phase).pl := by
  have hsame : ∀ {pl : ProcLocal}, pl.threads = m.pl.threads → pl.runQ = m.pl.runQ →
      pl.sockets = m.pl.sockets → pl.blockedQ = m.pl.blockedQ → Queued pl :=
    fun hthreads hrun hsockets hblocked =>
      (own_of_same (t := 0) hthreads hrun hblocked fun a => by
        rw [hsockets]
        exact ⟨rfl, rfl, rfl⟩).queued hq
  cases phase with
  | pick => exact ProcLocal.Queued.pickRun hq
  | loop t =>
      unfold execute
      dsimp only
      split
      · have hrunning : Queued ({ m.pl with runningCr := some t } : ProcLocal) :=
          hsame rfl rfl rfl rfl
        unfold enterThread
        dsimp only
        split
        · exact (own_updThread (t := t) { m.pl with runningCr := some t }
            (f := fun that => { that with waitingSocketPtr := none }) fun _ => rfl).queued hrunning
        · exact hrunning
      · show Queued (m.pl.leaveLoop t).pl
        unfold ProcLocal.leaveLoop
        dsimp only
        split
        · exact ProcLocal.Queued.ready hq t
        · exact hq
  | returned rc => exact hq

theorem queued_step {a : Act} (h : step a m = some m') (hq : Queued m.pl) : Queued m'.pl := by
  cases stepped h with
  | start => exact hq
  | play hst t => exact ProcLocal.Queued.enqueueRun hq t
  | answer hst b rx tx =>
      exact (own_updBlock (t := 0) m.pl b fun block => { block with
        ioftRxRet := { block.ioftRxRet with event := rx }
        ioftTxRet := { block.ioftTxRet with event := tx } }).queued hq
  | retry hst b os hb =>
      have hhandler := (wakes_retryHandler m.pl b os).queued hq
      dsimp only
      rw [ProcLocal.retrySocket_eq]
      split
      · exact hhandler
      · exact ProcLocal.Queued.enqueueRun (ProcLocal.Queued.dropBlocked hhandler b) _
  | exec phase hst => exact queued_execute hq phase
  | unblock t hst os =>
      have hclear : Queued ({ m.pl with runningCr := none } : ProcLocal) :=
        ⟨hq.run, hq.runNodup, hq.blocked, hq.blockedNodup⟩
      dsimp only
      unfold ProcLocal.afterCall
      dsimp only
      split
      · have hdrop := ProcLocal.Queued.dropBlockedFor hclear t
        split
        · exact ProcLocal.Queued.dropRun hdrop t
        · exact hdrop
      · unfold ProcLocal.unblock
        dsimp only
        split
        · split
          · exact (wakes_afterCallHandler m.pl _ os).queued hq
          · exact ⟨hq.run, hq.runNodup, hq.blocked, hq.blockedNodup⟩
        · exact hclear
  | co t hst c m' hco =>
      cases coStepped hco with
      | turn k b hpos => exact (own_turn m t k b).queued hq
      | call hpos c hknown => exact (own_call m t c).queued hq
      | readhup hpos b =>
          obtain ⟨pl, -, hwakes, hown⟩ := readhup_wakes m t b
          exact hown.queued (hwakes.queued hq)
      | play hpos u => exact ProcLocal.Queued.enqueueRun hq u
      | store hpos mem => exact ⟨hq.run, hq.runNodup, hq.blocked, hq.blockedNodup⟩
      | raise hpos e => exact (own_raise m t e).queued hq
      | stop hpos status hstatus =>
          exact (own_updThread (t := t) m.pl (f := fun that => { that with status := status })
            fun _ => rfl).queued hq

/-- A thread comes into the run queue only by a step that may wake it. -/
theorem runQ_step {a : Act} {u : Nat} (h : step a m = some m') (hq : Queued m.pl)
    (hu : u ∈ m'.pl.runQ) : u ∈ m.pl.runQ ∨ MayWake a m u := by
  cases stepped h with
  | start | answer => exact Or.inl hu
  | play hst t =>
      refine (ProcLocal.enqueueRun_runQ m.pl t u hu).imp_right fun hut => ?_
      unfold MayWake
      rw [hst]
      exact hut
  | retry hst b os hb =>
      have hwakes := wakes_retryHandler m.pl b os
      have hwho : u ∈ m.pl.runQ ∨ u = m.pl.blockedVk b ∨ m.pl.PeerBlocks b u := by
        dsimp only at hu
        rw [ProcLocal.retrySocket_eq] at hu
        split at hu
        · exact (hwakes.runQ u hu).imp_right Or.inr
        · rcases ProcLocal.enqueueRun_runQ _ _ u hu with hu | hu
          · rw [ProcLocal.dropBlocked_runQ] at hu
            exact (hwakes.runQ u hu).imp_right Or.inr
          · exact Or.inr (Or.inl hu)
      refine hwho.imp_right fun hwho => ?_
      unfold MayWake
      rw [hst]
      exact hwho
  | exec phase hst =>
      left
      cases phase with
      | pick =>
          rcases ProcLocal.pickRun_cases m.pl with ⟨-, hsame⟩ | ⟨t, rest, hrunQ, -, hrest, -⟩
          · have hu : u ∈ m.pl.pickRun.pl.runQ := hu
            rwa [hsame] at hu
          · have hu : u ∈ m.pl.pickRun.pl.runQ := hu
            rw [hrest] at hu
            rw [hrunQ]
            exact List.mem_cons_of_mem _ hu
      | loop t =>
          unfold execute at hu
          dsimp only at hu
          split at hu
          · unfold enterThread at hu
            dsimp only at hu
            split at hu
            · exact hu
            · exact hu
          · have hu : u ∈ (m.pl.leaveLoop t).pl.runQ := hu
            rwa [Exec.leaveLoop_runQ] at hu
      | returned rc => exact hu
  | unblock t hst os =>
      dsimp only at hu
      unfold ProcLocal.afterCall at hu
      dsimp only at hu
      split at hu
      · left
        have hclear : Queued ({ m.pl with runningCr := none } : ProcLocal) :=
          ⟨hq.run, hq.runNodup, hq.blocked, hq.blockedNodup⟩
        have hrunQ := ProcLocal.dropBlockedFor_runQ hclear t
        split at hu
        · have hu := ((ProcLocal.mem_dropRun_iff (ProcLocal.Queued.dropBlockedFor hclear t) t u).mp hu).1
          rw [hrunQ] at hu
          exact hu
        · rw [hrunQ] at hu
          exact hu
      · unfold ProcLocal.unblock at hu
        dsimp only at hu
        split at hu
        · rename_i hwait
          split at hu
          · rename_i b hb
            refine ((wakes_afterCallHandler m.pl b os).runQ u hu).imp_right fun hpeer => ?_
            unfold MayWake
            rw [hst]
            exact ⟨hwait, b, hb, hpeer⟩
          · exact Or.inl hu
        · exact Or.inl hu
  | co t hst c m' hco =>
      have hown : ∀ {pl : ProcLocal}, Own t m.pl pl → u ∈ pl.runQ → u ∈ m.pl.runQ ∨ u = t :=
        fun hown hu => hown.runQ u hu
      unfold MayWake
      rw [hst]
      cases coStepped hco with
      | turn k b hpos => exact hown (own_turn m t k b) hu
      | call hpos c hknown => exact hown (own_call m t c) hu
      | readhup hpos b =>
          obtain ⟨pl, -, hwakes, hown⟩ := readhup_wakes m t b
          rcases hown.runQ u hu with hu | hu
          · exact (hwakes.runQ u hu).imp_right Or.inr
          · exact Or.inr (Or.inl hu)
      | play hpos v => exact ProcLocal.enqueueRun_runQ m.pl v u hu
      | store hpos mem => exact Or.inl hu
      | raise hpos e => exact hown (own_raise m t e) hu
      | stop hpos status hstatus => exact Or.inl hu

/-- A thread leaves the run queue when the executor picks it, or when it comes back
from its end. -/
theorem keeps_step {a : Act} {u : Nat} (h : step a m = some m') (hq : Queued m.pl)
    (hu : u ∈ m.pl.runQ) : u ∈ m'.pl.runQ ∨ m.stage = .exec .pick ∧ m'.stage = .exec (.loop u) ∨
    m.stage = .back u ∧ (m.pl.threads u).status = .ended := by
  have hq' := queued_step h hq
  have hmarked : ∀ {pl : ProcLocal}, Queued pl → ((m.pl.threads u).runEnq = true →
      (pl.threads u).runEnq = true) → u ∈ pl.runQ := fun hq' henq =>
    (hq'.run u).mp (henq ((hq.run u).mpr hu))
  cases stepped h with
  | start | answer => exact Or.inl hu
  | play hst t => exact Or.inl ((own_enqueueRun (t := t) m.pl).keeps u hu)
  | retry hst b os hb =>
      have hwakes := wakes_retryHandler m.pl b os
      refine Or.inl (hmarked hq' fun henq => ?_)
      have henq := hwakes.enq u henq
      dsimp only
      rw [ProcLocal.retrySocket_eq]
      split
      · exact henq
      · refine ProcLocal.enqueueRun_runEnq _ _ u ?_
        rw [ProcLocal.dropBlocked_threads]
        exact henq
  | exec phase hst =>
      cases phase with
      | pick =>
          rcases ProcLocal.pickRun_cases m.pl with ⟨hempty, -⟩ | ⟨t, rest, hrunQ, hphase, hrest, -⟩
          · rw [hempty] at hu
            cases hu
          · rw [hrunQ, List.mem_cons] at hu
            rcases hu with rfl | hu
            · right
              left
              exact ⟨hst, congrArg Stage.exec hphase⟩
            · left
              show u ∈ m.pl.pickRun.pl.runQ
              rw [hrest]
              exact hu
      | loop t =>
          left
          unfold execute
          dsimp only
          split
          · unfold enterThread
            dsimp only
            split <;> exact hu
          · show u ∈ (m.pl.leaveLoop t).pl.runQ
            rw [Exec.leaveLoop_runQ]
            exact hu
      | returned rc => exact Or.inl hu
  | unblock t hst os =>
      dsimp only
      unfold ProcLocal.afterCall
      dsimp only
      split
      · rename_i hended
        have hclear : Queued ({ m.pl with runningCr := none } : ProcLocal) :=
          ⟨hq.run, hq.runNodup, hq.blocked, hq.blockedNodup⟩
        have hrunQ := ProcLocal.dropBlockedFor_runQ hclear t
        by_cases hut : u = t
        · subst hut
          exact Or.inr (Or.inr ⟨hst, hended⟩)
        · left
          split
          · refine (ProcLocal.mem_dropRun_iff (ProcLocal.Queued.dropBlockedFor hclear t) t u).mpr
              ⟨?_, hut⟩
            rw [hrunQ]
            exact hu
          · rw [hrunQ]
            exact hu
      · left
        unfold ProcLocal.unblock
        dsimp only
        split
        · split
          · rename_i b hb
            have hwakes := wakes_afterCallHandler m.pl b os
            exact hmarked (hwakes.queued hq) (hwakes.enq u)
          · exact hu
        · exact hu
  | co t hst c m' hco =>
      left
      cases coStepped hco with
      | turn k b hpos => exact (own_turn m t k b).keeps u hu
      | call hpos c hknown => exact (own_call m t c).keeps u hu
      | readhup hpos b =>
          obtain ⟨pl, -, hwakes, hown⟩ := readhup_wakes m t b
          exact hown.keeps u (hmarked (hwakes.queued hq) (hwakes.enq u))
      | play hpos v => exact (own_enqueueRun (t := v) m.pl).keeps u hu
      | store hpos mem => exact hu
      | raise hpos e => exact (own_raise m t e).keeps u hu
      | stop hpos status hstatus => exact hu

/-- A thread that comes back waits for a socket that blocks it. -/
def BacksOwn (m : Machine) : Prop :=
  ∀ t s, m.stage = .back t → (m.pl.threads t).status = .wait →
    (m.pl.threads t).waitingSocketPtr = some s → m.pl.blockedVk s = t

/-- A thread that is enqueued, after others may have been woken. -/
theorem enqueueRun_rouses {pl pl' : ProcLocal} (t u : Nat)
    (h : (pl'.threads u).status = (pl.threads u).status ∨
      (pl.threads u).status ≠ .ended ∧ (pl'.threads u).status = .run ∧
        (u = t ∨ (pl'.threads u).runEnq = true)) :
    ((pl'.enqueueRun t).threads u).status = (pl.threads u).status ∨
      (pl.threads u).status ≠ .ended ∧ ((pl'.enqueueRun t).threads u).status = .run ∧
        ((pl'.enqueueRun t).threads u).runEnq = true := by
  have hself : u = t → ((pl'.enqueueRun t).threads u).status = .run →
      ((pl'.enqueueRun t).threads u).runEnq = true := fun hut hrun => by
    subst hut
    exact ProcLocal.enqueueRun_runEnq_self pl' (by rw [Thread.isReady, hrun]; rfl)
  have hready := ProcLocal.ready_status_cases pl' t u
  rw [← ProcLocal.enqueueRun_status] at hready
  rcases hready with hsame | ⟨hended, hrun, hut⟩
  · rw [hsame]
    refine h.imp_right ?_
    rintro ⟨hended, hrun, hut | henq⟩
    · exact ⟨hended, hrun, hself hut (hsame.trans hrun)⟩
    · exact ⟨hended, hrun, ProcLocal.enqueueRun_runEnq pl' t u henq⟩
  · right
    refine ⟨?_, hrun, hself hut hrun⟩
    rcases h with hsame | ⟨hended', -, -⟩
    · rwa [hsame] at hended
    · exact hended'

/-- Where a thread's status changes from outside it is set to run, and it is in the
run queue, or the executor is at it, or a coroutine has read a hang-up on a socket
that blocks it. -/
theorem roused_step {a : Act} (h : step a m = some m') (hq : Queued m.pl)
    (hw : ProcLocal.Wired m.pl) (hback : BacksOwn m) (u : Nat) :
    (m'.pl.threads u).status = (m.pl.threads u).status ∨ m.stage = .inside u ∨
    (m.pl.threads u).status ≠ .ended ∧ (m'.pl.threads u).status = .run ∧
      (u ∈ m'.pl.runQ ∨ m.current = some u ∨
        ∃ t s, m.stage = .inside t ∧ a = .co (.readhup s) ∧ u = m.pl.blockedVk s) := by
  have hq' := queued_step h hq
  cases stepped h with
  | start | answer => exact Or.inl rfl
  | play hst t =>
      exact (enqueueRun_rouses t u (Or.inl rfl)).imp_right fun ⟨hended, hrun, henq⟩ =>
        Or.inr ⟨hended, hrun, Or.inl ((hq'.run u).mp henq)⟩
  | retry hst b os hb =>
      have hwakes := wakes_retryHandler m.pl b os
      have hhandles := ProcLocal.handles_unflagged m.pl b
      have hrc := ProcLocal.rc_socketHandler (ProcLocal.Handles.wired hhandles hw) b os
      have heq : (m.pl.retrySocket b os).pl
          = (((m.pl.unflagged b).socketHandler b os).pl.dropBlocked b).enqueueRun (m.pl.blockedVk b) := by
        rw [ProcLocal.retrySocket_eq, if_neg (by omega)]
      dsimp only at hq' ⊢
      rw [heq] at hq' ⊢
      refine (enqueueRun_rouses _ u ?_).imp_right fun ⟨hended, hrun, henq⟩ =>
        Or.inr ⟨hended, hrun, Or.inl ((hq'.run u).mp henq)⟩
      rw [ProcLocal.dropBlocked_threads]
      exact hwakes.status u
  | exec phase hst =>
      cases phase with
      | pick =>
          exact Or.inl (ProcLocal.pickRun_thread m.pl u).1
      | loop t =>
          unfold execute
          dsimp only
          split
          · left
            unfold enterThread
            dsimp only
            split
            · rw [ProcLocal.updThread_threads]
              split
              · subst u
                rfl
              · rfl
            · rfl
          · show ((m.pl.leaveLoop t).pl.threads u).status = _ ∨ _ ∨ _ ∧
              ((m.pl.leaveLoop t).pl.threads u).status = _ ∧ _
            unfold ProcLocal.leaveLoop
            dsimp only
            split
            · refine (ProcLocal.ready_status_cases m.pl t u).imp_right fun ⟨hended, hrun, hut⟩ =>
                Or.inr ⟨hended, hrun, Or.inr (Or.inl ?_)⟩
              rw [current, hst, hut]
            · exact Or.inl rfl
      | returned rc => exact Or.inl rfl
  | unblock t hst os =>
      dsimp only at hq' ⊢
      rcases hcall : (m.pl.threads t).status with _ | _ | _ | _ | _ | _
      case wait =>
        cases hs : (m.pl.threads t).waitingSocketPtr with
        | none =>
            left
            unfold ProcLocal.afterCall ProcLocal.unblock
            simp only [hcall, hs, reduceCtorEq, if_false]
            rfl
        | some b =>
            have heq := @ProcLocal.afterCall_of_wait _ _ _ os hcall hs
            rw [heq] at hq' ⊢
            have hwakes := wakes_afterCallHandler m.pl b os
            have hvk := hback t b hst hcall hs
            rcases hwakes.status u with hsame | ⟨hended, hrun, hut | henq⟩
            · exact Or.inl hsame
            · refine Or.inr (Or.inr ⟨hended, hrun, Or.inr (Or.inl ?_)⟩)
              rw [current, hst, hut, hvk]
            · exact Or.inr (Or.inr ⟨hended, hrun, Or.inl ((hq'.run u).mp henq)⟩)
      case ended =>
        exact Or.inl (ProcLocal.afterCall_status_of_ended hcall u)
      all_goals
        left
        unfold ProcLocal.afterCall ProcLocal.unblock
        simp only [hcall, reduceCtorEq, if_false]
  | co t hst c m' hco =>
      by_cases hut : u = t
      · subst hut
        exact Or.inr (Or.inl hst)
      · have hown : ∀ {pl : ProcLocal}, Own t m.pl pl →
            (pl.threads u).status = (m.pl.threads u).status := fun hown => by
          rw [hown.others u hut]
        cases coStepped hco with
        | turn k b hpos => exact Or.inl (hown (own_turn m t k b))
        | call hpos c hknown => exact Or.inl (hown (own_call m t c))
        | readhup hpos b =>
            obtain ⟨pl, -, hwakes, hown⟩ := readhup_wakes m t b
            have hmarked : (pl.threads u).runEnq = true → u ∈ (m.readhup t b).pl.runQ := fun henq =>
              hown.keeps u ((((hwakes.queued hq).run u).mp henq))
            rw [hown.others u hut]
            rcases hwakes.status u with hsame | ⟨hended, hrun, hwho | henq⟩
            · exact Or.inl hsame
            · exact Or.inr (Or.inr ⟨hended, hrun, Or.inr (Or.inr ⟨t, b, hst, rfl, hwho⟩)⟩)
            · exact Or.inr (Or.inr ⟨hended, hrun, Or.inl (hmarked henq)⟩)
        | play hpos v =>
            exact (enqueueRun_rouses v u (Or.inl rfl)).imp_right fun ⟨hended, hrun, henq⟩ =>
              Or.inr ⟨hended, hrun, Or.inl ((hq'.run u).mp henq)⟩
        | store hpos mem => exact Or.inl rfl
        | raise hpos e => exact Or.inl (hown (own_raise m t e))
        | stop hpos status hstatus =>
            left
            rw [ProcLocal.updThread_threads, if_neg hut]

/-- No step changes what a pipe leads to. -/
theorem refs_step {a : Act} (h : step a m = some m') (c : Nat) :
    (m'.pl.sockets c).rxFd.ref = (m.pl.sockets c).rxFd.ref ∧
      (m'.pl.sockets c).txFd.ref = (m.pl.sockets c).txFd.ref := by
  have hsame : ∀ {pl : ProcLocal}, pl.sockets = m.pl.sockets →
      (pl.sockets c).rxFd.ref = (m.pl.sockets c).rxFd.ref ∧
        (pl.sockets c).txFd.ref = (m.pl.sockets c).txFd.ref := fun hs => by
    rw [hs]
    exact ⟨rfl, rfl⟩
  have hhandled : ∀ {pl pl' : ProcLocal}, Handles pl pl' →
      (pl'.sockets c).rxFd.ref = (pl.sockets c).rxFd.ref ∧
        (pl'.sockets c).txFd.ref = (pl.sockets c).txFd.ref := fun hhandles =>
    ⟨hhandles.rxRef c, hhandles.txRef c⟩
  have howned : ∀ {t : Nat} {pl pl' : ProcLocal}, Own t pl pl' →
      (pl'.sockets c).rxFd.ref = (pl.sockets c).rxFd.ref ∧
        (pl'.sockets c).txFd.ref = (pl.sockets c).txFd.ref := fun hown => by
    rw [(hown.wiring c).1, (hown.wiring c).2]
    exact ⟨rfl, rfl⟩
  cases stepped h with
  | start => exact ⟨rfl, rfl⟩
  | play hst t => exact hsame (ProcLocal.enqueueRun_sockets m.pl t)
  | answer hst b rx tx =>
      exact howned (own_updBlock (t := 0) m.pl b fun block => { block with
        ioftRxRet := { block.ioftRxRet with event := rx }
        ioftTxRet := { block.ioftTxRet with event := tx } })
  | retry hst b os hb =>
      have hhandles := hhandled ((ProcLocal.handles_unflagged m.pl b).trans
        (ProcLocal.handles_socketHandler (m.pl.unflagged b) b os))
      dsimp only
      rw [ProcLocal.retrySocket_eq]
      split
      · exact hhandles
      · rw [ProcLocal.enqueueRun_sockets, ((ProcLocal.sameData_dropBlocked _ b).socket c).rxRef,
          ((ProcLocal.sameData_dropBlocked _ b).socket c).txRef]
        exact hhandles
  | exec phase hst => exact hsame (execute_sockets m phase)
  | unblock t hst os =>
      dsimp only
      rcases ProcLocal.afterCall_cases m.pl t os with hdata | ⟨b, -, -, hhandler⟩
      · exact ⟨(hdata.socket c).rxRef, (hdata.socket c).txRef⟩
      · rw [hhandler]
        have hhandles := ProcLocal.handles_socketHandler { m.pl with runningCr := none } b os
        exact ⟨hhandles.rxRef c, hhandles.txRef c⟩
  | co t hst a m' hco =>
      cases coStepped hco with
      | turn k b hpos => exact howned (own_turn m t k b)
      | call hpos call hknown => exact howned (own_call m t call)
      | readhup hpos b =>
          obtain ⟨pl, hhandles, -, hown⟩ := readhup_wakes m t b
          exact ⟨(howned hown).1.trans (hhandles.rxRef c), (howned hown).2.trans (hhandles.txRef c)⟩
      | play hpos v => exact hsame (ProcLocal.enqueueRun_sockets m.pl v)
      | store | stop => exact ⟨rfl, rfl⟩
      | raise hpos e => exact howned (own_raise m t e)

theorem wired_step {a : Act} (h : step a m = some m') (hw : ProcLocal.Wired m.pl) :
    ProcLocal.Wired m'.pl := fun c d => by
  rw [(refs_step h c).1, (refs_step h c).2]
  exact hw c d

/-- A socket comes into the blocked queue by the handler of the thread that waits
for it, by a hang-up read on it, or as an operation on it begins. -/
theorem blockedQ_step {a : Act} {b : Nat} (h : step a m = some m') (hq : Queued m.pl)
    (hb : b ∈ m'.pl.blockedQ) : b ∈ m.pl.blockedQ ∨
    (∃ t, m.stage = .back t ∧ (m.pl.threads t).status = .wait ∧
      (m.pl.threads t).waitingSocketPtr = some b) ∨
    (∃ t, m.stage = .inside t ∧ a = .co (.readhup b)) ∨
    ∃ t op, m.stage = .inside t ∧ a = .co (.call (.once b op)) ∧ m.pos t = none := by
  cases stepped h with
  | start | answer => exact Or.inl hb
  | play hst t => exact Or.inl (ProcLocal.enqueueRun_blockedQ m.pl t ▸ hb)
  | retry hst c os hc =>
      left
      have hwakes := wakes_retryHandler m.pl c os
      dsimp only at hb
      rw [ProcLocal.retrySocket_eq] at hb
      split at hb
      · exact (hwakes.blockedQ b hb).elim id fun hbc => hbc ▸ hc
      · rw [ProcLocal.enqueueRun_blockedQ,
          ProcLocal.mem_dropBlocked_iff (hwakes.queued hq)] at hb
        exact (hwakes.blockedQ b hb.1).elim id fun hbc => hbc ▸ hc
  | exec phase hst => exact Or.inl (execute_blockedQ m phase ▸ hb)
  | unblock t hst os =>
      dsimp only at hb
      unfold ProcLocal.afterCall at hb
      dsimp only at hb
      split at hb
      · left
        have hclear : Queued ({ m.pl with runningCr := none } : ProcLocal) :=
          ⟨hq.run, hq.runNodup, hq.blocked, hq.blockedNodup⟩
        split at hb
        · rw [ProcLocal.dropRun_blockedQ] at hb
          exact ((ProcLocal.mem_dropBlockedFor_iff hclear t b).mp hb).1
        · exact ((ProcLocal.mem_dropBlockedFor_iff hclear t b).mp hb).1
      · unfold ProcLocal.unblock at hb
        dsimp only at hb
        split at hb
        · rename_i hwait
          split at hb
          · rename_i c hc
            rcases (wakes_afterCallHandler m.pl c os).blockedQ b hb with hb | rfl
            · exact Or.inl hb
            · exact Or.inr (Or.inl ⟨t, hst, hwait, hc⟩)
          · exact Or.inl hb
        · exact Or.inl hb
  | co t hst c m' hco =>
      cases coStepped hco with
      | turn k d hpos => exact Or.inl (turn_blockedQ m t k d ▸ hb)
      | call hpos c hknown =>
          have hb : b ∈ (c.enter m.pl).blockedQ := by
            unfold call at hb
            split at hb
            · rw [raise_blockedQ] at hb
              exact hb
            · exact hb
          cases c with
          | once d op =>
              have hb : b ∈ (if op = .readable ∨ op = .writable then m.pl.enqueueBlocked d
                else m.pl).blockedQ := hb
              split at hb
              · rcases ProcLocal.enqueueBlocked_cases m.pl d with ⟨-, hblocked, -⟩ | ⟨-, hsame⟩
                · rw [hblocked, List.mem_cons] at hb
                  rcases hb with rfl | hb
                  · exact Or.inr (Or.inr (Or.inr ⟨t, op, hst, rfl, hpos⟩))
                  · exact Or.inl hb
                · rw [hsame] at hb
                  exact Or.inl hb
              · exact Or.inl hb
          | _ => exact Or.inl hb
      | readhup hpos d =>
          unfold readhup at hb
          split at hb
          · have hwakes := ProcLocal.wakes_handleReadhup m.pl d
            have hb : b ∈ (m.pl.handleReadhup d).pl.blockedQ := by
              dsimp only at hb
              split at hb
              · rw [raise_blockedQ] at hb
                exact hb
              · exact hb
            rcases hwakes.blockedQ b hb with hb | rfl
            · exact Or.inl hb
            · exact Or.inr (Or.inr (Or.inl ⟨t, hst, rfl⟩))
          · rw [raise_blockedQ] at hb
            exact Or.inl hb
      | play hpos v => exact Or.inl (ProcLocal.enqueueRun_blockedQ m.pl v ▸ hb)
      | store | stop => exact Or.inl hb
      | raise hpos e => exact Or.inl (raise_blockedQ m t e ▸ hb)

/-- Beginning an operation leaves a socket to the thread it blocks. -/
theorem blockInit_blockedVk (pl : ProcLocal) (s buf len : Nat) (op : Op) (a : Nat) :
    (pl.blockInit s buf len op).blockedVk a = pl.blockedVk a := by
  by_cases ha : a = s
  · subst ha
    rw [ProcLocal.blockedVk, ProcLocal.blockInit, updBlock_self]
    rfl
  · rw [ProcLocal.blockedVk, ProcLocal.blockInit, updBlock_other _ _ _ ha]
    rfl

theorem leave_blockedVk (m : Machine) (t : Nat) (k : IoLoop) (s a : Nat) :
    (m.leave t k s).pl.blockedVk a = m.pl.blockedVk a := by
  by_cases hk : k = .hupFlush
  · subst k
    cases heof : (m.pl.sockets s).tx.eof with
    | true =>
        rw [leave_of_eof heof, ProcLocal.blockedVk, raise_sockets]
        exact congrArg Block.blockedVk (ProcLocal.setTx_block m.pl s a _)
    | false =>
        rw [leave_of_not_eof heof, setPos_pl]
        exact (blockInit_blockedVk _ s 0 1 .hup a).trans
          (congrArg Block.blockedVk (ProcLocal.setTx_block m.pl s a _))
  · rw [leave_of_ne hk]
    rfl

theorem body_blockedVk (pl : ProcLocal) (k : IoLoop) (s a : Nat) :
    ((k.loop s).body pl).blockedVk a = pl.blockedVk a := by
  by_cases ha : a = s
  · subst ha
    exact (body_block pl a k).2
  · exact congrArg (fun socket : Socket => socket.block.blockedVk) (body_other pl s k ha)

/-- A socket blocks another thread as that thread comes to wait for it. -/
theorem blockedVk_step {a : Act} (h : step a m = some m') (b : Nat) :
    m'.pl.blockedVk b = m.pl.blockedVk b ∨
    ∃ t k, m.stage = .inside t ∧ a = .co .turn ∧ m.pos t = some (k, b) ∧
      m' = { m with pl := ((k.loop b).body m.pl).waitOn t b, stage := .back t } := by
  by_cases hs : usedSocket a m = some b
  · cases stepped h with
    | co t hst c m' hco =>
        cases coStepped hco with
        | turn k d hpos =>
            simp only [usedSocket, hst, hpos, Option.map_some, Option.some.injEq] at hs
            subst hs
            have hbody := body_blockedVk m.pl k d d
            have hturned := (k.loop d).turned m.pl
            unfold turn
            generalize (k.loop d).turn m.pl = outcome at hturned
            cases hturned with
            | left => exact Or.inl (leave_blockedVk m t k d d)
            | failed =>
                left
                rw [ProcLocal.blockedVk, raise_sockets]
                exact hbody
            | done =>
                exact Or.inl ((leave_blockedVk { m with pl := (k.loop d).body m.pl } t k d d).trans
                  hbody)
            | wait => exact Or.inr ⟨t, k, hst, rfl, hpos, rfl⟩
            | again => exact Or.inl hbody
        | call hpos c hknown =>
            left
            have henter : (c.enter m.pl).blockedVk b = m.pl.blockedVk b := by
              cases c with
              | once d op =>
                  refine (blockInit_blockedVk _ d 0 1 op b).trans ?_
                  split
                  · exact ((ProcLocal.settles_enqueueBlocked m.pl d).socket b).block.blockedVk
                  · rfl
              | _ => exact blockInit_blockedVk _ _ _ _ _ b
            unfold call
            split
            · rw [ProcLocal.blockedVk, raise_sockets]
              exact henter
            · exact henter
        | readhup | play | store | raise | stop => simp [usedSocket, hst] at hs
    | start hst | play hst | answer hst | retry hst | exec _ hst | unblock _ hst =>
        simp [usedSocket, hst] at hs
  · exact Or.inl (sameUse_step h hs).blockedVk

theorem afterCall_waiting (pl : ProcLocal) (t u : Nat) (os : Os) :
    ((pl.afterCall t os).pl.threads u).waitingSocketPtr = (pl.threads u).waitingSocketPtr := by
  unfold ProcLocal.afterCall
  dsimp only
  split
  · have hdrop : ((({ pl with runningCr := none } : ProcLocal).dropBlockedFor t).threads u
        ).waitingSocketPtr = (pl.threads u).waitingSocketPtr := by
      rw [ProcLocal.dropBlockedFor_threads]
    split
    · exact (ProcLocal.dropRun_waiting _ t u).trans hdrop
    · exact hdrop
  · unfold ProcLocal.unblock
    dsimp only
    split
    · split
      · exact (ProcLocal.handles_socketHandler { pl with runningCr := none } _ os).waiting u
      · rfl
    · rfl

/-- What a thread waits for changes as its own function runs, or is called. -/
theorem waiting_step {a : Act} (h : step a m = some m') (u : Nat) :
    (m'.pl.threads u).waitingSocketPtr = (m.pl.threads u).waitingSocketPtr ∨
    m.stage = .inside u ∨ m'.stage = .inside u := by
  cases stepped h with
  | start | answer => exact Or.inl rfl
  | play hst t => exact Or.inl ((ProcLocal.settles_enqueueRun m.pl t).waiting u)
  | retry hst b os hb =>
      left
      have hhandles := (ProcLocal.handles_unflagged m.pl b).trans
        (ProcLocal.handles_socketHandler (m.pl.unflagged b) b os)
      dsimp only
      rw [ProcLocal.retrySocket_eq]
      split
      · exact hhandles.waiting u
      · rw [(ProcLocal.settles_enqueueRun _ _).waiting, ProcLocal.dropBlocked_threads]
        exact hhandles.waiting u
  | exec phase hst =>
      cases phase with
      | pick =>
          exact Or.inl (ProcLocal.pickRun_thread m.pl u).2
      | loop t =>
          unfold execute
          dsimp only
          split
          · by_cases hut : u = t
            · subst hut
              exact Or.inr (Or.inr rfl)
            · left
              unfold enterThread
              dsimp only
              split
              · rw [ProcLocal.updThread_threads, if_neg hut]
              · rfl
          · left
            show ((m.pl.leaveLoop t).pl.threads u).waitingSocketPtr = _
            unfold ProcLocal.leaveLoop
            dsimp only
            split
            · exact ProcLocal.ready_waiting m.pl t u
            · rfl
      | returned rc => exact Or.inl rfl
  | unblock t hst os => exact Or.inl (afterCall_waiting m.pl t u os)
  | co t hst c m' hco =>
      by_cases hut : u = t
      · subst hut
        exact Or.inr (Or.inl hst)
      · left
        have hown : ∀ {pl pl' : ProcLocal}, Own t pl pl' →
            (pl'.threads u).waitingSocketPtr = (pl.threads u).waitingSocketPtr := fun hown => by
          rw [hown.others u hut]
        cases coStepped hco with
        | turn k b hpos => exact hown (own_turn m t k b)
        | call hpos c hknown => exact hown (own_call m t c)
        | readhup hpos b =>
            obtain ⟨pl, hhandles, -, hself⟩ := readhup_wakes m t b
            exact (hown hself).trans (hhandles.waiting u)
        | play hpos v => exact (ProcLocal.settles_enqueueRun m.pl v).waiting u
        | store hpos mem => rfl
        | raise hpos e => exact hown (own_raise m t e)
        | stop hpos status hstatus => rw [ProcLocal.updThread_threads, if_neg hut]

/-- A thread that comes back has raised, or waits after a turn, or has stopped. -/
theorem back_cases {a : Act} {u : Nat} (h : step a m = some m') (hst : m.stage = .inside u)
    (hst' : m'.stage = .back u) :
    (m'.pl.threads u).status = .err ∨
    (∃ k s, a = .co .turn ∧ m.pos u = some (k, s) ∧
      (k.loop s).turn m.pl = .wait ((k.loop s).body m.pl) ∧
      m' = { m with pl := ((k.loop s).body m.pl).waitOn u s, stage := .back u }) ∨
    ∃ status, a = .co (.stop status) ∧ m.pos u = none ∧ ¬(status = .wait ∨ status = .err) ∧
      m' = { m with
        pl := m.pl.updThread u fun that => { that with status := status }
        stage := .back u } := by
  cases stepped h with
  | start hu | play hu | answer hu | retry hu | exec _ hu | unblock _ hu =>
      rw [hst] at hu
      cases hu
  | co t hu a m' hco =>
      rw [hst] at hu
      cases hu
      have hleave : ∀ (pl : ProcLocal) (k : IoLoop) (s : Nat),
          (({ m with pl := pl } : Machine).leave u k s).stage = .back u →
          ((({ m with pl := pl } : Machine).leave u k s).pl.threads u).status = .err :=
        fun pl k s hback => by
          by_cases hk : k = .hupFlush
          · subst k
            cases heof : (pl.sockets s).tx.eof with
            | true =>
                rw [leave_of_eof (m := { m with pl := pl }) heof]
                exact raise_status_self _ u _
            | false =>
                rw [leave_of_not_eof (m := { m with pl := pl }) heof, setPos_stage] at hback
                rw [hst] at hback
                cases hback
          · rw [leave_of_ne (m := { m with pl := pl }) hk, setPos_stage] at hback
            rw [hst] at hback
            cases hback
      cases coStepped hco with
      | turn k s hpos =>
          have hturned := (k.loop s).turned m.pl
          unfold turn at hst' ⊢
          generalize hout : (k.loop s).turn m.pl = outcome at hturned hst' ⊢
          cases hturned with
          | left => exact Or.inl (hleave m.pl k s hst')
          | done => exact Or.inl (hleave _ k s hst')
          | failed => exact Or.inl (raise_status_self _ u _)
          | wait => exact Or.inr (Or.inl ⟨k, s, rfl, hpos, hout, rfl⟩)
          | again =>
              rw [hst] at hst'
              cases hst'
      | call hpos c hknown =>
          left
          unfold call at hst' ⊢
          split
          · exact raise_status_self _ u _
          · rename_i hrefused
            rw [hrefused] at hst'
            rw [setPos_stage, hst] at hst'
            cases hst'
      | readhup hpos s =>
          left
          unfold readhup at hst' ⊢
          split
          · rename_i hup
            rw [if_pos hup] at hst'
            dsimp only at hst' ⊢
            split
            · exact raise_status_self _ u _
            · rename_i hrc
              rw [if_neg hrc] at hst'
              rw [hst] at hst'
              cases hst'
          · exact raise_status_self m u _
      | play hpos v | store hpos mem =>
          rw [hst] at hst'
          cases hst'
      | raise hpos e => exact Or.inl (raise_status_self m u e)
      | stop hpos status hstatus => exact Or.inr (Or.inr ⟨status, rfl, hpos, hstatus, rfl⟩)

/-! ## Where a step leads -/

/-- A thread that runs goes on, or comes back. -/
theorem step_of_inside {a : Act} {u : Nat} (h : step a m = some m') (hst : m.stage = .inside u) :
    m'.stage = .inside u ∨ m'.stage = .back u := by
  cases stepped h with
  | start hu | play hu | answer hu | retry hu | exec _ hu | unblock _ hu =>
      rw [hst] at hu
      cases hu
  | co t hu c m' hco =>
      have hstage := co_stage hco
      rw [hst] at hu hstage
      cases hu
      exact hstage

/-- After a thread has come back the executor goes on with it: where the wiring is
right, and a thread that waits waits for some socket, nothing fails. -/
theorem back_step_loop {a : Act} {u : Nat} (h : step a m = some m') (hst : m.stage = .back u)
    (hw : ProcLocal.Wired m.pl)
    (hwaits : (m.pl.threads u).status = .wait → (m.pl.threads u).waitingSocketPtr ≠ none) :
    m'.stage = .exec (.loop u) := by
  cases stepped h with
  | start hu | play hu | answer hu | retry hu | exec _ hu | co _ hu =>
      rw [hst] at hu
      cases hu
  | unblock t hu os =>
      rw [hst] at hu
      cases hu
      show Stage.exec (m.pl.afterCall u os).phase = _
      unfold ProcLocal.afterCall
      dsimp only
      split
      · rfl
      · have hrc : (({ m.pl with runningCr := none } : ProcLocal).unblock u os).rc = 0 := by
          unfold ProcLocal.unblock
          dsimp only
          split
          · rename_i hwait
            split
            · exact @ProcLocal.rc_socketHandler { m.pl with runningCr := none } hw _ os
            · rename_i hnone
              exact absurd hnone (hwaits hwait)
          · rfl
        rw [hrc]
        rfl

/-- The executor calls the thread it is at, or leaves it. -/
theorem loop_step {a : Act} {u : Nat} (h : step a m = some m') (hst : m.stage = .exec (.loop u)) :
    (m.pl.threads u).isReady = true ∧ m'.stage = .inside u ∨
    (m.pl.threads u).isReady = false ∧ m'.stage = .exec .pick ∧ m'.pl = (m.pl.leaveLoop u).pl := by
  cases stepped h with
  | start hu | play hu | answer hu | retry hu | co _ hu | unblock _ hu =>
      rw [hst] at hu
      cases hu
  | exec phase hu =>
      rw [hst] at hu
      cases hu
      cases hready : (m.pl.threads u).isReady with
      | true =>
          rw [execute, if_pos hready]
          exact Or.inl ⟨rfl, rfl⟩
      | false =>
          rw [execute, if_neg (by rw [hready]; exact Bool.false_ne_true)]
          exact Or.inr ⟨rfl, rfl, rfl⟩

/-- Between two threads the executor is where picking leaves it, or where a call
that has returned does. -/
theorem exec_cases {a : Act} {phase : Phase} (h : step a m = some m')
    (hst' : m'.stage = .exec phase) (hphase : phase ≠ .pick) :
    m.stage = .exec .pick ∧ m.pl.pickRun.phase = phase ∧ m'.pl = m.pl.pickRun.pl ∨
      ∃ t os, m.stage = .back t ∧ (m.pl.afterCall t os).phase = phase := by
  cases stepped h with
  | start =>
      cases hst'
      exact absurd rfl hphase
  | play hst | answer hst | retry hst =>
      have hkernel : m.stage = .exec phase := hst'
      rw [hst] at hkernel
      cases hkernel
  | co t hst c m' hco =>
      rcases co_stage hco with hsame | hback
      · rw [hsame, hst] at hst'
        cases hst'
      · rw [hback] at hst'
        cases hst'
  | exec phase' hst =>
      cases phase' with
      | pick => exact Or.inl ⟨hst, Stage.exec.inj hst', rfl⟩
      | loop t =>
          rcases loop_step h hst with ⟨-, hinside⟩ | ⟨-, hpick, -⟩
          · rw [hinside] at hst'
            cases hst'
          · rw [hpick] at hst'
            cases hst'
            exact absurd rfl hphase
      | returned rc => cases hst'
  | unblock t hst os => exact Or.inr ⟨t, os, hst, Stage.exec.inj hst'⟩

/-- The executor comes to a thread from its queue, or from the thread's return. -/
theorem loop_cases {a : Act} {u : Nat} (h : step a m = some m') (hst' : m'.stage = .exec (.loop u)) :
    m.stage = .exec .pick ∧ u ∈ m.pl.runQ ∧ m'.pl = m.pl.pickRun.pl ∨ m.stage = .back u := by
  rcases exec_cases h hst' Phase.noConfusion with ⟨hst, hphase, hpl⟩ | ⟨t, os, hst, hphase⟩
  · left
    rcases ProcLocal.pickRun_cases m.pl with ⟨-, hsame⟩ | ⟨t, rest, hrunQ, hloop, -⟩
    · rw [hsame] at hphase
      cases hphase
    · rw [hloop] at hphase
      cases hphase
      exact ⟨hst, by rw [hrunQ]; exact List.mem_cons_self, hpl⟩
  · right
    rw [hst]
    unfold ProcLocal.afterCall at hphase
    dsimp only at hphase
    split at hphase
    · cases hphase
      rfl
    · split at hphase
      · cases hphase
      · cases hphase
        rfl

/-- The executor returns when there is no thread to run, or when the system or a
handler has failed. -/
theorem returned_cases {a : Act} {rc : Int} (h : step a m = some m')
    (hst' : m'.stage = .exec (.returned rc)) :
    m.stage = .exec .pick ∧ m.pl.runQ = [] ∧ m'.pl = m.pl ∨ ∃ u, m.stage = .back u := by
  rcases exec_cases h hst' Phase.noConfusion with ⟨hst, hphase, hpl⟩ | ⟨t, os, hst, -⟩
  · left
    rcases ProcLocal.pickRun_cases m.pl with ⟨hnil, hsame⟩ | ⟨t, rest, -, hloop, -⟩
    · rw [hsame] at hpl
      exact ⟨hst, hnil, hpl⟩
    · rw [hloop] at hphase
      cases hphase
  · exact Or.inr ⟨t, hst⟩

end Machine

end Vk

/-
# `Mnvkd.Postpoll` — every blocked socket is retried once

After the poller `vk_proc_postpoll` walks the blocked queue of a process twice: it puts
what was reported into each socket's block, and then it retries each socket.  The queue
is linked through the sockets.  A retry takes the socket out of the queue it is walking
over, and only then the walk reads its link.

It gets through all the same.  A handler queues no socket but its own, which is queued
already (`Stirs.blockedQ`), so that the sockets still to be retried stay as they are,
and the link of the one taken out still leads to them (`walk_step`).
-/
import Mnvkd.FdTable
import Mnvkd.HandlerMoves
import Mnvkd.Lib.Run
import Mnvkd.Lib.Slist

namespace Vk

open Lib

/-- A handler queues no socket but its own, and that only if it is not queued. -/
theorem Stirs.blockedQ {s : Nat} {pl pl' : ProcLocal} (h : Stirs s pl pl') :
    pl'.blockedQ = pl.blockedQ ∧ (pl'.sockets s).blockedEnq = (pl.sockets s).blockedEnq ∨
      (pl.sockets s).blockedEnq = false ∧ (pl'.sockets s).blockedEnq = true ∧
        pl'.blockedQ = s :: pl.blockedQ := by
  induction h with
  | data h => exact Or.inl ⟨h.blockedQ, h.blockedEnq s⟩
  | ready pl t => exact Or.inl ⟨rfl, rfl⟩
  | enqueueRun pl t =>
      refine Or.inl ⟨ProcLocal.enqueueRun_blockedQ pl t, ?_⟩
      rw [ProcLocal.enqueueRun_sockets]
  | enqueueBlocked pl =>
      obtain ⟨hnew, hqueue, hsockets⟩ | ⟨-, hsame⟩ := ProcLocal.enqueueBlocked_cases pl s
      · refine Or.inr ⟨hnew, ?_, hqueue⟩
        rw [hsockets, ProcLocal.updSocket_sockets_self]
      · rw [hsame]
        exact Or.inl ⟨rfl, rfl⟩
  | trans _ _ ih ih' =>
      obtain ⟨hqueue, henq⟩ | ⟨hnew, henq, hqueue⟩ := ih
      · rw [← hqueue, ← henq]
        exact ih'
      · obtain ⟨hqueue', henq'⟩ | ⟨hnew', -, -⟩ := ih'
        · exact Or.inr ⟨hnew, henq'.trans henq, hqueue'.trans hqueue⟩
        · rw [henq] at hnew'
          cases hnew'

/-- The links after a handler, which may have queued a socket. -/
def relinked (pl : ProcLocal) (links : Slist Nat) (pl' : ProcLocal) : Slist Nat :=
  (pl'.blockedQ.take (pl'.blockedQ.length - pl.blockedQ.length)).foldr
    (fun s links => links.insertHead s) links

theorem relinked_of_same {pl pl' : ProcLocal} (h : pl'.blockedQ = pl.blockedQ) (links : Slist Nat) :
    relinked pl links pl' = links := by
  rw [relinked, h, Nat.sub_self]
  rfl

theorem is_relinked {s : Nat} {pl pl' : ProcLocal} {links : Slist Nat} (h : Stirs s pl pl')
    (hq : Queued pl) (hlinks : links.Is pl.blockedQ) : (relinked pl links pl').Is pl'.blockedQ := by
  obtain ⟨hqueue, -⟩ | ⟨hnew, -, hqueue⟩ := h.blockedQ
  · rw [relinked_of_same hqueue, hqueue]
    exact hlinks
  · have hout : s ∉ pl.blockedQ := by
      intro hs
      rw [(hq.blocked s).mpr hs] at hnew
      cases hnew
    have hone : relinked pl links pl' = links.insertHead s := by
      rw [relinked, hqueue, List.length_cons, Nat.add_sub_cancel_left]
      rfl
    rw [hone, hqueue]
    exact Slist.is_insertHead hlinks hout

/-- A process whose blocked queue is linked through its sockets.  Each socket is marked
if it is in, and each thread if it is in the run queue. -/
structure LinkedLocal where
  pl : ProcLocal
  links : Slist Nat
  is : links.Is pl.blockedQ
  queued : Queued pl

namespace LinkedLocal

/-! ## What is done to it -/

def updBlock (s : Nat) (f : Block → Block) (x : LinkedLocal) : LinkedLocal where
  pl := x.pl.updBlock s f
  links := x.links
  is := x.is
  queued := (own_updBlock (t := 0) x.pl s f).queued x.queued

/-- `vk_proc_local_enqueue_blocked`. -/
def enqueueBlocked (s : Nat) (x : LinkedLocal) : LinkedLocal where
  pl := x.pl.enqueueBlocked s
  links := relinked x.pl x.links (x.pl.enqueueBlocked s)
  is := is_relinked (Stirs.enqueueBlocked x.pl) x.queued x.is
  queued := ProcLocal.Queued.enqueueBlocked x.queued s

/-- A descriptor that is blocked on: the event that came back for its slot is put where
`set` puts it.  `ret` is the event of each slot's `ioft_ret`. -/
def answerFd (tbl : FdTable) (ret : Nat → Pollfd) (fd : Int) (set : Pollfd → LinkedLocal → LinkedLocal)
    (x : LinkedLocal) : Option LinkedLocal :=
  if fd ≠ -1 then (tbl.get fd).map fun i => set (ret i) x else some x

/-- One socket of the first loop of `vk_proc_postpoll`; it fails where a descriptor has
no slot. -/
def answerSocket (tbl : FdTable) (ret : Nat → Pollfd) (x : LinkedLocal) (s : Nat) : Option LinkedLocal :=
  let rxFd := (x.pl.sockets s).block.ioftRxPre.event.fd
  let txFd := (x.pl.sockets s).block.ioftTxPre.event.fd
  (x.answerFd tbl ret rxFd fun event => updBlock s fun block =>
    { block with ioftRxRet := { block.ioftRxRet with event := event } }).bind
  (answerFd tbl ret txFd fun event => updBlock s fun block =>
    { block with ioftTxRet := { block.ioftTxRet with event := event } })

/-- What the handler of a retry returns. -/
def handlerRc (x : LinkedLocal) (s : Nat) (os : Os) : Int := ((x.pl.unflagged s).socketHandler s os).rc

theorem stirs_retryHandler (pl : ProcLocal) (s : Nat) (os : Os) :
    Stirs s pl ((pl.unflagged s).socketHandler s os).pl :=
  (stirs_unflagged pl s).trans (ProcLocal.stirs_socketHandler _ s os)

/-- A retry begins by clearing the flags that the poller has answered for, and runs the
handler. -/
def handle (s : Nat) (os : Os) (x : LinkedLocal) : LinkedLocal where
  pl := ((x.pl.unflagged s).socketHandler s os).pl
  links := relinked x.pl x.links ((x.pl.unflagged s).socketHandler s os).pl
  is := is_relinked (stirs_retryHandler x.pl s os) x.queued x.is
  queued := (Machine.wakes_retryHandler x.pl s os).queued x.queued

/-- The links without a socket that is dropped. -/
def unlinked (s : Nat) (x : LinkedLocal) : Slist Nat :=
  if (x.pl.sockets s).blockedEnq then x.links.remove x.pl.blockedQ.length s else x.links

theorem dropBlocked_blockedQ (pl : ProcLocal) (s : Nat) : (pl.dropBlocked s).blockedQ =
    if (pl.sockets s).blockedEnq then pl.blockedQ.erase s else pl.blockedQ := by
  simp only [ProcLocal.dropBlocked]
  split <;> rfl

theorem is_unlinked (s : Nat) (x : LinkedLocal) : (x.unlinked s).Is (x.pl.dropBlocked s).blockedQ := by
  rw [unlinked, dropBlocked_blockedQ]
  split
  · rename_i henq
    exact (Slist.is_remove x.is x.queued.blockedNodup ((x.queued.blocked s).mp henq) (Nat.le_refl _)).1
  · exact x.is

/-- `vk_proc_local_drop_blocked`. -/
def dropBlocked (s : Nat) (x : LinkedLocal) : LinkedLocal where
  pl := x.pl.dropBlocked s
  links := x.unlinked s
  is := x.is_unlinked s
  queued := ProcLocal.Queued.dropBlocked x.queued s

/-- `vk_proc_local_enqueue_run`. -/
def enqueueRun (t : Nat) (x : LinkedLocal) : LinkedLocal where
  pl := x.pl.enqueueRun t
  links := x.links
  is := by
    rw [ProcLocal.enqueueRun_blockedQ]
    exact x.is
  queued := ProcLocal.Queued.enqueueRun x.queued t

/-- `vk_proc_local_retry_socket`, with what it returns. -/
def retry (s : Nat) (os : Os) (x : LinkedLocal) : LinkedLocal × Int :=
  if x.handlerRc s os = -1 then (x.handle s os, -1)
  else (((x.handle s os).dropBlocked s).enqueueRun (x.pl.blockedVk s), 0)

/-- It is `ProcLocal.retrySocket`, with the links. -/
theorem retry_eq (s : Nat) (os : Os) (x : LinkedLocal) :
    (x.retry s os).1.pl = (x.pl.retrySocket s os).pl ∧ (x.retry s os).2 = (x.pl.retrySocket s os).rc := by
  by_cases hfail : x.handlerRc s os = -1
  · have hlinked : x.retry s os = (x.handle s os, -1) := if_pos hfail
    have hplain : x.pl.retrySocket s os = (x.pl.unflagged s).socketHandler s os := if_pos hfail
    rw [hlinked, hplain]
    exact ⟨rfl, hfail.symm⟩
  · have hlinked : x.retry s os = (((x.handle s os).dropBlocked s).enqueueRun (x.pl.blockedVk s), 0) :=
      if_neg hfail
    have hplain : x.pl.retrySocket s os =
        ⟨(((x.pl.unflagged s).socketHandler s os).pl.dropBlocked s).enqueueRun (x.pl.blockedVk s), 0⟩ :=
      if_neg hfail
    rw [hlinked, hplain]
    exact ⟨rfl, rfl⟩

end LinkedLocal

/-! ## The walk -/

/-- The second loop of `vk_proc_postpoll`: where it is, and which sockets it has
retried. -/
structure Postpoll where
  x : LinkedLocal
  cursor : Option Nat
  retried : List Nat

namespace Postpoll
open LinkedLocal

/-- `vk_proc_postpoll` as far as its second loop; it fails where a descriptor has no
slot. -/
def begin (tbl : FdTable) (ret : Nat → Pollfd) (x : LinkedLocal) : Option Postpoll :=
  (x.pl.blockedQ.foldlM (answerSocket tbl ret) x).map fun x => ⟨x, x.links.first, []⟩

/-- One turn of the second loop, which a failing retry ends.  `os` is what the system
answers. -/
def step (os : Os) (p : Postpoll) : Option Postpoll :=
  match p.cursor with
  | none => none
  | some s =>
      let r := p.x.retry s os
      if r.2 = -1 then none else some ⟨r.1, r.1.links.next s, p.retried ++ [s]⟩

/-- The handler of the socket that is retried returns no error. -/
def HandlerOk (os : Os) (p : Postpoll) : Prop := ∀ s ∈ p.cursor, p.x.handlerRc s os ≠ -1

instance (os : Os) (p : Postpoll) : Decidable (HandlerOk os p) :=
  match h : p.cursor with
  | none => .isTrue fun s hs => by rw [h] at hs; cases hs
  | some s =>
      decidable_of_iff (p.x.handlerRc s os ≠ -1)
        ⟨fun hok a ha => by rw [h] at ha; cases ha; exact hok, fun hok => hok s h⟩

/-- A thread has ended or is in the run queue. -/
def Attended (u : Nat) (pl : ProcLocal) : Prop :=
  (pl.threads u).status = .ended ∨ (pl.threads u).runEnq = true

theorem Attended.wakes {u that s : Nat} {others : Nat → Prop} {pl pl' : ProcLocal} (h : Attended u pl)
    (hw : Wakes that others s pl pl') : Attended u pl' := by
  obtain hended | henq := h
  · obtain hsame | ⟨hnot, -⟩ := hw.status u
    · exact Or.inl (hsame.trans hended)
    · exact absurd hended hnot
  · exact Or.inr (hw.enq u henq)

theorem attended_enqueueRun (pl : ProcLocal) (t : Nat) : Attended t (pl.enqueueRun t) := by
  by_cases hended : (pl.threads t).status = .ended
  · left
    rw [ProcLocal.enqueueRun_status]
    obtain hsame | ⟨hnot, -⟩ := ProcLocal.ready_status_cases pl t t
    · exact hsame.trans hended
    · exact absurd hended hnot
  · exact Or.inr (ProcLocal.enqueueRun_runEnq_self pl (ProcLocal.isReady_enqueueRun hended))

/-- In the walk over the blocked queue of `pl₀` the sockets of `todo` are left: they are
the blocked queue, the cursor is at the first of them, the others were retried in the
order they had in the queue, and their threads are attended to. -/
structure Walk (pl₀ : ProcLocal) (todo : List Nat) (p : Postpoll) : Prop where
  queue : p.x.pl.blockedQ = todo
  cursor : p.cursor = todo.head?
  split : p.retried ++ todo = pl₀.blockedQ
  blockedVk : ∀ s, p.x.pl.blockedVk s = pl₀.blockedVk s
  attended : ∀ s ∈ p.retried, Attended (pl₀.blockedVk s) p.x.pl

/-- A turn retries the first of the sockets that are left, and leaves the others. -/
theorem walk_step {pl₀ : ProcLocal} {s : Nat} {todo : List Nat} {p : Postpoll} {os : Os}
    (h : Walk pl₀ (s :: todo) p) (hok : HandlerOk os p) :
    ∃ p', step os p = some p' ∧ Walk pl₀ todo p' := by
  have hcursor : p.cursor = some s := h.cursor
  have hrc : ¬p.x.handlerRc s os = -1 := hok s hcursor
  have hin : s ∈ p.x.pl.blockedQ := by
    rw [h.queue]
    exact List.mem_cons_self
  have henq := (p.x.queued.blocked s).mpr hin
  -- the handler queues nothing, as its socket is queued
  obtain ⟨hqueue, henq'⟩ | ⟨hnew, -⟩ := (stirs_retryHandler p.x.pl s os).blockedQ
  case inr =>
    rw [henq] at hnew
    cases hnew
  have henq' : ((p.x.handle s os).pl.sockets s).blockedEnq = true := henq'.trans henq
  have hwakes := Machine.wakes_retryHandler p.x.pl s os
  let y := p.x.handle s os
  have hqueue' : y.pl.blockedQ = s :: todo := hqueue.trans h.queue
  have hlinks : y.links = p.x.links := relinked_of_same hqueue _
  have hdropped : (y.dropBlocked s).pl.blockedQ = todo := by
    show (y.pl.dropBlocked s).blockedQ = todo
    rw [dropBlocked_blockedQ, if_pos henq', hqueue', List.erase_cons_head]
  -- the socket keeps its link
  have hnext : (y.dropBlocked s).links.next s = todo.head? := by
    show (y.unlinked s).next s = _
    have his : y.links.Is (s :: todo) := hqueue' ▸ y.is
    rw [unlinked, if_pos henq', Slist.next_remove y.is y.queued.blockedNodup
      ((y.queued.blocked s).mp henq') (Nat.le_refl _)]
    exact his.next_first
  refine ⟨⟨((y.dropBlocked s).enqueueRun (p.x.pl.blockedVk s)), todo.head?, p.retried ++ [s]⟩, ?_, ?_⟩
  · have hretry : p.x.retry s os = ((y.dropBlocked s).enqueueRun (p.x.pl.blockedVk s), 0) := if_neg hrc
    simp only [step, hcursor, hretry]
    rw [if_neg (by decide)]
    exact congrArg (fun cursor => some (⟨_, cursor, _⟩ : Postpoll)) hnext
  · have hattended : ∀ u, Attended u p.x.pl →
        Attended u ((y.dropBlocked s).enqueueRun (p.x.pl.blockedVk s)).pl := by
      intro u hu
      have hdrop : Attended u (y.pl.dropBlocked s) := by
        rw [Attended, ProcLocal.dropBlocked_threads]
        exact hu.wakes hwakes
      have hrun : Wakes 0 (fun _ => True) s (y.pl.dropBlocked s)
          ((y.pl.dropBlocked s).enqueueRun (p.x.pl.blockedVk s)) :=
        ProcLocal.wakes_enqueueRun (y.pl.dropBlocked s) trivial
      exact hdrop.wakes hrun
    refine ⟨?_, rfl, ?_, fun a => ?_, fun a ha => ?_⟩
    · exact (ProcLocal.enqueueRun_blockedQ _ _).trans hdropped
    · rw [List.append_assoc]
      exact h.split
    · have hrun : ((y.pl.dropBlocked s).enqueueRun (p.x.pl.blockedVk s)).blockedVk a =
          (y.pl.dropBlocked s).blockedVk a := by
        rw [ProcLocal.blockedVk, ProcLocal.enqueueRun_sockets]
        rfl
      exact hrun.trans ((ProcLocal.dropBlocked_blockedVk y.pl s a).trans
        ((hwakes.blockedVk a).trans (h.blockedVk a)))
    · obtain ha | ha := List.mem_append.mp ha
      · exact hattended _ (h.attended a ha)
      · rw [List.mem_singleton.mp ha, ← h.blockedVk s]
        exact attended_enqueueRun _ _

/-- The walk ends after as many turns as sockets are left. -/
theorem walk_run {pl₀ : ProcLocal} {todo : List Nat} {os : List Os} {p : Postpoll}
    (h : Walk pl₀ todo p) (hlen : os.length = todo.length) (hok : Meets step HandlerOk os p) :
    ∃ p', run step os p = some p' ∧ Walk pl₀ [] p' := by
  induction todo generalizing os p with
  | nil =>
      rw [List.eq_nil_of_length_eq_zero hlen]
      exact ⟨p, rfl, h⟩
  | cons s todo ih =>
      cases os with
      | nil => cases hlen
      | cons o os =>
          obtain ⟨p₁, hstep, hwalk⟩ := walk_step h hok.1
          obtain ⟨p', hrun, hwalk'⟩ := ih hwalk (Nat.succ.inj hlen) (hok.2 p₁ hstep)
          exact ⟨p', (run_cons step).mpr ⟨p₁, hstep, hrun⟩, hwalk'⟩

/-! ## What is reported -/

/-- Every descriptor a blocked socket waits on has a slot. -/
def HasSlots (tbl : FdTable) (pl : ProcLocal) (queue : List Nat) : Prop :=
  ∀ s ∈ queue,
    ((pl.sockets s).block.ioftRxPre.event.fd ≠ -1 →
      (tbl.get (pl.sockets s).block.ioftRxPre.event.fd).isSome = true) ∧
    ((pl.sockets s).block.ioftTxPre.event.fd ≠ -1 →
      (tbl.get (pl.sockets s).block.ioftTxPre.event.fd).isSome = true)

/-- Only what is reported to a socket has changed. -/
structure Answered (x x' : LinkedLocal) : Prop where
  queue : x'.pl.blockedQ = x.pl.blockedQ
  block : ∀ s, (x'.pl.sockets s).block.blockedVk = (x.pl.sockets s).block.blockedVk ∧
    (x'.pl.sockets s).block.ioftRxPre = (x.pl.sockets s).block.ioftRxPre ∧
    (x'.pl.sockets s).block.ioftTxPre = (x.pl.sockets s).block.ioftTxPre

theorem Answered.refl (x : LinkedLocal) : Answered x x := ⟨rfl, fun _ => ⟨rfl, rfl, rfl⟩⟩

theorem Answered.trans {x y z : LinkedLocal} (h : Answered x y) (h' : Answered y z) : Answered x z := by
  refine ⟨h'.queue.trans h.queue, fun s => ?_⟩
  obtain ⟨hvk, hrx, htx⟩ := h.block s
  obtain ⟨hvk', hrx', htx'⟩ := h'.block s
  exact ⟨hvk'.trans hvk, hrx'.trans hrx, htx'.trans htx⟩

theorem answered_updBlock (s : Nat) (x : LinkedLocal) {f : Block → Block}
    (hf : ∀ block, (f block).blockedVk = block.blockedVk ∧
      (f block).ioftRxPre = block.ioftRxPre ∧ (f block).ioftTxPre = block.ioftTxPre) :
    Answered x (x.updBlock s f) := by
  refine ⟨rfl, fun a => ?_⟩
  simp only [updBlock, ProcLocal.updBlock, ProcLocal.updSocket_sockets]
  split
  · rename_i ha
    rw [ha]
    exact hf _
  · exact ⟨rfl, rfl, rfl⟩

theorem answered_fd {tbl : FdTable} {ret : Nat → Pollfd} {fd : Int}
    {set : Pollfd → LinkedLocal → LinkedLocal} {x : LinkedLocal}
    (hset : ∀ event, Answered x (set event x)) (hslot : fd ≠ -1 → (tbl.get fd).isSome = true) :
    ∃ x', x.answerFd tbl ret fd set = some x' ∧ Answered x x' := by
  simp only [answerFd]
  split
  · rename_i hfd
    obtain ⟨i, hi⟩ := Option.isSome_iff_exists.mp (hslot hfd)
    rw [hi]
    exact ⟨_, rfl, hset (ret i)⟩
  · exact ⟨x, rfl, Answered.refl x⟩

/-- The results of all sockets are put in, if each descriptor has a slot. -/
theorem answered_all {tbl : FdTable} (ret : Nat → Pollfd) {queue : List Nat} {x : LinkedLocal}
    (hslots : HasSlots tbl x.pl queue) :
    ∃ x', queue.foldlM (answerSocket tbl ret) x = some x' ∧ Answered x x' := by
  induction queue generalizing x with
  | nil => exact ⟨x, rfl, Answered.refl x⟩
  | cons s queue ih =>
      obtain ⟨hrx, htx⟩ := hslots s List.mem_cons_self
      obtain ⟨x₁, h₁, ha₁⟩ : ∃ x₁, x.answerFd tbl ret _ (fun event => updBlock s fun block =>
          { block with ioftRxRet := { block.ioftRxRet with event := event } }) = some x₁ ∧
          Answered x x₁ :=
        answered_fd (fun _ => answered_updBlock s x fun _ => ⟨rfl, rfl, rfl⟩) hrx
      obtain ⟨x₂, h₂, ha₂⟩ : ∃ x₂, x₁.answerFd tbl ret _ (fun event => updBlock s fun block =>
          { block with ioftTxRet := { block.ioftTxRet with event := event } }) = some x₂ ∧
          Answered x₁ x₂ :=
        answered_fd (fun _ => answered_updBlock s x₁ fun _ => ⟨rfl, rfl, rfl⟩) htx
      have hsocket : answerSocket tbl ret x s = some x₂ := by
        simp only [answerSocket, h₁, Option.bind_some, h₂]
      have hrest : HasSlots tbl x₂.pl queue := by
        intro a ha
        obtain ⟨-, hrx', htx'⟩ := (ha₁.trans ha₂).block a
        rw [hrx', htx']
        exact hslots a (List.mem_cons_of_mem s ha)
      obtain ⟨x', hfold, ha'⟩ := ih hrest
      refine ⟨x', ?_, (ha₁.trans ha₂).trans ha'⟩
      rw [List.foldlM_cons, hsocket]
      exact hfold

/-- Where every descriptor has a slot and no handler fails, whatever the system answers,
the second loop ends after as many turns as sockets were blocked: it has retried each of
them once, in the order of the queue.  None of them is blocked any more, and the thread
of each has ended or is in the run queue. -/
theorem postpoll_retries (tbl : FdTable) (ret : Nat → Pollfd) (x : LinkedLocal)
    (hslots : HasSlots tbl x.pl x.pl.blockedQ) :
    ∃ p₀, begin tbl ret x = some p₀ ∧
      ∀ os : List Os, os.length = x.pl.blockedQ.length → Meets step HandlerOk os p₀ →
        ∃ p, run step os p₀ = some p ∧ p.cursor = none ∧
          p.retried = x.pl.blockedQ ∧ p.retried.Nodup ∧
          ∀ s ∈ x.pl.blockedQ, s ∉ p.x.pl.blockedQ ∧
            ((p.x.pl.threads (x.pl.blockedVk s)).status = .ended ∨ x.pl.blockedVk s ∈ p.x.pl.runQ) := by
  obtain ⟨x', hfold, hanswered⟩ := answered_all ret hslots
  refine ⟨⟨x', x'.links.first, []⟩, by rw [begin, hfold]; rfl, fun os hlen hok => ?_⟩
  have hwalk : Walk x.pl x.pl.blockedQ ⟨x', x'.links.first, []⟩ := by
    refine ⟨hanswered.queue, ?_, rfl, fun s => (hanswered.block s).1, nofun⟩
    rw [← hanswered.queue]
    exact Slist.Path.first_eq x'.is
  obtain ⟨p, hrun, hdone⟩ := walk_run hwalk hlen hok
  have hretried : p.retried = x.pl.blockedQ := by
    rw [← hdone.split, List.append_nil]
  refine ⟨p, hrun, hdone.cursor, hretried, ?_, fun s hs => ⟨?_, ?_⟩⟩
  · rw [hretried]
    exact x.queued.blockedNodup
  · rw [hdone.queue]
    exact List.not_mem_nil
  · rw [← hretried] at hs
    obtain hended | henq := hdone.attended s hs
    · exact Or.inl hended
    · exact Or.inr ((p.x.queued.run _).mp henq)

/-- Two sockets that wait to read from descriptors 3 and 4, for the threads 0 and 1. -/
def twoReaders : LinkedLocal :=
  let pl := (ProcLocal.init.initThread 0 0 (Pipe.initFd 3 .socketStream) (Pipe.initFd 3 .socketStream)).initThread
    1 1 (Pipe.initFd 4 .socketStream) (Pipe.initFd 4 .socketStream)
  let waiting (fd : Int) (block : Block) : Block :=
    { block with
      op := .read
      ioftRxPre := { block.ioftRxPre with event := ⟨fd, POLLIN, 0⟩ }
      ioftTxPre := { block.ioftTxPre with event := ⟨-1, 0, 0⟩ } }
  have hq : Queued pl :=
    ((ProcLocal.flagsExact_init.initThread List.not_mem_nil List.not_mem_nil _ _).initThread
      List.not_mem_nil List.not_mem_nil _ _).queued
  let x : LinkedLocal := ⟨pl, ⟨none, fun _ => none⟩, Slist.Path.nil, hq⟩
  ((x.updBlock 0 (waiting 3)).updBlock 1 (waiting 4)).enqueueBlocked 0 |>.enqueueBlocked 1

/-- Each slot's descriptor was reported readable. -/
def readableSlots (i : Nat) : Pollfd := ⟨i, POLLIN, POLLIN⟩

/-- Eight slots. -/
def eightSlots : FdTable :=
  ⟨8, [], fun i => ⟨i, 0, false, false, false, false, false, IoFuture.init 0⟩⟩

/-- There is one byte to read. -/
def oneByte : Os := ⟨.ok [97], .err Errno.EAGAIN, .err Errno.EAGAIN, .ok (), .ok ()⟩

theorem postpoll_retries_twoReaders :
    ∃ p₀ p, begin eightSlots readableSlots twoReaders = some p₀ ∧
      run step [oneByte, oneByte] p₀ = some p ∧ p.cursor = none ∧ p.retried = [1, 0] ∧
      ∀ s ∈ [1, 0], s ∉ p.x.pl.blockedQ ∧
        ((p.x.pl.threads (twoReaders.pl.blockedVk s)).status = .ended ∨
          twoReaders.pl.blockedVk s ∈ p.x.pl.runQ) := by
  have hslots : HasSlots eightSlots twoReaders.pl twoReaders.pl.blockedQ := by
    intro s hs
    have hs : s ∈ [1, 0] := hs
    obtain rfl | rfl : s = 1 ∨ s = 0 := by simpa using hs
    · exact ⟨fun _ => by decide, fun hfd => absurd (by decide) hfd⟩
    · exact ⟨fun _ => by decide, fun hfd => absurd (by decide) hfd⟩
  obtain ⟨p₀, hbegin, hwalk⟩ := postpoll_retries eightSlots readableSlots twoReaders hslots
  have hok : (begin eightSlots readableSlots twoReaders).all
      (fun p₀ => decide (Meets step HandlerOk [oneByte, oneByte] p₀)) = true := by decide
  rw [hbegin] at hok
  obtain ⟨p, hrun, hcursor, hretried, -, hall⟩ :=
    hwalk [oneByte, oneByte] rfl (of_decide_eq_true hok)
  exact ⟨p₀, p, hbegin, hrun, hcursor, hretried, hall⟩

end Postpoll

end Vk

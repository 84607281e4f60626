/-
# `Mnvkd.Wakes` — whom the handlers wake

A handler for socket `s` may set the thread it blocks to run, which the executor
or the poller's retry then runs; of the others it may enqueue those that the
sockets at the other ends of its pipes block, and of the sockets it may queue `s`
itself (`Wakes`).  From that it follows who can come into the run queue by a step
of the machine (`runQ_step`), and that the queues agree with the flags of their
members (`Queued`).
-/
import Mnvkd.MachineFrame

namespace Vk

open Lib

/-- The queues hold the members that are marked, each once. -/
structure Queued (pl : ProcLocal) : Prop where
  run : ∀ t, (pl.threads t).runEnq = true ↔ t ∈ pl.runQ
  runNodup : pl.runQ.Nodup
  blocked : ∀ s, (pl.sockets s).blockedEnq = true ↔ s ∈ pl.blockedQ
  blockedNodup : pl.blockedQ.Nodup

/-- Thread `that` may have been set to run, and threads of `others` have been
enqueued at most; at most socket `s` has been queued. -/
structure Wakes (that : Nat) (others : Nat → Prop) (s : Nat) (pl pl' : ProcLocal) : Prop where
  queued : Queued pl → Queued pl'
  status : ∀ u, (pl'.threads u).status = (pl.threads u).status ∨
    (pl.threads u).status ≠ .ended ∧ (pl'.threads u).status = .run ∧
      (u = that ∨ (pl'.threads u).runEnq = true)
  enq : ∀ u, (pl.threads u).runEnq = true → (pl'.threads u).runEnq = true
  runQ : ∀ u ∈ pl'.runQ, u ∈ pl.runQ ∨ others u
  blockedQ : ∀ a ∈ pl'.blockedQ, a ∈ pl.blockedQ ∨ a = s
  blockedVk : ∀ a, pl'.blockedVk a = pl.blockedVk a

section Wakes

variable {that s : Nat} {others : Nat → Prop} {pl pl' pl'' : ProcLocal}

/-- One wakes after the other; which thread a socket blocks has not changed. -/
theorem Wakes.trans (h : Wakes that others s pl pl')
    (h' : (∀ a, pl'.blockedVk a = pl.blockedVk a) → Wakes that others s pl' pl'') :
    Wakes that others s pl pl'' := by
  have h' := h' h.blockedVk
  refine ⟨fun hq => h'.queued (h.queued hq), fun u => ?_, fun u hu => h'.enq u (h.enq u hu),
    fun u hu => ?_, fun a ha => ?_, fun a => (h'.blockedVk a).trans (h.blockedVk a)⟩
  · rcases h'.status u with hsame | ⟨hended, hrun, hwho⟩
    · rw [hsame]
      exact (h.status u).imp_right fun ⟨hended, hrun, hwho⟩ =>
        ⟨hended, hrun, hwho.imp_right (h'.enq u)⟩
    · rcases h.status u with hsame | ⟨hended', -, -⟩
      · exact Or.inr ⟨hsame ▸ hended, hrun, hwho⟩
      · exact Or.inr ⟨hended', hrun, hwho⟩
  · rcases h'.runQ u hu with hu | hu
    · exact h.runQ u hu
    · exact Or.inr hu
  · rcases h'.blockedQ a ha with ha | ha
    · exact h.blockedQ a ha
    · exact Or.inr ha

/-- Where the threads, the queues and the sockets' marks are the same. -/
theorem wakes_of_same (hthreads : pl'.threads = pl.threads) (hrun : pl'.runQ = pl.runQ)
    (hblocked : pl'.blockedQ = pl.blockedQ)
    (henq : ∀ a, (pl'.sockets a).blockedEnq = (pl.sockets a).blockedEnq)
    (hvk : ∀ a, pl'.blockedVk a = pl.blockedVk a) : Wakes that others s pl pl' where
  queued hq := by
    refine ⟨fun t => ?_, ?_, fun a => ?_, ?_⟩
    · rw [hthreads, hrun]
      exact hq.run t
    · rw [hrun]
      exact hq.runNodup
    · rw [henq, hblocked]
      exact hq.blocked a
    · rw [hblocked]
      exact hq.blockedNodup
  status u := Or.inl (by rw [hthreads])
  enq u hu := by rw [hthreads]; exact hu
  runQ u hu := Or.inl (hrun ▸ hu)
  blockedQ a ha := Or.inl (hblocked ▸ ha)
  blockedVk := hvk

theorem Wakes.refl (pl : ProcLocal) : Wakes that others s pl pl :=
  wakes_of_same rfl rfl rfl (fun _ => rfl) fun _ => rfl

namespace ProcLocal

/-! ## Threads -/

theorem ready_runEnq (pl : ProcLocal) (t u : Nat) :
    ((pl.ready t).threads u).runEnq = (pl.threads u).runEnq := by
  rcases ready_cases pl t u with hsame | ⟨-, -, hrun⟩
  · rw [hsame]
  · rw [hrun]

theorem ready_status_cases (pl : ProcLocal) (t u : Nat) :
    ((pl.ready t).threads u).status = (pl.threads u).status ∨
      (pl.threads u).status ≠ .ended ∧ ((pl.ready t).threads u).status = .run ∧ u = t := by
  rcases ready_cases pl t u with hsame | ⟨hended, hu, hrun⟩
  · exact Or.inl (by rw [hsame])
  · exact Or.inr ⟨hended, by rw [hrun], hu⟩

theorem Queued.ready {pl : ProcLocal} (hq : Queued pl) (t : Nat) : Queued (pl.ready t) :=
  ⟨fun u => by rw [ready_runEnq]; exact hq.run u, hq.runNodup, hq.blocked, hq.blockedNodup⟩

theorem wakes_ready (pl : ProcLocal) : Wakes that others s pl (pl.ready that) where
  queued hq := Queued.ready hq that
  status u := (ready_status_cases pl that u).imp_right fun ⟨hended, hrun, hu⟩ =>
    ⟨hended, hrun, Or.inl hu⟩
  enq u hu := by rw [ready_runEnq]; exact hu
  runQ u hu := Or.inl hu
  blockedQ a ha := Or.inl ha
  blockedVk a := rfl

/-- A thread is enqueued where it is ready and not marked. -/
theorem enqueueRun_cases (pl : ProcLocal) (t : Nat) :
    ((pl.ready t).threads t).isReady = true ∧ (pl.threads t).runEnq = false ∧
      (pl.enqueueRun t).runQ = t :: pl.runQ ∧
      (pl.enqueueRun t).threads = ((pl.ready t).updThread t fun that =>
        { that with runEnq := true }).threads ∨
    (((pl.ready t).threads t).isReady = false ∨ (pl.threads t).runEnq = true) ∧
      pl.enqueueRun t = pl.ready t := by
  unfold enqueueRun
  dsimp only
  split
  · rename_i h
    rw [Bool.and_eq_true, Bool.not_eq_true', ready_runEnq] at h
    exact Or.inl ⟨h.1, h.2, rfl, rfl⟩
  · rename_i h
    rw [Bool.and_eq_true, not_and_or, Bool.not_eq_true, Bool.not_eq_true, Bool.not_eq_false',
      ready_runEnq] at h
    exact Or.inr ⟨h, rfl⟩

theorem enqueueRun_runEnq (pl : ProcLocal) (t u : Nat) (h : (pl.threads u).runEnq = true) :
    ((pl.enqueueRun t).threads u).runEnq = true := by
  rcases enqueueRun_cases pl t with ⟨-, -, -, hthreads⟩ | ⟨-, hready⟩
  · rw [hthreads, updThread_threads]
    split
    · rfl
    · rw [ready_runEnq]
      exact h
  · rw [hready, ready_runEnq]
    exact h

theorem enqueueRun_status (pl : ProcLocal) (t u : Nat) :
    ((pl.enqueueRun t).threads u).status = ((pl.ready t).threads u).status := by
  rcases enqueueRun_cases pl t with ⟨-, -, -, hthreads⟩ | ⟨-, hready⟩
  · rw [hthreads, updThread_threads]
    split
    · subst u
      rfl
    · rfl
  · rw [hready]

/-- One that is ready is in the queue afterwards. -/
theorem enqueueRun_runEnq_self (pl : ProcLocal) {t : Nat}
    (h : ((pl.enqueueRun t).threads t).isReady = true) :
    ((pl.enqueueRun t).threads t).runEnq = true := by
  rcases enqueueRun_cases pl t with ⟨-, -, -, hthreads⟩ | ⟨hnot | henq, hready⟩
  · rw [hthreads, updThread_threads_self]
  · rw [hready, hnot] at h
    cases h
  · rw [hready, ready_runEnq]
    exact henq

theorem Queued.enqueueRun {pl : ProcLocal} (hq : Queued pl) (t : Nat) : Queued (pl.enqueueRun t) := by
  rcases enqueueRun_cases pl t with ⟨-, hnew, hrunQ, hthreads⟩ | ⟨-, hready⟩
  · have hout : t ∉ pl.runQ := fun ht => by
      rw [(hq.run t).mpr ht] at hnew
      cases hnew
    refine ⟨fun u => ?_, ?_, fun a => ?_, ?_⟩
    · rw [hthreads, hrunQ, updThread_threads, List.mem_cons]
      split
      · rename_i hu
        simp [hu]
      · rename_i hu
        rw [ready_runEnq, hq.run u]
        simp [hu]
    · rw [hrunQ]
      exact hq.runNodup.cons hout
    · rw [enqueueRun_sockets, enqueueRun_blockedQ]
      exact hq.blocked a
    · rw [enqueueRun_blockedQ]
      exact hq.blockedNodup
  · rw [hready]
    exact Queued.ready hq t

theorem enqueueRun_runQ (pl : ProcLocal) (t u : Nat) (hu : u ∈ (pl.enqueueRun t).runQ) :
    u ∈ pl.runQ ∨ u = t := by
  rcases enqueueRun_cases pl t with ⟨-, -, hrunQ, -⟩ | ⟨-, hready⟩
  · rw [hrunQ, List.mem_cons] at hu
    exact hu.symm
  · rw [hready] at hu
    exact Or.inl hu

theorem wakes_enqueueRun (pl : ProcLocal) {t : Nat} (ht : others t) :
    Wakes that others s pl (pl.enqueueRun t) where
  queued hq := Queued.enqueueRun hq t
  status u := by
    rw [enqueueRun_status]
    rcases ready_status_cases pl t u with hsame | ⟨hended, hrun, rfl⟩
    · exact Or.inl hsame
    · refine Or.inr ⟨hended, hrun, Or.inr (enqueueRun_runEnq_self pl ?_)⟩
      rw [Thread.isReady, enqueueRun_status, hrun]
      rfl
  enq u hu := enqueueRun_runEnq pl t u hu
  runQ u hu := (enqueueRun_runQ pl t u hu).imp_right fun h => by rw [h]; exact ht
  blockedQ a ha := Or.inl (enqueueRun_blockedQ pl t ▸ ha)
  blockedVk a := by rw [blockedVk, enqueueRun_sockets]; rfl

/-- To be readied again changes no status. -/
theorem ready_enqueueRun_status (pl : ProcLocal) (t u : Nat) :
    (((pl.enqueueRun t).ready t).threads u).status = ((pl.enqueueRun t).threads u).status := by
  rcases ready_status_cases (pl.enqueueRun t) t u with hsame | ⟨hended, hrun, rfl⟩
  · exact hsame
  · rw [hrun]
    rcases ready_status_cases pl u u with hsame | ⟨-, hrun', -⟩
    · rw [enqueueRun_status] at hended
      rw [ready, updThread_threads_self, enqueueRun_status] at hrun
      rw [enqueueRun_status]
      split at hrun
      · rename_i h
        exact absurd h hended
      · split at hrun
        · rename_i h
          rw [enqueueRun_status] at hrun
          exact hrun.symm
        · rename_i h
          rw [ready, updThread_threads_self] at hended h ⊢
          split at h
          · rename_i h'
            rw [if_pos h'] at hended
            exact absurd h' hended
          · split at h
            · rename_i h'
              exact absurd h' h
            · rw [if_neg ‹_›, if_neg ‹_›]
    · rw [enqueueRun_status, hrun']

theorem wakes_enqueueOther (pl : ProcLocal) {w : Nat} (hw : others (pl.blockedVk w)) :
    Wakes that others s pl (pl.enqueueOther w) := by
  refine (wakes_enqueueRun pl hw).trans fun _ => ?_
  unfold enqueueOther
  exact ⟨fun hq => Queued.ready hq _, fun u => Or.inl (ready_enqueueRun_status pl _ u),
    fun u hu => by rw [ready_runEnq]; exact hu, fun u hu => Or.inl hu, fun a ha => Or.inl ha,
    fun a => rfl⟩

/-! ## Sockets -/

theorem wakes_updSocket (pl : ProcLocal) (w : Nat) {f : Socket → Socket}
    (henq : ∀ socket, (f socket).blockedEnq = socket.blockedEnq)
    (hvk : ∀ socket, (f socket).block.blockedVk = socket.block.blockedVk) :
    Wakes that others s pl (pl.updSocket w f) := by
  refine wakes_of_same rfl rfl rfl (fun a => ?_) fun a => ?_
  · rw [updSocket_sockets]
    split
    · subst a
      exact henq _
    · rfl
  · rw [blockedVk, updSocket_sockets]
    split
    · subst a
      exact hvk _
    · rfl

theorem wakes_setRx (pl : ProcLocal) (w : Nat) (ring : Vectoring) :
    Wakes that others s pl (pl.setRx w ring) :=
  wakes_updSocket pl w (f := fun socket => { socket with rx := ring }) (fun _ => rfl) fun _ => rfl

theorem wakes_setTx (pl : ProcLocal) (w : Nat) (ring : Vectoring) :
    Wakes that others s pl (pl.setTx w ring) :=
  wakes_updSocket pl w (f := fun socket => { socket with tx := ring }) (fun _ => rfl) fun _ => rfl

theorem wakes_setErrno (pl : ProcLocal) (e : Errno) : Wakes that others s pl (pl.setErrno e) :=
  wakes_of_same rfl rfl rfl (fun _ => rfl) fun _ => rfl

theorem wakes_handleError (pl : ProcLocal) (w : Nat) : Wakes that others s pl (pl.handleError w) :=
  wakes_updSocket pl w (f := fun socket => { socket with error := pl.errno }) (fun _ => rfl)
    fun _ => rfl

/-- `errno` is taken over, and the error where the call failed. -/
theorem wakes_failed (pl : ProcLocal) (w : Nat) (e : Errno) (p : Prop) [Decidable p] :
    Wakes that others s pl (if p then (pl.setErrno e).handleError w else pl.setErrno e) := by
  split
  · exact (wakes_setErrno pl e).trans fun _ => wakes_handleError _ w
  · exact wakes_setErrno pl e

theorem wakes_absorbRx (pl : ProcLocal) (w : Nat) (io : Io) :
    Wakes that others s pl (pl.absorbRx w io) :=
  (wakes_setRx pl w io.ring).trans fun _ => wakes_failed (pl.setRx w io.ring) w io.errno (io.rc = -1)

theorem wakes_absorbTx (pl : ProcLocal) (w : Nat) (io : Io) :
    Wakes that others s pl (pl.absorbTx w io) :=
  (wakes_setTx pl w io.ring).trans fun _ => wakes_failed (pl.setTx w io.ring) w io.errno (io.rc = -1)

theorem wakes_spliced (pl : ProcLocal) (a b : Nat) : Wakes that others s pl (pl.spliced a b) :=
  (wakes_setTx pl a ((pl.sockets b).rx.splice (pl.sockets a).tx (-1) pl.errno).tx).trans fun _ =>
    wakes_setRx _ b ((pl.sockets b).rx.splice (pl.sockets a).tx (-1) pl.errno).rx

theorem wakes_spliceFrom (pl : ProcLocal) (a b : Nat) :
    Wakes that others s pl (pl.spliceFrom a b) :=
  (wakes_spliced pl b a).trans fun _ => wakes_failed (pl.spliced b a) a
    ((pl.sockets a).rx.splice (pl.sockets b).tx (-1) pl.errno).errno
    (((pl.sockets a).rx.splice (pl.sockets b).tx (-1) pl.errno).rc = -1)

theorem wakes_spliceTo (pl : ProcLocal) (a b : Nat) :
    Wakes that others s pl (pl.spliceTo a b) :=
  (wakes_spliced pl a b).trans fun _ => wakes_failed (pl.spliced a b) a
    ((pl.sockets b).rx.splice (pl.sockets a).tx (-1) pl.errno).errno
    (((pl.sockets b).rx.splice (pl.sockets a).tx (-1) pl.errno).rc = -1)

/-! ## Waking -/

variable {w : Nat}

theorem wakes_enqueueSelf (pl : ProcLocal) (hs : pl.blockedVk s = that) :
    Wakes that others s pl (pl.enqueueSelf s) := by
  rw [enqueueSelf, hs]
  exact wakes_ready pl

theorem wakes_enqueueRead (pl : ProcLocal) (hs : pl.blockedVk s = that) :
    Wakes that others s pl (pl.enqueueRead s) := by
  have heffect : Wakes that others s pl (pl.handleRxEffect s).1 := wakes_setRx pl s _
  unfold enqueueRead
  dsimp only
  split
  · exact heffect.trans fun hvk => wakes_enqueueSelf _ ((hvk s).trans hs)
  · exact heffect

theorem wakes_enqueueWrite (pl : ProcLocal) (hs : pl.blockedVk s = that) :
    Wakes that others s pl (pl.enqueueWrite s) := by
  have heffect : Wakes that others s pl (pl.handleTxEffect s).1 := wakes_setTx pl s _
  unfold enqueueWrite
  dsimp only
  split
  · exact heffect.trans fun hvk => wakes_enqueueSelf _ ((hvk s).trans hs)
  · exact heffect

theorem wakes_enqueueReadwriter (pl : ProcLocal) (hs : pl.blockedVk s = that)
    (hw : others (pl.blockedVk w)) : Wakes that others s pl (pl.enqueueReadwriter s w) := by
  have heffect : Wakes that others s pl (pl.handleTxEffect w).1 := wakes_setTx pl w _
  unfold enqueueReadwriter
  dsimp only
  split
  · exact heffect.trans fun hvk => (wakes_enqueueOther _ (by rw [hvk]; exact hw)).trans fun hvk' =>
      wakes_enqueueSelf _ ((hvk' s).trans ((hvk s).trans hs))
  · exact heffect

theorem wakes_enqueueWritereader (pl : ProcLocal) (hs : pl.blockedVk s = that)
    (hw : others (pl.blockedVk w)) : Wakes that others s pl (pl.enqueueWritereader s w) := by
  have heffect : Wakes that others s pl (pl.handleRxEffect w).1 := wakes_setRx pl w _
  unfold enqueueWritereader
  dsimp only
  split
  · exact heffect.trans fun hvk => (wakes_enqueueOther _ (by rw [hvk]; exact hw)).trans fun hvk' =>
      wakes_enqueueSelf _ ((hvk' s).trans ((hvk s).trans hs))
  · exact heffect

/-! ## Blocking -/

theorem enqueueBlocked_cases (pl : ProcLocal) (a : Nat) :
    (pl.sockets a).blockedEnq = false ∧ (pl.enqueueBlocked a).blockedQ = a :: pl.blockedQ ∧
      (pl.enqueueBlocked a).sockets = (pl.updSocket a fun socket =>
        { socket with blockedEnq := true }).sockets ∨
    (pl.sockets a).blockedEnq = true ∧ pl.enqueueBlocked a = pl := by
  unfold enqueueBlocked
  split
  · exact Or.inr ⟨‹_›, rfl⟩
  · exact Or.inl ⟨by simpa using ‹¬_ = true›, rfl, rfl⟩

theorem enqueueBlocked_rest (pl : ProcLocal) (a : Nat) :
    (pl.enqueueBlocked a).threads = pl.threads ∧ (pl.enqueueBlocked a).runQ = pl.runQ := by
  unfold enqueueBlocked
  split <;> exact ⟨rfl, rfl⟩

theorem Queued.enqueueBlocked {pl : ProcLocal} (hq : Queued pl) (a : Nat) :
    Queued (pl.enqueueBlocked a) := by
  obtain ⟨hthreads, hrun⟩ := enqueueBlocked_rest pl a
  rcases enqueueBlocked_cases pl a with ⟨hnew, hblocked, hsockets⟩ | ⟨-, hsame⟩
  · have hout : a ∉ pl.blockedQ := fun ha => by
      rw [(hq.blocked a).mpr ha] at hnew
      cases hnew
    refine ⟨fun t => by rw [hthreads, hrun]; exact hq.run t, by rw [hrun]; exact hq.runNodup,
      fun b => ?_, by rw [hblocked]; exact hq.blockedNodup.cons hout⟩
    rw [hsockets, hblocked, updSocket_sockets, List.mem_cons]
    split
    · rename_i hb
      simp [hb]
    · rename_i hb
      rw [hq.blocked b]
      simp [hb]
  · rw [hsame]
    exact hq

theorem wakes_enqueueBlocked (pl : ProcLocal) : Wakes that others s pl (pl.enqueueBlocked s) where
  queued hq := Queued.enqueueBlocked hq s
  status u := Or.inl (by rw [(enqueueBlocked_rest pl s).1])
  enq u hu := by rw [(enqueueBlocked_rest pl s).1]; exact hu
  runQ u hu := Or.inl ((enqueueBlocked_rest pl s).2 ▸ hu)
  blockedQ a ha := by
    rcases enqueueBlocked_cases pl s with ⟨-, hblocked, -⟩ | ⟨-, hsame⟩
    · rw [hblocked, List.mem_cons] at ha
      exact ha.symm
    · rw [hsame] at ha
      exact Or.inl ha
  blockedVk a := ((settles_enqueueBlocked pl s).socket a).block.blockedVk

theorem wakes_handleBlock (pl : ProcLocal) : Wakes that others s pl (pl.handleBlock s) := by
  have hside : ∀ (pl : ProcLocal) (p : Prop) [Decidable p] {f g : Socket → Socket},
      (∀ socket, (f socket).blockedEnq = socket.blockedEnq ∧
        (f socket).block.blockedVk = socket.block.blockedVk) →
      (∀ socket, (g socket).blockedEnq = socket.blockedEnq ∧
        (g socket).block.blockedVk = socket.block.blockedVk) →
      Wakes that others s pl (if p then (pl.updSocket s f).enqueueBlocked s
        else pl.updSocket s g) := by
    intro pl p _ f g hf hg
    split
    · exact (wakes_updSocket pl s (fun socket => (hf socket).1) fun socket => (hf socket).2).trans
        fun _ => wakes_enqueueBlocked _
    · exact wakes_updSocket pl s (fun socket => (hg socket).1) fun socket => (hg socket).2
  have hclosed : Wakes that others s pl (pl.updSocket s forwardClosed) :=
    wakes_updSocket pl s (fun _ => rfl) fun _ => rfl
  unfold handleBlock
  exact hclosed.trans fun _ =>
    (hside (pl.updSocket s forwardClosed) _ (f := Socket.markReadBlock) (g := Socket.clearReadBlock)
      (fun _ => ⟨rfl, rfl⟩) fun _ => ⟨rfl, rfl⟩).trans fun _ =>
    hside _ _ (f := Socket.markWriteBlock) (g := Socket.clearWriteBlock)
      (fun _ => ⟨rfl, rfl⟩) fun _ => ⟨rfl, rfl⟩

theorem wakes_handled (pl : ProcLocal) : Wakes that others s pl (pl.handled s).pl :=
  wakes_handleBlock pl

theorem wakes_closed (pl : ProcLocal) (hs : pl.blockedVk s = that) :
    Wakes that others s pl (pl.closed s).pl :=
  (wakes_handleBlock pl).trans fun hvk => wakes_enqueueSelf _ ((hvk s).trans hs)

end ProcLocal

end Wakes

/-! ## The handlers -/

namespace ProcLocal

/-- Socket `w` is at the other end of a pipe of socket `s`. -/
def Peer (pl : ProcLocal) (s w : Nat) : Prop :=
  (pl.sockets s).rxFd.ref = .vkTx w ∨ (pl.sockets s).txFd.ref = .vkRx w ∨
    (pl.sockets s).txFd.ref = .vkTx w

/-- A socket at the other end of a pipe of socket `s` blocks thread `u`. -/
def PeerBlocks (pl : ProcLocal) (s u : Nat) : Prop := ∃ w, pl.Peer s w ∧ pl.blockedVk w = u

/-- The sockets at the other ends. -/
def peers (pl : ProcLocal) (s : Nat) : List Nat :=
  (match (pl.sockets s).rxFd.ref with
    | .vkTx w => [w]
    | .osFd _ | .vkRx _ => []) ++
  (match (pl.sockets s).txFd.ref with
    | .vkRx w | .vkTx w => [w]
    | .osFd _ => [])

theorem mem_peers_iff {pl : ProcLocal} {s w : Nat} : w ∈ pl.peers s ↔ pl.Peer s w := by
  unfold peers Peer
  rw [List.mem_append]
  refine or_congr ?_ ?_
  · cases (pl.sockets s).rxFd.ref <;> simp [eq_comm]
  · cases (pl.sockets s).txFd.ref <;> simp [eq_comm]

instance (pl : ProcLocal) (s u : Nat) : Decidable (pl.PeerBlocks s u) :=
  decidable_of_iff (∃ w ∈ pl.peers s, pl.blockedVk w = u) (by simp only [mem_peers_iff, PeerBlocks])

/-- The thread that `s` blocks, and those its peers block. -/
def HandlerWakes (s : Nat) (pl pl' : ProcLocal) : Prop :=
  Wakes (pl.blockedVk s) (pl.PeerBlocks s) s pl pl'

variable (pl : ProcLocal) (s : Nat) (os : Os)

theorem wakes_handleRead : HandlerWakes s pl (pl.handleRead s os).pl := by
  unfold HandlerWakes
  cases href : (pl.sockets s).rxFd.ref with
  | osFd fd =>
      simp only [handleRead, href]
      have hread : ∀ io, Wakes (pl.blockedVk s) (pl.PeerBlocks s) s pl
          (((pl.absorbRx s io).enqueueRead s).handled s).pl := fun io =>
        (wakes_absorbRx pl s io).trans fun hvk => (wakes_enqueueRead _ (hvk s)).trans fun _ =>
          wakes_handled _
      split
      · exact hread _
      · exact hread _
  | vkTx w =>
      have hw : pl.PeerBlocks s (pl.blockedVk w) := ⟨w, Or.inl href, rfl⟩
      simp only [handleRead, href]
      exact (((wakes_spliceFrom pl s w).trans fun hvk => wakes_enqueueRead _ (hvk s)).trans
        fun hvk => wakes_enqueueReadwriter _ (hvk s) (by rw [hvk]; exact hw)).trans fun _ =>
          wakes_handled _
  | vkRx w =>
      simp only [handleRead, href]
      exact (wakes_setErrno pl _).trans fun _ => wakes_handleBlock _

theorem wakes_handleWrite : HandlerWakes s pl (pl.handleWrite s os).pl := by
  unfold HandlerWakes
  cases href : (pl.sockets s).txFd.ref with
  | osFd fd =>
      simp only [handleWrite, href]
      exact ((wakes_absorbTx pl s _).trans fun hvk => wakes_enqueueWrite _ (hvk s)).trans fun _ =>
        wakes_handled _
  | vkRx r =>
      have hr : pl.PeerBlocks s (pl.blockedVk r) := ⟨r, Or.inr (Or.inl href), rfl⟩
      simp only [handleWrite, href]
      exact (((wakes_spliceTo pl s r).trans fun hvk => wakes_enqueueWrite _ (hvk s)).trans
        fun hvk => wakes_enqueueWritereader _ (hvk s) (by rw [hvk]; exact hr)).trans fun _ =>
          wakes_handled _
  | vkTx r =>
      simp only [handleWrite, href]
      exact (wakes_setErrno pl _).trans fun _ => wakes_handleBlock _

section Forward

variable {pl s os} {pl' : ProcLocal}

/-- The transmit half of a forward. -/
theorem wakes_forwardTx {that : Nat} {others : Nat → Prop} (ref : PipeRef)
    (hs : pl.blockedVk s = that) (hr : ∀ r, ref = .vkRx r → others (pl.blockedVk r)) :
    Wakes that others s pl (pl.forwardTx s os ref).pl := by
  cases ref with
  | osFd fd =>
      exact ((wakes_absorbTx pl s _).trans fun hvk => wakes_enqueueWrite _ ((hvk s).trans hs)).trans
        fun _ => wakes_handled _
  | vkRx r =>
      exact (((wakes_spliceTo pl s r).trans fun hvk => wakes_enqueueWrite _ ((hvk s).trans hs)).trans
        fun hvk => wakes_enqueueWritereader _ ((hvk s).trans hs) (by rw [hvk]; exact hr r rfl)).trans
          fun _ => wakes_handled _
  | vkTx r => exact wakes_setErrno pl _

theorem wakes_forwardFromFd {that : Nat} {others : Nat → Prop} (ref : PipeRef)
    (hs : pl.blockedVk s = that) (hr : ∀ r, ref = .vkRx r → others (pl.blockedVk r)) :
    Wakes that others s pl (pl.forwardFromFd s os ref).pl := by
  cases ref with
  | osFd fd =>
      exact ((wakes_absorbTx pl s _).trans fun hvk => wakes_enqueueWrite _ ((hvk s).trans hs)).trans
        fun _ => wakes_handled _
  | vkRx r =>
      have hr := hr r rfl
      have hwrite : Wakes that others s pl ((pl.spliceTo s r).enqueueWrite s) :=
        (wakes_spliceTo pl s r).trans fun hvk => wakes_enqueueWrite _ ((hvk s).trans hs)
      simp only [forwardFromFd]
      split
      · exact ((hwrite.trans fun hvk => wakes_enqueueWritereader _ ((hvk s).trans hs)
          (by rw [hvk]; exact hr)).trans fun hvk =>
            wakes_enqueueRun _ (by rw [hvk]; exact hr)).trans fun _ => wakes_handled _
      · exact hwrite.trans fun _ => wakes_handled _
  | vkTx r => exact wakes_setErrno pl _

end Forward

theorem wakes_handleForward : HandlerWakes s pl (pl.handleForward s os).pl := by
  unfold HandlerWakes
  have hr : ∀ r, (pl.sockets s).txFd.ref = .vkRx r → pl.PeerBlocks s (pl.blockedVk r) :=
    fun r href => ⟨r, Or.inr (Or.inl href), rfl⟩
  cases href : (pl.sockets s).rxFd.ref with
  | osFd fd =>
      rw [handleForward_osFd href]
      exact ((wakes_absorbRx pl s _).trans fun hvk => wakes_enqueueRead _ (hvk s)).trans fun hvk =>
        wakes_forwardFromFd _ (hvk s) fun r hr' => by rw [hvk]; exact hr r hr'
  | vkTx w =>
      have hw : pl.PeerBlocks s (pl.blockedVk w) := ⟨w, Or.inl href, rfl⟩
      rw [handleForward_vkTx href]
      exact (((wakes_spliceFrom pl s w).trans fun hvk => wakes_enqueueRead _ (hvk s)).trans
        fun hvk => wakes_enqueueReadwriter _ (hvk s) (by rw [hvk]; exact hw)).trans fun hvk =>
          wakes_forwardTx _ (hvk s) fun r hr' => by rw [hvk]; exact hr r hr'
  | vkRx w =>
      simp only [handleForward, href]
      exact wakes_setErrno pl _

theorem wakes_handleReadhup : HandlerWakes s pl (pl.handleReadhup s).pl := by
  unfold HandlerWakes
  cases href : (pl.sockets s).rxFd.ref with
  | osFd fd =>
      simp only [handleReadhup, href]
      exact (wakes_enqueueRead pl rfl).trans fun _ => wakes_handled _
  | vkTx w =>
      have hw : pl.PeerBlocks s (pl.blockedVk w) := ⟨w, Or.inl href, rfl⟩
      rw [handleReadhup_eq href]
      split
      · exact ((((wakes_setTx pl w _).trans fun _ => wakes_setRx _ s _).trans fun hvk =>
          wakes_enqueueRead _ (hvk s)).trans fun hvk =>
            wakes_enqueueReadwriter _ (hvk s) (by rw [hvk]; exact hw)).trans fun _ => wakes_handled _
      · exact wakes_handled pl
  | vkRx w =>
      simp only [handleReadhup, href]
      exact wakes_setErrno pl _

theorem wakes_handleHup : HandlerWakes s pl (pl.handleHup s).pl := by
  unfold HandlerWakes
  cases href : (pl.sockets s).txFd.ref with
  | osFd fd =>
      simp only [handleHup, href]
      exact (wakes_enqueueWrite pl rfl).trans fun _ => wakes_handled _
  | vkRx r =>
      have hr : pl.PeerBlocks s (pl.blockedVk r) := ⟨r, Or.inr (Or.inl href), rfl⟩
      simp only [handleHup, href]
      split
      · exact ((wakes_enqueueWrite pl rfl).trans fun hvk =>
          wakes_enqueueWritereader _ (hvk s) (by rw [hvk]; exact hr)).trans fun _ => wakes_handled _
      · exact wakes_handled pl
  | vkTx r =>
      simp only [handleHup, href]
      exact wakes_setErrno pl _

/-- A side that is closed by a call on its descriptor. -/
theorem wakes_closeTx (io : Io) : HandlerWakes s pl ((((pl.absorbTx s io).setTx s
    ((pl.absorbTx s io).sockets s).tx.markClosed).enqueueWrite s).closed s).pl :=
  ((((wakes_absorbTx pl s io).trans fun _ => wakes_setTx _ s _).trans fun hvk =>
    wakes_enqueueWrite _ (hvk s)).trans fun hvk => wakes_closed _ (hvk s))

theorem wakes_handleTxClose : HandlerWakes s pl (pl.handleTxClose s os).pl := by
  have hmark : ∀ r, pl.Peer s r → HandlerWakes s pl ((((pl.setTx s (pl.sockets s).tx.markEof).enqueueWrite
      s).enqueueWritereader s r).closed s).pl := fun r hr =>
    (((wakes_setTx pl s _).trans fun hvk => wakes_enqueueWrite _ (hvk s)).trans fun hvk =>
      wakes_enqueueWritereader _ (hvk s) (by rw [hvk]; exact ⟨r, hr, rfl⟩)).trans fun hvk =>
        wakes_closed _ (hvk s)
  cases href : (pl.sockets s).txFd.ref with
  | osFd fd =>
      simp only [handleTxClose, href]
      exact wakes_closeTx pl s _
  | vkRx r =>
      simp only [handleTxClose, href]
      exact hmark r (Or.inr (Or.inl href))
  | vkTx r =>
      simp only [handleTxClose, href]
      exact hmark r (Or.inr (Or.inr href))

theorem wakes_closeRx (rc : SysResult Unit) : HandlerWakes s pl (pl.closeRx s rc).pl := by
  unfold HandlerWakes
  cases href : (pl.sockets s).rxFd.ref with
  | osFd fd =>
      simp only [closeRx, href]
      exact ((((wakes_absorbRx pl s _).trans fun _ => wakes_setRx _ s _).trans fun hvk =>
        wakes_enqueueRead _ (hvk s)).trans fun hvk => wakes_closed _ (hvk s))
  | vkTx w | vkRx w =>
      simp only [closeRx, href]
      exact (wakes_enqueueRead pl rfl).trans fun hvk => wakes_closed _ (hvk s)

theorem wakes_handleTxShutdown : HandlerWakes s pl (pl.handleTxShutdown s os).pl := by
  cases href : (pl.sockets s).txFd.ref with
  | osFd fd =>
      simp only [handleTxShutdown, href]
      exact wakes_closeTx pl s _
  | vkTx r | vkRx r =>
      simp only [handleTxShutdown, href]
      exact (wakes_enqueueWrite pl rfl).trans fun hvk => wakes_closed _ (hvk s)

/-- Whatever a socket's operation, its handler wakes only its own thread and those
of its peers, and queues only the socket. -/
theorem wakes_socketHandler : HandlerWakes s pl (pl.socketHandler s os).pl := by
  have hevents : ∀ (pl : ProcLocal) (f g : Socket → Socket),
      (∀ socket, (f socket).blockedEnq = socket.blockedEnq ∧
        (f socket).block.blockedVk = socket.block.blockedVk) →
      (∀ socket, (g socket).blockedEnq = socket.blockedEnq ∧
        (g socket).block.blockedVk = socket.block.blockedVk) →
      HandlerWakes s pl ((pl.updSocket s f).updSocket s g) := fun pl f g hf hg =>
    (wakes_updSocket pl s (fun socket => (hf socket).1) fun socket => (hf socket).2).trans fun _ =>
      wakes_updSocket _ s (fun socket => (hg socket).1) fun socket => (hg socket).2
  cases hop : (pl.sockets s).block.op <;> simp only [socketHandler, hop]
  case none => exact Wakes.refl pl
  case read =>
      have hread := wakes_handleRead pl s os
      have hhandles := handles_handleRead pl s os
      split
      · exact hread
      · split
        · refine Wakes.trans hread fun hvk => ?_
          have hwrite := wakes_handleWrite (pl.handleRead s os).pl s os
          have hpeers : ∀ u, (pl.handleRead s os).pl.PeerBlocks s u ↔ pl.PeerBlocks s u := fun u => by
            simp only [PeerBlocks, Peer, hhandles.rxRef, hhandles.txRef, hvk]
          rw [HandlerWakes, hvk, funext fun u => propext (hpeers u)] at hwrite
          exact hwrite
        · exact hread
  case write => exact wakes_handleWrite pl s os
  case forward => exact wakes_handleForward pl s os
  case flush => exact wakes_handleWrite pl s os
  case hup => exact wakes_handleHup pl s
  case readhup => exact wakes_handleReadhup pl s
  case txClose => exact wakes_handleTxClose pl s os
  case rxClose => exact wakes_closeRx pl s _
  case rxShutdown => exact wakes_closeRx pl s _
  case txShutdown => exact wakes_handleTxShutdown pl s os
  case readable => exact hevents pl _ _ (fun _ => ⟨rfl, rfl⟩) fun _ => ⟨rfl, rfl⟩
  case writable => exact hevents pl _ _ (fun _ => ⟨rfl, rfl⟩) fun _ => ⟨rfl, rfl⟩

end ProcLocal

end Vk

/-
# `Mnvkd.ForwardHandler` — what the handler of a forward does

`vk_socket_handle_forward` has a part for each side of its socket.  The one fills
the receive ring, from a descriptor or from the ring of the socket it reads from;
the other drains the transmit ring.  Each takes over an effect of its ring, which
readies the thread, and then the socket is queued for the poller where a side
blocks.

Whatever kinds the sides are of, a handler is a `Fills`, a `Drains` and that end
(`handleForward_cases`), so what it leaves is read off the two.
-/
import Mnvkd.HandlerReach
import Mnvkd.LazyFlush
import Mnvkd.Schedule

namespace Vk

open Lib Errno
open Vectoring (SameRing)

namespace ProcLocal

variable {pl pl' pl'' : ProcLocal} {s r w : Nat} {os : Os}

/-- What the read side leaves. -/
inductive Fills (s : Nat) (os : Os) (pl : ProcLocal) : ProcLocal → Prop where
  | fd {fd : Int} (h : (pl.sockets s).rxFd.ref = .osFd fd) :
      Fills s os pl ((pl.absorbRx s ((pl.sockets s).rx.read os.readv pl.errno)).enqueueRead s)
  | pipe {w : Nat} (h : (pl.sockets s).rxFd.ref = .vkTx w) :
      Fills s os pl (((pl.spliceFrom s w).enqueueRead s).enqueueReadwriter s w)

/-- What the write side leaves.  Whether the peer of a virtual pipe is woken, and how
often, settles behind it. -/
inductive Drains (s : Nat) (os : Os) (pl : ProcLocal) : ProcLocal → Prop where
  | fd {fd : Int} (h : (pl.sockets s).txFd.ref = .osFd fd) :
      Drains s os pl ((pl.absorbTx s ((pl.sockets s).tx.write os.writev pl.errno)).enqueueWrite s)
  | pipe {r : Nat} {pl' : ProcLocal} (h : (pl.sockets s).txFd.ref = .vkRx r)
      (hsettles : Settles ((pl.spliceTo s r).enqueueWrite s) pl')
      (hqueued : Queued ((pl.spliceTo s r).enqueueWrite s) → Queued pl') : Drains s os pl pl'

theorem Fills.handles (h : Fills s os pl pl') : Handles pl pl' := by
  cases h with
  | fd href => exact (handles_absorbRx pl s _).settle (settles_enqueueRead _ s)
  | pipe href =>
      exact (handles_spliceFrom pl s _).settle
        ((settles_enqueueRead _ s).trans (settles_enqueueReadwriter _ s _))

theorem Drains.handles (h : Drains s os pl pl') : Handles pl pl' := by
  cases h with
  | fd href => exact (handles_absorbTx pl s _).settle (settles_enqueueWrite _ s)
  | pipe href hsettles => exact (handles_spliceTo pl s _).settle ((settles_enqueueWrite _ s).trans hsettles)

theorem queued_of_wakes (h : Wakes (pl.blockedVk s) (fun _ => True) s pl pl') (hq : Queued pl) :
    Queued pl' := h.queued hq

theorem Fills.queued (h : Fills s os pl pl') (hq : Queued pl) : Queued pl' := by
  cases h with
  | fd href =>
      exact queued_of_wakes ((wakes_absorbRx pl s _).trans fun hvk => wakes_enqueueRead _ (hvk s)) hq
  | pipe href =>
      exact queued_of_wakes (((wakes_spliceFrom pl s _).trans fun hvk =>
        wakes_enqueueRead _ (hvk s)).trans fun hvk => wakes_enqueueReadwriter _ (hvk s) trivial) hq

theorem Drains.queued (h : Drains s os pl pl') (hq : Queued pl) : Queued pl' := by
  cases h with
  | fd href =>
      exact queued_of_wakes ((wakes_absorbTx pl s _).trans fun hvk => wakes_enqueueWrite _ (hvk s)) hq
  | pipe href hsettles hqueued =>
      exact hqueued (queued_of_wakes
        ((wakes_spliceTo pl s _).trans fun hvk => wakes_enqueueWrite _ (hvk s)) hq)

/-- A handler fills the one ring, drains the other, and ends as most handlers do. -/
theorem handleForward_cases (hw : Wired pl) (s : Nat) (os : Os) :
    ∃ pl₁ pl₂, Fills s os pl pl₁ ∧ Drains s os pl₁ pl₂ ∧ pl.handleForward s os = pl₂.handled s := by
  obtain ⟨hrx, htx⟩ := forall_and.mp (hw s)
  cases href : (pl.sockets s).rxFd.ref with
  | osFd fd =>
      have hfills : Fills s os pl _ := .fd href
      cases href' : (pl.sockets s).txFd.ref with
      | osFd fd' =>
          refine ⟨_, _, hfills, .fd ((hfills.handles.txRef s).trans href'), ?_⟩
          simp only [handleForward, href, href']
      | vkRx r =>
          simp only [handleForward, href, href']
          split
          · exact ⟨_, _, hfills, .pipe ((hfills.handles.txRef s).trans href')
              ((settles_enqueueWritereader _ s r).trans (settles_enqueueRun _ _))
              (queued_of_wakes ((wakes_enqueueWritereader _ rfl trivial).trans fun _ =>
                wakes_enqueueRun _ trivial)), rfl⟩
          · exact ⟨_, _, hfills, .pipe ((hfills.handles.txRef s).trans href') (Settles.refl _) id, rfl⟩
      | vkTx b => exact absurd href' (htx b)
  | vkTx w =>
      have hfills : Fills s os pl _ := .pipe href
      cases href' : (pl.sockets s).txFd.ref with
      | osFd fd' =>
          refine ⟨_, _, hfills, .fd ((hfills.handles.txRef s).trans href'), ?_⟩
          simp only [handleForward, href, href']
      | vkRx r =>
          refine ⟨_, _, hfills, .pipe ((hfills.handles.txRef s).trans href')
            (settles_enqueueWritereader _ s r)
            (queued_of_wakes (wakes_enqueueWritereader _ rfl trivial)), ?_⟩
          simp only [handleForward, href, href']
      | vkTx b => exact absurd href' (htx b)
  | vkRx b => exact absurd href (hrx b)

/-! ## The rings -/

/-- The receive ring as the read side leaves it, its effect not yet taken over. -/
def filled (pl : ProcLocal) (s : Nat) (os : Os) : Vectoring :=
  match (pl.sockets s).rxFd.ref with
  | .osFd _ => ((pl.sockets s).rx.read os.readv pl.errno).ring
  | .vkTx w => (pl.fromPeer s w).rx
  | .vkRx _ => (pl.sockets s).rx

/-- The transmit ring as the write side leaves it. -/
def drained (pl : ProcLocal) (s : Nat) (os : Os) : Vectoring :=
  match (pl.sockets s).txFd.ref with
  | .osFd _ => ((pl.sockets s).tx.write os.writev pl.errno).ring
  | .vkRx r => ((pl.sockets r).rx.splice (pl.sockets s).tx (-1) pl.errno).tx
  | .vkTx _ => (pl.sockets s).tx

/-- Socket `s` is not at both ends of one virtual pipe. -/
structure Straight (s : Nat) (pl : ProcLocal) : Prop where
  rx : (pl.sockets s).rxFd.ref ≠ .vkTx s
  tx : (pl.sockets s).txFd.ref ≠ .vkRx s

theorem absorbRx_tx (pl : ProcLocal) (s : Nat) (io : Io) (a : Nat) :
    ((pl.absorbRx s io).sockets a).tx = (pl.sockets a).tx := by
  simp only [absorbRx]
  split
  · exact (handleError_rings _ s a).2.trans (setRx_tx pl s a io.ring)
  · exact setRx_tx pl s a io.ring

theorem absorbTx_tx (pl : ProcLocal) (s : Nat) (io : Io) :
    ((pl.absorbTx s io).sockets s).tx = io.ring := by
  simp only [absorbTx]
  split
  · exact (handleError_rings _ s s).2.trans (setTx_tx_self pl s io.ring)
  · exact setTx_tx_self pl s io.ring

theorem spliceTo_tx (pl : ProcLocal) (s r : Nat) : ((pl.spliceTo s r).sockets s).tx
    = ((pl.sockets r).rx.splice (pl.sockets s).tx (-1) pl.errno).tx := by
  have hset : ((pl.spliced s r).sockets s).tx
      = ((pl.sockets r).rx.splice (pl.sockets s).tx (-1) pl.errno).tx :=
    (setRx_tx _ r s _).trans (setTx_tx_self pl s _)
  simp only [spliceTo]
  split
  · exact (handleError_rings _ s s).2.trans hset
  · exact hset

theorem enqueueReadwriter_tx (pl : ProcLocal) (s w : Nat) {a : Nat} (h : a ≠ w) :
    ((pl.enqueueReadwriter s w).sockets a).tx = (pl.sockets a).tx := by
  have hset : ((pl.handleTxEffect w).1.sockets a).tx = (pl.sockets a).tx :=
    (setTx_tx pl w a _).trans (if_neg h)
  unfold enqueueReadwriter
  dsimp only
  split
  · simp only [enqueueSelf, enqueueOther, ready, updThread_sockets, enqueueRun_sockets]
    exact hset
  · exact hset

theorem asleep_settles (h : Settles pl pl') (hasleep : pl'.Asleep s) : pl.Asleep s := by
  unfold Asleep at hasleep ⊢
  rw [blockedVk_of_sameData h.toSameData] at hasleep
  rcases h.status (pl.blockedVk s) with hsame | hrun
  · rw [← hsame]
    exact hasleep
  · rw [hrun] at hasleep
    cases hasleep

theorem asleep_absorbTx (pl : ProcLocal) (s : Nat) (io : Io) :
    (pl.absorbTx s io).Asleep s ↔ pl.Asleep s := by
  have hthreads : (pl.absorbTx s io).threads = pl.threads := by
    simp only [absorbTx]
    split
    · rfl
    · rfl
  refine asleep_congr hthreads ?_
  rw [blockedVk_of_sameData (settles_absorbTx pl s io).toSameData, setTx_blockedVk]

theorem asleep_spliceTo (pl : ProcLocal) (s r : Nat) :
    (pl.spliceTo s r).Asleep s ↔ pl.Asleep s := by
  have hthreads : (pl.spliceTo s r).threads = pl.threads := by
    simp only [spliceTo]
    split
    · rfl
    · rfl
  refine asleep_congr hthreads ?_
  rw [blockedVk_of_sameData (settles_spliceTo pl s r).toSameData, spliced, setRx_blockedVk,
    setTx_blockedVk]

theorem asleep_enqueueWrite (pl : ProcLocal) (s : Nat) :
    (pl.enqueueWrite s).Asleep s ↔ pl.Asleep s ∧ (pl.sockets s).tx.effect = false :=
  asleep_ite (asleep_congr rfl (setTx_blockedVk pl s s _)) (not_asleep_enqueueSelf _ s)

/-- The read side leaves the other ring alone, and a thread that it leaves waiting
has had no effect to wake it. -/
theorem Fills.spec (h : Fills s os pl pl') (hs : Straight s pl) :
    SameRing (pl.filled s os) (pl'.sockets s).rx ∧
      (pl'.sockets s).tx = (pl.sockets s).tx ∧
      (pl'.Asleep s → pl.Asleep s ∧ (pl.filled s os).effect = false) := by
  cases h with
  | fd href =>
      simp only [filled, href]
      refine ⟨?_, ?_, fun hasleep => ?_⟩
      · have hsame := ((settles_enqueueRead (pl.absorbRx s ((pl.sockets s).rx.read os.readv pl.errno))
          s).socket s).rx
        rwa [absorbRx_rx] at hsame
      · exact (enqueueRead_tx _ s s).trans (absorbRx_tx pl s _ s)
      · rwa [asleep_enqueueRead, asleep_absorbRx, absorbRx_rx] at hasleep
  | @pipe w href =>
      have hne : s ≠ w := by
        rintro rfl
        exact hs.rx href
      have hrx : ((pl.spliceFrom s w).sockets s).rx = (pl.fromPeer s w).rx :=
        (spliceFrom_rings pl s w s).1.trans (spliced_rx pl s w)
      simp only [filled, href]
      refine ⟨?_, ?_, fun hasleep => ?_⟩
      · rw [← hrx]
        exact (((settles_enqueueRead _ s).trans (settles_enqueueReadwriter _ s w)).socket s).rx
      · rw [enqueueReadwriter_tx _ s w hne, enqueueRead_tx, (spliceFrom_rings pl s w s).2, spliced,
          setRx_tx, setTx_tx, if_neg hne]
      · have hread := asleep_settles (settles_enqueueReadwriter _ s w) hasleep
        rwa [asleep_enqueueRead, asleep_spliceFrom, hrx] at hread

theorem Straight.of_handles (h : Straight s pl) (hhandles : Handles pl pl') : Straight s pl' where
  rx := by
    rw [hhandles.rxRef]
    exact h.rx
  tx := by
    rw [hhandles.txRef]
    exact h.tx

/-- The read side keeps the pipes as they are. -/
theorem Fills.transfers {w r : Nat} (h : Fills s os pl pl') (hj : Joined pl w r) :
    Transfers w r pl pl' := by
  cases h with
  | fd href =>
      exact (transfers_absorbRx hj (ne_reader_of_osFd hj href) ((hj.wf s).1.of_read _ _)).settle hj
        (settles_enqueueRead _ s)
  | pipe href =>
      exact (transfers_spliceFrom hj (reader_iff hj href)).settle hj
        ((settles_enqueueRead _ s).trans (settles_enqueueReadwriter _ s _))

/-- So does the write side. -/
theorem Drains.spec (h : Drains s os pl pl') (hs : Straight s pl) :
    SameRing (pl.drained s os) (pl'.sockets s).tx ∧ SameRing (pl.sockets s).rx (pl'.sockets s).rx ∧
      (pl'.Asleep s → pl.Asleep s ∧ (pl.drained s os).effect = false) := by
  cases h with
  | @fd fd href =>
      have hdata := (settles_absorbTx pl s ((pl.sockets s).tx.write os.writev pl.errno)).toSameData.trans
        (settles_enqueueWrite _ s).toSameData
      have hring : ((pl.absorbTx s ((pl.sockets s).tx.write os.writev pl.errno)).sockets s).tx
          = ((pl.sockets s).tx.write os.writev pl.errno).ring := absorbTx_tx pl s _
      simp only [drained, href]
      refine ⟨?_, ?_, fun hasleep => ?_⟩
      · have htx := (hdata.socket s).tx
        rwa [setTx_tx_self] at htx
      · have hrx := (hdata.socket s).rx
        rwa [setTx_rx] at hrx
      · rwa [asleep_enqueueWrite, asleep_absorbTx, hring] at hasleep
  | @pipe r pl' href hsettles =>
      have hne : s ≠ r := by
        rintro rfl
        exact hs.tx href
      have hdata := (settles_spliceTo pl s r).toSameData.trans
        ((settles_enqueueWrite _ s).trans hsettles).toSameData
      simp only [drained, href]
      refine ⟨?_, ?_, fun hasleep => ?_⟩
      · have htx := (hdata.socket s).tx
        rwa [spliced, setRx_tx, setTx_tx_self] at htx
      · have hrx := (hdata.socket s).rx
        rwa [spliced, setRx_rx, if_neg hne, setTx_rx] at hrx
      · have hwrite := asleep_settles hsettles hasleep
        rwa [asleep_enqueueWrite, asleep_spliceTo, spliceTo_tx] at hwrite

/-! ## The end -/

theorem mem_enqueueBlocked (hq : Queued pl) (s : Nat) : s ∈ (pl.enqueueBlocked s).blockedQ := by
  rcases enqueueBlocked_cases pl s with ⟨-, hblocked, -⟩ | ⟨henq, hsame⟩
  · rw [hblocked]
    exact List.mem_cons_self
  · rw [hsame]
    exact (hq.blocked s).mp henq

/-- A side that blocks on its descriptor queues the socket. -/
theorem mem_handleBlock (hq : Queued pl) (s : Nat)
    (h : 0 ≤ (pl.sockets s).rxFd.getFd ∧ (pl.sockets s).rx.rxBlocked = true ∨
      0 ≤ (pl.sockets s).txFd.getFd ∧ (pl.sockets s).tx.txBlocked = true) :
    s ∈ (pl.handleBlock s).blockedQ := by
  -- a side is marked and queued, or cleared: either way the rings and pipes stay
  have hside : ∀ (pl : ProcLocal) (p : Prop) [Decidable p] {f g : Socket → Socket}, Queued pl →
      (∀ socket, SameSocket socket (f socket) ∧ (f socket).blockedEnq = socket.blockedEnq) →
      (∀ socket, SameSocket socket (g socket) ∧ (g socket).blockedEnq = socket.blockedEnq) →
      ∀ pl' : ProcLocal, (if p then (pl.updSocket s f).enqueueBlocked s else pl.updSocket s g) = pl' →
        Queued pl' ∧ Settles pl pl' ∧ (p → s ∈ pl'.blockedQ) := by
    rintro pl p _ f g hq hf hg pl' rfl
    have hqueued : ∀ {f : Socket → Socket}, (∀ socket, SameSocket socket (f socket) ∧
        (f socket).blockedEnq = socket.blockedEnq) → Queued (pl.updSocket s f) := fun hf =>
      queued_of_wakes (s := s) (wakes_updSocket pl s (fun socket => (hf socket).2) fun socket =>
        (hf socket).1.block.blockedVk) hq
    split
    next hp =>
      exact ⟨Queued.enqueueBlocked (hqueued hf) s,
        (settles_updSocket pl s (hf _).1).trans (settles_enqueueBlocked _ s),
        fun _ => mem_enqueueBlocked (hqueued hf) s⟩
    next hp => exact ⟨hqueued hg, settles_updSocket pl s (hg _).1, fun h => absurd h hp⟩
  have hclosed : Settles pl (pl.updSocket s forwardClosed) :=
    settles_updSocket pl s (sameSocket_forwardClosed _)
  have hqueued : Queued (pl.updSocket s forwardClosed) :=
    queued_of_wakes (s := s) (wakes_updSocket pl s (fun _ => rfl) fun _ => rfl) hq
  have hfds : ∀ {a b : ProcLocal}, Settles a b →
      (b.sockets s).rxFd.getFd = (a.sockets s).rxFd.getFd ∧
        (b.sockets s).txFd.getFd = (a.sockets s).txFd.getFd := fun h => by
    simp only [Pipe.getFd, (h.socket s).rxRef, (h.socket s).txRef, and_self]
  unfold handleBlock
  dsimp only
  generalize pl.updSocket s forwardClosed = pl₁ at hclosed hqueued ⊢
  generalize hread : (if 0 ≤ (pl₁.sockets s).rxFd.getFd ∧ (pl₁.sockets s).rx.rxBlocked = true then
    (pl₁.updSocket s Socket.markReadBlock).enqueueBlocked s
    else pl₁.updSocket s Socket.clearReadBlock) = pl₂
  obtain ⟨hqueued₂, hsettles, hrx⟩ := hside pl₁ _ (f := Socket.markReadBlock) (g := Socket.clearReadBlock) hqueued
    (fun socket => ⟨sameSocket_setReadEvents socket _, rfl⟩)
    (fun socket => ⟨sameSocket_setReadEvents socket _, rfl⟩) pl₂ hread
  generalize hwrite : (if 0 ≤ (pl₂.sockets s).txFd.getFd ∧ (pl₂.sockets s).tx.txBlocked = true then
    (pl₂.updSocket s Socket.markWriteBlock).enqueueBlocked s
    else pl₂.updSocket s Socket.clearWriteBlock) = pl₃
  obtain ⟨-, hsettles', htx⟩ := hside pl₂ _ (f := Socket.markWriteBlock) (g := Socket.clearWriteBlock) hqueued₂
    (fun socket => ⟨sameSocket_setWriteEvents socket _, rfl⟩)
    (fun socket => ⟨sameSocket_setWriteEvents socket _, rfl⟩) pl₃ hwrite
  rcases h with ⟨hfd, hblocked⟩ | ⟨hfd, hblocked⟩
  · refine hsettles'.blockedQ s (hrx ⟨?_, ?_⟩)
    · rw [(hfds hclosed).1]
      exact hfd
    · rw [(hclosed.socket s).rx.rxBlocked]
      exact hblocked
  · have hsettles₂ := hclosed.trans hsettles
    refine htx ⟨?_, ?_⟩
    · rw [(hfds hsettles₂).2]
      exact hfd
    · rw [(hsettles₂.socket s).tx.txBlocked]
      exact hblocked

/-- The receive ring behind a handler. -/
theorem handleForward_rx (hw : Wired pl) (hs : Straight s pl) (os : Os) :
    SameRing (pl.filled s os) ((pl.handleForward s os).pl.sockets s).rx := by
  obtain ⟨pl₁, pl₂, hfills, hdrains, hend⟩ := handleForward_cases hw s os
  obtain ⟨hfilled, -, -⟩ := hfills.spec hs
  obtain ⟨-, hkept, -⟩ := hdrains.spec (hs.of_handles hfills.handles)
  rw [hend]
  exact (hfilled.trans hkept).trans ((settles_handled pl₂ s).socket s).rx

/-- The transmit ring behind a handler that writes to a descriptor, and what it tells of
a thread that is left waiting. -/
theorem handleForward_tx (hw : Wired pl) (hs : Straight s pl) (os : Os) {fd : Int}
    (href : (pl.sockets s).txFd.ref = .osFd fd) :
    ∃ e, SameRing ((pl.sockets s).tx.write os.writev e).ring
        ((pl.handleForward s os).pl.sockets s).tx ∧
      ((pl.handleForward s os).pl.Asleep s →
        ((pl.sockets s).tx.write os.writev e).ring.effect = false) := by
  obtain ⟨pl₁, pl₂, hfills, hdrains, hend⟩ := handleForward_cases hw s os
  obtain ⟨-, htx, -⟩ := hfills.spec hs
  obtain ⟨hdrained, -, hasleep⟩ := hdrains.spec (hs.of_handles hfills.handles)
  simp only [drained, hfills.handles.txRef, href, htx] at hdrained hasleep
  refine ⟨pl₁.errno, ?_, fun h => ?_⟩
  · rw [hend]
    exact hdrained.trans ((settles_handled pl₂ s).socket s).tx
  · rw [hend, asleep_handled] at h
    exact (hasleep h).2

/-- A thread that is left waiting had no effect to wake it where it reads. -/
theorem asleep_handleForward (hw : Wired pl) (hs : Straight s pl) {os : Os}
    (h : (pl.handleForward s os).pl.Asleep s) :
    pl.Asleep s ∧ (pl.filled s os).effect = false := by
  obtain ⟨pl₁, pl₂, hfills, hdrains, hend⟩ := handleForward_cases hw s os
  obtain ⟨-, -, hasleep⟩ := hfills.spec hs
  obtain ⟨-, -, hasleep'⟩ := hdrains.spec (hs.of_handles hfills.handles)
  rw [hend, asleep_handled] at h
  exact hasleep (hasleep' h).1

/-- Nor where it writes to a virtual pipe. -/
theorem effect_of_asleep (hw : Wired pl) (hs : Straight s pl) (hj : Joined pl s r) {os : Os}
    (h : (pl.handleForward s os).pl.Asleep s) : (pl.sockets s).tx.effect = false := by
  obtain ⟨pl₁, pl₂, hfills, hdrains, hend⟩ := handleForward_cases hw s os
  obtain ⟨-, htx, -⟩ := hfills.spec hs
  obtain ⟨-, -, hasleep⟩ := hdrains.spec (hs.of_handles hfills.handles)
  have hwf := (hfills.transfers hj).wf
  rw [hend, asleep_handled] at h
  have heffect := (hasleep h).2
  obtain ⟨-, -, -, hmoved⟩ := (hwf r).1.splice (hwf s).2 (-1) pl₁.errno
  simp only [drained, hfills.handles.txRef, hj.txRef] at heffect
  rw [hmoved.effect, Bool.or_eq_false_iff] at heffect
  rw [← htx]
  exact heffect.1

/-- The socket is queued where a side blocks on its descriptor. -/
theorem mem_handleForward (hw : Wired pl) (hq : Queued pl) (os : Os)
    (h : 0 ≤ (pl.sockets s).rxFd.getFd ∧
        ((pl.handleForward s os).pl.sockets s).rx.rxBlocked = true ∨
      0 ≤ (pl.sockets s).txFd.getFd ∧
        ((pl.handleForward s os).pl.sockets s).tx.txBlocked = true) :
    s ∈ (pl.handleForward s os).pl.blockedQ := by
  obtain ⟨pl₁, pl₂, hfills, hdrains, hend⟩ := handleForward_cases hw s os
  have hsettles := (settles_handled pl₂ s).socket s
  have hhandles := hfills.handles.trans hdrains.handles
  rw [hend] at h ⊢
  rw [hsettles.rx.rxBlocked, hsettles.tx.txBlocked] at h
  refine mem_handleBlock (hdrains.queued (hfills.queued hq)) s ?_
  simpa only [Pipe.getFd, hhandles.rxRef, hhandles.txRef] using h

end ProcLocal

end Vk

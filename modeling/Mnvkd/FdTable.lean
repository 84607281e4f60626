/-
# `Mnvkd.FdTable` — registering blocked sockets with the poller

The table of `vk_fd_table.c` has a slot for each descriptor, and in the slot the
events the poller is to wait for.  After a process has run, `vk_proc_prepoll`
gives up its closed descriptors and registers its blocked sockets, each side of
each socket in turn.

A registration replaces what the slot held, so a slot ends up with the events of
the last registration made on its descriptor (`registered_prepoll`).  Hence the
poller waits for all that is asked for exactly when the last registrations ask
for it all (`prepoll_registers_iff`).
-/
import Mathlib.Data.List.Induction
import Mnvkd.ThreadIo

namespace Vk

/-- `struct vk_fd`, without what the registration does not touch: its error, its
other two futures, the socket and the type of a poller that does the I/O. -/
structure Fd where
  fd : Int
  procId : Nat
  closed : Bool
  zombie : Bool
  added : Bool
  allocated : Bool
  dirtyQed : Bool
  ioftPre : IoFuture
  deriving DecidableEq, Repr

/-- `struct vk_fd_table`, its slots named by their index. -/
structure FdTable where
  size : Nat
  dirtyFds : List Nat
  fds : Nat → Fd

/-- `struct vk_proc`, what of it prepoll reads. -/
structure Proc where
  procId : Nat
  allocatedFds : List Nat
  localPtr : ProcLocal

namespace Fd

/-- `vk_fd_allocate`. -/
def allocate (slot : Fd) (fd : Int) (procId : Nat) : Fd :=
  if slot.allocated then slot
  else { slot with
    fd := fd, procId := procId, allocated := true, closed := false, added := false, zombie := false }

end Fd

namespace FdTable

/-- `vk_fd_table_get`: the slot of a descriptor.  A negative descriptor is a
`size_t` no table is as large as. -/
def get (tbl : FdTable) (i : Int) : Option Nat := if 0 ≤ i ∧ i < tbl.size then some i.toNat else none

def updFd (tbl : FdTable) (i : Nat) (f : Fd → Fd) : FdTable :=
  { tbl with fds := Function.update tbl.fds i (f (tbl.fds i)) }

@[simp] theorem updFd_self (tbl : FdTable) (i : Nat) (f : Fd → Fd) :
    (tbl.updFd i f).fds i = f (tbl.fds i) := Function.update_self _ _ _

theorem updFd_fds (tbl : FdTable) (i j : Nat) (f : Fd → Fd) :
    (tbl.updFd i f).fds j = if j = i then f (tbl.fds i) else tbl.fds j :=
  Function.update_apply _ _ _ _

/-- `vk_fd_table_enqueue_dirty`. -/
def enqueueDirty (tbl : FdTable) (i : Nat) : FdTable :=
  if (tbl.fds i).dirtyQed then tbl
  else { tbl with dirtyFds := i :: tbl.dirtyFds }.updFd i fun slot => { slot with dirtyQed := true }

end FdTable

/-- A process and the table, which prepoll changes both. -/
structure Polled where
  proc : Proc
  tbl : FdTable

namespace Polled

/-- `vk_proc_allocate_fd`; `false` where another process has the descriptor. -/
def allocateFd (st : Polled) (i : Nat) (fd : Int) : Polled × Bool :=
  if (st.tbl.fds i).allocated then (st, (st.tbl.fds i).procId == st.proc.procId)
  else
    (⟨{ st.proc with allocatedFds := i :: st.proc.allocatedFds },
      st.tbl.updFd i fun slot => slot.allocate fd st.proc.procId⟩, true)

/-- `vk_proc_deallocate_fd`. -/
def deallocateFd (st : Polled) (i : Nat) : Polled :=
  if (st.tbl.fds i).allocated then
    ⟨{ st.proc with allocatedFds := st.proc.allocatedFds.erase i },
      st.tbl.updFd i fun slot => { slot with allocated := false }⟩
  else st

/-- `vk_fd_table_prepoll_blocked_fd`: register the future `ioft` of socket `s`. -/
def prepollBlockedFd (st : Polled) (s : Nat) (ioft : IoFuture) : Polled :=
  match st.tbl.get ioft.event.fd with
  | none => st
  | some i =>
      -- a slot that is another process's is only logged
      let st :=
        if (st.tbl.fds i).allocated then st else (st.allocateFd i ioft.event.fd).1
      let fdIoft : IoFuture := IoFuture.init s
      let fdIoft :=
        { fdIoft with event := { fdIoft.event with fd := ioft.event.fd, events := ioft.event.events } }
      let tbl := st.tbl.updFd i fun slot => { slot with ioftPre := fdIoft }
      if fdIoft.event.events ≠ 0 ∨ (fdIoft.rxClosed && fdIoft.txClosed) = true then
        { st with tbl := tbl.enqueueDirty i }
      else { st with tbl := tbl }

/-- `vk_fd_table_prepoll_blocked_socket`: the receive side, and then the
transmit side if it has another descriptor. -/
def prepollBlockedSocket (st : Polled) (s : Nat) : Polled :=
  let block := (st.proc.localPtr.sockets s).block
  let rxFd := block.ioftRxPre.event.fd
  let txFd := block.ioftTxPre.event.fd
  let st := if rxFd ≠ -1 then st.prepollBlockedFd s block.ioftRxPre else st
  if txFd ≠ -1 ∧ txFd ≠ rxFd then st.prepollBlockedFd s block.ioftTxPre else st

/-- One descriptor of the first loop of `vk_proc_prepoll`: if it is closed, let
the poller know and give it up. -/
def reapClosed (st : Polled) (i : Nat) : Polled :=
  if (st.tbl.fds i).closed then ({ st with tbl := st.tbl.enqueueDirty i }).deallocateFd i else st

/-- `vk_proc_prepoll`. -/
def prepoll (st : Polled) : Polled :=
  let st := st.proc.allocatedFds.foldl reapClosed st
  st.proc.localPtr.blockedQ.foldl prepollBlockedSocket st

end Polled

/-! ## What a slot ends up with -/

/-- The events registered for a descriptor; none where it has no slot. -/
def FdTable.registered (tbl : FdTable) (fd : Int) : Events :=
  match tbl.get fd with
  | some i => (tbl.fds i).ioftPre.event.events
  | none => 0

/-- The registrations made for one socket. -/
def ProcLocal.sides (pl : ProcLocal) (s : Nat) : List Pollfd :=
  let rx := (pl.sockets s).block.ioftRxPre.event
  let tx := (pl.sockets s).block.ioftTxPre.event
  (if rx.fd ≠ -1 then [rx] else []) ++ (if tx.fd ≠ -1 ∧ tx.fd ≠ rx.fd then [tx] else [])

/-- The last registration made on a descriptor. -/
def ProcLocal.lastRegistration (pl : ProcLocal) (fd : Int) : Option Pollfd :=
  (pl.blockedQ.flatMap pl.sides).reverse.find? (·.fd = fd)

/-- A socket asks, on one of its sides, for the event `bit` on a descriptor. -/
def ProcLocal.Asks (pl : ProcLocal) (s : Nat) (fd : Int) (bit : Events) : Prop :=
  let block := (pl.sockets s).block
  (block.ioftRxPre.event.fd = fd ∧ block.ioftRxPre.event.events.any bit = true) ∨
    (block.ioftTxPre.event.fd = fd ∧ block.ioftTxPre.event.events.any bit = true)

instance (pl : ProcLocal) (s : Nat) (fd : Int) (bit : Events) : Decidable (pl.Asks s fd bit) :=
  inferInstanceAs (Decidable (_ ∨ _))

/-- The table waits, on every descriptor, for all that the blocked sockets of a
process ask for. -/
def FdTable.Registers (tbl : FdTable) (pl : ProcLocal) : Prop :=
  ∀ fd : Int, 0 ≤ fd → ∀ s ∈ pl.blockedQ, ∀ bit ∈ [POLLIN, POLLOUT],
    pl.Asks s fd bit → (tbl.registered fd).any bit = true

/-- On every descriptor, the last registration asks for all that the blocked
sockets ask for, and there is a slot for it. -/
def ProcLocal.LastAsksAll (pl : ProcLocal) (size : Nat) : Prop :=
  ∀ fd : Int, 0 ≤ fd → ∀ s ∈ pl.blockedQ, ∀ bit ∈ [POLLIN, POLLOUT],
    pl.Asks s fd bit →
      fd < size ∧ ∃ last, pl.lastRegistration fd = some last ∧ last.events.any bit = true

namespace Polled

/-- From `st` to `st'` the registrations `es` are made, in that order, and the
process's own state and the size of the table stay. -/
structure Makes (st st' : Polled) (es : List Pollfd) : Prop where
  size : st'.tbl.size = st.tbl.size
  localPtr : st'.proc.localPtr = st.proc.localPtr
  registered : ∀ fd : Int, 0 ≤ fd → fd < st.tbl.size →
    st'.tbl.registered fd =
      ((es.reverse.find? (·.fd = fd)).map Pollfd.events).getD (st.tbl.registered fd)

theorem Makes.refl (st : Polled) : Makes st st [] := ⟨rfl, rfl, fun _ _ _ => rfl⟩

/-- What is registered later counts. -/
theorem Makes.trans {a b c : Polled} {es es' : List Pollfd} (h : Makes a b es)
    (h' : Makes b c es') : Makes a c (es ++ es') := by
  refine ⟨h'.size.trans h.size, h'.localPtr.trans h.localPtr, fun fd h₀ h₁ => ?_⟩
  rw [h'.registered fd h₀ (by rw [h.size]; exact h₁), h.registered fd h₀ h₁,
    List.reverse_append, List.find?_append]
  cases es'.reverse.find? (·.fd = fd) <;> rfl

/-- A change that leaves the size, the process's own state and every slot's
future makes no registration. -/
theorem makes_nil {st st' : Polled} (hsize : st'.tbl.size = st.tbl.size)
    (hlocal : st'.proc.localPtr = st.proc.localPtr)
    (hpre : ∀ i, (st'.tbl.fds i).ioftPre = (st.tbl.fds i).ioftPre) : Makes st st' [] := by
  refine ⟨hsize, hlocal, fun fd _ _ => ?_⟩
  show st'.tbl.registered fd = st.tbl.registered fd
  rw [FdTable.registered, FdTable.registered, FdTable.get, FdTable.get, hsize]
  by_cases h : 0 ≤ fd ∧ fd < st.tbl.size
  · simp only [if_pos h, hpre]
  · simp only [if_neg h]

theorem updFd_ioftPre (tbl : FdTable) (i j : Nat) {f : Fd → Fd}
    (hf : ∀ slot, (f slot).ioftPre = slot.ioftPre) :
    ((tbl.updFd i f).fds j).ioftPre = (tbl.fds j).ioftPre := by
  rw [FdTable.updFd_fds]
  split
  · subst j
    exact hf _
  · rfl

theorem enqueueDirty_size (tbl : FdTable) (i : Nat) : (tbl.enqueueDirty i).size = tbl.size := by
  unfold FdTable.enqueueDirty
  split <;> rfl

theorem enqueueDirty_ioftPre (tbl : FdTable) (i j : Nat) :
    ((tbl.enqueueDirty i).fds j).ioftPre = (tbl.fds j).ioftPre := by
  unfold FdTable.enqueueDirty
  split
  · rfl
  · exact updFd_ioftPre { tbl with dirtyFds := i :: tbl.dirtyFds } i j fun _ => rfl

theorem makes_enqueueDirty (st : Polled) (i : Nat) :
    Makes st { st with tbl := st.tbl.enqueueDirty i } [] :=
  makes_nil (enqueueDirty_size _ i) rfl (enqueueDirty_ioftPre _ i)

theorem makes_allocateFd (st : Polled) (i : Nat) (fd : Int) :
    Makes st (st.allocateFd i fd).1 [] := by
  unfold allocateFd
  split
  · exact Makes.refl st
  · refine makes_nil rfl rfl fun j => updFd_ioftPre st.tbl i j (f := (·.allocate fd st.proc.procId))
      fun slot => ?_
    unfold Fd.allocate
    split <;> rfl

theorem makes_deallocateFd (st : Polled) (i : Nat) : Makes st (st.deallocateFd i) [] := by
  unfold deallocateFd
  split
  · exact makes_nil rfl rfl fun j =>
      updFd_ioftPre st.tbl i j (f := fun slot => { slot with allocated := false }) fun _ => rfl
  · exact Makes.refl st

/-- A future put in the slot of its descriptor registers its events there. -/
theorem makes_updFd (st : Polled) {i : Nat} {ioft : IoFuture} {event : Pollfd}
    (hi : st.tbl.get event.fd = some i) (hevents : ioft.event.events = event.events) :
    Makes st { st with tbl := st.tbl.updFd i fun slot => { slot with ioftPre := ioft } }
      [event] := by
  refine ⟨rfl, rfl, fun fd h₀ h₁ => ?_⟩
  have hget : st.tbl.get fd = some fd.toNat := if_pos ⟨h₀, h₁⟩
  have hslot : fd.toNat = i ↔ event.fd = fd := by
    unfold FdTable.get at hi
    split at hi
    · cases hi
      omega
    · cases hi
  show FdTable.registered (st.tbl.updFd i _) fd = _
  have hget' : (st.tbl.updFd i fun slot => { slot with ioftPre := ioft }).get fd = some fd.toNat := hget
  simp only [FdTable.registered, hget, hget', FdTable.updFd_fds]
  by_cases h : event.fd = fd
  · simp [if_pos (hslot.mpr h), h, hevents]
  · simp [if_neg (mt hslot.mp h), h]

/-- A blocked side with no slot registers nothing; with one, it is registered. -/
theorem makes_prepollBlockedFd (st : Polled) (s : Nat) (ioft : IoFuture) :
    Makes st (st.prepollBlockedFd s ioft) [ioft.event] := by
  cases hi : st.tbl.get ioft.event.fd with
  | none =>
      have hst : st.prepollBlockedFd s ioft = st := by simp only [prepollBlockedFd, hi]
      rw [hst]
      refine ⟨rfl, rfl, fun fd h₀ h₁ => ?_⟩
      have hne : ioft.event.fd ≠ fd := by
        rintro rfl
        simp [FdTable.get, h₀, h₁] at hi
      simp [hne]
  | some i =>
      have halloc : Makes st
          (if (st.tbl.fds i).allocated then st else (st.allocateFd i ioft.event.fd).1) [] := by
        split
        · exact Makes.refl st
        · exact makes_allocateFd st i _
      simp only [prepollBlockedFd, hi]
      generalize (if (st.tbl.fds i).allocated then st else (st.allocateFd i ioft.event.fd).1) = st₁
        at halloc ⊢
      have hi₁ : st₁.tbl.get ioft.event.fd = some i := by
        rw [FdTable.get, halloc.size]
        exact hi
      have hput : Makes st { st₁ with tbl := st₁.tbl.updFd i fun slot => { slot with
          ioftPre := { IoFuture.init s with event := { (IoFuture.init s).event with
            fd := ioft.event.fd, events := ioft.event.events } } } } [ioft.event] :=
        halloc.trans (makes_updFd st₁ hi₁ rfl)
      split
      · exact hput.trans (makes_enqueueDirty _ i)
      · exact hput

/-- The sides of a socket are registered. -/
theorem makes_prepollBlockedSocket (st : Polled) (s : Nat) :
    Makes st (st.prepollBlockedSocket s) (st.proc.localPtr.sides s) := by
  have hside : ∀ (st : Polled) (p : Prop) [Decidable p] (ioft : IoFuture),
      Makes st (if p then st.prepollBlockedFd s ioft else st) (if p then [ioft.event] else []) := by
    intro st p _ ioft
    split
    · exact makes_prepollBlockedFd st s ioft
    · exact Makes.refl st
  exact (hside st _ _).trans (hside _ _ _)

/-- The blocked sockets are registered, one after the other. -/
theorem makes_prepollBlockedSockets (ss : List Nat) (st : Polled) :
    Makes st (ss.foldl prepollBlockedSocket st) (ss.flatMap st.proc.localPtr.sides) := by
  induction ss generalizing st with
  | nil => exact Makes.refl st
  | cons s ss ih =>
      have hs := makes_prepollBlockedSocket st s
      have hss := ih (st.prepollBlockedSocket s)
      rw [hs.localPtr] at hss
      exact hs.trans hss

/-- Giving up closed descriptors registers nothing. -/
theorem makes_reapClosed (is : List Nat) (st : Polled) : Makes st (is.foldl reapClosed st) [] := by
  induction is generalizing st with
  | nil => exact Makes.refl st
  | cons i is ih =>
      have hi : Makes st (st.reapClosed i) [] := by
        unfold reapClosed
        split
        · exact (makes_enqueueDirty st i).trans (makes_deallocateFd _ i)
        · exact Makes.refl st
      exact hi.trans (ih _)

theorem makes_prepoll (st : Polled) :
    Makes st st.prepoll (st.proc.localPtr.blockedQ.flatMap st.proc.localPtr.sides) := by
  have hreap := makes_reapClosed st.proc.allocatedFds st
  have hsockets := makes_prepollBlockedSockets st.proc.localPtr.blockedQ
    (st.proc.allocatedFds.foldl reapClosed st)
  have hprepoll : st.prepoll = st.proc.localPtr.blockedQ.foldl prepollBlockedSocket
      (st.proc.allocatedFds.foldl reapClosed st) := by
    rw [prepoll, hreap.localPtr]
  rw [hreap.localPtr] at hsockets
  rw [hprepoll]
  exact hreap.trans hsockets

/-- A slot ends up with the events of the last registration on its descriptor,
and with what it held where there is none. -/
theorem registered_prepoll (st : Polled) {fd : Int} (h₀ : 0 ≤ fd) :
    st.prepoll.tbl.registered fd =
      if fd < st.tbl.size then
        ((st.proc.localPtr.lastRegistration fd).map Pollfd.events).getD (st.tbl.registered fd)
      else 0 := by
  have h := makes_prepoll st
  by_cases h₁ : fd < st.tbl.size
  · rw [if_pos h₁]
    exact h.registered fd h₀ h₁
  · have hget : st.prepoll.tbl.get fd = none := if_neg (by rw [h.size]; omega)
    rw [if_neg h₁, FdTable.registered, hget]

end Polled

/-! ## Whether all that is asked for is registered -/

/-- What a blocked socket asks for on a descriptor, it registers something on. -/
theorem exists_lastRegistration {pl : ProcLocal} {s : Nat} {fd : Int} {bit : Events}
    (h₀ : 0 ≤ fd) (hs : s ∈ pl.blockedQ) (ha : pl.Asks s fd bit) :
    ∃ last, pl.lastRegistration fd = some last := by
  have hside : ∃ event ∈ pl.sides s, event.fd = fd := by
    unfold ProcLocal.sides
    dsimp only
    by_cases hrx : (pl.sockets s).block.ioftRxPre.event.fd = fd
    · exact ⟨_, List.mem_append_left _ (by rw [if_pos (by omega)]; exact List.mem_singleton.mpr rfl),
        hrx⟩
    · obtain ⟨h, -⟩ | ⟨htx, -⟩ := ha
      · exact absurd h hrx
      · refine ⟨_, List.mem_append_right _ ?_, htx⟩
        rw [if_pos ⟨by omega, by omega⟩]
        exact List.mem_singleton.mpr rfl
  obtain ⟨event, hevent, hfd⟩ := hside
  rw [← Option.isSome_iff_exists, ProcLocal.lastRegistration, List.find?_isSome]
  exact ⟨event, List.mem_reverse.mpr (List.mem_flatMap.mpr ⟨s, hs, hevent⟩), by simpa using hfd⟩

/-- After prepoll the poller waits for all that the blocked sockets ask for
exactly when, on every descriptor, the last registration asks for it all. -/
theorem prepoll_registers_iff (st : Polled) :
    st.prepoll.tbl.Registers st.proc.localPtr ↔ st.proc.localPtr.LastAsksAll st.tbl.size := by
  refine forall_congr' fun fd => forall_congr' fun h₀ => forall_congr' fun s =>
    forall_congr' fun hs => forall_congr' fun bit => forall_congr' fun hbit =>
    forall_congr' fun ha => ?_
  obtain ⟨last, hlast⟩ := exists_lastRegistration h₀ hs ha
  rw [st.registered_prepoll h₀, hlast]
  by_cases h₁ : fd < st.tbl.size
  · simp [h₁]
  · simp [h₁, Events.any]

/-! ## One descriptor for both sides -/

/-- A thread on a connection, which it has one byte to send to, and whose writes
would block. -/
def connection : ProcLocal :=
  let pl := ProcLocal.init.initThread 0 0 (Pipe.initFd 3 .socketStream) (Pipe.initFd 3 .socketStream)
  let pl := ((pl.beginWrite 0 0 1).sendCommit 0).beginFlush 0
  (pl.handleWrite 0 ⟨.ok [], .err Errno.EAGAIN, .ok [], .ok (), .ok ()⟩).pl

/-- Nothing in the table yet. -/
def FdTable.fresh (size : Nat) : FdTable where
  size := size
  dirtyFds := []
  fds := fun _ => ⟨-1, 0, false, false, false, false, false, IoFuture.init 0⟩

/-- It waits to be able to send, and the poller is not told: the transmit side
has the receive side's descriptor. -/
theorem prepoll_misses_transmit :
    ¬∀ st : Polled, st.prepoll.tbl.Registers st.proc.localPtr := fun h => by
  have hany := h ⟨⟨0, [], connection⟩, FdTable.fresh 8⟩ 3 (by decide) 0 (by decide) POLLOUT
    (by decide) (by decide)
  revert hany
  decide

end Vk

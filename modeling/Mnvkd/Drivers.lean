/-
# `Mnvkd.Drivers` — the pollers of the operating systems

Besides the driver for `poll(2)`, `vk_fd_table.c` has one for `kqueue(2)`, one for
`epoll(7)`, which registers its descriptors edge-triggered or for one event, and one
for the asynchronous I/O of Linux.  They take the dirty slots off their queue to
register them, and the system remembers what it was given: it may report events of a
descriptor long after its slot has changed hands.

What the system answers is a parameter: which registrations it accepts, and the
events it reports.  It reports events only of descriptors it was given.

A round does to the table what operations on single slots do (`edits_wait`).
-/
import Mnvkd.Poller

namespace Vk

/-- `vk_fd_table_dequeue_dirty`. -/
def FdTable.dequeueDirty (tbl : FdTable) : FdTable :=
  match tbl.dirtyFds with
  | [] => tbl
  | i :: rest => { tbl with dirtyFds := rest }.updFd i fun slot => { slot with dirtyQed := false }

def PollTable.dequeueDirty (t : PollTable) : PollTable := { t with tbl := t.tbl.dequeueDirty }

/-- What `epoll_ctl(2)` is called with; of the events those that `poll(2)` knows too. -/
structure EpollCtl where
  add : Bool
  fd : Int
  events : Events
  oneshot : Bool
  deriving DecidableEq, Repr

namespace Fd

/-- The one-shot registration of a slot.  It has one event where two are asked for. -/
def oneShot (slot : Fd) : EpollCtl :=
  let events := slot.ioftPre.event.events
  let ev : Events × Bool := (0, false)
  let ev := if events.any POLLOUT then (POLLOUT, true) else ev
  let ev := if events.any POLLIN then (POLLIN, true) else ev
  ⟨!slot.added, slot.fd, ev.1, ev.2⟩

/-- The edge-triggered registration of a slot. -/
def edgeTriggered (slot : Fd) : EpollCtl := ⟨true, slot.fd, POLLIN ||| POLLOUT ||| POLLRDHUP, false⟩

end Fd

/-- `struct vk_fd_table` with what the drivers of the systems keep in it: the events
in each slot's `ioft_post`, and the number of changes for `kevent(2)`.

The last two are the system's: the descriptors it was given, and the calls of
`epoll_ctl(2)`. -/
structure WaitTable where
  table : PollTable
  post : Nat → Events
  kqNchanges : Nat
  interest : List Int
  ctls : List EpollCtl

namespace WaitTable

def slot (w : WaitTable) (i : Nat) : Fd := w.table.tbl.fds i

def setTable (w : WaitTable) (t : PollTable) : WaitTable := { w with table := t }

def setPost (w : WaitTable) (i : Nat) (events : Events) : WaitTable :=
  { w with post := Function.update w.post i events }

/-- `ioft_post = ioft_pre`, what of it is read again. -/
def register (w : WaitTable) (i : Nat) : WaitTable := w.setPost i (w.slot i).ioftPre.event.events

/-- The system is given the descriptor of a slot. -/
def give (w : WaitTable) (i : Nat) : WaitTable := { w with interest := (w.slot i).fd :: w.interest }

def setAdded (w : WaitTable) (i : Nat) : WaitTable :=
  w.setTable (w.table.updFd i fun slot => { slot with added := true })

/-- `vk_fd_table_clean_fd`. -/
def cleanFd (w : WaitTable) (i : Nat) : WaitTable := w.setTable (w.table.cleanFd i)

/-- `vk_fd_table_process_fd`. -/
def processFd (w : WaitTable) (i : Nat) (revents : Events) : WaitTable :=
  let t := if revents ≠ 0 then w.table.enqueueFresh i else w.table
  let events := (t.tbl.fds i).ioftPre.event.events
  if events &&& revents = events then
    -- drop returned events
    let rest := events ^^^ (revents &&& w.post i)
    let t := t.updFd i fun slot =>
      { slot with ioftPre := { slot.ioftPre with event := { slot.ioftPre.event with events := rest } } }
    w.setTable (if rest = 0 then t.dropDirty i else t)
  else w.setTable t

/-- The loop that takes the dirty slots off their queue, up to one that fails.
Nothing in `body` puts a slot on it, so these are those that are dirty at the start. -/
def drain (body : Nat → WaitTable → WaitTable × Bool) : List Nat → WaitTable → WaitTable × Bool
  | [], w => (w, true)
  | i :: is, w =>
      let w := body i (w.setTable w.table.dequeueDirty)
      if w.2 then drain body is w.1 else w

/-- The loop over what the system has reported, up to one that fails.  What it would
report of descriptors it was not given is left out. -/
def dispatch {ε : Type} (fd : ε → Int) (body : Nat → ε → WaitTable → WaitTable) :
    List ε → WaitTable → WaitTable × Bool
  | [], w => (w, true)
  | event :: events, w =>
      if fd event ∈ w.interest then
        match w.table.tbl.get (fd event) with
        | none => (w, false)
        | some i => dispatch fd body events (body i event w)
      else dispatch fd body events w

/-! ## `epoll(7)` -/

/-- `epoll_ctl(2)`, which may fail. -/
def epollCtl (accepts : EpollCtl → Bool) (ctl : EpollCtl) (i : Nat) (w : WaitTable) : WaitTable × Bool :=
  let w := { w with ctls := ctl :: w.ctls }
  if accepts ctl then ((w.give i).register i, true) else (w, false)

/-- One-shot registration. -/
def oneShot (accepts : EpollCtl → Bool) (i : Nat) (w : WaitTable) : WaitTable × Bool :=
  if (w.slot i).closed then (w.setPost i 0, true)
  else (w.setAdded i).epollCtl accepts (w.slot i).oneShot i

/-- Edge-triggered registration. -/
def edgeTriggered (accepts : EpollCtl → Bool) (i : Nat) (w : WaitTable) : WaitTable × Bool :=
  if (w.slot i).closed then (w.setPost i 0, true)
  else if (w.slot i).added then (w, true)
  else
    let w := w.epollCtl accepts (w.slot i).edgeTriggered i
    if w.2 then (w.1.setAdded i, true) else w

/-- `vk_fd_table_epoll`, up to `epoll_wait(2)`. -/
def epollRegister (edge : Bool) (accepts : EpollCtl → Bool) (w : WaitTable) : WaitTable × Bool :=
  w.drain (if edge then edgeTriggered accepts else oneShot accepts) w.table.tbl.dirtyFds

/-- `vk_fd_table_epoll`. -/
def epoll (edge : Bool) (accepts : EpollCtl → Bool) (events : List (Int × Events)) (w : WaitTable) :
    WaitTable × Bool :=
  let w := w.epollRegister edge accepts
  if w.2 then
    w.1.dispatch Prod.fst (fun i event w => (w.processFd i event.2).cleanFd i) events
  else w

/-! ## `kqueue(2)` -/

/-- `VK_EV_MAX`. -/
def evMax : Nat := 32

/-- A change is put on the list, which the system gets before it reports anything. -/
def kqChange (edge : Bool) (i : Nat) (w : WaitTable) : WaitTable :=
  let w := { w with kqNchanges := w.kqNchanges + 1 }.give i
  if edge then w.setAdded i else w

/-- `vk_fd_table_kqueue_set`; `false` where the list of changes is full. -/
def kqueueSet (edge : Bool) (i : Nat) (w : WaitTable) : WaitTable × Bool :=
  if (w.slot i).closed then (w, true)
  else
    let registerRead := (w.slot i).ioftPre.event.events.any POLLIN && !(w.post i).any POLLIN
    let registerWrite := (w.slot i).ioftPre.event.events.any POLLOUT && !(w.post i).any POLLOUT
    if registerRead && w.kqNchanges == evMax then (w, false)
    else
      let read := if registerRead then w.kqChange edge i else w
      if registerWrite && read.kqNchanges == evMax then
        -- roll back
        ({ read with kqNchanges := w.kqNchanges, interest := w.interest }, false)
      else
        let w := if registerWrite then read.kqChange edge i else read
        (w.register i, true)

/-- `vk_fd_table_kqueue_kevent`: the descriptors of the events that are reported, or an
error. -/
def kevent (events : Option (List Int)) (w : WaitTable) : WaitTable × Bool :=
  match events with
  | none => (w, false)
  | some events =>
      { w with kqNchanges := 0 }.dispatch id
        (fun i _ w =>
          let w := w.setPost i (w.post i &&& ~~~(POLLIN ||| POLLOUT))
          w.setTable (w.table.enqueueFresh i)) events

/-- One slot of the loop of `vk_fd_table_kqueue`.  `flush`: what is reported when the
list of changes has to be flushed for it. -/
def kqueueFd (edge : Bool) (flush : Nat → Option (List Int)) (i : Nat) (w : WaitTable) : WaitTable × Bool :=
  let set := w.kqueueSet edge i
  if set.2 then set
  else
    -- flush registrations, and retry
    let flushed := set.1.kevent (flush i)
    if flushed.2 then flushed.1.kqueueSet edge i else flushed

/-- `vk_fd_table_kqueue`. -/
def kqueue (edge : Bool) (flush : Nat → Option (List Int)) (events : Option (List Int)) (w : WaitTable) :
    WaitTable × Bool :=
  let w := w.drain (kqueueFd edge flush) w.table.tbl.dirtyFds
  if w.2 then w.1.kevent events else w

/-! ## `io_submit(2)` -/

/-- A slot is cleaned, and its poll is to be submitted if there is something to poll
for. -/
def submitFd (i : Nat) (w : WaitTable) : WaitTable × Bool :=
  let w := w.cleanFd i
  if (w.slot i).closed || (w.slot i).ioftPre.event.events == 0 then (w, true)
  else ((w.register i).give i, true)

/-- `vk_fd_table_aio`.  `pending`: what `vk_kern_pending` says. -/
def aio (pending : Bool) (events : Option (List (Int × Events))) (w : WaitTable) : WaitTable × Bool :=
  let w := (w.drain submitFd w.table.tbl.dirtyFds).1
  if pending then
    match events with
    | none => (w, false)
    | some events =>
        w.dispatch Prod.fst (fun i event w => ((w.register i).processFd i event.2).cleanFd i) events
  else (w, true)

/-! ## `poll(2)` -/

/-- `vk_fd_table_poll`. -/
def poll (pending : Bool) (revents : Option (Int → Events)) (w : WaitTable) : WaitTable × Bool :=
  if pending then
    match revents with
    | none => (w.setTable w.table.clean, false)
    | some revents => (w.setTable (w.table.poll true revents), true)
  else (w.setTable w.table.clean, true)

end WaitTable

/-- `enum vk_poll_driver`, with the drivers there are for the systems, and
`enum vk_poll_method`. -/
inductive Driver where
  | poll
  | epoll (edge : Bool)
  | kqueue (edge : Bool)
  | aio
  deriving DecidableEq, Repr

/-- What the system answers a driver. -/
structure Answer where
  revents : Option (Int → Events)
  accepts : EpollCtl → Bool
  flush : Nat → Option (List Int)
  events : Option (List (Int × Events))

/-- `vk_fd_table_wait`; `false` where it fails. -/
def WaitTable.wait (driver : Driver) (pending : Bool) (answer : Answer) (w : WaitTable) :
    WaitTable × Bool :=
  match driver with
  | .poll => w.poll pending answer.revents
  | .epoll edge =>
      match answer.events with
      | none => ((w.epollRegister edge answer.accepts).1, false)
      | some events => w.epoll edge answer.accepts events
  | .kqueue edge => w.kqueue edge answer.flush (answer.events.map (List.map Prod.fst))
  | .aio => w.aio pending answer.events

/-! ## What a round does to the slots -/

namespace Fd

/-- The slot is closed, or its future is on both sides. -/
def shut (slot : Fd) : Bool := slot.closed || (slot.ioftPre.rxClosed && slot.ioftPre.txClosed)

/-- What a driver leaves of a slot as it is.  Only a zombie's slot, or one that is shut,
is closed. -/
structure Alike (slot slot' : Fd) : Prop extends slot.Same slot' where
  number : slot'.fd = slot.fd
  shut : slot'.shut = true → slot.shut = true ∨ slot.zombie = true

theorem Alike.refl (slot : Fd) : slot.Alike slot := ⟨Same.refl slot, rfl, Or.inl⟩

theorem Alike.trans {a b c : Fd} (h : a.Alike b) (h' : b.Alike c) : a.Alike c where
  toSame := h.toSame.trans h'.toSame
  number := h'.number.trans h.number
  shut hc := (h'.shut hc).elim h.shut fun hz => Or.inr (h.zombie.symm.trans hz)

/-- The same, and the slot stays queued or not. -/
structure Keeps (slot slot' : Fd) : Prop extends slot.Alike slot' where
  dirtyQed : slot'.dirtyQed = slot.dirtyQed

end Fd

namespace PollTable

/-- Operations of the drivers, one after the other. -/
inductive Edits : PollTable → PollTable → Prop
  | refl (t : PollTable) : Edits t t
  | dequeueDirty (t : PollTable) : Edits t t.dequeueDirty
  | dropDirty (t : PollTable) (i : Nat) : Edits t (t.dropDirty i)
  | enqueueFresh (t : PollTable) (i : Nat) : Edits t (t.enqueueFresh i)
  | dropFresh (t : PollTable) (i : Nat) : Edits t (t.dropFresh i)
  | updFd (t : PollTable) (i : Nat) (f : Fd → Fd) (hf : (t.tbl.fds i).Keeps (f (t.tbl.fds i))) :
      Edits t (t.updFd i f)
  | trans {t u v : PollTable} : Edits t u → Edits u v → Edits t v

/-- A slot that is only put on the dirty list, or taken off it, is alike. -/
theorem alike_queued (tbl : FdTable) (i j : Nat) (queued : Bool) :
    (tbl.fds j).Alike ((tbl.updFd i fun slot => { slot with dirtyQed := queued }).fds j) := by
  rw [FdTable.updFd_fds]
  split
  · subst j
    exact ⟨⟨rfl, rfl, rfl, id, rfl⟩, rfl, Or.inl⟩
  · exact Fd.Alike.refl _

/-- Each slot is alike afterwards. -/
theorem Edits.alike {t u : PollTable} (h : Edits t u) (j : Nat) : (t.tbl.fds j).Alike (u.tbl.fds j) := by
  induction h with
  | refl t => exact Fd.Alike.refl _
  | dequeueDirty t =>
      show Fd.Alike _ (t.tbl.dequeueDirty.fds j)
      unfold FdTable.dequeueDirty
      cases t.tbl.dirtyFds with
      | nil => exact Fd.Alike.refl _
      | cons i rest => exact alike_queued { t.tbl with dirtyFds := rest } i j false
  | dropDirty t i =>
      show Fd.Alike _ ((t.tbl.dropDirty i).fds j)
      unfold FdTable.dropDirty
      split
      · exact alike_queued { t.tbl with dirtyFds := t.tbl.dirtyFds.erase i } i j false
      · exact Fd.Alike.refl _
  | enqueueFresh t i =>
      rw [enqueueFresh_tbl]
      exact Fd.Alike.refl _
  | dropFresh t i =>
      rw [dropFresh_tbl]
      exact Fd.Alike.refl _
  | updFd t i f hf =>
      show Fd.Alike _ ((t.tbl.updFd i f).fds j)
      rw [FdTable.updFd_fds]
      split
      · subst j
        exact hf.toAlike
      · exact Fd.Alike.refl _
  | trans _ _ ih ih' => exact ih.trans ih'

theorem edits_cleanFd (t : PollTable) (i : Nat) : Edits t (t.cleanFd i) := by
  have hdrop : Edits t (t.dropZombie i) := by
    unfold dropZombie
    split
    · exact (Edits.dropDirty t i).trans (Edits.dropFresh _ i)
    · exact Edits.refl t
  have hclose : ((t.tbl.fds i).zombie || ((t.tbl.fds i).ioftPre.rxClosed &&
      (t.tbl.fds i).ioftPre.txClosed)) = true → Edits t ((t.dropZombie i).closeFd i) := by
    intro hshut
    refine (hdrop.trans (Edits.updFd _ i _ ?_)).trans (Edits.dropDirty _ i)
    have hpre : ((t.dropZombie i).tbl.fds i).ioftPre = (t.tbl.fds i).ioftPre ∧
        ((t.dropZombie i).tbl.fds i).zombie = (t.tbl.fds i).zombie := by
      rw [dropZombie_tbl]
      split
      · unfold FdTable.dropDirty
        split
        · rw [FdTable.updFd_self]
          exact ⟨rfl, rfl⟩
        · exact ⟨rfl, rfl⟩
      · exact ⟨rfl, rfl⟩
    refine ⟨⟨⟨rfl, rfl, rfl, fun _ => rfl, rfl⟩, rfl, fun _ => ?_⟩, rfl⟩
    unfold Fd.shut
    rw [hpre.1, hpre.2]
    obtain hzombie | hboth := Bool.or_eq_true_iff.mp hshut
    · exact Or.inr hzombie
    · exact Or.inl (Bool.or_eq_true_iff.mpr (Or.inr hboth))
  rw [cleanFd_eq]
  split
  · rename_i hcond
    have hshut := (Bool.and_eq_true_iff.mp hcond).2
    split
    · exact hclose hshut
    · exact (hclose hshut).trans (Edits.enqueueFresh _ i)
  · exact hdrop

/-- A slot's events are changed, and it is dropped if none are left. -/
theorem edits_setEvents (t : PollTable) (i : Nat) (events : Events) : Edits t (t.updFd i fun slot =>
    { slot with ioftPre :=
      { slot.ioftPre with event := { slot.ioftPre.event with events := events } } }) :=
  Edits.updFd t i _ ⟨⟨⟨rfl, rfl, rfl, id, rfl⟩, rfl, Or.inl⟩, rfl⟩

theorem edits_processFd (t : PollTable) (i : Nat) (revents : Events) :
    Edits t (t.processFd i revents) := by
  have hfresh : Edits t (if revents ≠ 0 then t.enqueueFresh i else t) := by
    split
    · exact Edits.enqueueFresh t i
    · exact Edits.refl t
  unfold processFd
  generalize (if revents ≠ 0 then t.enqueueFresh i else t) = t₁ at hfresh ⊢
  dsimp only
  split
  · refine hfresh.trans ?_
    split
    · exact (edits_setEvents t₁ i _).trans (Edits.dropDirty _ i)
    · exact edits_setEvents t₁ i _
  · exact hfresh

theorem edits_clean (t : PollTable) : Edits t t.clean := by
  unfold clean
  generalize t.tbl.dirtyFds = is
  induction is generalizing t with
  | nil => exact Edits.refl t
  | cons i is ih => exact (edits_cleanFd t i).trans (ih (t.cleanFd i))

theorem edits_pollFds (t : PollTable) (revents : Int → Events) (fds : List Int) :
    Edits t (t.pollFds revents fds) := by
  induction fds generalizing t with
  | nil => exact Edits.refl t
  | cons fd fds ih =>
      rw [pollFds, List.foldl_cons]
      refine Edits.trans ?_ (ih _)
      cases t.tbl.get fd with
      | none => exact Edits.refl t
      | some i => exact edits_processFd t i _

theorem edits_poll (t : PollTable) (pending : Bool) (revents : Int → Events) :
    Edits t (t.poll pending revents) := by
  unfold poll
  split
  · exact (edits_clean t).trans (edits_pollFds _ revents _)
  · exact edits_clean t

end PollTable

namespace WaitTable
open PollTable (Edits)

variable (w : WaitTable)

theorem edits_processFd (i : Nat) (revents : Events) : Edits w.table (w.processFd i revents).table := by
  have hfresh : Edits w.table (if revents ≠ 0 then w.table.enqueueFresh i else w.table) := by
    split
    · exact Edits.enqueueFresh _ i
    · exact Edits.refl _
  unfold processFd
  generalize (if revents ≠ 0 then w.table.enqueueFresh i else w.table) = t₁ at hfresh ⊢
  dsimp only
  split
  · refine hfresh.trans ?_
    show Edits t₁ (if _ then _ else _)
    split
    · exact (PollTable.edits_setEvents t₁ i _).trans (Edits.dropDirty _ i)
    · exact PollTable.edits_setEvents t₁ i _
  · exact hfresh

theorem edits_setAdded (i : Nat) : Edits w.table (w.setAdded i).table :=
  Edits.updFd _ i _ ⟨⟨⟨rfl, rfl, rfl, id, rfl⟩, rfl, Or.inl⟩, rfl⟩

theorem edits_drain {body : Nat → WaitTable → WaitTable × Bool}
    (hbody : ∀ i w, Edits w.table (body i w).1.table) (is : List Nat) :
    Edits w.table (w.drain body is).1.table := by
  induction is generalizing w with
  | nil => exact Edits.refl _
  | cons i is ih =>
      have hstep := (Edits.dequeueDirty w.table).trans (hbody i (w.setTable w.table.dequeueDirty))
      unfold drain
      dsimp only
      split
      · exact hstep.trans (ih _)
      · exact hstep

theorem edits_dispatch {ε : Type} {fd : ε → Int} {body : Nat → ε → WaitTable → WaitTable}
    (hbody : ∀ i event w, Edits w.table (body i event w).table) (events : List ε) :
    Edits w.table (w.dispatch fd body events).1.table := by
  induction events generalizing w with
  | nil => exact Edits.refl _
  | cons event events ih =>
      unfold dispatch
      split
      · cases w.table.tbl.get (fd event) with
        | none => exact Edits.refl _
        | some i => exact (hbody i event w).trans (ih _)
      · exact ih w

theorem edits_epollCtl (accepts : EpollCtl → Bool) (ctl : EpollCtl) (i : Nat) :
    (w.epollCtl accepts ctl i).1.table = w.table := by
  unfold epollCtl
  dsimp only
  split <;> rfl

theorem edits_epollRegister (edge : Bool) (accepts : EpollCtl → Bool) :
    Edits w.table (w.epollRegister edge accepts).1.table := by
  refine edits_drain w (fun i w => ?_) _
  cases edge with
  | true =>
      show Edits w.table (w.edgeTriggered accepts i).1.table
      unfold edgeTriggered
      split
      · exact Edits.refl _
      · split
        · exact Edits.refl _
        · dsimp only
          split
          · rw [← edits_epollCtl w accepts (w.slot i).edgeTriggered i]
            exact edits_setAdded _ i
          · rw [edits_epollCtl]
            exact Edits.refl _
  | false =>
      show Edits w.table (w.oneShot accepts i).1.table
      unfold oneShot
      split
      · exact Edits.refl _
      · rw [edits_epollCtl]
        exact edits_setAdded w i

theorem edits_epoll (edge : Bool) (accepts : EpollCtl → Bool) (events : List (Int × Events)) :
    Edits w.table (w.epoll edge accepts events).1.table := by
  have hregister := edits_epollRegister w edge accepts
  unfold epoll
  dsimp only
  split
  · exact hregister.trans (edits_dispatch _
      (fun i event w => (edits_processFd w i event.2).trans (PollTable.edits_cleanFd _ i)) events)
  · exact hregister

theorem edits_kqChange (edge : Bool) (i : Nat) : Edits w.table (w.kqChange edge i).table := by
  unfold kqChange
  dsimp only
  split
  · exact edits_setAdded _ i
  · exact Edits.refl _

theorem edits_kqueueSet (edge : Bool) (i : Nat) : Edits w.table (w.kqueueSet edge i).1.table := by
  have hchange : ∀ (w : WaitTable) (c : Bool),
      Edits w.table (if c then w.kqChange edge i else w).table := by
    intro w c
    split
    · exact edits_kqChange w edge i
    · exact Edits.refl _
  unfold kqueueSet
  split
  · exact Edits.refl _
  · generalize ((w.slot i).ioftPre.event.events.any POLLIN && !(w.post i).any POLLIN) = registerRead
    generalize ((w.slot i).ioftPre.event.events.any POLLOUT && !(w.post i).any POLLOUT) = registerWrite
    have hread := hchange w registerRead
    dsimp only
    generalize (if registerRead then w.kqChange edge i else w) = read at hread ⊢
    split
    · exact Edits.refl _
    · split
      · exact hread
      · exact hread.trans (hchange read registerWrite)

theorem edits_kevent (events : Option (List Int)) : Edits w.table (w.kevent events).1.table := by
  cases events with
  | none => exact Edits.refl _
  | some events =>
      exact edits_dispatch { w with kqNchanges := 0 } (fun i _ w => Edits.enqueueFresh w.table i) events

theorem edits_kqueue (edge : Bool) (flush : Nat → Option (List Int)) (events : Option (List Int)) :
    Edits w.table (w.kqueue edge flush events).1.table := by
  have hdrain : Edits w.table (w.drain (kqueueFd edge flush) w.table.tbl.dirtyFds).1.table := by
    refine edits_drain w (fun i w => ?_) _
    have hset := edits_kqueueSet w edge i
    unfold kqueueFd
    dsimp only
    split
    · exact hset
    · have hflush := hset.trans (edits_kevent _ (flush i))
      split
      · exact hflush.trans (edits_kqueueSet _ edge i)
      · exact hflush
  unfold kqueue
  dsimp only
  split
  · exact hdrain.trans (edits_kevent _ events)
  · exact hdrain

theorem edits_submitFd (i : Nat) : Edits w.table (w.submitFd i).1.table := by
  unfold submitFd
  dsimp only
  split
  · exact PollTable.edits_cleanFd _ i
  · exact PollTable.edits_cleanFd _ i

theorem edits_aio (pending : Bool) (events : Option (List (Int × Events))) :
    Edits w.table (w.aio pending events).1.table := by
  have hdrain := edits_drain w (fun i w => edits_submitFd w i) w.table.tbl.dirtyFds
  unfold aio
  dsimp only
  split
  · cases events with
    | none => exact hdrain
    | some events =>
        exact hdrain.trans (edits_dispatch _ (fun i event w =>
          (edits_processFd (w.register i) i event.2).trans (PollTable.edits_cleanFd _ i)) events)
  · exact hdrain

theorem edits_poll (pending : Bool) (revents : Option (Int → Events)) :
    Edits w.table (w.poll pending revents).1.table := by
  unfold poll
  split
  · cases revents with
    | none => exact PollTable.edits_clean _
    | some revents => exact PollTable.edits_poll _ true revents
  · exact PollTable.edits_clean _

/-- A round of any driver does what operations on single slots do. -/
theorem edits_wait (driver : Driver) (pending : Bool) (answer : Answer) :
    Edits w.table (w.wait driver pending answer).1.table := by
  unfold wait
  cases driver with
  | poll => exact edits_poll w pending answer.revents
  | epoll edge =>
      cases answer.events with
      | none => exact edits_epollRegister w edge answer.accepts
      | some events => exact edits_epoll w edge answer.accepts events
  | kqueue edge => exact edits_kqueue w edge answer.flush _
  | aio => exact edits_aio w pending answer.events

end WaitTable

end Vk

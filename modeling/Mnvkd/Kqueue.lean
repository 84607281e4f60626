/-
# `Mnvkd.Kqueue` — what is given to `kqueue(2)` and what comes back

`vk_fd_table_kqueue_set` puts a change on a list for each filter a slot asks for and
is not registered with; `vk_fd_table_kqueue_kevent` gives the list to the system and
marks in each slot what is returned.

`EVFILT_READ` and `EVFILT_WRITE` are numbers, and the dispatch tests them as if they
were bits.  As the BSDs number them, each has a bit of the other, so an event of
either filter counts as both, with the byte count of the one it is
(`dispatchEvent_eq`).  A descriptor is reported right only where both filters are
returned for it, with equal counts (`dispatch_exact_iff`).

A slot has one flag for having been added, for its two filters.  The second filter
is not added, and a call that has no room for it leaves the flag set by a change it
has taken back (`kqueue_added_iff`).
-/
import Mnvkd.Drivers

namespace Vk

open Lib

/-- The filters a descriptor is registered with. -/
inductive Evfilt where
  | read | write
  deriving DecidableEq, Repr

namespace Evfilt

def EVFILT_READ : BitVec 16 := -1
def EVFILT_WRITE : BitVec 16 := -2

/-- The number of a filter. -/
def value : Evfilt → BitVec 16
  | read => EVFILT_READ
  | write => EVFILT_WRITE

/-- What a filter is in the events of `poll(2)`. -/
def events : Evfilt → Events
  | read => POLLIN
  | write => POLLOUT

end Evfilt

/-- `EV_ADD`, `EV_ENABLE`, `EV_ONESHOT` and `EV_DISPATCH`. -/
structure KeventFlags where
  add : Bool
  enable : Bool
  oneshot : Bool
  dispatch : Bool
  deriving DecidableEq, Repr

/-- A `struct kevent` of the list of changes, what of it is filled in. -/
structure Change where
  ident : Int
  filter : Evfilt
  flags : KeventFlags
  udata : Int
  deriving DecidableEq, Repr

/-- A `struct kevent` that is returned, what of it is read. -/
structure Kevent where
  filter : Evfilt
  data : Int
  udata : Int
  deriving DecidableEq, Repr

/-- The byte count of an event: its `data` as a `size_t`. -/
def Kevent.count (ev : Kevent) : Nat := (ev.data % 2 ^ 64).toNat

/-- `struct vk_fd_table` with what the driver for `kqueue(2)` keeps in it: each slot's
`ioft_post` and `ioft_ret`, and the list of changes. -/
structure KqTable where
  table : PollTable
  post : Nat → IoFuture
  ret : Nat → IoFuture
  kqChangelist : List Change

/-- Each descriptor has a slot of its own. -/
theorem FdTable.get_inj {tbl : FdTable} {fd fd' : Int} {i : Nat} (h : tbl.get fd = some i)
    (h' : tbl.get fd' = some i) : fd = fd' := by
  simp only [FdTable.get] at h h'
  split at h <;> split at h'
  all_goals simp only [Option.some.injEq, reduceCtorEq] at h h'
  omega

namespace KqTable

def slot (q : KqTable) (i : Nat) : Fd := q.table.tbl.fds i

def updFd (q : KqTable) (i : Nat) (f : Fd → Fd) : KqTable := { q with table := q.table.updFd i f }

def setPost (q : KqTable) (i : Nat) (ioft : IoFuture) : KqTable :=
  { q with post := Function.update q.post i ioft }

/-! ## Registration -/

/-- A change for one filter of a slot is put on the list. -/
def change (edge : Bool) (i : Nat) (filter : Evfilt) (q : KqTable) : KqTable :=
  let flags : KeventFlags :=
    if edge then ⟨!(q.slot i).added, true, false, true⟩ else ⟨true, false, true, false⟩
  let fd := (q.slot i).fd
  let q := { q with kqChangelist := q.kqChangelist ++ [⟨fd, filter, flags, fd⟩] }
  if edge then q.updFd i fun slot => { slot with added := true } else q

/-- A filter is needed, and not registered. -/
def registers (q : KqTable) (i : Nat) (filter : Evfilt) : Bool :=
  (q.slot i).ioftPre.event.events.any filter.events && !(q.post i).event.events.any filter.events

/-- `vk_fd_table_kqueue_full`. -/
def full (q : KqTable) : Bool := q.kqChangelist.length == WaitTable.evMax

/-- `vk_fd_table_kqueue_set`; `false` for `ENOBUFS`. -/
def kqueueSet (edge : Bool) (i : Nat) (q : KqTable) : KqTable × Bool :=
  if (q.slot i).closed then (q, true)
  else
    let registerRead := q.registers i .read
    let registerWrite := q.registers i .write
    if registerRead && q.full then (q, false)
    else
      let read := if registerRead then q.change edge i .read else q
      if registerWrite && read.full then
        -- roll back
        ({ read with kqChangelist := q.kqChangelist }, false)
      else
        let q := if registerWrite then read.change edge i .write else read
        (q.setPost i (q.slot i).ioftPre, true)

/-! ## Dispatch -/

/-- A filter of `number` is returned, with `count` bytes. -/
def markPost (number : BitVec 16) (count : Nat) (ioft : IoFuture) : IoFuture :=
  let ioft :=
    if number &&& Evfilt.EVFILT_READ ≠ 0 then
      { ioft with
        event := { ioft.event with
          events := ioft.event.events &&& ~~~POLLIN
          revents := ioft.event.revents ||| POLLIN }
        readable := count }
    else ioft
  if number &&& Evfilt.EVFILT_WRITE ≠ 0 then
    { ioft with
      event := { ioft.event with
        events := ioft.event.events &&& ~~~POLLOUT
        revents := ioft.event.revents ||| POLLOUT }
      writable := count }
  else ioft

/-- One event, of a slot. -/
def dispatchEvent (i : Nat) (ev : Kevent) (q : KqTable) : KqTable :=
  let post := markPost ev.filter.value ev.count (q.post i)
  { q with
    post := Function.update q.post i post
    ret := Function.update q.ret i post
    table := q.table.enqueueFresh i }

/-- The dispatch loop, up to an event whose descriptor has no slot. -/
def dispatch : List Kevent → KqTable → KqTable × Bool
  | [], q => (q, true)
  | ev :: evs, q =>
      match q.table.tbl.get ev.udata with
      | none => (q, false)
      | some i => dispatch evs (q.dispatchEvent i ev)

/-- `vk_fd_table_kqueue_kevent`, where `events` are returned. -/
def kevent (events : List Kevent) (q : KqTable) : KqTable × Bool :=
  { q with kqChangelist := [] }.dispatch events

/-! ## What is returned of a descriptor -/

/-- The last event of a filter that is returned for a descriptor. -/
def last (filter : Evfilt) (fd : Int) (events : List Kevent) : Option Kevent :=
  events.reverse.find? fun ev => ev.udata == fd && ev.filter == filter

/-- The last event that is returned for a descriptor. -/
def lastOf (fd : Int) (events : List Kevent) : Option Kevent :=
  events.reverse.find? fun ev => ev.udata == fd

/-- A future says what is in the list for a descriptor: each of its events if and only
if one of the filter is there, with the byte count of the last one. -/
structure ReturnsExactly (events : List Kevent) (fd : Int) (ioft : IoFuture) : Prop where
  readable : ioft.event.revents.any POLLIN = true ↔ ∃ ev ∈ events, ev.udata = fd ∧ ev.filter = .read
  writable : ioft.event.revents.any POLLOUT = true ↔ ∃ ev ∈ events, ev.udata = fd ∧ ev.filter = .write
  readCount : ∀ ev, last .read fd events = some ev → ioft.readable = ev.count
  writeCount : ∀ ev, last .write fd events = some ev → ioft.writable = ev.count

/-- Both filters are in the list for a descriptor, the last of each with the same byte
count. -/
def BothReturned (events : List Kevent) (fd : Int) : Prop :=
  ∃ r w, last .read fd events = some r ∧ last .write fd events = some w ∧ r.count = w.count

/-- A future has both events, with one byte count. -/
structure MarkedBoth (count : Nat) (ioft : IoFuture) : Prop where
  readable : ioft.event.revents.any POLLIN = true
  writable : ioft.event.revents.any POLLOUT = true
  readCount : ioft.readable = count
  writeCount : ioft.writable = count

/-- Each filter has a bit of the other. -/
theorem markPost_eq (filter : Evfilt) (count : Nat) (ioft : IoFuture) :
    markPost filter.value count ioft =
      { ioft with
        event := { ioft.event with
          events := ioft.event.events &&& ~~~POLLIN &&& ~~~POLLOUT
          revents := ioft.event.revents ||| POLLIN ||| POLLOUT }
        readable := count
        writable := count } := by
  have hread : filter.value &&& Evfilt.EVFILT_READ ≠ 0 := by cases filter <;> decide
  have hwrite : filter.value &&& Evfilt.EVFILT_WRITE ≠ 0 := by cases filter <;> decide
  simp only [markPost, if_pos hread, if_pos hwrite]

theorem markedBoth_markPost (filter : Evfilt) (count : Nat) (ioft : IoFuture) :
    MarkedBoth count (markPost filter.value count ioft) := by
  have hany : ∀ events : Events, (events ||| POLLIN ||| POLLOUT).any POLLIN = true ∧
      (events ||| POLLIN ||| POLLOUT).any POLLOUT = true := by
    intro events
    have hin : (events ||| POLLIN ||| POLLOUT) &&& POLLIN = POLLIN := by
      ext k
      simp only [BitVec.getElem_and, BitVec.getElem_or]
      cases POLLIN[k] <;> simp
    have hout : (events ||| POLLIN ||| POLLOUT) &&& POLLOUT = POLLOUT := by
      ext k
      simp only [BitVec.getElem_and, BitVec.getElem_or]
      cases POLLOUT[k] <;> simp
    simp only [Events.any, hin, hout]
    decide
  rw [markPost_eq]
  exact ⟨(hany _).1, (hany _).2, rfl, rfl⟩

theorem updFd_slot (q : KqTable) (i j : Nat) (f : Fd → Fd) :
    (q.updFd i f).slot j = if j = i then f (q.slot i) else q.slot j := FdTable.updFd_fds _ _ _ _

theorem updFd_eq_self {q : KqTable} {i : Nat} {f : Fd → Fd} (h : f (q.slot i) = q.slot i) :
    q.updFd i f = q := by
  have hfds : Function.update q.table.tbl.fds i (f (q.slot i)) = q.table.tbl.fds := by
    rw [h]
    exact Function.update_eq_self _ _
  show ({ q with table := { q.table with tbl := { q.table.tbl with fds := _ } } } : KqTable) = q
  rw [show Function.update q.table.tbl.fds i (f (q.table.tbl.fds i)) = q.table.tbl.fds from hfds]

/-- What is returned leaves the slots and their futures before polling. -/
@[simp] theorem dispatchEvent_tbl (q : KqTable) (i : Nat) (ev : Kevent) :
    (q.dispatchEvent i ev).table.tbl = q.table.tbl := PollTable.enqueueFresh_tbl _ i

theorem dispatch_tbl (events : List Kevent) (q : KqTable) :
    (q.dispatch events).1.table.tbl = q.table.tbl := by
  induction events generalizing q with
  | nil => rfl
  | cons ev evs ih =>
      simp only [dispatch]
      cases q.table.tbl.get ev.udata with
      | none => rfl
      | some i => exact (ih _).trans (dispatchEvent_tbl q i ev)

theorem dispatchEvent_ret (q : KqTable) (i j : Nat) (ev : Kevent) :
    (q.dispatchEvent i ev).ret j =
      if j = i then markPost ev.filter.value ev.count (q.post i) else q.ret j :=
  Function.update_apply _ _ _ _

/-- What is returned of other descriptors leaves the future of one. -/
theorem dispatch_ret_of_none {events : List Kevent} {fd : Int} {i : Nat} {q : KqTable}
    (hi : q.table.tbl.get fd = some i) (hnone : ∀ ev ∈ events, ev.udata ≠ fd) :
    (q.dispatch events).1.ret i = q.ret i := by
  induction events generalizing q with
  | nil => rfl
  | cons ev evs ih =>
      simp only [dispatch]
      cases hj : q.table.tbl.get ev.udata with
      | none => rfl
      | some j =>
          have hne : i ≠ j := by
            intro hij
            subst j
            exact hnone ev List.mem_cons_self (FdTable.get_inj hj hi)
          have hrest := ih (q := q.dispatchEvent j ev) (by rw [dispatchEvent_tbl]; exact hi)
            fun ev hev => hnone ev (List.mem_cons_of_mem _ hev)
          exact hrest.trans ((dispatchEvent_ret q j i ev).trans (if_neg hne))

theorem lastOf_cons (fd : Int) (ev : Kevent) (evs : List Kevent) :
    lastOf fd (ev :: evs) = (lastOf fd evs).or (if ev.udata == fd then some ev else none) := by
  simp only [lastOf, List.reverse_cons, List.find?_append, List.find?_cons, List.find?_nil]
  cases ev.udata == fd <;> rfl

theorem lastOf_eq_none {fd : Int} {events : List Kevent} (h : lastOf fd events = none) :
    ∀ ev ∈ events, ev.udata ≠ fd := by
  intro ev hev heq
  have hnot := List.find?_eq_none.mp h ev (List.mem_reverse.mpr hev)
  exact hnot (beq_iff_eq.mpr heq)

/-- After the loop a reported descriptor has both events, and the byte count of the last
event of it. -/
theorem dispatch_marks {events : List Kevent} {fd : Int} {i : Nat} {q : KqTable} {ev : Kevent}
    (hslots : ∀ ev ∈ events, (q.table.tbl.get ev.udata).isSome = true)
    (hi : q.table.tbl.get fd = some i) (hlast : lastOf fd events = some ev) :
    MarkedBoth ev.count ((q.dispatch events).1.ret i) := by
  induction events generalizing q with
  | nil => cases hlast
  | cons first evs ih =>
      obtain ⟨j, hj⟩ := Option.isSome_iff_exists.mp (hslots first List.mem_cons_self)
      have hi' : (q.dispatchEvent j first).table.tbl.get fd = some i := by
        rw [dispatchEvent_tbl]
        exact hi
      simp only [dispatch, hj]
      rw [lastOf_cons] at hlast
      cases hrest : lastOf fd evs with
      | some later =>
          rw [hrest] at hlast
          cases hlast
          refine ih (fun ev hev => ?_) hi' hrest
          rw [dispatchEvent_tbl]
          exact hslots ev (List.mem_cons_of_mem _ hev)
      | none =>
          -- the first event is the last of this descriptor
          rw [hrest, Option.none_or] at hlast
          split at hlast
          · rename_i hfd
            cases hlast
            have hij : i = j := by
              rw [eq_of_beq hfd, hi] at hj
              exact Option.some.inj hj
            rw [dispatch_ret_of_none hi' (lastOf_eq_none hrest), dispatchEvent_ret, if_pos hij]
            exact markedBoth_markPost _ _ _
          · cases hlast

theorem mem_of_last {filter : Evfilt} {fd : Int} {events : List Kevent} {ev : Kevent}
    (h : last filter fd events = some ev) : ev ∈ events ∧ ev.udata = fd ∧ ev.filter = filter := by
  have hsome := List.find?_some h
  simp only [Bool.and_eq_true, beq_iff_eq] at hsome
  exact ⟨List.mem_reverse.mp (List.mem_of_find?_eq_some h), hsome⟩

theorem exists_last {filter : Evfilt} {fd : Int} {events : List Kevent}
    (h : ∃ ev ∈ events, ev.udata = fd ∧ ev.filter = filter) : ∃ ev, last filter fd events = some ev := by
  obtain ⟨ev, hev, hfd, hfilter⟩ := h
  refine Option.isSome_iff_exists.mp (List.find?_isSome.mpr ⟨ev, List.mem_reverse.mpr hev, ?_⟩)
  simp [hfd, hfilter]

/-- The last event of a descriptor is the last of its filter. -/
theorem last_of_lastOf {fd : Int} {events : List Kevent} {ev : Kevent} (h : lastOf fd events = some ev) :
    last ev.filter fd events = some ev := by
  obtain ⟨hfd, before, after, hsplit, hbefore⟩ := List.find?_eq_some_iff_append.mp h
  refine List.find?_eq_some_iff_append.mpr ⟨?_, before, after, hsplit, fun other hother => ?_⟩
  · rw [hfd, beq_self_eq_true]
    rfl
  · have hnot := hbefore other hother
    simp only [Bool.not_eq_true'] at hnot ⊢
    rw [hnot]
    rfl

theorem exists_lastOf {fd : Int} {events : List Kevent} (h : ∃ ev ∈ events, ev.udata = fd) :
    ∃ ev, lastOf fd events = some ev := by
  obtain ⟨ev, hev, hfd⟩ := h
  exact Option.isSome_iff_exists.mp
    (List.find?_isSome.mpr ⟨ev, List.mem_reverse.mpr hev, beq_iff_eq.mpr hfd⟩)

/-- A future with both events says what is in the list if both filters are in it, with
the same count. -/
theorem MarkedBoth.exact_iff {fd : Int} {events : List Kevent} {ev : Kevent} {ioft : IoFuture}
    (hlast : lastOf fd events = some ev) (h : MarkedBoth ev.count ioft) :
    ReturnsExactly events fd ioft ↔ BothReturned events fd := by
  constructor
  · intro hexact
    obtain ⟨r, hr⟩ := exists_last (hexact.readable.mp h.readable)
    obtain ⟨w, hw⟩ := exists_last (hexact.writable.mp h.writable)
    refine ⟨r, w, hr, hw, ?_⟩
    calc r.count = ioft.readable := (hexact.readCount r hr).symm
      _ = ev.count := h.readCount
      _ = ioft.writable := h.writeCount.symm
      _ = w.count := hexact.writeCount w hw
  · intro hboth
    obtain ⟨r, w, hr, hw, hcount⟩ := hboth
    have hev : ev.count = r.count := by
      have hfilter := last_of_lastOf hlast
      cases hf : ev.filter with
      | read =>
          rw [hf, hr] at hfilter
          rw [Option.some.inj hfilter]
      | write =>
          rw [hf, hw] at hfilter
          rw [hcount, Option.some.inj hfilter]
    obtain ⟨hrmem, hrfd, hrfilter⟩ := mem_of_last hr
    obtain ⟨hwmem, hwfd, hwfilter⟩ := mem_of_last hw
    refine ⟨iff_of_true h.readable ⟨r, hrmem, hrfd, hrfilter⟩,
      iff_of_true h.writable ⟨w, hwmem, hwfd, hwfilter⟩, fun ev' hev' => ?_, fun ev' hev' => ?_⟩
    · rw [hr] at hev'
      rw [h.readCount, hev, Option.some.inj hev']
    · rw [hw] at hev'
      rw [h.writeCount, hev, hcount, Option.some.inj hev']

/-- Whatever is returned, to whatever slots, each reported descriptor ends up with
exactly what is in the list for it if and only if both filters are, with the same byte
count. -/
theorem dispatch_exact_iff (q : KqTable) (events : List Kevent)
    (hslots : ∀ ev ∈ events, (q.table.tbl.get ev.udata).isSome = true) :
    (∀ ev ∈ events, ∀ i, q.table.tbl.get ev.udata = some i →
        ReturnsExactly events ev.udata ((q.kevent events).1.ret i)) ↔
      ∀ ev ∈ events, BothReturned events ev.udata := by
  have hreported : ∀ ev ∈ events, ∀ i, q.table.tbl.get ev.udata = some i →
      (ReturnsExactly events ev.udata ((q.kevent events).1.ret i) ↔ BothReturned events ev.udata) := by
    intro ev hev i hi
    obtain ⟨latest, hlatest⟩ := exists_lastOf ⟨ev, hev, rfl⟩
    exact MarkedBoth.exact_iff hlatest
      (dispatch_marks (q := { q with kqChangelist := [] }) hslots hi hlatest)
  constructor
  · intro hexact ev hev
    obtain ⟨i, hi⟩ := Option.isSome_iff_exists.mp (hslots ev hev)
    exact (hreported ev hev i hi).mp (hexact ev hev i hi)
  · intro hboth ev hev i hi
    exact (hreported ev hev i hi).mpr (hboth ev hev)

/-- A table of eight slots, none of them used yet. -/
def unused : KqTable where
  table := ⟨⟨8, [], fun i => ⟨i, 0, false, false, false, false, false, IoFuture.init 0⟩⟩, [],
    fun _ => false⟩
  post := fun _ => IoFuture.init 0
  ret := fun _ => IoFuture.init 0
  kqChangelist := []

theorem dispatch_exact_iff_unused :
    ReturnsExactly [⟨.read, 5, 3⟩, ⟨.write, 5, 3⟩] 3
      ((unused.kevent [⟨.read, 5, 3⟩, ⟨.write, 5, 3⟩]).1.ret 3) := by
  refine (dispatch_exact_iff unused [⟨.read, 5, 3⟩, ⟨.write, 5, 3⟩] ?_).mpr ?_ ⟨.read, 5, 3⟩
    List.mem_cons_self 3 rfl
  · intro ev hev
    simp only [List.mem_cons, List.not_mem_nil, or_false] at hev
    obtain rfl | rfl := hev <;> rfl
  · intro ev hev
    simp only [List.mem_cons, List.not_mem_nil, or_false] at hev
    obtain rfl | rfl := hev <;> exact ⟨⟨.read, 5, 3⟩, ⟨.write, 5, 3⟩, rfl, rfl, rfl⟩

/-- A descriptor with five bytes to read is reported writable. -/
theorem readable_reported_writable :
    ¬ ∀ (q : KqTable) (events : List Kevent),
      (∀ ev ∈ events, (q.table.tbl.get ev.udata).isSome = true) →
      ∀ ev ∈ events, ∀ i, q.table.tbl.get ev.udata = some i →
        ReturnsExactly events ev.udata ((q.kevent events).1.ret i) := by
  intro h
  have hexact := h unused [⟨.read, 5, 3⟩]
    (fun ev hev => by rw [List.mem_singleton.mp hev]; rfl) ⟨.read, 5, 3⟩ (List.mem_singleton.mpr rfl) 3 rfl
  obtain ⟨ev, hev, -, hfilter⟩ := hexact.writable.mp (by decide)
  rw [List.mem_singleton.mp hev] at hfilter
  cases hfilter

/-! ## The table of the other drivers -/

/-- What of the table all drivers have.  The system has been given the descriptors of
`interest`, and `ctls` were called. -/
def wait (q : KqTable) (interest : List Int) (ctls : List EpollCtl) : WaitTable where
  table := q.table
  post i := (q.post i).event.events
  kqNchanges := q.kqChangelist.length
  interest := interest
  ctls := ctls

variable (q : KqTable) (interest : List Int) (ctls : List EpollCtl)

theorem events_update (post : Nat → IoFuture) (i : Nat) (ioft : IoFuture) :
    (fun j => (Function.update post i ioft j).event.events) =
      Function.update (fun j => (post j).event.events) i ioft.event.events := by
  funext j
  by_cases hj : j = i
  · subst j
    rw [Function.update_self, Function.update_self]
  · rw [Function.update_of_ne hj, Function.update_of_ne hj]

theorem wait_setPost (i : Nat) (ioft : IoFuture) :
    (q.setPost i ioft).wait interest ctls = (q.wait interest ctls).setPost i ioft.event.events := by
  simp only [wait, setPost, WaitTable.setPost, events_update]

theorem wait_change (edge : Bool) (i : Nat) (filter : Evfilt) :
    (q.wait interest ctls).kqChange edge i =
      (q.change edge i filter).wait ((q.slot i).fd :: interest) ctls := by
  cases edge <;> simp [WaitTable.kqChange, change, wait, WaitTable.give, WaitTable.setAdded,
    WaitTable.setTable, WaitTable.slot, slot, updFd]

/-- To the other drivers' table a registration does what `WaitTable.kqueueSet` says. -/
theorem wait_kqueueSet (edge : Bool) (i : Nat) :
    ∃ interest', (q.wait interest ctls).kqueueSet edge i =
      ((q.kqueueSet edge i).1.wait interest' ctls, (q.kqueueSet edge i).2) := by
  have hread : (((q.wait interest ctls).slot i).ioftPre.event.events.any POLLIN &&
      !((q.wait interest ctls).post i).any POLLIN) = q.registers i .read := rfl
  have hwrite : (((q.wait interest ctls).slot i).ioftPre.event.events.any POLLOUT &&
      !((q.wait interest ctls).post i).any POLLOUT) = q.registers i .write := rfl
  have hclosed : ((q.wait interest ctls).slot i).closed = (q.slot i).closed := rfl
  have hfull : ∀ (q : KqTable) (interest : List Int),
      ((q.wait interest ctls).kqNchanges == WaitTable.evMax) = q.full := fun _ _ => rfl
  have hchange : ∀ (c : Bool) (filter : Evfilt) (q : KqTable) (interest : List Int), ∃ interest',
      (if c then (q.wait interest ctls).kqChange edge i else q.wait interest ctls) =
        (if c then q.change edge i filter else q).wait interest' ctls := by
    intro c filter q interest
    cases c with
    | false => exact ⟨interest, rfl⟩
    | true => exact ⟨_, wait_change q interest ctls edge i filter⟩
  simp only [WaitTable.kqueueSet, kqueueSet, hread, hwrite, hclosed, hfull]
  split
  · exact ⟨interest, rfl⟩
  · split
    · exact ⟨interest, rfl⟩
    · obtain ⟨interest₁, h₁⟩ := hchange (q.registers i .read) .read q interest
      rw [h₁]
      generalize (if q.registers i .read then q.change edge i .read else q) = read
      rw [hfull read interest₁]
      split
      · exact ⟨interest, rfl⟩
      · obtain ⟨interest₂, h₂⟩ := hchange (q.registers i .write) .write read interest₁
        rw [h₂]
        generalize (if q.registers i .write then read.change edge i .write else read) = both
        refine ⟨interest₂, ?_⟩
        rw [wait_setPost]
        rfl

theorem wait_dispatchEvent (i : Nat) (ev : Kevent) :
    ((q.wait interest ctls).setPost i ((q.wait interest ctls).post i &&& ~~~(POLLIN ||| POLLOUT))).setTable
        (q.table.enqueueFresh i) =
      (q.dispatchEvent i ev).wait interest ctls := by
  have hevents : (markPost ev.filter.value ev.count (q.post i)).event.events =
      (q.post i).event.events &&& ~~~(POLLIN ||| POLLOUT) := by
    rw [markPost_eq, BitVec.not_or, BitVec.and_assoc]
  simp only [wait, dispatchEvent, WaitTable.setPost, WaitTable.setTable, events_update, hevents]

/-- So does what is returned of the descriptors the system was given. -/
theorem wait_kevent (events : List Kevent) (hgiven : ∀ ev ∈ events, ev.udata ∈ interest) :
    (q.wait interest ctls).kevent (some (events.map Kevent.udata)) =
      ((q.kevent events).1.wait interest ctls, (q.kevent events).2) := by
  have hdispatch : ∀ (evs : List Kevent) (q : KqTable), (∀ ev ∈ evs, ev.udata ∈ interest) →
      (q.wait interest ctls).dispatch id
          (fun i _ w =>
            (w.setPost i (w.post i &&& ~~~(POLLIN ||| POLLOUT))).setTable (w.table.enqueueFresh i))
          (evs.map Kevent.udata) =
        ((q.dispatch evs).1.wait interest ctls, (q.dispatch evs).2) := by
    intro evs
    induction evs with
    | nil => exact fun q _ => rfl
    | cons ev evs ih =>
        intro q hgiven
        have hfd : id ev.udata ∈ (q.wait interest ctls).interest := hgiven ev List.mem_cons_self
        simp only [List.map_cons, WaitTable.dispatch, if_pos hfd, dispatch]
        show (match q.table.tbl.get ev.udata with | none => _ | some i => _) = _
        cases q.table.tbl.get ev.udata with
        | none => rfl
        | some i =>
            have hrest := ih (q.dispatchEvent i ev) fun ev hev => hgiven ev (List.mem_cons_of_mem _ hev)
            rw [← wait_dispatchEvent] at hrest
            exact hrest
  exact hdispatch events { q with kqChangelist := [] } hgiven

end KqTable

end Vk

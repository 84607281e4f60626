/-
# `Mnvkd.Rounds` — which slots a round of a driver makes fresh

The system reports events of descriptors it was given, and the slot of such a
descriptor is allocated or a zombie's (`Tracks`).  The drivers for `poll(2)`,
`epoll(7)` and `io_submit(2)` clean a slot before they leave it fresh, and a zombie's
slot they drop; that for `kqueue(2)` makes the slot of any event fresh.  So a round
makes only allocated slots fresh, if no event of a zombie's slot is reported to the
latter (`round_wait`).
-/
import Mnvkd.FdLists

namespace Vk

namespace PollTable
variable {t : PollTable} {i j : Nat}

/-- After cleaning, a zombie's slot is not fresh. -/
theorem not_fresh_cleanFd (h : t.FreshFits) (hz : (t.tbl.fds i).zombie = true) :
    i ∉ (t.cleanFd i).freshFds := by
  have hdrop : i ∉ (t.dropZombie i).freshFds := by
    have hfits : ((t.dropDirty i).dropFresh i).FreshFits := FreshFits.dropFresh (t := t.dropDirty i) h
    have hqed : ((t.dropDirty i).dropFresh i).freshQed i = false := by
      unfold dropFresh
      split
      · exact Function.update_self _ _ _
      · rename_i hqed
        simpa using hqed
    have hcount := hfits i
    rw [hqed] at hcount
    rw [dropZombie, if_pos hz]
    exact List.count_eq_zero.mp hcount.eq_zero
  rw [cleanFd_eq, if_pos hz]
  split <;> exact hdrop

/-- A slot with an event is processed and cleaned: nothing becomes fresh but the slot
itself, if it is no zombie's. -/
theorem fresh_process {u : PollTable} (hu : u.FreshFits) (hzombie : (u.tbl.fds i).zombie = (t.tbl.fds i).zombie)
    (hallocated : (u.tbl.fds i).allocated = (t.tbl.fds i).allocated)
    (hfresh : ∀ j ∈ u.freshFds, j = i ∨ j ∈ t.freshFds)
    (hi : (t.tbl.fds i).allocated = true ∨ (t.tbl.fds i).zombie = true)
    (hj : j ∈ (u.cleanFd i).freshFds) : j ∈ t.freshFds ∨ (t.tbl.fds j).allocated = true := by
  obtain hallocated' | hz := hi
  · have hclean : j ∈ u.freshFds ∨ j = i := by
      rw [cleanFd_eq] at hj
      split at hj
      · split at hj
        · exact Or.inl (u.mem_dropZombie hj)
        · exact (mem_enqueueFresh _ hj).symm.imp_left u.mem_dropZombie
      · exact Or.inl (u.mem_dropZombie hj)
    obtain hj | rfl := hclean
    · obtain rfl | hj := hfresh j hj
      · exact Or.inr hallocated'
      · exact Or.inl hj
    · exact Or.inr hallocated'
  · have hne : j ≠ i := by
      rintro rfl
      exact not_fresh_cleanFd hu (hzombie.trans hz) hj
    have hclean : j ∈ u.freshFds := by
      rw [cleanFd_eq, if_pos (hzombie.trans hz)] at hj
      split at hj <;> exact u.mem_dropZombie hj
    exact Or.inl ((hfresh j hclean).resolve_left hne)

end PollTable

namespace WaitTable
open PollTable (Edits)

/-- The slot is allocated or a zombie's. -/
def Tended (w : WaitTable) (i : Nat) : Prop := (w.slot i).allocated = true ∨ (w.slot i).zombie = true

/-- The lists agree with the slots, a slot that is to be closed is a zombie's, and the
slots whose descriptors the system was given are tended. -/
structure Tracks (w : WaitTable) (fds : Nat → List Nat) : Prop where
  lists : w.table.Lists fds
  shut : ∀ i, (w.slot i).shut = true → (w.slot i).zombie = true
  given : ∀ i : Nat, (i : Int) ∈ w.interest → w.Tended i

/-- From `w` to `w'` a driver does its work: only allocated slots become fresh, and the
system is given descriptors of tended slots. -/
structure Round (w w' : WaitTable) : Prop where
  edits : Edits w.table w'.table
  fresh : ∀ j ∈ w'.table.freshFds, j ∈ w.table.freshFds ∨ (w.slot j).allocated = true
  given : ∀ i : Nat, (i : Int) ∈ w'.interest → (i : Int) ∈ w.interest ∨ w.Tended i

variable {w w' : WaitTable} {fds : Nat → List Nat} {i : Nat}

theorem Round.refl (w : WaitTable) : Round w w := ⟨Edits.refl _, fun _ => Or.inl, fun _ => Or.inl⟩

theorem Round.tended (h : Round w w') (i : Nat) : w'.Tended i ↔ w.Tended i := by
  have hsame := (h.edits.alike i).toSame
  unfold Tended slot
  rw [hsame.allocated, hsame.zombie]

theorem Round.trans {a b c : WaitTable} (h : Round a b) (h' : Round b c) : Round a c where
  edits := h.edits.trans h'.edits
  fresh j hj := (h'.fresh j hj).elim (h.fresh j) fun hallocated =>
    Or.inr ((h.edits.alike j).allocated.symm.trans hallocated)
  given i hi := (h'.given i hi).elim (h.given i) fun ht => Or.inr ((h.tended i).mp ht)

/-- After the work the system still has the descriptors of tended slots only. -/
theorem Tracks.round (h : w.Tracks fds) (hr : Round w w') : w'.Tracks fds where
  lists := h.lists.of_edits hr.edits
  shut i hi := by
    have halike := hr.edits.alike i
    exact halike.zombie.trans ((halike.shut hi).elim (h.shut i) id)
  given i hi := (hr.tended i).mpr ((hr.given i hi).elim (h.given i) id)

/-- Work that leaves the fresh list and what the system has. -/
theorem round_of_edits (hm : Edits w.table w'.table) (hfresh : w'.table.freshFds = w.table.freshFds)
    (hinterest : w'.interest = w.interest) : Round w w' :=
  ⟨hm, fun _ hj => Or.inl (hfresh ▸ hj), fun _ hi => Or.inl (hinterest ▸ hi)⟩

/-- A dirty slot is tended, and goes by its own number. -/
theorem Tracks.dirty (h : w.Tracks fds) (hi : i ∈ w.table.tbl.dirtyFds) :
    w.Tended i ∧ (w.slot i).fd = i := by
  refine ⟨?_, h.lists.numbered i (Or.inr (h.lists.attached.dirtyQed i hi))⟩
  obtain hallocated | hzombie | hclosed := h.lists.attached.dirty i hi
  · exact Or.inl hallocated
  · exact Or.inr hzombie
  · exact Or.inr (h.shut i (Bool.or_eq_true_iff.mpr (Or.inl hclosed)))

theorem round_setPost (w : WaitTable) (i : Nat) (events : Events) : Round w (w.setPost i events) :=
  round_of_edits (Edits.refl _) rfl rfl

theorem round_setAdded (w : WaitTable) (i : Nat) : Round w (w.setAdded i) :=
  round_of_edits (edits_setAdded w i) rfl rfl

theorem round_give (hi : w.Tended i) (hfd : (w.slot i).fd = i) : Round w (w.give i) where
  edits := Edits.refl _
  fresh _ := Or.inl
  given j hj := by
    obtain hj | hj := List.mem_cons.mp hj
    · obtain rfl := Int.ofNat_inj.mp (hj.trans hfd)
      exact Or.inr hi
    · exact Or.inl hj

/-- The dirty slots are taken off their list: if the work on one of them is a round, the
loop is. -/
theorem round_drain {body : Nat → WaitTable → WaitTable × Bool} (is : List Nat)
    (hbody : ∀ (i : Nat) (w' : WaitTable), Round w w' → w'.Tracks fds → w'.Tended i →
      (w'.slot i).fd = i → Round w' (body i w').1)
    (h : w.Tracks fds) (his : ∀ i ∈ is, w.Tended i ∧ (w.slot i).fd = i) :
    Round w (w.drain body is).1 := by
  suffices hall : ∀ w', Round w w' → Round w (w'.drain body is).1 from hall w (Round.refl w)
  induction is with
  | nil => exact fun w' hr => hr
  | cons i is ih =>
      intro w' hr
      have hdequeue : Round w (w'.setTable w'.table.dequeueDirty) :=
        hr.trans (round_of_edits (Edits.dequeueDirty _) rfl rfl)
      obtain ⟨hi, hfd⟩ := his i List.mem_cons_self
      have hstep := hdequeue.trans (hbody i _ hdequeue (h.round hdequeue) ((hdequeue.tended i).mpr hi)
        ((hdequeue.edits.alike i).number.trans hfd))
      unfold drain
      dsimp only
      split
      · exact ih (fun j hj => his j (List.mem_cons_of_mem i hj)) _ hstep
      · exact hstep

/-- What is reported is of slots that are tended. -/
theorem round_dispatch {ε : Type} {fd : ε → Int} {body : Nat → ε → WaitTable → WaitTable}
    (events : List ε)
    (hbody : ∀ event ∈ events, ∀ (i : Nat) (w' : WaitTable), fd event = i → Round w w' →
      w'.Tracks fds → w'.Tended i → Round w' (body i event w'))
    (h : w.Tracks fds) : Round w (w.dispatch fd body events).1 := by
  suffices hall : ∀ w', Round w w' → w'.Tracks fds → Round w (w'.dispatch fd body events).1 from
    hall w (Round.refl w) h
  induction events with
  | nil => exact fun w' hr _ => hr
  | cons event events ih =>
      intro w' hr h'
      have ih := ih fun event hevent => hbody event (List.mem_cons_of_mem _ hevent)
      unfold dispatch
      split
      · rename_i hgiven
        cases hget : w'.table.tbl.get (fd event) with
        | none => exact hr
        | some i =>
            have hfd : fd event = (i : Int) := by
              unfold FdTable.get at hget
              split at hget
              · cases hget
                omega
              · cases hget
            have hstep := hbody event List.mem_cons_self i w' hfd hr h' (h'.given i (hfd ▸ hgiven))
            exact ih _ (hr.trans hstep) (h'.round hstep)
      · exact ih w' hr h'

/-! ## The drivers -/

theorem round_cleanFd (h : w.Tracks fds) (hi : w.Tended i) : Round w (w.cleanFd i) where
  edits := PollTable.edits_cleanFd _ i
  fresh _ hj := PollTable.fresh_process (t := w.table) h.lists.fresh rfl rfl (fun _ => Or.inr) hi hj
  given _ := Or.inl

/-- An event is processed, and the slot is cleaned. -/
theorem round_process (h : w.Tracks fds) (hi : w.Tended i) (revents : Events) :
    Round w ((w.processFd i revents).cleanFd i) := by
  have hedits := w.edits_processFd i revents
  have hlists := h.lists.of_edits hedits
  have hsame := (hedits.alike i).toSame
  have hinterest : (w.processFd i revents).interest = w.interest := by
    unfold processFd
    generalize (if revents ≠ 0 then w.table.enqueueFresh i else w.table) = t
    dsimp only
    split <;> rfl
  have hfresh : ∀ j ∈ (w.processFd i revents).table.freshFds, j = i ∨ j ∈ w.table.freshFds := by
    intro j hj
    have hqueued : ∀ {t : PollTable}, t = (if revents ≠ 0 then w.table.enqueueFresh i else w.table) →
        ∀ j ∈ t.freshFds, j = i ∨ j ∈ w.table.freshFds := by
      rintro t rfl j hj
      split at hj
      · exact w.table.mem_enqueueFresh hj
      · exact Or.inr hj
    unfold processFd at hj
    generalize ht : (if revents ≠ 0 then w.table.enqueueFresh i else w.table) = t at hj
    refine hqueued ht.symm j ?_
    dsimp only at hj
    split at hj
    · have hj : j ∈ (if _ then _ else _ : PollTable).freshFds := hj
      split at hj
      · exact hj
      · exact hj
    · exact hj
  exact
    { edits := hedits.trans (PollTable.edits_cleanFd _ i)
      fresh := fun _ hj => PollTable.fresh_process hlists.fresh hsame.zombie hsame.allocated hfresh hi hj
      given := fun _ hi => Or.inl (hinterest ▸ hi) }

theorem round_epollCtl (accepts : EpollCtl → Bool) (ctl : EpollCtl) (hi : w.Tended i)
    (hfd : (w.slot i).fd = i) : Round w (w.epollCtl accepts ctl i).1 := by
  have hctl : Round w { w with ctls := ctl :: w.ctls } := round_of_edits (Edits.refl _) rfl rfl
  unfold epollCtl
  dsimp only
  split
  · exact hctl.trans ((round_give (w := { w with ctls := ctl :: w.ctls }) hi hfd).trans
      (round_setPost _ i _))
  · exact hctl

theorem round_epollRegister (edge : Bool) (accepts : EpollCtl → Bool) (h : w.Tracks fds) :
    Round w (w.epollRegister edge accepts).1 := by
  refine round_drain _ (fun i w _ _ hi hfd => ?_) h fun i hi => h.dirty hi
  cases edge with
  | true =>
      show Round w (w.edgeTriggered accepts i).1
      unfold edgeTriggered
      split
      · exact round_setPost w i 0
      · split
        · exact Round.refl w
        · have hctl := round_epollCtl accepts (w.slot i).edgeTriggered hi hfd
          dsimp only
          split
          · exact hctl.trans (round_setAdded _ i)
          · exact hctl
  | false =>
      show Round w (w.oneShot accepts i).1
      unfold oneShot
      split
      · exact round_setPost w i 0
      · have hadded := round_setAdded w i
        exact hadded.trans (round_epollCtl accepts _ ((hadded.tended i).mpr hi)
          ((hadded.edits.alike i).number.trans hfd))

theorem round_epoll (edge : Bool) (accepts : EpollCtl → Bool) (events : List (Int × Events))
    (h : w.Tracks fds) : Round w (w.epoll edge accepts events).1 := by
  have hregister := round_epollRegister edge accepts h
  unfold epoll
  dsimp only
  split
  · exact hregister.trans (round_dispatch events
      (fun event _ i w' _ _ h' hi => round_process h' hi event.2) (h.round hregister))
  · exact hregister

theorem round_kqChange (edge : Bool) (hi : w.Tended i) (hfd : (w.slot i).fd = i) :
    Round w (w.kqChange edge i) := by
  have hcount : Round w { w with kqNchanges := w.kqNchanges + 1 } :=
    round_of_edits (Edits.refl _) rfl rfl
  have hgive := hcount.trans (round_give hi hfd)
  unfold kqChange
  dsimp only
  split
  · exact hgive.trans (round_setAdded _ i)
  · exact hgive

theorem round_kqueueSet (edge : Bool) (hi : w.Tended i) (hfd : (w.slot i).fd = i) :
    Round w (w.kqueueSet edge i).1 := by
  have hchange : ∀ (w : WaitTable) (c : Bool), w.Tended i → (w.slot i).fd = i →
      Round w (if c then w.kqChange edge i else w) := by
    intro w c hi hfd
    split
    · exact round_kqChange edge hi hfd
    · exact Round.refl w
  unfold kqueueSet
  split
  · exact Round.refl w
  · generalize ((w.slot i).ioftPre.event.events.any POLLIN && !(w.post i).any POLLIN) = registerRead
    generalize ((w.slot i).ioftPre.event.events.any POLLOUT && !(w.post i).any POLLOUT) = registerWrite
    have hread := hchange w registerRead hi hfd
    have hfresh : (if registerRead then w.kqChange edge i else w).table.freshFds = w.table.freshFds := by
      unfold kqChange
      dsimp only
      split
      · split <;> rfl
      · rfl
    dsimp only
    generalize (if registerRead then w.kqChange edge i else w) = read at hread hfresh ⊢
    split
    · exact Round.refl w
    · split
      · exact round_of_edits hread.edits hfresh rfl
      · have hwrite := hchange read registerWrite ((hread.tended i).mpr hi)
          ((hread.edits.alike i).number.trans hfd)
        exact (hread.trans hwrite).trans (round_setPost _ i _)

/-- No event of a zombie's slot is reported. -/
def Reports (w : WaitTable) (events : Option (List Int)) : Prop :=
  ∀ fds ∈ events, ∀ i : Nat, (i : Int) ∈ fds → (w.slot i).zombie = false

theorem Reports.round {events : Option (List Int)} (h : w.Reports events) (hr : Round w w') :
    w'.Reports events := fun fds hfds i hi => (hr.edits.alike i).zombie.trans (h fds hfds i hi)

theorem round_kevent {events : Option (List Int)} (hreports : w.Reports events) (h : w.Tracks fds) :
    Round w (w.kevent events).1 := by
  cases events with
  | none => exact Round.refl w
  | some events =>
      have hreset : Round w { w with kqNchanges := 0 } := round_of_edits (Edits.refl _) rfl rfl
      refine hreset.trans (round_dispatch events (fun event hevent i w' hfd hr h' hi => ?_)
        (h.round hreset))
      have hallocated : (w'.slot i).allocated = true := by
        refine hi.resolve_right ?_
        have hzombie : (w'.slot i).zombie = false := hreports.round (hreset.trans hr) events rfl i (hfd ▸ hevent)
        rw [hzombie]
        exact Bool.false_ne_true
      exact
        { edits := Edits.enqueueFresh w'.table i
          fresh := fun j hj => by
            obtain rfl | hj := w'.table.mem_enqueueFresh hj
            · exact Or.inr hallocated
            · exact Or.inl hj
          given := fun _ => Or.inl }

theorem round_kqueue (edge : Bool) {flush : Nat → Option (List Int)} {events : Option (List Int)}
    (hflush : ∀ i, w.Reports (flush i)) (hevents : w.Reports events) (h : w.Tracks fds) :
    Round w (w.kqueue edge flush events).1 := by
  have hdrain : Round w (w.drain (kqueueFd edge flush) w.table.tbl.dirtyFds).1 := by
    refine round_drain _ (fun i w' hr h' hi hfd => ?_) h fun i hi => h.dirty hi
    have hset := round_kqueueSet edge hi hfd
    unfold kqueueFd
    dsimp only
    split
    · exact hset
    · have hset' := hr.trans hset
      have hkevent := hset.trans (round_kevent ((hflush i).round hset') (h.round hset'))
      split
      · exact hkevent.trans (round_kqueueSet edge ((hkevent.tended i).mpr hi)
          ((hkevent.edits.alike i).number.trans hfd))
      · exact hkevent
  unfold kqueue
  dsimp only
  split
  · exact hdrain.trans (round_kevent (hevents.round hdrain) (h.round hdrain))
  · exact hdrain

theorem round_submitFd (h : w.Tracks fds) (hi : w.Tended i) (hfd : (w.slot i).fd = i) :
    Round w (w.submitFd i).1 := by
  have hclean := round_cleanFd h hi
  unfold submitFd
  dsimp only
  split
  · exact hclean
  · have hregister := hclean.trans
      (round_setPost (w.cleanFd i) i ((w.cleanFd i).slot i).ioftPre.event.events)
    exact hregister.trans (round_give ((hregister.tended i).mpr hi)
      ((hregister.edits.alike i).number.trans hfd))

theorem round_aio (pending : Bool) (events : Option (List (Int × Events))) (h : w.Tracks fds) :
    Round w (w.aio pending events).1 := by
  have hdrain := round_drain w.table.tbl.dirtyFds
    (fun i w' _ h' hi hfd => round_submitFd h' hi hfd) h fun i hi => h.dirty hi
  unfold aio
  dsimp only
  split
  · cases events with
    | none => exact hdrain
    | some events =>
        refine hdrain.trans (round_dispatch events (fun event _ i w' _ _ h' hi => ?_) (h.round hdrain))
        have hregister := round_setPost w' i (w'.slot i).ioftPre.event.events
        exact hregister.trans (round_process (h'.round hregister) ((hregister.tended i).mpr hi) event.2)
  · exact hdrain

theorem round_poll (pending : Bool) (revents : Option (Int → Events)) (h : w.Tracks fds)
    (hidle : w.table.freshFds = []) : Round w (w.poll pending revents).1 := by
  have hpoll : ∀ (pending : Bool) (revents : Int → Events),
      Round w (w.setTable (w.table.poll pending revents)) := by
    intro pending revents
    have hm := PollTable.edits_poll w.table pending revents
    refine ⟨hm, fun j hj => Or.inr ?_, fun _ => Or.inl⟩
    have hfresh := (PollTable.fresh_poll pending revents h.lists.attached hidle).2 j hj
    exact (hm.alike j).allocated.symm.trans hfresh
  unfold poll
  split
  · cases revents with
    | none => exact hpoll false fun _ => 0
    | some revents => exact hpoll true revents
  · exact hpoll false fun _ => 0

/-- `kqueue(2)` reports no event of a zombie's slot. -/
def ReportsLive (w : WaitTable) (driver : Driver) (answer : Answer) : Prop :=
  ∀ edge, driver = .kqueue edge →
    w.Reports (answer.events.map (List.map Prod.fst)) ∧ ∀ i, w.Reports (answer.flush i)

/-- A round of any driver makes only allocated slots fresh, if `kqueue(2)` reports no
event of a zombie's. -/
theorem round_wait {driver : Driver} {answer : Answer} (pending : Bool) (h : w.Tracks fds)
    (hidle : w.table.freshFds = []) (hlive : w.ReportsLive driver answer) :
    Round w (w.wait driver pending answer).1 := by
  unfold wait
  cases driver with
  | poll => exact round_poll pending answer.revents h hidle
  | epoll edge =>
      cases answer.events with
      | none => exact round_epollRegister edge answer.accepts h
      | some events => exact round_epoll edge answer.accepts events h
  | kqueue edge =>
      obtain ⟨hevents, hflush⟩ := hlive edge rfl
      exact round_kqueue edge hflush hevents h
  | aio => exact round_aio pending answer.events h

end WaitTable

end Vk

/-
# `Mnvkd.Future` — requests and replies

The coroutines of a process pass futures through each other's queues.
`vk_request` queues a future at the responder, plays it and pauses; past the pause
it dequeues what it finds in its own queue.  `vk_listen` looks into the queue
again each time it resumes, `vk_request` does not: it relies on being resumed by
the reply and by nothing else.

    request_answered     where nothing else wakes a requestor, it resumes with the
                         reply to its own request
    request_early        a requestor that resumes with an empty queue
-/
import Mnvkd.Paused
import Mnvkd.VirtualPipe

namespace Vk

open Lib

/-- Where a future is: in no queue, in the queue of a thread (`ft_list_elem`), or
with a thread that has dequeued it and is to respond. -/
inductive Place where
  | idle
  | queued (t : Nat)
  | taken (t : Nat)
  deriving DecidableEq, Repr

/-- `struct vk_future`, without its error. -/
structure Future where
  vk : Nat
  msg : Nat
  place : Place
  deriving DecidableEq, Repr

/-- The macro in which a thread has returned: past the call of `vk_request`, with its
future, or in the loop of `vk_listen`. -/
inductive FtCall where
  | requesting (ft : Nat)
  | listening
  deriving DecidableEq, Repr

/-- A process with the future queues of its threads.  `replies` keeps with what a
future has been responded to since it was sent. -/
structure FtMachine where
  m : Machine
  ftQ : Nat → List Nat
  fts : Nat → Future
  call : Nat → Option FtCall
  replies : Nat → Option Nat

/-- What a thread does with futures, next to what it does otherwise. -/
inductive FtAct where
  | base (a : Act)
  | request (there ft msg : Nat)
  | resume
  | listen
  | respond (ft msg : Nat)
  | send (there ft msg : Nat)

namespace FtMachine

def updFt (s : FtMachine) (ft : Nat) (f : Future → Future) : FtMachine :=
  { s with fts := Function.update s.fts ft (f (s.fts ft)) }

def setM (s : FtMachine) (m : Machine) : FtMachine := { s with m := m }

def setFtQ (s : FtMachine) (t : Nat) (queue : List Nat) : FtMachine :=
  { s with ftQ := Function.update s.ftQ t queue }

def setCall (s : FtMachine) (t : Nat) (c : Option FtCall) : FtMachine :=
  { s with call := Function.update s.call t c }

def setReply (s : FtMachine) (ft : Nat) (reply : Option Nat) : FtMachine :=
  { s with replies := Function.update s.replies ft reply }

/-! ## The functions -/

def futureBind (s : FtMachine) (ft t : Nat) : FtMachine := s.updFt ft fun f => { f with vk := t }

def futureResolve (s : FtMachine) (ft msg : Nat) : FtMachine :=
  s.updFt ft fun f => { f with msg := msg }

/-- `vk_ft_enqueue`. -/
def ftEnqueue (s : FtMachine) (that ft : Nat) : FtMachine :=
  (s.setFtQ that (s.ftQ that ++ [ft])).updFt ft fun f => { f with place := .queued that }

/-- `vk_ft_dequeue`. -/
def ftDequeue (s : FtMachine) (that : Nat) : Option (Nat × FtMachine) :=
  match s.ftQ that with
  | [] => none
  | ft :: rest => some (ft, (s.setFtQ that rest).updFt ft fun f => { f with place := .idle })

/-! ## The macros -/

/-- `vk_request`, up to the return. -/
def vkRequest (s : FtMachine) (t there ft msg : Nat) : Option FtMachine :=
  let s := ((s.futureBind ft t).futureResolve ft msg).ftEnqueue there ft
  (run Machine.step (Machine.vkCall there) s.m).map fun m =>
    ((s.setM m).setCall t (some (.requesting ft))).setReply ft none

/-- `vk_request`, past the call: the future is overwritten by what is dequeued, which
there must be. -/
def vkRequested (s : FtMachine) (t ft : Nat) : Option FtMachine :=
  match s.ftDequeue t with
  | none => none
  | some (g, s) => some ((s.updFt ft fun f => { s.fts g with place := f.place }).setCall t none)

/-- `vk_listen`, up to the return, or through. -/
def vkListen (s : FtMachine) (t : Nat) : Option FtMachine :=
  match s.ftDequeue t with
  | none =>
      (Machine.step (.co (.stop .listen)) s.m).map fun m =>
        (s.setM m).setCall t (some .listening)
  | some (ft, s) => some ((s.updFt ft fun f => { f with place := .taken t }).setCall t none)

/-- `vk_respond`. -/
def vkRespond (s : FtMachine) (ft msg : Nat) : Option FtMachine :=
  let there := (s.fts ft).vk
  (Machine.step (.co (.play there)) s.m).map fun m =>
    (((s.setM m).futureResolve ft msg).ftEnqueue there ft).setReply ft (some msg)

/-- `vk_send`. -/
def vkSend (s : FtMachine) (t there ft msg : Nat) : Option FtMachine :=
  (Machine.step (.co (.play there)) s.m).map fun m =>
    ((((s.setM m).ftEnqueue there ft).futureBind ft t).futureResolve ft msg).setReply ft none

/-- The thread that runs, between operations, and where it stands. -/
def running (s : FtMachine) : Option (Nat × Option FtCall) :=
  match s.m.stage with
  | .inside t => if s.m.pos t = none then some (t, s.call t) else none
  | _ => none

/-- The thread that runs is in one of the macros. -/
def busy (s : FtMachine) : Bool :=
  match s.m.stage with
  | .inside t => (s.call t).isSome
  | _ => false

/-- A step.  A thread responds to a future that it has taken. -/
def step (a : FtAct) (s : FtMachine) : Option FtMachine :=
  match a, s.running with
  | .base a, _ => if s.busy then none else (Machine.step a s.m).map s.setM
  | .request there ft msg, some (t, none) => s.vkRequest t there ft msg
  | .resume, some (t, some (.requesting ft)) => s.vkRequested t ft
  | .listen, some (t, none) | .listen, some (t, some .listening) => s.vkListen t
  | .respond ft msg, some (t, none) =>
      if (s.fts ft).place = .taken t then s.vkRespond ft msg else none
  | .send there ft msg, some (t, none) => s.vkSend t there ft msg
  | _, _ => none

section Functions
variable (s : FtMachine) (ft g t u msg : Nat) (f : Future → Future)

@[simp] theorem updFt_m : (s.updFt ft f).m = s.m := rfl
@[simp] theorem updFt_ftQ : (s.updFt ft f).ftQ = s.ftQ := rfl
@[simp] theorem updFt_call : (s.updFt ft f).call = s.call := rfl
@[simp] theorem updFt_replies : (s.updFt ft f).replies = s.replies := rfl

theorem updFt_fts : (s.updFt ft f).fts g = if g = ft then f (s.fts ft) else s.fts g :=
  Function.update_apply _ _ _ _

@[simp] theorem setFtQ_m (q : List Nat) : (s.setFtQ t q).m = s.m := rfl
@[simp] theorem setFtQ_fts (q : List Nat) : (s.setFtQ t q).fts = s.fts := rfl
@[simp] theorem setFtQ_call (q : List Nat) : (s.setFtQ t q).call = s.call := rfl
@[simp] theorem setFtQ_replies (q : List Nat) : (s.setFtQ t q).replies = s.replies := rfl

theorem setFtQ_ftQ (q : List Nat) : (s.setFtQ t q).ftQ u = if u = t then q else s.ftQ u :=
  Function.update_apply _ _ _ _

@[simp] theorem setM_m (m : Machine) : (s.setM m).m = m := rfl
@[simp] theorem setM_ftQ (m : Machine) : (s.setM m).ftQ = s.ftQ := rfl
@[simp] theorem setM_fts (m : Machine) : (s.setM m).fts = s.fts := rfl
@[simp] theorem setM_call (m : Machine) : (s.setM m).call = s.call := rfl
@[simp] theorem setM_replies (m : Machine) : (s.setM m).replies = s.replies := rfl

@[simp] theorem setCall_m (c : Option FtCall) : (s.setCall t c).m = s.m := rfl
@[simp] theorem setCall_ftQ (c : Option FtCall) : (s.setCall t c).ftQ = s.ftQ := rfl
@[simp] theorem setCall_fts (c : Option FtCall) : (s.setCall t c).fts = s.fts := rfl
@[simp] theorem setCall_replies (c : Option FtCall) : (s.setCall t c).replies = s.replies := rfl

theorem setCall_call (c : Option FtCall) :
    (s.setCall t c).call u = if u = t then c else s.call u :=
  Function.update_apply _ _ _ _

@[simp] theorem setReply_m (r : Option Nat) : (s.setReply ft r).m = s.m := rfl
@[simp] theorem setReply_ftQ (r : Option Nat) : (s.setReply ft r).ftQ = s.ftQ := rfl
@[simp] theorem setReply_fts (r : Option Nat) : (s.setReply ft r).fts = s.fts := rfl
@[simp] theorem setReply_call (r : Option Nat) : (s.setReply ft r).call = s.call := rfl

theorem setReply_replies (r : Option Nat) :
    (s.setReply ft r).replies g = if g = ft then r else s.replies g :=
  Function.update_apply _ _ _ _

@[simp] theorem futureBind_m : (s.futureBind ft t).m = s.m := rfl
@[simp] theorem futureResolve_m : (s.futureResolve ft msg).m = s.m := rfl
@[simp] theorem ftEnqueue_m : (s.ftEnqueue t ft).m = s.m := rfl
@[simp] theorem ftEnqueue_call : (s.ftEnqueue t ft).call = s.call := rfl
@[simp] theorem ftEnqueue_replies : (s.ftEnqueue t ft).replies = s.replies := rfl

theorem ftEnqueue_ftQ :
    (s.ftEnqueue t ft).ftQ u = if u = t then s.ftQ t ++ [ft] else s.ftQ u :=
  Function.update_apply _ _ _ _

theorem ftEnqueue_fts :
    (s.ftEnqueue t ft).fts g = if g = ft then { s.fts ft with place := .queued t } else s.fts g :=
  Function.update_apply _ _ _ _

end Functions

/-- What is dequeued is the head of the queue. -/
theorem ftDequeue_eq_some {s s' : FtMachine} {t ft : Nat} (h : s.ftDequeue t = some (ft, s')) :
    ∃ rest, s.ftQ t = ft :: rest ∧
      s' = (s.setFtQ t rest).updFt ft fun f => { f with place := .idle } := by
  unfold ftDequeue at h
  cases hq : s.ftQ t with
  | nil =>
      rw [hq] at h
      cases h
  | cons g rest =>
      rw [hq] at h
      cases h
      exact ⟨rest, rfl, rfl⟩

/-! ## The cases of a step -/

theorem running_eq_some {s : FtMachine} {t : Nat} {c : Option FtCall}
    (h : s.running = some (t, c)) : s.m.stage = .inside t ∧ s.call t = c := by
  unfold running at h
  split at h
  · rename_i u hst
    split at h
    · cases h
      exact ⟨hst, rfl⟩
    · cases h
  · cases h

/-- What a step is. -/
inductive Stepped (s : FtMachine) : FtAct → FtMachine → Prop where
  | base (a : Act) (m : Machine) (hstep : Machine.step a s.m = some m) :
      Stepped s (.base a) (s.setM m)
  | request (t there ft msg : Nat) (s' : FtMachine) (hst : s.m.stage = .inside t)
      (hrunning : s.running = some (t, none)) (hreq : s.vkRequest t there ft msg = some s') :
      Stepped s (.request there ft msg) s'
  | resume (t ft : Nat) (s' : FtMachine) (hst : s.m.stage = .inside t)
      (hcall : s.call t = some (.requesting ft)) (hreq : s.vkRequested t ft = some s') :
      Stepped s .resume s'
  | listen (t : Nat) (s' : FtMachine) (hst : s.m.stage = .inside t)
      (hcall : ∀ ft, s.call t ≠ some (.requesting ft)) (hlisten : s.vkListen t = some s') :
      Stepped s .listen s'
  | respond (t ft msg : Nat) (s' : FtMachine) (hst : s.m.stage = .inside t)
      (htaken : (s.fts ft).place = .taken t) (hrespond : s.vkRespond ft msg = some s') :
      Stepped s (.respond ft msg) s'
  | send (t there ft msg : Nat) (s' : FtMachine) (hst : s.m.stage = .inside t)
      (hsend : s.vkSend t there ft msg = some s') : Stepped s (.send there ft msg) s'

theorem stepped {a : FtAct} {s s' : FtMachine} (h : step a s = some s') : Stepped s a s' := by
  unfold step at h
  split at h
  case h_1 _ _ a =>
      split at h
      · cases h
      · obtain ⟨m, hm, rfl⟩ := Option.map_eq_some_iff.mp h
        exact .base a m hm
  case h_2 there ft msg t hrun =>
      exact .request t there ft msg s' (running_eq_some hrun).1 hrun h
  case h_3 t ft hrun =>
      obtain ⟨hst, hcall⟩ := running_eq_some hrun
      exact .resume t ft s' hst hcall h
  case h_4 t hrun =>
      obtain ⟨hst, hcall⟩ := running_eq_some hrun
      exact .listen t s' hst (fun ft => by rw [hcall]; exact nofun) h
  case h_5 t hrun =>
      obtain ⟨hst, hcall⟩ := running_eq_some hrun
      exact .listen t s' hst (fun ft => by rw [hcall]; exact nofun) h
  case h_6 ft msg t hrun =>
      obtain ⟨hst, -⟩ := running_eq_some hrun
      split at h
      · exact .respond t ft msg s' hst ‹_› h
      · cases h
  case h_7 there ft msg t hrun =>
      obtain ⟨hst, -⟩ := running_eq_some hrun
      exact .send t there ft msg s' hst h
  case h_8 => cases h

/-! ## What is kept -/

/-- The thread has made a request that has not been responded to. -/
def unanswered (s : FtMachine) (t : Nat) : Bool :=
  match s.call t with
  | some (.requesting ft) => (s.replies ft).isNone
  | some .listening | none => false

/-- Nothing but its own reply wakes a requestor.  A request is made by a thread that
is not enqueued and has an empty queue, of another, with a future that is in no
use; and a future is sent to no requestor. -/
def Undisturbed (a : FtAct) (s : FtMachine) : Prop :=
  match a with
  | .base a => ∀ t ∈ Machine.woken a s.m, s.unanswered t = false
  | .request there ft _ => (s.fts ft).place = .idle ∧ s.unanswered there = false ∧
      ∀ p ∈ s.running, p.1 ≠ there ∧ p.1 ∉ s.m.pl.runQ ∧ s.ftQ p.1 = []
  | .respond ft _ => s.unanswered (s.fts ft).vk = true →
      s.call (s.fts ft).vk = some (.requesting ft)
  | .send there ft _ => (s.fts ft).place = .idle ∧ s.unanswered there = false
  | .resume | .listen => True

/-- A request under way: it waits for its reply, or has it. -/
inductive Pending (s : FtMachine) (t ft : Nat) : Prop where
  | waits (hreply : s.replies ft = none) (hempty : s.ftQ t = []) (hparked : Machine.Parked t s.m)
      (hplace : (s.fts ft).place ≠ .idle)
  | answered (rest : List Nat) (hhead : s.ftQ t = ft :: rest)
      (hreply : s.replies ft = some (s.fts ft).msg)

/-- The queues hold the futures that are linked in them, each once. -/
structure Linked (s : FtMachine) : Prop where
  mem : ∀ t ft, ft ∈ s.ftQ t ↔ (s.fts ft).place = .queued t
  nodup : ∀ t, (s.ftQ t).Nodup

/-- The futures are where they are said to be, and each request is under way. -/
structure Delivers (s : FtMachine) : Prop where
  orderly : Machine.Orderly s.m
  linked : Linked s
  owns : ∀ t ft, s.call t = some (.requesting ft) → (s.fts ft).vk = t
  pending : ∀ t ft, s.call t = some (.requesting ft) → Pending s t ft

/-! ## The links -/

section Linked
variable {s s' : FtMachine}

theorem Linked.congr (h : Linked s) (hftQ : s'.ftQ = s.ftQ) (hfts : s'.fts = s.fts) : Linked s' := by
  constructor
  · rw [hftQ, hfts]
    exact h.mem
  · rw [hftQ]
    exact h.nodup

theorem Linked.setCall (h : Linked s) (t : Nat) (c : Option FtCall) : Linked (s.setCall t c) :=
  ⟨h.mem, h.nodup⟩

theorem Linked.setM (h : Linked s) (m : Machine) : Linked (s.setM m) := ⟨h.mem, h.nodup⟩

theorem Linked.setReply (h : Linked s) (ft : Nat) (r : Option Nat) : Linked (s.setReply ft r) :=
  ⟨h.mem, h.nodup⟩

/-- A future changes, and is linked where it was. -/
theorem Linked.updFt (h : Linked s) (ft : Nat) {f : Future → Future}
    (hf : ∀ t, (f (s.fts ft)).place = .queued t ↔ (s.fts ft).place = .queued t) :
    Linked (s.updFt ft f) where
  mem t g := by
    rw [updFt_ftQ, updFt_fts, h.mem]
    split
    · subst g
      exact (hf t).symm
    · exact Iff.rfl
  nodup := h.nodup

/-- A future that is in no queue is enqueued. -/
theorem Linked.ftEnqueue (h : Linked s) (t : Nat) {ft : Nat}
    (hft : ∀ u, (s.fts ft).place ≠ .queued u) : Linked (s.ftEnqueue t ft) where
  mem u g := by
    have hother : ∀ u, ft ∉ s.ftQ u := fun u hu => hft u ((h.mem u ft).mp hu)
    rw [ftEnqueue_ftQ, ftEnqueue_fts]
    by_cases hg : g = ft
    · subst hg
      rw [if_pos rfl]
      split
      · subst u
        simp
      · rename_i hu
        simp [hother u, Ne.symm hu]
    · rw [if_neg hg, ← h.mem u g]
      split
      · subst u
        simp [hg]
      · exact Iff.rfl
  nodup u := by
    rw [ftEnqueue_ftQ]
    split
    · subst u
      rw [List.nodup_append]
      refine ⟨h.nodup _, List.nodup_singleton ft, ?_⟩
      rintro g hg _ hmem rfl
      rw [List.mem_singleton] at hmem
      subst hmem
      exact hft _ ((h.mem _ _).mp hg)
    · exact h.nodup u

/-- The head of a queue is dequeued. -/
theorem Linked.ftDequeue (h : Linked s) {t ft : Nat} (hd : s.ftDequeue t = some (ft, s')) :
    Linked s' := by
  obtain ⟨rest, hq, rfl⟩ := ftDequeue_eq_some hd
  have hnodup := h.nodup t
  rw [hq, List.nodup_cons] at hnodup
  constructor
  · intro u g
    rw [updFt_ftQ, updFt_fts, setFtQ_ftQ, setFtQ_fts]
    by_cases hg : g = ft
    · subst hg
      rw [if_pos rfl]
      simp only [reduceCtorEq, iff_false]
      split
      · exact hnodup.1
      · rename_i hu
        intro hmem
        have hplace := (h.mem t g).mp (by rw [hq]; exact List.mem_cons_self)
        rw [(h.mem u g).mp hmem] at hplace
        cases hplace
        exact hu rfl
    · rw [if_neg hg, ← h.mem u g]
      split
      · subst u
        rw [hq, List.mem_cons]
        simp [hg]
      · exact Iff.rfl
  · intro u
    rw [updFt_ftQ, setFtQ_ftQ]
    split
    · exact hnodup.2
    · exact h.nodup u

end Linked

/-! ## One step -/

section Step
variable {s s' : FtMachine} {t ft : Nat}

theorem unanswered_of_waits (hcall : s.call t = some (.requesting ft)) (hreply : s.replies ft = none) :
    s.unanswered t = true := by
  simp only [unanswered, hcall, hreply, Option.isNone_none]

/-- A request under way stays so where its future and its reply are left alone, its
queue grows at most behind the reply, and nothing wakes the requestor before that. -/
theorem Pending.frame (h : Pending s t ft) (hreply : s'.replies ft = s.replies ft)
    (hmsg : (s'.fts ft).msg = (s.fts ft).msg)
    (hplaced : (s.fts ft).place ≠ .idle → (s'.fts ft).place ≠ .idle)
    (more : List Nat) (hftQ : s'.ftQ t = s.ftQ t ++ more)
    (hmore : s.replies ft = none → more = [])
    (hparked : s.replies ft = none → Machine.Parked t s.m → Machine.Parked t s'.m) :
    Pending s' t ft := by
  cases h with
  | waits hnone hempty hpark hplace =>
      refine .waits (hreply.trans hnone) ?_ (hparked hnone hpark) (hplaced hplace)
      rw [hftQ, hempty, hmore hnone]
      rfl
  | answered rest hhead hsome =>
      refine .answered (rest ++ more) ?_ ?_
      · rw [hftQ, hhead]
        rfl
      · rw [hreply, hsome, hmsg]

theorem Delivers.base (h : Delivers s) {a : Act} {m : Machine}
    (hund : Undisturbed (.base a) s) (hstep : Machine.step a s.m = some m) :
    Delivers (s.setM m) where
  orderly := h.orderly.step hstep
  linked := h.linked.congr rfl rfl
  owns := h.owns
  pending t ft hcall := by
    refine (h.pending t ft hcall).frame rfl rfl id []
      (List.append_nil _).symm (fun _ => rfl) fun hnone hparked => ?_
    refine hparked.step h.orderly hstep fun hwake => ?_
    rw [← Machine.mem_woken_iff] at hwake
    have hanswered := hund t hwake
    rw [unanswered_of_waits (s := s) hcall hnone] at hanswered
    cases hanswered

/-- Playing a thread other than a parked one leaves that parked. -/
theorem Parked.play {m m' : Machine} {u : Nat} (h : Machine.Parked t m) (ho : Machine.Orderly m)
    (hst : ∃ v, m.stage = .inside v) (hut : t ≠ u)
    (hstep : Machine.step (.co (.play u)) m = some m') : Machine.Parked t m' := by
  obtain ⟨v, hst⟩ := hst
  refine h.step ho hstep fun hwake => ?_
  simp only [Machine.MayWake, hst] at hwake
  exact hut hwake

/-- So does another thread's return. -/
theorem Parked.stop {m m' : Machine} {v : Nat} {status : ProcStat} (h : Machine.Parked t m)
    (ho : Machine.Orderly m) (hst : m.stage = .inside v)
    (hstep : Machine.step (.co (.stop status)) m = some m') : Machine.Parked t m' := by
  refine h.step ho hstep fun hwake => ?_
  simp only [Machine.MayWake, hst] at hwake
  exact h.rests.paused (by rw [hst, hwake])

theorem stage_of_play {m m' : Machine} {u v : Nat} (hst : m.stage = .inside v)
    (hstep : Machine.step (.co (.play u)) m = some m') :
    m'.stage = .inside v ∧ m'.pl = m.pl.enqueueRun u := by
  cases Machine.stepped hstep with
  | co t hu c m' hco =>
      cases hst.symm.trans hu
      cases Machine.coStepped hco with
      | play hpos u => exact ⟨hst, rfl⟩

/-- What `vk_request` leaves. -/
theorem vkRequest_eq_some {there msg : Nat} (h : s.vkRequest t there ft msg = some s') :
    ∃ m₁ m, Machine.step (.co (.play there)) s.m = some m₁ ∧
      Machine.step (.co (.stop .yield)) m₁ = some m ∧
      s' = (((((s.futureBind ft t).futureResolve ft msg).ftEnqueue there ft).setM m).setCall t
        (some (.requesting ft))).setReply ft none := by
  obtain ⟨m, hrun, rfl⟩ := Option.map_eq_some_iff.mp h
  obtain ⟨m₁, hplay, hrun⟩ := (run_cons Machine.step).mp hrun
  obtain ⟨m₂, hstop, hrun⟩ := (run_cons Machine.step).mp hrun
  cases hrun
  exact ⟨m₁, m, hplay, hstop, rfl⟩

/-- The reply is linked in the requestor's queue. -/
theorem Delivers.queued_of_head (h : Delivers s) {rest : List Nat} (hhead : s.ftQ t = ft :: rest) :
    (s.fts ft).place = .queued t :=
  (h.linked.mem t ft).mp (by rw [hhead]; exact List.mem_cons_self)

/-- A request that is under way is not of a future that is in no use. -/
theorem Delivers.ne_of_idle (h : Delivers s) (hidle : (s.fts ft).place = .idle) (u g : Nat)
    (hcall : s.call u = some (.requesting g)) : g ≠ ft := by
  rintro rfl
  cases h.pending u g hcall with
  | waits _ _ _ hplace => exact hplace hidle
  | answered rest hhead _ =>
      have hplace := h.queued_of_head hhead
      rw [hidle] at hplace
      cases hplace

/-- A requestor that runs has its reply. -/
theorem Delivers.head_of_running (h : Delivers s) (hst : s.m.stage = .inside t)
    (hcall : s.call t = some (.requesting ft)) :
    ∃ rest, s.ftQ t = ft :: rest ∧ s.replies ft = some (s.fts ft).msg := by
  cases h.pending t ft hcall with
  | waits _ _ hparked _ => exact absurd hst hparked.rests.paused
  | answered rest hhead hreply => exact ⟨rest, hhead, hreply⟩

theorem Delivers.request {there msg : Nat} (h : Delivers s)
    (hund : Undisturbed (.request there ft msg) s) (hst : s.m.stage = .inside t)
    (hrunning : s.running = some (t, none)) (hreq : s.vkRequest t there ft msg = some s') :
    Delivers s' := by
  obtain ⟨m₁, m, hplay, hstop, rfl⟩ := vkRequest_eq_some hreq
  obtain ⟨hidle, hthere, hself⟩ := hund
  obtain ⟨hne, hunqueued, hempty⟩ := hself (t, none) hrunning
  obtain ⟨hst₁, hpl₁⟩ := stage_of_play hst hplay
  have ho₁ := h.orderly.step hplay
  have hparks : ∀ u, u ≠ there → Machine.Parked u s.m → Machine.Parked u m := fun u hu hparked =>
    Parked.stop (Parked.play hparked h.orderly ⟨t, hst⟩ hu hplay) ho₁ hst₁ hstop
  have hfts : ∀ g, g ≠ ft →
      (((s.futureBind ft t).futureResolve ft msg).ftEnqueue there ft).fts g = s.fts g := fun g hg => by
    rw [ftEnqueue_fts, if_neg hg, futureResolve, updFt_fts, if_neg hg, futureBind, updFt_fts, if_neg hg]
  have hft : (((s.futureBind ft t).futureResolve ft msg).ftEnqueue there ft).fts ft
      = ⟨t, msg, .queued there⟩ := by
    rw [ftEnqueue_fts, if_pos rfl, futureResolve, updFt_fts, if_pos rfl, futureBind, updFt_fts,
      if_pos rfl]
  have hother : ∀ u g, s.call u = some (.requesting g) → g ≠ ft := h.ne_of_idle hidle
  refine ⟨ho₁.step hstop, ?_, ?_, ?_⟩
  · refine Linked.congr (s := ((s.futureBind ft t).futureResolve ft msg).ftEnqueue there ft) ?_ rfl rfl
    refine ((h.linked.updFt ft fun _ => Iff.rfl).updFt ft fun _ => Iff.rfl).ftEnqueue there fun u => ?_
    rw [updFt_fts, if_pos rfl, updFt_fts, if_pos rfl, hidle]
    exact Place.noConfusion
  · intro u g hcall
    rw [setReply_call, setCall_call] at hcall
    rw [setReply_fts, setCall_fts]
    split at hcall
    · subst u
      cases hcall
      exact congrArg Future.vk hft
    · rw [setM_fts, hfts g (hother u g hcall)]
      exact h.owns u g hcall
  · intro u g hcall
    rw [setReply_call, setCall_call] at hcall
    split at hcall
    · subst u
      cases hcall
      refine .waits ?_ ?_ ?_ ?_
      · rw [setReply_replies, if_pos rfl]
      · rw [setReply_ftQ, setCall_ftQ, setM_ftQ, ftEnqueue_ftQ, if_neg hne]
        exact hempty
      · refine Machine.parked_of_stop hst₁ (fun ht => ?_) hstop
        rw [hpl₁] at ht
        exact (ProcLocal.enqueueRun_runQ s.m.pl there t ht).elim hunqueued hne
      · rw [setReply_fts, setCall_fts, setM_fts, hft]
        exact Place.noConfusion
    · have hg := hother u g hcall
      have hwaits : s.replies g = none → u ≠ there := fun hnone hu => by
        subst hu
        rw [unanswered_of_waits (s := s) hcall hnone] at hthere
        cases hthere
      refine (h.pending u g hcall).frame ?_ (congrArg Future.msg (hfts g hg))
        (by rw [setReply_fts, setCall_fts, setM_fts, hfts g hg]; exact id)
        (if u = there then [ft] else []) ?_ ?_ ?_
      · rw [setReply_replies, if_neg hg]
        rfl
      · rw [setReply_ftQ, setCall_ftQ, setM_ftQ, ftEnqueue_ftQ]
        split
        · subst u
          rfl
        · exact (List.append_nil _).symm
      · exact fun hnone => if_neg (hwaits hnone)
      · exact fun hnone => hparks u (hwaits hnone)

theorem Delivers.resume (h : Delivers s) (hst : s.m.stage = .inside t)
    (hcall : s.call t = some (.requesting ft)) (hreq : s.vkRequested t ft = some s') :
    Delivers s' := by
  obtain ⟨rest, hhead, -⟩ := h.head_of_running hst hcall
  have hdequeue : s.ftDequeue t = some (ft, (s.setFtQ t rest).updFt ft fun f =>
      { f with place := .idle }) := by
    rw [ftDequeue, hhead]
  rw [vkRequested, hdequeue] at hreq
  cases hreq
  have hfts : ∀ g, g ≠ ft → ∀ f f' : Future → Future,
      (((s.setFtQ t rest).updFt ft f).updFt ft f').fts g = s.fts g := fun g hg f f' => by
    rw [updFt_fts, if_neg hg, updFt_fts, if_neg hg, setFtQ_fts]
  have hother : ∀ u g, u ≠ t → s.call u = some (.requesting g) → g ≠ ft := fun u g hu hcall' hg => by
    subst hg
    exact hu ((h.owns u g hcall').symm.trans (h.owns t g hcall))
  refine ⟨h.orderly, ?_, fun u g hcall' => ?_, fun u g hcall' => ?_⟩
  · -- what is dequeued is the future itself, so overwriting it moves nothing
    exact ((h.linked.ftDequeue hdequeue).updFt ft fun _ => Iff.rfl).setCall t none
  · rw [setCall_call] at hcall'
    split at hcall'
    · cases hcall'
    · rename_i hu
      rw [setCall_fts, hfts g (hother u g hu hcall')]
      exact h.owns u g hcall'
  · rw [setCall_call] at hcall'
    split at hcall'
    · cases hcall'
    · rename_i hu
      have hg := hfts g (hother u g hu hcall')
      refine (h.pending u g hcall').frame rfl ?_ ?_ [] ?_ (fun _ => rfl) fun _ => id
      · rw [setCall_fts, hg]
      · rw [setCall_fts, hg]
        exact id
      · rw [List.append_nil, setCall_ftQ, updFt_ftQ, updFt_ftQ, setFtQ_ftQ, if_neg hu]

theorem Delivers.listen (h : Delivers s) (hst : s.m.stage = .inside t)
    (hlisten : s.vkListen t = some s') : Delivers s' := by
  have hother : ∀ {c : Option FtCall} {u g : Nat}, (∀ ft, c ≠ some (.requesting ft)) →
      (if u = t then c else s.call u) = some (.requesting g) →
      u ≠ t ∧ s.call u = some (.requesting g) := fun hc hcall' => by
    split at hcall'
    · exact absurd hcall' (hc _)
    · exact ⟨‹_›, hcall'⟩
  unfold vkListen at hlisten
  cases hdequeue : s.ftDequeue t with
  | none =>
      rw [hdequeue] at hlisten
      obtain ⟨m, hstop, rfl⟩ := Option.map_eq_some_iff.mp hlisten
      refine ⟨h.orderly.step hstop, h.linked.congr rfl rfl, fun u g hcall' => ?_, fun u g hcall' => ?_⟩
      · rw [setCall_call] at hcall'
        exact h.owns u g (hother (c := some .listening) (fun _ => nofun) hcall').2
      · rw [setCall_call] at hcall'
        refine (h.pending u g (hother (c := some .listening) (fun _ => nofun) hcall').2).frame rfl rfl id [] (List.append_nil _).symm
          (fun _ => rfl) fun _ hparked => ?_
        exact Parked.stop hparked h.orderly hst hstop
  | some taken =>
      obtain ⟨ft, s₁⟩ := taken
      rw [hdequeue] at hlisten
      cases hlisten
      have hlinked := h.linked.ftDequeue hdequeue
      obtain ⟨rest, hhead, rfl⟩ := ftDequeue_eq_some hdequeue
      generalize hs' : ((s.setFtQ t rest).updFt ft fun f => { f with place := .idle }).updFt ft
        (fun f => { f with place := .taken t }) = s'
      have hm : s'.m = s.m := hs' ▸ rfl
      have hcalls : s'.call = s.call := hs' ▸ rfl
      have hreplies : s'.replies = s.replies := hs' ▸ rfl
      have hkept : ∀ g, (s'.fts g).vk = (s.fts g).vk ∧ (s'.fts g).msg = (s.fts g).msg ∧
          ((s.fts g).place ≠ .idle → (s'.fts g).place ≠ .idle) := fun g => by
        subst hs'
        by_cases hg : g = ft
        · subst hg
          rw [updFt_fts, if_pos rfl, updFt_fts, if_pos rfl]
          exact ⟨rfl, rfl, fun _ => Place.noConfusion⟩
        · rw [updFt_fts, if_neg hg, updFt_fts, if_neg hg]
          exact ⟨rfl, rfl, id⟩
      refine ⟨by rw [setCall_m, hm]; exact h.orderly, ?_, fun u g hcall' => ?_, fun u g hcall' => ?_⟩
      · subst hs'
        refine (hlinked.updFt ft fun u => ?_).setCall t none
        rw [updFt_fts, if_pos rfl]
        simp only [reduceCtorEq]
      · rw [setCall_call, hcalls] at hcall'
        exact (hkept g).1.trans (h.owns u g (hother (c := none) (fun _ => nofun) hcall').2)
      · rw [setCall_call, hcalls] at hcall'
        obtain ⟨hu, hcall'⟩ := hother (c := none) (fun _ => nofun) hcall'
        refine (h.pending u g hcall').frame (congrFun hreplies g) (hkept g).2.1 (hkept g).2.2 [] ?_
          (fun _ => rfl) fun _ hparked => by rw [setCall_m, hm]; exact hparked
        rw [List.append_nil, setCall_ftQ, ← hs', updFt_ftQ, updFt_ftQ, setFtQ_ftQ, if_neg hu]

theorem Delivers.respond {msg : Nat} (h : Delivers s) (hund : Undisturbed (.respond ft msg) s)
    (hst : s.m.stage = .inside t) (htaken : (s.fts ft).place = .taken t)
    (hrespond : s.vkRespond ft msg = some s') : Delivers s' := by
  obtain ⟨m, hplay, rfl⟩ := Option.map_eq_some_iff.mp hrespond
  have hund : s.unanswered (s.fts ft).vk = true →
      s.call (s.fts ft).vk = some (.requesting ft) := hund
  generalize hthere : (s.fts ft).vk = there at hplay hund
  have hfts : ∀ g, ((((s.setM m).futureResolve ft msg).ftEnqueue there ft).setReply ft
      (some msg)).fts g = if g = ft then ⟨there, msg, .queued there⟩ else s.fts g := fun g => by
    rw [setReply_fts, ftEnqueue_fts, futureResolve, updFt_fts, if_pos rfl, updFt_fts]
    by_cases hg : g = ft
    · rw [if_pos hg, if_pos hg, setM_fts, hthere]
    · rw [if_neg hg, if_neg hg, if_neg hg, setM_fts]
  refine ⟨h.orderly.step hplay, ?_, fun u g hcall => ?_, fun u g hcall => ?_⟩
  · refine (((h.linked.setM m).updFt ft fun _ => Iff.rfl).ftEnqueue there fun u => ?_).setReply ft _
    rw [updFt_fts, if_pos rfl, setM_fts, htaken]
    exact Place.noConfusion
  · rw [hfts]
    have howner := h.owns u g hcall
    split
    · subst g
      exact hthere.symm.trans howner
    · exact howner
  · have hcall : s.call u = some (.requesting g) := hcall
    have hftQ : ((((s.setM m).futureResolve ft msg).ftEnqueue there ft).setReply ft (some msg)).ftQ u
        = if u = there then s.ftQ there ++ [ft] else s.ftQ u := by
      rw [setReply_ftQ, ftEnqueue_ftQ]
      rfl
    by_cases hg : g = ft
    · -- the reply to the request
      subst hg
      have hu : u = there := (h.owns u g hcall).symm.trans hthere
      subst hu
      cases h.pending u g hcall with
      | waits _ hempty _ _ =>
          refine .answered [] ?_ ?_
          · rw [hftQ, if_pos rfl, hempty]
            rfl
          · rw [setReply_replies, if_pos rfl, hfts, if_pos rfl]
      | answered rest hhead _ =>
          have hplace := h.queued_of_head hhead
          rw [htaken] at hplace
          cases hplace
    · have hwaits : s.replies g = none → u ≠ there := fun hnone hu => by
        subst hu
        have hsame := hcall.symm.trans (hund (unanswered_of_waits hcall hnone))
        cases hsame
        exact hg rfl
      have hsame := hfts g
      rw [if_neg hg] at hsame
      refine (h.pending u g hcall).frame ?_ (congrArg Future.msg hsame) (by rw [hsame]; exact id)
        (if u = there then [ft] else []) ?_ (fun hnone => if_neg (hwaits hnone)) fun hnone hparked => ?_
      · rw [setReply_replies, if_neg hg]
        rfl
      · rw [hftQ]
        split
        · subst u
          rfl
        · exact (List.append_nil _).symm
      · exact Parked.play hparked h.orderly ⟨t, hst⟩ (hwaits hnone) hplay

theorem Delivers.send {there msg : Nat} (h : Delivers s) (hund : Undisturbed (.send there ft msg) s)
    (hst : s.m.stage = .inside t) (hsend : s.vkSend t there ft msg = some s') : Delivers s' := by
  obtain ⟨m, hplay, rfl⟩ := Option.map_eq_some_iff.mp hsend
  obtain ⟨hidle, hthere⟩ := hund
  have hfts : ∀ g, g ≠ ft → (((((s.setM m).ftEnqueue there ft).futureBind ft t).futureResolve ft
      msg).setReply ft none).fts g = s.fts g := fun g hg => by
    rw [setReply_fts, futureResolve, updFt_fts, if_neg hg, futureBind, updFt_fts, if_neg hg,
      ftEnqueue_fts, if_neg hg, setM_fts]
  have hother := h.ne_of_idle hidle
  refine ⟨h.orderly.step hplay, ?_, fun u g hcall => ?_, fun u g hcall => ?_⟩
  · refine ((((h.linked.setM m).ftEnqueue there fun u => ?_).updFt ft fun _ => Iff.rfl).updFt ft
      fun _ => Iff.rfl).setReply ft none
    rw [setM_fts, hidle]
    exact Place.noConfusion
  · rw [hfts g (hother u g hcall)]
    exact h.owns u g hcall
  · have hcall : s.call u = some (.requesting g) := hcall
    have hg := hother u g hcall
    have hwaits : s.replies g = none → u ≠ there := fun hnone hu => by
      subst hu
      rw [unanswered_of_waits (s := s) hcall hnone] at hthere
      cases hthere
    refine (h.pending u g hcall).frame ?_ (congrArg Future.msg (hfts g hg))
      (by rw [hfts g hg]; exact id) (if u = there then [ft] else []) ?_
      (fun hnone => if_neg (hwaits hnone)) fun hnone hparked => ?_
    · rw [setReply_replies, if_neg hg]
      rfl
    · rw [setReply_ftQ]
      show (FtMachine.ftEnqueue _ there ft).ftQ u = _
      rw [ftEnqueue_ftQ]
      split
      · subst u
        rfl
      · exact (List.append_nil _).symm
    · exact Parked.play hparked h.orderly ⟨t, hst⟩ (hwaits hnone) hplay

theorem Delivers.step {a : FtAct} (h : Delivers s) (hund : Undisturbed a s)
    (hstep : FtMachine.step a s = some s') : Delivers s' := by
  cases stepped hstep with
  | base a m hbase => exact h.base hund hbase
  | request t there ft msg s' hst hrunning hreq => exact h.request hund hst hrunning hreq
  | resume t ft s' hst hcall hreq => exact h.resume hst hcall hreq
  | listen t s' hst hcall hlisten => exact h.listen hst hlisten
  | respond t ft msg s' hst htaken hrespond => exact h.respond hund hst htaken hrespond
  | send t there ft msg s' hst hsend => exact h.send hund hst hsend

end Step

/-! ## Whole runs -/

/-- No request is under way, and no future is queued. -/
structure Quiet (s : FtMachine) : Prop where
  orderly : Machine.Orderly s.m
  empty : ∀ t, s.ftQ t = []
  call : ∀ t, s.call t = none
  unlinked : ∀ ft t, (s.fts ft).place ≠ .queued t

theorem Quiet.delivers {s : FtMachine} (h : Quiet s) : Delivers s where
  orderly := h.orderly
  linked := by
    constructor
    · intro t ft
      rw [h.empty]
      exact iff_of_false List.not_mem_nil (h.unlinked ft t)
    · intro t
      rw [h.empty]
      exact List.nodup_nil
  owns t ft hcall := by
    rw [h.call] at hcall
    cases hcall
  pending t ft hcall := by
    rw [h.call] at hcall
    cases hcall

/-- A requestor that resumes past its call dequeues the future it has sent. -/
def ResumesWithReply (s : FtMachine) : Prop :=
  ∀ t ft, s.m.stage = .inside t → s.call t = some (.requesting ft) →
    ∃ rest, s.ftQ t = ft :: rest ∧ s.replies ft = some (s.fts ft).msg

/-- Where nothing but its own reply wakes a requestor, it resumes with the reply to its
own request. -/
theorem request_answered {as : List FtAct} {s s' : FtMachine} (h : Quiet s)
    (hund : Meets FtMachine.step Undisturbed as s) (hrun : run FtMachine.step as s = some s') :
    ResumesWithReply s' := by
  have h' : Delivers s' :=
    run_of_meets (fun _ _ _ h hc hstep => h.step hc hstep) h.delivers hund hrun
  exact fun t ft hst hcall => h'.head_of_running hst hcall

/-! ## A requestor and a responder -/

instance (a : FtAct) (s : FtMachine) : Decidable (Undisturbed a s) :=
  match a with
  | .base a => inferInstanceAs (Decidable (∀ t ∈ Machine.woken a s.m, s.unanswered t = false))
  | .request there ft _ => inferInstanceAs (Decidable ((s.fts ft).place = .idle ∧
      s.unanswered there = false ∧
      ∀ p ∈ s.running, p.1 ≠ there ∧ p.1 ∉ s.m.pl.runQ ∧ s.ftQ p.1 = []))
  | .respond ft _ => inferInstanceAs (Decidable (s.unanswered (s.fts ft).vk = true →
      s.call (s.fts ft).vk = some (.requesting ft)))
  | .send there ft _ =>
      inferInstanceAs (Decidable ((s.fts ft).place = .idle ∧ s.unanswered there = false))
  | .resume | .listen => .isTrue trivial

/-- The pipeline of two, without futures. -/
def twoThreads : FtMachine where
  m := pipeline
  ftQ := fun _ => []
  fts := fun _ => ⟨0, 0, .idle⟩
  call := fun _ => none
  replies := fun _ => none

theorem quiet_twoThreads : Quiet twoThreads where
  orderly := Machine.orderly_of_kernel rfl
    ⟨fun _ => ⟨nofun, nofun⟩, List.nodup_nil, fun _ => ⟨nofun, nofun⟩, List.nodup_nil⟩
    fun s w => by
      show (pipeline.pl.sockets s).rxFd.ref ≠ _ ∧ (pipeline.pl.sockets s).txFd.ref ≠ _
      unfold pipeline Socket.init
      dsimp only
      constructor
      · split <;> exact nofun
      · split <;> exact nofun
  empty _ := rfl
  call _ := rfl
  unlinked _ _ := Place.noConfusion

/-- The first thread is entered. -/
def entered : List FtAct := [.base (.play 0), .base .start, .base .exec, .base .exec]

/-- It requests 5 of the second, and the executor goes on to that. -/
def requested : List FtAct :=
  [.request 1 0 5, .base (.unblock wouldBlock), .base .exec, .base .exec, .base .exec, .listen]

/-- The executor leaves the second thread for the first. -/
def goesBack : List FtAct := [.base (.unblock wouldBlock), .base .exec, .base .exec, .base .exec]

/-- The second responds with 7 and ends. -/
def answers : List FtAct :=
  entered ++ requested ++ [.respond 0 7, .base (.co (.stop .ended))] ++ goesBack

theorem request_answered_twoThreads : ∃ s', run FtMachine.step answers twoThreads = some s' ∧
    s'.m.stage = .inside 0 ∧ s'.call 0 = some (.requesting 0) ∧ (s'.fts 0).msg = 7 ∧
      ResumesWithReply s' := by
  obtain ⟨s', hs', hend⟩ := (Option.any_eq_true _ _).mp
    (by decide +kernel : (run FtMachine.step answers twoThreads).any (fun s =>
      decide (s.m.stage = .inside 0 ∧ s.call 0 = some (.requesting 0) ∧ (s.fts 0).msg = 7)) = true)
  obtain ⟨hst, hcall, hmsg⟩ := of_decide_eq_true hend
  exact ⟨s', hs', hst, hcall, hmsg, request_answered quiet_twoThreads (by decide +kernel) hs'⟩

/-- The first thread raises, and makes its request from its error handler; the second
reads before it responds. -/
def raisesFirst : List FtAct :=
  entered ++ [.base (.co (.raise Errno.EINVAL)), .base (.unblock wouldBlock), .base .exec] ++
  requested ++ [.base (.co (.call (.read 1 8 1))), .base (.co .turn)] ++ goesBack

/-- A thread that has raised is in the run queue, so its request resumes when the
responder waits: its future queue is empty. -/
theorem request_early : ¬∀ (as : List FtAct) (s s' : FtMachine), Quiet s →
    run FtMachine.step as s = some s' → ResumesWithReply s' := by
  intro hall
  obtain ⟨s', hs', hend⟩ := (Option.any_eq_true _ _).mp
    (by decide +kernel : (run FtMachine.step raisesFirst twoThreads).any (fun s =>
      decide (s.m.stage = .inside 0 ∧ s.call 0 = some (.requesting 0) ∧ s.ftQ 0 = [])) = true)
  obtain ⟨hst, hcall, hempty⟩ := of_decide_eq_true hend
  obtain ⟨rest, hhead, -⟩ := hall raisesFirst twoThreads s' quiet_twoThreads hs' 0 0 hst hcall
  rw [hempty] at hhead
  cases hhead

end FtMachine

end Vk

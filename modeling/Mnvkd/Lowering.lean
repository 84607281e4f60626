/-
# `Mnvkd.Lowering` — where `vk_lower` goes on

A coroutine is one `switch`, and its labels are what the compiler counts with
`__COUNTER__` in the file it is in.  `vk_yield` stores the label it is at and returns;
`vk_raise` does, and notes its label for `vk_lower` besides, which stores it again when
the error has been dealt with.

`vk_raise_at` notes a label for another coroutine, but it counts in the file where it
is written: `vk_proc_local_raise_signal` notes 1 for whatever coroutine runs.  The
error has the coroutine entered at its `vk_finally`, for which `vk_begin` overwrites the
label of its last yield.  So `vk_lower` goes on after the `vk_raise` that raised the
error; of an error that was raised elsewhere it goes on at the last yield only where the
number noted happens to be that label (`lower_resumes_iff`).
-/
import Mathlib.Algebra.GroupWithZero.Nat
import Mnvkd.ThreadLife
import Mnvkd.Lib.Run

namespace Vk

open Lib

/-- The macros of a coroutine that count.  `vk_error` is a `raise`, and so is in
`vk_calloc` what it does when there is no room. -/
inductive Expansion where
  | yield | raise | raiseAt
  deriving DecidableEq, Repr

namespace Expansion

/-- How many times a macro has `__COUNTER__`. -/
def uses : Expansion → Nat
  | yield => 2
  | raise => 3
  | raiseAt => 1

/-- The `case` of a macro that is expanded when `__COUNTER__` is at `n`. -/
def caseLabel (n : Nat) : Expansion → Option Nat
  | yield => some n
  | raise => some (n + 1)
  | raiseAt => none

/-- What `vk_raise_at` notes when it is expanded at `n`. -/
def raiseAtCounter (n : Nat) : Nat := n + 1

end Expansion

/-- A coroutine: what `__COUNTER__` is at its `vk_begin`, and what it has from there to
its `vk_end`. -/
structure Coroutine where
  first : Nat
  body : List Expansion
  deriving DecidableEq, Repr

/-- Where a coroutine is entered. -/
inductive Point where
  | start | finally | after (k : Nat) | finished | default
  deriving DecidableEq, Repr

namespace Coroutine

/-- Where `__COUNTER__` is at the `k`th macro. -/
def counterAt (co : Coroutine) (k : Nat) : Nat := co.first + ((co.body.take k).map Expansion.uses).sum

/-- The label of the `k`th macro. -/
def label (co : Coroutine) (k : Nat) : Option Nat := co.body[k]?.bind (Expansion.caseLabel (co.counterAt k))

/-- The label of `vk_end`. -/
def endLabel (co : Coroutine) : Nat := co.counterAt co.body.length

/-- The `k`th macro has the `case` for a counter. -/
def hasCase (co : Coroutine) (counter : Int) (k : Nat) : Bool :=
  match co.label k with
  | some n => (n : Int) == counter
  | none => false

/-- `switch (vk_get_counter(that))`. -/
def resume (co : Coroutine) (counter : Int) : Point :=
  if counter = -1 then .start
  else if counter = -2 then .finally
  else
    match (List.range co.body.length).find? (co.hasCase counter) with
    | some k => .after k
    | none => if counter = co.endLabel then .finished else .default

end Coroutine

/-- Who has raised an error: the coroutine itself, at its `k`th macro, or another or the
kernel, when it had last suspended at its macro `last`. -/
inductive Raiser where
  | itself (k : Nat)
  | other (last : Option Nat)
  deriving DecidableEq, Repr

/-- A thread's entry and its error, whether it runs, the macro at which it last
suspended, who raised the error it has, and whether it has been entered at `vk_finally`
for it. -/
structure CrThread where
  entry : Entry
  error : Errno
  running : Bool
  suspended : Option Nat
  raised : Option Raiser
  handling : Bool
  deriving DecidableEq, Repr

/-- What a thread does, or what is done to it.  A macro is named by its place.  `r` is
the number noted by a `vk_raise_at` somewhere; a signal interrupts the thread. -/
inductive CrAct where
  | ready
  | enter
  | yield (k : Nat) (status : ProcStat)
  | raise (k : Nat) (e : Errno)
  | raiseAt (r : Nat) (e : Errno)
  | signal (r : Nat) (e : Errno)
  | lower
  | finish
  deriving DecidableEq, Repr

namespace CrThread

/-- A thread after `vk_init`. -/
def init : CrThread := ⟨.init, 0, false, none, none, false⟩

/-- The thread returns, with `entry`. -/
def leave (entry : Entry) (s : CrThread) : CrThread := { s with entry := entry, running := false }

/-- An error is raised at the thread. -/
def raisedAt (r : Nat) (e : Errno) (s : CrThread) : CrThread :=
  { s.leave (s.entry.raiseAt r) with error := e, raised := some (.other s.suspended), handling := false }

/-- One step.  Which of its macros a thread gets to is its own affair; `vk_lower` is in
its `vk_finally`.  An error is raised by `vk_raise` only, not by a `vk_yield`, which does
not end the thread either. -/
def step (co : Coroutine) : CrAct → CrThread → Option CrThread
  | .ready, s => some { s with entry := s.entry.ready }
  | .enter, s =>
      if !s.running && s.entry.isReady then
        some { s with
          entry := s.entry.begin
          running := true
          handling := s.handling || s.entry.status == .err }
      else none
  | .yield k status, s =>
      match s.running, co.body[k]?, co.label k with
      | true, some .yield, some n =>
          if status = .err ∨ status = .ended then none
          else some { s.leave (s.entry.yield status n) with suspended := some k }
      | _, _, _ => none
  | .raise k e, s =>
      match s.running, co.body[k]?, co.label k with
      | true, some .raise, some n =>
          some { s.leave (s.entry.raise n) with
            error := e, suspended := some k, raised := some (.itself k), handling := false }
      | _, _, _ => none
  | .raiseAt r e, s => if s.running then none else some (s.raisedAt r e)
  | .signal r e, s => if s.running then some (s.raisedAt r e) else none
  | .lower, s =>
      if s.running && s.handling then
        some { s.leave s.entry.lower with error := 0, raised := none, handling := false }
      else none
  | .finish, s => if s.running then some (s.leave (s.entry.yield .ended co.endLabel)) else none

/-- Where the error a thread has was raised: at its own `vk_raise`, or where it last
suspended. -/
def due (s : CrThread) : Option Nat :=
  match s.raised with
  | some (.itself k) => some k
  | some (.other last) => last
  | none => none

/-- After `vk_lower` the thread, when it is entered again, goes on where it is due, and
it has no error. -/
structure Resumes (co : Coroutine) (s s' : CrThread) : Prop where
  point : ∃ k, s.due = some k ∧ co.resume s'.entry.begin.counter = .after k
  cleared : s'.error = 0
  ready : s'.entry.isReady = true

/-- The claim on a step. -/
def LowerResumes (co : Coroutine) (a : CrAct) (s : CrThread) : Prop :=
  a = .lower → ∀ s', step co .lower s = some s' → Resumes co s s'

/-- An error that was not raised by the thread itself comes with the label at which the
thread had last suspended. -/
def NotesLabel (co : Coroutine) (a : CrAct) (s : CrThread) : Prop :=
  a = .lower → s.running = true → s.handling = true →
    ∀ last, s.raised = some (.other last) →
      ∃ k n, last = some k ∧ co.label k = some n ∧ s.entry.errorCounter = n

end CrThread

/-! ## Labels -/

namespace Coroutine

variable {co : Coroutine} {j k n : Nat}

theorem counterAt_succ {x : Expansion} (h : co.body[k]? = some x) :
    co.counterAt (k + 1) = co.counterAt k + x.uses := by
  simp [counterAt, List.take_add_one, h, Nat.add_assoc]

theorem counterAt_le (hjk : j ≤ k) : co.counterAt j ≤ co.counterAt k := by
  induction hjk with
  | refl => exact Nat.le_refl _
  | @step k _ ih =>
      refine Nat.le_trans ih ?_
      cases hx : co.body[k]? with
      | none =>
          have hlen : co.body.length ≤ k := List.getElem?_eq_none_iff.mp hx
          rw [counterAt, counterAt, List.take_of_length_le hlen, List.take_of_length_le (by omega)]
      | some x =>
          rw [counterAt_succ hx]
          exact Nat.le_add_right _ _

/-- A label is one of the numbers that its macro counts. -/
theorem label_bounds (h : co.label k = some n) :
    k < co.body.length ∧ co.counterAt k ≤ n ∧ n < co.counterAt (k + 1) := by
  obtain ⟨x, hx, hlabel⟩ := Option.bind_eq_some_iff.mp h
  have hk := (List.getElem?_eq_some_iff.mp hx).1
  rw [counterAt_succ hx]
  cases x with
  | yield =>
      cases hlabel
      exact ⟨hk, Nat.le_refl _, by simp [Expansion.uses]⟩
  | raise =>
      cases hlabel
      exact ⟨hk, by omega, by simp [Expansion.uses]⟩
  | raiseAt => cases hlabel

/-- No two macros have one label. -/
theorem label_inj (hj : co.label j = some n) (hk : co.label k = some n) : j = k := by
  obtain ⟨-, hj₁, hj₂⟩ := label_bounds hj
  obtain ⟨-, hk₁, hk₂⟩ := label_bounds hk
  obtain hlt | heq | hlt := Nat.lt_trichotomy j k
  · have hle : co.counterAt (j + 1) ≤ co.counterAt k := counterAt_le hlt
    omega
  · exact heq
  · have hle : co.counterAt (k + 1) ≤ co.counterAt j := counterAt_le hlt
    omega

theorem hasCase_iff {counter : Int} : co.hasCase counter k = true ↔ ∃ n, co.label k = some n ∧ counter = n := by
  simp only [hasCase]
  cases co.label k with
  | none => exact ⟨nofun, fun ⟨n, hn, _⟩ => nomatch hn⟩
  | some n =>
      refine ⟨fun heq => ⟨n, rfl, (eq_of_beq heq).symm⟩, fun ⟨m, hm, heq⟩ => ?_⟩
      rw [heq, Option.some.inj hm]
      exact beq_self_eq_true _

/-- The switch goes on after a macro exactly from its label. -/
theorem resume_iff {counter : Int} :
    co.resume counter = .after k ↔ ∃ n, co.label k = some n ∧ counter = n := by
  constructor
  · intro h
    simp only [resume] at h
    split at h
    · cases h
    · split at h
      · cases h
      · split at h
        · next k' hfind =>
          cases h
          exact hasCase_iff.mp (List.find?_some hfind)
        · split at h <;> cases h
  · intro h
    obtain ⟨n, hn, rfl⟩ := h
    have hk := List.mem_range.mpr (label_bounds hn).1
    have hcase : co.hasCase n k = true := hasCase_iff.mpr ⟨n, hn, rfl⟩
    have hfind : (List.range co.body.length).find? (co.hasCase n) = some k := by
      cases hfound : (List.range co.body.length).find? (co.hasCase n) with
      | none => exact absurd hcase (List.find?_eq_none.mp hfound k hk)
      | some k' =>
          obtain ⟨m, hm, heq⟩ := hasCase_iff.mp (List.find?_some hfound)
          rw [← Int.ofNat_inj.mp heq] at hm
          rw [label_inj hm hn]
    simp only [resume]
    rw [if_neg (by omega), if_neg (by omega), hfind]

end Coroutine

/-! ## Runs -/

namespace CrThread

variable {co : Coroutine} {a : CrAct} {s s' : CrThread}

/-- An error of a thread's own comes with the label of its `vk_raise`, and what is
handled has been raised. -/
structure Good (co : Coroutine) (s : CrThread) : Prop where
  itself : ∀ k, s.raised = some (.itself k) → ∃ n, co.label k = some n ∧ s.entry.errorCounter = n
  handled : s.handling = true → s.raised ≠ none
  pending : s.entry.status = .err → s.raised ≠ none

theorem good_init (co : Coroutine) : Good co init := ⟨nofun, nofun, nofun⟩

theorem good_raisedAt (co : Coroutine) (r : Nat) (e : Errno) (s : CrThread) : Good co (s.raisedAt r e) :=
  ⟨nofun, nofun, fun _ => nofun⟩

/-- What neither raises nor deals with an error keeps the state good. -/
theorem Good.of_same (h : Good co s) (hraised : s'.raised = s.raised)
    (hcounter : s'.entry.errorCounter = s.entry.errorCounter)
    (hhandling : s'.handling = true → s.handling = true ∨ s.entry.status = .err)
    (hstatus : s'.entry.status = .err → s.entry.status = .err) : Good co s' := by
  refine ⟨fun k hk => ?_, fun hh => ?_, fun he => ?_⟩
  · rw [hraised] at hk
    rw [hcounter]
    exact h.itself k hk
  · rw [hraised]
    exact (hhandling hh).elim h.handled h.pending
  · rw [hraised]
    exact h.pending (hstatus he)

theorem Good.step (h : Good co s) (hst : CrThread.step co a s = some s') : Good co s' := by
  cases a with
  | ready =>
      obtain rfl := Option.some.inj hst
      refine h.of_same rfl ?_ Or.inl fun he => ?_
      · show (s.entry.ready).errorCounter = _
        simp only [Entry.ready]
        split
        · rfl
        · split <;> rfl
      · simp only [Entry.ready] at he
        split at he
        · exact he
        · split at he
          · exact he
          · cases he
  | enter =>
      simp only [CrThread.step] at hst
      split at hst
      · obtain rfl := Option.some.inj hst
        refine h.of_same rfl ?_ (fun hh => ?_) fun he => ?_
        · simp only [Entry.begin]
          split <;> rfl
        · simpa using hh
        · simp only [Entry.begin] at he
          split at he
          · cases he
          · exact he
      · cases hst
  | yield k status =>
      simp only [CrThread.step] at hst
      split at hst
      · split at hst
        · cases hst
        · rename_i hstatus
          obtain rfl := Option.some.inj hst
          exact h.of_same rfl rfl Or.inl fun he => absurd (Or.inl he) hstatus
      · cases hst
  | raise k e =>
      simp only [CrThread.step] at hst
      split at hst
      · rename_i n hrunning hbody hlabel
        obtain rfl := Option.some.inj hst
        refine ⟨fun j hj => ?_, nofun, fun _ => nofun⟩
        obtain rfl : k = j := Raiser.itself.inj (Option.some.inj hj)
        exact ⟨n, hlabel, rfl⟩
      · cases hst
  | raiseAt r e =>
      simp only [CrThread.step] at hst
      split at hst
      · cases hst
      · obtain rfl := Option.some.inj hst
        exact good_raisedAt co r e s
  | signal r e =>
      simp only [CrThread.step] at hst
      split at hst
      · obtain rfl := Option.some.inj hst
        exact good_raisedAt co r e s
      · cases hst
  | lower =>
      simp only [CrThread.step] at hst
      split at hst
      · obtain rfl := Option.some.inj hst
        exact ⟨nofun, nofun, nofun⟩
      · cases hst
  | finish =>
      simp only [CrThread.step] at hst
      split at hst
      · obtain rfl := Option.some.inj hst
        exact h.of_same rfl rfl Or.inl nofun
      · cases hst

/-- What `vk_lower` does in `vk_finally`. -/
theorem step_lower (hrunning : s.running = true) (hhandling : s.handling = true) :
    step co .lower s =
      some { s.leave s.entry.lower with error := 0, raised := none, handling := false } := by
  simp only [step, hrunning, hhandling, Bool.and_self, if_true]

/-- The label that was noted is the one after `vk_lower`. -/
theorem begin_lower (s : CrThread) : (s.leave s.entry.lower).entry.begin.counter = s.entry.errorCounter :=
  rfl

theorem lowerResumes_iff (h : Good co s) : LowerResumes co a s ↔ NotesLabel co a s := by
  constructor
  · intro hresumes ha hrunning hhandling last hlast
    obtain ⟨⟨k, hdue, hpoint⟩, -, -⟩ := hresumes ha _ (step_lower hrunning hhandling)
    obtain ⟨n, hn, hcounter⟩ := Coroutine.resume_iff.mp hpoint
    refine ⟨k, n, ?_, hn, (begin_lower s).symm.trans hcounter⟩
    rw [due, hlast] at hdue
    exact hdue
  · intro hnotes ha s' hst
    simp only [step] at hst
    split at hst
    · rename_i hin
      obtain ⟨hrunning, hhandling⟩ := Bool.and_eq_true_iff.mp hin
      obtain rfl := Option.some.inj hst
      have hlabel : ∃ k n, s.due = some k ∧ co.label k = some n ∧ s.entry.errorCounter = n := by
        cases hraised : s.raised with
        | none => exact absurd hraised (h.handled hhandling)
        | some raiser =>
            cases raiser with
            | itself k =>
                obtain ⟨n, hn, hcounter⟩ := h.itself k hraised
                exact ⟨k, n, by rw [due, hraised], hn, hcounter⟩
            | other last =>
                obtain ⟨k, n, hk, hn, hcounter⟩ := hnotes ha hrunning hhandling last hraised
                exact ⟨k, n, by rw [due, hraised, hk], hn, hcounter⟩
      obtain ⟨k, n, hdue, hn, hcounter⟩ := hlabel
      exact ⟨⟨k, hdue, Coroutine.resume_iff.mpr ⟨n, hn, (begin_lower s).trans hcounter⟩⟩, rfl, rfl⟩
    · cases hst

/-- In every run of a thread, whatever is raised at it and by whom, each `vk_lower` goes
on where it is to, with the error cleared, if and only if each error that the thread did
not raise itself came with the label at which the thread had last suspended. -/
theorem lower_resumes_iff (co : Coroutine) (as : List CrAct) :
    Meets (step co) (LowerResumes co) as init ↔ Meets (step co) (NotesLabel co) as init :=
  Meets.congr (I := Good co) (fun _ _ _ h _ hst => h.step hst) (fun _ _ h => lowerResumes_iff h) (good_init co)

/-- What `vk_proc_local_raise_signal` notes: it has the first `__COUNTER__` of its file. -/
def signalCounter : Nat := Expansion.raiseAtCounter 0

/-- A coroutine that has, after the `vk_calloc` of its `vk_begin`, two yields. -/
def twoYields : Coroutine := ⟨0, [.raise, .yield, .yield]⟩

/-- It waits at the first yield, is entered again, and a signal interrupts it. -/
def interruptedActs : List CrAct :=
  [.enter, .yield 1 .wait, .ready, .enter, .signal signalCounter Errno.EFAULT, .enter, .lower]

/-- It is entered after the `vk_calloc` of its `vk_begin`, not at its yield. -/
theorem signal_restarts :
    ¬ ∀ (co : Coroutine) (as : List CrAct), Meets (step co) (LowerResumes co) as init := by
  intro h
  have hmeets := h twoYields interruptedActs
  have hlower := hmeets.2 _ rfl |>.2 _ rfl |>.2 _ rfl |>.2 _ rfl |>.2 _ rfl |>.2 _ rfl |>.1
  obtain ⟨⟨k, hdue, hpoint⟩, -, -⟩ := hlower rfl _ rfl
  have hk : k = 1 := (Option.some.inj hdue).symm
  subst hk
  revert hpoint
  decide

/-- By the numbers of other files it goes on anywhere: after its other yield, at its end,
at no label of its. -/
example : twoYields.resume (Expansion.raiseAtCounter 4) = .after 2 ∧
    twoYields.resume (Expansion.raiseAtCounter 6) = .finished ∧
    twoYields.resume (Expansion.raiseAtCounter 7) = .default := by decide

end CrThread

end Vk

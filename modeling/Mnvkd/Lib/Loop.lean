/-
# `Lib.Loop` — loops that are left in the middle and resumed

The loop of a coroutine is a `while` whose body may leave the coroutine until
something has happened and come back to the same place.  One turn tests,
runs the body, and then either leaves the loop, waits, or goes round again
(`Loop.turn`).

`drive` runs a loop against a list of deliveries: what happens to the state
each time the loop waits.  It counts turns, so a loop that goes round forever
without waiting is still `running` after any number of them.

    drive_add          a drive that still runs goes on from where it stands
    drive_invariant    what the body and the deliveries preserve holds throughout
    drive_mono         a loop that has returned has returned for good
    drive_unique       a drive comes to one end only
    halts_of_...       where a loop that takes one turn more ends
-/
import Mathlib.Data.List.Basic
import Mathlib.Tactic.Common

namespace Lib

universe u v

/-- A loop over states `σ`: the test, the body, and what is asked after it. -/
structure Loop (σ : Type u) where
  test : σ → Bool
  body : σ → σ
  fails : σ → Bool
  leaves : σ → Bool
  waits : σ → Bool

/-- How one turn of a loop ends. -/
inductive Turn (σ : Type u) where
  | done (s : σ)
  | again (s : σ)
  | wait (s : σ)
  | raise (s : σ)

/-- The state a turn leaves. -/
def Turn.state {σ : Type u} : Turn σ → σ
  | .done s | .again s | .wait s | .raise s => s

/-- The turn ends in a wait. -/
def Turn.isWait {σ : Type u} : Turn σ → Bool
  | .wait _ => true
  | .done _ | .again _ | .raise _ => false

/-- The turns end the same way, in states that `R` relates. -/
inductive Turn.Rel {σ : Type u} (R : σ → σ → Prop) : Turn σ → Turn σ → Prop where
  | done {s s' : σ} (h : R s s') : Turn.Rel R (.done s) (.done s')
  | again {s s' : σ} (h : R s s') : Turn.Rel R (.again s) (.again s')
  | wait {s s' : σ} (h : R s s') : Turn.Rel R (.wait s) (.wait s')
  | raise {s s' : σ} (h : R s s') : Turn.Rel R (.raise s) (.raise s')

namespace Loop

variable {σ : Type u} {α : Type v} (l : Loop σ)

/-- One turn. -/
def turn (s : σ) : Turn σ :=
  if l.test s then
    if l.fails (l.body s) then .raise (l.body s)
    else if l.leaves (l.body s) then .done (l.body s)
    else if l.waits (l.body s) then .wait (l.body s)
    else .again (l.body s)
  else .done s

theorem turn_of_not_test {s : σ} (h : l.test s = false) : l.turn s = .done s := by
  simp [turn, h]

/-- The five ways a turn may go. -/
inductive Turned (s : σ) : Turn σ → Prop where
  | left (htest : l.test s = false) : Turned s (.done s)
  | failed (htest : l.test s = true) (hfails : l.fails (l.body s) = true) :
      Turned s (.raise (l.body s))
  | done (htest : l.test s = true) (hfails : l.fails (l.body s) = false)
      (hleaves : l.leaves (l.body s) = true) : Turned s (.done (l.body s))
  | wait (htest : l.test s = true) (hfails : l.fails (l.body s) = false)
      (hleaves : l.leaves (l.body s) = false) (hwaits : l.waits (l.body s) = true) :
      Turned s (.wait (l.body s))
  | again (htest : l.test s = true) (hfails : l.fails (l.body s) = false)
      (hleaves : l.leaves (l.body s) = false) (hwaits : l.waits (l.body s) = false) :
      Turned s (.again (l.body s))

theorem turned (s : σ) : l.Turned s (l.turn s) := by
  unfold turn
  split
  · split
    · exact .failed ‹_› ‹_›
    · split
      · exact .done ‹_› (by simpa using ‹¬l.fails _ = true›) ‹_›
      · split
        · exact .wait ‹_› (by simpa using ‹¬l.fails _ = true›)
            (by simpa using ‹¬l.leaves _ = true›) ‹_›
        · exact .again ‹_› (by simpa using ‹¬l.fails _ = true›)
            (by simpa using ‹¬l.leaves _ = true›) (by simpa using ‹¬l.waits _ = true›)
  · exact .left (by simpa using ‹¬l.test s = true›)

/-- A turn that waits has run the body, which neither failed nor left. -/
theorem turn_eq_wait {s s' : σ} : l.turn s = .wait s' ↔
    l.test s = true ∧ s' = l.body s ∧ l.fails s' = false ∧ l.leaves s' = false ∧
      l.waits s' = true := by
  unfold turn
  constructor
  · intro h
    split at h
    · split at h
      · cases h
      · split at h
        · cases h
        · split at h
          · cases h
            exact ⟨‹_›, rfl, by simpa using ‹¬l.fails _ = true›, by simpa using ‹¬l.leaves _ = true›,
              ‹_›⟩
          · cases h
    · cases h
  · rintro ⟨h₁, rfl, h₂, h₃, h₄⟩
    simp [h₁, h₂, h₃, h₄]

/-- A turn goes the same way where the tests come out the same, before the body and
behind it. -/
theorem turn_rel {l : Loop σ} {R : σ → σ → Prop} {s s' : σ} (hR : R s s')
    (hbody : R (l.body s) (l.body s')) (htest : l.test s' = l.test s)
    (hfails : l.fails (l.body s') = l.fails (l.body s))
    (hleaves : l.leaves (l.body s') = l.leaves (l.body s))
    (hwaits : l.waits (l.body s') = l.waits (l.body s)) : (l.turn s).Rel R (l.turn s') := by
  unfold Loop.turn
  rw [htest, hfails, hleaves, hwaits]
  split
  · split
    · exact .raise hbody
    · split
      · exact .done hbody
      · split
        · exact .wait hbody
        · exact .again hbody
  · exact .done hR

/-- A loop on one part of a larger state. -/
def focus {τ : Type v} (l : Loop σ) (part : τ → σ) (put : σ → τ → τ) : Loop τ where
  test x := l.test (part x)
  body x := put (l.body (part x)) x
  fails x := l.fails (part x)
  leaves x := l.leaves (part x)
  waits x := l.waits (part x)

/-- Where a driven loop stands. -/
inductive Drive (σ : Type u) (α : Type v) where
  | running (s : σ) (as : List α)
  | waiting (s : σ)
  | returned (s : σ) (as : List α)
  | raised (s : σ) (as : List α)

/-- The state of a driven loop, wherever it stands. -/
def Drive.state : Drive σ α → σ
  | .running s _ | .waiting s | .returned s _ | .raised s _ => s

variable (deliver : α → σ → σ)

/-- At most `n` turns, each wait ended by the next delivery. -/
def drive : Nat → σ → List α → Drive σ α
  | 0, s, as => .running s as
  | n + 1, s, as =>
      match l.turn s with
      | .done s' => .returned s' as
      | .raise s' => .raised s' as
      | .again s' => drive n s' as
      | .wait s' =>
          match as with
          | [] => .waiting s'
          | a :: as => drive n (deliver a s') as

variable {l deliver}

/-- A turn leaves the state alone or runs the body once. -/
theorem turn_state (s : σ) : (l.turn s).state = if l.test s then l.body s else s := by
  unfold turn
  split
  · split
    · rfl
    · split
      · rfl
      · split <;> rfl
  · rfl

/-- A drive that still runs goes on from where it stands. -/
theorem drive_add {n : Nat} {s t : σ} {as bs : List α}
    (h : l.drive deliver n s as = .running t bs) (k : Nat) :
    l.drive deliver (n + k) s as = l.drive deliver k t bs := by
  induction n generalizing s as with
  | zero => cases h; rw [Nat.zero_add]
  | succ n ih =>
      rw [Nat.succ_add, drive]
      rw [drive] at h
      cases hturn : l.turn s with
      | done t => simp [hturn] at h
      | raise t => simp [hturn] at h
      | again t => rw [hturn] at h; exact ih h
      | wait t =>
          rw [hturn] at h
          cases as with
          | nil => simp at h
          | cons a as => exact ih h

/-- What the deliveries preserve, and the body in every turn taken, holds after
any number of turns. -/
theorem drive_invariant {I : σ → Prop} {s : σ} {as : List α}
    (hbody : ∀ n t bs, l.drive deliver n s as = .running t bs → I t → l.test t = true →
      I (l.body t))
    (hdeliver : ∀ a s, I s → I (deliver a s)) (hs : I s) (n : Nat) :
    I (l.drive deliver n s as).state := by
  induction n generalizing s as with
  | zero => exact hs
  | succ n ih =>
      have hturn : I (l.turn s).state := by
        rw [turn_state]
        split
        · exact hbody 0 s as rfl hs ‹_›
        · exact hs
      have hnext : ∀ t bs, l.drive deliver 1 s as = .running t bs → I t →
          I (l.drive deliver n t bs).state := fun t bs h1 ht => by
        refine ih (fun k u cs hk => hbody (1 + k) u cs ?_) ht
        rw [drive_add h1, hk]
      rw [drive]
      cases h : l.turn s with
      | done t => rw [h] at hturn; exact hturn
      | raise t => rw [h] at hturn; exact hturn
      | again t =>
          rw [h] at hturn
          exact hnext t as (by simp [drive, h]) hturn
      | wait t =>
          rw [h] at hturn
          cases as with
          | nil => exact hturn
          | cons a as => exact hnext _ as (by simp [drive, h]) (hdeliver a t hturn)

/-- A drive that has come to an end stays there. -/
theorem drive_stops {n : Nat} {s : σ} {as : List α} {d : Drive σ α}
    (h : l.drive deliver n s as = d) (hd : ∀ t bs, d ≠ .running t bs) (k : Nat) :
    l.drive deliver (n + k) s as = d := by
  induction n generalizing s as with
  | zero => exact absurd h.symm (hd s as)
  | succ n ih =>
      rw [Nat.succ_add, drive]
      rw [drive] at h
      cases hturn : l.turn s with
      | done t => simpa [hturn] using h
      | raise t => simpa [hturn] using h
      | again t =>
          rw [hturn] at h
          exact ih h
      | wait t =>
          rw [hturn] at h
          cases as with
          | nil => simpa using h
          | cons a as => exact ih h

/-- A loop that has returned has returned for good. -/
theorem drive_mono {n k : Nat} {s s' : σ} {as as' : List α}
    (h : l.drive deliver n s as = .returned s' as') :
    l.drive deliver (n + k) s as = .returned s' as' := drive_stops h nofun k

/-- A drive comes to one end only. -/
theorem drive_unique {n k : Nat} {s : σ} {as : List α} {d e : Drive σ α}
    (h : l.drive deliver n s as = d) (hd : ∀ t bs, d ≠ .running t bs)
    (h' : l.drive deliver k s as = e) (he : ∀ t bs, e ≠ .running t bs) : d = e := by
  rw [← drive_stops h hd k, Nat.add_comm]
  exact drive_stops h' he n

/-! ## Halting -/

variable (l deliver) in
/-- The driven loop returns, in a state and with deliveries left that satisfy
`P`. -/
def Halts (P : σ → List α → Prop) (s : σ) (as : List α) : Prop :=
  ∃ n t bs, l.drive deliver n s as = .returned t bs ∧ P t bs

variable {P : σ → List α → Prop} {s t : σ} {as : List α}

theorem halts_of_done (h : l.turn s = .done t) : Halts l deliver P s as ↔ P t as := by
  have hret : ∀ n, l.drive deliver (n + 1) s as = .returned t as := fun n => by rw [drive, h]
  constructor
  · rintro ⟨n, u, bs, hn, hP⟩
    have hn := drive_mono (k := 1) hn
    rw [hret] at hn
    cases hn
    exact hP
  · exact fun hP => ⟨1, t, as, hret 0, hP⟩

theorem halts_of_again (h : l.turn s = .again t) :
    Halts l deliver P s as ↔ Halts l deliver P t as := by
  have hdrive : ∀ n, l.drive deliver (n + 1) s as = l.drive deliver n t as := fun n => by
    rw [drive, h]
  constructor
  · rintro ⟨n, u, bs, hn, hP⟩
    have hn := drive_mono (k := 1) hn
    rw [hdrive] at hn
    exact ⟨n, u, bs, hn, hP⟩
  · rintro ⟨n, u, bs, hn, hP⟩
    exact ⟨n + 1, u, bs, by rw [hdrive]; exact hn, hP⟩

theorem halts_of_wait {a : α} (h : l.turn s = .wait t) :
    Halts l deliver P s (a :: as) ↔ Halts l deliver P (deliver a t) as := by
  have hdrive : ∀ n, l.drive deliver (n + 1) s (a :: as) = l.drive deliver n (deliver a t) as :=
    fun n => by rw [drive, h]
  constructor
  · rintro ⟨n, u, bs, hn, hP⟩
    have hn := drive_mono (k := 1) hn
    rw [hdrive] at hn
    exact ⟨n, u, bs, hn, hP⟩
  · rintro ⟨n, u, bs, hn, hP⟩
    exact ⟨n + 1, u, bs, by rw [hdrive]; exact hn, hP⟩

/-- A loop whose every turn from some states goes round to such a state again
never returns. -/
theorem not_halts_of_spin {I : σ → Prop} (h : ∀ s, I s → ∃ t, l.turn s = .again t ∧ I t)
    (hs : I s) : ¬Halts l deliver P s as := by
  rintro ⟨n, u, bs, hn, -⟩
  induction n generalizing s with
  | zero => cases hn
  | succ n ih =>
      obtain ⟨t, ht, hI⟩ := h s hs
      rw [drive, ht] at hn
      exact ih hI hn

/-- A turn whose body does not fail. -/
theorem turn_of_test (ht : l.test s = true) (hf : l.fails (l.body s) = false) :
    l.turn s = if l.leaves (l.body s) then .done (l.body s)
      else if l.waits (l.body s) then .wait (l.body s)
      else .again (l.body s) := by
  simp [turn, ht, hf]

end Loop

end Lib

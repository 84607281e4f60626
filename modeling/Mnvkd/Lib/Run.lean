/-
# `Lib.Run` — runs of a partial step function

A system is a partial step function: `step a s` is the state action `a` leads
to from `s`, or `none` where the action is not enabled.  A run is a list of
actions taken one after the other.

    run_induction      what every step preserves holds after every run
    run_of_meets       the same, for a run all of whose steps meet a condition
    foldl_invariant    what a fold keeps of what it has and what is to come
    run_lockstep       states that stay related through the same actions
    run_queue          what goes into a queue comes out of it in order
    run_simulates      a run shows what a run of the system it refines shows
-/
import Mathlib.Data.List.Basic

namespace Lib

universe u v w x y

variable {α : Type u} {σ : Type v} (step : α → σ → Option σ)

/-- Take the actions in order. -/
def run : List α → σ → Option σ
  | [], s => some s
  | a :: as, s => (step a s).bind (run as)

@[simp] theorem run_nil (s : σ) : run step [] s = some s := rfl

theorem run_cons {a : α} {as : List α} {s s' : σ} :
    run step (a :: as) s = some s' ↔ ∃ t, step a s = some t ∧ run step as t = some s' :=
  Option.bind_eq_some_iff

/-- Two runs end to end are one run. -/
theorem run_append (as bs : List α) (s : σ) :
    run step (as ++ bs) s = (run step as s).bind (run step bs) := by
  induction as generalizing s with
  | nil => rfl
  | cons a as ih =>
      show (step a s).bind (run step (as ++ bs)) = ((step a s).bind (run step as)).bind _
      rw [Option.bind_assoc]
      congr 1
      funext t
      exact ih t

variable {step}

/-- What every step preserves holds after every run. -/
theorem run_induction {I : σ → Prop} (h : ∀ a s s', I s → step a s = some s' → I s')
    {as : List α} {s s' : σ} (hs : I s) (hrun : run step as s = some s') : I s' := by
  induction as generalizing s with
  | nil => cases hrun; exact hs
  | cons a as ih =>
      obtain ⟨t, ht, hrun⟩ := (run_cons step).mp hrun
      exact ih (h a s t hs ht) hrun

/-- Two runs of the same actions go the same way, through states that stay
related. -/
theorem run_lockstep {R : σ → σ → Prop}
    (h : ∀ a s s', R s s' → Option.Rel R (step a s) (step a s')) (as : List α) {s s' : σ}
    (hR : R s s') : Option.Rel R (run step as s) (run step as s') := by
  induction as generalizing s s' with
  | nil => exact .some hR
  | cons a as ih =>
      have hstep := h a s s' hR
      show Option.Rel R ((step a s).bind (run step as)) ((step a s').bind (run step as))
      generalize step a s = t at hstep ⊢
      generalize step a s' = t' at hstep ⊢
      cases hstep with
      | none => exact .none
      | some ht => exact ih ht

/-- What no step of a fold changes, the fold does not change. -/
theorem foldl_unchanged {ι : Type w} {γ : Type x} (g : σ → γ) {f : σ → ι → σ}
    (h : ∀ s i, g (f s i) = g s) (is : List ι) (s : σ) : g (is.foldl f s) = g s := by
  induction is generalizing s with
  | nil => rfl
  | cons i is ih => exact (ih (f s i)).trans (h s i)

/-- An invariant of a fold, which tells of what is still to come as well. -/
theorem foldl_invariant {ι : Type w} {f : σ → ι → σ} {I : List ι → σ → Prop}
    (h : ∀ i is s, I (i :: is) s → I is (f s i)) {is : List ι} {s : σ} (hs : I is s) :
    I [] (is.foldl f s) := by
  induction is generalizing s with
  | nil => exact hs
  | cons i is ih => exact ih (h i is s hs)

/-! ## Runs whose steps meet a condition -/

variable (step) in
/-- Every step taken from `s` along the actions meets `C`. -/
def Meets (C : α → σ → Prop) : List α → σ → Prop
  | [], _ => True
  | a :: as, s => C a s ∧ ∀ t, step a s = some t → Meets C as t

theorem Meets.of_forall {C : α → σ → Prop} (h : ∀ a s, C a s) (as : List α) (s : σ) :
    Meets step C as s := by
  induction as generalizing s with
  | nil => trivial
  | cons a as ih => exact ⟨h a s, fun t _ => ih t⟩

theorem Meets.mono {C D : α → σ → Prop} (h : ∀ a s, C a s → D a s) {as : List α} {s : σ}
    (hC : Meets step C as s) : Meets step D as s := by
  induction as generalizing s with
  | nil => trivial
  | cons a as ih => exact ⟨h a s hC.1, fun t ht => ih (hC.2 t ht)⟩

theorem Meets.and {C D : α → σ → Prop} {as : List α} {s : σ} (hC : Meets step C as s)
    (hD : Meets step D as s) : Meets step (fun a s => C a s ∧ D a s) as s := by
  induction as generalizing s with
  | nil => trivial
  | cons a as ih => exact ⟨⟨hC.1, hD.1⟩, fun t ht => ih (hC.2 t ht) (hD.2 t ht)⟩

/-- Whether a run meets a condition can be computed where the condition can. -/
instance decidableMeets {C : α → σ → Prop} [∀ a s, Decidable (C a s)] :
    (as : List α) → (s : σ) → Decidable (Meets step C as s)
  | [], _ => .isTrue trivial
  | a :: as, s =>
      match h : step a s with
      | none =>
          decidable_of_iff (C a s)
            ⟨fun hC => ⟨hC, fun t ht => by rw [h] at ht; cases ht⟩, And.left⟩
      | some t =>
          have : Decidable (Meets step C as t) := decidableMeets as t
          decidable_of_iff (C a s ∧ Meets step C as t)
            ⟨fun hC => ⟨hC.1, fun u hu => by rw [h] at hu; cases hu; exact hC.2⟩,
              fun hC => ⟨hC.1, hC.2 t h⟩⟩

/-- What every step meeting `C` preserves holds after every run whose steps all
meet `C`. -/
theorem run_of_meets {C : α → σ → Prop} {I : σ → Prop}
    (h : ∀ a s s', I s → C a s → step a s = some s' → I s')
    {as : List α} {s s' : σ} (hs : I s) (hC : Meets step C as s)
    (hrun : run step as s = some s') : I s' := by
  induction as generalizing s with
  | nil => cases hrun; exact hs
  | cons a as ih =>
      obtain ⟨t, ht, hrun⟩ := (run_cons step).mp hrun
      exact ih (h a s t hs hC.1 ht) (hC.2 t ht) hrun

/-- A run that meets a condition meets it wherever it gets to. -/
theorem Meets.of_run {C : α → σ → Prop} {as bs : List α} {a : α} {s t : σ}
    (h : Meets step C (as ++ a :: bs) s) (hrun : run step as s = some t) : C a t := by
  induction as generalizing s with
  | nil =>
      cases hrun
      exact h.1
  | cons b as ih =>
      obtain ⟨u, hu, hrun⟩ := (run_cons step).mp hrun
      exact ih (h.2 u hu) hrun

/-- A run whose steps meet `C`, which preserve `I`, meets what follows from both. -/
theorem Meets.imp {C D : α → σ → Prop} {I : σ → Prop}
    (h : ∀ a s s', I s → C a s → step a s = some s' → I s') (hD : ∀ a s, I s → C a s → D a s)
    {as : List α} {s : σ} (hs : I s) (hC : Meets step C as s) : Meets step D as s := by
  induction as generalizing s with
  | nil => trivial
  | cons a as ih => exact ⟨hD a s hs hC.1, fun t ht => ih (h a s t hs hC.1 ht) (hC.2 t ht)⟩

/-- Two conditions that agree where `I` holds, which every step meeting the second
preserves, are met by the same runs. -/
theorem Meets.congr {C D : α → σ → Prop} {I : σ → Prop}
    (h : ∀ a s s', I s → C a s → step a s = some s' → I s') (hiff : ∀ a s, I s → (D a s ↔ C a s))
    {as : List α} {s : σ} (hs : I s) : Meets step D as s ↔ Meets step C as s :=
  ⟨Meets.imp (fun a s s' hs hD => h a s s' hs ((hiff a s hs).mp hD))
      (fun a s hs => (hiff a s hs).mp) hs,
    Meets.imp h (fun a s hs => (hiff a s hs).mpr) hs⟩

/-! ## Observations and refinement -/

section Refinement

variable {β : Type w} {τ : Type x} {γ : Type y} (obs : α → σ → List γ)

variable (step) in
/-- What is observed along a run. -/
def trace : List α → σ → List γ
  | [], _ => []
  | a :: as, s => obs a s ++ ((step a s).map (trace as)).getD []

theorem trace_cons {a : α} {s t : σ} (as : List α) (h : step a s = some t) :
    trace step obs (a :: as) s = obs a s ++ trace step obs as t := by
  simp [trace, h]

/-- What goes into a queue comes out of it in order.  `queue` is what a state holds,
`ins` what a step puts in at the back, `outs` what it takes out at the front. -/
theorem run_queue {C : α → σ → Prop} {I : σ → Prop} (queue : σ → List γ) {ins outs : α → σ → List γ}
    (h : ∀ a s s', I s → C a s → step a s = some s' → I s')
    (hqueue : ∀ a s s', I s → C a s → step a s = some s' →
      queue s ++ ins a s = outs a s ++ queue s')
    {as : List α} {s s' : σ} (hs : I s) (hC : Meets step C as s) (hrun : run step as s = some s') :
    queue s ++ trace step ins as s = trace step outs as s ++ queue s' := by
  induction as generalizing s with
  | nil =>
      cases hrun
      simp [trace]
  | cons a as ih =>
      obtain ⟨t, ht, hrun⟩ := (run_cons step).mp hrun
      have hrest := ih (h a s t hs hC.1 ht) (hC.2 t ht) hrun
      rw [trace_cons ins as ht, trace_cons outs as ht, ← List.append_assoc, hqueue a s t hs hC.1 ht,
        List.append_assoc, hrest, List.append_assoc]

/-- What each step adds to a count by what it shows, a run adds by all it shows. -/
theorem run_length {C : α → σ → Prop} {I : σ → Prop} (count : σ → Nat)
    (h : ∀ a s s', I s → C a s → step a s = some s' → I s')
    (hcount : ∀ a s s', I s → C a s → step a s = some s' → count s' = count s + (obs a s).length)
    {as : List α} {s s' : σ} (hs : I s) (hC : Meets step C as s) (hrun : run step as s = some s') :
    count s' = count s + (trace step obs as s).length := by
  induction as generalizing s with
  | nil =>
      cases hrun
      rfl
  | cons a as ih =>
      obtain ⟨t, ht, hrun⟩ := (run_cons step).mp hrun
      rw [ih (h a s t hs hC.1 ht) (hC.2 t ht) hrun, hcount a s t hs hC.1 ht, trace_cons obs as ht,
        List.length_append, Nat.add_assoc]

/-- If each step is matched by events of another system that show what the step
shows and keep the two states related, then so is a whole run.  `vis` is what an
event shows; an event that shows nothing is internal. -/
theorem run_simulates {astep : β → τ → Option τ} {v : β → List γ} {R : σ → τ → Prop}
    {C : α → σ → Prop}
    (h : ∀ a s s' t, R s t → C a s → step a s = some s' →
      ∃ es t', run astep es t = some t' ∧ es.flatMap v = obs a s ∧ R s' t')
    {as : List α} {s s' : σ} {t : τ} (hR : R s t) (hC : Meets step C as s)
    (hrun : run step as s = some s') :
    ∃ es t', run astep es t = some t' ∧ es.flatMap v = trace step obs as s ∧ R s' t' := by
  induction as generalizing s t with
  | nil => cases hrun; exact ⟨[], t, rfl, rfl, hR⟩
  | cons a as ih =>
      obtain ⟨s₁, hs₁, hrun⟩ := (run_cons step).mp hrun
      obtain ⟨es₁, t₁, ht₁, hvis₁, hR₁⟩ := h a s s₁ t hR hC.1 hs₁
      obtain ⟨es, t', ht', hvis, hR'⟩ := ih hR₁ (hC.2 s₁ hs₁) hrun
      refine ⟨es₁ ++ es, t', ?_, ?_, hR'⟩
      · rw [run_append, ht₁]
        exact ht'
      · rw [trace_cons obs as hs₁, List.flatMap_append, hvis₁, hvis]

end Refinement

end Lib

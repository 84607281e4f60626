/-
# `Mnvkd.IsolateTrap` — which traps are answered

The handler of a trapped system call hands over to the scheduler, and a flag keeps it
from being entered twice.  Only its return clears the flag.  The scheduler runs within
it, and a signal that jumps to where the scheduler set out from jumps out of it.  From
then on no trap is answered: the call is not made, and the actor goes on in its window
(`trap_answered_iff`).
-/
import Mnvkd.IsolateWindow

namespace Vk.Isolate

variable {pgsz : Nat}

namespace Worker

/-- The handler is entered once at most, with its flag set and its signal blocked. -/
structure Handles (w : Worker) : Prop where
  blocked : w.sigsysBlocked = true ↔ .handler ∈ w.frames
  flagged : .handler ∈ w.frames → w.inSigsysHandler = true
  once : w.frames.count .handler ≤ 1

/-- The flag of the handler is set, and the handler is not there to clear it. -/
def Deaf (w : Worker) : Prop := w.inSigsysHandler = true ∧ .handler ∉ w.frames

/-- Functions that are called or return, of which none is the handler. -/
theorem Handles.of_frames {w w' : Worker} (h : w.Handles)
    (hcount : w'.frames.count .handler = w.frames.count .handler)
    (hflag : w'.inSigsysHandler = w.inSigsysHandler)
    (hblocked : w'.sigsysBlocked = w.sigsysBlocked) :
    w'.Handles ∧ (.handler ∈ w'.frames ↔ .handler ∈ w.frames) := by
  have hmem : Frame.handler ∈ w'.frames ↔ Frame.handler ∈ w.frames := by
    rw [← List.count_pos_iff, ← List.count_pos_iff, hcount]
  refine ⟨⟨?_, fun hin => hflag.trans (h.flagged (hmem.mp hin)), hcount ▸ h.once⟩, hmem⟩
  rw [hblocked, hmem]
  exact h.blocked

/-- What a step does to the handler and its flag. -/
structure Kept (w w' : Worker) (op : Op) : Prop where
  handles : w'.Handles
  deaf : w'.Deaf ↔ w.Deaf ∨ (∃ vk, op = .signal vk) ∧ .handler ∈ w.frames

/-- A step that is no signal, and calls no handler and returns from none. -/
theorem kept_of_frames {w w' : Worker} {op : Op} (h : w.Handles) (hop : ∀ vk, op ≠ .signal vk)
    (hcount : w'.frames.count .handler = w.frames.count .handler)
    (hflag : w'.inSigsysHandler = w.inSigsysHandler)
    (hblocked : w'.sigsysBlocked = w.sigsysBlocked) : w.Kept w' op := by
  obtain ⟨hhandles, hmem⟩ := h.of_frames hcount hflag hblocked
  refine ⟨hhandles, ?_⟩
  unfold Deaf
  rw [hflag, hmem]
  exact ⟨Or.inl, fun hor => hor.resolve_right fun hsig => hsig.1.elim fun vk => hop vk⟩

theorem handOff_count (w : Worker) (iso : Iso) :
    (w.handOff iso).frames.count .handler = w.frames.count .handler := by
  unfold handOff
  split
  · exact List.count_cons_of_ne (by decide)
  · rfl

theorem handOff_flags (w : Worker) (iso : Iso) :
    (w.handOff iso).inSigsysHandler = w.inSigsysHandler ∧
      (w.handOff iso).sigsysBlocked = w.sigsysBlocked := by
  unfold handOff
  split <;> exact ⟨rfl, rfl⟩

theorem yield_count (pgsz : Nat) (w : Worker) (vk : Nat) (iso : Iso) :
    (w.yield pgsz vk iso).frames.count .handler = w.frames.count .handler := by
  unfold yield
  split
  · exact handOff_count ..
  · exact handOff_count ..

theorem yield_flags (pgsz : Nat) (w : Worker) (vk : Nat) (iso : Iso) :
    (w.yield pgsz vk iso).inSigsysHandler = w.inSigsysHandler ∧
      (w.yield pgsz vk iso).sigsysBlocked = w.sigsysBlocked := by
  unfold yield
  split
  · exact handOff_flags ..
  · exact handOff_flags ..

/-- A trap that is delivered was not blocked. -/
theorem not_blocked_of_traps {w : Worker} {pc : Nat} (h : w.verdict pc = .traps) :
    w.sigsysBlocked = false := by
  unfold verdict at h
  cases hblocked : w.sigsysBlocked with
  | false => rfl
  | true =>
      rw [hblocked] at h
      split at h
      · cases h
      · split at h
        · cases h
        · split at h <;> cases h

theorem ret_kept {w w' : Worker} (h : w.Handles) (hstep : w.ret pgsz = some w') :
    w.Kept w' .ret := by
  unfold ret at hstep
  cases hframes : w.frames with
  | nil =>
      rw [hframes] at hstep
      cases hstep
  | cons f fs =>
      rw [hframes] at hstep
      cases f with
      | actor vk =>
          have htail : fs.count .handler = w.frames.count .handler := by
            rw [hframes, List.count_cons_of_ne Frame.noConfusion]
          dsimp only at hstep
          split at hstep
          next =>
            obtain ⟨iso, hiso, rfl⟩ := Option.map_eq_some_iff.mp hstep
            exact kept_of_frames h (fun _ => Op.noConfusion) ((yield_count ..).trans htail)
              (yield_flags ..).1 (yield_flags ..).2
          next =>
            obtain rfl := Option.some.inj hstep
            exact kept_of_frames h (fun _ => Op.noConfusion) htail rfl rfl
      | callback =>
          obtain rfl := Option.some.inj hstep
          refine kept_of_frames h (fun _ => Op.noConfusion) ?_ rfl rfl
          rw [hframes, List.count_cons_of_ne (by decide)]
      | handler =>
          obtain rfl := Option.some.inj hstep
          have hcount := h.once
          rw [hframes, List.count_cons_self] at hcount
          have hnone : Frame.handler ∉ fs := List.count_eq_zero.mp (by omega)
          refine ⟨⟨⟨fun hb => absurd hb Bool.false_ne_true, fun hin => absurd hin hnone⟩,
            fun hin => absurd hin hnone, by show fs.count .handler ≤ 1; omega⟩, ?_⟩
          refine ⟨fun hdeaf => absurd hdeaf.1 Bool.false_ne_true, fun hor => ?_⟩
          rcases hor with hdeaf | ⟨⟨_, hop⟩, _⟩
          · exact absurd (hframes ▸ List.mem_cons_self ..) hdeaf.2
          · cases hop

theorem onSignal_kept {w w' : Worker} (h : w.Handles) {vk : Option Nat}
    (hstep : w.onSignal pgsz vk = some w') : w.Kept w' (.signal vk) := by
  have hframes : w'.frames = [] ∧ w'.sigsysBlocked = false ∧ w'.inSigsysHandler = w.inSigsysHandler := by
    unfold onSignal at hstep
    cases vk with
    | none =>
        obtain rfl := Option.some.inj hstep
        exact ⟨rfl, rfl, rfl⟩
    | some vk =>
        obtain ⟨iso, _, rfl⟩ := Option.map_eq_some_iff.mp hstep
        exact ⟨rfl, rfl, rfl⟩
  obtain ⟨hnil, hunblocked, hflag⟩ := hframes
  have hnone : Frame.handler ∉ w'.frames := by
    rw [hnil]
    exact List.not_mem_nil
  refine ⟨⟨?_, fun hin => absurd hin hnone, ?_⟩, ?_⟩
  · rw [hunblocked]
    exact ⟨fun hb => absurd hb Bool.false_ne_true, fun hin => absurd hin hnone⟩
  · rw [hnil]
    exact Nat.zero_le 1
  · unfold Deaf
    rw [hflag]
    constructor
    · intro hdeaf
      by_cases hin : Frame.handler ∈ w.frames
      · exact Or.inr ⟨⟨vk, rfl⟩, hin⟩
      · exact Or.inl ⟨hdeaf.1, hin⟩
    · intro hor
      refine ⟨?_, hnone⟩
      rcases hor with hdeaf | ⟨_, hin⟩
      · exact hdeaf.1
      · exact h.flagged hin

/-- A trap calls the handler, unless its flag is set. -/
theorem sigsysHandler_kept {w w' : Worker} (h : w.Handles) {pc : Nat} (htraps : w.verdict pc = .traps)
    (hstep : w.sigsysHandler pgsz = some w') : w.Kept w' (.syscall pc) := by
  have hout : Frame.handler ∉ w.frames := fun hin =>
    Bool.false_ne_true ((not_blocked_of_traps htraps).symm.trans (h.blocked.mpr hin))
  have hop : ∀ vk, Op.syscall pc ≠ .signal vk := fun _ => Op.noConfusion
  unfold sigsysHandler at hstep
  cases hcur : w.current with
  | none =>
      rw [hcur] at hstep
      obtain rfl := Option.some.inj hstep
      exact kept_of_frames h hop rfl rfl rfl
  | some vk =>
      simp only [hcur, Option.map_eq_some_iff] at hstep
      obtain ⟨iso, hiso, rfl⟩ := hstep
      split
      next => exact kept_of_frames h hop rfl rfl rfl
      next hflag =>
        split
        next => exact kept_of_frames h hop rfl rfl rfl
        next =>
          have hin : Frame.handler ∈ Frame.handler :: w.frames := List.mem_cons_self ..
          refine ⟨⟨⟨fun _ => hin, fun _ => rfl⟩, fun _ => rfl, ?_⟩, ?_⟩
          · show (Frame.handler :: w.frames).count .handler ≤ 1
            exact Nat.le_of_eq (by rw [List.count_cons_self, List.count_eq_zero.mpr hout])
          · refine ⟨fun hdeaf => absurd hin hdeaf.2, fun hor => ?_⟩
            rcases hor with hdeaf | ⟨⟨vk', hsig⟩, _⟩
            · exact absurd hdeaf.1 hflag
            · exact absurd hsig (hop vk')

/-- One step, orderly or not. -/
theorem step_kept {w w' : Worker} {op : Op} (h : w.Handles) (hstep : w.step pgsz op = some w') :
    w.Kept w' op := by
  cases op with
  | create setup =>
      obtain rfl := Option.some.inj hstep
      exact kept_of_frames h (fun _ => Op.noConfusion) rfl rfl rfl
  | destroy vk | setScheduler vk cb userData | setRegions vk regions allocated =>
      obtain ⟨iso, hiso, rfl⟩ := Option.map_eq_some_iff.mp hstep
      exact kept_of_frames h (fun _ => Op.noConfusion) rfl rfl rfl
  | continues vk =>
      obtain ⟨iso, hiso, rfl⟩ := Option.map_eq_some_iff.mp hstep
      exact kept_of_frames h (fun _ => Op.noConfusion) (List.count_cons_of_ne Frame.noConfusion) rfl rfl
  | yield vk =>
      obtain ⟨iso, hiso, rfl⟩ := Option.map_eq_some_iff.mp hstep
      exact kept_of_frames h (fun _ => Op.noConfusion) (yield_count ..) (yield_flags ..).1
        (yield_flags ..).2
  | ret => exact ret_kept h hstep
  | syscall pc =>
      simp only [step] at hstep
      split at hstep
      next =>
        obtain rfl := Option.some.inj hstep
        exact kept_of_frames h (fun _ => Op.noConfusion) rfl rfl rfl
      next htraps => exact sigsysHandler_kept h htraps hstep
      next => cases hstep
  | signal vk => exact onSignal_kept h hstep

/-! ## Runs -/

/-- Some signal of the run jumps out of the handler. -/
def Jumps (pgsz : Nat) (w : Worker) : List Op → Prop
  | [] => False
  | op :: ops =>
      (∃ vk, op = .signal vk) ∧ .handler ∈ w.frames ∨
        ∃ w', w.step pgsz op = some w' ∧ w'.Jumps pgsz ops

theorem start_handles (mem : Memory) : (start mem).Handles where
  blocked := ⟨fun hb => absurd hb Bool.false_ne_true, fun hin => absurd hin List.not_mem_nil⟩
  flagged := fun hin => absurd hin List.not_mem_nil
  once := Nat.zero_le 1

/-- A run, orderly or not.  By induction on it: what is deaf stays deaf, and nothing but
such a signal makes it so. -/
theorem run_kept {w w' : Worker} {ops : List Op} (h : w.Handles) (hrun : w.run pgsz ops = some w') :
    w'.Handles ∧ (w'.Deaf ↔ w.Deaf ∨ w.Jumps pgsz ops) := by
  induction ops generalizing w with
  | nil =>
      obtain rfl := Option.some.inj hrun
      exact ⟨h, ⟨Or.inl, fun hor => hor.resolve_right id⟩⟩
  | cons op ops ih =>
      obtain ⟨w₁, hstep, hrest⟩ := Option.bind_eq_some_iff.mp hrun
      have hkept := step_kept h hstep
      obtain ⟨hhandles, hdeaf⟩ := ih hkept.handles hrest
      refine ⟨hhandles, hdeaf.trans ?_⟩
      have htail : (∃ w', w.step pgsz op = some w' ∧ w'.Jumps pgsz ops) ↔ w₁.Jumps pgsz ops := by
        constructor
        · rintro ⟨w₂, hstep₂, hjumps⟩
          have hsame : w₁ = w₂ := Option.some.inj (hstep.symm.trans hstep₂)
          exact hsame ▸ hjumps
        · exact fun hjumps => ⟨w₁, hstep, hjumps⟩
      rw [hkept.deaf, or_assoc]
      exact or_congr_right (or_congr_right htail.symm)

/-- A trap that is delivered where the flag is clear. -/
theorem sigsysHandler_of_clear {w : Worker} {vk cb : Nat} {iso : Iso}
    (hcur : w.current = some vk) (hiso : w.isos vk = some iso) (hcb : iso.cb = some cb)
    (hflag : w.inSigsysHandler = false) :
    w.sigsysHandler pgsz = some
      { w.unshut pgsz vk iso with
        inSigsysHandler := true, sigsysBlocked := true, frames := .handler :: w.frames,
        handoffs := w.handoffs ++ [(cb, iso.userState)] } := by
  unfold sigsysHandler
  rw [hcur]
  dsimp only
  rw [hiso, Option.map_some, hflag, hcb]
  rfl

theorem sigsysHandler_of_flagged {w : Worker} {vk : Nat} {iso : Iso}
    (hcur : w.current = some vk) (hiso : w.isos vk = some iso)
    (hflag : w.inSigsysHandler = true) : w.sigsysHandler pgsz = some w := by
  unfold sigsysHandler
  rw [hcur]
  dsimp only
  rw [hiso, Option.map_some, hflag]
  rfl

theorem step_of_traps {w : Worker} {pc : Nat} (h : w.verdict pc = .traps) :
    w.step pgsz (.syscall pc) = w.sigsysHandler pgsz := by
  simp only [step, h]

end Worker

open Worker

/-- A trapped system call, after any run.  Where no signal has jumped out of the handler
of an earlier one, the scheduler is called, out of the window; elsewhere the call is
dropped, and nothing else comes of it. -/
theorem trap_answered_iff (pgsz : Nat) (mem : Memory) (ops : List Op) {w : Worker}
    (hrun : (start mem).run pgsz ops = some w) (pc : Nat) {vk cb : Nat} {iso : Iso}
    (htraps : w.verdict pc = .traps) (hcur : w.current = some vk) (hiso : w.isos vk = some iso)
    (hcb : iso.cb = some cb) :
    (¬ (start mem).Jumps pgsz ops →
      ∃ w', w.step pgsz (.syscall pc) = some w' ∧ w'.inIsolatedWindow = false ∧
        w'.frames = .handler :: w.frames ∧ w'.calls = w.calls ∧
        w'.handoffs = w.handoffs ++ [(cb, iso.userState)]) ∧
    ((start mem).Jumps pgsz ops → w.step pgsz (.syscall pc) = some w) := by
  obtain ⟨hhandles, hdeaf⟩ := run_kept (start_handles mem) hrun
  have hstart : ¬ (start mem).Deaf := fun h => absurd h.1 Bool.false_ne_true
  have hout : Frame.handler ∉ w.frames := fun hin =>
    Bool.false_ne_true ((not_blocked_of_traps htraps).symm.trans (hhandles.blocked.mpr hin))
  rw [step_of_traps htraps]
  refine ⟨fun hjumps => ?_, fun hjumps => ?_⟩
  · have hclear : w.inSigsysHandler = false := by
      refine Bool.eq_false_iff.mpr fun hflag => ?_
      rcases hdeaf.mp ⟨hflag, hout⟩ with hd | hj
      · exact hstart hd
      · exact hjumps hj
    exact ⟨_, sigsysHandler_of_clear hcur hiso hcb hclear, rfl, rfl, rfl, rfl⟩
  · exact sigsysHandler_of_flagged hcur hiso (hdeaf.mpr (Or.inr hjumps)).1

/-- The actor's first system call is trapped; a signal comes while the scheduler runs, and
the actor is continued. -/
def jumpOps : List Op := enterOps ++ [.syscall 0x2000, .signal (some 0), .continues 0]

theorem trap_answered_iff_jumpOps :
    (∃ w w', (start onePage).run 4096 enterOps = some w ∧
      w.step 4096 (.syscall 0x2000) = some w' ∧ w'.handoffs = [(7, 9)]) ∧
    ∃ w, (start onePage).run 4096 jumpOps = some w ∧ w.inIsolatedWindow = true ∧
      w.step 4096 (.syscall 0x3000) = some w := by
  constructor
  · obtain ⟨w', hstep, _, _, _, hhandoffs⟩ :=
      (trap_answered_iff 4096 onePage enterOps rfl 0x2000 rfl rfl rfl rfl).1
        (by simp [Worker.Jumps, enterOps])
    exact ⟨_, w', rfl, hstep, hhandoffs⟩
  · exact ⟨_, rfl, rfl, (trap_answered_iff 4096 onePage jumpOps rfl 0x3000 rfl rfl rfl rfl).2
      (Or.inr ⟨_, rfl, Or.inr ⟨_, rfl, Or.inr ⟨_, rfl, Or.inr ⟨_, rfl, Or.inr ⟨_, rfl,
        Or.inl ⟨⟨some 0, rfl⟩, List.mem_cons_self ..⟩⟩⟩⟩⟩⟩)⟩

end Vk.Isolate

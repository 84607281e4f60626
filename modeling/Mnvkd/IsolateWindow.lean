/-
# `Mnvkd.IsolateWindow` — what an actor can reach in its window

In every orderly run the memory of a worker is as it was at first, but for the
privileged pages of the instance whose window it is in; and of the system calls that are
dispatched to that instance none from outside the C library is made (`window_isolates`).

Orderly is a run in which an instance's window is entered and left by no other, instances
are made and destroyed and get their regions outside every window, and the regions given
say how their pages are protected (`Worker.Orderly`).  Regions that say otherwise are
unmasked to what they say, and regions replaced inside a window stay masked.
-/
import Mnvkd.Isolate

namespace Vk.Isolate

variable {pgsz : Nat}

/-! ## Masking -/

/-- The same pages are mapped. -/
def SameMapped (mem mem' : Memory) : Prop := ∀ page, (mem page).isSome = (mem' page).isSome

theorem reaches_congr {mem mem' : Memory} (h : SameMapped mem mem') (r : PrivRegion) (page : Nat) :
    r.Reaches pgsz mem page ↔ r.Reaches pgsz mem' page := by
  unfold PrivRegion.Reaches
  simp only [h _]

theorem isSome_of_reaches {mem : Memory} {r : PrivRegion} {page : Nat}
    (h : r.Reaches pgsz mem page) : (mem page).isSome = true :=
  h.2.2 page (Nat.lt_succ_self page) h.2.1

theorem mprotect_of_reaches {mem : Memory} {r : PrivRegion} {prot : Int} {page : Nat}
    (hprot : validProt prot) (h : r.Reaches pgsz mem page) :
    mprotect pgsz r prot mem page = some prot :=
  if_pos ⟨hprot, h⟩

theorem mprotect_of_not_reaches {mem : Memory} {r : PrivRegion} {prot : Int} {page : Nat}
    (h : ¬ r.Reaches pgsz mem page) : mprotect pgsz r prot mem page = mem page :=
  if_neg fun h' => h h'.2

theorem mprotect_sameMapped (r : PrivRegion) (prot : Int) (mem : Memory) :
    SameMapped (mprotect pgsz r prot mem) mem := fun page => by
  unfold mprotect
  split
  next h => rw [isSome_of_reaches h.2]; rfl
  next => rfl

theorem SameMapped.trans {m m' m'' : Memory} (h : SameMapped m m') (h' : SameMapped m' m'') :
    SameMapped m m'' := fun page => (h page).trans (h' page)

theorem SameMapped.symm {m m' : Memory} (h : SameMapped m m') : SameMapped m' m :=
  fun page => (h page).symm

theorem maskRegions_cons (r : PrivRegion) (rs : List PrivRegion) (prot : Int) (mem : Memory) :
    maskRegions pgsz (r :: rs) prot mem
      = maskRegions pgsz rs prot
          (mprotect pgsz r (if 0 ≤ prot then prot else r.protWhenUnmasked) mem) := rfl

theorem maskRegions_none_cons (r : PrivRegion) (rs : List PrivRegion) (mem : Memory) :
    maskRegions pgsz (r :: rs) protNone mem
      = maskRegions pgsz rs protNone (mprotect pgsz r protNone mem) :=
  (maskRegions_cons r rs protNone mem).trans (by rw [if_pos (by decide)])

theorem maskRegions_sameMapped (rs : List PrivRegion) (prot : Int) (mem : Memory) :
    SameMapped (maskRegions pgsz rs prot mem) mem := by
  induction rs generalizing mem with
  | nil => exact fun _ => rfl
  | cons r rs ih => exact (ih _).trans (mprotect_sameMapped r _ mem)

/-- A page that no region reaches stays as it is. -/
theorem maskRegions_of_not_reaches {rs : List PrivRegion} {prot : Int} {mem : Memory} {page : Nat}
    (h : ∀ r ∈ rs, ¬ r.Reaches pgsz mem page) : maskRegions pgsz rs prot mem page = mem page := by
  induction rs generalizing mem with
  | nil => rfl
  | cons r rs ih =>
      have hhead : ¬ r.Reaches pgsz mem page := h r (List.mem_cons_self ..)
      rw [maskRegions_cons, ih fun r' hr' hreach => h r' (List.mem_cons_of_mem _ hr')
        ((reaches_congr (mprotect_sameMapped r _ mem) r' page).mp hreach)]
      exact mprotect_of_not_reaches hhead

/-- A page that is masked stays masked by the regions that follow. -/
theorem maskRegions_none_of_masked {rs : List PrivRegion} {mem : Memory} {page : Nat}
    (h : mem page = some protNone) : maskRegions pgsz rs protNone mem page = some protNone := by
  induction rs generalizing mem with
  | nil => exact h
  | cons r rs ih =>
      rw [maskRegions_none_cons]
      apply ih
      by_cases hreach : r.Reaches pgsz mem page
      · exact mprotect_of_reaches (by decide) hreach
      · exact (mprotect_of_not_reaches hreach).trans h

/-- Every page that some region reaches is masked. -/
theorem maskRegions_none {rs : List PrivRegion} {mem : Memory} {page : Nat}
    (h : ∃ r ∈ rs, r.Reaches pgsz mem page) :
    maskRegions pgsz rs protNone mem page = some protNone := by
  induction rs generalizing mem with
  | nil => obtain ⟨r, hr, _⟩ := h; cases hr
  | cons r rs ih =>
      obtain ⟨r', hr', hreach⟩ := h
      rw [maskRegions_none_cons]
      by_cases hhead : r.Reaches pgsz mem page
      · exact maskRegions_none_of_masked (mprotect_of_reaches (by decide) hhead)
      · rcases List.mem_cons.mp hr' with rfl | htail
        · exact absurd hreach hhead
        · exact ih ⟨r', htail, (reaches_congr (mprotect_sameMapped r _ mem) r' page).mpr hreach⟩

/-- The regions say how their pages are protected. -/
def Describes (pgsz : Nat) (rs : List PrivRegion) (base : Memory) : Prop :=
  ∀ r ∈ rs, validProt r.protWhenUnmasked ∧
    ∀ page, r.Reaches pgsz base page → base page = some r.protWhenUnmasked

/-- Unmasking gives back a memory that differs only on pages that the regions reach. -/
theorem unmask {rs : List PrivRegion} {base mem : Memory} (hd : Describes pgsz rs base)
    (hmapped : SameMapped mem base)
    (h : ∀ page, mem page = base page ∨ ∃ r ∈ rs, r.Reaches pgsz base page) :
    maskRegions pgsz rs (-1) mem = base := by
  induction rs generalizing mem with
  | nil =>
      funext page
      rcases h page with heq | ⟨r, hr, _⟩
      · exact heq
      · cases hr
  | cons r rs ih =>
      obtain ⟨hprot, hpages⟩ := hd r (List.mem_cons_self ..)
      rw [maskRegions_cons]
      refine ih (fun r' hr' => hd r' (List.mem_cons_of_mem _ hr'))
        ((mprotect_sameMapped r _ mem).trans hmapped) fun page => ?_
      by_cases hreach : r.Reaches pgsz base page
      · left
        rw [if_neg (by decide), hpages page hreach]
        exact mprotect_of_reaches hprot ((reaches_congr hmapped r page).mpr hreach)
      · rw [mprotect_of_not_reaches fun h' => hreach ((reaches_congr hmapped r page).mp h')]
        rcases h page with heq | ⟨r', hr', hreach'⟩
        · exact Or.inl heq
        · rcases List.mem_cons.mp hr' with rfl | htail
          · exact absurd hreach' hreach
          · exact Or.inr ⟨r', htail, hreach'⟩

theorem unmask_base {rs : List PrivRegion} {base : Memory} (hd : Describes pgsz rs base) :
    maskRegions pgsz rs (-1) base = base :=
  unmask hd (fun _ => rfl) fun _ => Or.inl rfl

theorem unmask_mask {rs : List PrivRegion} {base : Memory} (hd : Describes pgsz rs base) :
    maskRegions pgsz rs (-1) (maskRegions pgsz rs protNone base) = base :=
  unmask hd (maskRegions_sameMapped rs protNone base) fun page => by
    by_cases h : ∃ r ∈ rs, r.Reaches pgsz base page
    · exact Or.inr h
    · exact Or.inl (maskRegions_of_not_reaches fun r hr hreach => h ⟨r, hr, hreach⟩)

theorem mask_mask (rs : List PrivRegion) (base : Memory) :
    maskRegions pgsz rs protNone (maskRegions pgsz rs protNone base)
      = maskRegions pgsz rs protNone base := by
  funext page
  by_cases h : ∃ r ∈ rs, r.Reaches pgsz base page
  · rw [maskRegions_none h]
    exact maskRegions_none_of_masked (maskRegions_none h)
  · exact maskRegions_of_not_reaches fun r hr hreach =>
      h ⟨r, hr, (reaches_congr (maskRegions_sameMapped rs protNone base) r page).mp hreach⟩

/-! ## The gates -/

namespace Worker

@[simp] theorem setIso_self (w : Worker) (vk : Nat) (iso : Iso) :
    (w.setIso vk iso).isos vk = some iso := Function.update_self ..

theorem setIso_of_ne (w : Worker) {vk vk' : Nat} (iso : Iso) (h : vk' ≠ vk) :
    (w.setIso vk iso).isos vk' = w.isos vk' := Function.update_of_ne h ..

/-- What holds of the instances whether a window is open or not. -/
structure Known (pgsz : Nat) (base : Memory) (w : Worker) : Prop where
  describes : ∀ vk iso, w.isos vk = some iso → Describes pgsz iso.regions base
  switch : ∀ vk iso, w.isos vk = some iso → iso.sudEnabled = true → iso.sudSwitch.isSome = true
  idle : ∀ vk iso, w.isos vk = some iso → iso.sudEnabled = false → iso.sudSwitch ≠ some true
  fresh : ∀ vk iso, w.isos vk = some iso → vk < w.made
  dispatches : ∀ d, w.dispatch = some d →
    d.selector < w.made ∧ ∀ iso, w.isos d.selector = some iso → iso.sudEnabled = true

/-- No window: the memory is as it was, and no selector blocks. -/
structure Outside (base : Memory) (w : Worker) : Prop where
  window : w.inIsolatedWindow = false
  mem : w.mem = base
  allows : ∀ vk iso, w.isos vk = some iso → iso.sudSwitch ≠ some true

/-- The window of an instance, whose actor is what runs. -/
structure Inside (pgsz : Nat) (base : Memory) (w : Worker) (vk : Nat) (iso : Iso) : Prop where
  window : w.inIsolatedWindow = true
  current : w.current = some vk
  made : w.isos vk = some iso
  frames : w.frames.head? = some (.actor vk)
  mem : w.mem = maskRegions pgsz iso.regions protNone base
  blocks : iso.sudEnabled = true → iso.sudSwitch = some true
  allows : ∀ vk' iso', vk' ≠ vk → w.isos vk' = some iso' → iso'.sudSwitch ≠ some true

/-- The gates stand as the window says. -/
structure Gated (pgsz : Nat) (base : Memory) (w : Worker) : Prop where
  known : w.Known pgsz base
  gates : w.Outside base ∨ ∃ vk iso, w.Inside pgsz base vk iso

/-- An instance's window is entered and left by itself alone, and what there are of
instances and regions changes in none. -/
def Orderly (pgsz : Nat) (base : Memory) (w : Worker) : Op → Prop
  | .create .. | .destroy .. | .signal none => w.inIsolatedWindow = false
  | .setRegions _ regions _ => w.inIsolatedWindow = false ∧ Describes pgsz regions base
  | .continues vk | .yield vk | .signal (some vk) => w.inIsolatedWindow = true → w.current = some vk
  | .setScheduler .. | .ret | .syscall _ => True

theorem Gated.inside {base : Memory} {w : Worker} (h : w.Gated pgsz base)
    (hw : w.inIsolatedWindow = true) : ∃ vk iso, w.Inside pgsz base vk iso := by
  rcases h.gates with hout | hin
  · exact absurd (hout.window.symm.trans hw) (by decide)
  · exact hin

theorem Gated.outside {base : Memory} {w : Worker} (h : w.Gated pgsz base)
    (hw : w.inIsolatedWindow = false) : w.Outside base := by
  rcases h.gates with hout | ⟨_, _, hin⟩
  · exact hout
  · exact absurd (hw.symm.trans hin.window) (by decide)

/-- What a window may be entered or left by. -/
theorem Gated.own {base : Memory} {w : Worker} {vk : Nat} {iso : Iso} (h : w.Gated pgsz base)
    (hiso : w.isos vk = some iso) (hown : w.inIsolatedWindow = true → w.current = some vk) :
    w.Outside base ∨ w.Inside pgsz base vk iso := by
  rcases h.gates with hout | ⟨vk', iso', hin⟩
  · exact Or.inl hout
  · right
    have hvk : vk' = vk := Option.some.inj (hin.current.symm.trans (hown hin.window))
    subst hvk
    have heq : iso' = iso := Option.some.inj (hin.made.symm.trans hiso)
    exact heq ▸ hin

theorem blockSyscalls_keeps (iso : Iso) :
    iso.blockSyscalls.sudEnabled = iso.sudEnabled ∧ iso.blockSyscalls.regions = iso.regions := by
  unfold Iso.blockSyscalls
  split <;> exact ⟨rfl, rfl⟩

theorem allowSyscalls_keeps (iso : Iso) :
    iso.allowSyscalls.sudEnabled = iso.sudEnabled ∧ iso.allowSyscalls.regions = iso.regions := by
  unfold Iso.allowSyscalls
  split <;> exact ⟨rfl, rfl⟩

theorem blockSyscalls_of_disabled {iso : Iso} (h : iso.sudEnabled = false) :
    iso.blockSyscalls = iso := by
  unfold Iso.blockSyscalls
  rw [h, Bool.false_and]
  rfl

theorem blockSyscalls_blocks {iso : Iso} (h : iso.sudEnabled = true)
    (hswitch : iso.sudEnabled = true → iso.sudSwitch.isSome = true) :
    iso.blockSyscalls.sudSwitch = some true := by
  unfold Iso.blockSyscalls
  rw [if_pos (by rw [h, hswitch h]; rfl)]

theorem allowSyscalls_allows {iso : Iso} (h : iso.sudEnabled = true → iso.sudSwitch.isSome = true)
    (h' : iso.sudEnabled = false → iso.sudSwitch ≠ some true) :
    iso.allowSyscalls.sudSwitch ≠ some true := by
  unfold Iso.allowSyscalls
  cases hsud : iso.sudEnabled with
  | true => simp [h hsud]
  | false => simpa using h' hsud

/-! ### One instance changes -/

/-- What is made lets system calls through. -/
theorem create_allows (setup : Setup) : setup.create.sudSwitch ≠ some true := by
  simp only [Setup.create]
  split <;> simp

theorem setIso_cases {w : Worker} {vk vk' : Nat} {iso iso' : Iso}
    (h : (w.setIso vk iso).isos vk' = some iso') :
    vk' = vk ∧ iso' = iso ∨ vk' ≠ vk ∧ w.isos vk' = some iso' := by
  by_cases hvk : vk' = vk
  · subst hvk
    rw [setIso_self] at h
    exact Or.inl ⟨rfl, (Option.some.inj h).symm⟩
  · exact Or.inr ⟨hvk, (setIso_of_ne w iso hvk).symm.trans h⟩

/-- An instance changes, but not in whether system calls are dispatched. -/
theorem Known.setIso {base : Memory} {w : Worker} (h : w.Known pgsz base) {vk : Nat} {old iso : Iso}
    (hold : w.isos vk = some old) (hsud : iso.sudEnabled = old.sudEnabled)
    (hd : Describes pgsz iso.regions base)
    (hswitch : iso.sudEnabled = true → iso.sudSwitch.isSome = true)
    (hidle : iso.sudEnabled = false → iso.sudSwitch ≠ some true) :
    (w.setIso vk iso).Known pgsz base where
  describes vk' iso' hiso' := by
    rcases setIso_cases hiso' with ⟨_, rfl⟩ | ⟨_, hother⟩
    · exact hd
    · exact h.describes vk' iso' hother
  switch vk' iso' hiso' := by
    rcases setIso_cases hiso' with ⟨_, rfl⟩ | ⟨_, hother⟩
    · exact hswitch
    · exact h.switch vk' iso' hother
  idle vk' iso' hiso' := by
    rcases setIso_cases hiso' with ⟨_, rfl⟩ | ⟨_, hother⟩
    · exact hidle
    · exact h.idle vk' iso' hother
  fresh vk' iso' hiso' := by
    rcases setIso_cases hiso' with ⟨rfl, _⟩ | ⟨_, hother⟩
    · exact h.fresh vk' old hold
    · exact h.fresh vk' iso' hother
  dispatches d hdisp := by
    obtain ⟨hlt, hon⟩ := h.dispatches d hdisp
    refine ⟨hlt, fun iso' hiso' => ?_⟩
    rcases setIso_cases hiso' with ⟨hvk, rfl⟩ | ⟨_, hother⟩
    · exact hsud.trans (hon old (hvk ▸ hold))
    · exact hon iso' hother

/-- An instance is made. -/
theorem Known.create {base : Memory} {w : Worker} (h : w.Known pgsz base) (setup : Setup) :
    { w.setIso w.made setup.create with
        made := w.made + 1
        dispatch :=
          if setup.create.sudEnabled then some ⟨setup.libcStart, setup.libcSize, w.made⟩
          else w.dispatch }.Known pgsz base where
  describes vk' iso' hiso' := by
    rcases setIso_cases hiso' with ⟨_, rfl⟩ | ⟨_, hother⟩
    · exact fun r hr => absurd hr (List.not_mem_nil)
    · exact h.describes vk' iso' hother
  switch vk' iso' hiso' := by
    rcases setIso_cases hiso' with ⟨_, rfl⟩ | ⟨_, hother⟩
    · intro hsud
      simp only [Setup.create, Bool.and_eq_true] at hsud ⊢
      simp [hsud.1]
    · exact h.switch vk' iso' hother
  idle vk' iso' hiso' := by
    rcases setIso_cases hiso' with ⟨_, rfl⟩ | ⟨_, hother⟩
    · exact fun _ => create_allows setup
    · exact h.idle vk' iso' hother
  fresh vk' iso' hiso' := by
    rcases setIso_cases hiso' with ⟨rfl, _⟩ | ⟨_, hother⟩
    · exact Nat.lt_succ_self _
    · exact Nat.lt_succ_of_lt (h.fresh vk' iso' hother)
  dispatches d hdisp := by
    dsimp only at hdisp
    split at hdisp
    next hsud =>
      obtain rfl := Option.some.inj hdisp
      refine ⟨Nat.lt_succ_self _, fun iso' hiso' => ?_⟩
      rcases setIso_cases hiso' with ⟨_, rfl⟩ | ⟨hne, _⟩
      · exact hsud
      · exact absurd rfl hne
    next =>
      obtain ⟨hlt, hon⟩ := h.dispatches d hdisp
      refine ⟨Nat.lt_succ_of_lt hlt, fun iso' hiso' => ?_⟩
      rcases setIso_cases hiso' with ⟨hvk, _⟩ | ⟨_, hother⟩
      · exact absurd hvk (Nat.ne_of_lt hlt)
      · exact hon iso' hother

theorem Outside.setIso {base : Memory} {w : Worker} (h : w.Outside base) {vk : Nat} {iso : Iso}
    (hallows : iso.sudSwitch ≠ some true) : (w.setIso vk iso).Outside base := by
  refine ⟨h.window, h.mem, fun vk' iso' hiso' => ?_⟩
  rcases setIso_cases hiso' with ⟨_, rfl⟩ | ⟨_, hother⟩
  · exact hallows
  · exact h.allows vk' iso' hother

/-! ### The gates shut and open -/

theorem shut_known {base : Memory} {w : Worker} (h : w.Known pgsz base) {vk : Nat} {iso : Iso}
    (hiso : w.isos vk = some iso) : (w.shut pgsz vk iso).Known pgsz base := by
  have hkeeps := blockSyscalls_keeps iso
  have hset : (w.setIso vk iso.blockSyscalls).Known pgsz base := by
    refine h.setIso hiso hkeeps.1 (hkeeps.2 ▸ h.describes vk iso hiso) (fun hsud => ?_) fun hsud => ?_
    · rw [blockSyscalls_blocks (hkeeps.1 ▸ hsud) (h.switch vk iso hiso)]
      rfl
    · have hoff : iso.sudEnabled = false := hkeeps.1.symm.trans hsud
      rw [blockSyscalls_of_disabled hoff]
      exact h.idle vk iso hiso hoff
  exact ⟨hset.describes, hset.switch, hset.idle, hset.fresh, hset.dispatches⟩

theorem unshut_known {base : Memory} {w : Worker} (h : w.Known pgsz base) {vk : Nat} {iso : Iso}
    (hiso : w.isos vk = some iso) : (w.unshut pgsz vk iso).Known pgsz base := by
  have hkeeps := allowSyscalls_keeps iso
  have hset : (w.setIso vk iso.allowSyscalls).Known pgsz base := by
    refine h.setIso hiso hkeeps.1 (hkeeps.2 ▸ h.describes vk iso hiso) (fun hsud => ?_) fun _ =>
      allowSyscalls_allows (h.switch vk iso hiso) (h.idle vk iso hiso)
    unfold Iso.allowSyscalls
    split
    next => rfl
    next => exact h.switch vk iso hiso (hkeeps.1 ▸ hsud)
  exact ⟨hset.describes, hset.switch, hset.idle, hset.fresh, hset.dispatches⟩

/-- From outside, or from its own window, a window is entered. -/
theorem shut_inside {base : Memory} {w : Worker} (h : w.Gated pgsz base) {vk : Nat} {iso : Iso}
    (hiso : w.isos vk = some iso) (hown : w.inIsolatedWindow = true → w.current = some vk)
    (frames : List Frame) :
    { { w with current := some vk }.shut pgsz vk iso with frames := .actor vk :: frames }.Inside
      pgsz base vk iso.blockSyscalls := by
  obtain ⟨hsud, hregions⟩ := blockSyscalls_keeps iso
  refine ⟨rfl, rfl, setIso_self .., rfl, ?_, fun hon => ?_, fun vk' iso' hvk hiso' => ?_⟩
  · show maskRegions pgsz iso.regions protNone w.mem = _
    rw [hregions]
    rcases h.own hiso hown with hout | hin
    · rw [hout.mem]
    · rw [hin.mem, mask_mask]
  · exact blockSyscalls_blocks (hsud ▸ hon) (h.known.switch vk iso hiso)
  · have hold : w.isos vk' = some iso' := (setIso_of_ne _ _ hvk).symm.trans hiso'
    rcases h.own hiso hown with hout | hin
    · exact hout.allows vk' iso' hold
    · exact hin.allows vk' iso' hvk hold

/-- From outside, or from its own window, a window is left. -/
theorem unshut_outside {base : Memory} {w : Worker} (hk : w.Known pgsz base) {vk : Nat} {iso : Iso}
    (hiso : w.isos vk = some iso) (h : w.Outside base ∨ w.Inside pgsz base vk iso) :
    (w.unshut pgsz vk iso).Outside base := by
  have hd := hk.describes vk iso hiso
  refine ⟨rfl, ?_, fun vk' iso' hiso' => ?_⟩
  · show maskRegions pgsz iso.regions (-1) w.mem = base
    rcases h with hout | hin
    · rw [hout.mem, unmask_base hd]
    · rw [hin.mem, unmask_mask hd]
  · by_cases hvk : vk' = vk
    · subst hvk
      have heq : iso' = iso.allowSyscalls := (Option.some.inj ((setIso_self ..).symm.trans hiso')).symm
      rw [heq]
      exact allowSyscalls_allows (hk.switch vk' iso hiso) (hk.idle vk' iso hiso)
    · have hold : w.isos vk' = some iso' := (setIso_of_ne _ _ hvk).symm.trans hiso'
      rcases h with hout | hin
      · exact hout.allows vk' iso' hold
      · exact hin.allows vk' iso' hvk hold

theorem Known.congr {base : Memory} {w w' : Worker} (h : w.Known pgsz base)
    (hisos : w'.isos = w.isos) (hmade : w'.made = w.made) (hdisp : w'.dispatch = w.dispatch) :
    w'.Known pgsz base :=
  ⟨hisos ▸ h.describes, hisos ▸ h.switch, hisos ▸ h.idle, hmade ▸ hisos ▸ h.fresh,
    hmade ▸ hdisp ▸ hisos ▸ h.dispatches⟩

theorem Outside.congr {base : Memory} {w w' : Worker} (h : w.Outside base)
    (hisos : w'.isos = w.isos) (hmem : w'.mem = w.mem)
    (hwindow : w'.inIsolatedWindow = w.inIsolatedWindow) : w'.Outside base :=
  ⟨hwindow.trans h.window, hmem.trans h.mem, hisos ▸ h.allows⟩

/-! ## What a step does to the gates -/

theorem handOff_gated {base : Memory} {w : Worker} (hk : w.Known pgsz base) (h : w.Outside base)
    (iso : Iso) : (w.handOff iso).Gated pgsz base := by
  unfold handOff
  split
  · exact ⟨hk.congr rfl rfl rfl, Or.inl (h.congr rfl rfl rfl)⟩
  · exact ⟨hk, Or.inl h⟩

/-- A yield, whatever of the functions that were called has returned. -/
theorem yield_gated {base : Memory} {w : Worker} (h : w.Gated pgsz base) {vk : Nat} {iso : Iso}
    (hiso : w.isos vk = some iso) (hown : w.inIsolatedWindow = true → w.current = some vk)
    (frames : List Frame) : ({ w with frames := frames }.yield pgsz vk iso).Gated pgsz base := by
  unfold yield
  split
  next =>
    refine handOff_gated ?_ ?_ iso
    · exact (unshut_known h.known hiso).congr rfl rfl rfl
    · exact (unshut_outside h.known hiso (h.own hiso hown)).congr rfl rfl rfl
  next hw =>
    have hout := h.outside (Bool.eq_false_iff.mpr hw)
    refine handOff_gated ?_ ?_ iso
    · exact h.known.congr rfl rfl rfl
    · exact hout.congr rfl rfl rfl

theorem sigsysHandler_gated {base : Memory} {w w' : Worker} (h : w.Gated pgsz base)
    (hstep : w.sigsysHandler pgsz = some w') : w'.Gated pgsz base := by
  unfold sigsysHandler at hstep
  cases hcur : w.current with
  | none =>
      rw [hcur] at hstep
      exact Option.some.inj hstep ▸ h
  | some vk =>
      simp only [hcur, Option.map_eq_some_iff] at hstep
      obtain ⟨iso, hiso, rfl⟩ := hstep
      split
      next => exact h
      next =>
        have hout := unshut_outside h.known hiso (h.own hiso fun _ => hcur)
        have hk := unshut_known h.known hiso
        split
        · exact ⟨hk, Or.inl hout⟩
        · exact ⟨hk.congr rfl rfl rfl, Or.inl (hout.congr rfl rfl rfl)⟩

theorem ret_gated {base : Memory} {w w' : Worker} (h : w.Gated pgsz base)
    (hstep : w.ret pgsz = some w') : w'.Gated pgsz base := by
  -- What is not an actor runs outside a window.
  have hother : ∀ f fs, w.frames = f :: fs → (∀ vk, f ≠ .actor vk) → w.Outside base :=
    fun f fs hframes hf => by
      rcases h.gates with hout | ⟨vk, iso, hin⟩
      · exact hout
      · have hhead := hin.frames
        rw [hframes] at hhead
        exact absurd (Option.some.inj hhead) (hf vk)
  unfold ret at hstep
  cases hframes : w.frames with
  | nil =>
      rw [hframes] at hstep
      cases hstep
  | cons f fs =>
      rw [hframes] at hstep
      cases f with
      | actor vk =>
          dsimp only at hstep
          split at hstep
          next hw =>
            obtain ⟨iso, hiso, rfl⟩ := Option.map_eq_some_iff.mp hstep
            refine yield_gated h hiso (fun _ => ?_) fs
            obtain ⟨vk', iso', hin⟩ := h.inside hw
            have hhead := hin.frames
            rw [hframes] at hhead
            have hvk : vk = vk' := Frame.actor.inj (Option.some.inj hhead)
            exact hvk ▸ hin.current
          next hw =>
            have hout := h.outside (Bool.eq_false_iff.mpr hw)
            obtain rfl := Option.some.inj hstep
            exact ⟨h.known.congr rfl rfl rfl, Or.inl (hout.congr rfl rfl rfl)⟩
      | callback =>
          obtain rfl := Option.some.inj hstep
          have hout := hother _ _ hframes fun _ => Frame.noConfusion
          exact ⟨h.known.congr rfl rfl rfl, Or.inl (hout.congr rfl rfl rfl)⟩
      | handler =>
          obtain rfl := Option.some.inj hstep
          have hout := hother _ _ hframes fun _ => Frame.noConfusion
          exact ⟨h.known.congr rfl rfl rfl, Or.inl (hout.congr rfl rfl rfl)⟩

/-- One step.  The cases are the operations. -/
theorem step_gated {base : Memory} {w w' : Worker} {op : Op} (h : w.Gated pgsz base)
    (horderly : w.Orderly pgsz base op) (hstep : w.step pgsz op = some w') : w'.Gated pgsz base := by
  cases op with
  | create setup =>
      obtain rfl := Option.some.inj hstep
      exact ⟨h.known.create setup,
        Or.inl (((h.outside horderly).setIso (create_allows setup)).congr rfl rfl rfl)⟩
  | destroy vk =>
      have hout := h.outside horderly
      obtain ⟨iso, hiso, rfl⟩ := Option.map_eq_some_iff.mp hstep
      have hold : ∀ vk' iso', Function.update w.isos vk none vk' = some iso' →
          w.isos vk' = some iso' := fun vk' iso' hiso' => by
        by_cases hvk : vk' = vk
        · subst hvk
          rw [Function.update_self] at hiso'
          cases hiso'
        · rwa [Function.update_of_ne hvk] at hiso'
      refine ⟨⟨fun vk' iso' hi => h.known.describes vk' iso' (hold vk' iso' hi),
          fun vk' iso' hi => h.known.switch vk' iso' (hold vk' iso' hi),
          fun vk' iso' hi => h.known.idle vk' iso' (hold vk' iso' hi),
          fun vk' iso' hi => h.known.fresh vk' iso' (hold vk' iso' hi), fun d hd => ?_⟩,
        Or.inl ⟨hout.window, hout.mem, fun vk' iso' hi => hout.allows vk' iso' (hold vk' iso' hi)⟩⟩
      obtain ⟨hlt, hon⟩ := h.known.dispatches d hd
      exact ⟨hlt, fun iso' hi => hon iso' (hold _ iso' hi)⟩
  | setScheduler vk cb userData =>
      obtain ⟨iso, hiso, rfl⟩ := Option.map_eq_some_iff.mp hstep
      refine ⟨h.known.setIso hiso rfl (h.known.describes vk iso hiso) (h.known.switch vk iso hiso)
        (h.known.idle vk iso hiso), ?_⟩
      rcases h.gates with hout | ⟨vk', iso', hin⟩
      · exact Or.inl (hout.setIso (hout.allows vk iso hiso))
      · right
        by_cases hvk : vk' = vk
        · subst hvk
          obtain rfl : iso' = iso := Option.some.inj (hin.made.symm.trans hiso)
          exact ⟨vk', _, hin.window, hin.current, setIso_self .., hin.frames, hin.mem, hin.blocks,
            fun vk'' iso'' hne hi => hin.allows vk'' iso'' hne ((setIso_of_ne w _ hne).symm.trans hi)⟩
        · refine ⟨vk', iso', hin.window, hin.current, (setIso_of_ne w _ hvk).trans hin.made,
            hin.frames, hin.mem, hin.blocks, fun vk'' iso'' hne hi => ?_⟩
          by_cases hvk' : vk'' = vk
          · subst hvk'
            rw [setIso_self] at hi
            exact Option.some.inj hi ▸ hin.allows vk'' iso hne hiso
          · exact hin.allows vk'' iso'' hne ((setIso_of_ne w _ hvk').symm.trans hi)
  | setRegions vk regions allocated =>
      have hout := h.outside horderly.1
      obtain ⟨iso, hiso, rfl⟩ := Option.map_eq_some_iff.mp hstep
      refine ⟨h.known.setIso hiso rfl ?_ (h.known.switch vk iso hiso) (h.known.idle vk iso hiso),
        Or.inl (hout.setIso (hout.allows vk iso hiso))⟩
      cases allocated with
      | true => exact horderly.2
      | false => exact fun r hr => absurd hr (List.not_mem_nil)
  | continues vk =>
      obtain ⟨iso, hiso, rfl⟩ := Option.map_eq_some_iff.mp hstep
      exact ⟨(shut_known h.known hiso).congr rfl rfl rfl,
        Or.inr ⟨vk, _, shut_inside h hiso horderly w.frames⟩⟩
  | yield vk =>
      obtain ⟨iso, hiso, rfl⟩ := Option.map_eq_some_iff.mp hstep
      exact yield_gated h hiso horderly w.frames
  | ret => exact ret_gated h hstep
  | syscall pc =>
      simp only [step] at hstep
      split at hstep
      next =>
        obtain rfl := Option.some.inj hstep
        refine ⟨h.known.congr rfl rfl rfl, ?_⟩
        rcases h.gates with hout | ⟨vk, iso, hin⟩
        · exact Or.inl (hout.congr rfl rfl rfl)
        · exact Or.inr ⟨vk, iso, hin.window, hin.current, hin.made, hin.frames, hin.mem, hin.blocks,
            hin.allows⟩
      next => exact sigsysHandler_gated h hstep
      next => cases hstep
  | signal vk? =>
      cases vk? with
      | none =>
          obtain rfl := Option.some.inj hstep
          exact ⟨h.known.congr rfl rfl rfl, Or.inl ((h.outside horderly).congr rfl rfl rfl)⟩
      | some vk =>
          obtain ⟨iso, hiso, rfl⟩ := Option.map_eq_some_iff.mp hstep
          exact ⟨(unshut_known h.known hiso).congr rfl rfl rfl,
            Or.inl ((unshut_outside h.known hiso (h.own hiso horderly)).congr rfl rfl rfl)⟩

/-! ## Runs -/

/-- Each operation is orderly where it is done. -/
def AllOrderly (pgsz : Nat) (base : Memory) (w : Worker) : List Op → Prop
  | [] => True
  | op :: ops =>
      w.Orderly pgsz base op ∧ ∀ w', w.step pgsz op = some w' → w'.AllOrderly pgsz base ops

theorem start_gated (pgsz : Nat) (base : Memory) : (start base).Gated pgsz base where
  known :=
    { describes := fun _ _ h => by cases h
      switch := fun _ _ h => by cases h
      idle := fun _ _ h => by cases h
      fresh := fun _ _ h => by cases h
      dispatches := fun _ h => by cases h }
  gates := Or.inl ⟨rfl, rfl, fun _ _ h => by cases h⟩

/-- A run, of any length. -/
theorem run_gated {base : Memory} {w w' : Worker} {ops : List Op} (h : w.Gated pgsz base)
    (horderly : w.AllOrderly pgsz base ops) (hrun : w.run pgsz ops = some w') :
    w'.Gated pgsz base := by
  induction ops generalizing w with
  | nil => exact Option.some.inj hrun ▸ h
  | cons op ops ih =>
      obtain ⟨w₁, hstep, hrest⟩ := Option.bind_eq_some_iff.mp hrun
      exact ih (step_gated h horderly.1 hstep) (horderly.2 w₁ hstep) hrest

/-- Outside a window no system call is trapped; one is fatal only where the selector is
gone with its instance. -/
theorem Outside.verdict {base : Memory} {w : Worker} (h : w.Outside base) (hk : w.Known pgsz base)
    (pc : Nat) : w.verdict pc = .passes ∨
      w.verdict pc = .kills ∧ ∃ d, w.dispatch = some d ∧ w.isos d.selector = none := by
  unfold Worker.verdict
  cases hd : w.dispatch with
  | none => exact Or.inl rfl
  | some d =>
      dsimp only
      split
      next => exact Or.inl rfl
      next =>
        cases hiso : w.isos d.selector with
        | none => exact Or.inr ⟨rfl, d, rfl, hiso⟩
        | some iso =>
            have hon := (hk.dispatches d hd).2 iso hiso
            cases hswitch : iso.sudSwitch with
            | none =>
                have hsome := hk.switch _ iso hiso hon
                rw [hswitch] at hsome
                cases hsome
            | some b =>
                cases b with
                | true => exact absurd hswitch (h.allows _ iso hiso)
                | false =>
                    left
                    rw [Option.bind_some, hswitch]

/-- In the window of the instance that system calls are dispatched to, only those from
the C library are made. -/
theorem Inside.verdict {base : Memory} {w : Worker} {vk : Nat} {iso : Iso}
    (h : w.Inside pgsz base vk iso) (hk : w.Known pgsz base) {d : Dispatch}
    (hd : w.dispatch = some d) (hvk : d.selector = vk) (pc : Nat) :
    w.verdict pc = .passes ↔ d.start ≤ pc ∧ pc < d.start + d.size := by
  have hon := (hk.dispatches d hd).2 iso (hvk ▸ h.made)
  unfold Worker.verdict
  rw [hd]
  dsimp only
  split
  next hin => exact ⟨fun _ => hin, fun _ => rfl⟩
  next hout =>
    rw [hvk, h.made, Option.bind_some, h.blocks hon]
    dsimp only
    split
    · exact ⟨fun hv => Verdict.noConfusion hv, fun hin => absurd hin hout⟩
    · exact ⟨fun hv => Verdict.noConfusion hv, fun hin => absurd hin hout⟩

/-- The pages in a window. -/
theorem Inside.page {base : Memory} {w : Worker} {vk : Nat} {iso : Iso}
    (h : w.Inside pgsz base vk iso) (page : Nat) :
    w.mem page = if ∃ r ∈ iso.regions, r.Reaches pgsz base page then some protNone else base page := by
  rw [h.mem]
  split
  next hreach => exact maskRegions_none hreach
  next hreach =>
    exact maskRegions_of_not_reaches fun r hr hpage => hreach ⟨r, hr, hpage⟩

end Worker

open Worker

/-- Over every orderly run, of whatever code: outside a window the memory is as it was
at first, and no system call is trapped; in one it is an actor of its instance that
runs, the pages that the instance's regions reach are masked and no others, and of the
system calls that are dispatched to the instance those from the C library are made and
no others. -/
theorem window_isolates (pgsz : Nat) (base : Memory) (ops : List Op) {w : Worker}
    (horderly : (start base).AllOrderly pgsz base ops) (hrun : (start base).run pgsz ops = some w) :
    (w.inIsolatedWindow = false → w.mem = base ∧
      ∀ pc, w.verdict pc = .passes ∨
        w.verdict pc = .kills ∧ ∃ d, w.dispatch = some d ∧ w.isos d.selector = none) ∧
    (w.inIsolatedWindow = true →
      ∃ vk iso, w.current = some vk ∧ w.isos vk = some iso ∧ w.frames.head? = some (.actor vk) ∧
        (∀ page, w.mem page
          = if ∃ r ∈ iso.regions, r.Reaches pgsz base page then some protNone else base page) ∧
        ∀ d, w.dispatch = some d → d.selector = vk → ∀ pc,
          w.verdict pc = .passes ↔ d.start ≤ pc ∧ pc < d.start + d.size) := by
  have h := run_gated (start_gated pgsz base) horderly hrun
  refine ⟨fun hw => ?_, fun hw => ?_⟩
  · have hout := h.outside hw
    exact ⟨hout.mem, hout.verdict h.known⟩
  · obtain ⟨vk, iso, hin⟩ := h.inside hw
    exact ⟨vk, iso, hin.current, hin.made, hin.frames, hin.page,
      fun d hd hvk => hin.verdict h.known hd hvk⟩

/-- One page, and what an actor does with it: it is masked, and a system call of the
actor's own is trapped. -/
def onePage : Memory := fun page => if page = 5 then some 3 else none

def enterOps : List Op :=
  [.create ⟨none, none, true, true, 0x1000, 0x100⟩, .setScheduler 0 (some 7) 9,
    .setRegions 0 [⟨5 * 4096, 100, 3⟩] true, .continues 0]

theorem enterOps_orderly : (start onePage).AllOrderly 4096 onePage enterOps := by
  refine ⟨rfl, fun w h => ?_⟩
  obtain rfl := Option.some.inj h
  refine ⟨trivial, fun w h => ?_⟩
  obtain rfl := Option.some.inj h
  refine ⟨⟨rfl, ?_⟩, fun w h => ?_⟩
  · intro r hr
    obtain rfl := List.mem_singleton.mp hr
    refine ⟨by decide, fun page hpage => ?_⟩
    have hcover : 5 * 4096 / 4096 ≤ page ∧ page * 4096 < 5 * 4096 + 100 := hpage.2.1
    obtain rfl : page = 5 := by omega
    rfl
  obtain rfl := Option.some.inj h
  refine ⟨fun hw => ?_, fun w h => ?_⟩
  · cases hw
  · trivial

theorem window_isolates_enterOps :
    ∃ w, (start onePage).run 4096 enterOps = some w ∧ w.inIsolatedWindow = true ∧
      w.current = some 0 ∧ w.mem 5 = some protNone ∧ w.verdict 0x1080 = .passes ∧
      w.verdict 0x2000 = .traps := by
  refine ⟨_, rfl, rfl, rfl, ?_, ?_, rfl⟩
  · obtain ⟨vk, iso, hcur, hiso, _, hpage, _⟩ :=
      (window_isolates 4096 onePage enterOps enterOps_orderly rfl).2 rfl
    obtain rfl := Option.some.inj hcur
    obtain rfl := Option.some.inj hiso
    rw [hpage 5]
    decide
  · obtain ⟨vk, iso, hcur, hiso, _, _, hverdict⟩ :=
      (window_isolates 4096 onePage enterOps enterOps_orderly rfl).2 rfl
    exact (hverdict ⟨0x1000, 0x100, 0⟩ rfl (Option.some.inj hcur) 0x1080).mpr (by decide)

/-- Why an instance's window must be left by itself: where its actor continues another
instance, no window is open when both have returned, and the page of the first is still
masked. -/
theorem nested_left_masked :
    ∃ w, (start onePage).run 4096
        [.create ⟨none, none, true, true, 0x1000, 0x100⟩, .setRegions 0 [⟨5 * 4096, 100, 3⟩] true,
          .create ⟨none, none, true, true, 0x1000, 0x100⟩,
          .continues 0, .continues 1, .ret, .ret] = some w ∧
      w.frames = [] ∧ w.inIsolatedWindow = false ∧ w.mem 5 = some protNone :=
  ⟨_, rfl, rfl, rfl, by decide⟩

end Vk.Isolate

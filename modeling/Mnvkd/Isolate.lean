/-
# `Mnvkd.Isolate` — a window around the code of an actor

`vk_isolate_continue` runs an actor between two gates: the pages of the privileged
regions are masked, and system calls are trapped.  They open again where the actor
yields, returns or is trapped, and where a signal jumps to the scheduler.

A worker is one thread of the operating system, with its thread-local variables, the
memory it sees and the functions it is in.  What its code does is any order of the
operations below.  A step is undefined where the kernel kills the process, and where
an instance is used that is not there.
-/
import Mathlib.Logic.Function.Basic

namespace Vk.Isolate

/-! ## Pages and their protection -/

/-- What each page may be used for; `none` where it is not mapped. -/
abbrev Memory : Type := Nat → Option Int

/-- `PROT_NONE`. -/
def protNone : Int := 0

/-- A combination of `PROT_READ`, `PROT_WRITE`, `PROT_EXEC` and `PROT_SEM`. -/
def validProt (prot : Int) : Prop := 0 ≤ prot ∧ prot < 16

instance (prot : Int) : Decidable (validProt prot) := inferInstanceAs (Decidable (_ ∧ _))

structure PrivRegion where
  addr : Nat
  len : Nat
  protWhenUnmasked : Int
  deriving DecidableEq

variable (pgsz : Nat)

namespace PrivRegion

/-- The region has bytes on the page, or `len` was rounded up to it. -/
def Covers (r : PrivRegion) (page : Nat) : Prop :=
  r.addr / pgsz ≤ page ∧ page * pgsz < r.addr + r.len

instance (r : PrivRegion) (page : Nat) : Decidable (r.Covers pgsz page) :=
  inferInstanceAs (Decidable (_ ∧ _))

/-- `mprotect` comes to the page: the address is that of a page, and it goes up to the
first page that is not mapped. -/
def Reaches (r : PrivRegion) (mem : Memory) (page : Nat) : Prop :=
  r.addr % pgsz = 0 ∧ r.Covers pgsz page ∧
    ∀ q, q < page + 1 → r.Covers pgsz q → (mem q).isSome = true

instance (r : PrivRegion) (mem : Memory) (page : Nat) : Decidable (r.Reaches pgsz mem page) :=
  inferInstanceAs (Decidable (_ ∧ _ ∧ _))

end PrivRegion

/-- `mprotect(r.addr, r.len, prot)`, whatever it returns. -/
def mprotect (r : PrivRegion) (prot : Int) (mem : Memory) : Memory := fun page =>
  if validProt prot ∧ r.Reaches pgsz mem page then some prot else mem page

/-- `mask_regions`. -/
def maskRegions (regions : List PrivRegion) (prot : Int) (mem : Memory) : Memory :=
  regions.foldl
    (fun mem r => mprotect pgsz r (if 0 ≤ prot then prot else r.protWhenUnmasked) mem) mem

/-! ## Instances -/

/-- `struct vk_isolate`.  The selector byte is a page of its own, where there is one:
`true` to block. -/
structure Iso where
  cb : Option Nat
  userState : Nat
  regions : List PrivRegion
  sudEnabled : Bool
  sudSwitch : Option Bool

/-- `sud_block_syscalls`. -/
def Iso.blockSyscalls (vk : Iso) : Iso :=
  if vk.sudEnabled && vk.sudSwitch.isSome then { vk with sudSwitch := some true } else vk

/-- `sud_allow_syscalls`. -/
def Iso.allowSyscalls (vk : Iso) : Iso :=
  if vk.sudEnabled && vk.sudSwitch.isSome then { vk with sudSwitch := some false } else vk

/-- What `vk_isolate_create` finds: two variables of the environment, whether the page
of the selector is mapped and `prctl` succeeds, and where the C library is. -/
structure Setup where
  sudenv : Option (List UInt8)
  mode : Option (List UInt8)
  page : Bool
  prctl : Bool
  libcStart : Nat
  libcSize : Nat

/-- `sud_user_disable`. -/
def Setup.sudUserDisable (s : Setup) : Bool :=
  (match s.sudenv with
    | some (c :: _) => c = '0'.toUInt8 || c = 'n'.toUInt8 || c = 'N'.toUInt8
    | some [] | none => false) ||
  (match s.mode with
    | some (c :: _) => c = 'm'.toUInt8 || c = 'M'.toUInt8
    | some [] | none => false)

/-- `vk_isolate_create`, where `calloc` gives it memory. -/
def Setup.create (s : Setup) : Iso where
  cb := none
  userState := 0
  regions := []
  sudEnabled := !s.sudUserDisable && s.page && s.prctl
  sudSwitch := if !s.sudUserDisable && s.page then some false else none

/-! ## A worker -/

/-- A function that has been called and not returned: an actor by
`vk_isolate_continue`, or the scheduler's callback by `vk_isolate_yield` or by the
handler of `SIGSYS`. -/
inductive Frame where
  | actor (vk : Nat)
  | callback
  | handler
  deriving DecidableEq

/-- What the kernel keeps of `PR_SYS_DISPATCH_ON`: calls from the range pass, others as
the selector says. -/
structure Dispatch where
  start : Nat
  size : Nat
  selector : Nat

/-- The instances are numbered as they are made. -/
structure Worker where
  mem : Memory
  isos : Nat → Option Iso
  made : Nat
  dispatch : Option Dispatch
  inIsolatedWindow : Bool
  inSigsysHandler : Bool
  current : Option Nat
  sigsysBlocked : Bool
  /-- The innermost first; none of them in the scheduler's own code. -/
  frames : List Frame
  /-- The callbacks that were called, with what they were called with. -/
  handoffs : List (Nat × Nat)
  /-- Where the system calls that were made were made from. -/
  calls : List Nat

/-- What the code of a worker does next. -/
inductive Op where
  | create (setup : Setup)
  | destroy (vk : Nat)
  | setScheduler (vk : Nat) (cb : Option Nat) (userData : Nat)
  | setRegions (vk : Nat) (regions : List PrivRegion) (allocated : Bool)
  | continues (vk : Nat)
  | yield (vk : Nat)
  | ret
  | syscall (pc : Nat)
  | signal (vk : Option Nat)

/-- What becomes of a system call. -/
inductive Verdict where
  | passes
  | traps
  | kills
  deriving DecidableEq

namespace Worker

/-- A worker that has made no instance. -/
def start (mem : Memory) : Worker :=
  ⟨mem, fun _ => none, 0, none, false, false, none, false, [], [], []⟩

def setIso (w : Worker) (vk : Nat) (iso : Iso) : Worker :=
  { w with isos := Function.update w.isos vk (some iso) }

/-- `mask_regions(vk, PROT_NONE); sud_block_syscalls(vk); t_in_isolated_window = true;`. -/
def shut (w : Worker) (vk : Nat) (iso : Iso) : Worker :=
  { w.setIso vk iso.blockSyscalls with
    mem := maskRegions pgsz iso.regions protNone w.mem, inIsolatedWindow := true }

/-- `sud_allow_syscalls(vk); mask_regions(vk, -1); t_in_isolated_window = false;`. -/
def unshut (w : Worker) (vk : Nat) (iso : Iso) : Worker :=
  { w.setIso vk iso.allowSyscalls with
    mem := maskRegions pgsz iso.regions (-1) w.mem, inIsolatedWindow := false }

/-- `if (vk->cb) vk->cb(vk->user_state);`. -/
def handOff (w : Worker) (iso : Iso) : Worker :=
  match iso.cb with
  | some cb =>
      { w with frames := .callback :: w.frames, handoffs := w.handoffs ++ [(cb, iso.userState)] }
  | none => w

/-- `vk_isolate_yield`. -/
def yield (w : Worker) (vk : Nat) (iso : Iso) : Worker :=
  if w.inIsolatedWindow then (w.unshut pgsz vk iso).handOff iso else w.handOff iso

/-- What the kernel makes of a system call.  A signal that it must deliver and that is
blocked kills the process, and so does a selector that it cannot read. -/
def verdict (w : Worker) (pc : Nat) : Verdict :=
  match w.dispatch with
  | none => .passes
  | some d =>
      if d.start ≤ pc ∧ pc < d.start + d.size then .passes
      else
        match (w.isos d.selector).bind Iso.sudSwitch with
        | none => .kills
        | some false => .passes
        | some true => if w.sigsysBlocked then .kills else .traps

/-- `vk_sigsys_handler`, up to where it returns or calls the scheduler.  `SIGSYS` is
blocked while it runs. -/
def sigsysHandler (w : Worker) : Option Worker :=
  match w.current with
  | none => some w
  | some vk =>
      (w.isos vk).map fun iso =>
        if w.inSigsysHandler then w
        else
          let w := w.unshut pgsz vk iso
          match iso.cb with
          | none => w
          | some cb =>
              { w with
                inSigsysHandler := true, sigsysBlocked := true, frames := .handler :: w.frames,
                handoffs := w.handoffs ++ [(cb, iso.userState)] }

/-- A function returns.  `vk_isolate_continue` goes on behind the actor, and the handler
behind the callback. -/
def ret (w : Worker) : Option Worker :=
  match w.frames with
  | [] => none
  | .actor vk :: frames =>
      let w := { w with frames := frames }
      if w.inIsolatedWindow then (w.isos vk).map fun iso => w.yield pgsz vk iso else some w
  | .callback :: frames => some { w with frames := frames }
  | .handler :: frames =>
      some { w with frames := frames, inSigsysHandler := false, sigsysBlocked := false }

/-- A signal that jumps to where the scheduler set out from, which then calls
`vk_isolate_on_signal`. -/
def onSignal (w : Worker) (vk : Option Nat) : Option Worker :=
  let w := { w with frames := [], sigsysBlocked := false }
  match vk with
  | none => some w
  | some vk => (w.isos vk).map fun iso => w.unshut pgsz vk iso

def step (w : Worker) : Op → Option Worker
  | .create setup =>
      some { w.setIso w.made setup.create with
        made := w.made + 1
        dispatch :=
          if setup.create.sudEnabled then some ⟨setup.libcStart, setup.libcSize, w.made⟩
          else w.dispatch }
  | .destroy vk => (w.isos vk).map fun _ => { w with isos := Function.update w.isos vk none }
  | .setScheduler vk cb userData =>
      (w.isos vk).map fun iso => w.setIso vk { iso with cb := cb, userState := userData }
  | .setRegions vk regions allocated =>
      (w.isos vk).map fun iso =>
        w.setIso vk { iso with regions := if allocated then regions else [] }
  | .continues vk =>
      (w.isos vk).map fun iso =>
        { { w with current := some vk }.shut pgsz vk iso with frames := .actor vk :: w.frames }
  | .yield vk => (w.isos vk).map fun iso => w.yield pgsz vk iso
  | .ret => w.ret pgsz
  | .syscall pc =>
      match w.verdict pc with
      | .passes => some { w with calls := w.calls ++ [pc] }
      | .traps => w.sigsysHandler pgsz
      | .kills => none
  | .signal vk => w.onSignal pgsz vk

/-- What the code of a worker does, one operation after another. -/
def run (w : Worker) : List Op → Option Worker
  | [] => some w
  | op :: ops => (w.step pgsz op).bind fun w => w.run ops

end Worker

end Vk.Isolate

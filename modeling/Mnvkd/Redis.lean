/-
# `Mnvkd.Redis` — reading RESP commands

`redis_request` over whatever its reader gives it, one call of the reader a
step.  The buffers it reads into are `line` and the slots of `query.argv`, and
every store into one of them is put on record.

A count is checked, and the length of a bulk is kept below the slot's; but a
length is an `int`, and a negative one becomes a `size_t` near 2^64 on its way
into `vk_read`.  So the stores keep to their buffers exactly while no bulk of
negative length comes with more behind it than a slot holds, and no line runs
over `line` (`stores_inside_iff`).
-/
import Mathlib.Logic.Function.Iterate
import Mnvkd.Lib.Text
import Mnvkd.Reader

namespace Vk.Redis

open Lib Text

/-! ## The query -/

def maxArgs : Nat := 8

def maxBulk : Nat := 64

/-- `sizeof(self->line)`. -/
def lineSize : Nat := 128

/-- `struct redis_query`. -/
structure Query where
  argc : Int
  close : Bool
  shutdown : Bool
  argv : Fin maxArgs → List UInt8

/-- Bytes stored over those of a buffer. -/
def put (offset : Nat) (bytes buffer : List UInt8) : List UInt8 :=
  buffer.take offset ++ bytes ++ buffer.drop (offset + bytes.length)

theorem put_zero (bytes buffer : List UInt8) :
    put 0 bytes buffer = bytes ++ buffer.drop bytes.length := by
  rw [put, List.take_zero, Nat.zero_add]
  rfl

/-- A NUL stored behind a line. -/
theorem put_behind (pre : List UInt8) (b : UInt8) (stale : List UInt8) :
    put (pre.length + 1) [0] (pre ++ b :: stale) = pre ++ b :: 0 :: stale.drop 1 := by
  have htake : (pre ++ b :: stale).take (pre.length + 1) = pre ++ [b] :=
    List.take_length_add_append 1
  have hdrop : (pre ++ b :: stale).drop (pre.length + 1 + 1) = stale.drop 1 :=
    List.drop_length_add_append 2
  rw [put, htake, List.length_singleton, hdrop, List.append_assoc, List.append_assoc]
  rfl

namespace Query

/-- Store into the slot of an argument. -/
def putArg (q : Query) (i offset : Nat) (bytes : List UInt8) : Query :=
  { q with argv := fun j => if j.val = i then put offset bytes (q.argv j) else q.argv j }

@[simp] theorem putArg_argc (q : Query) (i offset : Nat) (bytes : List UInt8) :
    (q.putArg i offset bytes).argc = q.argc := rfl

/-- `memset` to zero, and then the query that says the stream has ended. -/
def ended : Query := ⟨0, true, false, fun _ => List.replicate maxBulk 0⟩

/-- The arguments as their reader sees them. -/
def args (q : Query) : List (List UInt8) :=
  ((List.finRange maxArgs).take q.argc.toNat).map fun i => cstring (q.argv i)

end Query

/-- The names that close the connection. -/
def shutdownName : List UInt8 := bytes "SHUTDOWN"

def quitName : List UInt8 := bytes "QUIT"

/-- `close` and `shutdown` from the name of the command. -/
def Query.flag (q : Query) : Query :=
  { q with
    shutdown := strcaseeq (q.argv ⟨0, by decide⟩) shutdownName
    close := strcaseeq (q.argv ⟨0, by decide⟩) shutdownName ||
      strcaseeq (q.argv ⟨0, by decide⟩) quitName }

/-! ## Stores -/

inductive Object where
  | line
  | slot (i : Nat)
  deriving DecidableEq, Repr

/-- There are slots below `maxArgs` only. -/
def Object.size : Object → Nat
  | .line => lineSize
  | .slot i => if i < maxArgs then maxBulk else 0

/-- A store of `length` bytes at `offset` of an object. -/
structure Store where
  object : Object
  offset : Int
  length : Nat
  deriving DecidableEq, Repr

/-- The store keeps to its object. -/
def Store.Inside (s : Store) : Prop := 0 ≤ s.offset ∧ s.offset + s.length ≤ s.object.size

instance (s : Store) : Decidable s.Inside := inferInstanceAs (Decidable (_ ∧ _))

/-! ## The coroutine -/

/-- Where `redis_request` stands: at the head of its `do`, at the head of its
`for`, at the `vk_read` of a bulk, at the `vk_readline` behind one, past its loops,
or thrown out of them by `vk_raise`. -/
inductive Stage where
  | command
  | header
  | content
  | trailer
  | ended
  | raised (errno : Errno)
  deriving DecidableEq

/-- `self` of `redis_request`, what it reads from, the queries it has written to
its responder, and the stores it has made. -/
structure State (σ : Type) where
  stage : Stage
  query : Query
  line : List UInt8
  i : Nat
  len : Int
  input : σ
  sent : List Query
  stores : List Store

namespace State

variable {σ : Type}

def raise (st : State σ) (errno : Errno) : State σ := { st with stage := .raised errno }

/-- `vk_readline(rc, self->line, sizeof(self->line) - 1)`. -/
def readline (r : Reader σ) (st : State σ) : State σ :=
  { st with
    line := put 0 (r.readline (lineSize - 1) st.input).1 st.line
    input := (r.readline (lineSize - 1) st.input).2
    stores := st.stores ++ [⟨.line, 0, (r.readline (lineSize - 1) st.input).1.length⟩] }

/-- Its `rc`. -/
def lineRc (r : Reader σ) (st : State σ) : Nat := (r.readline (lineSize - 1) st.input).1.length

/-- `self->line[rc] = 0`. -/
def endLine (st : State σ) (rc : Nat) : State σ :=
  { st with line := put rc [0] st.line, stores := st.stores ++ [⟨.line, rc, 1⟩] }

/-- `self->len` on its way into `vk_read`, a `size_t`. -/
def readLen (st : State σ) : Nat := (st.len % 2 ^ 64).toNat

/-- `vk_read(rc, self->query.argv[self->i], self->len)`. -/
def readArg (r : Reader σ) (st : State σ) : State σ :=
  { st with
    query := st.query.putArg st.i 0 (r.read st.readLen st.input).1
    input := (r.read st.readLen st.input).2
    stores := st.stores ++ [⟨.slot st.i, 0, (r.read st.readLen st.input).1.length⟩] }

/-- Its `rc`. -/
def argRc (r : Reader σ) (st : State σ) : Nat := (r.read st.readLen st.input).1.length

/-- `self->query.argv[self->i][self->len] = 0`. -/
def endArg (st : State σ) : State σ :=
  { st with
    query := st.query.putArg st.i st.len.toNat [0]
    stores := st.stores ++ [⟨.slot st.i, st.len, 1⟩] }

/-- `vk_write` of the query. -/
def send (st : State σ) : State σ := { st with sent := st.sent ++ [st.query] }

/-- Past the loop, where no command has closed. -/
def finish (st : State σ) : State σ := { st with query := Query.ended, stage := .ended }.send

/-- The count of a command is within bounds. -/
def checkCount (st : State σ) : State σ :=
  if st.query.argc ≤ 0 ∨ maxArgs < st.query.argc then st.raise Errno.EINVAL
  else { st with i := 0, stage := .header }

/-- The count of a command, from its line. -/
def count (st : State σ) : State σ :=
  if st.line.head? ≠ some '*'.toUInt8 then st.raise Errno.EINVAL
  else { st with query := { st.query with argc := atoi st.line.tail } }.checkCount

/-- `self->query.close = 0`. -/
def reopen (st : State σ) : State σ := { st with query := { st.query with close := false } }

/-- The line of a command. -/
def command (r : Reader σ) (st : State σ) : State σ :=
  if st.lineRc r = 0 then (st.reopen.readline r).finish
  else ((st.reopen.readline r).endLine (st.lineRc r)).count

/-- The length of a bulk, kept below that of a slot. -/
def clamp (len : Int) : Int := if len ≥ maxBulk then maxBulk - 1 else len

/-- The line of an argument. -/
def header (r : Reader σ) (st : State σ) : State σ :=
  if st.lineRc r = 0 ∨ (st.readline r).line.head? ≠ some '$'.toUInt8 then
    (st.readline r).raise Errno.EPIPE
  else
    { st.readline r with len := clamp (atoi (st.readline r).line.tail), stage := .content }

/-- Its bytes. -/
def content (r : Reader σ) (st : State σ) : State σ :=
  if (st.argRc r : Int) ≠ st.len then (st.readArg r).raise Errno.EPIPE
  else { (st.readArg r).endArg with stage := .trailer }

/-- What is left of its last line. -/
def trailer (r : Reader σ) (st : State σ) : State σ :=
  if st.lineRc r = 0 then (st.readline r).raise Errno.EPIPE
  else { st.readline r with i := st.i + 1, stage := .header }

/-- All arguments are read: the query goes to the responder. -/
def emit (r : Reader σ) (st : State σ) : State σ :=
  if st.query.flag.close then { st with query := st.query.flag, stage := .ended }.send
  else if r.nodata st.input then { st with query := st.query.flag }.send.finish
  else { st with query := st.query.flag, stage := .command }.send

/-- `redis_request`, one call of its reader a step. -/
def step (r : Reader σ) (st : State σ) : State σ :=
  match st.stage with
  | .command => st.command r
  | .header => if (st.i : Int) < st.query.argc then st.header r else st.emit r
  | .content => st.content r
  | .trailer => st.trailer r
  | .ended => st
  | .raised _ => st

/-- The state after `n` steps. -/
def run (r : Reader σ) (n : Nat) (st : State σ) : State σ := (step r)^[n] st

theorem run_succ (r : Reader σ) (n : Nat) (st : State σ) :
    run r (n + 1) st = step r (run r n st) := Function.iterate_succ_apply' _ _ _

theorem run_add (r : Reader σ) (m n : Nat) (st : State σ) :
    run r (m + n) st = run r m (run r n st) := Function.iterate_add_apply _ _ _ _

/-- `redis_request` begins: its `self` holds what the memory held. -/
def start (query : Query) (line : List UInt8) (input : σ) : State σ :=
  ⟨.command, query, line, 0, 0, input, [], []⟩

/-! ## The stores keep to their buffers -/

/-- What a step is to find in its input: a line that fits `line`, with its NUL where
one is put behind it, and after a negative length no more than a slot holds. -/
def Careful (r : Reader σ) (st : State σ) : Prop :=
  match st.stage with
  | .command => st.lineRc r < lineSize
  | .header => (st.i : Int) < st.query.argc → st.lineRc r ≤ lineSize
  | .content => st.len < 0 → st.argRc r ≤ maxBulk
  | .trailer => st.lineRc r ≤ lineSize
  | .ended => True
  | .raised _ => True

/-- The argument index is below the count, the count is no more than there are
slots, and a length is below a slot's. -/
def Bounds (st : State σ) : Prop :=
  match st.stage with
  | .command => True
  | .header => st.query.argc ≤ maxArgs
  | .content => (st.i : Int) < st.query.argc ∧ st.query.argc ≤ maxArgs ∧ st.len < maxBulk
  | .trailer => (st.i : Int) < st.query.argc ∧ st.query.argc ≤ maxArgs
  | .ended => True
  | .raised _ => True

theorem clamp_lt (len : Int) : clamp len < maxBulk := by
  unfold clamp
  split
  · decide
  · omega

theorem bounds_checkCount (st : State σ) : st.checkCount.Bounds := by
  simp only [checkCount]
  split
  next => trivial
  next hargc => exact Int.not_lt.mp fun hlt => hargc (Or.inr hlt)

theorem bounds_emit (r : Reader σ) (st : State σ) : (st.emit r).Bounds := by
  simp only [emit]
  split
  next => trivial
  next =>
    split
    next => trivial
    next => trivial

theorem Bounds.step {r : Reader σ} {st : State σ} (h : st.Bounds) : (st.step r).Bounds := by
  cases hs : st.stage with
  | command =>
      simp only [State.step, hs, command]
      split
      next => trivial
      next =>
        simp only [count]
        split
        next => trivial
        next => exact bounds_checkCount _
  | header =>
      have hargc : st.query.argc ≤ maxArgs := by simpa only [Bounds, hs] using h
      simp only [State.step, hs]
      split
      next hi =>
        simp only [header]
        split
        next => trivial
        next => exact ⟨hi, hargc, clamp_lt _⟩
      next => exact bounds_emit r st
  | content =>
      have hcontent : (st.i : Int) < st.query.argc ∧ st.query.argc ≤ maxArgs ∧ st.len < maxBulk := by
        simpa only [Bounds, hs] using h
      simp only [State.step, hs, content]
      split
      next => trivial
      next => exact ⟨hcontent.1, hcontent.2.1⟩
  | trailer =>
      have htrailer : (st.i : Int) < st.query.argc ∧ st.query.argc ≤ maxArgs := by
        simpa only [Bounds, hs] using h
      simp only [State.step, hs, trailer]
      split
      next => trivial
      next => exact htrailer.2
  | ended => simpa only [State.step, hs] using h
  | raised e => simpa only [State.step, hs] using h

theorem bounds_run (r : Reader σ) {st : State σ} (h : st.Bounds) (n : Nat) :
    (run r n st).Bounds := by
  induction n with
  | zero => exact h
  | succ n ih => rw [run_succ]; exact ih.step

/-- Every store on record keeps to its object. -/
def Inside (st : State σ) : Prop := ∀ s ∈ st.stores, s.Inside

theorem forall_mem_append_singleton {α : Type} {p : α → Prop} {as : List α} {a : α} :
    (∀ b ∈ as ++ [a], p b) ↔ (∀ b ∈ as, p b) ∧ p a := by
  rw [List.forall_mem_append, List.forall_mem_singleton]

theorem inside_line (offset length : Nat) :
    (⟨.line, offset, length⟩ : Store).Inside ↔ offset + length ≤ lineSize := by
  show (0 : Int) ≤ offset ∧ (offset : Int) + length ≤ lineSize ↔ _
  omega

theorem inside_line_zero (length : Nat) :
    (⟨.line, 0, length⟩ : Store).Inside ↔ length ≤ lineSize := by
  have := inside_line 0 length
  rwa [Nat.zero_add] at this

theorem inside_slot {i : Nat} (hi : i < maxArgs) (offset : Int) (length : Nat) :
    (⟨.slot i, offset, length⟩ : Store).Inside ↔ 0 ≤ offset ∧ offset + length ≤ maxBulk := by
  show 0 ≤ offset ∧ offset + length ≤ ((if i < maxArgs then maxBulk else 0 : Nat) : Int) ↔ _
  rw [if_pos hi]

theorem inside_congr {st st' : State σ} (h : st'.stores = st.stores) : st'.Inside ↔ st.Inside := by
  rw [Inside, Inside, h]

theorem inside_readline (r : Reader σ) (st : State σ) :
    (st.readline r).Inside ↔ st.Inside ∧ st.lineRc r ≤ lineSize := by
  rw [Inside, readline, forall_mem_append_singleton, inside_line_zero]
  rfl

theorem inside_endLine (st : State σ) (rc : Nat) :
    (st.endLine rc).Inside ↔ st.Inside ∧ rc < lineSize := by
  rw [Inside, endLine, forall_mem_append_singleton, inside_line]
  rfl

theorem inside_readArg (r : Reader σ) {st : State σ} (hi : st.i < maxArgs) :
    (st.readArg r).Inside ↔ st.Inside ∧ st.argRc r ≤ maxBulk := by
  rw [Inside, readArg, forall_mem_append_singleton, inside_slot hi]
  show st.Inside ∧ (0 : Int) ≤ 0 ∧ (0 : Int) + (st.argRc r : Nat) ≤ maxBulk ↔ _
  exact and_congr_right fun _ => ⟨fun h => by omega, fun h => ⟨Int.le_refl 0, by omega⟩⟩

theorem inside_endArg {st : State σ} (hi : st.i < maxArgs) :
    st.endArg.Inside ↔ st.Inside ∧ 0 ≤ st.len ∧ st.len < maxBulk := by
  rw [Inside, endArg, forall_mem_append_singleton, inside_slot hi]
  exact Iff.rfl

theorem checkCount_stores (st : State σ) : st.checkCount.stores = st.stores := by
  simp only [checkCount]
  split
  next => rfl
  next => rfl

theorem count_stores (st : State σ) : st.count.stores = st.stores := by
  simp only [count]
  split
  next => rfl
  next => exact checkCount_stores _

theorem emit_stores (r : Reader σ) (st : State σ) : (st.emit r).stores = st.stores := by
  simp only [emit]
  split
  next => rfl
  next =>
    split
    next => rfl
    next => rfl

theorem command_inside_iff (r : Reader σ) (st : State σ) :
    (st.command r).Inside ↔ st.Inside ∧ st.lineRc r < lineSize := by
  simp only [command]
  split
  next hrc =>
    have hin : ((st.reopen.readline r).finish).Inside ↔ _ := inside_readline r st.reopen
    rw [hin]
    show st.Inside ∧ st.lineRc r ≤ lineSize ↔ _
    rw [hrc]
    exact and_congr_right fun _ => iff_of_true (Nat.zero_le _) (by decide)
  next =>
    rw [inside_congr (count_stores _), inside_endLine, inside_readline]
    show (st.Inside ∧ st.lineRc r ≤ lineSize) ∧ st.lineRc r < lineSize ↔ _
    exact ⟨fun h => ⟨h.1.1, h.2⟩, fun h => ⟨⟨h.1, Nat.le_of_lt h.2⟩, h.2⟩⟩

theorem header_inside_iff (r : Reader σ) (st : State σ) :
    (st.header r).Inside ↔ st.Inside ∧ st.lineRc r ≤ lineSize := by
  rw [← inside_readline]
  simp only [header]
  split
  next => exact Iff.rfl
  next => exact Iff.rfl

theorem trailer_inside_iff (r : Reader σ) (st : State σ) :
    (st.trailer r).Inside ↔ st.Inside ∧ st.lineRc r ≤ lineSize := by
  rw [← inside_readline]
  simp only [trailer]
  split
  next => exact Iff.rfl
  next => exact Iff.rfl

/-- A bulk of no negative length is read into its slot. -/
theorem argRc_le {r : Reader σ} {st : State σ} (h : 0 ≤ st.len) (hlt : st.len < maxBulk) :
    (st.argRc r : Int) ≤ st.len := by
  have hlen : (st.readLen : Int) = st.len := by
    have h64 : (maxBulk : Int) < 2 ^ 64 := by decide
    rw [readLen, Int.emod_eq_of_lt h (by omega), Int.toNat_of_nonneg h]
  have hread : st.argRc r ≤ st.readLen := r.length_read _ _
  omega

theorem content_inside_iff {r : Reader σ} {st : State σ} (hi : st.i < maxArgs)
    (hlen : st.len < maxBulk) :
    (st.content r).Inside ↔ st.Inside ∧ (st.len < 0 → st.argRc r ≤ maxBulk) := by
  have hfits : 0 ≤ st.len → st.argRc r ≤ maxBulk := fun h => by
    have := argRc_le (r := r) h hlen
    omega
  simp only [content]
  split
  next =>
    have hin : ((st.readArg r).raise Errno.EPIPE).Inside ↔ _ := inside_readArg r hi
    rw [hin]
    refine and_congr_right fun _ => ⟨fun h _ => h, fun h => ?_⟩
    rcases Int.lt_or_le st.len 0 with hneg | hnonneg
    · exact h hneg
    · exact hfits hnonneg
  next hrc =>
    have hnonneg : 0 ≤ st.len := by omega
    have hin : ({ (st.readArg r).endArg with stage := .trailer } : State σ).Inside ↔ _ :=
      @inside_endArg _ (st.readArg r) hi
    rw [hin, inside_readArg r hi]
    exact ⟨fun h => ⟨h.1.1, fun hneg => absurd hneg (Int.not_lt.mpr hnonneg)⟩,
      fun h => ⟨⟨h.1, hfits hnonneg⟩, hnonneg, hlen⟩⟩

/-- The stores a step adds keep to their objects exactly when it is careful. -/
theorem step_inside_iff {r : Reader σ} {st : State σ} (h : st.Bounds) :
    (st.step r).Inside ↔ st.Inside ∧ st.Careful r := by
  cases hs : st.stage with
  | command =>
      simp only [State.step, Careful, hs]
      exact command_inside_iff r st
  | header =>
      simp only [State.step, Careful, hs]
      split
      next hi =>
        rw [header_inside_iff]
        exact and_congr_right fun _ => ⟨fun h _ => h, fun h => h hi⟩
      next hi =>
        rw [inside_congr (emit_stores r st)]
        exact ⟨fun h => ⟨h, fun hi' => absurd hi' hi⟩, And.left⟩
  | content =>
      have hcontent : (st.i : Int) < st.query.argc ∧ st.query.argc ≤ maxArgs ∧ st.len < maxBulk := by
        simpa only [Bounds, hs] using h
      simp only [State.step, Careful, hs]
      exact content_inside_iff (by omega) hcontent.2.2
  | trailer =>
      simp only [State.step, Careful, hs]
      exact trailer_inside_iff r st
  | ended => simp only [State.step, hs, Careful, and_true]
  | raised e => simp only [State.step, hs, Careful, and_true]

/-- Whatever `redis_request` reads, its stores keep to `line` and to the slot of their
argument, of which there are `maxArgs`, exactly when every step is careful: no line
runs over `line`, and no bulk of negative length comes with more behind it than a
slot holds. -/
theorem stores_inside_iff (r : Reader σ) (query : Query) (line : List UInt8) (input : σ) :
    (∀ n, (run r n (start query line input)).Inside) ↔
      ∀ n, (run r n (start query line input)).Careful r := by
  have hbounds := bounds_run r (show (start query line input).Bounds from trivial)
  constructor
  · intro h n
    have hstep := h (n + 1)
    rw [run_succ] at hstep
    exact ((step_inside_iff (hbounds n)).mp hstep).2
  · intro h n
    induction n with
    | zero => exact fun s hs => absurd hs List.not_mem_nil
    | succ n ih =>
        rw [run_succ]
        exact (step_inside_iff (hbounds n)).mpr ⟨ih, h n⟩

/-- A bulk of length -1, with 65 bytes behind it. -/
def negativeBulk : List UInt8 :=
  bytes "*1\r\n$-1\r\n" ++ List.replicate 65 0

/-- All 65 are stored in the slot of 64. -/
theorem negative_length_overruns :
    ¬∀ input : List UInt8, ∀ n,
      (run Reader.whole n (start Query.ended (List.replicate lineSize 0) input)).Inside := by
  intro h
  have hstored := h negativeBulk 3 ⟨.slot 0, 0, 65⟩ (by decide +kernel)
  exact absurd hstored (by decide)

end State

end Vk.Redis

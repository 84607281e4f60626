/-
# `Mnvkd.Echo` — numbered lines

`vk_echo` answers each line of its stream with the line and its number.  For a line it
takes two buffers from the micro-heap, `in` and behind it `out`, and gives them back
when the answer is written.

The buffers are whole pages, so the word by which the heap finds its way back is the
last eight bytes of `out`.  An answer that reaches it leads the heap elsewhere, and no
other does (`echo_numbers`).  A NUL ends a line early, and EOF that is marked when the
last line has been read leaves that line unanswered.

What is written goes out here; no write fails.
-/
import Mnvkd.Lib.Text
import Mnvkd.StackBytes
import Mnvkd.Wire

namespace Vk

open Lib Text
open Vectoring (newline)

/-! ## Lines of a stream -/

/-- The lines of a stream, with their newlines; the last may have none. -/
def lines : List UInt8 → List (List UInt8)
  | [] => []
  | b :: bs =>
      if b = newline then [b] :: lines bs
      else
        match lines bs with
        | [] => [[b]]
        | l :: ls => (b :: l) :: ls

theorem lines_eq {bs : List UInt8} (h : bs ≠ []) :
    lines bs = firstLine bs :: lines (bs.drop (firstLine bs).length) := by
  induction bs with
  | nil => exact absurd rfl h
  | cons b bs ih =>
      rw [lines]
      split
      next hb =>
        rw [hb, ← List.nil_append (newline :: bs), Reader.firstLine_line List.not_mem_nil]
        rfl
      next hb =>
        have hnot : newline ∉ [b] := fun hin => hb (List.mem_singleton.mp hin).symm
        have hfirst : firstLine (b :: bs) = b :: firstLine bs := firstLine_append hnot bs
        rw [hfirst, List.length_cons, List.drop_succ_cons]
        cases bs with
        | nil => rfl
        | cons b' bs => rw [ih (List.cons_ne_nil b' bs)]

theorem lines_eq_nil {bs : List UInt8} : lines bs = [] ↔ bs = [] := by
  refine ⟨fun h => ?_, fun h => by rw [h]; rfl⟩
  by_contra hne
  rw [lines_eq hne] at h
  cases h

namespace Echo

/-! ## The coroutine -/

/-- `sizeof(buf->in)`. -/
def inSize : Nat := 8192

/-- `sizeof(buf->out)`. -/
def outSize : Nat := 8192

/-- `sizeof(*buf)`. -/
def bufSize : Nat := inSize + outSize

/-- `"Line %zu: %s"`. -/
def text (i : UInt64) (line : List UInt8) : List UInt8 :=
  bytes "Line " ++ decimal i.toNat ++ bytes ": " ++ cstring line

/-- What `snprintf` of so many bytes stores. -/
def snprintf (n : Nat) (s : List UInt8) : List UInt8 := s.take (n - 1) ++ [0]

/-- Where `vk_echo` stands: it reads a line, has left its loop, or raised an error. -/
inductive Stage where
  | line
  | ended
  | raised (errno : Errno)
  deriving DecidableEq

structure State (σ : Type) where
  stream : σ
  heap : ByteStack
  /-- `self->i`. -/
  i : UInt64
  output : List UInt8
  stage : Stage

section Turn
variable {σ : Type} (page : Nat) (r : Reader σ) (eof : σ → Bool)

/-- `vk_free`, and on to where the coroutine goes. -/
def free (stage : Stage) (s : State σ) : State σ :=
  match s.heap.pop with
  | (.ok (), heap) => { s with heap, stage }
  | (.err e, heap) => { s with heap, stage := .raised e }

/-- Memory when a line in `in` has got its NUL, and its answer is in `out`. -/
def answer (buf : Nat) (i : UInt64) (line : List UInt8) (mem : Memory UInt8) : Memory UInt8 :=
  let mem := (mem.store buf line).store (buf + line.length) [0]
  mem.store (buf + inSize) (snprintf (outSize - 1) (text i (mem.load buf (line.length + 1))))

/-- A turn of the loop. -/
def turn (s : State σ) : State σ :=
  match s.heap.push page 1 bufSize with
  | (.err e, heap) => { s with heap, stage := .raised e }
  | (.ok buf, heap) =>
      let (line, stream) := r.readline (inSize - 1) s.stream
      if line = [] ∨ eof stream = true then
        free .ended { s with stream, heap := heap.written (heap.mem.store buf line) }
      else
        let mem := answer buf s.i line heap.mem
        free .line {
          stream, heap := heap.written mem, i := s.i + 1
          output := s.output ++ cstring (mem.load (buf + inSize) outSize), stage := s.stage }

def step (s : State σ) : State σ :=
  match s.stage with
  | .line => turn page r eof s
  | .ended | .raised _ => s

/-- So many steps. -/
def run (n : Nat) (s : State σ) : State σ := (step page r eof)^[n] s

/-- The coroutine begins. -/
def begin (stream : σ) (heap : ByteStack) : State σ := ⟨stream, heap, 0, [], .line⟩

end Turn

/-! ## What is answered -/

/-- The answers to lines, from a number on. -/
def answers (i : UInt64) : List (List UInt8) → List (List UInt8)
  | [] => []
  | l :: ls => text i l :: answers (i + 1) ls

section Answered
variable {σ : Type} (r : Reader σ) (eof : σ → Bool)

/-- What is left when so many lines have been read. -/
def ahead (n : Nat) (stream : σ) : σ := (fun s => (r.readline (inSize - 1) s).2)^[n] stream

/-- The lines of the stream that are answered: not the last, where EOF is marked behind it. -/
def answered (stream : σ) (ls : List (List UInt8)) : List (List UInt8) :=
  if eof (ahead r ls.length stream) then ls.dropLast else ls

theorem answered_nil (stream : σ) : answered r eof stream [] = [] := by
  rw [answered]
  split <;> rfl

/-- Where EOF is marked when the first line has been read, it is the last. -/
theorem answered_cons_of_eof {stream : σ} {l : List UInt8}
    (h : eof (r.readline (inSize - 1) stream).2 = true) : answered r eof stream [l] = [] :=
  if_pos h

theorem answered_cons {stream : σ} {l : List UInt8} {ls : List (List UInt8)}
    (h : eof (r.readline (inSize - 1) stream).2 = false) :
    answered r eof stream (l :: ls)
      = l :: answered r eof (r.readline (inSize - 1) stream).2 ls := by
  rw [answered, answered]
  cases ls with
  | nil =>
      have hone : eof (ahead r [l].length stream) = false := h
      rw [hone, if_neg Bool.false_ne_true]
      split <;> rfl
  | cons l' ls =>
      show (if eof (ahead r (l' :: ls).length (r.readline (inSize - 1) stream).2) then _ else _) = _
      split <;> rfl

end Answered

/-! ## A block of the heap -/

/-- There is room for the buffers. -/
structure Roomy (heap : ByteStack) : Prop where
  start : heap.addrStart ≤ heap.addrCursor
  room : heap.addrCursor + bufSize ≤ heap.addrStop
  stop : heap.addrStop < 2 ^ 64

section Heap
variable {page : Nat} {heap : ByteStack}

/-- Where the block of the buffers ends, and its word is. -/
theorem wordPtr_top (h : Roomy heap) :
    (heap.addrCursor + bufSize) % 2 ^ 64 = heap.addrCursor + bufSize ∧
      wordPtr (heap.addrCursor + bufSize) = heap.addrCursor + bufSize - 8 := by
  have hroom := h.room
  have hstop := h.stop
  have hsize : bufSize = 16384 := rfl
  exact ⟨Nat.mod_eq_of_lt (by omega), wordPtr_eq (by omega) (by omega)⟩

theorem push_roomy (hpage : page ∣ bufSize) (h : Roomy heap) :
    heap.push page 1 bufSize = (.ok heap.addrCursor, heap.pushed bufSize) := by
  have hroom := h.room
  have hlen : alignedlen page (1 * bufSize) = bufSize := by
    rw [Nat.one_mul, alignedlen, Nat.div_mul_cancel hpage, if_neg (Nat.lt_irrefl _),
      Nat.div_mul_cancel hpage]
  have hpush := safeAlignedlen_eq page 1 bufSize
  rw [hlen, if_pos (by decide), if_pos (by decide)] at hpush
  have hcursor := (wordPtr_top h).1
  simp only [ByteStack.push, hpush, hcursor, if_pos hroom]
  rw [ByteStack.pushed, hcursor]

/-- The heap gives the block back, to wherever its word leads. -/
theorem pop_written (h : Roomy heap) (mem : Memory UInt8) :
    ∃ cursor, ((heap.pushed bufSize).written mem).pop
        = (.ok (), { heap with addrCursor := cursor, mem }) ∧
      (cursor = heap.addrCursor ↔ wordBelow mem (heap.addrCursor + bufSize) = bufSize) := by
  have hstart := h.start
  have hroom := h.room
  have hstop := h.stop
  have hsize : bufSize = 16384 := rfl
  obtain ⟨hcursor, hword⟩ := wordPtr_top h
  refine ⟨(heap.addrCursor + bufSize + (2 ^ 64 - wordBelow mem (heap.addrCursor + bufSize)))
    % 2 ^ 64, ?_, ?_⟩
  · simp only [ByteStack.pop, ByteStack.written, ByteStack.pushed, hcursor, hword]
    rw [if_neg (by omega), if_neg (by omega), if_neg (by omega)]
  · have hlt : wordBelow mem (heap.addrCursor + bufSize) < 2 ^ 64 := wordBelow_lt
    omega

theorem word_pushed (h : Roomy heap) :
    wordBelow (heap.pushed bufSize).mem (heap.addrCursor + bufSize) = bufSize := by
  rw [ByteStack.pushed_mem, (wordPtr_top h).1]
  exact wordBelow_setWordBelow (by decide)

/-- The lowest byte of the word is 0, as is the NUL of an answer. -/
theorem byte_pushed (h : Roomy heap) :
    (heap.pushed bufSize).mem (heap.addrCursor + bufSize - 8) = 0 := by
  have hlen : (Image.leBytes 8 bufSize).length = 8 := Image.length_leBytes 8 bufSize
  rw [ByteStack.pushed_mem, (wordPtr_top h).1, setWordBelow, (wordPtr_top h).2,
    Memory.store_of_mem _ _ _ (Nat.le_refl _) (by omega)]
  simp only [Nat.sub_self]
  rfl

/-- What leaves the last eight bytes of the buffers leaves the word. -/
theorem word_of_agrees (h : Roomy heap) {mem : Memory UInt8}
    (hmem : ∀ x, heap.addrCursor + bufSize - 8 ≤ x → mem x = (heap.pushed bufSize).mem x) :
    wordBelow mem (heap.addrCursor + bufSize) = bufSize := by
  refine Eq.trans (wordBelow_congr fun x hlow _ => ?_) (word_pushed h)
  rw [(wordPtr_top h).2] at hlow
  exact hmem x hlow

/-! ## An answer -/

theorem text_nul (i : UInt64) (line : List UInt8) : (0 : UInt8) ∉ text i line := by
  have hdigits : (0 : UInt8) ∉ decimal i.toNat := fun hin =>
    absurd (isdigit_decimal _ 0 hin) (by decide)
  have hline : (0 : UInt8) ∉ cstring line := fun hin => by
    have hne := List.mem_takeWhile_imp hin
    exact absurd hne (by decide)
  simp only [text, List.mem_append, not_or]
  exact ⟨⟨⟨by decide, hdigits⟩, by decide⟩, hline⟩

/-- The line is printed up to its NUL. -/
theorem text_load (mem : Memory UInt8) (buf : Nat) (i : UInt64) (line : List UInt8) :
    text i (((mem.store buf line).store (buf + line.length) [0]).load buf (line.length + 1))
      = text i line := by
  have hlen : line.length + 1 = (line ++ [0]).length := by simp
  rw [Memory.store_store, hlen, Memory.load_store, text, cstring_of_isPrefix List.prefix_rfl]
  rfl

theorem answer_eq (mem : Memory UInt8) (buf : Nat) (i : UInt64) (line : List UInt8) :
    answer buf i line mem
      = (mem.store buf (line ++ [0])).store (buf + inSize) (snprintf (outSize - 1) (text i line)) := by
  rw [answer, text_load, Memory.store_store]

theorem length_snprintf (n : Nat) (s : List UInt8) :
    (snprintf n s).length = min (n - 1) s.length + 1 := by
  rw [snprintf, List.length_append, List.length_take]
  rfl

/-- The text is written, as far as it has been stored. -/
theorem cstring_answer (mem : Memory UInt8) (buf : Nat) (i : UInt64) (line : List UInt8) :
    cstring ((answer buf i line mem).load (buf + inSize) outSize)
      = (text i line).take (outSize - 2) := by
  have hout : outSize = 8192 := rfl
  have hlen := length_snprintf (outSize - 1) (text i line)
  have hstored : snprintf (outSize - 1) (text i line)
      <+: (answer buf i line mem).load (buf + inSize) outSize := by
    refine List.prefix_iff_eq_take.mpr ?_
    rw [Memory.take_load, Nat.min_eq_left (by omega), answer_eq, Memory.load_store]
  rw [snprintf] at hstored
  rw [cstring_of_isPrefix hstored, cstring_eq_self]
  · rfl
  · exact fun hin => text_nul i line (List.mem_of_mem_take hin)

/-- An answer leaves the word of the block if and only if it ends before it. -/
theorem word_answer (h : Roomy heap) {line : List UInt8} (hfits : line.length ≤ inSize - 1)
    (i : UInt64) :
    wordBelow (answer heap.addrCursor i line (heap.pushed bufSize).mem)
        (heap.addrCursor + bufSize) = bufSize ↔
      (text i line).length ≤ outSize - 8 := by
  have hin : inSize = 8192 := rfl
  have hout : outSize = 8192 := rfl
  have hsize : bufSize = 16384 := rfl
  have hstored := length_snprintf (outSize - 1) (text i line)
  have hline : (line ++ [(0 : UInt8)]).length = line.length + 1 := by simp
  rw [answer_eq]
  constructor
  · intro hword
    by_contra hlong
    -- the lowest byte of the word is one of the text then
    have hbyte : ((heap.pushed bufSize).mem.store heap.addrCursor (line ++ [0])).store
          (heap.addrCursor + inSize) (snprintf (outSize - 1) (text i line))
          (wordPtr (heap.addrCursor + bufSize))
        = (text i line)[outSize - 8] := by
      rw [(wordPtr_top h).2, Memory.store_of_mem _ _ _ (by omega) (by omega)]
      have hat : heap.addrCursor + bufSize - 8 - (heap.addrCursor + inSize) = outSize - 8 := by omega
      simp only [hat, snprintf]
      rw [List.getElem_append_left (by rw [List.length_take]; omega), List.getElem_take]
    refine wordBelow_ne ?_ (hword.trans (word_pushed h).symm)
    rw [hbyte, (wordPtr_top h).2, byte_pushed h]
    intro hzero
    exact text_nul i line (hzero ▸ List.getElem_mem _)
  · intro hshort
    refine word_of_agrees h fun x hx => ?_
    by_cases htop : x = heap.addrCursor + bufSize - 8 ∧ (text i line).length = outSize - 8
    · -- the NUL of the text falls on a 0
      obtain ⟨rfl, hlen⟩ := htop
      rw [byte_pushed h, Memory.store_of_mem _ _ _ (by omega) (by omega)]
      have hat : heap.addrCursor + bufSize - 8 - (heap.addrCursor + inSize) = outSize - 8 := by omega
      simp only [hat, snprintf]
      rw [List.getElem_append_right (by rw [List.length_take]; omega)]
      simp
    · rw [Memory.store_of_not_mem _ _ _ (by omega), Memory.store_of_not_mem _ _ _ (by omega)]

end Heap

/-! ## Runs -/

section Run
variable {σ : Type} {page : Nat} {r : Reader σ} {eof : σ → Bool} {s : State σ}

/-- A turn that reads no line, or has EOF marked behind it, gives the buffers back and ends
the loop. -/
theorem turn_ends (hpage : page ∣ bufSize) (h : Roomy s.heap)
    (hfits : (r.readline (inSize - 1) s.stream).1.length ≤ inSize - 1)
    (hends : (r.readline (inSize - 1) s.stream).1 = [] ∨
      eof (r.readline (inSize - 1) s.stream).2 = true) :
    ∃ mem, turn page r eof s = { s with
      stream := (r.readline (inSize - 1) s.stream).2
      heap := { s.heap with mem }
      stage := .ended } := by
  have hin : inSize = 8192 := rfl
  have hsize : bufSize = 16384 := rfl
  obtain ⟨cursor, hpop, hback⟩ := pop_written h
    ((s.heap.pushed bufSize).mem.store s.heap.addrCursor (r.readline (inSize - 1) s.stream).1)
  have hword : cursor = s.heap.addrCursor := hback.mpr
    (word_of_agrees h fun x hx => Memory.store_of_not_mem _ _ _ (by omega))
  refine ⟨(s.heap.pushed bufSize).mem.store s.heap.addrCursor
    (r.readline (inSize - 1) s.stream).1, ?_⟩
  simp only [turn, push_roomy hpage h, if_pos hends, free, hpop, hword]

/-- A turn that reads a line answers it, and gives the buffers back if and only if the
answer ends before the word. -/
theorem turn_answers (hpage : page ∣ bufSize) (h : Roomy s.heap)
    (hfits : (r.readline (inSize - 1) s.stream).1.length ≤ inSize - 1)
    (hline : (r.readline (inSize - 1) s.stream).1 ≠ [])
    (heof : eof (r.readline (inSize - 1) s.stream).2 = false) :
    ∃ cursor mem, turn page r eof s = {
        stream := (r.readline (inSize - 1) s.stream).2
        heap := { s.heap with addrCursor := cursor, mem }
        i := s.i + 1
        output := s.output ++
          (text s.i (r.readline (inSize - 1) s.stream).1).take (outSize - 2)
        stage := .line } ∧
      (cursor = s.heap.addrCursor ↔
        (text s.i (r.readline (inSize - 1) s.stream).1).length ≤ outSize - 8) := by
  obtain ⟨cursor, hpop, hback⟩ := pop_written h
    (answer s.heap.addrCursor s.i (r.readline (inSize - 1) s.stream).1 (s.heap.pushed bufSize).mem)
  refine ⟨cursor, answer s.heap.addrCursor s.i (r.readline (inSize - 1) s.stream).1
    (s.heap.pushed bufSize).mem, ?_, hback.trans (word_answer h hfits s.i)⟩
  have hgoes : ¬((r.readline (inSize - 1) s.stream).1 = [] ∨
      eof (r.readline (inSize - 1) s.stream).2 = true) := by
    rw [heof]
    exact fun hor => hor.elim hline Bool.false_ne_true
  simp only [turn, push_roomy hpage h, if_neg hgoes, free, hpop, cstring_answer]

theorem run_succ (n : Nat) (s : State σ) (hs : s.stage = .line) :
    run page r eof (n + 1) s = run page r eof n (turn page r eof s) := by
  show (step page r eof)^[n] (step page r eof s) = _
  rw [step, hs]
  rfl

theorem run_ended (n : Nat) (s : State σ) (hs : s.stage = .ended) : run page r eof n s = s := by
  refine Function.iterate_fixed ?_ n
  rw [step, hs]

/-- From a state on the coroutine writes the answers, its stream read to the end, and at every
step the heap is as it is now: both where each answer ends before the word of its block, and
the heap only there. -/
structure Numbers (page : Nat) (r : Reader σ) (eof : σ → Bool) (left : σ → List UInt8)
    (s : State σ) (as : List (List UInt8)) : Prop where
  neutral : (∀ n, (run page r eof n s).heap.addrCursor = s.heap.addrCursor) ↔
    ∀ a ∈ as, a.length ≤ outSize - 8
  written : (∀ a ∈ as, a.length ≤ outSize - 8) →
    ∃ n, (run page r eof n s).stage = .ended ∧
      (run page r eof n s).output = s.output ++ as.flatten ∧
      left (run page r eof n s).stream = []

variable {left : σ → List UInt8}

/-- The last turn answers nothing. -/
theorem numbers_of_ends (hs : s.stage = .line) {stream : σ} {mem : Memory UInt8}
    (hturn : turn page r eof s = { s with stream, heap := { s.heap with mem }, stage := .ended })
    (hleft : left stream = []) : Numbers page r eof left s [] := by
  have hrun : ∀ n, run page r eof (n + 1) s
      = { s with stream, heap := { s.heap with mem }, stage := .ended } := fun n => by
    rw [run_succ n s hs, hturn]
    exact run_ended n _ rfl
  constructor
  · refine iff_of_true (fun n => ?_) (List.forall_mem_nil _)
    cases n with
    | zero => rfl
    | succ n => rw [hrun]
  · intro _
    refine ⟨1, by rw [hrun], ?_, by rw [hrun]; exact hleft⟩
    rw [hrun, List.flatten_nil, List.append_nil]

/-- A turn answers a line, and the others are answered from there. -/
theorem numbers_of_answers (hs : s.stage = .line) {s' : State σ} {a : List UInt8}
    {as : List (List UInt8)} (hturn : turn page r eof s = s')
    (houtput : s'.output = s.output ++ a.take (outSize - 2))
    (hcursor : s'.heap.addrCursor = s.heap.addrCursor ↔ a.length ≤ outSize - 8)
    (hnext : a.length ≤ outSize - 8 → Numbers page r eof left s' as) :
    Numbers page r eof left s (a :: as) := by
  have hrun : ∀ n, run page r eof (n + 1) s = run page r eof n s' := fun n => by
    rw [run_succ n s hs, hturn]
  constructor
  · rw [List.forall_mem_cons]
    constructor
    · intro hneutral
      have hone := hneutral 1
      rw [hrun] at hone
      have ha := hcursor.mp hone
      refine ⟨ha, (hnext ha).neutral.mp fun n => ?_⟩
      rw [← hrun, hneutral, hcursor.mpr ha]
    · rintro ⟨ha, has⟩ n
      cases n with
      | zero => rfl
      | succ n => rw [hrun, (hnext ha).neutral.mpr has n, hcursor.mpr ha]
  · intro hall
    obtain ⟨ha, has⟩ := List.forall_mem_cons.mp hall
    obtain ⟨n, hstage, hwritten, hleft⟩ := (hnext ha).written has
    refine ⟨n + 1, by rw [hrun]; exact hstage, ?_, by rw [hrun]; exact hleft⟩
    rw [hrun, hwritten, houtput, List.take_of_length_le (Nat.le_trans ha (by decide)),
      List.flatten_cons, List.append_assoc]

theorem run_numbers (hpage : page ∣ bufSize) (hr : r.Streams left)
    (heof : ∀ x, eof x = true → left x = []) {ls : List (List UInt8)} (hs : s.stage = .line)
    (hroom : Roomy s.heap) (hls : lines (left s.stream) = ls)
    (hfits : ∀ l ∈ ls, l.length ≤ inSize - 1) :
    Numbers page r eof left s (answers s.i (answered r eof s.stream ls)) := by
  induction ls generalizing s with
  | nil =>
      have hnil := lines_eq_nil.mp hls
      obtain ⟨hline, hleft⟩ := hr.readline_end (n := inSize - 1) hnil
      have hends : (r.readline (inSize - 1) s.stream).1 = [] ∨
          eof (r.readline (inSize - 1) s.stream).2 = true := Or.inl hline
      obtain ⟨mem, hturn⟩ := turn_ends hpage hroom (by rw [hline]; exact Nat.zero_le _) hends
      rw [answered_nil]
      exact numbers_of_ends hs hturn hleft
  | cons l ls ih =>
      have hne : left s.stream ≠ [] := fun hnil => by
        rw [hnil] at hls
        cases hls
      obtain ⟨hl, hrest⟩ := List.cons.inj ((lines_eq hne).symm.trans hls)
      obtain ⟨hlfits, hlsfits⟩ := List.forall_mem_cons.mp hfits
      have hline : (r.readline (inSize - 1) s.stream).1 = l := by
        rw [hr.whole (inSize - 1) s.stream (by rw [hl]; exact hlfits), hl]
      have hnext : lines (left (r.readline (inSize - 1) s.stream).2) = ls := by
        rw [← hrest, hl, ← hline, ← hr.line_left (inSize - 1) s.stream, List.drop_left]
      cases hmark : eof (r.readline (inSize - 1) s.stream).2 with
      | true =>
          -- EOF is marked: the line was the last, and it is not answered
          have hleft := heof _ hmark
          have hlast : ls = [] := by rw [← hnext, hleft]; rfl
          obtain ⟨mem, hturn⟩ := turn_ends hpage hroom (by rw [hline]; exact hlfits) (Or.inr hmark)
          rw [hlast, answered_cons_of_eof r eof hmark]
          exact numbers_of_ends hs hturn hleft
      | false =>
          have hsome : l ≠ [] := by
            rw [← hl]
            exact fun hnil => hne (firstLine_eq_nil.mp hnil)
          obtain ⟨cursor, mem, hturn, hback⟩ := turn_answers hpage hroom
            (by rw [hline]; exact hlfits) (by rw [hline]; exact hsome) hmark
          rw [hline] at hturn hback
          rw [answered_cons r eof hmark]
          refine numbers_of_answers hs hturn rfl hback fun ha => ?_
          have hcursor := hback.mpr ha
          exact ih rfl ⟨hcursor ▸ hroom.start, hcursor ▸ hroom.room, hroom.stop⟩ hnext hlsfits

/-- Lines that fit `in`, however the stream is cut, where no exit test looks at a newline
inside of one: they are answered by their texts, in their order and with their numbers,
and the heap is as it was at every step, exactly when no answer reaches the word of its
block.  Of lines answered there is the last unless EOF is marked behind it. -/
theorem echo_numbers {E : Wire} (hquiet : E.Quiet) (hpage : page ∣ bufSize) {heap : ByteStack}
    (hroom : Roomy heap) {bs : List UInt8} (hfits : ∀ l ∈ lines bs, l.length ≤ inSize - 1) :
    Numbers page E.reader E.reader.nodata Prod.snd (begin (0, bs) heap)
      (answers 0 (answered E.reader E.reader.nodata (0, bs) (lines bs))) :=
  run_numbers hpage (Wire.streams hquiet) E.gives.nodata rfl hroom rfl hfits

/-- A heap of 25 pages, of which one is taken. -/
def heap25 : ByteStack := ⟨4096, 8192, 4096 + 4096 * 25, fun _ => 0⟩

/-- EOF comes behind the last line, when that is answered. -/
def threeLines : Wire := { Wire.bytewise with told := fun calls => 3 < calls }

theorem echo_numbers_three :
    ∃ n, (run 4096 threeLines.reader threeLines.reader.nodata n
        (begin (0, bytes "first\nsecond\nthird\n") heap25)).output
      = bytes "Line 0: first\nLine 1: second\nLine 2: third\n" := by
  have hfits : ∀ l ∈ lines (bytes "first\nsecond\nthird\n"), l.length ≤ inSize - 1 := by
    decide
  have hquiet : threeLines.Quiet := Wire.bytewise_quiet
  obtain ⟨n, -, hwritten, -⟩ := (echo_numbers hquiet (show 4096 ∣ bufSize by decide)
    (show Roomy heap25 from ⟨by decide, by decide, by decide⟩) hfits).written (by decide)
  exact ⟨n, hwritten⟩

end Run

end Echo

end Vk

/-
# `Mnvkd.Reader` — what a coroutine reads of its stream

A coroutine that parses sees its socket through a few macros.  A reader is what they
give it, whatever the stream is and however it arrives.

A reader gives a stream when what it stores are the stream's bytes in their order: of a
line no more than the line, of a read what it asks for, or all that is left.  Whether a
line comes whole depends on how it arrives and on what its buffer held (`Reader.Whole`):
`Mnvkd.Wire` says when it does.
-/
import Mnvkd.ReadlineStream

namespace Vk

open Vectoring (newline lineLen lineLen_eq_none lineLen_eq_some lineLen_le)

universe u

/-- The macros by which one coroutine takes its stream, over the states of what it reads
from. -/
structure Reader (σ : Type u) where
  /-- `vk_readline` of a length: the bytes stored. -/
  readline : Nat → σ → List UInt8 × σ
  /-- `vk_read` of a length: the bytes stored. -/
  read : Nat → σ → List UInt8 × σ
  /-- `vk_forward` of a length: the bytes moved. -/
  forward : Nat → σ → List UInt8 × σ
  /-- `vk_nodata`. -/
  nodata : σ → Bool
  /-- Whether a `vk_hup` that is called here gets back. -/
  hup : σ → Bool
  length_read : ∀ n s, (read n s).1.length ≤ n

namespace Reader

variable {σ : Type u}

/-- The reader gives the bytes of a stream; `left` is the part not given yet. -/
structure Gives (r : Reader σ) (left : σ → List UInt8) : Prop where
  line_left : ∀ n s, (r.readline n s).1 ++ left (r.readline n s).2 = left s
  line_first : ∀ n s, (r.readline n s).1 <+: firstLine (left s)
  read_eq : ∀ n s, (r.read n s).1 = (left s).take n
  read_left : ∀ n s, left (r.read n s).2 = (left s).drop n
  nodata : ∀ s, r.nodata s = true → left s = []

/-- A call of `vk_readline` gives its line whole. -/
def Whole (r : Reader σ) (left : σ → List UInt8) (n : Nat) (s : σ) : Prop :=
  (r.readline n s).1 = firstLine (left s)

/-- And gives the lines that fit whole. -/
structure Streams (r : Reader σ) (left : σ → List UInt8) : Prop extends r.Gives left where
  whole : ∀ n s, (firstLine (left s)).length ≤ n → r.Whole left n s

/-- And moves what it is to forward, and gets back from its hang-ups. -/
structure Serves (r : Reader σ) (left : σ → List UInt8) : Prop extends r.Streams left where
  forward : ∀ n s, r.forward n s = r.read n s
  hup : ∀ s, r.hup s = true

/-- The line at the front of a stream. -/
theorem firstLine_line {pre : List UInt8} (h : newline ∉ pre) (rest : List UInt8) :
    firstLine (pre ++ newline :: rest) = pre ++ [newline] := by
  have hrest : firstLine (newline :: rest) = [newline] := by
    have hlen : lineLen (newline :: rest) = some 1 := by simp [lineLen, List.findIdx?_cons]
    rw [firstLine, hlen]
    rfl
  rw [firstLine_append h, hrest]

/-- It ends where the first newline is. -/
theorem length_firstLine_le {bs : List UInt8} (h : newline ∈ bs) (rest : List UInt8) :
    (firstLine (bs ++ rest)).length ≤ bs.length := by
  obtain ⟨l, hl⟩ : ∃ l, lineLen bs = some l :=
    Option.ne_none_iff_exists'.mp fun hnone => lineLen_eq_none.mp hnone h
  rw [(firstLine_of_some hl rest).1, List.length_take]
  exact Nat.min_le_right _ _

section Gives
variable {r : Reader σ} {left : σ → List UInt8} (h : r.Gives left)
include h

/-- What a line that is given whole leaves. -/
theorem Gives.readline_whole {n : Nat} {s : σ} (hw : r.Whole left n s) {pre rest : List UInt8}
    (hpre : newline ∉ pre) (hs : left s = pre ++ newline :: rest) :
    (r.readline n s).1 = pre ++ [newline] ∧ left (r.readline n s).2 = rest := by
  have hline : (r.readline n s).1 = pre ++ [newline] := by rw [hw, hs, firstLine_line hpre]
  refine ⟨hline, ?_⟩
  have hleft := h.line_left n s
  rw [hline, hs, List.append_assoc] at hleft
  exact List.append_cancel_left (List.append_cancel_left hleft)

/-- A line that leaves what is behind it was given whole. -/
theorem Gives.whole_of_left {n : Nat} {s : σ} {pre rest : List UInt8}
    (hs : left s = pre ++ newline :: rest) (hleft : left (r.readline n s).2 = rest) :
    newline ∉ pre ∧ r.Whole left n s := by
  have hline : (r.readline n s).1 = pre ++ [newline] := by
    have happend := h.line_left n s
    rw [hleft, hs, show pre ++ newline :: rest = pre ++ [newline] ++ rest by simp] at happend
    exact List.append_cancel_right happend
  have hfirst := (h.line_first n s).length_le
  rw [hline, hs, List.length_append, List.length_singleton] at hfirst
  have hpre : newline ∉ pre := fun hmem => by
    -- the line would end inside of it
    have hle := length_firstLine_le hmem (newline :: rest)
    omega
  exact ⟨hpre, by rw [Whole, hline, hs, firstLine_line hpre]⟩

/-- At the end of the stream a line is empty. -/
theorem Gives.readline_end {n : Nat} {s : σ} (hs : left s = []) :
    (r.readline n s).1 = [] ∧ left (r.readline n s).2 = [] := by
  have hleft := h.line_left n s
  rw [hs] at hleft
  exact List.append_eq_nil_iff.mp hleft

theorem Gives.read_append {s : σ} {bs rest : List UInt8} (hs : left s = bs ++ rest) :
    (r.read bs.length s).1 = bs ∧ left (r.read bs.length s).2 = rest := by
  rw [h.read_eq, h.read_left, hs]
  exact ⟨List.take_left, List.drop_left⟩

end Gives

/-- A line that fits is given to its end. -/
theorem Streams.readline_line {r : Reader σ} {left : σ → List UInt8} (h : r.Streams left) {n : Nat}
    {s : σ} {pre rest : List UInt8} (hpre : newline ∉ pre) (hs : left s = pre ++ newline :: rest)
    (hn : pre.length + 1 ≤ n) :
    (r.readline n s).1 = pre ++ [newline] ∧ left (r.readline n s).2 = rest := by
  refine h.readline_whole (h.whole n s ?_) hpre hs
  rw [hs, firstLine_line hpre, List.length_append]
  exact hn

theorem firstLine_isPrefix (bs : List UInt8) : firstLine bs <+: bs := by
  rw [firstLine]
  exact List.take_prefix _ _

/-- All of the stream is in the ring before each call: a line is given to its end,
whatever its length. -/
def whole : Reader (List UInt8) where
  readline n s :=
    let l := (lineLen s).getD n
    (s.take l, s.drop l)
  read n s := (s.take n, s.drop n)
  forward n s := (s.take n, s.drop n)
  nodata s := s.isEmpty
  hup _ := true
  length_read n s := by
    rw [List.length_take]
    exact Nat.min_le_left _ _

end Reader

end Vk

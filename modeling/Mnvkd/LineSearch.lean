/-
# `Mnvkd.LineSearch` — looking for a newline with vectors

`vk_vectoring_find_newline` is one loop or several, as the build has it: where the machine
has AVX2 a loop over 32 bytes at a time, where it has SSE2 one over 16 bytes, where it has
NEON another over 16 bytes, and at last the loop over single bytes that
`Vectoring.findNewline` is.  Each loop leaves what is shorter than its blocks to the next.

Whatever loops there are, and in whatever order, what is found is the first newline
(`findThrough_eq`), and so a line of a ring has the length it has
(`txLineLenOf_eq`).
-/
import Mnvkd.VectoringSpec
import Mnvkd.Lib.Blocks

namespace Vk

open Lib

namespace Vectoring

/-! ## The loops -/

/-- The loops over vectors. -/
inductive Simd where
  | avx2
  | sse2
  | neon
  deriving DecidableEq, Repr

/-- How many bytes a turn looks at. -/
def Simd.width : Simd → Nat
  | .avx2 => 32
  | .sse2 => 16
  | .neon => 16

theorem Simd.width_pos (v : Simd) : 0 < v.width := by cases v <;> decide

/-- A turn, at `buf`: the address of the first newline of the block. -/
def Simd.block (mem : Memory UInt8) (buf : Nat) : Simd → Option Nat
  | .avx2 =>
      let nl256 : Lanes 32 := .set1 '\n'.toUInt8
      let chunk : Lanes 32 := .loadu mem buf
      let cmp := chunk.cmpeq nl256
      let mask := cmp.movemask 32
      (Lanes.firstSet mask).map (buf + ·)
  | .sse2 =>
      let nl128 : Lanes 16 := .set1 '\n'.toUInt8
      let chunk : Lanes 16 := .loadu mem buf
      let cmp := chunk.cmpeq nl128
      let mask := cmp.movemask 32
      (Lanes.firstSet mask).map (buf + ·)
  | .neon =>
      let nl : Lanes 16 := .set1 '\n'.toUInt8
      let chunk : Lanes 16 := .loadu mem buf
      let tmp := List.ofFn (chunk.cmpeq nl)
      (tmp.findIdx? (· != 0)).map (buf + ·)

/-- What a loop comes to: the newline, or what is left for the next loop. -/
inductive Scan where
  | found (res : Nat)
  | rest (buf len : Nat)
  deriving DecidableEq, Repr

/-- The turns, while there is a block. -/
def Simd.loop (v : Simd) (mem : Memory UInt8) (buf len : Nat) : Scan :=
  if v.width ≤ len then
    match v.block mem buf with
    | some res => .found res
    | none => v.loop mem (buf + v.width) (len - v.width)
  else .rest buf len
termination_by len
decreasing_by
  have hpos := v.width_pos
  omega

/-- The loops one after the other, and then the loop over single bytes. -/
def findThrough (mem : Memory UInt8) : List Simd → Nat → Nat → Option Nat
  | [], buf, len => findNewline mem buf len
  | v :: vs, buf, len =>
      match v.loop mem buf len with
      | .found res => some res
      | .rest buf len => findThrough mem vs buf len

/-- What a build defines. -/
structure Build where
  enableSimd : Bool
  avx2 : Bool
  sse2 : Bool
  neon : Bool
  deriving DecidableEq, Repr

/-- The loops a build has, in their order. -/
def Build.loops (b : Build) : List Simd :=
  if b.enableSimd then
    (if b.avx2 then [.avx2] else []) ++ (if b.sse2 then [.sse2] else []) ++
      (if b.neon then [.neon] else [])
  else []

/-- `vk_vectoring_find_newline`, as a build has it. -/
def findNewlineOf (b : Build) (mem : Memory UInt8) (buf len : Nat) : Option Nat :=
  findThrough mem b.loops buf len

/-- `vk_vectoring_tx_line_len`, as a build has it. -/
def txLineLenOf (b : Build) (ring : Vectoring) : Option Nat :=
  let buf := ring.vectorTx.v0.addr
  match findNewlineOf b ring.bufStart buf ring.vectorTx.v0.len with
  | some res => some (res - buf + 1)
  | none =>
      let buf := ring.vectorTx.v1.addr
      match findNewlineOf b ring.bufStart buf ring.vectorTx.v1.len with
      | some res => some (ring.vectorTx.v0.len + (res - buf) + 1)
      | none => none

/-! ## What they find -/

section Found
variable (mem : Memory UInt8)

/-- The address of the first newline. -/
def firstNewline (buf len : Nat) : Option Nat := mem.find (· == newline) buf len

theorem Simd.block_eq (v : Simd) (buf : Nat) :
    v.block mem buf = firstNewline mem buf v.width := by
  cases v with
  | avx2 =>
      have h := Lanes.firstSet_movemask (n := 32) (w := 32) mem buf newline (by decide)
      exact congrArg (Option.map (buf + ·)) h
  | sse2 =>
      have h := Lanes.firstSet_movemask (n := 16) (w := 32) mem buf newline (by decide)
      exact congrArg (Option.map (buf + ·)) h
  | neon =>
      have h := Lanes.findIdx?_cmpeq (n := 16) mem buf newline
      exact congrArg (Option.map (buf + ·)) h

/-- A loop finds the first newline, or leaves it where it was. -/
theorem Simd.loop_eq (v : Simd) (buf len : Nat) :
    firstNewline mem buf len =
      match v.loop mem buf len with
      | .found res => some res
      | .rest buf len => firstNewline mem buf len := by
  induction buf, len using Simd.loop.induct v mem with
  | case1 buf len hlen res hblock =>
      rw [Simd.loop, if_pos hlen, hblock]
      rw [v.block_eq] at hblock
      have hsplit := mem.find_add (· == newline) buf v.width (len - v.width)
      rw [Nat.add_sub_cancel' hlen] at hsplit
      show mem.find _ buf len = some res
      rw [hsplit, show mem.find _ buf v.width = some res from hblock, Option.some_or]
  | case2 buf len hlen hblock ih =>
      rw [Simd.loop, if_pos hlen, hblock]
      rw [v.block_eq] at hblock
      have hsplit := mem.find_add (· == newline) buf v.width (len - v.width)
      rw [Nat.add_sub_cancel' hlen] at hsplit
      rw [← ih]
      show mem.find _ buf len = mem.find _ _ _
      rw [hsplit, show mem.find _ buf v.width = none from hblock, Option.none_or]
  | case3 buf len hlen => rw [Simd.loop, if_neg hlen]

/-- The loops find the first newline, in whatever order they come. -/
theorem findThrough_eq (vs : List Simd) (buf len : Nat) :
    findThrough mem vs buf len = firstNewline mem buf len := by
  induction vs generalizing buf len with
  | nil => exact findNewline_eq mem buf len
  | cons v vs ih =>
      rw [findThrough, v.loop_eq mem buf len]
      cases v.loop mem buf len with
      | found res => rfl
      | rest buf len => exact ih buf len

end Found

/-- A line is as long in every build as in the one without vectors. -/
theorem txLineLenOf_eq (b : Build) (ring : Vectoring) : ring.txLineLenOf b = ring.txLineLen := by
  have hfind : ∀ buf len, findNewlineOf b ring.bufStart buf len =
      findNewline ring.bufStart buf len := by
    intro buf len
    rw [findNewlineOf, findThrough_eq, findNewline_eq]
    rfl
  simp only [txLineLenOf, hfind]
  rfl

/-- **Lines are found alike by every build.**  Through any loops, in any order, the first
newline of a buffer is found, or that there is none; and in every build the length of a
ring's first line is the place of the first newline queued, and one. -/
theorem line_search_exact :
    (∀ (vs : List Simd) (mem : Memory UInt8) (buf len : Nat),
      findThrough mem vs buf len =
        ((mem.load buf len).findIdx? (· == newline)).map (buf + ·)) ∧
    ∀ (b : Build) (ring : Vectoring), ring.Wf →
      ring.txLineLenOf b = (ring.queue.findIdx? (· == newline)).map (· + 1) := by
  constructor
  · intro vs mem buf len
    exact findThrough_eq mem vs buf len
  · intro b ring h
    rw [txLineLenOf_eq, h.txLineLen_eq]
    rfl

/-- Four bytes, of which the three that are queued wrap: the newline is the last. -/
def wrappedRing : Vectoring :=
  sync { cleared with
    bufStart := fun x => if x = 1 then newline else 0
    bufLen := 4
    txCursor := 3
    txLen := 3 }

theorem line_search_exact_wrapped :
    findThrough (fun x => if x = 20 then newline else 0) [.neon, .sse2] 0 40 = some 20 ∧
      wrappedRing.txLineLenOf ⟨true, true, true, false⟩ = some 3 :=
  ⟨(line_search_exact.1 [.neon, .sse2] _ 0 40).trans (by decide),
    (line_search_exact.2 ⟨true, true, true, false⟩ wrappedRing
      ⟨by decide, by decide, by decide, rfl, rfl, by decide⟩).trans (by decide)⟩

end Vectoring

end Vk

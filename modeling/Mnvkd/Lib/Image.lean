/-
# `Lib.Image` — values as they lie in memory

An image of a type is a way to lay its values out in a fixed number of bytes, and
to read a value off the bytes at some place.  What is laid out is read back,
whatever the bytes behind it; what is read off other bytes is some value too.

    byte, le     a byte, and a number of k bytes, the lowest first
    prod         one value behind another
    array        n values behind each other
    of           values that stand for others
    stream       a list of values behind each other, whose first is read off the front
-/
import Mathlib.Algebra.Group.Int.Defs
import Mathlib.Algebra.Group.Nat.Defs
import Mathlib.Data.Fin.Tuple.Basic

namespace Lib

universe u v

/-- A layout of the values of `α` in `size` bytes. -/
structure Image (α : Type u) where
  size : Nat
  bytes : α → List UInt8
  value : List UInt8 → α
  length_bytes : ∀ a, (bytes a).length = size
  value_bytes : ∀ a rest, value (bytes a ++ rest) = a

namespace Image

variable {α : Type u} {β : Type v}

/-- A byte. -/
def byte : Image UInt8 where
  size := 1
  bytes b := [b]
  value bs := bs.headD 0
  length_bytes _ := rfl
  value_bytes _ _ := rfl

/-- One value behind another. -/
def prod (A : Image α) (B : Image β) : Image (α × β) where
  size := A.size + B.size
  bytes p := A.bytes p.1 ++ B.bytes p.2
  value bs := (A.value bs, B.value (bs.drop A.size))
  length_bytes p := by rw [List.length_append, A.length_bytes, B.length_bytes]
  value_bytes p rest := by
    have hdrop : (A.bytes p.1 ++ (B.bytes p.2 ++ rest)).drop A.size = B.bytes p.2 ++ rest := by
      rw [← A.length_bytes p.1, List.drop_left]
    rw [List.append_assoc, A.value_bytes, hdrop, B.value_bytes]

/-- Values that stand for others. -/
def of (A : Image α) (f : α → β) (g : β → α) (h : ∀ b, f (g b) = b) : Image β where
  size := A.size
  bytes b := A.bytes (g b)
  value bs := f (A.value bs)
  length_bytes b := A.length_bytes (g b)
  value_bytes b rest := by rw [A.value_bytes, h]

/-! ## Arrays -/

section Array
variable (A : Image α)

def arrayBytes : (n : Nat) → (Fin n → α) → List UInt8
  | 0, _ => []
  | n + 1, a => A.bytes (a 0) ++ arrayBytes n fun i => a i.succ

def arrayValue : (n : Nat) → List UInt8 → Fin n → α
  | 0, _ => Fin.elim0
  | n + 1, bs => Fin.cons (A.value bs) (arrayValue n (bs.drop A.size))

theorem length_arrayBytes (n : Nat) (a : Fin n → α) :
    (A.arrayBytes n a).length = n * A.size := by
  induction n with
  | zero => rw [Nat.zero_mul]; rfl
  | succ n ih =>
      rw [arrayBytes, List.length_append, A.length_bytes, ih, Nat.succ_mul, Nat.add_comm]

theorem arrayValue_arrayBytes (n : Nat) (a : Fin n → α) (rest : List UInt8) :
    A.arrayValue n (A.arrayBytes n a ++ rest) = a := by
  induction n with
  | zero => exact funext fun i => i.elim0
  | succ n ih =>
      have hdrop : ∀ bs, (A.bytes (a 0) ++ bs).drop A.size = bs := fun bs => by
        rw [← A.length_bytes (a 0), List.drop_left]
      rw [arrayValue, arrayBytes, List.append_assoc, A.value_bytes, hdrop, ih]
      exact Fin.cons_self_tail a

/-- `n` values behind each other. -/
def array (n : Nat) : Image (Fin n → α) where
  size := n * A.size
  bytes := A.arrayBytes n
  value := A.arrayValue n
  length_bytes := A.length_arrayBytes n
  value_bytes := A.arrayValue_arrayBytes n

end Array

/-! ## Streams -/

section Stream
variable (A : Image α) (a : α) (as as' : List α)

/-- The values of a list behind each other. -/
def stream (as : List α) : List UInt8 := as.flatMap A.bytes

@[simp] theorem stream_nil : A.stream [] = [] := rfl

theorem stream_append : A.stream (as ++ as') = A.stream as ++ A.stream as' :=
  List.flatMap_append

theorem stream_singleton : A.stream [a] = A.bytes a := by
  rw [stream, List.flatMap_singleton]

theorem length_stream : (A.stream as).length = as.length * A.size := by
  induction as with
  | nil => rw [List.length_nil, Nat.zero_mul]; rfl
  | cons a as ih =>
      rw [stream, List.flatMap_cons, List.length_append, A.length_bytes, List.length_cons,
        Nat.succ_mul, Nat.add_comm]
      exact congrArg (· + A.size) ih

/-- The first value is as many bytes as a value has. -/
theorem take_stream_cons : (A.stream (a :: as)).take A.size = A.bytes a := by
  rw [stream, List.flatMap_cons, ← A.length_bytes a, List.take_left]

theorem drop_stream_cons : (A.stream (a :: as)).drop A.size = A.stream as := by
  rw [stream, List.flatMap_cons, ← A.length_bytes a, List.drop_left]
  rfl

end Stream

/-! ## Numbers -/

/-- The `k` lowest bytes of a number, the lowest first. -/
def leBytes : Nat → Nat → List UInt8
  | 0, _ => []
  | k + 1, n => n.toUInt8 :: leBytes k (n / 256)

/-- The number that the `k` bytes at the front make up, the lowest first. -/
def leValue : Nat → List UInt8 → Nat
  | 0, _ => 0
  | k + 1, bs => (bs.headD 0).toNat + 256 * leValue k bs.tail

theorem length_leBytes (k n : Nat) : (leBytes k n).length = k := by
  induction k generalizing n with
  | zero => rfl
  | succ k ih => rw [leBytes, List.length_cons, ih]

theorem leValue_lt (k : Nat) (bs : List UInt8) : leValue k bs < 256 ^ k := by
  induction k generalizing bs with
  | zero => exact Nat.one_pos
  | succ k ih =>
      have hb : (bs.headD 0).toNat < 256 := (bs.headD 0).toNat_lt
      have htail := ih bs.tail
      rw [leValue, Nat.pow_succ]
      omega

theorem leValue_leBytes (k n : Nat) (rest : List UInt8) :
    leValue k (leBytes k n ++ rest) = n % 256 ^ k := by
  induction k generalizing n with
  | zero => rw [Nat.pow_zero, Nat.mod_one]; rfl
  | succ k ih =>
      have hlow : n.toUInt8.toNat = n % 256 := rfl
      show n.toUInt8.toNat + 256 * leValue k (leBytes k (n / 256) ++ rest) = _
      rw [ih, hlow, Nat.pow_succ', Nat.mod_mul]

/-- A number of `k` bytes. -/
def le (k : Nat) : Image (Fin (256 ^ k)) where
  size := k
  bytes n := leBytes k n
  value bs := ⟨leValue k bs, leValue_lt k bs⟩
  length_bytes n := length_leBytes k n
  value_bytes n rest := Fin.ext (by
    show leValue k (leBytes k n ++ rest) = n
    rw [leValue_leBytes, Nat.mod_eq_of_lt n.isLt])

/-! ## Machine words -/

def uint32 : Image UInt32 :=
  (le 4).of (fun n => UInt32.ofNat n) (fun u => ⟨u.toNat, u.toNat_lt⟩) fun _ => UInt32.ofNat_toNat

def uint64 : Image UInt64 :=
  (le 8).of (fun n => UInt64.ofNat n) (fun u => ⟨u.toNat, u.toNat_lt⟩) fun _ => UInt64.ofNat_toNat

/-- A signed word, in two's complement. -/
def int32 : Image Int32 := uint32.of UInt32.toInt32 Int32.toUInt32 Int32.toInt32_toUInt32

/-- Bytes that hold nothing, and are zero. -/
def pad (n : Nat) : Image Unit := (array byte n).of (fun _ => ()) (fun _ _ => 0) fun _ => rfl

end Image

end Lib

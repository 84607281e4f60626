/-
# `Mnvkd.IoOp` — a transfer as a request

`struct vk_io_op` is a `readv(2)` or a `writev(2)` to be made: `vk_io_op_from_tx_ring` and
`vk_io_op_from_rx_ring` take its vectors from a ring, `vk_io_exec_rw` makes the call and
tells from the result whether the request is done, has failed, or has to wait for the
descriptor.  There are three more kinds of request, which `vk_io_exec_rw` does not make:
it returns -1 and leaves the request as it is.
-/
import Mnvkd.Vectoring
import Mnvkd.Socket

namespace Vk

open Errno

/-- `enum VK_IO_OP_KIND`. -/
inductive IoKind where
  | read
  | write
  | forward
  | flush
  | hup
  deriving DecidableEq, Repr

/-- `enum VK_IO_OP_STATE`. -/
inductive IoState where
  | pending
  | staged
  | submitted
  | done
  | eagain
  | needsPoll
  | error
  | canceled
  deriving DecidableEq, Repr

/-- `struct vk_io_op`, without the process, the thread, the flags and the tags. -/
structure IoOp where
  fd : Nat
  kind : IoKind
  iov : Iovecs
  len : Nat
  state : IoState
  res : Int
  err : Errno
  deriving DecidableEq, Repr

namespace IoOp

/-- `vk_io_op_init`. -/
def init : IoOp := ⟨0, .read, ⟨⟨none, 0⟩, ⟨none, 0⟩⟩, 0, .pending, 0, 0⟩

/-! ## The vectors of a ring -/

/-- What `vk_io_op_from_tx_ring` and `vk_io_op_from_rx_ring` share: the vectors, cut to
`maxLen` unless that is 0, and -1 if they have no bytes. -/
def fromVectors (op : IoOp) (vectors : Iovecs) (maxLen : Nat) : SysResult IoOp :=
  let b1 := vectors.v0.len
  let b2 := vectors.v1.len
  if b1 + b2 = 0 then .err EAGAIN
  else
    let need := if maxLen > 0 then maxLen else b1 + b2
    let l1 := min b1 need
    let remaining := need - l1
    let l2 := if remaining > 0 then min b2 remaining else 0
    .ok { op with
      iov := ⟨{ vectors.v0 with len := l1 }, { vectors.v1 with len := l2 }⟩
      len := l1 + l2 }

/-- `vk_io_op_from_tx_ring`. -/
def fromTxRing (op : IoOp) (ring : Vectoring) (maxLen : Nat) : SysResult IoOp :=
  op.fromVectors ring.vectorTx maxLen

/-- `vk_io_op_from_rx_ring`. -/
def fromRxRing (op : IoOp) (ring : Vectoring) (maxLen : Nat) : SysResult IoOp :=
  op.fromVectors ring.vectorRx maxLen

/-- Without a limit a request has the vectors as they are. -/
theorem fromVectors_zero (op : IoOp) (vectors : Iovecs) (h : 0 < iovecLen vectors) :
    op.fromVectors vectors 0 = .ok { op with iov := vectors, len := iovecLen vectors } := by
  have hsome : ¬vectors.v0.len + vectors.v1.len = 0 := Nat.pos_iff_ne_zero.mp h
  have hfirst : min vectors.v0.len (vectors.v0.len + vectors.v1.len) = vectors.v0.len :=
    Nat.min_eq_left (Nat.le_add_right _ _)
  have hsecond : (if vectors.v1.len > 0 then min vectors.v1.len vectors.v1.len else 0) =
      vectors.v1.len := by
    split
    · exact Nat.min_self _
    · omega
  simp only [fromVectors, if_neg hsome, gt_iff_lt, Nat.lt_irrefl, if_false, hfirst,
    Nat.add_sub_cancel_left]
  simp only [← gt_iff_lt, hsecond]
  rfl

/-! ## Making the call -/

/-- A request `vk_io_exec_rw` makes no call for. -/
def unmade (op : IoOp) : Bool :=
  match op.kind with
  | .read => false
  | .write => false
  | .forward => true
  | .flush => true
  | .hup => true

/-- `vk_io_exec_rw`, with what `readv(2)` or `writev(2)` answers.  `EWOULDBLOCK` is
`EAGAIN`. -/
def execRw (op : IoOp) (answer : SysResult Nat) : SysResult Unit × IoOp :=
  if op.unmade then (.err EINVAL, op)
  else
    match answer with
    | .ok rc =>
        if rc < op.len then (.ok (), { op with res := rc, err := EAGAIN, state := .needsPoll })
        else (.ok (), { op with res := rc, err := 0, state := .done })
    | .err e =>
        if e = EAGAIN then (.ok (), { op with res := -1, err := e, state := .needsPoll })
        else (.ok (), { op with res := -1, err := e, state := .error })

/-- A request that has been dealt with: done, failed, or in need of the descriptor. -/
def settled (op : IoOp) : Bool :=
  match op.state with
  | .done => true
  | .error => true
  | .needsPoll => true
  | .pending => false
  | .staged => false
  | .submitted => false
  | .eagain => false
  | .canceled => false

theorem settled_iff (op : IoOp) :
    op.settled = true ↔ op.state = .done ∨ op.state = .error ∨ op.state = .needsPoll := by
  rw [settled]
  cases op.state <;> decide

section Exec
variable (op : IoOp) (answer : SysResult Nat)

theorem execRw_of_unmade (h : op.unmade = true) : op.execRw answer = (.err EINVAL, op) :=
  if_pos h

/-- A request a call is made for is settled, and its result is the call's. -/
theorem execRw_of_made (h : op.unmade = false) :
    (op.execRw answer).2.settled = true ∧
      (op.execRw answer).2.res = match answer with
        | .ok rc => (rc : Int)
        | .err _ => -1 := by
  cases answer with
  | ok rc =>
      simp only [execRw, h, Bool.false_eq_true, if_false]
      split <;> exact ⟨rfl, rfl⟩
  | err e =>
      simp only [execRw, h, Bool.false_eq_true, if_false]
      split <;> exact ⟨rfl, rfl⟩

/-- What is asked for does not change. -/
theorem execRw_same : (op.execRw answer).2.fd = op.fd ∧ (op.execRw answer).2.kind = op.kind := by
  by_cases h : op.unmade = true
  · rw [op.execRw_of_unmade answer h]
    exact ⟨rfl, rfl⟩
  · rw [Bool.not_eq_true] at h
    cases answer with
    | ok rc =>
        simp only [execRw, h, Bool.false_eq_true, if_false]
        split <;> exact ⟨rfl, rfl⟩
    | err e =>
        simp only [execRw, h, Bool.false_eq_true, if_false]
        split <;> exact ⟨rfl, rfl⟩

/-- A request is settled after it was tried if a call was made for it, or if it was
settled before. -/
theorem settled_execRw :
    (op.execRw answer).2.settled = true ↔ op.unmade = false ∨ op.settled = true := by
  by_cases h : op.unmade = true
  · rw [op.execRw_of_unmade answer h, h]
    simp
  · rw [Bool.not_eq_true] at h
    exact iff_of_true (op.execRw_of_made answer h).1 (Or.inl h)

end Exec

end IoOp

end Vk

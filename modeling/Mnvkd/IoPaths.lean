/-
# `Mnvkd.IoPaths` — two ways to make a transfer

`vk_vectoring_read` and `vk_vectoring_write` make the call and mark the ring at once.  The
other way is a request: its vectors are taken from the ring, `vk_io_exec_rw` makes the call,
and some time later `vk_io_apply_rx` or `vk_io_apply_tx` marks the ring with the result.

The result is the number the call returned, and nothing else of the request is looked at.
What an error was is read from `errno`, when the result is applied; that the input has
ended is not said at all; and whether the ring was blocked, in which case
`vk_vectoring_write` makes no call, is not asked.

| | the two ways agree on |
| :-- | :-- |
| `WriteAgrees` | a write of which the ring is told what the call did |
| `ReadAgrees` | a read that does not change whether the input has ended |
-/
import Mnvkd.Eof
import Mnvkd.IoOp

namespace Vk

open Lib

namespace Vectoring

/-! ## The requests -/

/-- `readv(2)` into the vectors of a request. -/
def scatterInto (ring : Vectoring) (iov : Iovecs) (bytes : List UInt8) : Vectoring :=
  { ring with
    bufStart :=
      (ring.bufStart.store iov.v0.addr (bytes.take iov.v0.len)).store iov.v1.addr
        (bytes.drop iov.v0.len) }

/-- `vk_io_apply_tx`, which does not look at the request. -/
def applyTx (ring : Vectoring) (_op : IoOp) (res : Int) (errno : Errno) : Io :=
  ring.signedSent res errno

/-- `vk_io_apply_rx`. -/
def applyRx (ring : Vectoring) (_op : IoOp) (res : Int) (errno : Errno) : Io :=
  ring.signedReceived res errno

/-- A write by request.  `later` is what `errno` is when the result is applied; without
bytes to write there is no request. -/
def requestWrite (ring : Vectoring) (op : IoOp) (writev : SysResult Nat) (later : Errno) :
    Option Vectoring :=
  match op.fromTxRing ring 0 with
  | .err _ => none
  | .ok op =>
      let op := ({ op with kind := .write }.execRw writev).2
      some (ring.applyTx op op.res later).ring

/-- A read by request. -/
def requestRead (ring : Vectoring) (op : IoOp) (readv : SysResult (List UInt8)) (later : Errno) :
    Option Vectoring :=
  match op.fromRxRing ring 0 with
  | .err _ => none
  | .ok op =>
      match readv with
      | .err e =>
          let op := ({ op with kind := .read }.execRw (.err e)).2
          some (ring.applyRx op op.res later).ring
      | .ok bytes =>
          let ring := ring.scatterInto op.iov bytes
          let op := ({ op with kind := .read }.execRw (.ok bytes.length)).2
          some (ring.applyRx op op.res later).ring

/-! ## What is compared -/

/-- The bytes queued and where, and the error. -/
structure SameBytes (ring ring' : Vectoring) : Prop where
  bufStart : ring'.bufStart = ring.bufStart
  bufLen : ring'.bufLen = ring.bufLen
  txCursor : ring'.txCursor = ring.txCursor
  txLen : ring'.txLen = ring.txLen
  error : ring'.error = ring.error

section Same
variable {ring ring' : Vectoring}

theorem SameBytes.markSent (h : SameBytes ring ring') (n : Nat) :
    SameBytes (ring.markSent n) (ring'.markSent n) := by
  have hlen := h.txLen
  have hcursor := h.txCursor
  have hbuf := h.bufLen
  simp only [Vectoring.markSent, hlen]
  split
  · exact h
  · split
    · exact ⟨h.bufStart, h.bufLen, by simp only [sync, hcursor, hbuf], rfl, h.error⟩
    · exact ⟨h.bufStart, h.bufLen, h.txCursor, rfl, rfl⟩

theorem SameBytes.markReceived (h : SameBytes ring ring') (n : Nat) :
    SameBytes (ring.markReceived n) (ring'.markReceived n) := by
  have hlen := h.txLen
  have hbuf := h.bufLen
  have hrx : ring'.rxLen = ring.rxLen := by rw [rxLen, rxLen, hlen, hbuf]
  simp only [Vectoring.markReceived, hrx]
  split
  · exact h
  · split
    · exact ⟨h.bufStart, h.bufLen, h.txCursor, by simp only [sync, hlen, hbuf], h.error⟩
    · split
      · exact ⟨h.bufStart, h.bufLen, h.txCursor, hbuf, h.error⟩
      · exact ⟨h.bufStart, h.bufLen, h.txCursor, h.txLen, rfl⟩

theorem eof_markSent (ring : Vectoring) (n : Nat) : (ring.markSent n).eof = ring.eof := by
  simp only [Vectoring.markSent]
  split
  · rfl
  · split <;> rfl

/-- The length of what is queued, where it begins, all bytes, the end of the input and the
error. -/
structure Agree (ring ring' : Vectoring) : Prop extends SameBytes ring ring' where
  eof : ring'.eof = ring.eof

end Same

/-! ## Writes -/

/-- A write by request does what the direct one does where the call went well and the ring
was not blocked, or nothing was written; where the call failed and the error is still in
`errno`; or where the ring was blocked, and the error it has is. -/
def WriteAgrees (ring : Vectoring) (writev : SysResult Nat) (later : Errno) : Prop :=
  match writev with
  | .ok n => ring.txBlocked = false ∨ n = 0
  | .err e => if ring.txBlocked then (later : Int) = ring.error else later = e

section Write
variable {ring : Vectoring} {op : IoOp} {writev : SysResult Nat} {later errno : Errno}

/-- A request writes as much as the call said, or records what `errno` is later. -/
theorem requestWrite_eq (h : ring.Wf) (hsome : 0 < ring.txLen) :
    ring.requestWrite op writev later = some (match writev with
      | .ok n => ring.markSent n
      | .err _ => { ring with error := later }) := by
  have hlen : iovecLen ring.vectorTx = ring.txLen := h.vectorTxLen_eq
  have hop := op.fromVectors_zero ring.vectorTx (by rw [hlen]; exact hsome)
  have hres := @IoOp.execRw_of_made
    { op with kind := .write, iov := ring.vectorTx, len := iovecLen ring.vectorTx } writev rfl
  simp only [requestWrite, IoOp.fromTxRing, hop, applyTx, hres.2]
  cases writev with
  | ok n =>
      have hn : ¬(n : Int) < 0 := Int.not_lt.mpr (Int.natCast_nonneg n)
      simp only [signedSent, if_neg hn, Int.toNat_natCast]
  | err e => rfl

theorem write_agrees_iff (h : ring.Wf) (hsome : 0 < ring.txLen)
    (hfits : ∀ n, writev = .ok n → n ≤ ring.txLen) :
    (∃ ring', ring.requestWrite op writev later = some ring' ∧
      Agree (ring.write writev errno).ring ring') ↔ ring.WriteAgrees writev later := by
  rw [requestWrite_eq h hsome]
  simp only [Option.some.injEq, exists_eq_left']
  cases hblocked : ring.txBlocked with
  | true =>
      rw [write_of_blocked hblocked]
      cases writev with
      | ok n =>
          simp only [WriteAgrees, hblocked, Bool.true_eq_false, false_or]
          constructor
          · intro hagree
            by_contra hpos
            have hlen : (ring.markSent n).txLen = ring.txLen := hagree.txLen
            rw [← length_queue, (h.markSent (hfits n rfl)).queue, List.length_drop,
              length_queue] at hlen
            have hle := hfits n rfl
            omega
          · rintro rfl
            exact ⟨⟨rfl, rfl, rfl, rfl, rfl⟩, rfl⟩
      | err e =>
          simp only [WriteAgrees, hblocked, if_true]
          constructor
          · intro hagree
            exact hagree.error
          · intro herror
            exact ⟨⟨rfl, rfl, rfl, rfl, herror⟩, rfl⟩
  | false =>
      cases writev with
      | ok n =>
          have hn : ¬(n : Int) < 0 := Int.not_lt.mpr (Int.natCast_nonneg n)
          simp only [WriteAgrees, hblocked, true_or, iff_true]
          simp only [Vectoring.write, hblocked, signedSent, if_neg hn, Int.toNat_natCast,
            Bool.false_eq_true, if_false]
          refine ⟨SameBytes.markSent ?_ n, ?_⟩
          · exact ⟨rfl, rfl, rfl, rfl, rfl⟩
          · rw [eof_markSent, eof_markSent]
      | err e =>
          rw [write_err hblocked]
          simp only [WriteAgrees, hblocked, Bool.false_eq_true, if_false]
          constructor
          · intro hagree
            exact Int.ofNat_inj.mp hagree.error
          · rintro rfl
            exact ⟨⟨rfl, rfl, rfl, rfl, rfl⟩, rfl⟩

end Write

/-! ## Reads -/

/-- A read by request does what the direct one does where the call went well and the input
is taken to have ended just if it read nothing, or where the call failed and the error is
still in `errno`. -/
def ReadAgrees (ring : Vectoring) (readv : SysResult (List UInt8)) (later : Errno) : Prop :=
  match readv with
  | .ok bytes => ring.eof = bytes.isEmpty
  | .err e => later = e

section Read
variable {ring : Vectoring} {op : IoOp} {readv : SysResult (List UInt8)} {later errno : Errno}

/-- A request takes in what was read, or records what `errno` is later. -/
theorem requestRead_eq (h : ring.Wf) (hroom : ring.txLen < ring.bufLen) :
    ring.requestRead op readv later = some (match readv with
      | .ok bytes => (ring.scatter bytes).markReceived bytes.length
      | .err _ => { ring with error := later }) := by
  have hlen : iovecLen ring.vectorRx = ring.bufLen - ring.txLen := h.vectorRxLen_eq
  have hop := op.fromVectors_zero ring.vectorRx (by rw [hlen]; omega)
  simp only [requestRead, IoOp.fromRxRing, hop, applyRx]
  cases readv with
  | ok bytes =>
      have hres := @IoOp.execRw_of_made
        { op with kind := .read, iov := ring.vectorRx, len := iovecLen ring.vectorRx }
        (.ok bytes.length) rfl
      have hn : ¬(bytes.length : Int) < 0 := Int.not_lt.mpr (Int.natCast_nonneg _)
      simp only [hres.2, signedReceived, if_neg hn, Int.toNat_natCast]
      rfl
  | err e =>
      have hres := @IoOp.execRw_of_made
        { op with kind := .read, iov := ring.vectorRx, len := iovecLen ring.vectorRx }
        (.err e) rfl
      simp only [hres.2]
      rfl

theorem read_agrees_iff (h : ring.Wf) (hroom : ring.txLen < ring.bufLen) :
    (∃ ring', ring.requestRead op readv later = some ring' ∧
      Agree (ring.read readv errno).ring ring') ↔ ring.ReadAgrees readv later := by
  rw [requestRead_eq h hroom]
  simp only [Option.some.injEq, exists_eq_left']
  cases readv with
  | ok bytes =>
      have hn : ¬(bytes.length : Int) < 0 := Int.not_lt.mpr (Int.natCast_nonneg _)
      simp only [ReadAgrees, Vectoring.read, signedReceived, if_neg hn, Int.toNat_natCast]
      constructor
      · intro hagree
        have heof := hagree.eof
        rw [eof_markReceived, eof_markReceived] at heof
        exact heof
      · intro heof
        refine ⟨SameBytes.markReceived ?_ bytes.length, ?_⟩
        · exact ⟨rfl, rfl, rfl, rfl, rfl⟩
        · rw [eof_markReceived, eof_markReceived]
          exact heof
  | err e =>
      rw [read_err]
      simp only [ReadAgrees]
      constructor
      · intro hagree
        exact Int.ofNat_inj.mp hagree.error
      · rintro rfl
        exact ⟨⟨rfl, rfl, rfl, rfl, rfl⟩, rfl⟩

end Read

/-- **Two ways to make a transfer.**  A request leaves a ring with bytes to write, or with
room to read into, with the same bytes, cursor, length, end of input and error as the call
made at once exactly where `WriteAgrees` and `ReadAgrees` say.  A write takes no more than
is queued. -/
theorem requests_agree_iff {ring : Vectoring} (h : ring.Wf) (op : IoOp) (later errno : Errno) :
    (0 < ring.txLen → ∀ writev : SysResult Nat, (∀ n, writev = .ok n → n ≤ ring.txLen) →
      ((∃ ring', ring.requestWrite op writev later = some ring' ∧
        Agree (ring.write writev errno).ring ring') ↔ ring.WriteAgrees writev later)) ∧
    (ring.txLen < ring.bufLen → ∀ readv : SysResult (List UInt8),
      ((∃ ring', ring.requestRead op readv later = some ring' ∧
        Agree (ring.read readv errno).ring ring') ↔ ring.ReadAgrees readv later)) :=
  ⟨fun hsome _ hfits => write_agrees_iff h hsome hfits, fun hroom _ => read_agrees_iff h hroom⟩

/-- Eight bytes, five of them queued. -/
def partRing : Vectoring := (cleared.init (fun _ => 0) 8).markReceived 5

theorem wf_partRing : partRing.Wf := (wf_init cleared (fun _ => 0) (by decide)).of_markReceived 5

theorem requests_agree_part :
    ((∃ ring', partRing.requestWrite .init (.ok 3) 0 = some ring' ∧
        Agree (partRing.write (.ok 3) 0).ring ring') ↔ partRing.WriteAgrees (.ok 3) 0) ∧
      ((∃ ring', partRing.requestRead .init (.ok [97, 98]) 0 = some ring' ∧
        Agree (partRing.read (.ok [97, 98]) 0).ring ring') ∧
          partRing.ReadAgrees (.ok [97, 98]) 0) ∧
      ((∃ ring', partRing.requestRead .init (.err Errno.EAGAIN) 0 = some ring' ∧
        Agree (partRing.read (.err Errno.EAGAIN) 0).ring ring') ↔
          partRing.ReadAgrees (.err Errno.EAGAIN) 0) := by
  refine ⟨(requests_agree_iff wf_partRing .init 0 0).1 (by decide) (.ok 3)
      (fun n h => by cases h; decide), ?_,
    (requests_agree_iff wf_partRing .init 0 0).2 (by decide) (.err Errno.EAGAIN)⟩
  have hagrees : partRing.ReadAgrees (.ok [97, 98]) 0 := by
    rw [ReadAgrees]
    decide
  exact ⟨((requests_agree_iff wf_partRing .init 0 0).2 (by decide) (.ok [97, 98])).mpr hagrees,
    hagrees⟩

/-- The end of the input is lost on the way of a request. -/
theorem request_loses_eof :
    ¬∃ ring', partRing.requestRead .init (.ok []) 0 = some ring' ∧
      Agree (partRing.read (.ok []) 0).ring ring' := by
  rintro ⟨ring', hrequest, hagree⟩
  rw [requestRead_eq wf_partRing (by decide)] at hrequest
  cases hrequest
  exact absurd hagree.eof (by decide)

end Vectoring

end Vk

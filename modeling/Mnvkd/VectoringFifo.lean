/-
# `Mnvkd.VectoringFifo` — ring buffers are bounded queues of bytes

A family of rings, on which the ring operations happen in any order, is
compared with a family of bounded queues (`Lib.Fifo`).  What an operation
reports is read off what the code returns: the count, and the bytes that count
stands for in the buffer the caller passed.  `Represents` is what the code
promises of the four vectors after every step.

    rings_refine_fifos   the reports of any run are a run of bounded queues, and
                         each ring represents its queue
-/
import Mnvkd.Lib.Fifo
import Mnvkd.VectoringSpec

namespace Vk

open Lib

namespace Iovec

/-- The places of the buffer a vector covers, in order. -/
def places (v : Iovec) : List Nat := (List.range v.len).map (v.addr + ·)

end Iovec

namespace Vectoring

/-- The places of the two transmit vectors. -/
def txPlaces (ring : Vectoring) : List Nat := ring.vectorTx.v0.places ++ ring.vectorTx.v1.places

/-- The places of the two receive vectors. -/
def rxPlaces (ring : Vectoring) : List Nat := ring.vectorRx.v0.places ++ ring.vectorRx.v1.places

/-- The bytes the two transmit vectors list. -/
def txBytes (ring : Vectoring) : List UInt8 := ring.txPlaces.map ring.bufStart

/-- A ring that represents a bounded queue: cursor and length in range, every
place of the buffer in exactly one of the four vectors, and the queue what the
transmit vectors list. -/
structure Represents (ring : Vectoring) (fifo : Fifo UInt8) : Prop where
  txLen_le : ring.txLen ≤ ring.bufLen
  txCursor_lt : ring.txCursor < ring.bufLen
  partition : (ring.txPlaces ++ ring.rxPlaces).Perm (List.range ring.bufLen)
  capacity : fifo.capacity = ring.bufLen
  queue : fifo.queue = ring.txBytes

/-! ## The vectors of a well-formed ring -/

theorem places_iovecSync {n c len : Nat} (hc : c < n) (hlen : len ≤ n) :
    (iovecSync n c len).v0.places ++ (iovecSync n c len).v1.places = Circular.cells n c len := by
  rw [Iovec.places, Iovec.places, iovecSync_v0_addr, iovecSync_v1_addr, iovecSync_v0_len,
    iovecSync_v1_len]
  by_cases h : c + len ≤ n
  · rw [Circular.cells_of_le h, Nat.min_eq_left (by omega), Nat.sub_eq_zero_of_le (by omega)]
    simp
  · rw [Circular.cells_wrap (by omega) (by omega) hlen, Nat.min_eq_right (by omega)]

variable {ring : Vectoring}

theorem Wf.txPlaces_eq (h : ring.Wf) :
    ring.txPlaces = Circular.cells ring.bufLen ring.txCursor ring.txLen := by
  rw [txPlaces, h.vectorTx_eq, places_iovecSync h.txCursor_lt h.txLen_le]

theorem Wf.rxPlaces_eq (h : ring.Wf) :
    ring.rxPlaces = Circular.cells ring.bufLen (ring.txCursor + ring.txLen)
      (ring.bufLen - ring.txLen) := by
  have hlen : ring.rxLen ≤ ring.bufLen := Nat.sub_le _ _
  rw [rxPlaces, h.vectorRx_eq, places_iovecSync h.rxCursor_lt hlen, rxCursor,
    Circular.cells_mod, rxLen]

theorem Wf.txBytes_eq (h : ring.Wf) : ring.txBytes = ring.queue := by
  rw [txBytes, h.txPlaces_eq, queue, Circular.window]

/-- The four vectors of a well-formed ring cover its buffer once. -/
theorem Wf.partition (h : ring.Wf) :
    (ring.txPlaces ++ ring.rxPlaces).Perm (List.range ring.bufLen) := by
  have hle := h.txLen_le
  rw [h.txPlaces_eq, h.rxPlaces_eq, ← Circular.cells_add, Nat.add_sub_cancel' hle]
  exact Circular.cells_perm h.bufLen_pos

/-- The simulation relation: a well-formed ring and the bounded queue of its
bytes. -/
structure Refines (ring : Vectoring) (fifo : Fifo UInt8) : Prop where
  wf : ring.Wf
  capacity : fifo.capacity = ring.bufLen
  queue : fifo.queue = ring.queue

theorem Refines.represents {fifo : Fifo UInt8} (h : ring.Refines fifo) : ring.Represents fifo :=
  ⟨h.wf.txLen_le, h.wf.txCursor_lt, h.wf.partition, h.capacity, by rw [h.queue, h.wf.txBytes_eq]⟩

/-- A ring whose queue has grown refines the queue appended to; there was room
because the ring is well formed. -/
theorem Refines.append {fifo : Fifo UInt8} {ring' : Vectoring} {bs : List UInt8}
    (h : ring.Refines fifo) (hwf : ring'.Wf) (hlen : ring'.bufLen = ring.bufLen)
    (hq : ring'.queue = ring.queue ++ bs) :
    ∃ fifo', fifo.append bs = some fifo' ∧ ring'.Refines fifo' := by
  have hroom : fifo.queue.length + bs.length ≤ fifo.capacity := by
    rw [h.queue, ← List.length_append, ← hq, length_queue, h.capacity, ← hlen]
    exact hwf.txLen_le
  refine ⟨⟨fifo.capacity, fifo.queue ++ bs, ?_⟩, Fifo.append_eq_some hroom rfl rfl, hwf, ?_, ?_⟩
  · rw [List.length_append]
    exact hroom
  · rw [hlen]
    exact h.capacity
  · rw [hq, ← h.queue]

/-- A ring whose queue has lost its front refines the queue removed from. -/
theorem Refines.remove {fifo : Fifo UInt8} {ring' : Vectoring} {n : Nat}
    (h : ring.Refines fifo) (hn : n ≤ ring.txLen) (hwf : ring'.Wf)
    (hlen : ring'.bufLen = ring.bufLen) (hq : ring'.queue = ring.queue.drop n) :
    ∃ fifo', fifo.remove (ring.queue.take n) = some fifo' ∧ ring'.Refines fifo' := by
  have hn' : n ≤ fifo.queue.length := by rw [h.queue, length_queue]; exact hn
  refine ⟨⟨fifo.capacity, fifo.queue.drop n, ?_⟩, ?_, hwf, ?_, ?_⟩
  · rw [List.length_drop]
    exact Nat.le_trans (Nat.sub_le _ _) fifo.fits
  · rw [← h.queue]
    exact Fifo.remove_eq_some hn' rfl rfl
  · rw [hlen]
    exact h.capacity
  · rw [hq, ← h.queue]

end Vectoring

/-! ## A family of rings -/

namespace Rings

variable {ι : Type} [DecidableEq ι]

/-- What is done to the rings.  The system calls carry the system's answer. -/
inductive Op (ι : Type) where
  | init (i : ι) (start : Memory UInt8) (len : Nat)
  | send (i : ι) (src : Memory UInt8) (buf len : Nat)
  | recv (i : ι) (dst : Memory UInt8) (buf len : Nat)
  | recvSplice (rx tx : ι) (len : Int)
  | read (i : ι) (readv : SysResult (List UInt8))
  | write (i : ι) (writev : SysResult Nat)

/-- A system call transfers no more than it is asked for. -/
def fits {α : Type} (size : α → Nat) (room : Nat) : SysResult α → Bool
  | .ok a => decide (size a ≤ room)
  | .err _ => true

/-- One operation.  Not possible are a buffer of no length, a splice of a ring
with itself, and a system call that transfers more than it is asked for. -/
def step : Op ι → (ι → Vectoring) → Option (ι → Vectoring)
  | .init i start len, rings =>
      if 0 < len then some (Function.update rings i ((rings i).init start len)) else none
  | .send i src buf len, rings => some (Function.update rings i ((rings i).send src buf len).1)
  | .recv i dst buf len, rings => some (Function.update rings i ((rings i).recv dst buf len).ring)
  | .recvSplice rx tx len, rings =>
      if rx = tx then none
      else
        let s := (rings rx).recvSplice (rings tx) len 0
        some (Function.update (Function.update rings tx s.tx) rx s.rx)
  | .read i readv, rings =>
      if fits List.length (rings i).vectorRxLen readv then
        some (Function.update rings i ((rings i).read readv 0).ring)
      else none
  | .write i writev, rings =>
      if fits id (rings i).vectorTxLen writev then
        some (Function.update rings i ((rings i).write writev 0).ring)
      else none

/-- The bytes a system call delivered. -/
def delivered : SysResult (List UInt8) → List UInt8
  | .ok bytes => bytes
  | .err _ => []

/-- What an operation reports, from what it returns: a producer the first bytes
of what it was given, a consumer the bytes it stored, a splice and a write the
first bytes listed by the vectors, as many as the count returned says. -/
def report : Op ι → (ι → Vectoring) → List (Fifo.Event ι UInt8)
  | .init i _ len, _ => [.reset i len]
  | .send i src buf len, rings =>
      [.append i (src.load buf ((rings i).send src buf len).2.toNat)]
  | .recv i dst buf len, rings =>
      let r := (rings i).recv dst buf len
      [.remove i (r.dst.load buf r.rc.toNat)]
  | .recvSplice rx tx len, rings =>
      let s := (rings rx).recvSplice (rings tx) len 0
      [.remove tx ((rings tx).txBytes.take s.rc.toNat),
        .append rx ((rings tx).txBytes.take s.rc.toNat)]
  | .read i readv, rings =>
      [.append i ((delivered readv).take ((rings i).read readv 0).rc.toNat)]
  | .write i writev, rings =>
      [.remove i ((rings i).txBytes.take ((rings i).write writev 0).rc.toNat)]

/-! ## Refinement -/

/-- The rings refine the queues. -/
def Refines (rings : ι → Vectoring) (fifos : ι → Fifo UInt8) : Prop :=
  ∀ i, (rings i).Refines (fifos i)

theorem Refines.update {rings : ι → Vectoring} {fifos : ι → Fifo UInt8} (h : Refines rings fifos)
    (i : ι) {ring : Vectoring} {fifo : Fifo UInt8} (hi : ring.Refines fifo) :
    Refines (Function.update rings i ring) (Function.update fifos i fifo) := by
  intro j
  by_cases hj : j = i
  · subst hj
    rw [Function.update_self, Function.update_self]
    exact hi
  · rw [Function.update_of_ne hj, Function.update_of_ne hj]
    exact h j

/-- An operation that appends to one ring. -/
theorem Refines.append {rings : ι → Vectoring} {fifos : ι → Fifo UInt8} (h : Refines rings fifos)
    {i : ι} {ring' : Vectoring} {bs : List UInt8} (hwf : ring'.Wf)
    (hlen : ring'.bufLen = (rings i).bufLen) (hq : ring'.queue = (rings i).queue ++ bs) :
    ∃ fifos', run Fifo.step [.append i bs] fifos = some fifos' ∧
      Refines (Function.update rings i ring') fifos' := by
  obtain ⟨fifo', hf, hr⟩ := (h i).append hwf hlen hq
  exact ⟨_, by rw [run, Fifo.step_append hf]; rfl, h.update i hr⟩

/-- An operation that removes from one ring. -/
theorem Refines.remove {rings : ι → Vectoring} {fifos : ι → Fifo UInt8} (h : Refines rings fifos)
    {i : ι} {ring' : Vectoring} {n : Nat} (hn : n ≤ (rings i).txLen) (hwf : ring'.Wf)
    (hlen : ring'.bufLen = (rings i).bufLen) (hq : ring'.queue = (rings i).queue.drop n) :
    ∃ fifos', run Fifo.step [.remove i ((rings i).queue.take n)] fifos = some fifos' ∧
      Refines (Function.update rings i ring') fifos' := by
  obtain ⟨fifo', hf, hr⟩ := (h i).remove hn hwf hlen hq
  exact ⟨_, by rw [run, Fifo.step_remove hf]; rfl, h.update i hr⟩

/-- What each operation reports happens to the queues, and the rings refine the
queues after it. -/
theorem Refines.step {op : Op ι} {rings rings' : ι → Vectoring} {fifos : ι → Fifo UInt8}
    (h : Refines rings fifos) (hstep : step op rings = some rings') :
    ∃ fifos', run Fifo.step (report op rings) fifos = some fifos' ∧ Refines rings' fifos' := by
  cases op with
  | init i start len =>
      simp only [Rings.step, Option.ite_none_right_eq_some, Option.some.injEq] at hstep
      obtain ⟨hpos, rfl⟩ := hstep
      exact ⟨_, rfl, h.update i ⟨Vectoring.wf_init _ start hpos, rfl, rfl⟩⟩
  | send i src buf len =>
      cases hstep
      by_cases heof : len > 0 ∧ (rings i).eof = true
      · rw [report, Vectoring.send_of_eof src buf heof.1 heof.2]
        exact h.append (h i).wf rfl (by simp)
      · obtain ⟨hrc, hm⟩ := (h i).wf.send src buf len heof
        rw [report, hrc, Int.toNat_natCast]
        exact h.append hm.wf hm.flags.bufLen hm.queue
  | recv i dst buf len =>
      cases hstep
      obtain ⟨hrc, hdst, -⟩ := (h i).wf.recv dst buf len
      have hm := (h i).wf.recv_moved dst buf len
      have hbytes : ((rings i).recv dst buf len).dst.load buf (min len (rings i).txLen)
          = (rings i).queue.take (min len (rings i).txLen) := by
        have hlen : ((rings i).queue.take len).length = min len (rings i).txLen := by
          rw [List.length_take, Vectoring.length_queue]
        rw [hdst, ← hlen, Memory.load_store, List.length_take, ← List.take_eq_take_min]
      rw [report, hrc, Int.toNat_natCast, hbytes]
      exact h.remove (Nat.min_le_right _ _) hm.wf hm.flags.bufLen hm.queue
  | recvSplice rx tx len =>
      simp only [Rings.step, Option.ite_none_left_eq_some, Option.some.injEq] at hstep
      obtain ⟨hne, rfl⟩ := hstep
      obtain ⟨hrc, -, hmrx, hmtx⟩ := (h rx).wf.recvSplice (h tx).wf len 0
      obtain ⟨-, hqueued⟩ := Vectoring.spliceLen_le (rings rx) (rings tx) len
      simp only [report, hrc, Int.toNat_natCast, (h tx).wf.txBytes_eq]
      obtain ⟨fifos₁, hrun₁, h₁⟩ := h.remove hqueued hmtx.wf hmtx.flags.bufLen hmtx.queue
      have hrx : Function.update rings tx ((rings rx).recvSplice (rings tx) len 0).tx rx = rings rx :=
        Function.update_of_ne hne _ _
      obtain ⟨fifos₂, hrun₂, h₂⟩ := h₁.append (i := rx) hmrx.wf
        (by rw [hrx]; exact hmrx.flags.bufLen) (by rw [hrx]; exact hmrx.queue)
      refine ⟨fifos₂, ?_, h₂⟩
      rw [← List.singleton_append, run_append, hrun₁]
      exact hrun₂
  | read i readv =>
      simp only [Rings.step, Option.ite_none_right_eq_some, Option.some.injEq] at hstep
      obtain ⟨hfit, rfl⟩ := hstep
      cases readv with
      | err e =>
          rw [report, Vectoring.read_err]
          refine h.append ?_ rfl (by simp [delivered]; rfl)
          exact (h i).wf.congr rfl rfl rfl rfl rfl (Int.natCast_nonneg e)
      | ok bytes =>
          have hb : bytes.length ≤ (rings i).rxLen := by
            rw [fits, (h i).wf.vectorRxLen_eq, decide_eq_true_eq] at hfit
            exact hfit
          obtain ⟨hrc, -, hm⟩ := (h i).wf.read_ok hb 0
          rw [report, hrc, Int.toNat_natCast, delivered, List.take_length]
          exact h.append hm.wf hm.flags.bufLen hm.queue
  | write i writev =>
      simp only [Rings.step, Option.ite_none_right_eq_some, Option.some.injEq] at hstep
      obtain ⟨hfit, rfl⟩ := hstep
      rw [report, (h i).wf.txBytes_eq]
      cases hb : (rings i).txBlocked with
      | true =>
          rw [Vectoring.write_of_blocked hb]
          exact h.remove (Nat.zero_le _) (h i).wf rfl rfl
      | false =>
          cases writev with
          | err e =>
              rw [Vectoring.write_err hb]
              refine h.remove (Nat.zero_le _) ?_ rfl rfl
              exact (h i).wf.congr rfl rfl rfl rfl rfl (Int.natCast_nonneg e)
          | ok n =>
              have hn : n ≤ (rings i).txLen := by
                simpa [fits, (h i).wf.vectorTxLen_eq] using hfit
              obtain ⟨hrc, -, hm⟩ := (h i).wf.write_ok hb hn 0
              rw [hrc, Int.toNat_natCast]
              exact h.remove hn hm.wf hm.flags.bufLen hm.queue

omit [DecidableEq ι] in
/-- The rings as they are initialised refine empty queues. -/
theorem refines_init (rings : ι → Vectoring) (start : ι → Memory UInt8) {len : ι → Nat}
    (hlen : ∀ i, 0 < len i) :
    Refines (fun i => (rings i).init (start i) (len i)) (fun i => Fifo.empty (len i)) := fun i =>
  ⟨Vectoring.wf_init _ _ (hlen i), rfl, rfl⟩

/-- Ring buffers refine bounded queues: what any sequence of operations reports
is a run of the queues, at the end of which, and so after every operation, each
ring represents its queue. -/
theorem rings_refine_fifos (rings : ι → Vectoring) (start : ι → Memory UInt8) {len : ι → Nat}
    (hlen : ∀ i, 0 < len i) {ops : List (Op ι)} {rings' : ι → Vectoring}
    (hrun : run step ops (fun i => (rings i).init (start i) (len i)) = some rings') :
    ∃ fifos', run Fifo.step
        (trace step report ops fun i => (rings i).init (start i) (len i))
        (fun i => Fifo.empty (len i)) = some fifos' ∧
      ∀ i, (rings' i).Represents (fifos' i) := by
  obtain ⟨es, fifos', hes, htrace, hR⟩ := run_simulates (v := fun e => [e]) (C := fun _ _ => True)
    report (fun op rs rs' fs hR _ hstep => by
      obtain ⟨fs', hfs, hR'⟩ := Refines.step hR hstep
      exact ⟨report op rs, fs', hfs, by simp, hR'⟩)
    (refines_init rings start hlen) (Meets.of_forall (fun _ _ => trivial) _ _) hrun
  rw [List.flatMap_singleton'] at htrace
  rw [← htrace]
  exact ⟨fifos', hes, fun i => (hR i).represents⟩

/-- Two rings of four bytes: the first wraps, is spliced into the second, and the
second is read into and written from. -/
def wrapOps : List (Op Bool) :=
  [.send false (fun a => a.toUInt8) 10 3, .recv false (fun _ => 0) 0 2,
    .send false (fun a => a.toUInt8) 20 3, .recvSplice true false 3, .read true (.ok [7]),
    .write true (.ok 2), .read true (.err Errno.EAGAIN), .init false (fun _ => 0) 2]

theorem rings_refine_fifos_wrapOps :
    ∃ fifos', run Fifo.step
        (trace step report wrapOps fun _ => (Vectoring.cleared).init (fun _ => 0) 4)
        (fun _ => Fifo.empty 4) = some fifos' ∧
      ∀ i, (((run step wrapOps fun _ => (Vectoring.cleared).init (fun _ => 0) 4).get rfl) i).Represents
        (fifos' i) :=
  rings_refine_fifos (fun _ => Vectoring.cleared) (fun _ _ => 0) (fun _ => by decide)
    (Option.some_get _).symm

end Rings

end Vk

/-
# `Mnvkd.VectoringAlike` — rings that differ in bytes that are not queued

A ring is initialised around a buffer that nothing clears, so two rings may be the
same in every field and every queued byte (`Vectoring.Agrees`) and still lie over
different bytes.  No operation can tell them apart: it reads of the buffer what is
queued, and what it stores there it stores in both.

The rings of a process that `vk_init` has not touched need not be well formed, and
of those nothing is known but that both runs have the same.  So what every
operation keeps is that two rings are the same, or well formed and in agreement
(`Vectoring.Alike`).
-/
import Mnvkd.PipeSpec

namespace Vk

open Lib Errno

namespace Vectoring

/-- The ring, around other bytes. -/
def around (ring : Vectoring) (start : Memory UInt8) : Vectoring := { ring with bufStart := start }

/-- The rings are the same in every field and every byte that is queued. -/
structure Agrees (ring ring' : Vectoring) : Prop where
  fields : ring' = ring.around ring'.bufStart
  queue : ring'.queue = ring.queue

/-- They agree, and are well formed where they are not the same. -/
inductive Alike (ring : Vectoring) : Vectoring → Prop where
  | same : Alike ring ring
  | around (start : Memory UInt8) (hwf : ring.Wf)
      (hqueue : (ring.around start).queue = ring.queue) : Alike ring (ring.around start)

variable {ring ring' : Vectoring}

theorem Wf.around (h : ring.Wf) (start : Memory UInt8) : (ring.around start).Wf :=
  h.congr rfl rfl rfl rfl rfl h.error_nonneg

theorem Alike.agrees (h : Alike ring ring') : Agrees ring ring' := by
  cases h with
  | same => exact ⟨rfl, rfl⟩
  | around start hwf hqueue => exact ⟨rfl, hqueue⟩

section Fields
variable (h : Agrees ring ring')
include h

theorem Agrees.bufLen : ring'.bufLen = ring.bufLen := by rw [h.fields]; rfl
theorem Agrees.txLen : ring'.txLen = ring.txLen := by rw [h.fields]; rfl
theorem Agrees.rxLen : ring'.rxLen = ring.rxLen := by rw [h.fields]; rfl
theorem Agrees.vectorTx : ring'.vectorTx = ring.vectorTx := by rw [h.fields]; rfl
theorem Agrees.vectorRx : ring'.vectorRx = ring.vectorRx := by rw [h.fields]; rfl
theorem Agrees.error : ring'.error = ring.error := by rw [h.fields]; rfl
theorem Agrees.eof : ring'.eof = ring.eof := by rw [h.fields]; rfl
theorem Agrees.closed : ring'.closed = ring.closed := by rw [h.fields]; rfl
theorem Agrees.rxBlocked : ring'.rxBlocked = ring.rxBlocked := by rw [h.fields]; rfl
theorem Agrees.txBlocked : ring'.txBlocked = ring.txBlocked := by rw [h.fields]; rfl
theorem Agrees.effect : ring'.effect = ring.effect := by rw [h.fields]; rfl

theorem Agrees.vectorTxLen : ring'.vectorTxLen = ring.vectorTxLen :=
  congrArg iovecLen h.vectorTx

theorem Agrees.vectorRxLen : ring'.vectorRxLen = ring.vectorRxLen :=
  congrArg iovecLen h.vectorRx

theorem Agrees.isEmpty : ring'.isEmpty = ring.isEmpty :=
  congrArg (· == 0) h.vectorTxLen

end Fields

/-- What changes no byte keeps alike rings alike, where it takes from equal queues
equal queues. -/
theorem Alike.map {f : Vectoring → Vectoring} (h : Alike ring ring')
    (hover : ∀ start, f (ring.around start) = (f ring).around start) (hwf : ring.Wf → (f ring).Wf)
    (hqueue : ∀ start, ring.Wf → (ring.around start).queue = ring.queue →
      ((f ring).around start).queue = (f ring).queue) :
    Alike (f ring) (f ring') := by
  cases h with
  | same => exact .same
  | around start hring hq =>
      rw [hover start]
      exact .around start (hwf hring) (hqueue start hring hq)

/-- The same block is stored in both buffers. -/
theorem Alike.store (h : Alike ring ring') (a : Nat) (bs : List UInt8) :
    Alike (ring.around (ring.bufStart.store a bs)) (ring'.around (ring'.bufStart.store a bs)) := by
  cases h with
  | same => exact .same
  | around start hwf hqueue =>
      exact @Alike.around (ring.around (ring.bufStart.store a bs)) (start.store a bs) (hwf.around _)
        (Circular.window_store_congr hqueue a bs)

/-! ### Marking -/

theorem markReceived_around (start : Memory UInt8) (n : Nat) :
    (ring.around start).markReceived n = (ring.markReceived n).around start := by
  have hrx : (ring.around start).rxLen = ring.rxLen := rfl
  unfold markReceived
  by_cases h0 : n = 0
  · rw [if_pos h0, if_pos h0]
  · by_cases hlt : n < ring.rxLen
    · simp only [hrx, if_neg h0, if_pos hlt]
      rfl
    · by_cases heq : n = ring.rxLen
      · simp only [hrx, if_neg h0, if_neg hlt, if_pos heq]
        rfl
      · simp only [hrx, if_neg h0, if_neg hlt, if_neg heq]
        rfl

theorem markSent_around (start : Memory UInt8) (n : Nat) :
    (ring.around start).markSent n = (ring.markSent n).around start := by
  have htx : (ring.around start).txLen = ring.txLen := rfl
  unfold markSent
  by_cases h0 : n = 0
  · rw [if_pos h0, if_pos h0]
  · by_cases hle : n ≤ ring.txLen
    · simp only [htx, if_neg h0, if_pos hle]
      rfl
    · simp only [htx, if_neg h0, if_neg hle]
      rfl

/-- `markSent` drops what it marks, if that much is queued, and else nothing. -/
theorem Wf.queue_markSent (h : ring.Wf) (n : Nat) :
    (ring.markSent n).queue = if n ≤ ring.txLen then ring.queue.drop n else ring.queue := by
  split
  · exact (h.markSent ‹_›).queue
  · rename_i hn
    have hpos : n ≠ 0 := by omega
    rw [Vectoring.markSent, if_neg hpos, if_neg hn]
    rfl

theorem Alike.markSent (h : Alike ring ring') (n : Nat) :
    Alike (ring.markSent n) (ring'.markSent n) := by
  refine h.map (f := fun ring => ring.markSent n) (fun start => markSent_around start n)
    (fun hwf => hwf.of_markSent n) fun start hwf hqueue => ?_
  rw [← markSent_around, (hwf.around start).queue_markSent, hwf.queue_markSent, hqueue]
  rfl

/-- The receive vectors are stored into, the blocks one each. -/
def stored (ring : Vectoring) (bs₀ bs₁ : List UInt8) : Vectoring :=
  ring.around ((ring.bufStart.store ring.vectorRx.v0.addr bs₀).store ring.vectorRx.v1.addr bs₁)

theorem Alike.stored (h : Alike ring ring') (bs₀ bs₁ : List UInt8) :
    Alike (ring.stored bs₀ bs₁) (ring'.stored bs₀ bs₁) := by
  unfold Vectoring.stored
  rw [h.agrees.vectorRx]
  exact (h.store ring.vectorRx.v0.addr bs₀).store ring.vectorRx.v1.addr bs₁

/-- What is stored is marked received: where the blocks are `bs` one after the
other, both queues go on with it. -/
theorem Alike.received (h : Alike ring ring') {bs₀ bs₁ : List UInt8} {n : Nat}
    (hput : ring.Wf → n ≤ ring.rxLen → ∃ bs : List UInt8, bs.length = n ∧
      ∀ start : Memory UInt8,
        (start.store ring.vectorRx.v0.addr bs₀).store ring.vectorRx.v1.addr bs₁
        = Circular.put start ring.bufLen ring.rxCursor bs) :
    Alike ((ring.stored bs₀ bs₁).markReceived n) ((ring'.stored bs₀ bs₁).markReceived n) := by
  have hstored := h.stored bs₀ bs₁
  cases h with
  | same => exact .same
  | around start hwf hqueue =>
      have hover : ((ring.around start).stored bs₀ bs₁).markReceived n
          = ((ring.stored bs₀ bs₁).markReceived n).around
            ((ring.around start).stored bs₀ bs₁).bufStart :=
        @markReceived_around (ring.stored bs₀ bs₁) _ n
      rw [hover]
      refine .around _ ((hwf.around _).of_markReceived n) ?_
      rw [← hover]
      by_cases hn : n ≤ ring.rxLen
      · obtain ⟨bs, rfl, hbs⟩ := hput hwf hn
        exact ((hwf.around start).markReceived hn (hbs start)).queue.trans
          ((congrArg (· ++ bs) hqueue).trans (hwf.markReceived hn (hbs ring.bufStart)).queue.symm)
      · -- more than there was room for: nothing is queued
        have hkept (r : Vectoring) (hr : r.rxLen = ring.rxLen) :
            (r.markReceived n).queue = r.queue := by
          rw [Vectoring.markReceived, if_neg (by omega), hr, if_neg (by omega), if_neg (by omega)]
          rfl
        rw [hkept (ring.stored bs₀ bs₁) rfl, hkept ((ring.around start).stored bs₀ bs₁) rfl]
        exact hstored.agrees.queue

/-! ### Copying -/

/-- A request is served with what it asks for at most. -/
theorem request_le (v : Iovecs) (len : Nat) : (request v len).1 + (request v len).2 ≤ len := by
  rw [request_eq]
  dsimp only
  omega

/-- What `recv` takes of a request for `len` bytes. -/
def front (ring : Vectoring) (len : Nat) : List UInt8 :=
  ring.bufStart.load ring.vectorTx.v0.addr (request ring.vectorTx len).1 ++
    ring.bufStart.load ring.vectorTx.v1.addr (request ring.vectorTx len).2

theorem recv_eq (dst : Memory UInt8) (buf len : Nat) :
    ring.recv dst buf len =
      ⟨ring.markSent (ring.front len).length, dst.store buf (ring.front len),
        (ring.markSent (ring.front len).length).sizeReturn (ring.front len).length⟩ := by
  have hlen : (ring.front len).length
      = (request ring.vectorTx len).1 + (request ring.vectorTx len).2 := by
    rw [front, List.length_append, Memory.length_load, Memory.length_load]
  have hwrap : ¬wrapguardAdd (request ring.vectorTx len).1 (request ring.vectorTx len).2 = -1 := by
    rw [wrapguardAdd_eq]
    omega
  have hdst := Memory.store_store dst buf
    (ring.bufStart.load ring.vectorTx.v0.addr (request ring.vectorTx len).1)
    (ring.bufStart.load ring.vectorTx.v1.addr (request ring.vectorTx len).2)
  rw [Memory.length_load] at hdst
  unfold recv
  dsimp only
  rw [if_neg hwrap, hlen, hdst]
  rfl

theorem Wf.front_eq (h : ring.Wf) (len : Nat) : ring.front len = ring.queue.take len := by
  have hle := h.txLen_le
  have hlen : ring.queue.length = ring.txLen := length_queue ring
  rw [front, h.vectorTx_eq, request_iovecSync, iovecSync_v0_addr, iovecSync_v1_addr,
    load_request _ h.txCursor_lt (by omega), List.take_eq_take_min, hlen, queue,
    Circular.take_window (Nat.min_le_right _ _)]

theorem Alike.front (h : Alike ring ring') (len : Nat) : ring'.front len = ring.front len := by
  cases h with
  | same => rfl
  | around start hwf hqueue => rw [(hwf.around start).front_eq, hwf.front_eq, hqueue]

theorem Alike.sizeReturn (h : Alike ring ring') (n : Nat) :
    ring'.sizeReturn n = ring.sizeReturn n := by
  unfold Vectoring.sizeReturn
  rw [h.agrees.error]

/-- `recv` takes the same from both. -/
theorem Alike.recv (h : Alike ring ring') (dst dst' : Memory UInt8) (buf len : Nat) :
    Alike (ring.recv dst buf len).ring (ring'.recv dst' buf len).ring ∧
      (ring'.recv dst' buf len).rc = (ring.recv dst buf len).rc ∧
      (ring.recv dst buf len).dst = dst.store buf (ring.front len) ∧
      (ring'.recv dst' buf len).dst = dst'.store buf (ring.front len) := by
  have hsent := h.markSent (ring.front len).length
  rw [recv_eq, recv_eq, h.front]
  exact ⟨hsent, hsent.sizeReturn _, rfl, rfl⟩

/-- The vectors a request is served from lie one after the other. -/
theorem Wf.put_request (h : ring.Wf) {len : Nat} {bs₀ bs₁ : List UInt8}
    (h₀ : bs₀.length = (request ring.vectorRx len).1)
    (h₁ : bs₁.length = (request ring.vectorRx len).2) (start : Memory UInt8) :
    (start.store ring.vectorRx.v0.addr bs₀).store ring.vectorRx.v1.addr bs₁
      = Circular.put start ring.bufLen ring.rxCursor (bs₀ ++ bs₁) := by
  rw [h.vectorRx_eq, request_iovecSync] at h₀ h₁
  dsimp only at h₀ h₁
  rw [h.vectorRx_eq, iovecSync_v0_addr, iovecSync_v1_addr, ← store_request]
  by_cases hwrap : ring.bufLen - ring.rxCursor ≤ min len ring.rxLen
  · rw [List.take_left' (by omega), List.drop_left' (by omega)]
  · -- all of it fits before the end of the buffer
    obtain rfl : bs₁ = [] := List.eq_nil_of_length_eq_zero (by omega)
    rw [List.append_nil, List.take_of_length_le (by omega), List.drop_eq_nil_of_le (by omega)]

/-- What was asked for is stored and marked. -/
theorem Alike.requested (h : Alike ring ring') {len : Nat} {bs₀ bs₁ : List UInt8}
    (h₀ : bs₀.length = (request ring.vectorRx len).1)
    (h₁ : bs₁.length = (request ring.vectorRx len).2) :
    Alike
      ((ring.stored bs₀ bs₁).markReceived
        ((request ring.vectorRx len).1 + (request ring.vectorRx len).2))
      ((ring'.stored bs₀ bs₁).markReceived
        ((request ring.vectorRx len).1 + (request ring.vectorRx len).2)) :=
  h.received fun hwf _ => ⟨bs₀ ++ bs₁, by rw [List.length_append, h₀, h₁], hwf.put_request h₀ h₁⟩

/-- `send` past its guard. -/
theorem send_eq (src : Memory UInt8) (buf : Nat) {len : Nat} (heof : ¬(len > 0 ∧ ring.eof = true)) :
    ring.send src buf len =
      let lengths := request ring.vectorRx len
      let ring := (ring.stored (src.load buf lengths.1)
        (src.load (buf + lengths.1) lengths.2)).markReceived (lengths.1 + lengths.2)
      (ring, ring.sizeReturn (lengths.1 + lengths.2)) := by
  have hwrap : ¬wrapguardAdd (request ring.vectorRx len).1 (request ring.vectorRx len).2 = -1 := by
    rw [wrapguardAdd_eq]
    omega
  unfold send
  rw [if_neg heof]
  dsimp only
  rw [if_neg hwrap]
  rfl

theorem Alike.send (h : Alike ring ring') (src : Memory UInt8) (buf len : Nat) :
    Alike (ring.send src buf len).1 (ring'.send src buf len).1 ∧
      (ring'.send src buf len).2 = (ring.send src buf len).2 := by
  by_cases heof : len > 0 ∧ ring.eof = true
  · rw [send_of_eof src buf heof.1 heof.2, send_of_eof src buf heof.1 (h.agrees.eof.trans heof.2)]
    exact ⟨h, rfl⟩
  · have hreceived := @Alike.requested _ _ h len (src.load buf (request ring.vectorRx len).1)
      (src.load (buf + (request ring.vectorRx len).1) (request ring.vectorRx len).2)
      (Memory.length_load _ _ _) (Memory.length_load _ _ _)
    rw [send_eq src buf heof, send_eq src buf (by rwa [h.agrees.eof]), h.agrees.vectorRx]
    exact ⟨hreceived, hreceived.sizeReturn _⟩

/-- `send` looks at no more than the bytes it is given. -/
theorem send_congr {src src' : Memory UInt8} {buf len : Nat}
    (h : src'.load buf len = src.load buf len) : ring.send src' buf len = ring.send src buf len := by
  have hpart : ∀ i k, i + k ≤ len → src'.load (buf + i) k = src.load (buf + i) k := by
    intro i k hik
    have hdrop := congrArg (fun bs => (bs.drop i).take k) h
    rwa [Memory.drop_load _ _ _ _ (by omega), Memory.drop_load _ _ _ _ (by omega), Memory.take_load,
      Memory.take_load, Nat.min_eq_left (by omega)] at hdrop
  have hle := request_le ring.vectorRx len
  have hfirst := hpart 0 (request ring.vectorRx len).1 (by omega)
  rw [Nat.add_zero] at hfirst
  unfold send
  dsimp only
  rw [hfirst, hpart _ _ hle]

/-! ### Splicing -/

/-- The part of a splice that goes to one vector: the same bytes are stored. -/
theorem Alike.part (h : Alike ring ring') (dst dst' : Memory UInt8) (buf k : Nat) {r r' : Received}
    (hr : r = if k > 0 then ring.recv dst buf k else ⟨ring, dst, k⟩)
    (hr' : r' = if k > 0 then ring'.recv dst' buf k else ⟨ring', dst', k⟩) :
    Alike r.ring r'.ring ∧ r'.rc = r.rc ∧
      ∃ bs, r.dst = dst.store buf bs ∧ r'.dst = dst'.store buf bs ∧ (r.rc = k → bs.length = k) := by
  subst hr hr'
  split
  · obtain ⟨hring, hrc, hdst, hdst'⟩ := h.recv dst dst' buf k
    refine ⟨hring, hrc, ring.front k, hdst, hdst', fun hk => ?_⟩
    rw [recv_eq] at hk
    dsimp only [Vectoring.sizeReturn] at hk
    split at hk
    · omega
    · omega
  · refine ⟨h, rfl, [], ?_, ?_, fun _ => ?_⟩
    · exact (Memory.store_nil _ _).symm
    · exact (Memory.store_nil _ _).symm
    · show 0 = k
      omega

/-- What two splices leave is alike. -/
structure SplicedAlike (s s' : Spliced) : Prop where
  rx : Alike s.rx s'.rx
  tx : Alike s.tx s'.tx
  rc : s'.rc = s.rc
  errno : s'.errno = s.errno

theorem Alike.recvSplice {rx rx' tx tx' : Vectoring} (hrx : Alike rx rx') (htx : Alike tx tx')
    (len : Int) (errno : Errno) :
    SplicedAlike (Vectoring.recvSplice rx tx len errno)
      (Vectoring.recvSplice rx' tx' len errno) := by
  obtain ⟨start, rfl⟩ : ∃ start, rx' = rx.around start := ⟨_, hrx.agrees.fields⟩
  unfold Vectoring.recvSplice
  rw [hrx.agrees.vectorRxLen, htx.agrees.vectorTxLen, hrx.agrees.vectorRx]
  dsimp only
  generalize hlen : (if 0 ≤ len ∧ len < _ then _ else _ : Nat) = lenFinal
  generalize hr₀ : (if (request rx.vectorRx lenFinal).1 > 0 then tx.recv _ _ _ else _) = r₀
  generalize hr₀' : (if (request rx.vectorRx lenFinal).1 > 0 then tx'.recv _ _ _ else _) = r₀'
  obtain ⟨hring₀, hrc₀, bs₀, hdst₀, hdst₀', hlen₀⟩ := htx.part _ _ _ _ hr₀.symm hr₀'.symm
  rw [hrc₀]
  split
  · refine ⟨?_, hring₀, rfl, rfl⟩
    show Alike (rx.around r₀.dst) ((rx.around start).around r₀'.dst)
    rw [hdst₀, hdst₀']
    exact hrx.store _ bs₀
  · rename_i hk₀
    generalize hr₁ : (if (request rx.vectorRx lenFinal).2 > 0 then r₀.ring.recv _ _ _ else _) = r₁
    generalize hr₁' : (if (request rx.vectorRx lenFinal).2 > 0 then r₀'.ring.recv _ _ _ else _)
      = r₁'
    obtain ⟨hring₁, hrc₁, bs₁, hdst₁, hdst₁', hlen₁⟩ := hring₀.part _ _ _ _ hr₁.symm hr₁'.symm
    have hstored : rx.around r₁.dst = rx.stored bs₀ bs₁ := by rw [hdst₁, hdst₀]; rfl
    have hstored' : (rx.around start).around r₁'.dst = (rx.around start).stored bs₀ bs₁ := by
      rw [hdst₁', hdst₀']
      rfl
    rw [hrc₁]
    split
    · refine ⟨?_, hring₁, rfl, rfl⟩
      show Alike (rx.around r₁.dst) ((rx.around start).around r₁'.dst)
      rw [hstored, hstored']
      exact hrx.stored bs₀ bs₁
    · rename_i hk₁
      have hreceived := hrx.requested (hlen₀ (not_not.mp hk₀)) (hlen₁ (not_not.mp hk₁))
      rw [← hstored, ← hstored'] at hreceived
      exact ⟨hreceived, hring₁, hreceived.sizeReturn _, rfl⟩

/-! ### Flags -/

/-- What leaves the buffer and the queue keeps alike rings alike. -/
theorem Alike.flags (h : Alike ring ring') (f : Vectoring → Vectoring)
    (hover : ∀ start, f (ring.around start) = (f ring).around start) (hwf : ring.Wf → (f ring).Wf)
    (hqueue : ∀ ring : Vectoring, (f ring).queue = ring.queue) : Alike (f ring) (f ring') :=
  h.map hover hwf fun start _ hq => by rw [← hover, hqueue, hqueue, hq]

theorem Alike.setRxBlocked (h : Alike ring ring') (b : Bool) :
    Alike (ring.setRxBlocked b) (ring'.setRxBlocked b) :=
  h.flags (fun ring => ring.setRxBlocked b) (fun _ => rfl) (fun hwf => hwf.setRxBlocked b)
    fun _ => rfl

theorem Alike.setTxBlocked (h : Alike ring ring') (b : Bool) :
    Alike (ring.setTxBlocked b) (ring'.setTxBlocked b) :=
  h.flags (fun ring => ring.setTxBlocked b) (fun _ => rfl) (fun hwf => hwf.setTxBlocked b)
    fun _ => rfl

theorem Alike.handleEffect (h : Alike ring ring') :
    Alike ring.handleEffect.1 ring'.handleEffect.1 :=
  h.flags (fun ring => ring.handleEffect.1) (fun _ => rfl)
    (fun hwf => hwf.congr rfl rfl rfl rfl rfl hwf.error_nonneg) fun _ => rfl

theorem Alike.clearEof (h : Alike ring ring') : Alike ring.clearEof ring'.clearEof := by
  refine h.flags Vectoring.clearEof (fun start => ?_) ProcLocal.wf_clearEof ProcLocal.queue_clearEof
  show (if ring.eof then _ else _) = _
  unfold Vectoring.clearEof
  split
  · rfl
  · rfl

theorem Alike.markEof (h : Alike ring ring') : Alike ring.markEof ring'.markEof := by
  refine h.flags Vectoring.markEof (fun start => ?_) ProcLocal.wf_markEof ProcLocal.queue_markEof
  show (if ring.eof then _ else _) = _
  unfold Vectoring.markEof
  split
  · rfl
  · rfl

theorem Alike.markClosed (h : Alike ring ring') : Alike ring.markClosed ring'.markClosed := by
  refine h.flags Vectoring.markClosed (fun start => ?_) ProcLocal.wf_markClosed fun ring => ?_
  · show (if ring.closed then _ else _) = _
    unfold Vectoring.markClosed
    split
    · rfl
    · rfl
  · unfold Vectoring.markClosed
    split
    · rfl
    · rfl

theorem Alike.splice {rx rx' tx tx' : Vectoring} (hrx : Alike rx rx') (htx : Alike tx tx')
    (len : Int) (errno : Errno) :
    SplicedAlike (rx.splice tx len errno) (rx'.splice tx' len errno) := by
  have hs := hrx.recvSplice htx len errno
  unfold Vectoring.splice
  dsimp only
  rw [hs.rc, hs.rx.agrees.vectorRxLen, hs.tx.agrees.vectorTxLen]
  exact ⟨hs.rx.setRxBlocked _, hs.tx.setTxBlocked _, rfl, hs.errno⟩

/-! ### System calls -/

/-- What two ring operations leave is alike. -/
structure IoAlike (io io' : Io) : Prop where
  ring : Alike io.ring io'.ring
  rc : io'.rc = io.rc
  errno : io'.errno = io.errno

theorem IoAlike.refl (io : Io) : IoAlike io io := ⟨.same, rfl, rfl⟩

theorem Alike.signedSent (h : Alike ring ring') (sent : Int) (errno : Errno) :
    IoAlike (ring.signedSent sent errno) (ring'.signedSent sent errno) := by
  unfold Vectoring.signedSent
  split
  · exact ⟨h.flags (fun ring => { ring with error := errno }) (fun _ => rfl)
      (fun hwf => hwf.of_error errno) fun _ => rfl, rfl, rfl⟩
  · exact ⟨h.markSent sent.toNat, rfl, rfl⟩

/-- A read that is answered: what it got is stored and marked. -/
theorem read_ok_eq (bytes : List UInt8) (errno : Errno) :
    ring.read (.ok bytes) errno =
      ⟨(stored { ring with
            rxBlocked := decide (bytes.length < ring.vectorRxLen), eof := bytes.isEmpty }
          (bytes.take ring.vectorRx.v0.len) (bytes.drop ring.vectorRx.v0.len)).markReceived
          bytes.length,
        bytes.length, errno⟩ := by
  unfold read
  dsimp only
  rw [signedReceived, if_neg (by omega)]
  rfl

theorem Alike.read (h : Alike ring ring') (readv : SysResult (List UInt8)) (errno : Errno) :
    IoAlike (ring.read readv errno) (ring'.read readv errno) := by
  cases readv with
  | err e =>
      rw [read_err, read_err]
      exact ⟨h.flags
        (fun ring => { ring with
          rxBlocked := decide (e = EAGAIN)
          effect := ring.effect && !decide (e = EAGAIN)
          error := e })
        (fun _ => rfl) (fun hwf => hwf.congr rfl rfl rfl rfl rfl (Int.natCast_nonneg e))
        fun _ => rfl, rfl, rfl⟩
  | ok bytes =>
      have hflags := h.flags
        (fun ring => { ring with
          rxBlocked := decide (bytes.length < ring.vectorRxLen), eof := bytes.isEmpty })
        (fun _ => rfl) (fun hwf => hwf.congr rfl rfl rfl rfl rfl hwf.error_nonneg) fun _ => rfl
      have hroom : ring'.vectorRx.v0.len = ring.vectorRx.v0.len :=
        congrArg (fun v : Iovecs => v.v0.len) h.agrees.vectorRx
      rw [read_ok_eq, read_ok_eq, hroom]
      refine ⟨hflags.received fun hwf hle => ⟨bytes, rfl, fun start => ?_⟩, rfl, rfl⟩
      exact congrArg bufStart ((hwf.around start).scatter hle)

theorem Alike.write (h : Alike ring ring') (writev : SysResult Nat) (errno : Errno) :
    IoAlike (ring.write writev errno) (ring'.write writev errno) := by
  cases hb : ring.txBlocked with
  | true =>
      rw [write_of_blocked hb, write_of_blocked (h.agrees.txBlocked.trans hb)]
      exact ⟨h, rfl, rfl⟩
  | false =>
      have hb' : ring'.txBlocked = false := h.agrees.txBlocked.trans hb
      cases writev with
      | err e =>
          rw [write_err hb, write_err hb']
          exact ⟨h.flags
            (fun ring => { ring with
              txBlocked := decide (e = EAGAIN)
              effect := ring.effect && !decide (e = EAGAIN)
              error := e })
            (fun _ => rfl) (fun hwf => hwf.congr rfl rfl rfl rfl rfl (Int.natCast_nonneg e))
            fun _ => rfl, rfl, rfl⟩
      | ok sent =>
          have hflags := h.flags
            (fun ring => { ring with txBlocked := decide (sent < ring.vectorTxLen) })
            (fun _ => rfl) (fun hwf => hwf.congr rfl rfl rfl rfl rfl hwf.error_nonneg) fun _ => rfl
          unfold Vectoring.write
          rw [if_neg (by rw [hb]; exact Bool.false_ne_true),
            if_neg (by rw [hb']; exact Bool.false_ne_true)]
          exact hflags.signedSent sent errno

/-- An accept that is answered: the record is sent to the ring. -/
theorem accept_ok_eq {alloc : Nat} (h : ¬ring.rxLen < alloc) (record : List UInt8) (errno : Errno) :
    ring.accept alloc (.ok record) errno =
      ⟨((ring.setRxBlocked false).send (Memory.store (fun _ => 0) 0 record) 0 alloc).1,
        ((ring.setRxBlocked false).send (Memory.store (fun _ => 0) 0 record) 0 alloc).2, 0⟩ :=
  if_neg h

theorem Alike.accept (h : Alike ring ring') (alloc : Nat) (accepted : SysResult (List UInt8))
    (errno : Errno) :
    IoAlike (ring.accept alloc accepted errno) (ring'.accept alloc accepted errno) := by
  have hunblocked := h.setRxBlocked false
  by_cases hlt : ring.rxLen < alloc
  · rw [accept_of_lt hlt, accept_of_lt (by rwa [h.agrees.rxLen])]
    exact ⟨hunblocked, rfl, rfl⟩
  · have hlt' : ¬ring'.rxLen < alloc := by rwa [h.agrees.rxLen]
    cases accepted with
    | err e =>
        rw [accept_err hlt, accept_err hlt']
        exact ⟨h.flags
          (fun ring => { ring with
            rxBlocked := decide (e = EAGAIN)
            effect := ring.effect && !decide (e = EAGAIN)
            error := e })
          (fun _ => rfl) (fun hwf => hwf.congr rfl rfl rfl rfl rfl (Int.natCast_nonneg e))
          fun _ => rfl, rfl, rfl⟩
    | ok record =>
        obtain ⟨hring, hrc⟩ := hunblocked.send (Memory.store (fun _ => 0) 0 record) 0 alloc
        rw [accept_ok_eq hlt, accept_ok_eq hlt']
        exact ⟨hring, hrc, rfl⟩

theorem Alike.close (h : Alike ring ring') (rc : SysResult Unit) (errno : Errno) :
    IoAlike (ring.close rc errno) (ring'.close rc errno) := by
  have hclosed (error : Int) (herror : ring.Wf → 0 ≤ error) := h.flags
    (fun ring => { ring with error := error, closed := true, effect := true }) (fun _ => rfl)
    (fun hwf => hwf.congr rfl rfl rfl rfl rfl (herror hwf)) fun _ => rfl
  cases rc with
  | err e => exact (hclosed e fun _ => Int.natCast_nonneg e).signedSent (-1) e
  | ok _ =>
      have hflags := h.flags (fun ring => { ring with closed := true, effect := true })
        (fun _ => rfl) (fun hwf => hwf.congr rfl rfl rfl rfl rfl hwf.error_nonneg) fun _ => rfl
      exact hflags.signedSent 0 errno

/-! ### Lines and hang-up -/

theorem Alike.txLineRequest (h : Alike ring ring') (len : Nat) :
    ring'.txLineRequest len = ring.txLineRequest len := by
  cases h with
  | same => rfl
  | around start hwf hqueue =>
      unfold Vectoring.txLineRequest
      rw [(hwf.around start).txLineLen_eq, hwf.txLineLen_eq, hqueue]

theorem Alike.hup (h : Alike ring ring') (errno : Errno) :
    IoAlike (ring.hup errno) (ring'.hup errno) := by
  unfold Vectoring.hup
  rw [h.agrees.eof]
  split
  · exact ⟨h, rfl, rfl⟩
  · exact ⟨h.markEof, rfl, rfl⟩

theorem Alike.readhup (h : Alike ring ring') (errno : Errno) :
    IoAlike (ring.readhup errno) (ring'.readhup errno) := by
  unfold Vectoring.readhup
  rw [h.agrees.eof]
  split
  · exact ⟨h.clearEof, rfl, rfl⟩
  · exact ⟨h, rfl, rfl⟩

theorem Alike.forwardhup {tx tx' rx rx' : Vectoring} (htx : Alike tx tx') (hrx : Alike rx rx') :
    Alike (Vectoring.forwardhup tx rx).1 (Vectoring.forwardhup tx' rx').1 ∧
      Alike (Vectoring.forwardhup tx rx).2.1 (Vectoring.forwardhup tx' rx').2.1 ∧
      (Vectoring.forwardhup tx' rx').2.2 = (Vectoring.forwardhup tx rx).2.2 := by
  unfold Vectoring.forwardhup
  rw [htx.agrees.eof]
  split
  · exact ⟨htx.clearEof, hrx.markEof, rfl⟩
  · exact ⟨htx, hrx, rfl⟩

/-- Two rings initialised around any bytes are alike if they were both closed or
neither. -/
theorem alike_init {ring ring' : Vectoring} (h : ring'.closed = ring.closed)
    (start start' : Memory UInt8) {len : Nat} (hlen : 0 < len) :
    Alike (ring.init start len) (ring'.init start' len) := by
  have hring : ring'.init start' len = (ring.init start len).around start' := by
    unfold Vectoring.init
    rw [h]
    rfl
  rw [hring]
  exact .around start' (wf_init ring start hlen) rfl

end Vectoring

end Vk

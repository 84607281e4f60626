/-
# `Mnvkd.VectoringSpec` — what each ring operation does to the queue

`Wf` is the invariant of a ring: cursor and length in range, and the four
vectors those of cursor and length.  `queue` is what a ring holds, in order.
Each operation has one lemma here that says what it returns and what it does to
the queue, and one that says what it leaves alone; nothing later unfolds a
transfer.

    recv        returns n = min len txLen, stores the first n bytes, drops them
    send        returns n = min len rxLen (0 at EOF), appends n bytes
    recvSplice  moves n bytes from the front of one queue to the back of another
    read, write the same with the system call's count
-/
import Mnvkd.Lib.Circular
import Mnvkd.Vectoring

namespace Vk

open Lib

/-! ## The vectors of a window -/

section Sync
variable (n c len k : Nat)

@[simp] theorem iovecSync_v0_addr : (iovecSync n c len).v0.addr = c := by
  unfold iovecSync; split <;> rfl

@[simp] theorem iovecSync_v1_addr : (iovecSync n c len).v1.addr = 0 := by
  unfold iovecSync; split <;> rfl

theorem iovecSync_v0_len : (iovecSync n c len).v0.len = min len (n - c) := by
  unfold iovecSync
  split
  · show n - c = min len (n - c)
    omega
  · show len = min len (n - c)
    omega

theorem iovecSync_v1_len : (iovecSync n c len).v1.len = len - (n - c) := by
  unfold iovecSync
  split
  · rfl
  · show 0 = len - (n - c)
    omega

@[simp] theorem iovecLen_iovecSync : iovecLen (iovecSync n c len) = len := by
  rw [iovecLen, iovecSync_v0_len, iovecSync_v1_len]
  omega

theorem request_eq (v : Iovecs) :
    Vectoring.request v k = (min k v.v0.len, min (k - v.v0.len) v.v1.len) := by
  unfold Vectoring.request
  split
  · exact Prod.ext (by show k = min k _; omega) (by show 0 = min _ _; omega)
  · split
    · exact Prod.ext (by show _ = min k _; omega) (by show _ = min _ _; omega)
    · exact Prod.ext (by show _ = min k _; omega) (by show _ = min _ _; omega)

/-- What the two vectors of a window serve of a request. -/
theorem request_iovecSync :
    Vectoring.request (iovecSync n c len) k
      = (min (min k len) (n - c), min k len - (n - c)) := by
  rw [request_eq, iovecSync_v0_len, iovecSync_v1_len]
  refine Prod.ext ?_ ?_
  · show min k (min len (n - c)) = min (min k len) (n - c)
    omega
  · show min (k - min len (n - c)) (len - (n - c)) = min k len - (n - c)
    omega

variable {n c len k}

/-- The two parts of a request read the front of the window. -/
theorem load_request (m : Memory UInt8) (hc : c < n) (hk : k ≤ n) :
    m.load c (min k (n - c)) ++ m.load 0 (k - (n - c)) = Circular.window m n c k := by
  by_cases h : c + k ≤ n
  · rw [Circular.window_of_le h, Nat.min_eq_left (by omega), Nat.sub_eq_zero_of_le (by omega)]
    simp
  · rw [Circular.window_wrap (by omega) (by omega) hk, Nat.min_eq_right (by omega)]

/-- The two parts of a request write the cells of the window. -/
theorem store_request (m : Memory UInt8) (bs : List UInt8) :
    (m.store c (bs.take (n - c))).store 0 (bs.drop (n - c)) = Circular.put m n c bs := rfl

end Sync

namespace Vectoring

/-! ## The invariant and the queue -/

/-- A ring whose vectors are those of its cursor and length. -/
structure Wf (ring : Vectoring) : Prop where
  bufLen_pos : 0 < ring.bufLen
  txCursor_lt : ring.txCursor < ring.bufLen
  txLen_le : ring.txLen ≤ ring.bufLen
  vectorTx_eq : ring.vectorTx = iovecSync ring.bufLen ring.txCursor ring.txLen
  vectorRx_eq : ring.vectorRx = iovecSync ring.bufLen ring.rxCursor ring.rxLen
  error_nonneg : 0 ≤ ring.error

/-- The bytes queued in a ring, in order. -/
def queue (ring : Vectoring) : List UInt8 :=
  Circular.window ring.bufStart ring.bufLen ring.txCursor ring.txLen

@[simp] theorem length_queue (ring : Vectoring) : ring.queue.length = ring.txLen := by
  simp [queue]

variable {ring : Vectoring}

theorem Wf.vectorTxLen_eq (h : ring.Wf) : ring.vectorTxLen = ring.txLen := by
  rw [vectorTxLen, h.vectorTx_eq, iovecLen_iovecSync]

theorem Wf.vectorRxLen_eq (h : ring.Wf) : ring.vectorRxLen = ring.bufLen - ring.txLen := by
  rw [vectorRxLen, h.vectorRx_eq, iovecLen_iovecSync, rxLen]

theorem Wf.rxCursor_lt (h : ring.Wf) : ring.rxCursor < ring.bufLen := Nat.mod_lt _ h.bufLen_pos

theorem Wf.isEmpty_iff (h : ring.Wf) : ring.isEmpty = true ↔ ring.queue = [] := by
  rw [isEmpty, h.vectorTxLen_eq, beq_iff_eq, ← List.length_eq_zero_iff, length_queue]

theorem Wf.sizeReturn_eq (h : ring.Wf) (size : Nat) : ring.sizeReturn size = size := by
  have : ring.error ≠ -1 := by have := h.error_nonneg; omega
  rw [sizeReturn, if_neg this]

theorem wrapguardAdd_eq (a b : Nat) : wrapguardAdd a b = 0 := by
  rw [wrapguardAdd, if_neg (by omega)]

/-- Flags do not enter the invariant. -/
theorem Wf.congr {ring' : Vectoring} (h : ring.Wf) (h₁ : ring'.bufLen = ring.bufLen)
    (h₂ : ring'.txCursor = ring.txCursor) (h₃ : ring'.txLen = ring.txLen)
    (h₄ : ring'.vectorTx = ring.vectorTx) (h₅ : ring'.vectorRx = ring.vectorRx)
    (h₆ : 0 ≤ ring'.error) : ring'.Wf :=
  ⟨h₁ ▸ h.bufLen_pos, h₁ ▸ h₂ ▸ h.txCursor_lt, h₁ ▸ h₃ ▸ h.txLen_le,
    by rw [h₄, h.vectorTx_eq, h₁, h₂, h₃],
    by rw [h₅, h.vectorRx_eq, rxCursor, rxLen, rxCursor, rxLen, h₁, h₂, h₃], h₆⟩

/-- Resynchronised after its cursor and length are set, a ring is well formed. -/
theorem wf_sync (hpos : 0 < ring.bufLen) (hc : ring.txCursor < ring.bufLen)
    (hl : ring.txLen ≤ ring.bufLen) (he : 0 ≤ ring.error) : ring.sync.Wf :=
  ⟨hpos, hc, hl, rfl, rfl, he⟩

/-! ## Initialisation -/

theorem wf_init (ring : Vectoring) (start : Memory UInt8) {len : Nat} (h : 0 < len) :
    (ring.init start len).Wf :=
  ⟨h, h, Nat.zero_le _, rfl, rfl, Int.le_refl 0⟩

@[simp] theorem queue_init (ring : Vectoring) (start : Memory UInt8) (len : Nat) :
    (ring.init start len).queue = [] := rfl

/-! ## Marking -/

/-- What a transfer leaves alone: everything but the bytes, the cursor and
length with their vectors, and the effect. -/
structure SameFlags (ring ring' : Vectoring) : Prop where
  bufLen : ring'.bufLen = ring.bufLen
  error : ring'.error = ring.error
  eof : ring'.eof = ring.eof
  closed : ring'.closed = ring.closed
  rxBlocked : ring'.rxBlocked = ring.rxBlocked
  txBlocked : ring'.txBlocked = ring.txBlocked

theorem SameFlags.refl (ring : Vectoring) : SameFlags ring ring := ⟨rfl, rfl, rfl, rfl, rfl, rfl⟩

theorem SameFlags.trans {a b c : Vectoring} (h : SameFlags a b) (h' : SameFlags b c) :
    SameFlags a c :=
  ⟨h'.bufLen.trans h.bufLen, h'.error.trans h.error, h'.eof.trans h.eof,
    h'.closed.trans h.closed, h'.rxBlocked.trans h.rxBlocked, h'.txBlocked.trans h.txBlocked⟩

/-- A transfer of `n` bytes that leaves the queue `q`. -/
structure Moved (ring ring' : Vectoring) (n : Nat) (q : List UInt8) : Prop where
  wf : ring'.Wf
  queue : ring'.queue = q
  flags : SameFlags ring ring'
  effect : ring'.effect = (ring.effect || decide (0 < n))

/-- `markSent` of bytes that are queued drops them. -/
theorem Wf.markSent (h : ring.Wf) {n : Nat} (hn : n ≤ ring.txLen) :
    Moved ring (ring.markSent n) n (ring.queue.drop n) := by
  rcases Nat.eq_zero_or_pos n with rfl | hpos
  · rw [Vectoring.markSent, if_pos rfl]
    exact ⟨h, by simp, SameFlags.refl ring, by simp⟩
  · rw [Vectoring.markSent, if_neg (Nat.pos_iff_ne_zero.mp hpos), if_pos hn]
    refine ⟨?_, ?_, ⟨rfl, rfl, rfl, rfl, rfl, rfl⟩, by simp [hpos]⟩
    · refine (@wf_sync { ring with
        txCursor := (ring.txCursor + n) % ring.bufLen, txLen := ring.txLen - n }
        h.bufLen_pos (Nat.mod_lt _ h.bufLen_pos) ?_ h.error_nonneg).congr rfl rfl rfl rfl rfl
        h.error_nonneg
      exact Nat.le_trans (Nat.sub_le _ _) h.txLen_le
    · show Circular.window ring.bufStart ring.bufLen ((ring.txCursor + n) % ring.bufLen)
        (ring.txLen - n) = _
      rw [Circular.window_mod, queue, Circular.drop_window hn]

/-- `markReceived` of as many bytes as there is room for, not none, moves the
length on. -/
theorem markReceived_of_le (h : ring.Wf) {n : Nat} (hpos : 0 < n) (hn : n ≤ ring.rxLen) :
    ring.markReceived n = { sync { ring with txLen := ring.txLen + n } with effect := true } := by
  have hle := h.txLen_le
  have hrx : ring.rxLen = ring.bufLen - ring.txLen := rfl
  rw [markReceived, if_neg (Nat.pos_iff_ne_zero.mp hpos)]
  by_cases hlt : n < ring.rxLen
  · simp only [if_pos hlt]
    rw [Nat.mod_eq_of_lt (by omega)]
  · have heq : n = ring.rxLen := by omega
    have hfull : ring.txLen + n = ring.bufLen := by omega
    simp only [if_neg hlt, if_pos heq]
    rw [hfull]

/-- `markReceived` of bytes already stored behind the queue appends them. -/
theorem Wf.markReceived (h : ring.Wf) {bs : List UInt8} (hbs : bs.length ≤ ring.bufLen - ring.txLen)
    {start : Memory UInt8} (hs : start = Circular.put ring.bufStart ring.bufLen ring.rxCursor bs) :
    Moved ring (Vectoring.markReceived { ring with bufStart := start } bs.length) bs.length
      (ring.queue ++ bs) := by
  have hle := h.txLen_le
  have hq : Circular.window start ring.bufLen ring.txCursor (ring.txLen + bs.length)
      = ring.queue ++ bs := by
    rw [hs, rxCursor, Circular.window_put h.bufLen_pos (by omega), queue]
  have hstart : Wf { ring with bufStart := start } := h.congr rfl rfl rfl rfl rfl h.error_nonneg
  rcases Nat.eq_zero_or_pos bs.length with h0 | hpos
  · rw [Vectoring.markReceived, if_pos h0]
    rw [h0, Nat.add_zero] at hq
    exact ⟨hstart, hq, ⟨rfl, rfl, rfl, rfl, rfl, rfl⟩, by simp [h0]⟩
  · rw [markReceived_of_le hstart hpos hbs]
    refine ⟨?_, hq, ⟨rfl, rfl, rfl, rfl, rfl, rfl⟩, by simp [hpos]⟩
    refine (@wf_sync { ring with bufStart := start, txLen := ring.txLen + bs.length }
      h.bufLen_pos h.txCursor_lt ?_ h.error_nonneg).congr rfl rfl rfl rfl rfl h.error_nonneg
    show ring.txLen + bs.length ≤ ring.bufLen
    omega

/-! ## Copying -/

/-- Two blocks stored end to end, the second at the end of the first. -/
theorem store_load_parts (m dst : Memory UInt8) {n c len buf : Nat} (hc : c < n) (hlen : len ≤ n) :
    (dst.store buf (m.load c (min len (n - c)))).store (buf + min len (n - c))
        (m.load 0 (len - (n - c)))
      = dst.store buf (Circular.window m n c len) := by
  have := Memory.store_store dst buf (m.load c (min len (n - c))) (m.load 0 (len - (n - c)))
  rw [Memory.length_load] at this
  rw [this, load_request m hc hlen]

/-- `recv` returns how much it copies, which is what is asked for if that much
is queued; it stores the front of the queue and drops it. -/
theorem Wf.recv (h : ring.Wf) (dst : Memory UInt8) (buf len : Nat) :
    (ring.recv dst buf len).rc = min len ring.txLen ∧
      (ring.recv dst buf len).dst = dst.store buf (ring.queue.take len) ∧
      (ring.recv dst buf len).ring = ring.markSent (min len ring.txLen) := by
  have hle := h.txLen_le
  have hreq : request ring.vectorTx len
      = (min (min len ring.txLen) (ring.bufLen - ring.txCursor),
          min len ring.txLen - (ring.bufLen - ring.txCursor)) := by
    rw [h.vectorTx_eq, request_iovecSync]
  have hsum : min (min len ring.txLen) (ring.bufLen - ring.txCursor)
      + (min len ring.txLen - (ring.bufLen - ring.txCursor)) = min len ring.txLen := by omega
  have hq : ring.queue.take len
      = Circular.window ring.bufStart ring.bufLen ring.txCursor (min len ring.txLen) := by
    have hlen : ring.queue.length = ring.txLen := length_queue ring
    rw [List.take_eq_take_min, hlen, queue, Circular.take_window (Nat.min_le_right _ _)]
  have hwrap : ¬wrapguardAdd (min (min len ring.txLen) (ring.bufLen - ring.txCursor))
      (min len ring.txLen - (ring.bufLen - ring.txCursor)) = -1 := by
    rw [wrapguardAdd_eq]
    omega
  have hwf := (h.markSent (Nat.min_le_right len ring.txLen)).wf
  unfold Vectoring.recv
  simp only [hreq, if_neg hwrap, hsum]
  refine ⟨hwf.sizeReturn_eq _, ?_, trivial⟩
  rw [h.vectorTx_eq, iovecSync_v0_addr, iovecSync_v1_addr,
    store_load_parts _ _ h.txCursor_lt (Nat.le_trans (Nat.min_le_right _ _) hle), hq]

theorem Wf.recv_moved (h : ring.Wf) (dst : Memory UInt8) (buf len : Nat) :
    Moved ring (ring.recv dst buf len).ring (min len ring.txLen)
      (ring.queue.drop (min len ring.txLen)) := by
  rw [(h.recv dst buf len).2.2]
  exact h.markSent (Nat.min_le_right _ _)

/-- The bytes `send` copies go to the cells just after the queue. -/
theorem put_parts (m src : Memory UInt8) (n c k buf : Nat) :
    (m.store c (src.load buf (min k (n - c)))).store 0
        (src.load (buf + min k (n - c)) (k - (n - c)))
      = Circular.put m n c (src.load buf k) := by
  have htake : (src.load buf k).take (n - c) = src.load buf (min k (n - c)) := by
    rw [Memory.take_load, Nat.min_comm]
  have hdrop : (src.load buf k).drop (n - c)
      = src.load (buf + min k (n - c)) (k - (n - c)) := by
    by_cases h : n - c ≤ k
    · rw [Memory.drop_load _ _ _ _ h, Nat.min_eq_right h]
    · have hz : k - (n - c) = 0 := by omega
      rw [List.drop_eq_nil_of_le (by rw [Memory.length_load]; omega), hz, Memory.load_zero]
  rw [← store_request, htake, hdrop]

/-- `send` into a ring at EOF does nothing. -/
theorem send_of_eof (src : Memory UInt8) (buf : Nat) {len : Nat} (hlen : 0 < len)
    (heof : ring.eof = true) : ring.send src buf len = (ring, 0) :=
  if_pos ⟨hlen, heof⟩

/-- Otherwise it returns how much it copies, which is what is asked for if there
is room, and appends that many bytes of the source to the queue. -/
theorem Wf.send (h : ring.Wf) (src : Memory UInt8) (buf len : Nat)
    (heof : ¬(len > 0 ∧ ring.eof = true)) :
    (ring.send src buf len).2 = min len ring.rxLen ∧
      Moved ring (ring.send src buf len).1 (min len ring.rxLen)
        (ring.queue ++ src.load buf (min len ring.rxLen)) := by
  have hreq : request ring.vectorRx len
      = (min (min len ring.rxLen) (ring.bufLen - ring.rxCursor),
          min len ring.rxLen - (ring.bufLen - ring.rxCursor)) := by
    rw [h.vectorRx_eq, request_iovecSync]
  have hsum : min (min len ring.rxLen) (ring.bufLen - ring.rxCursor)
      + (min len ring.rxLen - (ring.bufLen - ring.rxCursor)) = min len ring.rxLen := by omega
  have hwrap : ¬wrapguardAdd (min (min len ring.rxLen) (ring.bufLen - ring.rxCursor))
      (min len ring.rxLen - (ring.bufLen - ring.rxCursor)) = -1 := by
    rw [wrapguardAdd_eq]
    omega
  have hmoved := @Wf.markReceived ring h (src.load buf (min len ring.rxLen))
    (by rw [Memory.length_load]; exact Nat.min_le_right _ _) _ rfl
  rw [Memory.length_load] at hmoved
  unfold Vectoring.send
  rw [if_neg heof]
  simp only [hreq, if_neg hwrap, hsum]
  have hv : (ring.bufStart.store ring.vectorRx.v0.addr
        (src.load buf (min (min len ring.rxLen) (ring.bufLen - ring.rxCursor)))).store
        ring.vectorRx.v1.addr
        (src.load (buf + min (min len ring.rxLen) (ring.bufLen - ring.rxCursor))
          (min len ring.rxLen - (ring.bufLen - ring.rxCursor)))
      = Circular.put ring.bufStart ring.bufLen ring.rxCursor
          (src.load buf (min len ring.rxLen)) := by
    rw [h.vectorRx_eq, iovecSync_v0_addr, iovecSync_v1_addr, put_parts]
  rw [hv]
  exact ⟨hmoved.wf.sizeReturn_eq _, hmoved⟩

/-! ## Splicing -/

/-- One of the two copies of a splice, made only where it has bytes to copy. -/
theorem Wf.recv_part (h : ring.Wf) (dst : Memory UInt8) (buf : Nat) {k : Nat}
    (hk : k ≤ ring.txLen) {r : Received}
    (hr : r = if k > 0 then ring.recv dst buf k else ⟨ring, dst, k⟩) :
    r.rc = k ∧ r.dst = dst.store buf (ring.queue.take k) ∧
      Moved ring r.ring k (ring.queue.drop k) := by
  rcases Nat.eq_zero_or_pos k with rfl | hpos
  · rw [if_neg (Nat.lt_irrefl 0)] at hr
    subst hr
    exact ⟨rfl, by simp, h, by simp, SameFlags.refl ring, by simp⟩
  · rw [if_pos hpos] at hr
    subst hr
    have hmoved := h.recv_moved dst buf k
    obtain ⟨hrc, hdst, -⟩ := h.recv dst buf k
    rw [Nat.min_eq_left hk] at hrc hmoved
    exact ⟨hrc, hdst, hmoved⟩

/-- How many bytes a splice moves. -/
def spliceLen (ringRx ringTx : Vectoring) (len : Int) : Nat :=
  if 0 ≤ len ∧ len < (min ringRx.rxLen ringTx.txLen : Nat) then len.toNat
  else min ringRx.rxLen ringTx.txLen

theorem spliceLen_le (ringRx ringTx : Vectoring) (len : Int) :
    spliceLen ringRx ringTx len ≤ ringRx.rxLen ∧ spliceLen ringRx ringTx len ≤ ringTx.txLen := by
  unfold spliceLen
  split <;> omega

/-- `recvSplice` moves its bytes from the front of one queue to the back of the
other, and returns how many. -/
theorem Wf.recvSplice {rx tx : Vectoring} (hrx : rx.Wf) (htx : tx.Wf) (len : Int) (errno : Errno) :
    (Vectoring.recvSplice rx tx len errno).rc = spliceLen rx tx len ∧
      (Vectoring.recvSplice rx tx len errno).errno = errno ∧
      Moved rx (Vectoring.recvSplice rx tx len errno).rx (spliceLen rx tx len)
        (rx.queue ++ tx.queue.take (spliceLen rx tx len)) ∧
      Moved tx (Vectoring.recvSplice rx tx len errno).tx (spliceLen rx tx len)
        (tx.queue.drop (spliceLen rx tx len)) := by
  obtain ⟨hroom, hqueued⟩ := spliceLen_le rx tx len
  set n := spliceLen rx tx len with hn
  have hlen : (if 0 ≤ len ∧ len < (min rx.vectorRxLen tx.vectorTxLen : Nat) then len.toNat
      else min rx.vectorRxLen tx.vectorTxLen) = n := by
    rw [hrx.vectorRxLen_eq, htx.vectorTxLen_eq, hn]
    rfl
  -- the two parts of what is moved, as the receiving ring's vectors cut it
  set a := min n (rx.bufLen - rx.rxCursor) with ha
  set b := n - (rx.bufLen - rx.rxCursor) with hb
  have hab : a + b = n := by omega
  have hreq : request rx.vectorRx n = (a, b) := by
    rw [hrx.vectorRx_eq, request_iovecSync, Nat.min_eq_left hroom]
  obtain ⟨hrc₀, hdst₀, hm₀⟩ := htx.recv_part rx.bufStart rx.rxCursor (k := a) (by omega) rfl
  set r₀ : Received :=
    if a > 0 then tx.recv rx.bufStart rx.rxCursor a else ⟨tx, rx.bufStart, a⟩ with hr₀
  have htx₀ : r₀.ring.txLen = tx.txLen - a := by
    rw [← length_queue, hm₀.queue, List.length_drop, length_queue]
  obtain ⟨hrc₁, hdst₁, hm₁⟩ := hm₀.wf.recv_part r₀.dst 0 (k := b) (by omega) rfl
  set r₁ : Received :=
    if b > 0 then r₀.ring.recv r₀.dst 0 b else ⟨r₀.ring, r₀.dst, b⟩ with hr₁
  have hput : r₁.dst = Circular.put rx.bufStart rx.bufLen rx.rxCursor (tx.queue.take n) := by
    have h₁ : (tx.queue.take n).take (rx.bufLen - rx.rxCursor) = tx.queue.take a := by
      rw [List.take_take, Nat.min_comm]
    have h₂ : (tx.queue.take n).drop (rx.bufLen - rx.rxCursor) = (tx.queue.drop a).take b := by
      by_cases hle : n ≤ rx.bufLen - rx.rxCursor
      · have hb0 : b = 0 := by omega
        rw [List.drop_eq_nil_of_le (by simp; omega), hb0, List.take_zero]
      · have ha' : a = rx.bufLen - rx.rxCursor := by omega
        rw [List.drop_take, ha', hb]
    rw [hdst₁, hdst₀, hm₀.queue, ← store_request, h₁, h₂]
  have hmr := hrx.markReceived
    (by rw [List.length_take, length_queue]; exact Nat.le_trans (Nat.min_le_left _ _) hroom) hput
  rw [List.length_take, length_queue, Nat.min_eq_left hqueued] at hmr
  have hresult : Vectoring.recvSplice rx tx len errno
      = ⟨Vectoring.markReceived { rx with bufStart := r₁.dst } n, r₁.ring,
          (Vectoring.markReceived { rx with bufStart := r₁.dst } n).sizeReturn n, errno⟩ := by
    unfold Vectoring.recvSplice
    simp only [hlen, hreq, hab]
    rw [hrx.vectorRx_eq, iovecSync_v0_addr, iovecSync_v1_addr]
    rw [if_neg (by rw [← hr₀, hrc₀]; simp), if_neg (by rw [← hr₀, ← hr₁, hrc₁]; simp)]
  rw [hresult]
  refine ⟨hmr.wf.sizeReturn_eq n, rfl, hmr, hm₁.wf, ?_, hm₀.flags.trans hm₁.flags, ?_⟩
  · rw [hm₁.queue, hm₀.queue, List.drop_drop, hab]
  · rw [hm₁.effect, hm₀.effect, Bool.or_assoc, ← Bool.decide_or]
    congr 2
    exact propext (by omega)

theorem Wf.setRxBlocked (h : ring.Wf) (b : Bool) : (ring.setRxBlocked b).Wf :=
  h.congr rfl rfl rfl rfl rfl h.error_nonneg

theorem Wf.setTxBlocked (h : ring.Wf) (b : Bool) : (ring.setTxBlocked b).Wf :=
  h.congr rfl rfl rfl rfl rfl h.error_nonneg

/-- A transfer after which the receiving flag is set is one from the ring with
that flag. -/
theorem Moved.setRxBlocked {ring ring' : Vectoring} {n : Nat} {q : List UInt8}
    (h : Moved ring ring' n q) (b : Bool) :
    Moved (ring.setRxBlocked b) (ring'.setRxBlocked b) n q :=
  ⟨h.wf.setRxBlocked b, h.queue, ⟨h.flags.bufLen, h.flags.error, h.flags.eof, h.flags.closed, rfl,
    h.flags.txBlocked⟩, h.effect⟩

theorem Moved.setTxBlocked {ring ring' : Vectoring} {n : Nat} {q : List UInt8}
    (h : Moved ring ring' n q) (b : Bool) :
    Moved (ring.setTxBlocked b) (ring'.setTxBlocked b) n q :=
  ⟨h.wf.setTxBlocked b, h.queue, ⟨h.flags.bufLen, h.flags.error, h.flags.eof, h.flags.closed,
    h.flags.rxBlocked, rfl⟩, h.effect⟩

theorem unsatisfied_natCast (n len : Nat) : unsatisfied (n : Int) len = decide (n < len) := by
  simp [unsatisfied]

/-- `splice` moves what `recvSplice` moves, and marks each ring blocked that
could take or give more than has been moved. -/
theorem Wf.splice {rx tx : Vectoring} (hrx : rx.Wf) (htx : tx.Wf) (len : Int) (errno : Errno) :
    (rx.splice tx len errno).rc = spliceLen rx tx len ∧
      (rx.splice tx len errno).errno = errno ∧
      Moved (rx.setRxBlocked (decide (spliceLen rx tx len < rx.rxLen - spliceLen rx tx len)))
        (rx.splice tx len errno).rx (spliceLen rx tx len)
        (rx.queue ++ tx.queue.take (spliceLen rx tx len)) ∧
      Moved (tx.setTxBlocked (decide (spliceLen rx tx len < tx.txLen - spliceLen rx tx len)))
        (rx.splice tx len errno).tx (spliceLen rx tx len)
        (tx.queue.drop (spliceLen rx tx len)) := by
  obtain ⟨hrc, herrno, hmrx, hmtx⟩ := hrx.recvSplice htx len errno
  obtain ⟨hroom, hqueued⟩ := spliceLen_le rx tx len
  have hrxl : (rx.recvSplice tx len errno).rx.vectorRxLen = rx.rxLen - spliceLen rx tx len := by
    have hlen : (rx.recvSplice tx len errno).rx.txLen = rx.txLen + spliceLen rx tx len := by
      rw [← length_queue, hmrx.queue, List.length_append, List.length_take, length_queue,
        length_queue, Nat.min_eq_left hqueued]
    rw [hmrx.wf.vectorRxLen_eq, hmrx.flags.bufLen, hlen, rxLen]
    omega
  have htxl : (rx.recvSplice tx len errno).tx.vectorTxLen = tx.txLen - spliceLen rx tx len := by
    rw [hmtx.wf.vectorTxLen_eq, ← length_queue, hmtx.queue, List.length_drop, length_queue]
  have hsplice : rx.splice tx len errno
      = ⟨(rx.recvSplice tx len errno).rx.setRxBlocked
            (decide (spliceLen rx tx len < rx.rxLen - spliceLen rx tx len)),
          (rx.recvSplice tx len errno).tx.setTxBlocked
            (decide (spliceLen rx tx len < tx.txLen - spliceLen rx tx len)),
          spliceLen rx tx len, errno⟩ := by
    simp only [Vectoring.splice, hrxl, htxl, hrc, herrno, unsatisfied_natCast]
  rw [hsplice]
  exact ⟨rfl, rfl, hmrx.setRxBlocked _, hmtx.setTxBlocked _⟩

/-! ## System calls -/

/-- `readv` fills the room in order. -/
theorem Wf.scatter (h : ring.Wf) {bytes : List UInt8} (hb : bytes.length ≤ ring.rxLen) :
    ring.scatter bytes = { ring with
      bufStart := Circular.put ring.bufStart ring.bufLen ring.rxCursor bytes } := by
  have htake : bytes.take (min ring.rxLen (ring.bufLen - ring.rxCursor))
      = bytes.take (ring.bufLen - ring.rxCursor) := by
    rw [← List.take_take, List.take_of_length_le (by rw [List.length_take]; omega)]
  have hdrop : bytes.drop (min ring.rxLen (ring.bufLen - ring.rxCursor))
      = bytes.drop (ring.bufLen - ring.rxCursor) := by
    rcases Nat.le_total ring.rxLen (ring.bufLen - ring.rxCursor) with hle | hle
    · rw [Nat.min_eq_left hle, List.drop_eq_nil_of_le hb, List.drop_eq_nil_of_le (by omega)]
    · rw [Nat.min_eq_right hle]
  unfold Vectoring.scatter
  rw [h.vectorRx_eq, iovecSync_v0_addr, iovecSync_v1_addr, iovecSync_v0_len, htake, hdrop]
  rfl

/-- A read that gets bytes, or none, appends what it got; it is EOF if that was
none, and the ring is blocked if room is left. -/
theorem Wf.read_ok (h : ring.Wf) {bytes : List UInt8} (hb : bytes.length ≤ ring.rxLen)
    (errno : Errno) :
    (ring.read (.ok bytes) errno).rc = bytes.length ∧
      (ring.read (.ok bytes) errno).errno = errno ∧
      Moved { ring with
          rxBlocked := decide (bytes.length < ring.rxLen), eof := bytes.isEmpty }
        (ring.read (.ok bytes) errno).ring bytes.length (ring.queue ++ bytes) := by
  have hwf : Wf { ring with
      rxBlocked := decide (bytes.length < ring.rxLen), eof := bytes.isEmpty } :=
    h.congr rfl rfl rfl rfl rfl h.error_nonneg
  have hunblocked : Wf { ring with rxBlocked := false } := h.congr rfl rfl rfl rfl rfl h.error_nonneg
  have hread : ring.read (.ok bytes) errno
      = ⟨Vectoring.markReceived { ring with
          bufStart := Circular.put ring.bufStart ring.bufLen ring.rxCursor bytes
          rxBlocked := decide (bytes.length < ring.rxLen)
          eof := bytes.isEmpty } bytes.length, bytes.length, errno⟩ := by
    have hlen : (Vectoring.scatter { ring with rxBlocked := false } bytes).vectorRxLen = ring.rxLen :=
      hunblocked.vectorRxLen_eq
    have hs := hunblocked.scatter hb
    simp only [Vectoring.read, signedReceived, hlen]
    rw [hs, if_neg (by omega)]
    rfl
  rw [hread]
  exact ⟨rfl, rfl, hwf.markReceived hb rfl⟩

/-- A read that fails moves `errno` into the ring; would-block marks the ring
blocked and takes its effect away. -/
theorem read_err (e : Errno) (errno : Errno) :
    ring.read (.err e) errno
      = ⟨{ ring with
            rxBlocked := decide (e = Errno.EAGAIN)
            effect := ring.effect && !decide (e = Errno.EAGAIN)
            error := e }, -1, 0⟩ := by
  by_cases h : e = Errno.EAGAIN
  · simp [Vectoring.read, signedReceived, h]
  · simp [Vectoring.read, signedReceived, h]

/-- A write to a ring already blocked does nothing. -/
theorem write_of_blocked (h : ring.txBlocked = true) (w : SysResult Nat) (errno : Errno) :
    ring.write w errno = ⟨ring, 0, errno⟩ := if_pos h

/-- A write drops what was taken; the ring is blocked if bytes are left. -/
theorem Wf.write_ok (h : ring.Wf) (hb : ring.txBlocked = false) {n : Nat} (hn : n ≤ ring.txLen)
    (errno : Errno) :
    (ring.write (.ok n) errno).rc = n ∧ (ring.write (.ok n) errno).errno = errno ∧
      Moved { ring with txBlocked := decide (n < ring.txLen) }
        (ring.write (.ok n) errno).ring n (ring.queue.drop n) := by
  have hwf : Wf { ring with txBlocked := decide (n < ring.txLen) } :=
    h.congr rfl rfl rfl rfl rfl h.error_nonneg
  have hwrite : ring.write (.ok n) errno
      = ⟨Vectoring.markSent { ring with txBlocked := decide (n < ring.txLen) } n, n, errno⟩ := by
    have hlen := h.vectorTxLen_eq
    simp only [Vectoring.write, hb, signedSent, hlen]
    rw [if_neg (by simp), if_neg (by omega)]
    rfl
  rw [hwrite]
  exact ⟨rfl, rfl, hwf.markSent hn⟩

theorem write_err (hb : ring.txBlocked = false) (e : Errno) (errno : Errno) :
    ring.write (.err e) errno
      = ⟨{ ring with
            txBlocked := decide (e = Errno.EAGAIN)
            effect := ring.effect && !decide (e = Errno.EAGAIN)
            error := e }, -1, 0⟩ := by
  by_cases h : e = Errno.EAGAIN
  · simp [Vectoring.write, signedSent, h, hb]
  · simp [Vectoring.write, signedSent, h, hb]

/-- An accept with too little room does nothing. -/
theorem accept_of_lt {alloc : Nat} (h : ring.rxLen < alloc) (a : SysResult (List UInt8))
    (errno : Errno) : ring.accept alloc a errno = ⟨ring.setRxBlocked false, 0, errno⟩ :=
  if_pos h

theorem accept_err {alloc : Nat} (h : ¬ring.rxLen < alloc) (e : Errno) (errno : Errno) :
    ring.accept alloc (.err e) errno
      = ⟨{ ring with
            rxBlocked := decide (e = Errno.EAGAIN)
            effect := ring.effect && !decide (e = Errno.EAGAIN)
            error := e }, -1, 0⟩ := by
  have h' : ¬Vectoring.rxLen { ring with rxBlocked := false } < alloc := h
  by_cases he : e = Errno.EAGAIN
  · simp [Vectoring.accept, signedReceived, he, h']
  · simp [Vectoring.accept, signedReceived, he, h']

/-- An accepted record is appended, unless the ring is at EOF. -/
theorem Wf.accept_ok (h : ring.Wf) {alloc : Nat} (hlt : ¬ring.rxLen < alloc)
    {record : List UInt8} (hlen : record.length = alloc) (heof : ¬(alloc > 0 ∧ ring.eof = true))
    (errno : Errno) :
    (ring.accept alloc (.ok record) errno).rc = alloc ∧
      Moved (ring.setRxBlocked false) (ring.accept alloc (.ok record) errno).ring alloc
        (ring.queue ++ record) := by
  have hb := h.setRxBlocked false
  have hlt' : ¬(ring.setRxBlocked false).rxLen < alloc := hlt
  have hle : alloc ≤ (ring.setRxBlocked false).rxLen := by omega
  obtain ⟨hrc, hmoved⟩ := hb.send (Memory.store (fun _ => 0) 0 record) 0 alloc heof
  rw [Nat.min_eq_left hle] at hrc hmoved
  have hload : (Memory.store (fun _ => 0) 0 record).load 0 alloc = record := by
    rw [← hlen, Memory.load_store]
  rw [hload] at hmoved
  have haccept : ring.accept alloc (.ok record) errno
      = ⟨((ring.setRxBlocked false).send (Memory.store (fun _ => 0) 0 record) 0 alloc).1,
          ((ring.setRxBlocked false).send (Memory.store (fun _ => 0) 0 record) 0 alloc).2, 0⟩ :=
    if_neg hlt'
  rw [haccept]
  exact ⟨hrc, hmoved⟩

theorem accept_ok_of_eof {alloc : Nat} (hlt : ¬ring.rxLen < alloc) (hpos : 0 < alloc)
    (heof : ring.eof = true) (record : List UInt8) (errno : Errno) :
    ring.accept alloc (.ok record) errno = ⟨ring.setRxBlocked false, 0, 0⟩ := by
  have hlt' : ¬Vectoring.rxLen { ring with rxBlocked := false } < alloc := hlt
  have hsend := @send_of_eof (ring.setRxBlocked false)
    (Memory.store (fun _ => 0) 0 record) 0 _ hpos heof
  simp only [Vectoring.accept, if_neg hlt']
  rw [setRxBlocked] at hsend
  rw [hsend]
  rfl

/-! ## Whatever the answer

The invariant does not depend on an answer that fits: a count past the room or
past the queue becomes an error of the ring. -/

theorem Wf.of_error (h : ring.Wf) (e : Errno) : Wf { ring with error := e } :=
  h.congr rfl rfl rfl rfl rfl (Int.natCast_nonneg e)

theorem Wf.of_markReceived (h : ring.Wf) (n : Nat) : (ring.markReceived n).Wf := by
  rcases Nat.eq_zero_or_pos n with rfl | hpos
  · rwa [Vectoring.markReceived, if_pos rfl]
  · by_cases hn : n ≤ ring.rxLen
    · have hle := h.txLen_le
      have hrx : ring.rxLen = ring.bufLen - ring.txLen := rfl
      rw [markReceived_of_le h hpos hn]
      refine (@wf_sync { ring with txLen := ring.txLen + n } h.bufLen_pos h.txCursor_lt ?_
        h.error_nonneg).congr rfl rfl rfl rfl rfl h.error_nonneg
      show ring.txLen + n ≤ ring.bufLen
      omega
    · rw [Vectoring.markReceived, if_neg (by omega)]
      simp only [if_neg (show ¬n < ring.rxLen by omega), if_neg (show ¬n = ring.rxLen by omega)]
      exact h.congr rfl rfl rfl rfl rfl (Int.natCast_nonneg Errno.ENOBUFS)

theorem Wf.of_markSent (h : ring.Wf) (n : Nat) : (ring.markSent n).Wf := by
  by_cases hn : n ≤ ring.txLen
  · exact (h.markSent hn).wf
  · rw [Vectoring.markSent, if_neg (by omega)]
    simp only [if_neg hn]
    exact h.congr rfl rfl rfl rfl rfl (Int.natCast_nonneg Errno.ENOBUFS)

theorem Wf.of_signedReceived (h : ring.Wf) (received : Int) (errno : Errno) :
    (ring.signedReceived received errno).ring.Wf := by
  unfold signedReceived
  split
  · exact h.of_error errno
  · exact h.of_markReceived _

theorem Wf.of_signedSent (h : ring.Wf) (sent : Int) (errno : Errno) :
    (ring.signedSent sent errno).ring.Wf := by
  unfold signedSent
  split
  · exact h.of_error errno
  · exact h.of_markSent _

theorem Wf.of_read (h : ring.Wf) (readv : SysResult (List UInt8)) (errno : Errno) :
    (ring.read readv errno).ring.Wf := by
  cases readv with
  | ok bytes =>
      refine Wf.of_signedReceived ?_ _ _
      exact h.congr rfl rfl rfl rfl rfl h.error_nonneg
  | err e =>
      rw [read_err]
      exact h.congr rfl rfl rfl rfl rfl (Int.natCast_nonneg e)

theorem Wf.of_write (h : ring.Wf) (writev : SysResult Nat) (errno : Errno) :
    (ring.write writev errno).ring.Wf := by
  cases hb : ring.txBlocked with
  | true =>
      rw [write_of_blocked hb]
      exact h
  | false =>
      cases writev with
      | ok n =>
          rw [Vectoring.write, if_neg (by simp [hb])]
          refine Wf.of_signedSent ?_ _ _
          exact h.congr rfl rfl rfl rfl rfl h.error_nonneg
      | err e =>
          rw [write_err hb]
          exact h.congr rfl rfl rfl rfl rfl (Int.natCast_nonneg e)

theorem Wf.of_send (h : ring.Wf) (src : Memory UInt8) (buf len : Nat) :
    (ring.send src buf len).1.Wf := by
  by_cases heof : len > 0 ∧ ring.eof = true
  · rw [send_of_eof src buf heof.1 heof.2]
    exact h
  · exact (h.send src buf len heof).2.wf

theorem Wf.of_accept (h : ring.Wf) (alloc : Nat) (accepted : SysResult (List UInt8))
    (errno : Errno) : (ring.accept alloc accepted errno).ring.Wf := by
  by_cases hlt : ring.rxLen < alloc
  · rw [accept_of_lt hlt]
    exact h.setRxBlocked false
  · cases accepted with
    | ok record =>
        have hlt' : ¬Vectoring.rxLen { ring with rxBlocked := false } < alloc := hlt
        simp only [Vectoring.accept, if_neg hlt']
        exact (h.setRxBlocked false).of_send _ _ _
    | err e =>
        rw [accept_err hlt]
        exact h.congr rfl rfl rfl rfl rfl (Int.natCast_nonneg e)

theorem Wf.of_close (h : ring.Wf) (rc : SysResult Unit) (errno : Errno) :
    (ring.close rc errno).ring.Wf := by
  cases rc with
  | ok u =>
      refine Wf.of_signedSent ?_ 0 errno
      exact h.congr rfl rfl rfl rfl rfl h.error_nonneg
  | err e =>
      refine Wf.of_signedSent
        ?_ (-1) e
      exact h.congr rfl rfl rfl rfl rfl (Int.natCast_nonneg e)

/-! ## Lines -/

/-- The byte that ends a line. -/
def newline : UInt8 := '\n'.toUInt8

/-- The length of the first line of `bs`, its newline included. -/
def lineLen (bs : List UInt8) : Option Nat := (bs.findIdx? (· == newline)).map (· + 1)

theorem lineLen_eq_none {bs : List UInt8} : lineLen bs = none ↔ newline ∉ bs := by
  rw [lineLen, Option.map_eq_none_iff, List.findIdx?_eq_none_iff]
  constructor
  · intro h hmem
    simpa using h newline hmem
  · rintro h b hb
    rw [beq_eq_false_iff_ne]
    rintro rfl
    exact h hb

/-- A first line is the bytes up to a newline, and the newline. -/
theorem lineLen_eq_some {bs : List UInt8} {l : Nat} (h : lineLen bs = some l) :
    ∃ pre rest, bs = pre ++ newline :: rest ∧ newline ∉ pre ∧ l = pre.length + 1 := by
  rw [lineLen, Option.map_eq_some_iff] at h
  obtain ⟨i, hi, rfl⟩ := h
  obtain ⟨hlt, hnl, hbefore⟩ := List.findIdx?_eq_some_iff_getElem.mp hi
  refine ⟨bs.take i, bs.drop (i + 1), ?_, ?_, ?_⟩
  · have hcons : bs[i] :: bs.drop (i + 1) = bs.drop i := (List.drop_eq_getElem_cons hlt).symm
    rw [← beq_iff_eq.mp hnl, hcons, List.take_append_drop]
  · intro hmem
    obtain ⟨j, hj, hget⟩ := List.mem_iff_getElem.mp hmem
    have hj' : j < i := by rw [List.length_take] at hj; omega
    refine hbefore j hj' ?_
    rw [List.getElem_take] at hget
    rw [hget, beq_self_eq_true]
  · rw [List.length_take]
    omega

theorem lineLen_le {bs : List UInt8} {l : Nat} (h : lineLen bs = some l) : l ≤ bs.length := by
  obtain ⟨pre, rest, rfl, -, rfl⟩ := lineLen_eq_some h
  simp

theorem findNewline_eq (mem : Memory UInt8) (buf len : Nat) :
    findNewline mem buf len = ((mem.load buf len).findIdx? (· == newline)).map (buf + ·) := by
  induction len generalizing buf with
  | zero => rfl
  | succ len ih =>
      rw [findNewline, Memory.load_succ, List.findIdx?_cons]
      by_cases h : mem buf = '\n'.toUInt8
      · rw [if_pos h, if_pos (by simp [h, newline])]
        rfl
      · rw [if_neg h, if_neg (by simpa [newline] using h), ih, Option.map_map]
        congr 1
        funext i
        show buf + 1 + i = buf + (i + 1)
        omega

/-- `txLineLen` is the length of the first line queued, wherever the queue
wraps. -/
theorem Wf.txLineLen_eq (h : ring.Wf) : ring.txLineLen = lineLen ring.queue := by
  have hq : ring.queue = ring.bufStart.load ring.vectorTx.v0.addr ring.vectorTx.v0.len
      ++ ring.bufStart.load ring.vectorTx.v1.addr ring.vectorTx.v1.len := by
    rw [h.vectorTx_eq, iovecSync_v0_addr, iovecSync_v1_addr, iovecSync_v0_len, iovecSync_v1_len,
      load_request _ h.txCursor_lt h.txLen_le, queue]
  unfold txLineLen
  rw [hq, lineLen, List.findIdx?_append]
  simp only [findNewline_eq, Memory.length_load]
  cases h0 : (ring.bufStart.load ring.vectorTx.v0.addr ring.vectorTx.v0.len).findIdx?
      (· == newline) with
  | some i => simp
  | none =>
      cases h1 : (ring.bufStart.load ring.vectorTx.v1.addr ring.vectorTx.v1.len).findIdx?
          (· == newline) with
      | some i => simp [Nat.add_comm]
      | none => simp

end Vectoring

end Vk

/-
# `Mnvkd.Readline` — reading a line into a buffer

`vk_socket_readline` run against whatever happens while it waits
(`Loop.drive` of `readlineLoop`).

It asks the ring for the whole line the ring holds, whatever is left of the
length it was given.  So it keeps to that length exactly when, at every turn,
the line in the ring is no longer than what is left (`readline_bounded_iff`).
-/
import Mnvkd.SocketHandlerSpec
import Mnvkd.ThreadIo

namespace Vk

open Lib ProcLocal

/-! ## One turn -/

/-- What a turn asks the ring for: the line it holds the end of, or all that is
left of the length given. -/
def lineRequest (pl : ProcLocal) (s : Nat) : Nat :=
  (Vectoring.lineLen (pl.sockets s).rx.queue).getD (pl.uncommitted s)

/-- What a turn gets. -/
def lineCount (pl : ProcLocal) (s : Nat) : Nat := min (lineRequest pl s) (pl.sockets s).rx.txLen

variable {pl : ProcLocal} {s : Nat}

/-- A turn stores the front of the queue at the block's buffer and moves the
block on. -/
theorem readlineLoop_body (h : (pl.sockets s).rx.Wf) :
    (readlineLoop s).body pl =
      { pl with
        mem := pl.mem.store (pl.sockets s).block.buf
          ((pl.sockets s).rx.queue.take (lineRequest pl s)) }.updSocket s fun socket =>
        { socket with
          rx := socket.rx.markSent (lineCount pl s)
          block := { socket.block with
            rc := lineCount pl s
            len := lineRequest pl s - lineCount pl s
            buf := socket.block.buf + lineCount pl s
            copied := socket.block.copied + lineCount pl s } } := by
  have hreq : requestLine pl s = pl.updSocket s fun socket =>
      { socket with block := socket.block.setUncommitted (lineRequest pl s) } := by
    have : (pl.sockets s).rx.txLineRequest (pl.sockets s).block.getUncommitted
        = lineRequest pl s := by
      rw [Vectoring.txLineRequest, h.txLineLen_eq, lineRequest]
      cases Vectoring.lineLen (pl.sockets s).rx.queue <;> rfl
    simp only [requestLine, updBlock, updSocket, this]
  show (requestLine pl s).recvCommit s = _
  have hrx : ((requestLine pl s).sockets s).rx.Wf := by rw [hreq, updSocket_sockets_self]; exact h
  rw [recvCommit_eq hrx, hreq]
  simp only [updSocket, Function.update_self, Function.update_idem]
  simp only [recvCount, uncommitted, Function.update_self]
  rfl

theorem lineCount_le : lineCount pl s ≤ (pl.sockets s).rx.txLen := Nat.min_le_right _ _

section Body
variable (h : (pl.sockets s).rx.Wf)
include h

theorem body_rx_moved :
    Vectoring.Moved (pl.sockets s).rx (((readlineLoop s).body pl).sockets s).rx (lineCount pl s)
      ((pl.sockets s).rx.queue.drop (lineCount pl s)) := by
  rw [readlineLoop_body h, updSocket_sockets_self]
  exact h.markSent lineCount_le

theorem body_committed :
    ((readlineLoop s).body pl).committed s = pl.committed s + lineCount pl s := by
  rw [readlineLoop_body h, committed, updSocket_sockets_self]
  rfl

theorem body_uncommitted :
    ((readlineLoop s).body pl).uncommitted s = lineRequest pl s - lineCount pl s := by
  rw [readlineLoop_body h, uncommitted, updSocket_sockets_self]
  rfl

theorem body_buf : (((readlineLoop s).body pl).sockets s).block.buf
    = (pl.sockets s).block.buf + lineCount pl s := by
  rw [readlineLoop_body h, updSocket_sockets_self]

theorem body_mem : ((readlineLoop s).body pl).mem
    = pl.mem.store (pl.sockets s).block.buf ((pl.sockets s).rx.queue.take (lineCount pl s)) := by
  have htake : (pl.sockets s).rx.queue.take (lineRequest pl s)
      = (pl.sockets s).rx.queue.take (lineCount pl s) := by
    have hlen : (pl.sockets s).rx.queue.length = (pl.sockets s).rx.txLen :=
      Vectoring.length_queue _
    rw [List.take_eq_take_min, hlen]
    rfl
  rw [readlineLoop_body h, ← htake]
  rfl

theorem body_fails : (readlineLoop s).fails ((readlineLoop s).body pl) = false := by
  have : (((readlineLoop s).body pl).sockets s).block.rc = (lineCount pl s : Nat) := by
    rw [readlineLoop_body h, updSocket_sockets_self]
  show decide _ = false
  rw [this, decide_eq_false_iff_not]
  omega

end Body

/-- Where the ring holds the end of the line, a turn gets the whole line. -/
theorem lineCount_of_some {l : Nat} (hl : Vectoring.lineLen (pl.sockets s).rx.queue = some l) :
    lineRequest pl s = l ∧ lineCount pl s = l := by
  have hle := Vectoring.lineLen_le hl
  rw [Vectoring.length_queue] at hle
  have hreq : lineRequest pl s = l := by rw [lineRequest, hl]; rfl
  exact ⟨hreq, by rw [lineCount, hreq]; exact Nat.min_eq_left hle⟩

/-- Where it does not, a turn gets what is there, up to what is left. -/
theorem lineCount_of_none (hl : Vectoring.lineLen (pl.sockets s).rx.queue = none) :
    lineRequest pl s = pl.uncommitted s ∧
      lineCount pl s = min (pl.uncommitted s) (pl.sockets s).rx.txLen := by
  have hreq : lineRequest pl s = pl.uncommitted s := by rw [lineRequest, hl]; rfl
  exact ⟨hreq, by rw [lineCount, hreq]⟩

/-! ## The length given -/

/-- What happens while the call waits: the receive ring stays a ring, and the
block is left alone. -/
structure Keeps {α : Type} (s : Nat) (deliver : α → ProcLocal → ProcLocal) : Prop where
  wf : ∀ a pl, (pl.sockets s).rx.Wf → ((deliver a pl).sockets s).rx.Wf
  buf : ∀ a pl, ((deliver a pl).sockets s).block.buf = (pl.sockets s).block.buf
  committed : ∀ a pl, (deliver a pl).committed s = pl.committed s
  uncommitted : ∀ a pl, (deliver a pl).uncommitted s = pl.uncommitted s

/-- A run of `vk_socket_readline` of `len` bytes into `buf`: at most `n` turns,
the waits ended by `as`. -/
def readline {α : Type} (deliver : α → ProcLocal → ProcLocal) (s buf len n : Nat) (pl : ProcLocal)
    (as : List α) : Loop.Drive ProcLocal α :=
  (readlineLoop s).drive deliver n (pl.beginRead s buf len) as

/-- A turn of the run begins in `st`. -/
def Turns {α : Type} (deliver : α → ProcLocal → ProcLocal) (s buf len : Nat) (pl : ProcLocal)
    (as : List α) (st : ProcLocal) : Prop :=
  ∃ n bs, readline deliver s buf len n pl as = .running st bs ∧ (readlineLoop s).test st = true

/-- The call keeps to its length: no more is ever committed, and no turn stores
outside the buffer. -/
structure Bounded {α : Type} (deliver : α → ProcLocal → ProcLocal) (s buf len : Nat)
    (pl : ProcLocal) (as : List α) : Prop where
  committed : ∀ n, (readline deliver s buf len n pl as).state.committed s ≤ len
  stored : ∀ st, Turns deliver s buf len pl as st → ∀ x, ¬(buf ≤ x ∧ x < buf + len) →
    ((readlineLoop s).body st).mem x = st.mem x

section Length
variable {α : Type} {deliver : α → ProcLocal → ProcLocal} {buf len : Nat} {as : List α}

/-- The block of a call under way: as much of the buffer is behind it as it has
committed, and while it goes on the rest of the length is left. -/
structure UnderWay (s buf len : Nat) (pl : ProcLocal) : Prop where
  wf : (pl.sockets s).rx.Wf
  buf : (pl.sockets s).block.buf = buf + pl.committed s
  left : pl.uncommitted s = 0 ∨ pl.committed s + pl.uncommitted s = len

theorem underWay_beginRead (h : (pl.sockets s).rx.Wf) : UnderWay s buf len (pl.beginRead s buf len) := by
  refine ⟨?_, ?_, Or.inr ?_⟩ <;>
    simp only [beginRead, blockInit, updBlock, committed, uncommitted, updSocket_sockets_self]
  · exact h
  · rfl
  · exact Nat.zero_add len

theorem UnderWay.delivered (hk : Keeps s deliver) {st : ProcLocal} (h : UnderWay s buf len st)
    (a : α) : UnderWay s buf len (deliver a st) :=
  ⟨hk.wf a st h.wf, by rw [hk.buf, hk.committed, h.buf], by rw [hk.committed, hk.uncommitted]; exact h.left⟩

theorem test_uncommitted {st : ProcLocal} (h : (readlineLoop s).test st = true) :
    0 < st.uncommitted s := by
  simp only [readlineLoop, Bool.and_eq_true, decide_eq_true_eq] at h
  exact h.1.2

/-- A turn keeps the block as `UnderWay` says, whatever the ring holds. -/
theorem UnderWay.body {st : ProcLocal} (h : UnderWay s buf len st)
    (ht : (readlineLoop s).test st = true) : UnderWay s buf len ((readlineLoop s).body st) := by
  have hpos := test_uncommitted ht
  refine ⟨(body_rx_moved h.wf).wf, ?_, ?_⟩
  · rw [body_buf h.wf, body_committed h.wf, h.buf, Nat.add_assoc]
  · rw [body_committed h.wf, body_uncommitted h.wf]
    have hleft := h.left
    cases hl : Vectoring.lineLen (st.sockets s).rx.queue with
    | some l =>
        obtain ⟨hreq, hcount⟩ := lineCount_of_some hl
        rw [hreq, hcount]
        exact Or.inl (Nat.sub_self l)
    | none =>
        obtain ⟨hreq, hcount⟩ := lineCount_of_none hl
        rw [hreq, hcount]
        refine Or.inr ?_
        omega

/-- The state after any number of turns is under way. -/
theorem underWay_state (hk : Keeps s deliver) (h : (pl.sockets s).rx.Wf) (n : Nat) :
    UnderWay s buf len (readline deliver s buf len n pl as).state :=
  Loop.drive_invariant (fun _ _ _ _ ht htest => ht.body htest) (fun a _ hst => hst.delivered hk a)
    (underWay_beginRead h) n

/-- A turn that begins commits, whatever happens after it. -/
theorem exists_committed (hk : Keeps s deliver) {st : ProcLocal} {n : Nat} {bs : List α}
    (hrun : readline deliver s buf len n pl as = .running st bs)
    (ht : (readlineLoop s).test st = true) :
    (readline deliver s buf len (n + 1) pl as).state.committed s
      = ((readlineLoop s).body st).committed s := by
  rw [readline, Loop.drive_add hrun, Loop.drive]
  have hturn := Loop.turn_state (l := readlineLoop s) st
  rw [if_pos ht] at hturn
  cases h : (readlineLoop s).turn st with
  | done t => rw [h] at hturn; exact congrArg (committed · s) hturn
  | raise t => rw [h] at hturn; exact congrArg (committed · s) hturn
  | again t => rw [h] at hturn; exact congrArg (committed · s) hturn
  | wait t =>
      rw [h] at hturn
      cases bs with
      | nil => exact congrArg (committed · s) hturn
      | cons a bs =>
          show (deliver a t).committed s = _
          rw [hk.committed]
          exact congrArg (committed · s) hturn

/-- `vk_socket_readline` keeps to the length it is given exactly when, at every
turn it takes, the line in the receive ring, if its end is there, is no longer
than what is left of that length. -/
theorem readline_bounded_iff (hk : Keeps s deliver) (h : (pl.sockets s).rx.Wf) :
    Bounded deliver s buf len pl as ↔
      ∀ st, Turns deliver s buf len pl as st →
        ∀ l, Vectoring.lineLen (st.sockets s).rx.queue = some l → l ≤ st.uncommitted s := by
  constructor
  · rintro hb st ⟨n, bs, hrun, ht⟩ l hl
    have hst : UnderWay s buf len st := by
      have := @underWay_state pl s α deliver buf len as hk h n
      rwa [hrun] at this
    have hpos := test_uncommitted ht
    have hle := hb.committed (n + 1)
    rw [exists_committed hk hrun ht, body_committed hst.wf, (lineCount_of_some hl).2] at hle
    have hleft := hst.left
    omega
  · intro hfit
    -- at a turn that fits, what it gets is no more than what is left
    have hcount : ∀ st, Turns deliver s buf len pl as st →
        lineRequest st s ≤ st.uncommitted s := fun st hst => by
      cases hl : Vectoring.lineLen (st.sockets s).rx.queue with
      | some l => rw [(lineCount_of_some hl).1]; exact hfit st hst l hl
      | none => exact Nat.le_of_eq (lineCount_of_none hl).1
    have hinv : ∀ n, (readline deliver s buf len n pl as).state.committed s
        + (readline deliver s buf len n pl as).state.uncommitted s ≤ len ∧
        UnderWay s buf len (readline deliver s buf len n pl as).state := fun n => by
      refine Loop.drive_invariant
        (I := fun st => st.committed s + st.uncommitted s ≤ len ∧ UnderWay s buf len st)
        (fun k st bs hrun hst ht => ⟨?_, hst.2.body ht⟩)
        (fun a st hst => ⟨?_, hst.2.delivered hk a⟩) ⟨?_, underWay_beginRead h⟩ n
      · have hreq := hcount st ⟨k, bs, hrun, ht⟩
        have hle : lineCount st s ≤ lineRequest st s := Nat.min_le_left _ _
        rw [body_committed hst.2.wf, body_uncommitted hst.2.wf]
        have := hst.1
        omega
      · rw [hk.committed, hk.uncommitted]
        exact hst.1
      · simp only [beginRead, blockInit, updBlock, committed, uncommitted, updSocket_sockets_self]
        exact Nat.le_of_eq (Nat.zero_add len)
    refine ⟨fun n => Nat.le_trans (Nat.le_add_right _ _) (hinv n).1, ?_⟩
    rintro st ⟨n, bs, hrun, ht⟩ x hx
    obtain ⟨hle, hunder⟩ : st.committed s + st.uncommitted s ≤ len ∧ UnderWay s buf len st := by
      have hst := hinv n
      rwa [hrun] at hst
    have hreq := hcount st ⟨n, bs, hrun, ht⟩
    have hle' : lineCount st s ≤ lineRequest st s := Nat.min_le_left _ _
    have hlen : ((st.sockets s).rx.queue.take (lineCount st s)).length ≤ lineCount st s := by
      rw [List.length_take]
      exact Nat.min_le_left _ _
    rw [body_mem hunder.wf, Memory.store_of_not_mem]
    rw [hunder.buf]
    omega

end Length

/-! ## Reads while the call waits -/

/-- A read of the socket's descriptor, of as many bytes as there is room for. -/
def readInto (s : Nat) (bytes : List UInt8) (pl : ProcLocal) : ProcLocal :=
  pl.absorbRx s ((pl.sockets s).rx.read (.ok (bytes.take (pl.sockets s).rx.rxLen)) pl.errno)

theorem keeps_readInto (s : Nat) : Keeps s (readInto s) := by
  have hblock : ∀ bytes pl, SameBlock (pl.sockets s).block ((readInto s bytes pl).sockets s).block :=
    fun bytes pl => by
      have hsame := ((settles_absorbRx pl s
        ((pl.sockets s).rx.read (.ok (bytes.take (pl.sockets s).rx.rxLen)) pl.errno)).socket s).block
      rwa [setRx_block] at hsame
  refine ⟨fun bytes pl h => ?_, fun bytes pl => (hblock bytes pl).buf,
    fun bytes pl => (hblock bytes pl).copied, fun bytes pl => (hblock bytes pl).len⟩
  have hfit : (bytes.take (pl.sockets s).rx.rxLen).length ≤ (pl.sockets s).rx.rxLen := by
    rw [List.length_take]
    exact Nat.min_le_left _ _
  have hm := (h.read_ok hfit pl.errno).2.2
  have hrx := ((settles_absorbRx pl s
    ((pl.sockets s).rx.read (.ok (bytes.take (pl.sockets s).rx.rxLen)) pl.errno)).socket s).rx
  rw [setRx_rx_self] at hrx
  exact hrx.wf hm.wf

/-- A process of one thread and its socket, on two descriptors. -/
def oneThread : ProcLocal :=
  ProcLocal.init.initThread 0 0 (Pipe.initFd 3 .socketStream) (Pipe.initFd 4 .socketStream)

theorem wf_oneThread : (oneThread.sockets 0).rx.Wf := Vectoring.wf_init _ _ (by decide)

/-- The line `abcd`, of which `ab` arrives first, fits a buffer of five bytes. -/
theorem readline_bounded_iff_oneThread :
    Bounded (readInto 0) 0 100 5 oneThread [[97, 98], [99, 100, 10]] ↔
      ∀ st, Turns (readInto 0) 0 100 5 oneThread [[97, 98], [99, 100, 10]] st →
        ∀ l, Vectoring.lineLen (st.sockets 0).rx.queue = some l → l ≤ st.uncommitted 0 :=
  readline_bounded_iff (keeps_readInto 0) wf_oneThread

/-- It does not fit one of four: two bytes are there when the line's last three
come, and all of them are stored. -/
theorem readline_overruns :
    ¬Bounded (readInto 0) 0 100 4 oneThread [[97, 98], [99, 100, 10]] := fun h => by
  have hcommitted : (readline (readInto 0) 0 100 4 5 oneThread
      [[97, 98], [99, 100, 10]]).state.committed 0 = 5 := by decide
  exact absurd (h.committed 5) (by rw [hcommitted]; decide)

end Vk

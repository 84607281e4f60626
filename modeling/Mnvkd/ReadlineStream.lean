/-
# `Mnvkd.ReadlineStream` — a line, however the stream is cut

The stream a call of `vk_socket_readline` reads is cut into arrivals: what the
receive ring holds when the call begins, and what is put there each time it
waits.  The call should return the stream's first line whatever the cut.

Its exit tests look one byte before the buffer plus twice what is committed,
which is past everything the call has stored.  So where an arrival ends inside
the line, the call goes on only if the byte it looks at there is no newline
(`Clean`); and it returns the line exactly then (`readline_returns_iff`).
-/
import Mnvkd.Readline
import Mnvkd.SocketHandlerSpec

namespace Vk

open Lib ProcLocal

open Vectoring (newline lineLen lineLen_eq_none lineLen_eq_some lineLen_le)

/-! ## Lines of a stream -/

/-- The first line of a stream: through its first newline, or all of it. -/
def firstLine (bs : List UInt8) : List UInt8 := bs.take ((lineLen bs).getD bs.length)

theorem lineLen_append {pre : List UInt8} (h : newline ∉ pre) (bs : List UInt8) :
    lineLen (pre ++ bs) = (lineLen bs).map (pre.length + ·) := by
  have hpre : pre.findIdx? (· == newline) = none := by
    have := lineLen_eq_none.mpr h
    rwa [lineLen, Option.map_eq_none_iff] at this
  rw [lineLen, lineLen, List.findIdx?_append, hpre, Option.none_or, Option.map_map, Option.map_map]
  congr 1
  funext i
  show i + pre.length + 1 = pre.length + (i + 1)
  omega

theorem firstLine_of_not_mem {bs : List UInt8} (h : newline ∉ bs) : firstLine bs = bs := by
  rw [firstLine, lineLen_eq_none.mpr h]
  exact List.take_length

theorem firstLine_append {pre : List UInt8} (h : newline ∉ pre) (bs : List UInt8) :
    firstLine (pre ++ bs) = pre ++ firstLine bs := by
  rw [firstLine, lineLen_append h, firstLine]
  cases lineLen bs with
  | none =>
      show List.take (pre ++ bs).length (pre ++ bs) = pre ++ List.take bs.length bs
      rw [List.take_length, List.take_length]
  | some l =>
      show List.take (pre.length + l) (pre ++ bs) = pre ++ List.take l bs
      exact List.take_length_add_append l

/-- A line whose end is in the first piece is a part of that piece. -/
theorem firstLine_of_some {bs : List UInt8} {l : Nat} (h : lineLen bs = some l)
    (rest : List UInt8) : firstLine (bs ++ rest) = bs.take l ∧ l ≤ bs.length := by
  have hle := lineLen_le h
  obtain ⟨pre, tail, rfl, hpre, rfl⟩ := lineLen_eq_some h
  refine ⟨?_, hle⟩
  have hlen : lineLen (pre ++ newline :: tail ++ rest) = some (pre.length + 1) := by
    rw [List.append_assoc, lineLen_append hpre]
    simp [lineLen, List.findIdx?_cons]
  rw [firstLine, hlen]
  exact List.take_append_of_le_length hle

theorem length_firstLine_le (bs : List UInt8) : (firstLine bs).length ≤ bs.length := by
  rw [firstLine, List.length_take]
  exact Nat.min_le_right _ _

theorem firstLine_eq_nil {bs : List UInt8} : firstLine bs = [] ↔ bs = [] := by
  constructor
  · intro h
    cases hl : lineLen bs with
    | none => rwa [firstLine_of_not_mem (lineLen_eq_none.mp hl)] at h
    | some l =>
        obtain ⟨pre, rest, rfl, -, rfl⟩ := lineLen_eq_some hl
        rw [firstLine, hl] at h
        simp at h
  · rintro rfl
    rfl

/-! ## Arrivals -/

/-- What arrives while the call waits: bytes, and whether the stream ends with
them. -/
structure Arrival where
  bytes : List UInt8
  hup : Bool

/-- The stream that arrivals make up. -/
def stream (as : List Arrival) : List UInt8 := as.flatMap (·.bytes)

/-- Only the last arrival ends the stream, and if none does then the stream
holds the end of its line. -/
def Cut : List Arrival → Prop
  | [] => False
  | [a] => a.hup = true ∨ newline ∈ a.bytes
  | a :: b :: as => a.hup = false ∧ (newline ∈ a.bytes ∨ Cut (b :: as))

/-- The socket a call reads from: its pipe, and the length of its ring. -/
structure Source where
  ref : PipeRef
  fdType : FdType
  cap : Nat

/-- The socket reads from the source, by a ring that is one. -/
structure Reads (src : Source) (s : Nat) (pl : ProcLocal) : Prop where
  wf : (pl.sockets s).rx.Wf
  ref : (pl.sockets s).rxFd.ref = src.ref
  fdType : (pl.sockets s).rxFd.fdType = src.fdType
  cap : (pl.sockets s).rx.bufLen = src.cap

/-- An arrival: the drained ring holds its bytes, the end of the stream is
signalled if it ends the stream, and the call's block and the memory are left
alone. -/
structure Arrives (src : Source) (s : Nat) (a : Arrival) (pl pl' : ProcLocal) : Prop where
  reads : Reads src s pl'
  queue : (pl'.sockets s).rx.queue = a.bytes
  hup : pl'.hupSignalled s = a.hup
  buf : (pl'.sockets s).block.buf = (pl.sockets s).block.buf
  committed : pl'.committed s = pl.committed s
  uncommitted : pl'.uncommitted s = pl.uncommitted s
  mem : pl'.mem = pl.mem

/-- What happens while a call waits is that what arrives is put into its ring,
as long as it fits. -/
def Delivers (src : Source) (s : Nat) (deliver : Arrival → ProcLocal → ProcLocal) : Prop :=
  ∀ a pl, Reads src s pl → (pl.sockets s).rx.queue = [] → pl.hupSignalled s = false →
    a.bytes.length ≤ src.cap → Arrives src s a pl (deliver a pl)

/-- The byte the exit tests look at after `n` bytes, which is not one of them. -/
def stale (m : Memory UInt8) (buf n : Nat) : UInt8 := m (buf + n + n - 1)

/-- Where an arrival ends inside a line of `l` bytes, of which `n` came before
it, the byte the exit tests look at is no newline; nor is it where nothing has
come yet and the stream goes on. -/
def Clean (m : Memory UInt8) (buf l : Nat) : Nat → List Arrival → Prop
  | _, [] => True
  | n, a :: as =>
      (n + a.bytes.length < l ∨ (n + a.bytes.length = 0 ∧ a.hup = false) →
        stale m buf (n + a.bytes.length) ≠ newline) ∧ Clean m buf l (n + a.bytes.length) as

theorem clean_of_le {m : Memory UInt8} {buf l : Nat} {as : List Arrival} {n : Nat} (h : l ≤ n)
    (hpos : 0 < n) : Clean m buf l n as := by
  induction as generalizing n with
  | nil => trivial
  | cons a as ih =>
      refine ⟨fun hn => ?_, ih (by omega) (by omega)⟩
      omega

/-- The call has returned the line, and leaves the rest of the stream to be
read. -/
structure Returned (s buf : Nat) (line rest : List UInt8) (st : ProcLocal) (bs : List Arrival) :
    Prop where
  count : st.committed s = line.length
  bytes : st.mem.load buf line.length = line
  rest : (st.sockets s).rx.queue ++ stream bs = rest

section Run
variable {src : Source} {s buf len : Nat} {m : Memory UInt8}

/-- A call that has committed `pre` stands at the top of its loop, what has
arrived since being `a`. -/
structure AtTop (src : Source) (s buf len : Nat) (m : Memory UInt8) (pre : List UInt8)
    (a : Arrival) (st : ProcLocal) : Prop where
  reads : Reads src s st
  queue : (st.sockets s).rx.queue = a.bytes
  hup : st.hupSignalled s = a.hup
  place : (st.sockets s).block.buf = buf + pre.length
  committed : st.committed s = pre.length
  uncommitted : st.uncommitted s = len - pre.length
  loaded : st.mem.load buf pre.length = pre
  frame : ∀ x, ¬(buf ≤ x ∧ x < buf + pre.length) → st.mem x = m x
  noline : newline ∉ pre

variable {pre : List UInt8} {a : Arrival} {st : ProcLocal}

theorem AtTop.pollhup (h : AtTop src s buf len m pre a st) :
    st.pollhup s = true ↔ a.bytes = [] ∧ a.hup = true := by
  rw [pollhup_of_queue h.reads.wf, h.queue, h.hup]

theorem AtTop.lastCommitted (h : AtTop src s buf len m pre a st) :
    lastCommitted st s = stale m buf pre.length := by
  rw [Vk.lastCommitted, h.place, h.committed, stale]
  exact h.frame _ (by omega)

/-- While bytes are left to commit, the test asks for no hang-up and looks at the
stale byte. -/
theorem AtTop.test (h : AtTop src s buf len m pre a st) (hlt : pre.length < len) :
    (readlineLoop s).test st = true ↔
      ¬(a.bytes = [] ∧ a.hup = true) ∧ (pre = [] ∨ stale m buf pre.length ≠ newline) := by
  have hunc : 0 < st.uncommitted s := by
    rw [h.uncommitted]
    omega
  have hnil : st.committed s = 0 ↔ pre = [] := by rw [h.committed, List.length_eq_zero_iff]
  show (!st.pollhup s && decide (0 < st.uncommitted s) &&
    (st.committed s == 0 || Vk.lastCommitted st s != newline)) = true ↔ _
  rw [h.lastCommitted, ← h.pollhup]
  simp only [Bool.and_eq_true, Bool.or_eq_true, Bool.not_eq_true', decide_eq_true_eq, beq_iff_eq,
    bne_iff_ne, hunc, and_true, hnil, Bool.not_eq_true]

/-- What a turn has stored when it gets `k` of the bytes that arrived. -/
theorem AtTop.body_loaded (h : AtTop src s buf len m pre a st) {k : Nat}
    (hk : lineCount st s = k) (hle : k ≤ a.bytes.length) :
    ((readlineLoop s).body st).mem.load buf (pre.length + k) = pre ++ a.bytes.take k := by
  have hlen : (a.bytes.take k).length = k := by rw [List.length_take, Nat.min_eq_left hle]
  rw [body_mem h.reads.wf, h.queue, hk, h.place, Memory.load_add]
  congr 1
  · rw [Memory.load_store_of_disjoint _ _ _ _ _ (Or.inl (Nat.le_refl _)), h.loaded]
  · have := Memory.load_store st.mem (buf + pre.length) (a.bytes.take k)
    rwa [hlen] at this

/-- A turn reads from the same source. -/
theorem AtTop.body_reads (h : AtTop src s buf len m pre a st) :
    Reads src s ((readlineLoop s).body st) ∧
      ((readlineLoop s).body st).hupSignalled s = a.hup := by
  have hm := body_rx_moved h.reads.wf
  have hbody := readlineLoop_body h.reads.wf
  refine ⟨⟨hm.wf, ?_, ?_, by rw [hm.flags.bufLen, h.reads.cap]⟩, ?_⟩
  · rw [hbody, updSocket_sockets_self]
    exact h.reads.ref
  · rw [hbody, updSocket_sockets_self]
    exact h.reads.fdType
  · rw [← h.hup]
    refine hupSignalled_congr ?_ hm.flags.eof ?_ fun w => ?_
    · rw [hbody, updSocket_sockets_self]
    · rw [hbody, updSocket_sockets_self]
    · rw [hbody, updSocket_sockets]
      split
      · subst w
        rfl
      · rfl

/-- A turn that finds no end of line, and fits, commits all that arrived. -/
theorem AtTop.body (h : AtTop src s buf len m pre a st) (hnl : newline ∉ a.bytes)
    (hfit : pre.length + a.bytes.length ≤ len) :
    AtTop src s buf len m (pre ++ a.bytes) ⟨[], a.hup⟩ ((readlineLoop s).body st) := by
  have hwf := h.reads.wf
  have htx : (st.sockets s).rx.txLen = a.bytes.length := by
    rw [← Vectoring.length_queue, h.queue]
  obtain ⟨hreq, hcount⟩ := lineCount_of_none (s := s)
    (by rw [h.queue]; exact lineLen_eq_none.mpr hnl)
  have hcount : lineCount st s = a.bytes.length := by
    rw [hcount, htx, h.uncommitted]
    omega
  obtain ⟨hreads, hhup⟩ := h.body_reads
  have hloaded := h.body_loaded hcount (Nat.le_refl _)
  rw [List.take_length, ← List.length_append] at hloaded
  refine ⟨hreads, ?_, hhup, ?_, ?_, ?_, hloaded, fun x hx => ?_, ?_⟩
  · rw [(body_rx_moved hwf).queue, h.queue, hcount]
    exact List.drop_length
  · rw [body_buf hwf, h.place, hcount, List.length_append, Nat.add_assoc]
  · rw [body_committed hwf, h.committed, hcount, List.length_append]
  · rw [body_uncommitted hwf, hreq, h.uncommitted, hcount, List.length_append]
    omega
  · rw [List.length_append] at hx
    have htake : ((st.sockets s).rx.queue.take (lineCount st s)).length = a.bytes.length := by
      rw [h.queue, hcount, List.take_length]
    rw [body_mem hwf, h.place, Memory.store_of_not_mem _ _ _ (by omega)]
    exact h.frame x (by omega)
  · rw [List.mem_append, not_or]
    exact ⟨h.noline, hnl⟩

/-- What arrives while a call waits is what its next turn begins with. -/
theorem AtTop.delivered {deliver : Arrival → ProcLocal → ProcLocal}
    (h : AtTop src s buf len m pre ⟨[], false⟩ st) (hd : Delivers src s deliver)
    (ha : a.bytes.length ≤ src.cap) : AtTop src s buf len m pre a (deliver a st) := by
  have hA := hd a st h.reads h.queue h.hup ha
  exact ⟨hA.reads, hA.queue, hA.hup, by rw [hA.buf, h.place], by rw [hA.committed, h.committed],
    by rw [hA.uncommitted, h.uncommitted], by rw [hA.mem, h.loaded],
    fun x hx => by rw [hA.mem]; exact h.frame x hx, h.noline⟩

variable {deliver : Arrival → ProcLocal → ProcLocal} {as : List Arrival}

/-- A turn that has nothing left to commit ends the call. -/
theorem AtTop.halts_of_full (h : AtTop src s buf len m pre a st) (hlt : pre.length < len)
    (hstale : pre = [] ∨ stale m buf pre.length ≠ newline) (hne : a.bytes ≠ []) {k : Nat}
    (hcount : lineCount st s = k) (hle : k ≤ a.bytes.length)
    (hunc : ((readlineLoop s).body st).uncommitted s = 0) {line rest : List UInt8}
    (hline : line = pre ++ a.bytes.take k) (hrest : rest = a.bytes.drop k ++ stream as) :
    Loop.Halts (readlineLoop s) deliver (Returned s buf line rest) st as := by
  have hwf := h.reads.wf
  have htest : (readlineLoop s).test st = true :=
    (h.test hlt).mpr ⟨fun hhup => hne hhup.1, hstale⟩
  have hfinal : Returned s buf line rest ((readlineLoop s).body st) as := by
    have hlen : line.length = pre.length + k := by
      rw [hline, List.length_append, List.length_take, Nat.min_eq_left hle]
    refine ⟨by rw [body_committed hwf, h.committed, hcount, hlen], ?_, ?_⟩
    · rw [hlen, h.body_loaded hcount hle, hline]
    · rw [(body_rx_moved hwf).queue, h.queue, hcount, hrest]
  have hturn := Loop.turn_of_test htest (body_fails hwf)
  have hwaits : (readlineLoop s).waits ((readlineLoop s).body st) = false := by
    show (decide (_ > 0) && _) = false
    rw [hunc]
    rfl
  rw [hwaits] at hturn
  cases hleaves : (readlineLoop s).leaves ((readlineLoop s).body st) with
  | true =>
      rw [hleaves] at hturn
      exact (Loop.halts_of_done hturn).mpr hfinal
  | false =>
      rw [hleaves] at hturn
      refine (Loop.halts_of_again hturn).mpr ((Loop.halts_of_done ?_).mpr hfinal)
      refine Loop.turn_of_not_test _ ?_
      show (_ && decide (_ > 0) && _) = false
      rw [hunc]
      simp

/-- A call that ends with the line's end found returns the line. -/
theorem AtTop.halts_of_newline (h : AtTop src s buf len m pre a st) (hlt : pre.length < len)
    (hstale : pre = [] ∨ stale m buf pre.length ≠ newline) {l : Nat}
    (hl : lineLen a.bytes = some l) {line rest : List UInt8}
    (hline : line = pre ++ a.bytes.take l) (hrest : rest = a.bytes.drop l ++ stream as) :
    Loop.Halts (readlineLoop s) deliver (Returned s buf line rest) st as := by
  obtain ⟨hreq, hcount⟩ := lineCount_of_some (s := s) (by rw [h.queue]; exact hl)
  have hne : a.bytes ≠ [] := by
    rintro hnil
    rw [hnil] at hl
    cases hl
  refine h.halts_of_full hlt hstale hne hcount (lineLen_le hl) ?_ hline hrest
  rw [body_uncommitted h.reads.wf, hreq, hcount, Nat.sub_self]

/-- How a turn ends that finds no end of line and fits. -/
theorem AtTop.turn (h : AtTop src s buf len m pre a st) (hlt : pre.length < len)
    (hstale : pre = [] ∨ stale m buf pre.length ≠ newline) (hne : ¬(a.bytes = [] ∧ a.hup = true))
    (hnl : newline ∉ a.bytes) (hfit : pre.length + a.bytes.length ≤ len) :
    (readlineLoop s).turn st =
      if a.hup then .done ((readlineLoop s).body st)
      else if (pre ++ a.bytes).length < len ∧ stale m buf (pre ++ a.bytes).length ≠ newline then
        .wait ((readlineLoop s).body st)
      else .again ((readlineLoop s).body st) := by
  have h' := h.body hnl hfit
  have htest := (h.test hlt).mpr ⟨hne, hstale⟩
  have hleaves : (readlineLoop s).leaves ((readlineLoop s).body st) = a.hup := by
    have := h'.pollhup
    show ((readlineLoop s).body st).pollhup s = a.hup
    cases hhup : a.hup with
    | true => exact this.mpr ⟨rfl, hhup⟩
    | false =>
        refine Bool.eq_false_iff.mpr fun hp => ?_
        have hup := (this.mp hp).2
        rw [hhup] at hup
        cases hup
  have hwaits : (readlineLoop s).waits ((readlineLoop s).body st)
      = decide ((pre ++ a.bytes).length < len ∧
          stale m buf (pre ++ a.bytes).length ≠ newline) := by
    show (decide (((readlineLoop s).body st).uncommitted s > 0) &&
      Vk.lastCommitted ((readlineLoop s).body st) s != newline) = _
    rw [h'.lastCommitted, h'.uncommitted, Bool.decide_and]
    congr 1
    · exact decide_eq_decide.mpr (by omega)
    · exact (decide_not ..).symm
  rw [Loop.turn_of_test htest (body_fails h.reads.wf), hleaves, hwaits]
  simp only [decide_eq_true_eq]

/-- A call that has stopped having drained its ring has returned the line if
nothing of the stream is left. -/
theorem AtTop.returned_iff {hup : Bool} (h : AtTop src s buf len m pre ⟨[], hup⟩ st) :
    Returned s buf (pre ++ firstLine (stream as))
        ((stream as).drop (firstLine (stream as)).length) st as ↔ stream as = [] := by
  constructor
  · intro hr
    have hcount := hr.count
    rw [h.committed, List.length_append] at hcount
    exact firstLine_eq_nil.mp (List.length_eq_zero_iff.mp (by omega))
  · intro hnil
    have hline : firstLine (stream as) = [] := firstLine_eq_nil.mpr hnil
    rw [hline, List.append_nil]
    exact ⟨h.committed, h.loaded, by rw [h.queue]; rfl⟩

/-- A call that has nothing, is signalled no end, and finds a newline where it
looks, goes round for ever. -/
theorem not_halts_of_stale (h : AtTop src s buf len m [] ⟨[], false⟩ st) (hlt : 0 < len)
    (hstale : stale m buf 0 = newline) {P : ProcLocal → List Arrival → Prop} :
    ¬Loop.Halts (readlineLoop s) deliver P st as := by
  refine Loop.not_halts_of_spin (I := fun t => AtTop src s buf len m [] ⟨[], false⟩ t)
    (fun t ht => ⟨(readlineLoop s).body t, ?_, ?_⟩) h
  · have hturn := ht.turn hlt (Or.inl rfl) (by simp) (by simp) (Nat.zero_le _)
    rw [hturn, if_neg (by simp), if_neg]
    rintro ⟨-, hne⟩
    exact hne hstale
  · exact ht.body (by simp) (Nat.zero_le _)

/-- Where the end of the line has arrived, the call returns the line, and it has
not been cut. -/
theorem halts_iff_clean_of_newline (h : AtTop src s buf len m pre a st) (hlt : pre.length < len)
    (hstale : pre = [] ∨ stale m buf pre.length ≠ newline) (hnl : newline ∈ a.bytes) :
    Loop.Halts (readlineLoop s) deliver
        (Returned s buf (pre ++ firstLine (stream (a :: as)))
          ((stream (a :: as)).drop (firstLine (stream (a :: as))).length)) st as ↔
      Clean m buf (pre.length + (firstLine (stream (a :: as))).length) pre.length (a :: as) := by
  obtain ⟨l, hl⟩ : ∃ l, lineLen a.bytes = some l := by
    cases hl : lineLen a.bytes with
    | none => exact absurd hnl (lineLen_eq_none.mp hl)
    | some l => exact ⟨l, rfl⟩
  obtain ⟨hline, hle⟩ := firstLine_of_some hl (stream as)
  have hstream : stream (a :: as) = a.bytes ++ stream as := rfl
  have hpos : 0 < a.bytes.length := List.length_pos_of_mem hnl
  have hlen : (a.bytes.take l).length = l := by rw [List.length_take, Nat.min_eq_left hle]
  rw [hstream, hline, hlen]
  refine iff_of_true (h.halts_of_newline hlt hstale hl rfl ?_) ⟨fun hn => ?_, ?_⟩
  · exact List.drop_append_of_le_length hle
  · omega
  · exact clean_of_le (by omega) (by omega)

/-- From the top of the loop on, the call returns the line exactly when the bytes
it looks at are clean. -/
theorem halts_iff_clean (hd : Delivers src s deliver) (h : AtTop src s buf len m pre a st)
    (hlt : pre.length < len) (hstale : pre = [] ∨ stale m buf pre.length ≠ newline)
    (hcut : Cut (a :: as)) (hcap : ∀ b ∈ as, b.bytes.length ≤ src.cap)
    (hfit : pre.length + (firstLine (stream (a :: as))).length ≤ len) :
    Loop.Halts (readlineLoop s) deliver
        (Returned s buf (pre ++ firstLine (stream (a :: as)))
          ((stream (a :: as)).drop (firstLine (stream (a :: as))).length)) st as ↔
      Clean m buf (pre.length + (firstLine (stream (a :: as))).length) pre.length (a :: as) := by
  induction as generalizing pre a st with
  | nil =>
      by_cases hnl : newline ∈ a.bytes
      · exact halts_iff_clean_of_newline h hlt hstale hnl
      have hup : a.hup = true := hcut.resolve_right hnl
      have hstream : stream [a] = a.bytes := List.append_nil _
      rw [hstream, firstLine_of_not_mem hnl] at hfit ⊢
      have hret : ∀ {p : List UInt8} {t : ProcLocal}, AtTop src s buf len m p ⟨[], true⟩ t →
          Returned s buf p [] t [] := fun {p t} ht => by
        have hnil : stream [] = [] := rfl
        have := ht.returned_iff.mpr hnil
        rwa [hnil, firstLine_of_not_mem (by simp), List.append_nil] at this
      refine iff_of_true ?_ ⟨fun hn => ?_, trivial⟩
      · rw [List.drop_length]
        by_cases hempty : a.bytes = []
        · -- the end of the stream, and nothing before it
          have ha : a = ⟨[], true⟩ := by rw [← hempty, ← hup]
          rw [hempty, List.append_nil]
          refine (Loop.halts_of_done (Loop.turn_of_not_test _ ?_)).mpr (hret (ha ▸ h))
          exact Bool.eq_false_iff.mpr fun ht => ((h.test hlt).mp ht).1 ⟨hempty, hup⟩
        · have hturn := h.turn hlt hstale (fun hn => hempty hn.1) hnl hfit
          rw [if_pos hup] at hturn
          exact (Loop.halts_of_done hturn).mpr (hret (hup ▸ h.body hnl hfit))
      · rw [hup] at hn
        simp at hn
  | cons b bs ih =>
      by_cases hnl : newline ∈ a.bytes
      · exact halts_iff_clean_of_newline h hlt hstale hnl
      obtain ⟨hup, hcut⟩ := hcut
      have hcut := hcut.resolve_left hnl
      have hstream : stream (a :: b :: bs) = a.bytes ++ stream (b :: bs) := rfl
      rw [hstream, firstLine_append hnl, List.length_append] at hfit ⊢
      have hlen : (pre ++ a.bytes).length = pre.length + a.bytes.length := List.length_append
      have hdrop : (a.bytes ++ stream (b :: bs)).drop
          (a.bytes.length + (firstLine (stream (b :: bs))).length)
          = (stream (b :: bs)).drop (firstLine (stream (b :: bs))).length := by
        rw [← List.drop_drop, List.drop_left]
      have h' := h.body hnl (by omega)
      rw [hup] at h'
      rw [hdrop, ← List.append_assoc, ← Nat.add_assoc, ← hlen]
      -- what is left is about the next piece, and the byte looked at before it
      show _ ↔ (pre.length + a.bytes.length < (pre ++ a.bytes).length + _ ∨ _ → _) ∧
        Clean m buf _ (pre.length + a.bytes.length) (b :: bs)
      rw [← hlen]
      have hnil : (pre ++ a.bytes).length = 0 ↔ pre ++ a.bytes = [] := List.length_eq_zero_iff
      have hturn := h.turn hlt hstale (fun hn => by simp [hup] at hn) hnl (by omega)
      rw [hup, if_neg (by simp)] at hturn
      by_cases hfull : (pre ++ a.bytes).length < len
      · by_cases hnext : stale m buf (pre ++ a.bytes).length = newline
        · rw [if_neg fun hc => hc.2 hnext] at hturn
          rw [Loop.halts_of_again hturn]
          by_cases hpre : pre ++ a.bytes = []
          · rw [hpre] at h' hnext ⊢
            exact iff_of_false (not_halts_of_stale h' (by omega) hnext)
              fun hc => hc.1 (Or.inr ⟨rfl, hup⟩) hnext
          · -- the exit test sees a newline, and the call ends here
            have htest : (readlineLoop s).test ((readlineLoop s).body st) = false := by
              refine Bool.eq_false_iff.mpr fun ht => ?_
              exact ((h'.test hfull).mp ht).2.elim hpre fun hne => hne hnext
            rw [Loop.halts_of_done (Loop.turn_of_not_test _ htest), h'.returned_iff]
            constructor
            · intro hnone
              rw [hnone, firstLine_of_not_mem (by simp)]
              refine ⟨fun hc => ?_, clean_of_le (Nat.le_refl _) (List.length_pos_of_ne_nil hpre)⟩
              exact (hc.elim (by simp) fun hc => hpre (hnil.mp hc.1)).elim
            · intro hc
              refine firstLine_eq_nil.mp (List.length_eq_zero_iff.mp ?_)
              have hle := Nat.not_lt.mp fun hn => hc.1 (Or.inl hn) hnext
              omega
        · rw [if_pos ⟨hfull, hnext⟩] at hturn
          rw [Loop.halts_of_wait hturn, ih (h'.delivered hd (hcap b List.mem_cons_self)) hfull
            (Or.inr hnext) hcut (fun c hc => hcap c (List.mem_cons_of_mem b hc)) (by omega)]
          exact ⟨fun hc => ⟨fun _ => hnext, hc⟩, fun hc => hc.2⟩
      · -- the length given is used up: the stream ends here
        rw [if_neg fun hc => hfull hc.1] at hturn
        have hnone : stream (b :: bs) = [] :=
          firstLine_eq_nil.mp (List.length_eq_zero_iff.mp (by omega))
        have htest : (readlineLoop s).test ((readlineLoop s).body st) = false := by
          have hunc : ((readlineLoop s).body st).uncommitted s = 0 := by
            rw [h'.uncommitted]
            omega
          show (_ && decide (_ > 0) && _) = false
          rw [hunc]
          simp
        rw [Loop.halts_of_again hturn, Loop.halts_of_done (Loop.turn_of_not_test _ htest),
          h'.returned_iff]
        rw [hnone, firstLine_of_not_mem (by simp)]
        refine iff_of_true rfl ⟨fun hc => ?_, clean_of_le (Nat.le_refl _) (by omega)⟩
        rcases hc with hc | hc
        · exact absurd hc (by simp)
        · omega

end Run

/-! ## Arrivals through the handlers -/

section Handlers
variable {src : Source} {s w : Nat}

/-- A process that has the sockets and memory of one where an arrival has been
put into the ring. -/
theorem arrives_of_sameData {a : Arrival} {pl pl₁ pl' : ProcLocal} (h : Arrives src s a pl pl₁)
    (hd : SameData pl₁ pl') : Arrives src s a pl pl' := by
  have hs := hd.socket s
  refine ⟨⟨hs.rx.wf h.reads.wf, hs.rxRef.trans h.reads.ref, hs.rxType.trans h.reads.fdType,
    hs.rx.bufLen.trans h.reads.cap⟩, hs.rx.queue.trans h.queue,
    (hupSignalled_of_sameData hd s).trans h.hup, hs.block.buf.trans h.buf,
    hs.block.copied.trans h.committed, hs.block.len.trans h.uncommitted, hd.mem.trans h.mem⟩

/-- The system's answers to a read. -/
def readAnswer (readv : SysResult (List UInt8)) : Os where
  readv := readv
  writev := .err Errno.EAGAIN
  accept := .err Errno.EAGAIN
  close := .ok ()
  shutdown := .ok ()

/-- What arrives on a descriptor, through the read handler: the bytes, if there
are any, and then, if the stream ends, a read of none. -/
def deliverRead (s : Nat) (a : Arrival) (pl : ProcLocal) : ProcLocal :=
  let pl := if a.bytes.isEmpty then pl else (pl.handleRead s (readAnswer (.ok a.bytes))).pl
  if a.hup then (pl.handleRead s (readAnswer (.ok []))).pl else pl

/-- What a writer has left in its transmit ring, through the read handler of the
reader of a virtual pipe. -/
def deliverSplice (s w : Nat) (left : Arrival → Vectoring) (os : Os) (a : Arrival)
    (pl : ProcLocal) : ProcLocal :=
  ((pl.setTx w (left a)).handleRead s os).pl

/-- One read of a descriptor whose stream has not ended. -/
theorem arrives_handleRead {pl : ProcLocal} (h : Reads src s pl) {fd : Int}
    (href : src.ref = .osFd fd) (htype : src.fdType ≠ .socketListen)
    (hup : pl.hupSignalled s = false) {bytes : List UInt8}
    (hb : bytes.length ≤ (pl.sockets s).rx.rxLen) :
    Arrives src s ⟨(pl.sockets s).rx.queue ++ bytes, bytes.isEmpty⟩ pl
      (pl.handleRead s (readAnswer (.ok bytes))).pl := by
  obtain ⟨-, -, hm⟩ := h.wf.read_ok hb pl.errno
  have hret : ((pl.sockets s).block.ioftRxRet.rxClosed &&
      (pl.sockets s).block.ioftRxRet.readable == 0) = false := by
    simp only [hupSignalled, Pipe.getSocket, h.ref, href, Bool.or_eq_false_iff] at hup
    exact hup.2
  refine arrives_of_sameData ?_ (sameData_handleRead_osFd pl s _ (h.ref.trans href)
    (by rw [h.fdType]; exact htype))
  have hsocket : ((pl.setRx s ((pl.sockets s).rx.read (.ok bytes) pl.errno).ring).sockets s)
      = { pl.sockets s with rx := ((pl.sockets s).rx.read (.ok bytes) pl.errno).ring } :=
    updSocket_sockets_self _ _ _
  refine ⟨⟨?_, ?_, ?_, ?_⟩, ?_, ?_, ?_, ?_, ?_, rfl⟩
  · exact hsocket ▸ hm.wf
  · exact hsocket ▸ h.ref
  · exact hsocket ▸ h.fdType
  · exact hsocket ▸ hm.flags.bufLen.trans h.cap
  · exact hsocket ▸ hm.queue
  · simp only [hupSignalled, readAnswer, hsocket, Pipe.getSocket, h.ref, href, hret, Bool.or_false]
    exact hm.flags.eof
  · exact congrArg (·.block.buf) hsocket
  · exact congrArg (·.block.copied) hsocket
  · exact congrArg (·.block.len) hsocket

/-- Reads of a descriptor are arrivals. -/
theorem delivers_deliverRead {fd : Int} (href : src.ref = .osFd fd)
    (htype : src.fdType ≠ .socketListen) : Delivers src s (deliverRead s) := by
  intro a pl h hq hup ha
  have hroom : ∀ {pl : ProcLocal}, Reads src s pl →
      (pl.sockets s).rx.rxLen = src.cap - (pl.sockets s).rx.queue.length := fun {pl} h => by
    rw [Vectoring.length_queue, ← h.cap]
    rfl
  -- the bytes
  have hbytes : Arrives src s ⟨a.bytes, false⟩ pl
      (if a.bytes.isEmpty then pl else (pl.handleRead s (readAnswer (.ok a.bytes))).pl) := by
    by_cases hempty : a.bytes.isEmpty = true
    · rw [if_pos hempty]
      refine ⟨h, ?_, hup, rfl, rfl, rfl, rfl⟩
      rw [hq, List.isEmpty_iff.mp hempty]
    · rw [if_neg hempty]
      have := arrives_handleRead h href htype hup
        (by rw [hroom h, hq]; simpa using ha)
      rw [hq, List.nil_append, Bool.eq_false_iff.mpr hempty] at this
      exact this
  unfold deliverRead
  dsimp only
  cases hhup : a.hup with
  | false =>
      have ha : a = ⟨a.bytes, false⟩ := by rw [← hhup]
      rw [if_neg (by simp), ha]
      exact hbytes
  | true =>
      -- and the end of the stream
      rw [if_pos rfl]
      have hend := arrives_handleRead hbytes.reads href htype hbytes.hup
        (show ([] : List UInt8).length ≤ _ from Nat.zero_le _)
      rw [hbytes.queue, List.append_nil] at hend
      have ha : a = ⟨a.bytes, [].isEmpty (α := UInt8)⟩ := by
        cases a
        exact congrArg _ hhup
      rw [ha]
      exact ⟨hend.reads, hend.queue, hend.hup, hend.buf.trans hbytes.buf,
        hend.committed.trans hbytes.committed, hend.uncommitted.trans hbytes.uncommitted,
        hend.mem.trans hbytes.mem⟩

/-- Splices from a virtual pipe are arrivals. -/
theorem delivers_deliverSplice (href : src.ref = .vkTx w) {left : Arrival → Vectoring}
    (hleft : ∀ a, (left a).Wf ∧ (left a).queue = a.bytes ∧ (left a).eof = a.hup) (os : Os) :
    Delivers src s (deliverSplice s w left os) := by
  intro a pl h hq hup ha
  obtain ⟨hwf, hqueue, heof⟩ := hleft a
  have hspliced := sameData_handleRead_vkTx (pl.setTx w (left a)) s w os (by simp [h.ref, href])
  refine arrives_of_sameData ?_ hspliced
  have hrx : ((pl.setTx w (left a)).sockets s).rx = (pl.sockets s).rx := setTx_rx _ _ _ _
  have htx : ((pl.setTx w (left a)).sockets w).tx = left a := setTx_tx_self _ _ _
  -- everything that was left fits, and is moved
  have hlen : Vectoring.spliceLen (pl.sockets s).rx (left a) (-1) = a.bytes.length := by
    have hroom : (pl.sockets s).rx.rxLen = src.cap := by
      rw [Vectoring.rxLen, h.cap, ← Vectoring.length_queue, hq]
      rfl
    have hqueued : (left a).txLen = a.bytes.length := by rw [← Vectoring.length_queue, hqueue]
    rw [Vectoring.spliceLen, if_neg (by omega), hroom, hqueued, Nat.min_eq_right ha]
  obtain ⟨-, -, hmrx, hmtx⟩ := h.wf.splice hwf (-1) (pl.setTx w (left a)).errno
  rw [hlen, hqueue, List.take_length, hq, List.nil_append] at hmrx
  rw [hlen, hqueue, List.drop_length] at hmtx
  unfold spliced
  rw [hrx, htx]
  refine ⟨⟨?_, ?_, ?_, ?_⟩, ?_, ?_, ?_, ?_, ?_, rfl⟩
  · simpa using hmrx.wf
  · simpa using h.ref
  · simpa using h.fdType
  · simpa using hmrx.flags.bufLen.trans h.cap
  · simpa using hmrx.queue
  · simp only [hupSignalled, setRx_rxFd, setTx_rxFd, Pipe.getSocket, h.ref, href, Socket.nodataTx,
      Vectoring.hasNodata, setRx_tx, setTx_tx_self]
    rw [(hmtx.wf.isEmpty_iff).mpr hmtx.queue, Bool.and_true, hmtx.flags.eof]
    exact heof
  · simp
  · simp [committed]
  · simp [uncommitted]

end Handlers

/-! ## Calls -/

/-- What arrives for a call: what its ring holds when it begins, and what is put
there while it waits. -/
def arrivals (pl : ProcLocal) (s : Nat) (as : List Arrival) : List Arrival :=
  ⟨(pl.sockets s).rx.queue, pl.hupSignalled s⟩ :: as

/-- A call of `vk_socket_readline` of `len` bytes into `buf`, on a stream whose
first line is no longer than `len` and arrives. -/
structure Call where
  src : Source
  s : Nat
  buf : Nat
  len : Nat
  pl : ProcLocal
  as : List Arrival
  deliver : Arrival → ProcLocal → ProcLocal
  delivers : Delivers src s deliver
  reads : Reads src s pl
  room : ∀ a ∈ as, a.bytes.length ≤ src.cap
  cut : Cut (arrivals pl s as)
  len_pos : 0 < len
  fits : (firstLine (stream (arrivals pl s as))).length ≤ len

namespace Call

/-- The stream the call reads. -/
def stream (c : Call) : List UInt8 := Vk.stream (arrivals c.pl c.s c.as)

/-- The call returns `line` in its buffer and leaves `rest` to be read. -/
def Returns (c : Call) (line rest : List UInt8) : Prop :=
  Loop.Halts (readlineLoop c.s) c.deliver (Returned c.s c.buf line rest)
    (c.pl.beginRead c.s c.buf c.len) c.as

/-- The bytes the call's exit tests look at inside the line are no newlines. -/
def Clean (c : Call) : Prop :=
  Vk.Clean c.pl.mem c.buf (firstLine c.stream).length 0 (arrivals c.pl c.s c.as)

theorem atTop (c : Call) : AtTop c.src c.s c.buf c.len c.pl.mem []
    ⟨(c.pl.sockets c.s).rx.queue, c.pl.hupSignalled c.s⟩ (c.pl.beginRead c.s c.buf c.len) := by
  have hsocket : (c.pl.beginRead c.s c.buf c.len).sockets c.s
      = { c.pl.sockets c.s with block := (c.pl.sockets c.s).block.init c.buf c.len .read } := by
    rw [beginRead, blockInit, updBlock, updSocket_sockets_self]
  refine ⟨⟨?_, ?_, ?_, ?_⟩, ?_, ?_, ?_, ?_, ?_, rfl, fun _ _ => rfl, by simp⟩
  · exact hsocket ▸ c.reads.wf
  · exact hsocket ▸ c.reads.ref
  · exact hsocket ▸ c.reads.fdType
  · exact hsocket ▸ c.reads.cap
  · rw [hsocket]
  · refine hupSignalled_congr ?_ ?_ ?_ fun w => ?_
    · rw [hsocket]
    · rw [hsocket]
    · rw [hsocket]
      rfl
    · rw [beginRead, blockInit, updBlock, updSocket_sockets]
      split
      · subst w
        rfl
      · rfl
  · rw [hsocket]
    rfl
  · exact congrArg (·.block.copied) hsocket
  · exact congrArg (·.block.len) hsocket

/-- A call returns the first line of its stream, and leaves the rest, exactly when
it is clean. -/
theorem returns_iff (c : Call) :
    c.Returns (firstLine c.stream) (c.stream.drop (firstLine c.stream).length) ↔ c.Clean := by
  have h := halts_iff_clean c.delivers c.atTop c.len_pos (Or.inl rfl)
    c.cut c.room (by rw [List.length_nil, Nat.zero_add]; exact c.fits)
  rw [List.nil_append, List.length_nil, Nat.zero_add] at h
  exact h

end Call

/-- Two calls on the same stream, however it is cut for them and whatever their
buffers hold, both return its first line and leave the same rest exactly when
both are clean. -/
theorem readline_same_iff (c₁ c₂ : Call) (h : c₂.stream = c₁.stream) :
    (c₁.Returns (firstLine c₁.stream) (c₁.stream.drop (firstLine c₁.stream).length) ∧
        c₂.Returns (firstLine c₁.stream) (c₁.stream.drop (firstLine c₁.stream).length)) ↔
      c₁.Clean ∧ c₂.Clean := by
  rw [c₁.returns_iff, ← h, c₂.returns_iff]

/-! ## One line cut in two -/

/-- The descriptor `oneThread` reads from. -/
def oneThreadSource : Source := ⟨.osFd 3, .socketStream, Socket.bufLen⟩

/-- A stream cut as `as`, read into a buffer of eight bytes in the memory `mem`. -/
def lineCall (mem : Memory UInt8) (as : List Arrival)
    (room : ∀ a ∈ as, a.bytes.length ≤ oneThreadSource.cap)
    (cut : Cut (arrivals { oneThread with mem := mem } 0 as))
    (fits : (firstLine (stream (arrivals { oneThread with mem := mem } 0 as))).length ≤ 8) :
    Call where
  src := oneThreadSource
  s := 0
  buf := 100
  len := 8
  pl := { oneThread with mem := mem }
  as := as
  deliver := deliverRead 0
  delivers := delivers_deliverRead rfl (by decide)
  reads := ⟨wf_oneThread, rfl, rfl, rfl⟩
  room := room
  cut := cut
  len_pos := by decide
  fits := fits

/-- The line `ab` comes whole. -/
def wholeCall (mem : Memory UInt8) : Call :=
  lineCall mem [⟨[97, 98, 10], false⟩] (by decide) ⟨rfl, Or.inr (Or.inr (by decide))⟩
    (by show List.length (firstLine [97, 98, 10]) ≤ 8; decide)

/-- The line `ab` comes in two pieces. -/
def cutCall (mem : Memory UInt8) : Call :=
  lineCall mem [⟨[97], false⟩, ⟨[98, 10], false⟩] (by decide)
    ⟨rfl, Or.inr ⟨rfl, Or.inr (Or.inr (by decide))⟩⟩
    (by show List.length (firstLine [97, 98, 10]) ≤ 8; decide)

/-- A buffer that was full of newlines. -/
def newlines : Memory UInt8 := fun a => if a < 100 then 0 else newline

theorem readline_same_iff_lineCall :
    ((wholeCall newlines).Returns [97, 98, 10] [] ∧ (cutCall fun _ => 0).Returns [97, 98, 10] []) ↔
      (wholeCall newlines).Clean ∧ (cutCall fun _ => 0).Clean :=
  readline_same_iff (wholeCall newlines) (cutCall fun _ => 0) rfl

/-- Into a buffer of newlines the line cut in two is not read as it is cut in none:
the call ends after its first piece. -/
theorem readline_depends_on_cut :
    ¬∀ c₁ c₂ : Call, c₂.len = c₁.len → c₂.stream = c₁.stream →
      c₁.Returns (firstLine c₁.stream) (c₁.stream.drop (firstLine c₁.stream).length) ∧
        c₂.Returns (firstLine c₁.stream) (c₁.stream.drop (firstLine c₁.stream).length) := by
  intro h
  have hcut := (h (wholeCall newlines) (cutCall newlines) rfl rfl).2
  have hclean : (cutCall newlines).Clean := (Call.returns_iff _).mp hcut
  obtain ⟨-, hfirst, -⟩ := hclean
  exact hfirst (Or.inl (by decide)) rfl

end Vk

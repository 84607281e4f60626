/-
# `Mnvkd.RedisReplies` — printing RESP replies

`redis_client_response` reads replies, a line each and behind the line of a bulk its
bytes, and prints what is in them.  Of whatever replies come, where no call stops short of
its line, it prints each on its own (`prints`), if the line of a reply fits its buffer and a
bulk fits its own: a longer bulk is cut, and what is left of it is read for a reply.
-/
import Mnvkd.RedisResponse
import Mnvkd.Wire

namespace Vk.Redis

open Lib Text

open Vectoring (newline)

/-! ## The coroutine -/

/-- `sizeof(self->line)` of the client's receiver. -/
def replyLineSize : Nat := 256

inductive PrinterStage where
  | reading
  | ended
  | raised (errno : Errno)
  deriving DecidableEq

/-- `self` of `redis_client_response`, what it reads from and what it has written. -/
structure Printer (σ : Type) where
  stage : PrinterStage
  line : List UInt8
  len : Int
  bulkLen : Int
  bulk : List UInt8
  input : σ
  out : List UInt8

/-- `"%d"`. -/
def integer (n : Int) : List UInt8 :=
  if n < 0 then '-'.toUInt8 :: decimal n.natAbs else decimal n.toNat

namespace Printer

variable {σ : Type}

def write (bs : List UInt8) (st : Printer σ) : Printer σ := { st with out := st.out ++ bs }

def raise (errno : Errno) (st : Printer σ) : Printer σ := { st with stage := .raised errno }

/-- `vk_readline(rc, self->line, sizeof(self->line) - 1)`. -/
def readline (r : Reader σ) (st : Printer σ) : Printer σ :=
  { st with
    line := put 0 (r.readline (replyLineSize - 1) st.input).1 st.line
    input := (r.readline (replyLineSize - 1) st.input).2 }

/-- Its `rc`. -/
def lineRc (r : Reader σ) (st : Printer σ) : Nat :=
  (r.readline (replyLineSize - 1) st.input).1.length

/-- A simple string, an error or an integer: the line, without its mark and its end. -/
def simple (rc : Nat) (st : Printer σ) : Printer σ :=
  let len : Int := if (rc : Int) - 3 < 0 then 0 else rc - 3
  let st := { st with len := len }
  (if 0 < len then st.write (st.line.tail.take len.toNat) else st).write [newline]

/-- `vk_read(rc, self->bulk, self->bulk_len)`. -/
def readBulk (r : Reader σ) (st : Printer σ) : Printer σ :=
  { st with
    bulk := put 0 (r.read st.bulkLen.toNat st.input).1 st.bulk
    input := (r.read st.bulkLen.toNat st.input).2 }

/-- Its `rc`. -/
def bulkRc (r : Reader σ) (st : Printer σ) : Nat := (r.read st.bulkLen.toNat st.input).1.length

/-- `self->bulk[self->bulk_len] = 0`. -/
def endBulk (st : Printer σ) : Printer σ := { st with bulk := put st.bulkLen.toNat [0] st.bulk }

/-- The bytes of a bulk, the line behind them, and what is printed. -/
def content (r : Reader σ) (st : Printer σ) : Printer σ :=
  if (st.bulkRc r : Int) ≠ st.bulkLen then (st.readBulk r).raise Errno.EPIPE
  else
    let st := (st.readBulk r).endBulk
    if st.lineRc r = 0 then (st.readline r).raise Errno.EPIPE
    else ((st.readline r).write ((st.readline r).bulk.take st.bulkLen.toNat)).write [newline]

/-- A bulk: none, or one that is kept below its buffer. -/
def bulkString (r : Reader σ) (st : Printer σ) : Printer σ :=
  let st := { st with bulkLen := atoi st.line.tail }
  if st.bulkLen < 0 then st.write (bytes "(nil)\n")
  else { st with bulkLen := if st.bulkLen ≥ maxBulk then maxBulk - 1 else st.bulkLen }.content r

/-- `snprintf` of `"(array) %d\n"` into 64 bytes. -/
def array (st : Printer σ) : Printer σ :=
  let hdr := bytes "(array) " ++ integer (atoi st.line.tail) ++ [newline]
  if hdr.length < 64 then st.write hdr else st

/-- Another line, without its end. -/
def unknown (rc : Nat) (st : Printer σ) : Printer σ :=
  let st := { st with len := (rc : Int) - 2 }
  (if 0 < st.len then st.write (st.line.take st.len.toNat) else st).write [newline]

/-- A reply, from its line. -/
def reply (r : Reader σ) (rc : Nat) (st : Printer σ) : Printer σ :=
  let t := st.line.head?
  if t = some '+'.toUInt8 then st.simple rc
  else if t = some '-'.toUInt8 then st.simple rc
  else if t = some ':'.toUInt8 then st.simple rc
  else if t = some '$'.toUInt8 then st.bulkString r
  else if t = some '*'.toUInt8 then st.array
  else st.unknown rc

/-- One pass through the loop of `redis_client_response`. -/
def pass (r : Reader σ) (st : Printer σ) : Printer σ :=
  if st.lineRc r = 0 then { st.readline r with stage := .ended }
  else
    let rc := st.lineRc r
    { st.readline r with line := put rc [0] (st.readline r).line }.reply r rc

def step (r : Reader σ) (st : Printer σ) : Printer σ :=
  match st.stage with
  | .reading => st.pass r
  | .ended => st
  | .raised _ => st

def run (r : Reader σ) (n : Nat) (st : Printer σ) : Printer σ := (step r)^[n] st

theorem run_succ (r : Reader σ) (n : Nat) (st : Printer σ) :
    run r (n + 1) st = run r n (st.step r) := Function.iterate_succ_apply _ _ _

/-- `redis_client_response` begins: its `self` holds what the memory held. -/
def start (line : List UInt8) (len bulkLen : Int) (bulk : List UInt8) (input : σ) : Printer σ :=
  ⟨.reading, line, len, bulkLen, bulk, input, []⟩

end Printer

/-! ## Replies -/

/-- What is printed for a reply. -/
def Reply.text : Reply → List UInt8
  | .status text => text ++ [newline]
  | .error text => text ++ [newline]
  | .bulk value => value ++ [newline]
  | .null => Text.bytes "(nil)\n"

/-- A reply that fits the receiver: its line, or its bulk. -/
def Reply.Fits : Reply → Prop
  | .status text => newline ∉ text ∧ text.length + 3 ≤ replyLineSize - 1
  | .error text => newline ∉ text ∧ text.length + 3 ≤ replyLineSize - 1
  | .bulk value => value.length < maxBulk
  | .null => True

namespace Printer

variable {σ : Type} {r : Reader σ} {left : σ → List UInt8} {st : Printer σ}

/-- What a pass finds of a line, and leaves. -/
theorem pass_line (h : r.Streams left) (l rest : List UInt8) (hl : newline ∉ l)
    (hlen : l.length + 1 ≤ replyLineSize - 1) (hs : left st.input = l ++ newline :: rest) :
    ∃ stale input, left input = rest ∧
      st.pass r = { st with line := l ++ newline :: 0 :: stale, input := input }.reply r (l.length + 1) := by
  obtain ⟨hline, hrest⟩ := h.readline_line hl hs hlen
  have hrc : st.lineRc r = l.length + 1 := by rw [lineRc, hline, List.length_append]; rfl
  refine ⟨(st.line.drop (l ++ [newline]).length).drop 1,
    (r.readline (replyLineSize - 1) st.input).2, hrest, ?_⟩
  rw [pass, if_neg (by omega), hrc]
  dsimp only [readline]
  rw [hline, put_zero, List.append_assoc, List.singleton_append, put_behind]

/-- A line with a mark is printed without it. -/
theorem simple_eq {c : UInt8} {text stale : List UInt8}
    (hline : st.line = c :: (text ++ ['\r'.toUInt8]) ++ newline :: 0 :: stale) :
    st.simple (text.length + 3) = { st with len := text.length, out := st.out ++ (text ++ [newline]) } := by
  have hlen : (if ((text.length + 3 : Nat) : Int) - 3 < 0 then 0 else ((text.length + 3 : Nat) : Int) - 3)
      = (text.length : Int) := by
    split <;> omega
  have htake : st.line.tail.take text.length = text := by
    rw [hline]
    show (text ++ ['\r'.toUInt8] ++ newline :: 0 :: stale).take text.length = text
    rw [List.append_assoc, List.take_left]
  unfold simple
  dsimp only
  rw [hlen]
  split
  next hpos =>
    simp only [write, Int.toNat_natCast, htake, List.append_assoc]
  next hpos =>
    have hnil : text = [] := List.eq_nil_of_length_eq_zero (by omega)
    subst hnil
    rfl

/-- A simple string or an error. -/
theorem pass_simple (h : r.Streams left) {c : UInt8} (hc : c = '+'.toUInt8 ∨ c = '-'.toUInt8)
    {text rest : List UInt8} (hnewline : newline ∉ text) (hlen : text.length + 3 ≤ replyLineSize - 1)
    (hs : left st.input = c :: text ++ crlf ++ rest) :
    (st.pass r).stage = st.stage ∧ (st.pass r).out = st.out ++ (text ++ [newline]) ∧
      left (st.pass r).input = rest := by
  have hl : newline ∉ c :: (text ++ ['\r'.toUInt8]) := by
    simp only [List.mem_cons, List.mem_append, List.not_mem_nil, or_false, not_or]
    refine ⟨?_, hnewline, by decide⟩
    rcases hc with rfl | rfl
    · decide
    · decide
  have hlength : (c :: (text ++ ['\r'.toUInt8])).length + 1 = text.length + 3 := by
    rw [List.length_cons, List.length_append]
    rfl
  have hstream : left st.input = c :: (text ++ ['\r'.toUInt8]) ++ newline :: rest := by
    rw [hs, crlf]
    simp only [List.cons_append, List.append_assoc, List.nil_append]
  obtain ⟨stale, input, hrest, hpass⟩ := pass_line h _ rest hl (by omega) hstream
  have hreply : ∀ st' : Printer σ, st'.line.head? = some c → st'.reply r (text.length + 3)
      = st'.simple (text.length + 3) := fun st' hhead => by
    rcases hc with rfl | rfl
    · rw [reply, if_pos hhead]
    · rw [reply, if_neg (by rw [hhead]; decide), if_pos hhead]
  rw [hpass, hlength, hreply _ rfl, simple_eq rfl]
  exact ⟨rfl, rfl, hrest⟩

theorem reply_dollar (hhead : st.line.head? = some '$'.toUInt8) {rc : Nat} :
    st.reply r rc = st.bulkString r := by
  rw [reply, if_neg (by rw [hhead]; decide), if_neg (by rw [hhead]; decide),
    if_neg (by rw [hhead]; decide), if_pos hhead]

/-- The bytes of a bulk that fits, and the line break behind them. -/
theorem bulkString_eq (h : r.Streams left) {value rest : List UInt8} (hfits : value.length < maxBulk)
    (hatoi : atoi st.line.tail = value.length) (hs : left st.input = value ++ (crlf ++ rest)) :
    (st.bulkString r).stage = st.stage ∧ (st.bulkString r).out = st.out ++ (value ++ [newline]) ∧
      left (st.bulkString r).input = rest := by
  have hclamp : (if (value.length : Int) ≥ maxBulk then (maxBulk : Int) - 1 else value.length)
      = value.length := if_neg (by omega)
  have hbulk : st.bulkString r = { st with bulkLen := value.length }.content r := by
    rw [bulkString, hatoi]
    dsimp only
    rw [if_neg (by omega), hclamp]
  obtain ⟨hread, hleft⟩ := h.read_append hs
  have hrc : { st with bulkLen := (value.length : Int) }.bulkRc r = value.length := by
    rw [bulkRc, Int.toNat_natCast, hread]
  -- behind the bytes there is the rest of a line
  obtain ⟨hline, hrest⟩ : (r.readline (replyLineSize - 1) (r.read value.length st.input).2).1
      = ['\r'.toUInt8] ++ [newline] ∧
      left (r.readline (replyLineSize - 1) (r.read value.length st.input).2).2 = rest :=
    h.readline_line (by decide) hleft (by decide)
  have htake : ∀ stale, (put value.length [0] (put 0 value stale)).take value.length = value := fun stale => by
    rw [put_zero, put_length, List.append_assoc, List.take_left]
  have hlineRc : ({ st with bulkLen := (value.length : Int) }.readBulk r).endBulk.lineRc r ≠ 0 := by
    show (r.readline (replyLineSize - 1) (r.read value.length st.input).2).1.length ≠ 0
    rw [hline]
    exact Nat.succ_ne_zero _
  rw [hbulk, content, if_neg (fun hne => hne (congrArg Int.ofNat hrc))]
  dsimp only
  rw [if_neg hlineRc]
  refine ⟨rfl, ?_, hrest⟩
  show st.out ++ (put value.length [0] (put 0 (r.read value.length st.input).1 st.bulk)).take value.length
    ++ [newline] = _
  rw [hread, htake, List.append_assoc]

/-- A bulk. -/
theorem pass_bulk (h : r.Streams left) {value rest : List UInt8} (hfits : value.length < maxBulk)
    (hs : left st.input = bulkBytes value ++ rest) :
    (st.pass r).stage = st.stage ∧ (st.pass r).out = st.out ++ (value ++ [newline]) ∧
      left (st.pass r).input = rest := by
  have hbulk : maxBulk = 64 := rfl
  have hmark := length_mark_le (c := '$') (n := value.length) (by omega)
  have hsize : lineSize - 1 ≤ replyLineSize - 1 := by decide
  obtain ⟨stale, input, hinput, hpass⟩ := pass_line h (mark '$' value.length)
    (value ++ (crlf ++ rest)) (newline_notMem_mark (by decide) value.length) (by omega) (by
      rw [hs, bulkBytes]
      simp only [List.cons_append, List.append_assoc])
  have hatoi : atoi (mark '$' value.length ++ newline :: 0 :: stale).tail = value.length :=
    atoi_mark (by omega) _
  rw [hpass, reply_dollar rfl]
  exact bulkString_eq h hfits hatoi hinput

/-- One pass for each reply. -/
theorem pass_reply (h : r.Streams left) (reply : Reply) (hfits : reply.Fits) {rest : List UInt8}
    (hs : left st.input = reply.bytes ++ rest) :
    (st.pass r).stage = st.stage ∧ (st.pass r).out = st.out ++ reply.text ∧
      left (st.pass r).input = rest := by
  cases reply with
  | status text => exact pass_simple h (Or.inl rfl) hfits.1 hfits.2 hs
  | error text => exact pass_simple h (Or.inr rfl) hfits.1 hfits.2 hs
  | bulk value => exact pass_bulk h hfits hs
  | null =>
      obtain ⟨stale, input, hinput, hpass⟩ := pass_line h (bytes "$-1\r") rest (by decide) (by decide) hs
      have hatoi : atoi (bytes "$-1\r" ++ newline :: 0 :: stale).tail = -1 := rfl
      rw [hpass, reply_dollar rfl, bulkString]
      dsimp only
      rw [hatoi, if_pos (by decide)]
      exact ⟨rfl, rfl, hinput⟩

/-- The replies are printed one after another, and then the end of the stream is found. -/
theorem prints_from (h : r.Streams left) (replies : List Reply) (hfits : ∀ reply ∈ replies, reply.Fits)
    (hreading : st.stage = .reading) (hs : left st.input = replies.flatMap Reply.bytes) :
    ∃ n, (run r n st).stage = .ended ∧ (run r n st).out = st.out ++ replies.flatMap Reply.text := by
  induction replies generalizing st with
  | nil =>
      have hline : st.lineRc r = 0 := by
        rw [lineRc, (h.readline_end hs).1]
        rfl
      have hstep : st.step r = { st.readline r with stage := .ended } := by
        simp only [step, hreading]
        rw [pass, if_pos hline]
      refine ⟨1, ?_, ?_⟩
      · show (st.step r).stage = _
        rw [hstep]
      · show (st.step r).out = _
        rw [hstep]
        exact (List.append_nil _).symm
  | cons reply replies ih =>
      obtain ⟨hreply, hreplies⟩ := List.forall_mem_cons.mp hfits
      have hstep : st.step r = st.pass r := by simp only [step, hreading]
      obtain ⟨hstage, hout, hrest⟩ := pass_reply h reply hreply (hs.trans List.flatMap_cons)
      rw [← hstep] at hstage hout hrest
      obtain ⟨n, hended, hall⟩ := ih hreplies (hstage.trans hreading) hrest
      refine ⟨n + 1, by rw [run_succ]; exact hended, ?_⟩
      rw [run_succ, hall, hout, List.flatMap_cons, List.append_assoc]

end Printer

/-- `redis_client_response` prints each of the replies that come, and ends, for all replies
that fit its buffers, however they are cut, where no call looks at a newline inside of a
line, and whatever else its memory held. -/
theorem prints {E : Wire} (h : E.Quiet) (replies : List Reply)
    (hfits : ∀ reply ∈ replies, reply.Fits) (line : List UInt8) (len bulkLen : Int)
    (bulk : List UInt8) :
    ∃ n, (Printer.run E.reader n (Printer.start line len bulkLen bulk
        (0, replies.flatMap Reply.bytes))).stage = .ended ∧
      (Printer.run E.reader n (Printer.start line len bulkLen bulk
        (0, replies.flatMap Reply.bytes))).out = replies.flatMap Reply.text :=
  Printer.prints_from (Wire.streams h) replies hfits rfl rfl

/-- A key, its value, and a key that has none, a byte at a time. -/
theorem prints_bytewise :
    ∃ n, (Printer.run Wire.bytewise.reader n (Printer.start [] 0 0 []
        (0, [Reply.status okText, .bulk (bytes "v"), .null].flatMap Reply.bytes))).stage = .ended ∧
      (Printer.run Wire.bytewise.reader n (Printer.start [] 0 0 []
        (0, [Reply.status okText, .bulk (bytes "v"), .null].flatMap Reply.bytes))).out
        = bytes "OK\nv\n(nil)\n" := by
  obtain ⟨n, hended, hout⟩ := prints Wire.bytewise_quiet
    [.status okText, .bulk (bytes "v"), .null] (by
      intro reply hreply
      simp only [List.mem_cons, List.not_mem_nil, or_false] at hreply
      rcases hreply with rfl | rfl | rfl
      · exact ⟨by decide, by decide⟩
      · exact (by decide : (bytes "v").length < maxBulk)
      · trivial)
    [] 0 0 []
  exact ⟨n, hended, hout.trans (by decide +kernel)⟩

end Vk.Redis

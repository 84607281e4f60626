/-
# `Mnvkd.RedisFraming` — where one RESP command ends and the next begins

A stream of RESP arrays of bulk strings, read by `redis_request`.  Of a bulk it
reads what its slot holds, and then one line, to be rid of the rest and the line
break behind it.  So it is past the bulk only if the rest is on one line, and
fits `line`; otherwise what is left of the bulk is read as the next argument or
command.  `Fits` says that of a bulk.

And a line may not come whole, where it comes in pieces.  So every command is read from
its own array exactly when the bulks of the arrays fit and every call of `vk_readline`
is clean (`framed_iff`).
-/
import Mnvkd.Redis
import Mnvkd.Wire

namespace Vk.Redis

open Lib Text

open Vectoring (newline)

/-! ## RESP -/

def crlf : List UInt8 := ['\r'.toUInt8, newline]

/-- An array of bulk strings, no more than a query has slots. -/
structure RespArray where
  bulks : List (List UInt8)
  pos : 0 < bulks.length
  le : bulks.length ≤ maxArgs

/-- A mark and a number, up to the line break. -/
def mark (c : Char) (n : Nat) : List UInt8 := c.toUInt8 :: decimal n ++ ['\r'.toUInt8]

def bulkBytes (b : List UInt8) : List UInt8 := mark '$' b.length ++ newline :: (b ++ crlf)

def RespArray.bytes (a : RespArray) : List UInt8 :=
  mark '*' a.bulks.length ++ newline :: a.bulks.flatMap bulkBytes

def encode (arrays : List RespArray) : List UInt8 := arrays.flatMap RespArray.bytes

/-! ## What a query should say -/

/-- What a slot keeps of a bulk. -/
def kept (b : List UInt8) : List UInt8 := b.take (maxBulk - 1)

/-- What it does not. -/
def beyond (b : List UInt8) : List UInt8 := b.drop (maxBulk - 1)

/-- The command has this name. -/
def RespArray.named (a : RespArray) (name : List UInt8) : Bool :=
  strcaseeq (kept (a.bulks.headD [])) name

/-- The command closes the connection. -/
def RespArray.closes (a : RespArray) : Bool := a.named shutdownName || a.named quitName

/-- The slot holds the bulk, cut to its size. -/
def Holds (slot b : List UInt8) : Prop := kept b ++ [0] <+: slot

/-- The query is what the array says. -/
structure Decodes (a : RespArray) (q : Query) : Prop where
  argc : q.argc = a.bulks.length
  argv : ∀ (j : Fin maxArgs) b, a.bulks[j.val]? = some b → Holds (q.argv j) b
  close : q.close = a.closes
  shutdown : q.shutdown = a.named shutdownName

/-- The arrays up to the first that closes. -/
def served : List RespArray → List RespArray
  | [] => []
  | a :: arrays => a :: if a.closes then [] else served arrays

/-- The bulk's rest is on one line, and fits. -/
def Fits (b : List UInt8) : Prop :=
  newline ∉ beyond b ∧ (beyond b).length + 2 ≤ lineSize

instance (b : List UInt8) : Decidable (Fits b) := inferInstanceAs (Decidable (_ ∧ _))

/-! ## The framing -/

section Framing
variable {σ : Type}

/-- The stream from argument `i` of array `k` on. -/
def ahead (arrays : List RespArray) (k i : Nat) : List UInt8 :=
  (arrays[k]?.elim [] fun a => (a.bulks.drop i).flatMap bulkBytes) ++ encode (arrays.drop (k + 1))

/-- Bulk `i` of array `k`. -/
def bulk? (arrays : List RespArray) (k i : Nat) : Option (List UInt8) :=
  arrays[k]?.bind (·.bulks[i]?)

/-- What is left of the stream is what it should be: after `k` queries a command
begins with array `k`, and its argument `i` with that array's bulk `i`. -/
def Aligned (arrays : List RespArray) (left : σ → List UInt8) (st : State σ) : Prop :=
  match st.stage with
  | .command => left st.input = encode (arrays.drop st.sent.length)
  | .header => left st.input = ahead arrays st.sent.length st.i
  | .content => ∃ b, bulk? arrays st.sent.length st.i = some b ∧
      left st.input = b ++ crlf ++ ahead arrays st.sent.length (st.i + 1)
  | .trailer => ∃ b, bulk? arrays st.sent.length st.i = some b ∧
      left st.input = beyond b ++ crlf ++ ahead arrays st.sent.length (st.i + 1)
  | .ended => left st.input = encode (arrays.drop st.sent.length)
  | .raised _ => False

/-- The queries that are commands. -/
def State.commands (st : State σ) : List Query := st.sent.filter (·.argc != 0)

/-- The run reads every command from its own array, and writes one query for each
array, up to the first that closes; and its stores keep to their buffers. -/
structure Framed (r : Reader σ) (left : σ → List UInt8) (arrays : List RespArray)
    (st : State σ) : Prop where
  aligned : ∀ n, Aligned arrays left (State.run r n st)
  inside : ∀ n, (State.run r n st).Inside
  queries : ∃ n, (State.run r n st).stage = .ended ∧
    List.Forall₂ Decodes (served arrays) (State.run r n st).commands

/-- The step is a call of `vk_readline`. -/
def State.Calls (st : State σ) : Prop :=
  match st.stage with
  | .command => True
  | .header => (st.i : Int) < st.query.argc
  | .content => False
  | .trailer => True
  | .ended => False
  | .raised _ => False

/-- Its call comes back. -/
def State.Returns (E : Wire) (st : State Spot) : Prop :=
  st.Calls → (E.line (lineSize - 1) st.input).isSome

/-- Its call is clean. -/
def State.Clean (E : Wire) (st : State Spot) : Prop := st.Calls → E.CleanAt (lineSize - 1) st.input

/-- Its line is given whole, and the bulk it comes to fits. -/
structure State.Met (r : Reader σ) (left : σ → List UInt8) (arrays : List RespArray)
    (st : State σ) : Prop where
  whole : st.Calls → r.Whole left (lineSize - 1) st.input
  fits : st.stage = .header → ∀ b, bulk? arrays st.sent.length st.i = some b → Fits b

end Framing

/-! ## The calls -/

section Mark
variable {c : Char} {n : Nat}

theorem newline_notMem_mark (hc : c.toUInt8 ≠ newline) (n : Nat) : newline ∉ mark c n := by
  intro h
  rw [mark, List.cons_append, List.mem_cons, List.mem_append, List.mem_singleton] at h
  rcases h with h | h | h
  · exact hc h.symm
  · exact absurd (isdigit_decimal n newline h) (by decide)
  · exact absurd h (by decide)

theorem length_mark_le (hn : n < 10 ^ 9) : (mark c n).length + 1 ≤ lineSize - 1 := by
  have hlen : (decimal n).length ≤ 9 := length_decimal_le (by omega) hn
  simp only [mark, List.cons_append, List.length_cons, List.length_append, List.length_nil, lineSize]
  omega

theorem head_mark (rest : List UInt8) : (mark c n ++ rest).head? = some c.toUInt8 := rfl

theorem atoi_mark (hn : n < 10 ^ 9) (rest : List UInt8) :
    atoi (mark c n ++ rest).tail = n := by
  have htail : (mark c n ++ rest).tail = decimal n ++ '\r'.toUInt8 :: rest := by
    simp [mark]
  rw [htail]
  exact atoi_decimal (by omega) (by decide) rest

end Mark

/-! Each call begins with the line it reads. -/

theorem bytes_append (a : RespArray) (rest : List UInt8) :
    a.bytes ++ rest
      = mark '*' a.bulks.length ++ newline :: (a.bulks.flatMap bulkBytes ++ rest) := by
  rw [RespArray.bytes, List.append_assoc]
  rfl

theorem bulkBytes_append (b rest : List UInt8) :
    bulkBytes b ++ rest = mark '$' b.length ++ newline :: (b ++ (crlf ++ rest)) := by
  rw [bulkBytes, List.append_assoc, List.cons_append, List.append_assoc]

theorem beyond_append (b rest : List UInt8) :
    beyond b ++ (crlf ++ rest) = (beyond b ++ ['\r'.toUInt8]) ++ newline :: rest := by
  rw [List.append_assoc]
  rfl

theorem newline_notMem_beyond {b : List UInt8} (h : newline ∉ beyond b) :
    newline ∉ beyond b ++ ['\r'.toUInt8] := by
  rw [List.mem_append, List.mem_singleton]
  exact not_or.mpr ⟨h, by decide⟩

theorem length_of_fits {b : List UInt8} (h : Fits b) : b.length < 10 ^ 9 := by
  have hlen := h.2
  rw [beyond, List.length_drop] at hlen
  have : lineSize = 128 := rfl
  have : maxBulk = 64 := rfl
  omega

namespace State

variable {σ : Type} {r : Reader σ} {left : σ → List UInt8}

/-- A line that is given whole is in `line` afterwards. -/
theorem readline_whole (h : r.Gives left) {st : State σ}
    (hw : r.Whole left (lineSize - 1) st.input) {pre rest : List UInt8} (hpre : newline ∉ pre)
    (hs : left st.input = pre ++ newline :: rest) :
    st.lineRc r = pre.length + 1 ∧ left (st.readline r).input = rest ∧
      ∃ stale, (st.readline r).line = pre ++ newline :: stale := by
  obtain ⟨hline, hrest⟩ := h.readline_whole hw hpre hs
  refine ⟨?_, hrest, st.line.drop (pre.length + 1), ?_⟩
  · rw [lineRc, hline, List.length_append]
    rfl
  · show put 0 (r.readline (lineSize - 1) st.input).1 st.line = _
    rw [hline, put_zero, List.length_append, List.append_assoc]
    rfl

/-- No more is stored than the line. -/
theorem lineRc_le (h : r.Gives left) {st : State σ} {pre rest : List UInt8} (hpre : newline ∉ pre)
    (hs : left st.input = pre ++ newline :: rest) : st.lineRc r ≤ pre.length + 1 := by
  have hle := (h.line_first (lineSize - 1) st.input).length_le
  rwa [hs, Reader.firstLine_line hpre, List.length_append] at hle

/-- The line of an array is read as its count. -/
theorem command_array (h : r.Gives left) {st : State σ}
    (hw : r.Whole left (lineSize - 1) st.input) {a : RespArray} {rest : List UInt8}
    (hs : left st.input = a.bytes ++ rest) :
    (st.command r).stage = .header ∧ (st.command r).i = 0 ∧
      (st.command r).query.argc = a.bulks.length ∧ (st.command r).sent = st.sent ∧
      left (st.command r).input = a.bulks.flatMap bulkBytes ++ rest := by
  have hle := a.le
  have hn : a.bulks.length < 10 ^ 9 := Nat.lt_of_le_of_lt hle (by decide)
  have hw' : r.Whole left (lineSize - 1) st.reopen.input := hw
  obtain ⟨hrc, hleft, stale, hline⟩ := readline_whole h hw' (newline_notMem_mark (by decide) _)
    (hs.trans (bytes_append a rest))
  have hrc' : st.lineRc r = (mark '*' a.bulks.length).length + 1 := hrc
  -- the NUL goes behind the line
  have hended : ((st.reopen.readline r).endLine (st.lineRc r)).line
      = mark '*' a.bulks.length ++ newline :: 0 :: stale.drop 1 := by
    show put (st.lineRc r) [0] (st.reopen.readline r).line = _
    rw [hrc', hline, put_behind]
  have hcommand : st.command r
      = { (st.reopen.readline r).endLine (st.lineRc r) with
          query := { st.reopen.query with argc := a.bulks.length }, i := 0, stage := .header } := by
    have hpos := a.pos
    simp only [command]
    rw [if_neg (by omega)]
    simp only [count]
    rw [hended, if_neg (by rw [head_mark]; simp), atoi_mark hn]
    simp only [checkCount]
    rw [if_neg (by omega)]
    rfl
  rw [hcommand]
  exact ⟨rfl, rfl, rfl, rfl, hleft⟩

/-- The line of a bulk is read as its length, or the slot's. -/
theorem header_bulk (h : r.Gives left) {st : State σ}
    (hw : r.Whole left (lineSize - 1) st.input) {b rest : List UInt8} (hb : b.length < 10 ^ 9)
    (hs : left st.input = bulkBytes b ++ rest) :
    (st.header r).stage = .content ∧ (st.header r).len = (kept b).length ∧
      (st.header r).i = st.i ∧ (st.header r).query = st.query ∧ (st.header r).sent = st.sent ∧
      left (st.header r).input = b ++ (crlf ++ rest) := by
  obtain ⟨hrc, hleft, stale, hline⟩ := readline_whole h hw (newline_notMem_mark (by decide) _)
    (hs.trans (bulkBytes_append b rest))
  have hlen : clamp (atoi (st.readline r).line.tail) = (kept b).length := by
    rw [hline, atoi_mark hb, clamp, kept, List.length_take]
    split
    next hge =>
      have : maxBulk - 1 ≤ b.length := by omega
      rw [Nat.min_eq_left this]
      rfl
    next hlt =>
      have : b.length ≤ maxBulk - 1 := by
        have : (maxBulk : Int) = 64 := rfl
        have : maxBulk = 64 := rfl
        omega
      rw [Nat.min_eq_right this]
  have hheader : st.header r
      = { st.readline r with len := (kept b).length, stage := .content } := by
    simp only [header]
    rw [if_neg, hlen]
    rw [hline, head_mark]
    exact not_or.mpr ⟨by omega, by simp⟩
  rw [hheader]
  exact ⟨rfl, rfl, rfl, rfl, rfl, hleft⟩

/-- The slot is filled. -/
theorem content_bulk (h : r.Gives left) {st : State σ} {b rest : List UInt8}
    (hlen : st.len = (kept b).length) (hs : left st.input = b ++ rest) :
    (st.content r).stage = .trailer ∧ (st.content r).i = st.i ∧
      (st.content r).query.argc = st.query.argc ∧ (st.content r).sent = st.sent ∧
      (∀ j : Fin maxArgs, j.val ≠ st.i → (st.content r).query.argv j = st.query.argv j) ∧
      (∀ j : Fin maxArgs, j.val = st.i → Holds ((st.content r).query.argv j) b) ∧
      left (st.content r).input = beyond b ++ rest := by
  have hkept : (kept b).length ≤ maxBulk - 1 := by
    rw [kept, List.length_take]
    exact Nat.min_le_left _ _
  have hread : st.readLen = (kept b).length := by
    have h64 : maxBulk - 1 < 2 ^ 64 := by decide
    rw [readLen, hlen, Int.emod_eq_of_lt (by omega) (by omega)]
    rfl
  have hsplit : left st.input = kept b ++ (beyond b ++ rest) := by
    rw [hs, ← List.append_assoc, kept, beyond, List.take_append_drop]
  obtain ⟨hgot, hleft⟩ := h.read_append hsplit
  rw [← hread] at hgot hleft
  have hrc : st.argRc r = (kept b).length := by rw [argRc, hgot]
  have hcontent : st.content r = { (st.readArg r).endArg with stage := .trailer } := by
    simp only [content]
    rw [if_neg (by rw [hrc, hlen]; simp)]
  rw [hcontent]
  refine ⟨rfl, rfl, rfl, rfl, fun j hj => ?_, fun j hj => ?_, hleft⟩
  · simp only [endArg, readArg, Query.putArg, if_neg hj]
  · simp only [endArg, readArg, Query.putArg, if_pos hj, hgot, hlen, Int.toNat_natCast, put_zero]
    rw [put, List.take_left]
    exact List.prefix_append _ _

/-- The line behind a slot's bytes, where the rest is on one line. -/
theorem trailer_bulk (h : r.Gives left) {st : State σ}
    (hw : r.Whole left (lineSize - 1) st.input) {b rest : List UInt8} (hb : Fits b)
    (hs : left st.input = beyond b ++ (crlf ++ rest)) :
    (st.trailer r).stage = .header ∧ (st.trailer r).i = st.i + 1 ∧
      (st.trailer r).query = st.query ∧ (st.trailer r).sent = st.sent ∧
      left (st.trailer r).input = rest := by
  obtain ⟨hrc, hleft, -⟩ := readline_whole h hw (newline_notMem_beyond hb.1)
    (hs.trans (beyond_append b rest))
  have htrailer : st.trailer r = { st.readline r with i := st.i + 1, stage := .header } := by
    simp only [trailer]
    rw [if_neg (by omega)]
  rw [htrailer]
  exact ⟨rfl, rfl, rfl, rfl, hleft⟩

/-- The query of a command whose slots are filled. -/
theorem decodes_flag {a : RespArray} {q : Query} (hargc : q.argc = a.bulks.length)
    (hslots : ∀ (j : Fin maxArgs) b, a.bulks[j.val]? = some b → Holds (q.argv j) b) :
    Decodes a q.flag := by
  have hname : ∀ name, strcaseeq (q.argv ⟨0, by decide⟩) name = a.named name := fun name => by
    obtain ⟨b, bulks, hbulks⟩ := List.exists_cons_of_ne_nil (List.ne_nil_of_length_pos a.pos)
    have hslot := hslots ⟨0, by decide⟩ b (by rw [hbulks]; rfl)
    rw [RespArray.named, hbulks, strcaseeq, strcaseeq, strcasecmp, strcasecmp,
      cstring_of_isPrefix hslot]
    rfl
  refine ⟨hargc, hslots, ?_, hname _⟩
  show (strcaseeq _ _ || strcaseeq _ _) = (_ || _)
  rw [hname, hname]

end State

/-! ## The invariant -/

section Invariant
variable {σ : Type}

/-- The commands read so far. -/
structure Done (arrays done rest : List RespArray) (st : State σ) : Prop where
  split : arrays = done ++ rest
  served : Redis.served arrays = done ++ Redis.served rest
  sent : List.Forall₂ Decodes done st.sent
  fits : ∀ a ∈ done, ∀ b ∈ a.bulks, Fits b

/-- The arguments of the command being read. -/
structure Filled (a : RespArray) (filled todo : List (List UInt8)) (st : State σ) : Prop where
  bulks : a.bulks = filled ++ todo
  i : st.i = filled.length
  argc : st.query.argc = a.bulks.length
  slots : ∀ (j : Fin maxArgs) b, filled[j.val]? = some b → Holds (st.query.argv j) b
  fits : ∀ b ∈ filled, Fits b

/-- The run is over, with a query for each array that was to be served. -/
structure Over (arrays : List RespArray) (left : σ → List UInt8) (st : State σ) : Prop where
  commands : List.Forall₂ Decodes (served arrays) st.commands
  fits : ∀ a ∈ served arrays, ∀ b ∈ a.bulks, Fits b
  left : left st.input = encode (arrays.drop st.sent.length)

/-- Every bulk read so far fits, and was read where it stands. -/
def Inv (arrays : List RespArray) (left : σ → List UInt8) (st : State σ) : Prop :=
  match st.stage with
  | .command => ∃ done rest, Done arrays done rest st ∧ left st.input = encode rest
  | .header => ∃ done a rest filled todo, Done arrays done (a :: rest) st ∧
      Filled a filled todo st ∧ left st.input = todo.flatMap bulkBytes ++ encode rest
  | .content => ∃ done a rest filled b todo, Done arrays done (a :: rest) st ∧
      Filled a filled (b :: todo) st ∧ Fits b ∧ st.len = (kept b).length ∧
      left st.input = b ++ (crlf ++ (todo.flatMap bulkBytes ++ encode rest))
  | .trailer => ∃ done a rest filled b todo, Done arrays done (a :: rest) st ∧
      Filled a filled (b :: todo) st ∧ Fits b ∧
      (∀ j : Fin maxArgs, j.val = st.i → Holds (st.query.argv j) b) ∧
      left st.input = beyond b ++ (crlf ++ (todo.flatMap bulkBytes ++ encode rest))
  | .ended => Over arrays left st
  | .raised _ => False

theorem Done.congr {arrays done rest : List RespArray} {st st' : State σ}
    (h : Done arrays done rest st) (hsent : st'.sent = st.sent) : Done arrays done rest st' :=
  ⟨h.split, h.served, by rw [hsent]; exact h.sent, h.fits⟩

theorem Done.length {arrays done rest : List RespArray} {st : State σ}
    (h : Done arrays done rest st) : st.sent.length = done.length := h.sent.length_eq.symm

theorem Done.drop {arrays done rest : List RespArray} {st : State σ}
    (h : Done arrays done rest st) : arrays.drop st.sent.length = rest := by
  rw [h.length, h.split, List.drop_left]

theorem Done.getElem {arrays done rest : List RespArray} {a : RespArray} {st : State σ}
    (h : Done arrays done (a :: rest) st) : arrays[st.sent.length]? = some a := by
  rw [h.length, h.split, List.getElem?_append_right (Nat.le_refl _), Nat.sub_self]
  rfl

theorem Done.ahead {arrays done rest : List RespArray} {a : RespArray} {st : State σ}
    (h : Done arrays done (a :: rest) st) (i : Nat) :
    ahead arrays st.sent.length i = (a.bulks.drop i).flatMap bulkBytes ++ encode rest := by
  have hrest : arrays.drop (st.sent.length + 1) = rest := by
    rw [← List.drop_drop, h.drop]
    rfl
  rw [Redis.ahead, h.getElem, hrest]
  rfl

theorem Filled.drop {a : RespArray} {filled todo : List (List UInt8)} {st : State σ}
    (h : Filled a filled todo st) : a.bulks.drop st.i = todo := by
  rw [h.bulks, h.i, List.drop_left]

/-- The loop over the arguments goes on while there is one to read. -/
theorem Filled.lt_iff {a : RespArray} {filled todo : List (List UInt8)} {st : State σ}
    (h : Filled a filled todo st) : (st.i : Int) < st.query.argc ↔ todo ≠ [] := by
  rw [h.argc, h.i, h.bulks, List.length_append, ← List.length_pos_iff]
  omega

theorem Filled.drop_succ {a : RespArray} {filled todo : List (List UInt8)} {b : List UInt8}
    {st : State σ} (h : Filled a filled (b :: todo) st) : a.bulks.drop (st.i + 1) = todo := by
  rw [← List.drop_drop, h.drop]
  rfl

theorem Filled.getElem {a : RespArray} {filled todo : List (List UInt8)} {b : List UInt8}
    {st : State σ} (h : Filled a filled (b :: todo) st) : a.bulks[st.i]? = some b := by
  rw [h.bulks, h.i, List.getElem?_append_right (Nat.le_refl _), Nat.sub_self]
  rfl

theorem bulk?_eq {arrays done rest : List RespArray} {a : RespArray}
    {filled todo : List (List UInt8)} {b : List UInt8} {st : State σ}
    (hd : Done arrays done (a :: rest) st) (hf : Filled a filled (b :: todo) st) :
    bulk? arrays st.sent.length st.i = some b := by
  rw [bulk?, hd.getElem]
  exact hf.getElem

/-- The invariant says where the stream is. -/
theorem Inv.aligned {arrays : List RespArray} {left : σ → List UInt8} {st : State σ}
    (h : Inv arrays left st) : Aligned arrays left st := by
  cases hs : st.stage with
  | command =>
      simp only [Inv, hs] at h
      obtain ⟨done, rest, hd, hleft⟩ := h
      simp only [Aligned, hs, hd.drop]
      exact hleft
  | header =>
      simp only [Inv, hs] at h
      obtain ⟨done, a, rest, filled, todo, hd, hf, hleft⟩ := h
      simp only [Aligned, hs, hd.ahead, hf.drop]
      exact hleft
  | content =>
      simp only [Inv, hs] at h
      obtain ⟨done, a, rest, filled, b, todo, hd, hf, -, -, hleft⟩ := h
      simp only [Aligned, hs, hd.ahead, hf.drop_succ]
      exact ⟨b, bulk?_eq hd hf, by rw [hleft, List.append_assoc]⟩
  | trailer =>
      simp only [Inv, hs] at h
      obtain ⟨done, a, rest, filled, b, todo, hd, hf, -, -, hleft⟩ := h
      simp only [Aligned, hs, hd.ahead, hf.drop_succ]
      exact ⟨b, bulk?_eq hd hf, by rw [hleft, List.append_assoc]⟩
  | ended =>
      simp only [Inv, hs] at h
      simp only [Aligned, hs]
      exact h.left
  | raised e =>
      simp only [Inv, hs] at h

/-! ## A step keeps it -/

theorem served_cons (a : RespArray) (rest : List RespArray) :
    served (a :: rest) = a :: if a.closes then [] else served rest := rfl

theorem bytes_ne_nil (a : RespArray) : a.bytes ≠ [] := by
  simp [RespArray.bytes, mark]

theorem encode_cons (a : RespArray) (rest : List RespArray) :
    encode (a :: rest) = a.bytes ++ encode rest := rfl

theorem encode_eq_nil {rest : List RespArray} (h : encode rest = []) : rest = [] := by
  cases rest with
  | nil => rfl
  | cons a rest =>
      rw [encode_cons, List.append_eq_nil_iff] at h
      exact absurd h.1 (bytes_ne_nil a)

/-- The queries that were sent for arrays are all commands. -/
theorem filter_of_decodes {arrays : List RespArray} {queries : List Query}
    (h : List.Forall₂ Decodes arrays queries) :
    queries.filter (·.argc != 0) = queries := by
  induction h with
  | nil => rfl
  | @cons a q _ _ hq _ ih =>
      have hargc : (q.argc != 0) = true := by
        have hpos := a.pos
        rw [hq.argc, bne_iff_ne]
        omega
      rw [List.filter_cons, if_pos hargc, ih]

/-- Over the whole run, each step shrinks this: what is left of the stream, and
where the machine stands. -/
def weight (left : σ → List UInt8) (st : State σ) : Nat :=
  4 * (left st.input).length +
    match st.stage with
    | .command => 1
    | .header => 2
    | .content => 2
    | .trailer => 1
    | .ended => 0
    | .raised _ => 0

/-- The invariant after a step that shrinks the weight. -/
def Advances (arrays : List RespArray) (left : σ → List UInt8) (st st' : State σ) : Prop :=
  Inv arrays left st' ∧ weight left st' < weight left st

/-- The stream has ended, and every array has its query. -/
theorem Done.over {left : σ → List UInt8} {arrays done : List RespArray} {st : State σ}
    (hd : Done arrays done [] st)
    (hend : left st.input = []) : Over arrays left st.finish := by
  have hcommands : st.finish.commands = st.sent := by
    show (st.sent ++ [Query.ended]).filter _ = _
    rw [List.filter_append, filter_of_decodes hd.sent]
    exact List.append_nil _
  have hserved : Redis.served arrays = done := by rw [hd.served]; exact List.append_nil _
  refine ⟨by rw [hcommands, hserved]; exact hd.sent, by rw [hserved]; exact hd.fits, ?_⟩
  have hdrop : arrays.drop st.finish.sent.length = [] := by
    show arrays.drop (st.sent ++ [Query.ended]).length = []
    rw [List.length_append, ← List.drop_drop, hd.drop]
    rfl
  rw [hdrop]
  exact hend

section Steps
variable {r : Reader σ} {left : σ → List UInt8} (h : r.Gives left) {arrays : List RespArray}
  {st : State σ}
include h

theorem Inv.command (hw : r.Whole left (lineSize - 1) st.input) (hs : st.stage = .command)
    (hinv : Inv arrays left st) : Advances arrays left st (st.command r) := by
  simp only [Inv, hs] at hinv
  obtain ⟨done, rest, hd, hleft⟩ := hinv
  have hweight : weight left st = 4 * (encode rest).length + 1 := by
    simp only [weight, hs, hleft]
  cases rest with
  | nil =>
      -- the stream is at its end, and so is the loop
      obtain ⟨hline, hend⟩ := h.readline_end (n := lineSize - 1) (s := st.input) hleft
      have hrc : st.lineRc r = 0 := by rw [State.lineRc, hline]; rfl
      have hcommand : st.command r = (st.reopen.readline r).finish := by
        simp only [State.command]
        rw [if_pos hrc]
      have hover : Over arrays left (st.reopen.readline r).finish :=
        Done.over (hd.congr rfl) hend
      rw [hcommand]
      refine ⟨hover, ?_⟩
      have hzero : weight left (st.reopen.readline r).finish = 4 * ([] : List UInt8).length :=
        congrArg (fun bs => 4 * bs.length) hend
      rw [hzero, hweight]
      exact Nat.lt_succ_of_le (Nat.mul_le_mul_left 4 (Nat.zero_le _))
  | cons a rest =>
      obtain ⟨hstage, hi, hargc, hsent, hrest⟩ :=
        State.command_array h hw (hleft.trans (encode_cons a rest))
      refine ⟨?_, ?_⟩
      · simp only [Inv, hstage]
        refine ⟨done, a, rest, [], a.bulks, hd.congr hsent, ⟨rfl, hi, hargc, ?_, ?_⟩, hrest⟩
        · intro j b hb
          cases hb
        · intro b hb
          cases hb
      · have hlen : (encode (a :: rest)).length
            = ((mark '*' a.bulks.length).length + ((a.bulks.flatMap bulkBytes).length + 1))
              + (encode rest).length := by
          rw [encode_cons, List.length_append, RespArray.bytes, List.length_append,
            List.length_cons]
        rw [hweight, hlen]
        simp only [weight, hstage, hrest, List.length_append]
        omega

theorem Inv.emit (hs : st.stage = .header) {done rest : List RespArray} {a : RespArray}
    {filled : List (List UInt8)} (hd : Done arrays done (a :: rest) st) (hf : Filled a filled [] st)
    (hleft : left st.input = encode rest) : Advances arrays left st (st.emit r) := by
  have hweight : weight left st = 4 * (encode rest).length + 2 := by
    simp only [weight, hs, hleft]
  have hbulks : a.bulks = filled := by rw [hf.bulks, List.append_nil]
  have hdecodes : Decodes a st.query.flag := State.decodes_flag hf.argc (hbulks ▸ hf.slots)
  have hsent : List.Forall₂ Decodes (done ++ [a]) (st.sent ++ [st.query.flag]) :=
    List.rel_append hd.sent (List.Forall₂.cons hdecodes List.Forall₂.nil)
  have hfits : ∀ a' ∈ done ++ [a], ∀ b ∈ a'.bulks, Fits b := by
    rw [State.forall_mem_append_singleton]
    exact ⟨hd.fits, hbulks ▸ hf.fits⟩
  have hserved := hd.served
  rw [served_cons] at hserved
  have hdrop : arrays.drop (st.sent ++ [st.query.flag]).length = rest := by
    rw [List.length_append, ← List.drop_drop, hd.drop]
    rfl
  simp only [State.emit]
  split
  next hclose =>
    -- the command closes: no array after it is served
    rw [if_pos (hdecodes.close ▸ hclose)] at hserved
    refine ⟨⟨?_, by rw [hserved]; exact hfits, ?_⟩, ?_⟩
    · rw [hserved]
      show List.Forall₂ Decodes _ ((st.sent ++ [st.query.flag]).filter _)
      rw [filter_of_decodes hsent]
      exact hsent
    · show left st.input = encode (arrays.drop (st.sent ++ [st.query.flag]).length)
      rw [hdrop]
      exact hleft
    · rw [hweight]
      show 4 * (left st.input).length + 0 < _
      rw [hleft]
      omega
  next hclose =>
    rw [if_neg (hdecodes.close ▸ hclose)] at hserved
    have hd' : Done arrays (done ++ [a]) rest
        ({ st with query := st.query.flag, stage := .command } : State σ).send :=
      ⟨by rw [hd.split, List.append_assoc]; rfl, by rw [hserved, List.append_assoc]; rfl, hsent,
        hfits⟩
    split
    next hnodata =>
      have hend : left st.input = [] := h.nodata st.input hnodata
      have hrest : rest = [] := encode_eq_nil (hleft ▸ hend)
      subst hrest
      refine ⟨Done.over (hd'.congr rfl) hend, ?_⟩
      rw [hweight]
      show 4 * (left st.input).length + 0 < _
      rw [hleft]
      omega
    next =>
      refine ⟨⟨done ++ [a], rest, hd', hleft⟩, ?_⟩
      rw [hweight]
      show 4 * (left st.input).length + 1 < _
      rw [hleft]
      omega

theorem Inv.header (hw : r.Whole left (lineSize - 1) st.input) (hs : st.stage = .header)
    {done rest : List RespArray} {a : RespArray} {filled todo : List (List UInt8)}
    {b : List UInt8} (hd : Done arrays done (a :: rest) st)
    (hf : Filled a filled (b :: todo) st) (hfit : Fits b)
    (hleft : left st.input = (b :: todo).flatMap bulkBytes ++ encode rest) :
    Advances arrays left st (st.header r) := by
  have hstream : left st.input = bulkBytes b ++ (todo.flatMap bulkBytes ++ encode rest) := by
    rw [hleft, List.flatMap_cons, List.append_assoc]
  obtain ⟨hstage, hlen, hi, hquery, hsent, hrest⟩ :=
    State.header_bulk h hw (length_of_fits hfit) hstream
  refine ⟨?_, ?_⟩
  · simp only [Inv, hstage]
    exact ⟨done, a, rest, filled, b, todo, hd.congr hsent,
      ⟨hf.bulks, hi.trans hf.i, hquery ▸ hf.argc, hquery ▸ hf.slots, hf.fits⟩, hfit, hlen, hrest⟩
  · simp only [weight, hs, hstage, hrest, hstream, bulkBytes, mark, List.length_append,
      List.length_cons]
    omega

theorem Inv.content (hs : st.stage = .content) (hinv : Inv arrays left st) :
    Advances arrays left st (st.content r) := by
  simp only [Inv, hs] at hinv
  obtain ⟨done, a, rest, filled, b, todo, hd, hf, hfit, hlen, hleft⟩ := hinv
  obtain ⟨hstage, hi, hargc, hsent, hother, hslot, hrest⟩ := State.content_bulk h hlen hleft
  refine ⟨?_, ?_⟩
  · simp only [Inv, hstage]
    refine ⟨done, a, rest, filled, b, todo, hd.congr hsent,
      ⟨hf.bulks, hi.trans hf.i, hargc.trans hf.argc, fun j b' hb' => ?_, hf.fits⟩, hfit,
      fun j hj => hslot j (hj.trans hi), hrest⟩
    -- the slots before it are as they were
    have hlt : j.val < filled.length := List.getElem?_eq_some_iff.mp hb' |>.1
    rw [hother j (by rw [hf.i]; omega)]
    exact hf.slots j b' hb'
  · simp only [weight, hs, hstage, hrest, hleft, beyond, List.length_append, List.length_drop]
    omega

theorem Inv.trailer (hw : r.Whole left (lineSize - 1) st.input) (hs : st.stage = .trailer)
    (hinv : Inv arrays left st) : Advances arrays left st (st.trailer r) := by
  simp only [Inv, hs] at hinv
  obtain ⟨done, a, rest, filled, b, todo, hd, hf, hfit, hslot, hleft⟩ := hinv
  obtain ⟨hstage, hi, hquery, hsent, hrest⟩ := State.trailer_bulk h hw hfit hleft
  refine ⟨?_, ?_⟩
  · simp only [Inv, hstage]
    refine ⟨done, a, rest, filled ++ [b], todo, hd.congr hsent,
      ⟨by rw [hf.bulks, List.append_assoc]; rfl, ?_, hquery ▸ hf.argc, fun j b' hb' => ?_, ?_⟩,
      hrest⟩
    · rw [hi, hf.i, List.length_append]
      rfl
    · rw [hquery]
      rw [List.getElem?_append] at hb'
      split at hb'
      next => exact hf.slots j b' hb'
      next hge =>
        rw [List.getElem?_singleton] at hb'
        split at hb'
        next hj =>
          cases hb'
          exact hslot j (by rw [hf.i]; omega)
        next => cases hb'
    · rw [State.forall_mem_append_singleton]
      exact ⟨hf.fits, hfit⟩
  · simp only [weight, hs, hstage, hrest, hleft, crlf, List.length_append, List.length_cons]
    omega

/-- A step keeps the invariant and shrinks the weight, if its line is given whole and the
bulk it comes to fits. -/
theorem Inv.step (hinv : Inv arrays left st) (hs : st.stage ≠ .ended)
    (hmet : st.Met r left arrays) : Advances arrays left st (st.step r) := by
  cases hstage : st.stage with
  | command =>
      simp only [State.step, hstage]
      exact Inv.command h (hmet.whole (by simp only [State.Calls, hstage])) hstage hinv
  | header =>
      simp only [Inv, hstage] at hinv
      obtain ⟨done, a, rest, filled, todo, hd, hf, hleft⟩ := hinv
      simp only [State.step, hstage]
      cases todo with
      | nil =>
          rw [if_neg fun hi => hf.lt_iff.mp hi rfl]
          exact Inv.emit h hstage hd hf hleft
      | cons b todo =>
          have hi : (st.i : Int) < st.query.argc := hf.lt_iff.mpr (List.cons_ne_nil b todo)
          rw [if_pos hi]
          exact Inv.header h (hmet.whole (by simpa only [State.Calls, hstage] using hi)) hstage hd hf
            (hmet.fits hstage b (bulk?_eq hd hf)) hleft
  | content =>
      simp only [State.step, hstage]
      exact Inv.content h hstage hinv
  | trailer =>
      simp only [State.step, hstage]
      exact Inv.trailer h (hmet.whole (by simp only [State.Calls, hstage])) hstage hinv
  | ended => exact absurd hstage hs
  | raised e => simp only [Inv, hstage] at hinv

omit h in
/-- An array whose bulks are read is one to be served. -/
theorem Done.next {done rest : List RespArray} {a : RespArray}
    (hd : Done arrays done (a :: rest) st) : a ∈ Redis.served arrays := by
  rw [hd.served, served_cons]
  exact List.mem_append_right _ List.mem_cons_self

omit h in
/-- What is left at a call begins with a line, but for the end of the stream.  Only behind
a slot's bytes can that be a long one. -/
theorem Inv.line (hinv : Inv arrays left st) (hcalls : st.Calls)
    (hfit : st.stage = .header → ∀ b, bulk? arrays st.sent.length st.i = some b → Fits b) :
    left st.input = [] ∨ ∃ pre rest, left st.input = pre ++ newline :: rest ∧ newline ∉ pre ∧
      (pre.length + 1 ≤ lineSize - 1 ∨ st.stage = .trailer ∧ ∃ a ∈ served arrays, ∃ b ∈ a.bulks,
        Fits b ∧ pre = beyond b ++ ['\r'.toUInt8]) := by
  cases hs : st.stage with
  | command =>
      simp only [Inv, hs] at hinv
      obtain ⟨done, rest, -, hleft⟩ := hinv
      cases rest with
      | nil => exact Or.inl hleft
      | cons a rest =>
          have ha : a.bulks.length < 10 ^ 9 := Nat.lt_of_le_of_lt a.le (by decide)
          exact Or.inr ⟨_, _, hleft.trans (bytes_append a _), newline_notMem_mark (by decide) _,
            Or.inl (length_mark_le ha)⟩
  | header =>
      simp only [Inv, hs] at hinv
      simp only [State.Calls, hs] at hcalls
      obtain ⟨done, a, rest, filled, todo, hd, hf, hleft⟩ := hinv
      cases todo with
      | nil => exact absurd rfl (hf.lt_iff.mp hcalls)
      | cons b todo =>
          rw [List.flatMap_cons, List.append_assoc] at hleft
          have hb := length_of_fits (hfit hs b (bulk?_eq hd hf))
          exact Or.inr ⟨_, _, hleft.trans (bulkBytes_append b _), newline_notMem_mark (by decide) _,
            Or.inl (length_mark_le hb)⟩
  | trailer =>
      simp only [Inv, hs] at hinv
      obtain ⟨done, a, rest, filled, b, todo, hd, hf, hfits, -, hleft⟩ := hinv
      exact Or.inr ⟨_, _, hleft.trans (beyond_append b _), newline_notMem_beyond hfits.1,
        Or.inr ⟨rfl, a, hd.next, b, List.mem_of_getElem? hf.getElem, hfits, rfl⟩⟩
  | content => simp only [State.Calls, hs] at hcalls
  | ended => simp only [State.Calls, hs] at hcalls
  | raised e => simp only [State.Calls, hs] at hcalls

/-- What a call stores keeps to `line`, with a NUL behind it where there is one. -/
theorem Inv.lineRc_le (hinv : Inv arrays left st) (hcalls : st.Calls)
    (hfit : st.stage = .header → ∀ b, bulk? arrays st.sent.length st.i = some b → Fits b) :
    st.lineRc r ≤ lineSize ∧ (st.stage ≠ .trailer → st.lineRc r < lineSize) := by
  have hsize : lineSize = 128 := rfl
  obtain hnil | ⟨pre, rest, hleft, hpre, hlen⟩ := hinv.line hcalls hfit
  · have hnone : (r.readline (lineSize - 1) st.input).1 = [] := (h.readline_end hnil).1
    rw [State.lineRc, hnone]
    exact ⟨Nat.zero_le _, fun _ => by decide⟩
  · have hle := State.lineRc_le h hpre hleft
    rcases hlen with hlen | ⟨hs, -, -, b, -, hb, rfl⟩
    · exact ⟨by omega, fun _ => by omega⟩
    · have hlong := hb.2
      rw [List.length_append, List.length_singleton] at hle
      exact ⟨by omega, fun hne => absurd hs hne⟩

/-- The stores of a step keep to their buffers. -/
theorem Inv.careful (hinv : Inv arrays left st)
    (hfit : st.stage = .header → ∀ b, bulk? arrays st.sent.length st.i = some b → Fits b) :
    st.Careful r := by
  have hline := fun hcalls => hinv.lineRc_le h hcalls hfit
  cases hs : st.stage with
  | command =>
      simp only [State.Calls, hs] at hline
      simp only [State.Careful, hs]
      exact (hline trivial).2 (by simp)
  | header =>
      simp only [State.Calls, hs] at hline
      simp only [State.Careful, hs]
      exact fun hi => (hline hi).1
  | content =>
      simp only [Inv, hs] at hinv
      simp only [State.Careful, hs]
      obtain ⟨done, a, rest, filled, b, todo, -, -, -, hlen, -⟩ := hinv
      intro hneg
      rw [hlen] at hneg
      omega
  | trailer =>
      simp only [State.Calls, hs] at hline
      simp only [State.Careful, hs]
      exact (hline trivial).1
  | ended => simp only [State.Careful, hs]
  | raised e => simp only [State.Careful, hs]

end Steps

/-! ## Runs -/

section Runs
variable {r : Reader σ} {left : σ → List UInt8} (h : r.Gives left) {arrays : List RespArray}
  {st : State σ}

/-- Wherever the invariant holds along the run, the step is met. -/
def MetAhead (r : Reader σ) (left : σ → List UInt8) (arrays : List RespArray)
    (st : State σ) : Prop :=
  ∀ n, Inv arrays left (State.run r n st) → (State.run r n st).Met r left arrays

theorem inv_start {input : σ} (hleft : left input = encode arrays) (query : Query)
    (line : List UInt8) : Inv arrays left (State.start query line input) := by
  refine ⟨[], arrays, ⟨rfl, rfl, List.Forall₂.nil, ?_⟩, hleft⟩
  intro a ha
  cases ha

include h in
/-- While every step is met, the invariant holds. -/
theorem inv_run (hinv : Inv arrays left st) (hmet : MetAhead r left arrays st) (n : Nat) :
    Inv arrays left (State.run r n st) := by
  induction n with
  | zero => exact hinv
  | succ n ih =>
      rw [State.run_succ]
      by_cases hs : (State.run r n st).stage = .ended
      · simpa only [State.step, hs] using ih
      · exact (Inv.step h ih hs (hmet n ih)).1

include h in
/-- And the run comes to its end. -/
theorem ends (hinv : Inv arrays left st) (hmet : MetAhead r left arrays st) :
    ∃ n, (State.run r n st).stage = .ended := by
  -- the weight cannot go down for ever
  have hdown : ∀ m n, weight left (State.run r n st) ≤ m →
      ∃ k, (State.run r k st).stage = .ended := by
    intro m
    induction m with
    | zero =>
        intro n hn
        refine ⟨n, by_contra fun hs => ?_⟩
        have hi := inv_run h hinv hmet n
        have := (Inv.step h hi hs (hmet n hi)).2
        omega
    | succ m ih =>
        intro n hn
        by_cases hs : (State.run r n st).stage = .ended
        · exact ⟨n, hs⟩
        · have hi := inv_run h hinv hmet n
          have := (Inv.step h hi hs (hmet n hi)).2
          refine ih (n + 1) ?_
          rw [State.run_succ]
          omega
  exact hdown _ 0 (Nat.le_refl _)

/-- The bulks the run comes to are those of the arrays to be served. -/
theorem Inv.mem_served (hinv : Inv arrays left st) (hs : st.stage = .header) {b : List UInt8}
    (hb : bulk? arrays st.sent.length st.i = some b) : ∃ a ∈ served arrays, b ∈ a.bulks := by
  simp only [Inv, hs] at hinv
  obtain ⟨done, a, rest, filled, todo, hd, -, -⟩ := hinv
  rw [bulk?, hd.getElem] at hb
  exact ⟨a, hd.next, List.mem_of_getElem? hb⟩

include h in
/-- Where every step is met, every command is read from its own array. -/
theorem framed_of_met {input : σ} (hleft : left input = encode arrays) (query : Query)
    (line : List UInt8) (hmet : MetAhead r left arrays (State.start query line input)) :
    Framed r left arrays (State.start query line input) := by
  have hinv := inv_run h (inv_start hleft query line) hmet
  obtain ⟨n, hn⟩ := ends h (inv_start hleft query line) hmet
  have hover := hinv n
  simp only [Inv, hn] at hover
  exact ⟨fun n => (hinv n).aligned,
    (State.stores_inside_iff r query line input).mpr fun n =>
      (hinv n).careful h (hmet n (hinv n)).fits,
    n, hn, hover.commands⟩

/-- Where lines that fit are given whole, bulks that fit their slots are met. -/
theorem framed_of_slots (h : r.Streams left) {input : σ} (hleft : left input = encode arrays)
    (query : Query) (line : List UInt8)
    (hslots : ∀ a ∈ served arrays, ∀ b ∈ a.bulks, b.length ≤ maxBulk - 1) :
    Framed r left arrays (State.start query line input) := by
  have hfit : ∀ {a : RespArray} {b : List UInt8}, a ∈ served arrays → b ∈ a.bulks →
      beyond b = [] := fun ha hb => List.drop_eq_nil_of_le (hslots _ ha _ hb)
  refine framed_of_met h.toGives hleft query line fun n hinv => ?_
  generalize State.run r n (State.start query line input) = st at hinv ⊢
  have hfits : st.stage = .header → ∀ b, bulk? arrays st.sent.length st.i = some b → Fits b := by
    intro hs b hb
    obtain ⟨a, ha, hmem⟩ := hinv.mem_served hs hb
    rw [Fits, hfit ha hmem]
    exact ⟨List.not_mem_nil, by decide⟩
  refine ⟨fun hcalls => h.whole _ _ ?_, hfits⟩
  obtain hnil | ⟨pre, rest, hstream, hpre, hlen⟩ := hinv.line hcalls hfits
  · rw [hnil]
    exact Nat.zero_le _
  · rw [hstream, Reader.firstLine_line hpre, List.length_append]
    rcases hlen with hlen | ⟨-, a, ha, b, hb, -, rfl⟩
    · exact hlen
    · rw [hfit ha hb]
      decide

end Runs

end Invariant

/-! ## Where the bulks do not fit -/

namespace State

variable {σ : Type}

theorem command_cases (r : Reader σ) (st : State σ) :
    (∃ e, (st.command r).stage = .raised e) ∨
      ((st.command r).stage = .header ∧ (st.command r).i = 0 ∧ (st.command r).sent = st.sent ∧
        (st.command r).input = (r.readline (lineSize - 1) st.input).2) ∨
      (st.command r).stage = .ended ∧ (st.command r).sent = st.sent ++ [Query.ended] ∧
        st.lineRc r = 0 ∧ (st.command r).input = (r.readline (lineSize - 1) st.input).2 := by
  simp only [command]
  split
  next hrc => exact Or.inr (Or.inr ⟨rfl, rfl, hrc, rfl⟩)
  next =>
    simp only [count]
    split
    next => exact Or.inl ⟨_, rfl⟩
    next =>
      simp only [checkCount]
      split
      next => exact Or.inl ⟨_, rfl⟩
      next => exact Or.inr (Or.inl ⟨rfl, rfl, rfl, rfl⟩)

theorem header_cases (r : Reader σ) (st : State σ) :
    (∃ e, (st.header r).stage = .raised e) ∨
      (st.header r).stage = .content ∧ (st.header r).i = st.i ∧ (st.header r).sent = st.sent ∧
        (st.header r).input = (r.readline (lineSize - 1) st.input).2 := by
  simp only [header]
  split
  next => exact Or.inl ⟨_, rfl⟩
  next => exact Or.inr ⟨rfl, rfl, rfl, rfl⟩

theorem content_cases (r : Reader σ) (st : State σ) :
    (∃ e, (st.content r).stage = .raised e) ∨
      (st.content r).stage = .trailer ∧ (st.content r).i = st.i ∧
        (st.content r).sent = st.sent := by
  simp only [content]
  split
  next => exact Or.inl ⟨_, rfl⟩
  next => exact Or.inr ⟨rfl, rfl, rfl⟩

theorem trailer_cases (r : Reader σ) (st : State σ) :
    (∃ e, (st.trailer r).stage = .raised e) ∨
      (st.trailer r).stage = .header ∧ (st.trailer r).i = st.i + 1 ∧
        (st.trailer r).sent = st.sent ∧
        (st.trailer r).input = (r.readline (lineSize - 1) st.input).2 := by
  simp only [trailer]
  split
  next => exact Or.inl ⟨_, rfl⟩
  next => exact Or.inr ⟨rfl, rfl, rfl, rfl⟩

end State

theorem not_aligned_raised {σ : Type} {arrays : List RespArray} {left : σ → List UInt8}
    {st : State σ} (h : ∃ e, st.stage = .raised e) : ¬Aligned arrays left st := by
  obtain ⟨e, he⟩ := h
  simp only [Aligned, he]
  exact id

section Converse
variable {σ : Type} {r : Reader σ} {left : σ → List UInt8} (h : r.Gives left)
  {arrays : List RespArray} {st : State σ}
include h

/-- A command whose call leaves the stream where it should be had its line whole. -/
theorem whole_of_command (hinv : Inv arrays left st) (hs : st.stage = .command)
    (hnext : Aligned arrays left (st.step r)) : r.Whole left (lineSize - 1) st.input := by
  simp only [State.step, hs] at hnext
  simp only [Inv, hs] at hinv
  obtain ⟨done, rest, hd, hleft⟩ := hinv
  cases rest with
  | nil =>
      rw [Reader.Whole, (h.readline_end hleft).1, hleft]
      rfl
  | cons a rest =>
      have hstream := hleft.trans (bytes_append a (encode rest))
      refine (h.whole_of_left hstream ?_).2
      obtain hraised | ⟨hs', hi, hsent, hinput⟩ | ⟨hs', hsent, hrc, hinput⟩ := st.command_cases r
      · exact absurd hnext (not_aligned_raised hraised)
      · simp only [Aligned, hs', hi, hsent, hd.ahead, hinput] at hnext
        rw [hnext, List.drop_zero]
      · -- it has read nothing, and takes that for the end
        have hdrop : arrays.drop (st.sent.length + 1) = rest := by
          rw [← List.drop_drop, hd.drop]
          rfl
        simp only [Aligned, hs', hsent, List.length_append, List.length_singleton, hdrop,
          hinput] at hnext
        have hall := h.line_left (lineSize - 1) st.input
        rw [List.eq_nil_of_length_eq_zero hrc, hnext, hleft, List.nil_append, encode_cons] at hall
        exact absurd (List.self_eq_append_left.mp hall) (bytes_ne_nil a)

/-- So had a length. -/
theorem whole_of_header (hinv : Inv arrays left st) (hs : st.stage = .header)
    (hi : (st.i : Int) < st.query.argc) (hnext : Aligned arrays left (st.step r)) :
    r.Whole left (lineSize - 1) st.input := by
  simp only [State.step, hs, if_pos hi] at hnext
  simp only [Inv, hs] at hinv
  obtain ⟨done, a, rest, filled, todo, hd, hf, hleft⟩ := hinv
  cases todo with
  | nil => exact absurd rfl (hf.lt_iff.mp hi)
  | cons b todo =>
      rw [List.flatMap_cons, List.append_assoc] at hleft
      refine (h.whole_of_left (hleft.trans (bulkBytes_append b _)) ?_).2
      obtain hraised | ⟨hs', hi', hsent, hinput⟩ := st.header_cases r
      · exact absurd hnext (not_aligned_raised hraised)
      · simp only [Aligned, hs', hi', hsent, bulk?_eq hd hf, hd.ahead, hf.drop_succ, hinput] at hnext
        obtain ⟨b', hb', hrest⟩ := hnext
        cases hb'
        rw [hrest, List.append_assoc]

/-- And the line behind a slot's bytes, which then was one. -/
theorem whole_of_trailer (halign : Aligned arrays left st) (hs : st.stage = .trailer)
    (hnext : Aligned arrays left (st.step r)) : r.Whole left (lineSize - 1) st.input ∧
      ∀ b, bulk? arrays st.sent.length st.i = some b → newline ∉ beyond b ∧
        st.lineRc r = (beyond b).length + 2 := by
  simp only [State.step, hs] at hnext
  simp only [Aligned, hs] at halign
  obtain ⟨b, hb, hleft⟩ := halign
  rw [List.append_assoc] at hleft
  obtain hraised | ⟨hs', hi, hsent, hinput⟩ := st.trailer_cases r
  · exact absurd hnext (not_aligned_raised hraised)
  simp only [Aligned, hs', hi, hsent, hinput] at hnext
  have hstream := hleft.trans (beyond_append b _)
  obtain ⟨hpre, hwhole⟩ := h.whole_of_left hstream hnext
  refine ⟨hwhole, fun b' hb' => ?_⟩
  rw [hb] at hb'
  cases hb'
  refine ⟨fun hmem => hpre (List.mem_append_left _ hmem), ?_⟩
  rw [State.lineRc, hwhole, hstream, Reader.firstLine_line hpre, List.length_append,
    List.length_append]
  rfl

/-- A bulk whose three calls leave the stream where it should be, and keep to `line`,
fits. -/
theorem fits_of_aligned (hinv : Inv arrays left st) (hs : st.stage = .header) {b : List UInt8}
    (hb : bulk? arrays st.sent.length st.i = some b)
    (halign : ∀ n, Aligned arrays left (State.run r n st))
    (hcareful : ∀ n, (State.run r n st).Careful r) : Fits b := by
  have hi : (st.i : Int) < st.query.argc := by
    simp only [Inv, hs] at hinv
    obtain ⟨done, a, rest, filled, todo, hd, hf, -⟩ := hinv
    rw [bulk?, hd.getElem] at hb
    have hlt : st.i < a.bulks.length := (List.getElem?_eq_some_iff.mp hb).1
    rw [hf.argc]
    omega
  have h₁ : State.run r 1 st = st.header r := by
    show st.step r = _
    simp only [State.step, hs]
    rw [if_pos hi]
  have hcases₁ := st.header_cases r
  rw [← h₁] at hcases₁
  generalize hst₁ : State.run r 1 st = st₁ at hcases₁
  obtain hraised | ⟨hs₁, hi₁, hsent₁, -⟩ := hcases₁
  · exact absurd (hst₁ ▸ halign 1) (not_aligned_raised hraised)
  have h₂ : State.run r 2 st = st₁.content r := by
    rw [State.run_succ, hst₁]
    simp only [State.step, hs₁]
  have hcases₂ := st₁.content_cases r
  rw [← h₂] at hcases₂
  generalize hst₂ : State.run r 2 st = st₂ at hcases₂
  obtain hraised | ⟨hs₂, hi₂, hsent₂⟩ := hcases₂
  · exact absurd (hst₂ ▸ halign 2) (not_aligned_raised hraised)
  have h₃ : State.run r 3 st = st₂.step r := by rw [State.run_succ, hst₂]
  have hb₂ : bulk? arrays st₂.sent.length st₂.i = some b := by
    rw [hsent₂, hsent₁, hi₂, hi₁]
    exact hb
  have hfit := (whole_of_trailer h (hst₂ ▸ halign 2) hs₂ (h₃ ▸ halign 3)).2 b hb₂
  have hline := hst₂ ▸ hcareful 2
  simp only [State.Careful, hs₂] at hline
  exact ⟨hfit.1, hfit.2 ▸ hline⟩

/-- Where every command is read from its own array, every step is met. -/
theorem met_of_framed {input : σ} {query : Query} {line : List UInt8}
    (hframed : Framed r left arrays (State.start query line input)) :
    MetAhead r left arrays (State.start query line input) := by
  intro n hinv
  have hcareful := (State.stores_inside_iff r query line input).mp hframed.inside
  have hnext := hframed.aligned (n + 1)
  rw [State.run_succ] at hnext
  refine ⟨fun hcalls => ?_, fun hs b hb => ?_⟩
  · cases hs : (State.run r n (State.start query line input)).stage with
    | command => exact whole_of_command h hinv hs hnext
    | header =>
        simp only [State.Calls, hs] at hcalls
        exact whole_of_header h hinv hs hcalls hnext
    | trailer => exact (whole_of_trailer h (hframed.aligned n) hs hnext).1
    | content => simp only [State.Calls, hs] at hcalls
    | ended => simp only [State.Calls, hs] at hcalls
    | raised e => simp only [State.Calls, hs] at hcalls
  · refine fits_of_aligned h hinv hs hb (fun m => ?_) (fun m => ?_)
    · rw [← State.run_add]
      exact hframed.aligned (m + n)
    · rw [← State.run_add]
      exact hcareful (m + n)

end Converse

/-- However the stream comes over, `redis_request` reads every command from its own array,
writes one query for each, and all its calls come back, exactly when the bulks of the
arrays, up to the first that closes, fit, and every call of `vk_readline` is clean: what a
slot does not keep of a bulk is on one line, which with its line break is no longer than
`line`; and of no line does a piece come that fills the call, or at whose end it looks at
a newline. -/
theorem framed_iff (E : Wire) (arrays : List RespArray) (query : Query) (line : List UInt8) :
    (Framed E.reader Prod.snd arrays (State.start query line (0, encode arrays)) ∧
        ∀ n, (State.run E.reader n (State.start query line (0, encode arrays))).Returns E) ↔
      (∀ a ∈ served arrays, ∀ b ∈ a.bulks, Fits b) ∧
        ∀ n, (State.run E.reader n (State.start query line (0, encode arrays))).Clean E := by
  have hstart : Inv arrays Prod.snd (State.start query line ((0, encode arrays) : Spot)) :=
    @inv_start _ Prod.snd arrays (0, encode arrays) rfl query line
  have hclean : ∀ {st : State Spot}, Inv arrays Prod.snd st → st.Calls →
      (st.stage = .header → ∀ b, bulk? arrays st.sent.length st.i = some b → Fits b) →
      ((E.line (lineSize - 1) st.input).isSome ∧ E.reader.Whole Prod.snd (lineSize - 1) st.input ↔
        E.CleanAt (lineSize - 1) st.input) := by
    intro st hinv hcalls hfits
    refine Wire.clean_iff (by decide) ?_
    obtain hnil | ⟨pre, rest, hleft, -⟩ := hinv.line hcalls hfits
    · exact Or.inr hnil
    · rw [hleft]
      exact Or.inl (List.mem_append_right _ List.mem_cons_self)
  constructor
  · rintro ⟨hframed, hreturns⟩
    have hmet := met_of_framed E.gives hframed
    have hinv := inv_run E.gives hstart hmet
    obtain ⟨n, hn⟩ := ends E.gives hstart hmet
    have hover := hinv n
    simp only [Inv, hn] at hover
    exact ⟨hover.fits, fun n hcalls => (hclean (hinv n) hcalls (hmet n (hinv n)).fits).mp
      ⟨hreturns n hcalls, (hmet n (hinv n)).whole hcalls⟩⟩
  · rintro ⟨hfits, hcleans⟩
    have hfit : ∀ {st : State Spot}, Inv arrays Prod.snd st → st.stage = .header →
        ∀ b, bulk? arrays st.sent.length st.i = some b → Fits b := by
      intro st hinv hs b hb
      obtain ⟨a, ha, hmem⟩ := hinv.mem_served hs hb
      exact hfits a ha b hmem
    have hmet : MetAhead E.reader Prod.snd arrays (State.start query line (0, encode arrays)) :=
      fun n hinv => ⟨fun hcalls => ((hclean hinv hcalls (hfit hinv)).mpr (hcleans n hcalls)).2,
        hfit hinv⟩
    have hinv := inv_run E.gives hstart hmet
    exact ⟨framed_of_met E.gives rfl query line hmet, fun n hcalls =>
      ((hclean (hinv n) hcalls (hfit (hinv n))).mpr (hcleans n hcalls)).1⟩

/-- Past its end a run stays where it is. -/
theorem run_ended {σ : Type} {r : Reader σ} {m : Nat} {st : State σ}
    (h : (State.run r m st).stage = .ended) (k : Nat) :
    State.run r (k + m) st = State.run r m st := by
  induction k with
  | zero => rw [Nat.zero_add]
  | succ k ih =>
      rw [Nat.succ_add, State.run_succ, ih]
      simp only [State.step, h]

/-- A run has one end. -/
theorem run_ended_eq {σ : Type} {r : Reader σ} {m n : Nat} {st : State σ}
    (hm : (State.run r m st).stage = .ended) (hn : (State.run r n st).stage = .ended) :
    State.run r m st = State.run r n st := by
  rw [← run_ended hm n, Nat.add_comm, run_ended hn m]

/-- A bulk of 80 bytes, of which the last 16 are a command. -/
def injection : RespArray where
  bulks := [List.replicate 63 0x78 ++ bytes "\n*1\r\n$8\r\nSHUTDOWN"]
  pos := by decide
  le := by decide

/-- The run over it. -/
def injected (n : Nat) : State Spot :=
  State.run Wire.bytewise.reader n (State.start Query.ended [] (0, encode [injection]))

/-- The command inside the bulk is read too: one array, two queries. -/
theorem bulk_injects :
    ¬∀ arrays : List RespArray, Framed Wire.bytewise.reader Prod.snd arrays
      (State.start Query.ended [] (0, encode arrays)) := by
  intro h
  obtain ⟨n, hn, hqueries⟩ := (h [injection]).queries
  have hended : (injected 10).stage = .ended := by decide +kernel
  have hrun : State.run Wire.bytewise.reader n
      (State.start Query.ended [] (0, encode [injection])) = injected 10 :=
    run_ended_eq hn hended
  rw [hrun] at hqueries
  have hone : (served [injection]).length = 1 := by decide +kernel
  have htwo : (injected 10).commands.length = 2 := by decide +kernel
  have hlen := hqueries.length_eq
  rw [hone, htwo] at hlen
  exact absurd hlen (by decide)

end Vk.Redis

/-
# `Mnvkd.RedisResponse` — the store behind the commands

`redis_response` reads the queries that `redis_request` writes to it, a record at a
time, and answers each: from its flags, by name, or from a table that SQLite keeps.
SQLite is not in the source.  What the coroutine asks of it is a parameter (`Sqlite`),
and that it keeps a table of texts a hypothesis (`Keeps`).

What it is to do is said of a table of keys and values that takes one command after
another (`session`).  Whatever the queries are, it writes the replies of that session
and leaves the table as that does (`run_session`).

It finalizes the statements it has prepared, whatever fails; but where the database
cannot be opened it also finalizes what its memory held for one
(`statements_balanced_iff`).
-/
import Mathlib.Logic.Function.Basic
import Mnvkd.RedisFraming

namespace Vk.Redis

open Lib Text

/-! ## A store of keys and values -/

abbrev Table : Type := List UInt8 → Option (List UInt8)

inductive Command where
  | shutdown
  | quit
  | ping
  | set (key value : List UInt8)
  | get (key : List UInt8)
  | unknown
  deriving DecidableEq

inductive Reply where
  | status (text : List UInt8)
  | error (text : List UInt8)
  | bulk (value : List UInt8)
  | null
  deriving DecidableEq

def okText : List UInt8 := bytes "OK"

def pongText : List UInt8 := bytes "PONG"

def unknownText : List UInt8 := bytes "ERR unknown command"

/-- A reply as it is written. -/
def Reply.bytes : Reply → List UInt8
  | .status text => '+'.toUInt8 :: text ++ crlf
  | .error text => '-'.toUInt8 :: text ++ crlf
  | .bulk value => bulkBytes value
  | .null => Text.bytes "$-1\r\n"

namespace Command

def closes : Command → Bool
  | .shutdown | .quit => true
  | .ping | .set _ _ | .get _ | .unknown => false

/-- What a command leaves of a store. -/
def apply (c : Command) (kv : Table) : Table :=
  match c with
  | .set key value => Function.update kv key (some value)
  | .shutdown | .quit | .ping | .get _ | .unknown => kv

/-- What it is answered.  Of a value a reply has room for as much as of a bulk. -/
def replies (c : Command) (kv : Table) : List Reply :=
  match c with
  | .shutdown => []
  | .quit | .set _ _ => [.status okText]
  | .ping => [.status pongText]
  | .get key => [((kv key).map fun value => Reply.bulk (kept (cstring value))).getD .null]
  | .unknown => [.error unknownText]

end Command

/-- What a session comes to. -/
structure Session where
  table : Table
  replies : List Reply
  shutdown : Bool

/-- The commands are taken one after another, up to the first that closes. -/
def session (kv : Table) : List Command → Session
  | [] => ⟨kv, [], false⟩
  | c :: cs =>
      if c.closes then ⟨c.apply kv, c.replies kv, c = .shutdown⟩
      else
        { session (c.apply kv) cs with replies := c.replies kv ++ (session (c.apply kv) cs).replies }

/-! ## What is asked of SQLite -/

/-- The calls of `redis_response` over the contents `δ` of `vk_redis.db`, with the texts
that are bound.  A `Bool` says that the call returns what the source tests for. -/
structure Sqlite (δ : Type) where
  /-- `sqlite3_open` returns `SQLITE_OK`. -/
  opens : δ → Bool
  /-- `CREATE TABLE IF NOT EXISTS kv`. -/
  create : δ → δ
  /-- `sqlite3_prepare_v2` of the `INSERT` returns `SQLITE_OK`. -/
  preparesSet : δ → Bool
  /-- `sqlite3_step` of it returns `SQLITE_DONE`, and what it leaves. -/
  stepSet : List UInt8 → List UInt8 → δ → Bool × δ
  /-- `sqlite3_prepare_v2` of the `SELECT` returns `SQLITE_OK`. -/
  preparesGet : δ → Bool
  /-- Where `sqlite3_step` of it returns `SQLITE_ROW`, the row's column, which may be NULL. -/
  stepGet : List UInt8 → δ → Option (Option (List UInt8))

/-- The database keeps the table of keys and values that `table` reads off it, and no
call on it fails. -/
structure Sqlite.Keeps {δ : Type} (db : Sqlite δ) (table : δ → Table) : Prop where
  opens : ∀ d, db.opens d = true
  create : ∀ d, table (db.create d) = table d
  preparesSet : ∀ d, db.preparesSet d = true
  stepSet : ∀ key value d, (db.stepSet key value d).1 = true
  sets : ∀ key value d, table (db.stepSet key value d).2 = Function.update (table d) key (some value)
  preparesGet : ∀ d, db.preparesGet d = true
  gets : ∀ key d, db.stepGet key d = (table d key).map some

/-! ## The coroutine -/

def pingName : List UInt8 := bytes "PING"

def setName : List UInt8 := bytes "SET"

def getName : List UInt8 := bytes "GET"

/-- `sizeof(self->reply)`. -/
def replySize : Nat := maxBulk + 32

/-- `self` of `redis_response`, the contents of its database, how many statements are
not finalized, what it has written, and what it has asked for.  It is over where it
has ended or raised. -/
structure Response (δ : Type) where
  query : Query
  stmt : Bool
  replyLen : Nat
  reply : List UInt8
  db : δ
  live : Int
  out : List UInt8
  shutdownRequested : Bool
  txClosed : Bool
  raised : Option Errno

theorem maxArgs_pos : 0 < maxArgs := by decide

namespace Response

variable {δ : Type}

def write (bs : List UInt8) (st : Response δ) : Response δ := { st with out := st.out ++ bs }

/-- `sqlite3_prepare_v2` leaves a statement where it succeeds, and NULL elsewhere. -/
def prepare (ok : Bool) (st : Response δ) : Response δ :=
  { st with stmt := ok, live := if ok then st.live + 1 else st.live }

/-- `sqlite3_finalize(self->stmt); self->stmt = NULL;`. -/
def finalize (st : Response δ) : Response δ := { st with stmt := false, live := st.live - 1 }

/-- `if (self->stmt)` of it. -/
def finalizeIf (st : Response δ) : Response δ := if st.stmt then st.finalize else st

/-- `vk_tx_close` where the service is one of a server in a kernel. -/
def closeTx (kern : Bool) (st : Response δ) : Response δ := if kern then { st with txClosed := true } else st

/-- The branch of `SET`. -/
def set (db : Sqlite δ) (st : Response δ) : Response δ :=
  let st := { st with stmt := false }.prepare (db.preparesSet st.db)
  let key := cstring (st.query.argv ⟨1, by decide⟩)
  let value := cstring (st.query.argv ⟨2, by decide⟩)
  finalizeIf <|
    if st.stmt then
      let stepped := db.stepSet key value st.db
      { st with db := stepped.2 }.finalize.write
        (bytes (if stepped.1 then "+OK\r\n" else "-ERR sqlite\r\n"))
    else st.write (bytes "-ERR sqlite\r\n")

/-- The length of a value in a reply: `strlen`, kept below that of a slot. -/
def valueLen (value : List UInt8) : Nat :=
  if (cstring value).length ≥ maxBulk then maxBulk - 1 else (cstring value).length

/-- `snprintf` of `"$%d\r\n"`, and behind it the value and a line break. -/
def fill (value : List UInt8) (st : Response δ) : Response δ :=
  let pre := printed (valueLen value)
  let text := put 0 (pre ++ [0]) st.reply
  let text := put pre.length (value.take (valueLen value)) text
  let text := put (pre.length + valueLen value) ['\r'.toUInt8] text
  { st with
    replyLen := valueLen value
    reply := put (pre.length + valueLen value + 1) ['\n'.toUInt8] text }
where
  printed (n : Nat) : List UInt8 := '$'.toUInt8 :: decimal n ++ crlf

/-- The branch of a row: its column, if it fits, or none. -/
def column (value? : Option (List UInt8)) (st : Response δ) : Response δ :=
  match value? with
  | some value =>
      if (fill.printed (valueLen value)).length < replySize then
        let st := (st.fill value).finalize
        st.write (st.reply.take ((fill.printed (valueLen value)).length + valueLen value + 2))
      else { st with replyLen := valueLen value }.finalize.write (bytes "$-1\r\n")
  | none => st.finalize.write (bytes "$-1\r\n")

/-- The branch of `GET`. -/
def get (db : Sqlite δ) (st : Response δ) : Response δ :=
  let st := { st with stmt := false }.prepare (db.preparesGet st.db)
  let key := cstring (st.query.argv ⟨1, by decide⟩)
  finalizeIf <|
    if st.stmt then
      match db.stepGet key st.db with
      | some value? => st.column value?
      | none => st.finalize.write (bytes "$-1\r\n")
    else st.write (bytes "-ERR sqlite\r\n")

/-- What the loop does with a query, and whether it breaks. -/
def answer (db : Sqlite δ) (kern : Bool) (st : Response δ) : Response δ × Bool :=
  let q := st.query
  let name := q.argv ⟨0, maxArgs_pos⟩
  if q.shutdown then
    (if kern then { st with shutdownRequested := true }.closeTx kern else st, true)
  else if q.close then ((st.write (bytes "+OK\r\n")).closeTx kern, true)
  else if 0 < q.argc ∧ strcaseeq name pingName = true then (st.write (bytes "+PONG\r\n"), false)
  else if 3 ≤ q.argc ∧ strcaseeq name setName = true then (st.set db, false)
  else if 2 ≤ q.argc ∧ strcaseeq name getName = true then (st.get db, false)
  else (st.write (bytes "-ERR unknown command\r\n"), false)

/-- Past the loop, and through `vk_finally`. -/
def finish (kern : Bool) (st : Response δ) : Response δ := (st.closeTx kern).finalizeIf

/-- `vk_raise`, and through `vk_finally` with an error. -/
def raise (errno : Errno) (st : Response δ) : Response δ :=
  { st.finalizeIf with txClosed := true, raised := some errno }

/-- The loop, over the records that come.  One that comes short of its size is `none`,
and a read at the end of them gets nothing. -/
def loop (db : Sqlite δ) (kern : Bool) (nodata : List (Option Query) → Bool) :
    List (Option Query) → Response δ → Response δ
  | [], st => st.finish kern
  | none :: _, st => st.raise Errno.EPIPE
  | some q :: rest, st =>
      let answered := { st with query := q }.answer db kern
      if answered.2 || nodata rest || answered.1.query.close then answered.1.finish kern
      else loop db kern nodata rest answered.1

/-- `redis_response` begins: its `self` holds what the memory held. -/
def start (query : Query) (stmt : Bool) (replyLen : Nat) (reply : List UInt8) (d : δ) : Response δ :=
  ⟨query, stmt, replyLen, reply, d, 0, [], false, false, none⟩

/-- `redis_response`. -/
def run (db : Sqlite δ) (kern : Bool) (nodata : List (Option Query) → Bool)
    (queries : List (Option Query)) (st : Response δ) : Response δ :=
  if db.opens st.db then
    loop db kern nodata queries { st with db := db.create st.db, stmt := false, replyLen := 0 }
  else st.raise Errno.EFAULT

end Response

/-! ## A query, as a command -/

/-- What `redis_response` takes a query for. -/
def Query.command (q : Query) : Command :=
  if q.shutdown then .shutdown
  else if q.close then .quit
  else if 0 < q.argc ∧ strcaseeq (q.argv ⟨0, maxArgs_pos⟩) pingName = true then .ping
  else if 3 ≤ q.argc ∧ strcaseeq (q.argv ⟨0, maxArgs_pos⟩) setName = true then
    .set (cstring (q.argv ⟨1, by decide⟩)) (cstring (q.argv ⟨2, by decide⟩))
  else if 2 ≤ q.argc ∧ strcaseeq (q.argv ⟨0, maxArgs_pos⟩) getName = true then
    .get (cstring (q.argv ⟨1, by decide⟩))
  else .unknown

/-- Bytes stored behind what a buffer begins with. -/
theorem put_length (pre bs stale : List UInt8) :
    put pre.length bs (pre ++ stale) = pre ++ bs ++ stale.drop bs.length := by
  rw [put, List.take_left, ← List.drop_drop, List.drop_left]

theorem Query.closes_command (q : Query) : q.command.closes = (q.shutdown || q.close) := by
  unfold Query.command
  split
  next hshutdown => rw [hshutdown]; rfl
  next hshutdown =>
    have hshutdown := eq_false_of_ne_true hshutdown
    split
    next hclose => rw [hclose, Bool.or_true]; rfl
    next hclose =>
      rw [hshutdown, eq_false_of_ne_true hclose]
      split
      next => rfl
      next =>
        split
        next => rfl
        next =>
          split
          next => rfl
          next => rfl

namespace Response

variable {δ : Type} {db : Sqlite δ} {table : δ → Table} {st : Response δ}

theorem valueLen_eq (value : List UInt8) : valueLen value = (kept (cstring value)).length := by
  unfold valueLen kept
  rw [List.length_take]
  have hbulk : maxBulk = 64 := rfl
  split <;> omega

theorem take_valueLen (value : List UInt8) : value.take (valueLen value) = kept (cstring value) := by
  have hpre : cstring value <+: value := List.takeWhile_prefix _
  obtain ⟨rest, hrest⟩ := hpre
  have hle : valueLen value ≤ (cstring value).length := by
    rw [valueLen_eq, kept, List.length_take]
    exact Nat.min_le_right _ _
  calc value.take (valueLen value)
      = (cstring value ++ rest).take (valueLen value) := by rw [hrest]
    _ = (cstring value).take (valueLen value) := List.take_append_of_le_length hle
    _ = kept (cstring value) := by
        rw [valueLen_eq, kept, List.length_take, ← List.take_eq_take_min]

theorem valueLen_lt (value : List UInt8) : valueLen value < maxBulk := by
  rw [valueLen_eq, kept, List.length_take]
  exact Nat.lt_of_le_of_lt (Nat.min_le_left _ _) (by decide)

/-- A reply has room for its value, and for what is around it. -/
theorem reply_fits (value : List UInt8) :
    (fill.printed (valueLen value)).length + valueLen value + 2 ≤ replySize := by
  have hlt := valueLen_lt value
  have hbulk : maxBulk = 64 := rfl
  have hdecimal : (decimal (valueLen value)).length ≤ 2 := length_decimal_le (by decide) (by omega)
  have hcrlf : crlf.length = 2 := rfl
  have hprinted : (fill.printed (valueLen value)).length = (decimal (valueLen value)).length + 3 := by
    rw [fill.printed, List.length_append, List.length_cons, hcrlf]
  have hsize : replySize = 96 := rfl
  omega

/-- The reply to a value is a bulk. -/
theorem take_fill (value : List UInt8) (st : Response δ) :
    (st.fill value).reply.take ((fill.printed (valueLen value)).length + valueLen value + 2)
      = (Reply.bulk (kept (cstring value))).bytes := by
  have hlen : (value.take (valueLen value)).length = valueLen value := by
    rw [take_valueLen, ← valueLen_eq]
  have hbytes : (Reply.bulk (kept (cstring value))).bytes
      = fill.printed (valueLen value) ++ value.take (valueLen value) ++ crlf := by
    rw [take_valueLen, Reply.bytes, bulkBytes, ← valueLen_eq, mark, fill.printed, crlf]
    simp only [List.cons_append, List.append_assoc, List.nil_append]
  rw [hbytes, fill]
  generalize value.take (valueLen value) = v at hlen ⊢
  generalize fill.printed (valueLen value) = pre at hlen ⊢
  rw [← hlen]
  have hvalue : ∀ stale, put pre.length v (pre ++ [0] ++ stale) = pre ++ v ++ ([0] ++ stale).drop v.length :=
    fun stale => by rw [List.append_assoc, put_length]
  have hreturn : ∀ stale, put (pre.length + v.length) ['\r'.toUInt8] (pre ++ v ++ stale)
      = pre ++ v ++ ['\r'.toUInt8] ++ stale.drop 1 := fun stale => by
    rw [← List.length_append, put_length]
    rfl
  have hnewline : ∀ stale, put (pre.length + v.length + 1) ['\n'.toUInt8]
      (pre ++ v ++ ['\r'.toUInt8] ++ stale)
      = pre ++ v ++ ['\r'.toUInt8] ++ ['\n'.toUInt8] ++ stale.drop 1 := fun stale => by
    have hlength : pre.length + v.length + 1 = (pre ++ v ++ ['\r'.toUInt8]).length := by
      rw [List.length_append, List.length_append]
      rfl
    rw [hlength, put_length]
    rfl
  have hall : pre.length + v.length + 2 = (pre ++ v ++ ['\r'.toUInt8] ++ ['\n'.toUInt8]).length := by
    rw [List.length_append, List.length_append, List.length_append]
    rfl
  dsimp only
  rw [put_zero, hvalue, hreturn, hnewline, hall, List.take_left, List.append_assoc]
  rfl

/-! ### One query -/

/-- What an answer does to the table, to what is written, and to the flags. -/
structure Answers (table : δ → Table) (c : Command) (kern : Bool) (st st' : Response δ) : Prop where
  rows : table st'.db = c.apply (table st.db)
  out : st'.out = st.out ++ (c.replies (table st.db)).flatMap Reply.bytes
  query : st'.query = st.query
  raised : st'.raised = st.raised
  txClosed : st'.txClosed = (st.txClosed || (kern && c.closes))
  shutdownRequested : st'.shutdownRequested = (st.shutdownRequested || (kern && decide (c = .shutdown)))

theorem finalizeIf_of_not (h : st.stmt = false) : st.finalizeIf = st := by
  rw [finalizeIf, if_neg (by simp [h])]

/-- A command that closes nothing, and is answered so. -/
theorem answers_of_write {c : Command} {kern : Bool} {st' : Response δ} (hcloses : c.closes = false)
    (htable : table st'.db = c.apply (table st.db))
    (hout : st'.out = st.out ++ (c.replies (table st.db)).flatMap Reply.bytes)
    (hquery : st'.query = st.query) (hraised : st'.raised = st.raised)
    (htx : st'.txClosed = st.txClosed) (hshutdown : st'.shutdownRequested = st.shutdownRequested) :
    Answers table c kern st st' := by
  have hno : decide (c = .shutdown) = false := by
    cases c <;> first | rfl | cases hcloses
  refine ⟨htable, hout, hquery, hraised, ?_, ?_⟩
  · rw [htx, hcloses, Bool.and_false, Bool.or_false]
  · rw [hshutdown, hno, Bool.and_false, Bool.or_false]

theorem answers_set (h : db.Keeps table) (kern : Bool) (st : Response δ) :
    Answers table (.set (cstring (st.query.argv ⟨1, by decide⟩)) (cstring (st.query.argv ⟨2, by decide⟩)))
      kern st (st.set db) := by
  have hset : st.set db = ({ st with
      stmt := true
      live := st.live + 1
      db := (db.stepSet (cstring (st.query.argv ⟨1, by decide⟩))
        (cstring (st.query.argv ⟨2, by decide⟩)) st.db).2 }.finalize).write (bytes "+OK\r\n") := by
    simp only [set, prepare, h.preparesSet, h.stepSet, if_true]
    exact finalizeIf_of_not rfl
  rw [hset]
  exact answers_of_write rfl (h.sets _ _ _) rfl rfl rfl rfl rfl

theorem answers_get (h : db.Keeps table) (kern : Bool) (st : Response δ) :
    Answers table (.get (cstring (st.query.argv ⟨1, by decide⟩))) kern st (st.get db) := by
  cases hvalue : table st.db (cstring (st.query.argv ⟨1, by decide⟩)) with
  | none =>
      have hget : st.get db
          = ({ st with stmt := true, live := st.live + 1 }.finalize).write (bytes "$-1\r\n") := by
        simp only [get, prepare, h.preparesGet, h.gets, hvalue, if_true, Option.map_none]
        exact finalizeIf_of_not rfl
      rw [hget]
      refine answers_of_write rfl rfl ?_ rfl rfl rfl rfl
      simp only [Command.replies, hvalue, Option.map_none, Option.getD_none]
      rfl
  | some value =>
      have hfits := reply_fits value
      have hget : st.get db = (({ st with stmt := true, live := st.live + 1 }.fill value).finalize).write
          ((Reply.bulk (kept (cstring value))).bytes) := by
        simp only [get, prepare, h.preparesGet, h.gets, hvalue, if_true, Option.map_some, column]
        rw [if_pos (by omega)]
        refine (finalizeIf_of_not rfl).trans ?_
        rw [← take_fill value { st with stmt := true, live := st.live + 1 }]
        rfl
      rw [hget]
      refine answers_of_write rfl rfl ?_ rfl rfl rfl rfl
      simp only [Command.replies, hvalue, Option.map_some, Option.getD_some]
      rw [List.flatMap_singleton]
      rfl

/-- Each query is answered as its command.  One case for each branch of the loop. -/
theorem answers (h : db.Keeps table) (kern : Bool) (st : Response δ) :
    Answers table st.query.command kern st (st.answer db kern).1 ∧
      (st.answer db kern).2 = st.query.command.closes := by
  unfold answer Query.command
  dsimp only
  split
  next => 
    refine ⟨?_, rfl⟩
    cases kern with
    | true => exact ⟨rfl, (List.append_nil _).symm, rfl, rfl, by simp [closeTx, Command.closes], by simp [closeTx]⟩
    | false => exact ⟨rfl, (List.append_nil _).symm, rfl, rfl, by simp, by simp⟩
  next =>
    split
    next =>
      refine ⟨?_, rfl⟩
      cases kern with
      | true => exact ⟨rfl, rfl, rfl, rfl, by simp [closeTx, Command.closes], by simp [closeTx, write]⟩
      | false => exact ⟨rfl, rfl, rfl, rfl, by simp [closeTx, write], by simp [closeTx, write]⟩
    next =>
      split
      next => exact ⟨answers_of_write rfl rfl rfl rfl rfl rfl rfl, rfl⟩
      next =>
        split
        next => exact ⟨answers_set h kern st, rfl⟩
        next =>
          split
          next => exact ⟨answers_get h kern st, rfl⟩
          next => exact ⟨answers_of_write rfl rfl rfl rfl rfl rfl rfl, rfl⟩

/-! ### All queries -/

theorem finish_eq (kern : Bool) (st : Response δ) :
    (st.finish kern).db = st.db ∧ (st.finish kern).out = st.out ∧
      (st.finish kern).shutdownRequested = st.shutdownRequested ∧
      (st.finish kern).txClosed = (st.txClosed || kern) ∧ (st.finish kern).raised = st.raised := by
  have hclose : (st.closeTx kern).db = st.db ∧ (st.closeTx kern).out = st.out ∧
      (st.closeTx kern).shutdownRequested = st.shutdownRequested ∧
      (st.closeTx kern).txClosed = (st.txClosed || kern) ∧ (st.closeTx kern).raised = st.raised := by
    cases kern with
    | true => exact ⟨rfl, rfl, rfl, (Bool.or_true _).symm, rfl⟩
    | false => exact ⟨rfl, rfl, rfl, (Bool.or_false _).symm, rfl⟩
  unfold finish finalizeIf
  split
  · exact hclose
  · exact hclose

/-- The loop, from where it stands: the session that begins with the table. -/
theorem loop_eq (h : db.Keeps table) {nodata : List (Option Query) → Bool}
    (hnodata : ∀ rest, nodata rest = true → rest = []) (kern : Bool) (queries : List Query)
    (st : Response δ) :
    table (loop db kern nodata (queries.map some) st).db
        = (session (table st.db) (queries.map Query.command)).table ∧
      (loop db kern nodata (queries.map some) st).out
        = st.out ++ (session (table st.db) (queries.map Query.command)).replies.flatMap Reply.bytes ∧
      (loop db kern nodata (queries.map some) st).shutdownRequested = (st.shutdownRequested ||
        (kern && (session (table st.db) (queries.map Query.command)).shutdown)) ∧
      (loop db kern nodata (queries.map some) st).txClosed = (st.txClosed || kern) ∧
      (loop db kern nodata (queries.map some) st).raised = st.raised := by
  induction queries generalizing st with
  | nil =>
      obtain ⟨hdb, hout, hshutdown, htx, hraised⟩ := finish_eq kern st
      exact ⟨congrArg table hdb, hout.trans (List.append_nil _).symm,
        hshutdown.trans (by simp [session]), htx, hraised⟩
  | cons q queries ih =>
      obtain ⟨hanswer, hbreak⟩ := answers h kern { st with query := q }
      obtain ⟨hdb, hout, hshutdown, htx, hraised⟩ :=
        finish_eq kern ({ st with query := q }.answer db kern).1
      rw [List.map_cons, List.map_cons, loop, session]
      dsimp only
      rw [hbreak]
      cases hcloses : q.command.closes with
      | true =>
          rw [Bool.true_or, Bool.true_or, if_pos rfl, if_pos rfl]
          refine ⟨(congrArg table hdb).trans hanswer.rows, hout.trans hanswer.out,
            hshutdown.trans hanswer.shutdownRequested, ?_, hraised.trans hanswer.raised⟩
          rw [htx, hanswer.txClosed, hcloses, Bool.and_true, Bool.or_assoc, Bool.or_self]
      | false =>
          have hclose : ({ st with query := q }.answer db kern).1.query.close = false := by
            rw [hanswer.query]
            rw [Query.closes_command] at hcloses
            exact (Bool.or_eq_false_iff.mp hcloses).2
          -- where the stream is known to have ended, one more read would find it so
          have hon : (if (false || nodata (queries.map some) ||
                ({ st with query := q }.answer db kern).1.query.close) = true then
                ({ st with query := q }.answer db kern).1.finish kern
              else loop db kern nodata (queries.map some) ({ st with query := q }.answer db kern).1)
              = loop db kern nodata (queries.map some) ({ st with query := q }.answer db kern).1 := by
            rw [hclose, Bool.false_or, Bool.or_false]
            split
            next hend =>
              rw [hnodata _ hend]
              rfl
            next => rfl
          rw [hon, if_neg (by simp)]
          obtain ⟨hrows, hout', hshutdown', htx', hraised'⟩ :=
            ih ({ st with query := q }.answer db kern).1
          have hno : decide (q.command = .shutdown) = false := by
            refine decide_eq_false fun heq => ?_
            rw [heq] at hcloses
            cases hcloses
          rw [hanswer.rows] at hrows hout' hshutdown'
          refine ⟨hrows, ?_, ?_, ?_, hraised'.trans hanswer.raised⟩
          · rw [hout', hanswer.out, List.flatMap_append, List.append_assoc]
          · rw [hshutdown', hanswer.shutdownRequested, hno, Bool.and_false, Bool.or_false]
          · rw [htx', hanswer.txClosed, hcloses, Bool.and_false, Bool.or_false]

/-- `redis_response` writes the replies of the session that its queries are, up to the
first that closes, and leaves the table as the session does.  It asks the kernel to shut
down where the session says so, and it is in a kernel. -/
theorem run_session (h : db.Keeps table) {nodata : List (Option Query) → Bool}
    (hnodata : ∀ rest, nodata rest = true → rest = []) (kern : Bool) (queries : List Query)
    (query : Query) (stmt : Bool) (replyLen : Nat) (reply : List UInt8) (d : δ) :
    let st := run db kern nodata (queries.map some) (start query stmt replyLen reply d)
    let s := session (table d) (queries.map Query.command)
    table st.db = s.table ∧ st.out = s.replies.flatMap Reply.bytes ∧
      st.shutdownRequested = (kern && s.shutdown) ∧ st.txClosed = kern ∧ st.raised = none := by
  have hloop := loop_eq h hnodata kern queries { start query stmt replyLen reply d with
    db := db.create d, stmt := false, replyLen := 0 }
  have hrun : run db kern nodata (queries.map some) (start query stmt replyLen reply d)
      = loop db kern nodata (queries.map some) { start query stmt replyLen reply d with
          db := db.create d, stmt := false, replyLen := 0 } := by
    rw [run, if_pos (h.opens _)]
    rfl
  rw [h.create] at hloop
  rw [hrun]
  exact hloop

/-! ## Statements -/

/-- There is no statement, and as many are live as were in `st`. -/
def Released (st st' : Response δ) : Prop := st'.stmt = false ∧ st'.live = st.live

theorem Released.trans {st st' st'' : Response δ} (h : Released st st') (h' : Released st' st'') :
    Released st st'' :=
  ⟨h'.1, h'.2.trans h.2⟩

theorem released_closeTx (hstmt : st.stmt = false) (kern : Bool) : Released st (st.closeTx kern) := by
  cases kern with
  | true => exact ⟨hstmt, rfl⟩
  | false => exact ⟨hstmt, rfl⟩

theorem released_set (db : Sqlite δ) (st : Response δ) : Released st (st.set db) := by
  cases hprepare : db.preparesSet st.db with
  | true =>
      simp only [set, prepare, hprepare, if_true]
      rw [finalizeIf_of_not rfl]
      exact ⟨rfl, Int.add_sub_cancel st.live 1⟩
  | false =>
      simp only [set, prepare, hprepare, Bool.false_eq_true, if_false]
      rw [finalizeIf_of_not rfl]
      exact ⟨rfl, rfl⟩

/-- Each branch of a row finalizes its statement. -/
theorem column_stmt (value? : Option (List UInt8)) (st : Response δ) :
    (st.column value?).stmt = false ∧ (st.column value?).live = st.live - 1 := by
  cases value? with
  | none => exact ⟨rfl, rfl⟩
  | some value =>
      rw [column]
      split
      next => exact ⟨rfl, rfl⟩
      next => exact ⟨rfl, rfl⟩

theorem released_get (db : Sqlite δ) (st : Response δ) : Released st (st.get db) := by
  cases hprepare : db.preparesGet st.db with
  | true =>
      simp only [get, prepare, hprepare, if_true]
      cases db.stepGet (cstring (st.query.argv ⟨1, by decide⟩)) st.db with
      | none =>
          rw [finalizeIf_of_not rfl]
          exact ⟨rfl, Int.add_sub_cancel st.live 1⟩
      | some value? =>
          obtain ⟨hstmt, hlive⟩ := column_stmt value? { st with stmt := true, live := st.live + 1 }
          rw [finalizeIf_of_not hstmt]
          exact ⟨hstmt, hlive.trans (Int.add_sub_cancel st.live 1)⟩
  | false =>
      simp only [get, prepare, hprepare, Bool.false_eq_true, if_false]
      rw [finalizeIf_of_not rfl]
      exact ⟨rfl, rfl⟩

/-- Whatever fails, no branch of the loop keeps a statement. -/
theorem released_answer (db : Sqlite δ) (kern : Bool) (hstmt : st.stmt = false) :
    Released st (st.answer db kern).1 := by
  unfold answer
  dsimp only
  split
  next =>
    cases kern with
    | true => exact ⟨hstmt, rfl⟩
    | false => exact ⟨hstmt, rfl⟩
  next =>
    split
    next =>
      have hwrite : (st.write (bytes "+OK\r\n")).stmt = false := hstmt
      exact released_closeTx hwrite kern
    next =>
      split
      next => exact ⟨hstmt, rfl⟩
      next =>
        split
        next => exact released_set db st
        next =>
          split
          next => exact released_get db st
          next => exact ⟨hstmt, rfl⟩

theorem released_finish (hstmt : st.stmt = false) (kern : Bool) : Released st (st.finish kern) := by
  have hclose := released_closeTx hstmt kern
  rw [finish, finalizeIf_of_not hclose.1]
  exact hclose

theorem released_loop (db : Sqlite δ) (kern : Bool) (nodata : List (Option Query) → Bool)
    (queries : List (Option Query)) (hstmt : st.stmt = false) :
    Released st (loop db kern nodata queries st) := by
  induction queries generalizing st with
  | nil => exact released_finish hstmt kern
  | cons q? queries ih =>
      cases q? with
      | none =>
          rw [loop, raise, finalizeIf_of_not hstmt]
          exact ⟨hstmt, rfl⟩
      | some q =>
          have hread : { st with query := q }.stmt = false := hstmt
          have hanswer : Released st ({ st with query := q }.answer db kern).1 :=
            released_answer db kern hread
          rw [loop]
          split
          next => exact hanswer.trans (released_finish hanswer.1 kern)
          next => exact hanswer.trans (ih hanswer.1)

/-- `redis_response` finalizes what it has prepared, and nothing else, for all queries
and whatever fails: but where the database cannot be opened it finalizes what its memory
held for a statement. -/
theorem statements_balanced_iff (db : Sqlite δ) (kern : Bool) (nodata : List (Option Query) → Bool)
    (queries : List (Option Query)) (query : Query) (stmt : Bool) (replyLen : Nat)
    (reply : List UInt8) (d : δ) :
    (run db kern nodata queries (start query stmt replyLen reply d)).live = 0 ↔
      db.opens d = true ∨ stmt = false := by
  cases hopen : db.opens d with
  | true =>
      refine iff_of_true ?_ (Or.inl rfl)
      have hbegun : { start query stmt replyLen reply d with
          db := db.create d, stmt := false, replyLen := 0 }.stmt = false := rfl
      have hloop := released_loop db kern nodata queries hbegun
      rw [run, if_pos (show db.opens (start query stmt replyLen reply d).db = true from hopen)]
      exact hloop.2
  | false =>
      rw [run, if_neg (by simp [start, hopen])]
      cases stmt with
      | true => exact iff_of_false (by decide : ¬(-1 : Int) = 0) (by simp)
      | false => exact iff_of_true rfl (Or.inr rfl)

end Response

end Vk.Redis

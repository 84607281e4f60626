/-
# `Mnvkd.RedisSession` — from a line typed to a line printed

A command passes through four coroutines: the client's sender writes what is typed as an
array, `redis_request` reads that into a query, `redis_response` answers it from its
table, and the client's receiver prints the answer.  Between two of them is a stream, and
each may find it cut as it comes, where no call of `vk_readline` stops short of its line.

    sends_one_close     redis_request closes once, with its last query, whatever it reads
    session_printed     what is printed for the lines that are typed is the session that
                        their words are, on a table of keys and values
-/
import Mnvkd.RedisClient
import Mnvkd.RedisReplies

namespace Vk.Redis

open Lib Text

/-! ## What `redis_request` sends -/

/-- A query of a command that closes nothing. -/
def Query.Goes (q : Query) : Prop := q.argc ≠ 0 ∧ q.close = false

/-- What has been sent: while the loops run, commands that close nothing; and at the end
one more query, which closes. -/
def SentWell {σ : Type} (st : State σ) : Prop :=
  match st.stage with
  | .command | .raised _ => ∀ q ∈ st.sent, q.Goes
  | .header | .content | .trailer => 0 < st.query.argc ∧ ∀ q ∈ st.sent, q.Goes
  | .ended => ∃ qs q, st.sent = qs ++ [q] ∧ q.close = true ∧ (q.argc ≠ 0 ∨ q = Query.ended) ∧
      ∀ p ∈ qs, p.Goes

section Sends

variable {σ : Type} {r : Reader σ} {st : State σ}

theorem sentWell_finish (h : ∀ q ∈ st.sent, q.Goes) : SentWell st.finish :=
  ⟨st.sent, Query.ended, rfl, rfl, Or.inr rfl, h⟩

theorem sentWell_count (h : ∀ q ∈ st.sent, q.Goes) : SentWell st.count := by
  unfold State.count State.checkCount
  split
  next => exact h
  next =>
    split
    next => exact h
    next hargc => exact ⟨Int.not_le.mp (not_or.mp hargc).1, h⟩

theorem sentWell_emit (hargc : 0 < st.query.argc) (h : ∀ q ∈ st.sent, q.Goes) :
    SentWell (st.emit r) := by
  have hflag : st.query.flag.argc ≠ 0 := Int.ne_of_gt hargc
  unfold State.emit
  split
  next hclose => exact ⟨st.sent, st.query.flag, rfl, hclose, Or.inl hflag, h⟩
  next hclose =>
    have hsent : ∀ q ∈ st.sent ++ [st.query.flag], q.Goes := by
      intro q hq
      rcases List.mem_append.mp hq with hq | hq
      · exact h q hq
      · rw [List.mem_singleton.mp hq]
        exact ⟨hflag, eq_false_of_ne_true hclose⟩
    split
    next =>
      have hsend : ∀ q ∈ ({ st with query := st.query.flag }.send).sent, q.Goes := hsent
      exact sentWell_finish hsend
    next => exact hsent

/-- One case for each stage. -/
theorem SentWell.step (h : SentWell st) : SentWell (st.step r) := by
  cases hs : st.stage with
  | command =>
      have hgoes : ∀ q ∈ st.sent, q.Goes := by simpa only [SentWell, hs] using h
      simp only [State.step, hs, State.command]
      split
      next =>
        have hread : ∀ q ∈ (st.reopen.readline r).sent, q.Goes := hgoes
        exact sentWell_finish hread
      next =>
        have hline : ∀ q ∈ ((st.reopen.readline r).endLine (st.lineRc r)).sent, q.Goes := hgoes
        exact sentWell_count hline
  | header =>
      obtain ⟨hargc, hgoes⟩ : 0 < st.query.argc ∧ ∀ q ∈ st.sent, q.Goes := by
        simpa only [SentWell, hs] using h
      simp only [State.step, hs]
      split
      next =>
        unfold State.header
        split
        next => exact hgoes
        next => exact ⟨hargc, hgoes⟩
      next => exact sentWell_emit hargc hgoes
  | content =>
      obtain ⟨hargc, hgoes⟩ : 0 < st.query.argc ∧ ∀ q ∈ st.sent, q.Goes := by
        simpa only [SentWell, hs] using h
      simp only [State.step, hs, State.content]
      split
      next => exact hgoes
      next => exact ⟨hargc, hgoes⟩
  | trailer =>
      obtain ⟨hargc, hgoes⟩ : 0 < st.query.argc ∧ ∀ q ∈ st.sent, q.Goes := by
        simpa only [SentWell, hs] using h
      simp only [State.step, hs, State.trailer]
      split
      next => exact hgoes
      next => exact ⟨hargc, hgoes⟩
  | ended => simpa only [State.step, hs] using h
  | raised e => simpa only [State.step, hs] using h

theorem SentWell.run (h : SentWell st) (n : Nat) : SentWell (State.run r n st) := by
  induction n with
  | zero => exact h
  | succ n ih =>
      rw [State.run_succ]
      exact ih.step

end Sends

theorem sentWell_start {σ : Type} (query : Query) (line : List UInt8) (input : σ) :
    SentWell (State.start query line input) := by
  intro q hq
  cases hq

/-- Whatever `redis_request` reads, it sends no query that closes while it goes on, none
where it raises, and one where it ends, which is its last. -/
theorem sends_one_close {σ : Type} (r : Reader σ) (query : Query) (line : List UInt8) (input : σ)
    (n : Nat) :
    let st := State.run r n (State.start query line input)
    if st.stage = .ended then ∃ qs q, st.sent = qs ++ [q] ∧ q.close = true ∧ ∀ p ∈ qs, p.close = false
    else ∀ q ∈ st.sent, q.close = false := by
  have hwell : SentWell (State.run r n (State.start query line input)) :=
    (sentWell_start query line input).run n
  generalize State.run r n (State.start query line input) = st at hwell
  dsimp only
  cases hs : st.stage with
  | command | raised =>
      simp only [SentWell, hs] at hwell
      exact fun q hq => (hwell q hq).2
  | header | content | trailer =>
      simp only [SentWell, hs] at hwell
      exact fun q hq => (hwell.2 q hq).2
  | ended =>
      simp only [SentWell, hs] at hwell
      obtain ⟨qs, q, hsent, hclose, -, hgoes⟩ := hwell
      exact ⟨qs, q, hsent, hclose, fun p hp => (hgoes p hp).2⟩

/-! ## Commands -/

/-- What a command's words ask for. -/
def commandOf (args : List (List UInt8)) : Command :=
  let name := args.headD []
  if strcaseeq name shutdownName then .shutdown
  else if strcaseeq name quitName then .quit
  else if strcaseeq name pingName then .ping
  else if 3 ≤ args.length ∧ strcaseeq name setName = true then .set (args.getD 1 []) (args.getD 2 [])
  else if 2 ≤ args.length ∧ strcaseeq name getName = true then .get (args.getD 1 [])
  else .unknown

/-- What an array asks for, as far as its slots hold it. -/
def RespArray.command (a : RespArray) : Command := commandOf (a.bulks.map fun b => cstring (kept b))

theorem cstring_cstring (s : List UInt8) : cstring (cstring s) = cstring s := List.takeWhile_idem ..

theorem strcaseeq_congr {s t : List UInt8} (h : cstring s = cstring t) (name : List UInt8) :
    strcaseeq s name = strcaseeq t name := by
  rw [strcaseeq, strcaseeq, strcasecmp, strcasecmp, h]

/-- A query for an array asks for what the array does. -/
theorem Decodes.command {a : RespArray} {q : Query} (h : Decodes a q) : q.command = a.command := by
  obtain ⟨name, rest, hbulks⟩ := List.exists_cons_of_ne_nil (List.ne_nil_of_length_pos a.pos)
  have hslot : ∀ (j : Fin maxArgs) b, a.bulks[j.val]? = some b → cstring (q.argv j) = cstring (kept b) :=
    fun j b hb => cstring_of_isPrefix (h.argv j b hb)
  have hname : ∀ s, strcaseeq (q.argv ⟨0, by decide⟩) s = strcaseeq (cstring (kept name)) s := fun s =>
    strcaseeq_congr ((hslot ⟨0, by decide⟩ name (by rw [hbulks]; rfl)).trans (cstring_cstring _).symm) s
  have hnamed : ∀ s, a.named s = strcaseeq (cstring (kept name)) s := fun s => by
    rw [RespArray.named, hbulks]
    exact strcaseeq_congr (cstring_cstring _).symm s
  have hargc : q.argc = (rest.length + 1 : Nat) := by rw [h.argc, hbulks, List.length_cons]
  have hclose : q.close = (strcaseeq (cstring (kept name)) shutdownName ||
      strcaseeq (cstring (kept name)) quitName) := by
    rw [h.close, RespArray.closes, hnamed, hnamed]
  have hshutdown : q.shutdown = strcaseeq (cstring (kept name)) shutdownName := by
    rw [h.shutdown, hnamed]
  have hlength : (a.bulks.map fun b => cstring (kept b)).length = rest.length + 1 := by
    rw [List.length_map, hbulks, List.length_cons]
  have hhead : (a.bulks.map fun b => cstring (kept b)).headD [] = cstring (kept name) := by
    rw [hbulks]
    rfl
  have harg : ∀ j : Fin maxArgs, j.val < rest.length + 1 →
      cstring (q.argv j) = (a.bulks.map fun b => cstring (kept b)).getD j.val [] := fun j hj => by
    obtain ⟨b, hb⟩ : ∃ b, a.bulks[j.val]? = some b := by
      rw [hbulks]
      exact ⟨_, List.getElem?_eq_getElem hj⟩
    rw [hslot j b hb, List.getD_eq_getElem?_getD, List.getElem?_map, hb]
    rfl
  unfold Query.command RespArray.command commandOf
  dsimp only
  rw [hlength, hhead]
  simp only [hname, hclose, hshutdown, hargc]
  cases strcaseeq (cstring (kept name)) shutdownName with
  | true => rfl
  | false =>
      cases strcaseeq (cstring (kept name)) quitName with
      | true => rfl
      | false =>
          have hle : ∀ n : Nat, (n : Int) ≤ ((rest.length + 1 : Nat) : Int) ↔ n ≤ rest.length + 1 :=
            fun n => Int.ofNat_le
          have hpos : (0 : Int) < ((rest.length + 1 : Nat) : Int) := by omega
          simp only [hpos, true_and, Bool.or_self, Bool.false_eq_true, if_false]
          by_cases hping : strcaseeq (cstring (kept name)) pingName = true
          · rw [if_pos hping, if_pos hping]
          rw [if_neg hping, if_neg hping]
          by_cases hset : 3 ≤ rest.length + 1 ∧ strcaseeq (cstring (kept name)) setName = true
          · rw [if_pos hset, if_pos ⟨(hle 3).mpr hset.1, hset.2⟩, harg ⟨1, by decide⟩ (show 1 < _ by omega),
              harg ⟨2, by decide⟩ (show 2 < _ by omega)]
          rw [if_neg hset, if_neg fun h => hset ⟨(hle 3).mp h.1, h.2⟩]
          by_cases hget : 2 ≤ rest.length + 1 ∧ strcaseeq (cstring (kept name)) getName = true
          · rw [if_pos hget, if_pos ⟨(hle 2).mpr hget.1, hget.2⟩, harg ⟨1, by decide⟩ (show 1 < _ by omega)]
          rw [if_neg hget, if_neg fun h => hget ⟨(hle 2).mp h.1, h.2⟩]

theorem closes_commandOf (args : List (List UInt8)) : (commandOf args).closes
    = (strcaseeq (args.headD []) shutdownName || strcaseeq (args.headD []) quitName) := by
  unfold commandOf
  dsimp only
  cases strcaseeq (args.headD []) shutdownName with
  | true => rfl
  | false =>
      cases strcaseeq (args.headD []) quitName with
      | true => rfl
      | false =>
          simp only [Bool.false_eq_true, if_false, Bool.or_self]
          split
          next => rfl
          next =>
            split
            next => rfl
            next =>
              split
              next => rfl
              next => rfl

theorem RespArray.closes_command (a : RespArray) : a.command.closes = a.closes := by
  have hhead : ∀ s, strcaseeq ((a.bulks.map fun b => cstring (kept b)).headD []) s = a.named s := fun s => by
    obtain ⟨name, rest, hbulks⟩ := List.exists_cons_of_ne_nil (List.ne_nil_of_length_pos a.pos)
    rw [RespArray.named, hbulks]
    exact strcaseeq_congr (cstring_cstring _) s
  rw [RespArray.command, closes_commandOf, hhead, hhead]
  rfl

/-! ## The session -/

/-- A command that closes ends the session. -/
theorem session_append (kv : Table) {cs : List Command} (h : ∃ c ∈ cs, c.closes = true)
    (later : List Command) : session kv (cs ++ later) = session kv cs := by
  induction cs generalizing kv with
  | nil =>
      obtain ⟨c, hc, -⟩ := h
      cases hc
  | cons c cs ih =>
      rw [List.cons_append, session, session]
      cases hclose : c.closes with
      | true => rfl
      | false =>
          have hrest : ∃ c ∈ cs, c.closes = true := by
            obtain ⟨b, hb, hbclose⟩ := h
            rcases List.mem_cons.mp hb with rfl | hb
            · rw [hclose] at hbclose
              cases hbclose
            · exact ⟨b, hb, hbclose⟩
          simp only [Bool.false_eq_true, if_false]
          rw [ih _ hrest]

/-- So arrays that are not served are not missed. -/
theorem session_served (kv : Table) (arrays : List RespArray) (later : List Command) :
    session kv ((served arrays).map RespArray.command ++ later)
      = session kv (arrays.map RespArray.command ++ later) := by
  induction arrays generalizing kv with
  | nil => rfl
  | cons a arrays ih =>
      rw [served_cons, List.map_cons, List.map_cons, List.cons_append, List.cons_append, session,
        session, RespArray.closes_command]
      cases a.closes with
      | true => rfl
      | false =>
          simp only [Bool.false_eq_true, if_false]
          rw [ih]

/-- Where nothing closes everything is served. -/
theorem served_eq_self {arrays : List RespArray} (h : ∀ a ∈ served arrays, a.closes = false) :
    served arrays = arrays := by
  induction arrays with
  | nil => rfl
  | cons a arrays ih =>
      rw [served_cons] at h ⊢
      rw [h a List.mem_cons_self, if_neg (by simp)] at h ⊢
      rw [ih fun b hb => h b (List.mem_cons_of_mem a hb)]

theorem map_command {arrays : List RespArray} {queries : List Query}
    (h : List.Forall₂ Decodes arrays queries) :
    queries.map Query.command = arrays.map RespArray.command := by
  induction h with
  | nil => rfl
  | cons hq _ ih => rw [List.map_cons, List.map_cons, hq.command, ih]

theorem map_close {arrays : List RespArray} {queries : List Query}
    (h : List.Forall₂ Decodes arrays queries) :
    queries.map Query.close = arrays.map RespArray.closes := by
  induction h with
  | nil => rfl
  | cons hq _ ih => rw [List.map_cons, List.map_cons, hq.close, ih]

/-- What is sent for arrays is their session; where none of them closes, the end of the
stream does. -/
theorem session_sent {σ : Type} {arrays : List RespArray} {st : State σ} (hended : st.stage = .ended)
    (hwell : SentWell st) (hcommands : List.Forall₂ Decodes (served arrays) st.commands) (kv : Table) :
    session kv (st.sent.map Query.command) = session kv (arrays.map RespArray.command ++ [.quit]) := by
  simp only [SentWell, hended] at hwell
  obtain ⟨qs, q, hsent, hclose, hlast, hgoes⟩ := hwell
  have hqs : qs.filter (·.argc != 0) = qs :=
    List.filter_eq_self.mpr fun p hp => bne_iff_ne.mpr (hgoes p hp).1
  rw [State.commands, hsent, List.filter_append, hqs] at hcommands
  rcases hlast with hargc | rfl
  · -- the last query is a command, and closes
    have hq : [q].filter (·.argc != 0) = [q] := by
      rw [List.filter_cons, if_pos (bne_iff_ne.mpr hargc)]
      rfl
    rw [hq] at hcommands
    obtain ⟨a, ha, haclose⟩ : ∃ a ∈ served arrays, a.closes = true := by
      have hmem : true ∈ (served arrays).map RespArray.closes := by
        rw [← map_close hcommands, List.map_append, List.mem_append]
        exact Or.inr (by simp [hclose])
      obtain ⟨a, ha, haclose⟩ := List.mem_map.mp hmem
      exact ⟨a, ha, haclose⟩
    rw [hsent, map_command hcommands, ← session_served, session_append kv
      ⟨a.command, List.mem_map_of_mem ha, by rw [RespArray.closes_command, haclose]⟩]
  · -- the stream ended, and every command goes
    have hq : [Query.ended].filter (·.argc != 0) = [] := rfl
    rw [hq, List.append_nil] at hcommands
    have hnone : ∀ a ∈ served arrays, a.closes = false := fun a ha => by
      have hmem : a.closes ∈ qs.map Query.close := by
        rw [map_close hcommands]
        exact List.mem_map_of_mem ha
      obtain ⟨p, hp, hpclose⟩ := List.mem_map.mp hmem
      rw [← hpclose, (hgoes p hp).2]
    rw [served_eq_self hnone] at hcommands
    rw [hsent, List.map_append, map_command hcommands]
    rfl

/-- The replies of a session fit the client's receiver. -/
theorem session_fits (kv : Table) (cs : List Command) :
    ∀ reply ∈ (session kv cs).replies, reply.Fits := by
  have hone : ∀ (c : Command) (kv : Table), ∀ reply ∈ c.replies kv, reply.Fits := by
    intro c kv reply hreply
    cases c with
    | shutdown => cases hreply
    | quit | set =>
        rw [List.mem_singleton.mp hreply]
        exact ⟨by decide, by decide⟩
    | ping =>
        rw [List.mem_singleton.mp hreply]
        exact ⟨by decide, by decide⟩
    | unknown =>
        rw [List.mem_singleton.mp hreply]
        exact ⟨by decide, by decide⟩
    | get key =>
        rw [List.mem_singleton.mp hreply]
        cases kv key with
        | none => trivial
        | some value =>
            show (kept (cstring value)).length < maxBulk
            rw [kept, List.length_take]
            exact Nat.lt_of_le_of_lt (Nat.min_le_left _ _) (by decide)
  induction cs generalizing kv with
  | nil =>
      intro reply hreply
      cases hreply
  | cons c cs ih =>
      rw [session]
      split
      next => exact hone c kv
      next =>
        intro reply hreply
        rcases List.mem_append.mp hreply with hreply | hreply
        · exact hone c kv reply hreply
        · exact ih _ reply hreply

/-- What the memory of the four coroutines held before they begin. -/
structure Held where
  sender : Query
  request : Query
  requestLine : List UInt8
  response : Query
  stmt : Bool
  replyLen : Nat
  reply : List UInt8
  receiverLine : List UInt8
  len : Int
  bulkLen : Int
  bulk : List UInt8

/-- The session of the lines that are typed. -/
def typedSession (kv : Table) (lines : List Typed) : Session :=
  session kv ((lines.map fun t => t.array.command) ++ [.quit])

/-- The client's sender ends, having written what is typed.  `redis_request` reads that, and
ends too.  When `redis_response` has its queries, the table is left as the session of the
lines leaves it, and the kernel, if there is one, is to shut down where that says so.  And
the client's receiver, which reads what that wrote, ends, having printed the session's
replies.  So it is however each of the streams is cut, where no call looks at a newline
inside of a line, and whatever else was in memory. -/
theorem session_printed {δ : Type} {sender server receiver : Wire} (hsender : sender.Quiet)
    (hserver : server.Quiet) (hreceiver : receiver.Quiet) {db : Sqlite δ} {table : δ → Table}
    (hdb : db.Keeps table) {nodata : List (Option Query) → Bool}
    (hnodata : ∀ rest, nodata rest = true → rest = []) (kern : Bool) (held : Held) (d : δ)
    (lines : List Typed) :
    ∃ i, (Client.run sender.reader i (typing held.sender lines)).ended = true ∧
      ∃ j, (State.run server.reader j (State.start held.request held.requestLine
          (0, (Client.run sender.reader i (typing held.sender lines)).out))).stage = .ended ∧
        let st := Response.run db kern nodata
          ((State.run server.reader j (State.start held.request held.requestLine
            (0, (Client.run sender.reader i (typing held.sender lines)).out))).sent.map some)
          (Response.start held.response held.stmt held.replyLen held.reply d)
        table st.db = (typedSession (table d) lines).table ∧
          st.shutdownRequested = (kern && (typedSession (table d) lines).shutdown) ∧
          st.txClosed = kern ∧ st.raised = none ∧
          ∃ k, (Printer.run receiver.reader k (Printer.start held.receiverLine held.len held.bulkLen
              held.bulk (0, st.out))).stage = .ended ∧
            (Printer.run receiver.reader k (Printer.start held.receiverLine held.len held.bulkLen
              held.bulk (0, st.out))).out = (typedSession (table d) lines).replies.flatMap Reply.text := by
  have hharmless : ∀ k, (Client.run sender.reader k (typing held.sender lines)).Harmless sender :=
    fun _ => Client.harmless_of_quiet hsender
  obtain ⟨-, i, hended, hout⟩ := writes_typed hharmless
  have hleft : ((0, (Client.run sender.reader i (typing held.sender lines)).out) : Spot).2
      = encode (served (lines.map (·.array))) := hout
  have hframed := framed_of_slots (Wire.streams hserver) hleft held.request held.requestLine (by
    rw [served_served]
    exact fun a ha w hw => (words_typed lines a ha w hw).length)
  obtain ⟨j, hj, hqueries⟩ := hframed.queries
  have hsession : session (table d) ((State.run server.reader j (State.start held.request
        held.requestLine (0, (Client.run sender.reader i (typing held.sender lines)).out))).sent.map
          Query.command) = typedSession (table d) lines := by
    rw [session_sent hj ((sentWell_start _ _ _).run j) hqueries, session_served, List.map_map]
    rfl
  obtain ⟨htable, hreplies, hshutdown, hclosed, hraised⟩ := Response.run_session hdb hnodata kern
    (State.run server.reader j (State.start held.request held.requestLine
      (0, (Client.run sender.reader i (typing held.sender lines)).out))).sent
    held.response held.stmt held.replyLen held.reply d
  rw [hsession] at htable hreplies hshutdown
  refine ⟨i, hended, j, hj, htable, hshutdown, hclosed, hraised, ?_⟩
  exact Printer.prints_from (Wire.streams hreceiver) _ (session_fits (table d) _) rfl hreplies

/-- A database that is its table. -/
def tableDb : Sqlite Table where
  opens _ := true
  create := id
  preparesSet _ := true
  stepSet key value kv := (true, Function.update kv key (some value))
  preparesGet _ := true
  stepGet key kv := (kv key).map some

theorem keeps_tableDb : tableDb.Keeps id :=
  ⟨fun _ => rfl, fun _ => rfl, fun _ => rfl, fun _ _ _ => rfl, fun _ _ _ => rfl, fun _ => rfl,
    fun _ _ => rfl⟩

def heldNothing : Held := ⟨Query.ended, Query.ended, [], Query.ended, true, 0, [], [], 0, 0, []⟩

/-- `GET k` and `quit` are typed, where all keys have `v`, and a `GET k` behind them. -/
theorem session_printed_getQuit : ∃ i j k, (Printer.run Wire.bytewise.reader k (Printer.start [] 0 0 []
    (0, (Response.run tableDb true List.isEmpty ((State.run Wire.bytewise.reader j
      (State.start Query.ended [] (0, (Client.run Wire.bytewise.reader i (typing Query.ended
        [getLine, quitLine, getLine])).out))).sent.map some)
      (Response.start Query.ended true 0 [] fun _ => some (bytes "v"))).out))).out
      = bytes "v\nOK\n" := by
  obtain ⟨i, -, j, -, -, -, -, -, k, -, hout⟩ := session_printed Wire.bytewise_quiet
    Wire.bytewise_quiet Wire.bytewise_quiet keeps_tableDb (fun _ => List.isEmpty_iff.mp) true
    heldNothing (fun _ => some (bytes "v")) [getLine, quitLine, getLine]
  exact ⟨i, j, k, hout.trans (by decide +kernel)⟩

end Vk.Redis

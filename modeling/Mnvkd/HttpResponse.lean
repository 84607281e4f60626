/-
# `Mnvkd.HttpResponse` — what a response is made of

`http11_response` writes a response from literals in nested branches.  A response
is to be a status line, header lines, one empty line and the body that the
headers announce (`WellFormed`).

Two branches of HTTP/1.1 leave the empty line out (`Unended`): the one that
answers a chunked `GET`, which ends its chunks neither, and the one that answers
a request that has no entity.  And one that waits for the hang-up behind its chunks
(`Awaits`) never ends if it is not there yet when it polls.
-/
import Mathlib.Data.List.Infix
import Mnvkd.Http
import Mnvkd.RfcChunk

namespace Vk.Http

open Lib Text Fetch Rfc

/-! ## What is taken off a pipe -/

theorem items_append (as bs : List UInt8) : items (as ++ bs) = items as ++ items bs :=
  List.map_append

theorem length_items (bs : List UInt8) : (items bs).length = bs.length := List.length_map _

theorem hup_not_mem_items (bs : List UInt8) : Item.hup ∉ items bs := by
  intro h
  obtain ⟨b, -, hb⟩ := List.mem_map.mp h
  cases hb

theorem takeBytes_items (bs : List UInt8) (rest : List Item) :
    takeBytes bs.length (items bs ++ rest) = some (bs, rest) := by
  induction bs with
  | nil => rfl
  | cons b bs ih =>
      show (takeBytes bs.length (items bs ++ rest)).map (fun t => (b :: t.1, t.2)) = _
      rw [ih]
      rfl

theorem takeBytes_take {bs : List UInt8} {n : Nat} (h : n ≤ bs.length) (rest : List Item) :
    takeBytes n (items bs ++ rest) = some (bs.take n, items (bs.drop n) ++ rest) := by
  have hsplit : items bs ++ rest = items (bs.take n) ++ (items (bs.drop n) ++ rest) := by
    rw [← List.append_assoc, ← items_append, List.take_append_drop]
  have hlen : (bs.take n).length = n := by rw [List.length_take, Nat.min_eq_left h]
  have htake := takeBytes_items (bs.take n) (items (bs.drop n) ++ rest)
  rwa [hlen, ← hsplit] at htake

theorem takeBytes_eq_some {n : Nat} {pipe : List Item} {bs : List UInt8} {rest : List Item}
    (h : takeBytes n pipe = some (bs, rest)) : pipe = items bs ++ rest ∧ bs.length = n := by
  induction n generalizing pipe bs with
  | zero =>
      cases h
      exact ⟨rfl, rfl⟩
  | succ n ih =>
      cases pipe with
      | nil => cases h
      | cons item pipe =>
          cases item with
          | hup => cases h
          | byte b =>
              obtain ⟨⟨bs', rest'⟩, htake, heq⟩ := Option.map_eq_some_iff.mp h
              cases heq
              obtain ⟨hpipe, hlen⟩ := ih htake
              exact ⟨by rw [hpipe]; rfl, congrArg (· + 1) hlen⟩

/-! ## Chunks -/

/-- A chunk as it is written. -/
def chunkBytes (piece : List UInt8) : List UInt8 :=
  hexadecimal piece.length ++ bytes "\r\n" ++ piece ++ bytes "\r\n"

/-- A sequence of chunks, and the one that terminates it. -/
def chunksBytes (pieces : List (List UInt8)) : List UInt8 :=
  pieces.flatMap chunkBytes ++ bytes "0\r\n\r\n"

theorem lead_items (bs : List UInt8) (rest : List Item) :
    lead (items bs ++ .hup :: rest) = bs.length := by
  induction bs with
  | nil => rfl
  | cons b bs ih =>
      show lead (items bs ++ .hup :: rest) + 1 = _
      rw [ih]
      rfl

theorem polled_le (feed : Feed) {bs : List UInt8} (h : bs ≠ []) (rest : List Item) :
    1 ≤ polled feed (items bs ++ .hup :: rest) ∧
      polled feed (items bs ++ .hup :: rest) ≤ bs.length ∧
      polled feed (items bs ++ .hup :: rest) ≤ bufSize := by
  have hpos := List.length_pos_of_ne_nil h
  have hbuf : 1 ≤ bufSize := by decide
  rw [polled, lead_items]
  omega

/-- The head of a chunk that fits a ring. -/
theorem take_chunkhead (c : RfcChunkHead) {n : Nat} (hpos : 1 ≤ n) (hle : n ≤ bufSize) :
    ({ c with size := n.toUInt64 } : RfcChunkHead).updateHead.1.head.take
        ({ c with size := n.toUInt64 } : RfcChunkHead).updateHead.2
      = hexadecimal n ++ bytes "\r\n" := by
  have hbuf : bufSize = 16384 := rfl
  have hnat : n.toUInt64.toNat = n := Nat.mod_eq_of_lt (by omega)
  have hwritable : Writable n.toUInt64 := by
    refine ⟨fun h0 => ?_, .inl (by omega)⟩
    rw [h0] at hnat
    exact absurd hnat.symm (Nat.pos_iff_ne_zero.mp hpos)
  rw [RfcChunkHead.take_updateHead,
    hwritable.take_sizeHex (by show 16 ≤ c.head.length; rw [c.length_head]; omega), hnat]

/-- The loop over chunks writes what comes before the hang-up, in pieces, and comes to its end
where that is heard. -/
theorem writeChunks_items (feed : Feed) (fuel : Nat) (c : RfcChunkHead)
    (bs : List UInt8) (rest : List Item) (h : bs.length < fuel) :
    ∃ c' pieces, writeChunks feed fuel c (items bs ++ .hup :: rest)
        = (if feed.heard rest then some ⟨c', chunksBytes pieces, rest⟩ else none) ∧
      pieces.flatten = bs ∧ ∀ piece ∈ pieces, piece ≠ [] := by
  induction fuel generalizing c bs with
  | zero => exact absurd h (Nat.not_lt_zero _)
  | succ fuel ih =>
      by_cases hbs : bs = []
      · subst hbs
        exact ⟨c, [], rfl, rfl, nofun⟩
      obtain ⟨hpos, hlen, hbuf⟩ := polled_le feed hbs rest
      have htake := takeBytes_take hlen (.hup :: rest)
      have hhead := take_chunkhead c hpos hbuf
      generalize hn : polled feed (items bs ++ .hup :: rest) = n at hpos hlen hbuf htake hhead
      have hdrop : (bs.drop n).length < fuel := by
        rw [List.length_drop]
        omega
      obtain ⟨c', pieces, hwrite, hflatten, hne⟩ :=
        ih ({ c with size := n.toUInt64 } : RfcChunkHead).updateHead.1 (bs.drop n) hdrop
      refine ⟨c', bs.take n :: pieces, ?_, ?_, ?_⟩
      · have hstep : writeChunks feed (fuel + 1) c (items bs ++ .hup :: rest)
            = (takeBytes n (items bs ++ .hup :: rest)).bind fun chunk =>
                (writeChunks feed fuel ({ c with size := n.toUInt64 } : RfcChunkHead).updateHead.1
                  chunk.2).map fun d =>
                    { d with output := hexadecimal n ++ bytes "\r\n" ++ chunk.1 ++ bytes "\r\n"
                        ++ d.output } := by
          cases bs with
          | nil => exact absurd rfl hbs
          | cons b bs =>
              rw [← hhead, ← hn]
              rfl
        have hcount : (bs.take n).length = n := by rw [List.length_take, Nat.min_eq_left hlen]
        rw [hstep, htake, Option.bind_some, hwrite, apply_ite (Option.map _), Option.map_some,
          Option.map_none, chunksBytes, chunksBytes, List.flatMap_cons, chunkBytes, hcount]
        simp only [List.append_assoc]
      · rw [List.flatten_cons, hflatten, List.take_append_drop]
      · intro piece hpiece
        rcases List.mem_cons.mp hpiece with rfl | hpiece
        · intro hnil
          have hcount := congrArg List.length hnil
          rw [List.length_take, Nat.min_eq_left hlen] at hcount
          exact absurd hcount (Nat.pos_iff_ne_zero.mp hpos)
        · exact hne piece hpiece

/-! ## A response -/

/-- A status line. -/
def StatusLine (line : List UInt8) : Prop :=
  line = bytes "HTTP/1.0 200 OK" ∨ line = bytes "HTTP/1.1 200 OK"

/-- A header line: a name and a value, on one line. -/
structure HeaderLine (line : List UInt8) : Prop where
  colon : ':'.toUInt8 ∈ line
  cr : '\r'.toUInt8 ∉ line
  lf : '\n'.toUInt8 ∉ line

def chunkedHeader : List UInt8 := bytes "Transfer-Encoding: chunked"

def lengthHeader (n : Nat) : List UInt8 := bytes "Content-Length: " ++ decimal n

/-- The body that headers announce. -/
inductive Body (headers : List (List UInt8)) : List UInt8 → Prop
  | chunked {pieces : List (List UInt8)} : chunkedHeader ∈ headers →
      (∀ piece ∈ pieces, piece ≠ []) → Body headers (chunksBytes pieces)
  | fixed {n : Nat} {body : List UInt8} : chunkedHeader ∉ headers → lengthHeader n ∈ headers →
      body.length = n → Body headers body
  | empty : chunkedHeader ∉ headers → (∀ n, lengthHeader n ∉ headers) → Body headers []

/-- A line, and its break. -/
def lineBytes (line : List UInt8) : List UInt8 := line ++ bytes "\r\n"

/-- The bytes are a response. -/
def WellFormed (output : List UInt8) : Prop :=
  ∃ status headers body, output
      = lineBytes status ++ headers.flatMap lineBytes ++ bytes "\r\n" ++ body ∧
    StatusLine status ∧ (∀ line ∈ headers, HeaderLine line) ∧ Body headers body

/-- There is an empty line in a response. -/
theorem WellFormed.empty_line {output : List UInt8} (h : WellFormed output) :
    bytes "\r\n\r\n" <:+: output := by
  obtain ⟨status, headers, body, rfl, -, -, -⟩ := h
  have hlast : bytes "\r\n" <:+ lineBytes status ++ headers.flatMap lineBytes := by
    rcases List.eq_nil_or_concat headers with rfl | ⟨init, last, rfl⟩
    · exact ⟨status, (List.append_nil _).symm⟩
    · refine ⟨lineBytes status ++ (init.flatMap lineBytes ++ last), ?_⟩
      simp only [List.concat_eq_append, List.flatMap_append, List.flatMap_cons, List.flatMap_nil,
        List.append_nil, lineBytes, List.append_assoc]
  obtain ⟨front, hfront⟩ := hlast
  refine ⟨front, body, ?_⟩
  have hline : bytes "\r\n\r\n" = bytes "\r\n" ++ bytes "\r\n" := rfl
  rw [← hfront, hline, List.append_assoc, List.append_assoc, List.append_assoc,
    List.append_assoc]

/-! ## What is announced of an entity -/

/-- The entity on the pipe has the form that the request announces: chunks up to a hang-up
where it is HTTP/1.1 and chunked, and else the bytes of the length. -/
def Announced (q : Request) (entity : List Item) : Prop :=
  if q.version = .http11 ∧ q.chunked then ∃ bs, entity = items bs ++ [.hup]
  else ∃ bs, entity = items bs ∧ bs.length = q.contentLength.toNat

/-- The request is answered by a response, where this is its entity, and behind that the
rest of the pipe. -/
def Answered (feed : Feed) (q : Request) (entity rest : List Item) : Prop :=
  ∀ c, ∃ d, respond feed c q (entity ++ rest) = some d ∧ WellFormed d.output

/-- The branch that waits for a hang-up. -/
def Awaits (q : Request) : Prop :=
  q.version = .http11 ∧ q.method ≠ .get ∧ q.chunked = true

/-- The branches that leave out the empty line. -/
def Unended (q : Request) : Prop :=
  q.version = .http11 ∧
    if q.method = .get then q.chunked = true else q.chunked = false ∧ q.contentLength = 0

theorem isdigit_ne {b : UInt8} (h : isdigit b = true) :
    b ≠ '\r'.toUInt8 ∧ b ≠ '\n'.toUInt8 := by
  refine ⟨?_, ?_⟩
  · rintro rfl
    exact absurd h (by decide)
  · rintro rfl
    exact absurd h (by decide)

theorem headerLine_length (n : Nat) : HeaderLine (lengthHeader n) where
  colon := List.mem_append_left _ (by decide)
  cr := by
    rw [lengthHeader, List.mem_append]
    rintro (h | h)
    · exact absurd h (by decide)
    · exact (isdigit_ne (isdigit_decimal n _ h)).1 rfl
  lf := by
    rw [lengthHeader, List.mem_append]
    rintro (h | h)
    · exact absurd h (by decide)
    · exact (isdigit_ne (isdigit_decimal n _ h)).2 rfl

/-- A text is no length header if it does not begin like one. -/
theorem lengthHeader_ne {line : List UInt8} (h : ¬ bytes "Content-Length: " <+: line) (n : Nat) :
    lengthHeader n ≠ line := by
  rintro rfl
  exact h ⟨_, rfl⟩

/-! ## The branches -/

def typeHeader : List UInt8 := bytes "Content-Type: text/plain"

def closeHeader : List UInt8 := bytes "Connection: close"

/-- The headers of a response to HTTP/1.1, but for the length. -/
def headers11 (q : Request) : List (List UInt8) :=
  typeHeader :: ((if q.chunked then [chunkedHeader] else []) ++
    if q.close then [closeHeader] else [])

theorem headerLine_headers11 (q : Request) : ∀ line ∈ headers11 q, HeaderLine line := by
  have hall : ∀ line ∈ [typeHeader, chunkedHeader, closeHeader], HeaderLine line := by
    have hdec : ∀ line ∈ [typeHeader, chunkedHeader, closeHeader],
        ':'.toUInt8 ∈ line ∧ '\r'.toUInt8 ∉ line ∧ '\n'.toUInt8 ∉ line := by decide
    exact fun line hline => ⟨(hdec line hline).1, (hdec line hline).2.1, (hdec line hline).2.2⟩
  intro line hline
  apply hall
  simp only [headers11, List.mem_cons, List.mem_append] at hline
  rcases hline with rfl | hline | hline
  · exact List.mem_cons_self
  · split at hline
    next => exact List.mem_cons_of_mem _ (List.mem_cons.mpr (.inl (List.mem_singleton.mp hline)))
    next => cases hline
  · split at hline
    next =>
      rw [List.mem_singleton.mp hline]
      decide
    next => cases hline

theorem chunkedHeader_mem (q : Request) : chunkedHeader ∈ headers11 q ↔ q.chunked = true := by
  simp only [headers11]
  cases q.chunked <;> cases q.close <;> decide

/-! The literals, line by line. -/

theorem status10_line : bytes "HTTP/1.0 200 OK\r\n" = lineBytes (bytes "HTTP/1.0 200 OK") := by
  decide

theorem status11_line : bytes "HTTP/1.1 200 OK\r\n" = lineBytes (bytes "HTTP/1.1 200 OK") := by
  decide

theorem type_line : bytes "Content-Type: text/plain\r\n" = lineBytes typeHeader := by
  decide

theorem chunked_line : bytes "Transfer-Encoding: chunked\r\n" = lineBytes chunkedHeader := by
  decide

theorem close_line : bytes "Connection: close\r\n" = lineBytes closeHeader := by
  decide

theorem length14_line : bytes "Content-Length: 14\r\n" = lineBytes (lengthHeader 14) := by
  decide

theorem hello_lines : bytes "Content-Length: 14\r\n\r\nHello, World!\n"
    = lineBytes (lengthHeader 14) ++ bytes "\r\n" ++ bytes "Hello, World!\n" := by
  decide

theorem length_hello : (bytes "Hello, World!\n").length = 14 := by
  decide

theorem header11_eq (q : Request) :
    header11 q = lineBytes (bytes "HTTP/1.1 200 OK") ++ (headers11 q).flatMap lineBytes := by
  simp only [header11, headers11, status11_line, type_line, chunked_line, close_line,
    List.flatMap_cons, List.flatMap_append, List.append_assoc]
  cases q.chunked <;> cases q.close <;> simp

theorem wellFormed_of_fixed {status : List UInt8} {headers : List (List UInt8)} {n : Nat}
    {body : List UInt8} (hstatus : StatusLine status) (hheaders : ∀ line ∈ headers, HeaderLine line)
    (hchunked : chunkedHeader ∉ headers) (hbody : body.length = n) :
    WellFormed (lineBytes status ++ (headers ++ [lengthHeader n]).flatMap lineBytes ++
      bytes "\r\n" ++ body) := by
  refine ⟨status, headers ++ [lengthHeader n], body, rfl, hstatus, ?_, ?_⟩
  · intro line hline
    rcases List.mem_append.mp hline with hline | hline
    · exact hheaders line hline
    · rw [List.mem_singleton.mp hline]
      exact headerLine_length n
  · refine .fixed ?_ (List.mem_append_right _ List.mem_cons_self) hbody
    rw [List.mem_append, List.mem_singleton]
    rintro (h | h)
    · exact hchunked h
    · exact lengthHeader_ne (by decide) n h.symm

theorem wellFormed11_of_fixed {q : Request} {n : Nat} {body : List UInt8}
    (hchunked : q.chunked = false) (hbody : body.length = n) :
    WellFormed (header11 q ++ lineBytes (lengthHeader n) ++ bytes "\r\n" ++ body) := by
  have hnone : chunkedHeader ∉ headers11 q := by
    rw [chunkedHeader_mem, hchunked]
    nofun
  have hmade := wellFormed_of_fixed (.inr rfl) (headerLine_headers11 q) hnone hbody
  rwa [List.flatMap_append, List.flatMap_singleton, ← List.append_assoc, ← header11_eq] at hmade

/-- A fixed entity is moved. -/
theorem forward_items (c : RfcChunkHead) {len : UInt64} {bs : List UInt8}
    (h : bs.length = len.toNat) (rest : List Item) :
    forward c len (items bs ++ rest) = some ⟨c, bs, rest⟩ := by
  rw [forward, ← h, takeBytes_items]
  rfl

section Answered
variable {q : Request} (feed : Feed) (c : RfcChunkHead) {entity : List Item}
  (rest : List Item) (h : Announced q entity)
include h

/-- HTTP/1.0 is answered by a response of a fixed length. -/
theorem respond10_wellFormed (hv : q.version = .http10) :
    ∃ d, respond10 c q (entity ++ rest) = some d ∧ WellFormed d.output := by
  have hn : ¬ (q.version = .http11 ∧ q.chunked = true) := by
    rw [hv]
    nofun
  rw [Announced, if_neg hn] at h
  obtain ⟨bs, rfl, hlen⟩ := h
  have htype : ∀ line ∈ [typeHeader], HeaderLine line := by
    intro line hline
    rw [List.mem_singleton.mp hline]
    exact ⟨by decide, by decide, by decide⟩
  have hheader : ∀ n, lineBytes (lengthHeader n) = (if q.method = .get
        then bytes "Content-Length: 14\r\n" else contentLengthLine q.contentLength) →
      header10 q = lineBytes (bytes "HTTP/1.0 200 OK") ++
        ([typeHeader] ++ [lengthHeader n]).flatMap lineBytes ++ bytes "\r\n" := by
    intro n hline
    rw [header10, ← hline, status10_line, type_line]
    simp only [List.singleton_append, List.flatMap_cons, List.flatMap_nil, List.append_nil,
      List.append_assoc]
  rw [respond10]
  split
  next hget =>
    refine ⟨_, rfl, ?_⟩
    show WellFormed (header10 q ++ bytes "Hello, World!\n")
    rw [hheader 14 (by rw [if_pos hget, length14_line])]
    exact wellFormed_of_fixed (.inl rfl) htype (by decide) length_hello
  next hget =>
    split
    next hpos =>
      rw [forward_items c hlen]
      refine ⟨_, rfl, ?_⟩
      show WellFormed (header10 q ++ bs)
      rw [hheader q.contentLength.toNat (by rw [if_neg hget]; rfl)]
      exact wellFormed_of_fixed (.inl rfl) htype (by decide) hlen
    next hpos =>
      refine ⟨_, rfl, ?_⟩
      have hzero : q.contentLength.toNat = 0 := by
        rw [UInt64.lt_iff_toNat_lt] at hpos
        exact Nat.eq_zero_of_not_pos hpos
      show WellFormed (header10 q)
      rw [hheader q.contentLength.toNat (by rw [if_neg hget]; rfl),
        ← List.append_nil (_ ++ bytes "\r\n")]
      exact wellFormed_of_fixed (.inl rfl) htype (by decide) hzero.symm

/-- So is HTTP/1.1, or in chunks, but where the empty line is left out, or a hang-up is not
heard. -/
theorem respond11_wellFormed (hv : q.version = .http11) (hq : ¬ Unended q)
    (hheard : Awaits q → feed.heard rest = true) :
    ∃ d, respond11 feed c q (entity ++ rest) = some d ∧ WellFormed d.output := by
  rw [respond11]
  by_cases hget : q.method = .get
  · have hchunked : q.chunked = false := by
      rw [← Bool.not_eq_true]
      intro hchunked
      exact hq ⟨hv, by rw [if_pos hget]; exact hchunked⟩
    rw [if_pos hget, hchunked, if_neg Bool.false_ne_true]
    refine ⟨_, rfl, ?_⟩
    have hmade := wellFormed11_of_fixed hchunked length_hello
    rw [List.append_assoc, List.append_assoc] at hmade
    show WellFormed (header11 q ++ bytes "Content-Length: 14\r\n\r\nHello, World!\n")
    rw [hello_lines, List.append_assoc]
    exact hmade
  rw [if_neg hget]
  cases hchunked : q.chunked with
  | true =>
      rw [Announced, if_pos ⟨hv, hchunked⟩] at h
      obtain ⟨bs, rfl⟩ := h
      obtain ⟨c', pieces, hwrite, -, hne⟩ := writeChunks_items feed
        ((items bs ++ .hup :: rest).length + 1) c bs rest
        (by rw [List.length_append, length_items]; omega)
      rw [if_pos rfl, List.append_assoc, List.singleton_append, hwrite,
        if_pos (hheard ⟨hv, hget, hchunked⟩)]
      refine ⟨_, rfl, ?_⟩
      refine ⟨bytes "HTTP/1.1 200 OK", headers11 q, chunksBytes pieces, ?_, .inr rfl,
        headerLine_headers11 q, .chunked ((chunkedHeader_mem q).mpr hchunked) hne⟩
      show header11 q ++ bytes "\r\n" ++ _ = _
      rw [header11_eq]
  | false =>
      have hn : ¬ (q.version = .http11 ∧ q.chunked = true) := fun hand => by
        rw [hchunked] at hand
        exact absurd hand.2 Bool.false_ne_true
      rw [Announced, if_neg hn] at h
      obtain ⟨bs, rfl, hlen⟩ := h
      have hpos : 0 < q.contentLength := by
        apply Decidable.byContradiction
        intro hnot
        have hzero : q.contentLength = 0 := by
          rw [UInt64.lt_iff_toNat_lt] at hnot
          exact UInt64.toNat_inj.mp (Nat.eq_zero_of_not_pos hnot)
        exact hq ⟨hv, by rw [if_neg hget]; exact ⟨hchunked, hzero⟩⟩
      rw [if_neg Bool.false_ne_true, if_pos hpos, forward_items c hlen]
      exact ⟨_, rfl, wellFormed11_of_fixed hchunked hlen⟩

end Answered

theorem not_isInfix {pat text : List UInt8} (h : ∀ t ∈ text.tails, pat.isPrefixOf t = false) :
    ¬ pat <:+: text := by
  intro hinfix
  obtain ⟨t, hpre, hsuf⟩ := List.infix_iff_prefix_suffix.mp hinfix
  have hfalse := h t ((List.mem_tails _ _).mpr hsuf)
  rw [List.isPrefixOf_iff_prefix.mpr hpre] at hfalse
  cases hfalse

/-- Where the empty line is left out there is none. -/
theorem respond11_unended {q : Request} (hq : Unended q) (feed : Feed)
    (c : RfcChunkHead) (pipe : List Item) {d : Responded}
    (h : respond11 feed c q pipe = some d) : ¬ WellFormed d.output := by
  intro hd
  have hline := hd.empty_line
  obtain ⟨-, hbranch⟩ := hq
  rw [respond11] at h
  by_cases hget : q.method = .get
  · rw [if_pos hget] at h hbranch
    rw [if_pos hbranch] at h
    cases h
    revert hline
    simp only [header11, hbranch]
    cases q.close
    · exact not_isInfix (by decide)
    · exact not_isInfix (by decide)
  · rw [if_neg hget] at h hbranch
    rw [hbranch.1, if_neg Bool.false_ne_true, hbranch.2, if_neg (by decide)] at h
    cases h
    revert hline
    simp only [header11, hbranch.1]
    cases q.close
    · exact not_isInfix (by decide)
    · exact not_isInfix (by decide)

/-- A hang-up that is not heard ends no response. -/
theorem respond11_unheard {q : Request} (hq : Awaits q) {feed : Feed} (c : RfcChunkHead)
    {entity rest : List Item} (h : Announced q entity) (hheard : feed.heard rest = false) :
    respond11 feed c q (entity ++ rest) = none := by
  obtain ⟨hv, hget, hchunked⟩ := hq
  rw [Announced, if_pos ⟨hv, hchunked⟩] at h
  obtain ⟨bs, rfl⟩ := h
  obtain ⟨c', pieces, hwrite, -, -⟩ := writeChunks_items feed
    ((items bs ++ .hup :: rest).length + 1) c bs rest
    (by rw [List.length_append, length_items]; omega)
  rw [respond11, if_neg hget, if_pos hchunked, List.append_assoc, List.singleton_append, hwrite,
    hheard]
  rfl

/-- A request of HTTP/1.0 or HTTP/1.1 is answered by a response, whatever the entity and
however it arrives, but in the two branches that leave out the empty line, and where the
hang-up behind the chunks is not heard. -/
theorem answered_iff {q : Request} (hv : q.version = .http10 ∨ q.version = .http11) (feed : Feed)
    {entity : List Item} (hentity : Announced q entity) (rest : List Item) :
    Answered feed q entity rest ↔ ¬ Unended q ∧ (Awaits q → feed.heard rest = true) := by
  constructor
  · intro hanswered
    obtain ⟨d, hrespond, hd⟩ := hanswered ⟨0, List.replicate 19 0, rfl⟩
    refine ⟨fun hq => ?_, fun hq => ?_⟩
    · rw [respond, hq.1] at hrespond
      exact respond11_unended hq _ _ _ hrespond hd
    · rw [respond, hq.1] at hrespond
      refine (Bool.not_eq_false _).mp fun hheard => ?_
      rw [respond11_unheard hq _ hentity hheard] at hrespond
      cases hrespond
  · rintro ⟨hq, hheard⟩ c
    rcases hv with hv | hv
    · rw [respond, hv]
      exact respond10_wellFormed c rest hentity hv
    · rw [respond, hv]
      exact respond11_wellFormed feed c rest hentity hv hq hheard

/-- A `POST` of HTTP/1.1 without an entity. -/
def bare : Request := { Request.zero with method := .post, version := .http11 }

/-- All of the pipe is in the ring. -/
def Feed.full : Feed := ⟨List.length, fun _ => true⟩

theorem announced_bare : Announced bare [] := by
  rw [Announced, if_neg (by decide)]
  exact ⟨[], rfl, rfl⟩

theorem answered_iff_bare :
    Answered .full bare [] [] ↔ ¬ Unended bare ∧ (Awaits bare → Feed.full.heard [] = true) :=
  answered_iff (.inr rfl) .full announced_bare []

/-- It is not answered by a response: what is written has no empty line. -/
theorem not_answered_bare : ¬ Answered .full bare [] [] ∧
    (respond .full ⟨0, List.replicate 19 0, rfl⟩ bare []).map Responded.output
      = some (bytes "HTTP/1.1 200 OK\r\nContent-Type: text/plain\r\n") := by
  refine ⟨fun h => ?_, by rfl⟩
  obtain ⟨d, hrespond, hd⟩ := h ⟨0, List.replicate 19 0, rfl⟩
  have hunended : Unended bare := ⟨rfl, by rw [if_neg (by decide)]; exact ⟨rfl, rfl⟩⟩
  exact respond11_unended hunended _ _ _ hrespond hd

end Vk.Http

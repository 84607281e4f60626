/-
# `Mnvkd.HttpFraming` — what the two coroutines make of an entity

Behind each request on the pipe lies its entity.  `http11_request` frames it by
the headers: so many bytes where there is a length, and else chunks up to a
hang-up.  `http11_response` frames it by the method and the version as well: it
takes nothing for a `GET`, and the length alone for HTTP/1.0, while for HTTP/1.1
it is the chunks that come first.

    Agrees        the two frame a request alike
    InStep        the k-th request that is read is the k-th that was parsed

They stay in step as long as they agree, and no longer (`inStep_iff`).  A hang-up that comes
late leaves the response waiting; what was read before is in step.
-/
import Mnvkd.HttpResponse

namespace Vk.Http

open Lib Text Fetch Rfc

/-- Both frame the entity of the request alike. -/
def Agrees (q : Request) : Prop :=
  q.contentLength = 0 ∧ q.chunked = false ∨
    q.method ≠ .get ∧
      if q.version = .http10 then q.contentLength ≠ 0 else (q.chunked = true ↔ q.contentLength = 0)

/-! ## What is put on the pipe -/

/-- What `http11_request` puts on the pipe behind a request. -/
structure Framed (e : Exchange) : Prop where
  plain : e.request.version = .http09 → e.request.contentLength = 0 ∧ e.request.chunked = false
  fixed : e.request.contentLength ≠ 0 →
    ∃ bs, e.entity = items bs ∧ bs.length = e.request.contentLength.toNat
  chunks : e.request.contentLength = 0 → e.request.chunked = true →
    ∃ bs, e.entity = items bs ++ [.hup]
  nothing : e.request.contentLength = 0 → e.request.chunked = false → e.entity = []

/-- The request that is being sent closes the connection as the one that is parsed. -/
def Sending {σ : Type} (s : State σ) : Prop :=
  s.current.request.close = s.request.close

/-- What holds of the request at hand, by where it stands. -/
def Standing {σ : Type} (s : State σ) : Prop :=
  match s.stage with
  | .headers => s.request.version ≠ .http09
  | .entity => s.request.version = .http09 →
      s.request.contentLength = 0 ∧ s.request.chunked = false
  | .chunk => Sending s ∧ s.current.request.version ≠ .http09 ∧
      s.current.request.contentLength = 0 ∧ s.current.request.chunked = true ∧
      ∃ bs, s.current.entity = items bs
  | .trailers | .preface | .prefaceEnd => Sending s ∧ Framed s.current
  | .line | .hup | .ended | .raised _ => True

/-- Between the steps: what was sent is framed, and none but the last request closes the
connection. -/
structure Shaped {σ : Type} (s : State σ) : Prop where
  framed : ∀ e ∈ s.sent, Framed e
  last : ∀ e ∈ s.sent.dropLast, e.request.close = false
  going : s.stage ≠ .ended → ∀ e ∈ s.sent, e.request.close = false
  standing : Standing s

section Steps
variable {σ : Type} {r : Reader σ} {below : σ → Nat → Int} {s : State σ}

theorem shaped_begin (stream : σ) (q : Request) (e : Exchange) : Shaped (begin stream q e) where
  framed := nofun
  last := nofun
  going _ := nofun
  standing := trivial

/-- Within a request, what was sent before stays. -/
theorem Shaped.within (h : Shaped s) (hs : s.stage ≠ .ended) {s' : State σ}
    (hsent : s'.sent = s.sent) (hstanding : Standing s') : Shaped s' where
  framed := hsent ▸ h.framed
  last := hsent ▸ h.last
  going _ := hsent ▸ h.going hs
  standing := hstanding

/-- An error leaves what was sent. -/
theorem Shaped.raised (h : Shaped s) (hs : s.stage ≠ .ended) {s' : State σ}
    (hsent : s'.sent = s.sent) (e : Errno) : Shaped (s'.raise e) :=
  h.within hs hsent trivial

/-- Behind a request that was sent whole. -/
theorem Shaped.finished (h : Shaped s) (hs : s.stage ≠ .ended) {s' : State σ}
    (hsent : s'.sent = s.sent ++ [s'.current]) (hframed : Framed s'.current)
    (hstage : s'.stage = .ended ∨ s'.stage = .line ∧ s'.current.request.close = false) :
    Shaped s' where
  framed e he := by
    rw [hsent, List.mem_append, List.mem_singleton] at he
    rcases he with he | rfl
    · exact h.framed e he
    · exact hframed
  last e he := by
    rw [hsent, List.dropLast_concat] at he
    exact h.going hs e he
  going hgoing e he := by
    rw [hsent, List.mem_append, List.mem_singleton] at he
    rcases he with he | rfl
    · exact h.going hs e he
    · exact (hstage.resolve_left hgoing).2
  standing := by
    rcases hstage with hstage | ⟨hstage, -⟩
    · rw [Standing, hstage]
      trivial
    · rw [Standing, hstage]
      trivial

/-- The end of the loop, behind a request that was sent whole. -/
theorem Shaped.finish (h : Shaped s) (hs : s.stage ≠ .ended) {s' : State σ}
    (hsent : s'.sent = s.sent) (hsending : Sending s') (hframed : Framed s'.current) :
    Shaped (s'.finish r) := by
  refine h.finished hs (by rw [← hsent]; rfl) hframed ?_
  rw [State.finish]
  split
  next hagain =>
    rw [Bool.and_eq_true, Bool.not_eq_true', Bool.not_eq_true'] at hagain
    exact .inr ⟨rfl, hsending.trans hagain.2⟩
  next => exact .inl rfl

/-! ## What a step preserves -/

theorem keep_fields (q : Request) (p : Parsed) : (q.keep p).version = q.version ∧
    (q.keep p).close = q.close := by
  rw [Request.keep]
  split
  next => exact ⟨rfl, rfl⟩
  next => exact ⟨rfl, rfl⟩

theorem apply_version (q : Request) (p : Parsed) : (q.apply p).version = q.version := by
  rw [Request.apply]
  split
  next =>
    split
    next => rfl
    next => rfl
  next => rfl
  next =>
    split
    next => rfl
    next => rfl
  next => rfl

/-- A trailer does not close the connection. -/
theorem applyTrailer_close (q : Request) (p : Parsed) : (q.applyTrailer p).close = q.close := by
  rw [Request.applyTrailer]
  split
  next => rfl
  next => rfl

theorem Shaped.requestLine (h : Shaped s) (hs : s.stage = .line) : Shaped (requestLine r s) := by
  have hgoing : s.stage ≠ .ended := by
    rw [hs]
    nofun
  rw [Http.requestLine]
  split
  next => exact h.raised hgoing rfl _
  next line rest _ =>
    split
    next => exact h.raised hgoing rfl _
    next =>
      split
      next => exact h.raised hgoing rfl _
      next method uri version _ =>
        refine h.within hgoing rfl ?_
        by_cases hversion : version = .http09
        · rw [Standing, if_neg (fun hne => hne hversion)]
          exact fun _ => ⟨rfl, rfl⟩
        · rw [Standing, if_pos hversion]
          exact hversion

theorem Shaped.header (h : Shaped s) (hs : s.stage = .headers) : Shaped (header r below s) := by
  have hgoing : s.stage ≠ .ended := by
    rw [hs]
    nofun
  have hversion := h.standing
  rw [Standing, hs] at hversion
  rw [Http.header]
  split
  next => exact h.raised hgoing rfl _
  next => exact h.within hgoing rfl fun h09 => absurd h09 hversion
  next p rest _ =>
    refine h.within hgoing rfl ?_
    show Standing { s with stream := rest, request := (s.request.apply p).keep p }
    simp only [Standing, hs]
    rw [(keep_fields _ p).1, apply_version]
    exact hversion

theorem Shaped.entity (h : Shaped s) (hs : s.stage = .entity) : Shaped (entity r s) := by
  have hgoing : s.stage ≠ .ended := by
    rw [hs]
    nofun
  have hplain := h.standing
  rw [Standing, hs] at hplain
  rw [Http.entity]
  split
  next => exact h.raised hgoing rfl _
  next =>
    simp only
    split
    next hpos =>
      -- a fixed entity
      have hne : s.request.contentLength ≠ 0 := by
        intro h0
        rw [h0] at hpos
        exact absurd hpos (by decide)
      split
      next =>
        refine h.raised hgoing ?_ _
        rfl
      next hlen =>
        refine h.finish hgoing rfl rfl ?_
        exact ⟨hplain, fun _ => ⟨_, List.nil_append _, Decidable.not_not.mp hlen⟩,
          fun h0 => absurd h0 hne, fun h0 => absurd h0 hne⟩
    next hpos =>
      have hzero : s.request.contentLength = 0 := by
        rw [UInt64.lt_iff_toNat_lt] at hpos
        exact UInt64.toNat_inj.mp (Nat.eq_zero_of_not_pos hpos)
      split
      next hchunked =>
        refine h.within hgoing rfl ⟨rfl, ?_, hzero, hchunked, [], rfl⟩
        intro h09
        rw [(hplain h09).2] at hchunked
        cases hchunked
      next hchunked =>
        have hframed : Framed { request := s.request, entity := [] } :=
          ⟨hplain, fun hne => absurd hzero hne, fun _ h' => absurd h' hchunked, fun _ _ => rfl⟩
        split
        next => exact h.within hgoing rfl ⟨rfl, hframed⟩
        next => exact h.finish hgoing rfl rfl hframed

theorem Shaped.chunk (h : Shaped s) (hs : s.stage = .chunk) : Shaped (chunk r s) := by
  have hgoing : s.stage ≠ .ended := by
    rw [hs]
    nofun
  have hstanding := h.standing
  rw [Standing, hs] at hstanding
  obtain ⟨hsending, hversion, hzero, hchunked, bs, hbs⟩ := hstanding
  rw [Http.chunk]
  split
  next => exact h.raised hgoing rfl _
  next size rest _ =>
    split
    next =>
      refine h.within hgoing rfl ?_
      cases r.hup rest with
      | false => exact trivial
      | true =>
          refine ⟨hsending, fun h09 => absurd h09 hversion, fun hne => absurd hzero hne,
            fun _ _ => ⟨bs, ?_⟩, fun _ hnot => ?_⟩
          · show s.current.entity ++ [Item.hup] = _
            rw [hbs]
          · have hnot : s.current.request.chunked = false := hnot
            rw [hchunked] at hnot
            cases hnot
    next =>
      simp only
      split
      next =>
        refine h.raised hgoing ?_ _
        rfl
      next =>
        split
        next =>
          refine h.raised hgoing ?_ _
          rfl
        next rest' _ =>
          refine h.within hgoing rfl ?_
          simp only [Standing, State.put, hs]
          refine ⟨hsending, hversion, hzero, hchunked, bs ++ (r.forward size.toNat rest).1, ?_⟩
          rw [hbs, items_append]

theorem Shaped.trailer (h : Shaped s) (hs : s.stage = .trailers) : Shaped (trailer r below s) := by
  have hgoing : s.stage ≠ .ended := by
    rw [hs]
    nofun
  have hstanding := h.standing
  rw [Standing, hs] at hstanding
  rw [Http.trailer]
  split
  next => exact h.raised hgoing rfl _
  next => exact h.finish hgoing rfl hstanding.1 hstanding.2
  next p rest _ =>
    refine h.within hgoing rfl ?_
    simp only [Standing, hs]
    refine ⟨?_, hstanding.2⟩
    show s.current.request.close = ((s.request.applyTrailer p).keep p).close
    rw [(keep_fields _ p).2, applyTrailer_close]
    exact hstanding.1

theorem Shaped.preface (h : Shaped s) (hs : s.stage = .preface) : Shaped (preface r s) := by
  have hgoing : s.stage ≠ .ended := by
    rw [hs]
    nofun
  have hstanding := h.standing
  rw [Standing, hs] at hstanding
  rw [Http.preface]
  simp only
  split
  next => exact h.finished hgoing rfl hstanding.2 (.inl rfl)
  next =>
    split
    next => exact h.within hgoing rfl hstanding
    next => exact h.raised hgoing rfl _

theorem Shaped.prefaceEnd (h : Shaped s) (hs : s.stage = .prefaceEnd) :
    Shaped (prefaceEnd r s) := by
  have hgoing : s.stage ≠ .ended := by
    rw [hs]
    nofun
  have hstanding := h.standing
  rw [Standing, hs] at hstanding
  rw [Http.prefaceEnd]
  simp only [ne_eq]
  split
  next => exact h.within hgoing rfl trivial
  next => exact h.finish hgoing rfl hstanding.1 hstanding.2

theorem Shaped.step (h : Shaped s) : Shaped (step r below s) := by
  rw [Http.step]
  split
  next hs => exact h.requestLine hs
  next hs => exact h.header hs
  next hs => exact h.entity hs
  next hs => exact h.chunk hs
  next hs => exact h.trailer hs
  next hs => exact h.preface hs
  next hs => exact h.prefaceEnd hs
  next => exact h
  next => exact h
  next => exact h

theorem Shaped.run (h : Shaped s) (n : Nat) : Shaped (run r below n s) := by
  induction n with
  | zero => exact h
  | succ n ih =>
      rw [Http.run, Function.iterate_succ_apply']
      exact ih.step

end Steps

/-! ## What is taken off the pipe -/

/-- What `http11_response` takes off the pipe behind a request. -/
def Takes (q : Request) (front : List Item) : Prop :=
  if q.version = .http09 ∨ q.method = .get then front = []
  else if q.version ≠ .http10 ∧ q.chunked = true then ∃ bs, front = items bs ++ [.hup]
  else ∃ bs, front = items bs ∧ bs.length = q.contentLength.toNat

section Takes
variable {q : Request}

theorem takes_nothing (h : q.version = .http09 ∨ q.method = .get) {front : List Item} :
    Takes q front ↔ front = [] := by
  rw [Takes, if_pos h]

theorem takes_chunks (h09 : q.version ≠ .http09) (hget : q.method ≠ .get)
    (h : q.version ≠ .http10 ∧ q.chunked = true) {front : List Item} :
    Takes q front ↔ ∃ bs, front = items bs ++ [.hup] := by
  rw [Takes, if_neg (not_or.mpr ⟨h09, hget⟩), if_pos h]

theorem takes_fixed (h09 : q.version ≠ .http09) (hget : q.method ≠ .get)
    (h : ¬ (q.version ≠ .http10 ∧ q.chunked = true)) (front : List Item) :
    Takes q front ↔ ∃ bs, front = items bs ∧ bs.length = q.contentLength.toNat := by
  rw [Takes, if_neg (not_or.mpr ⟨h09, hget⟩), if_neg h]

end Takes

section Respond
variable {feed : Feed} {c : RfcChunkHead} {q : Request}

/-- The loop over chunks ends behind a hang-up. -/
theorem writeChunks_takes {fuel : Nat} {pipe : List Item} {d : Responded}
    (h : writeChunks feed fuel c pipe = some d) :
    ∃ bs, pipe = items bs ++ .hup :: d.rest := by
  induction fuel generalizing c pipe d with
  | zero => cases h
  | succ fuel ih =>
      cases pipe with
      | nil => cases h
      | cons item pipe =>
          cases item with
          | hup =>
              rw [writeChunks] at h
              split at h
              next =>
                cases h
                exact ⟨[], rfl⟩
              next => cases h
          | byte b =>
              obtain ⟨⟨chunk, rest⟩, htake, hmap⟩ := Option.bind_eq_some_iff.mp h
              obtain ⟨d', hwrite, rfl⟩ := Option.map_eq_some_iff.mp hmap
              obtain ⟨bs, hbs⟩ := ih hwrite
              obtain ⟨hpipe, -⟩ := takeBytes_eq_some htake
              have hrest : rest = items bs ++ .hup :: d'.rest := hbs
              refine ⟨chunk ++ bs, hpipe.trans ?_⟩
              rw [hrest, items_append, List.append_assoc]

theorem forward_takes {len : UInt64} {pipe : List Item} {d : Responded}
    (h : forward c len pipe = some d) : ∃ bs, pipe = items bs ++ d.rest ∧ bs.length = len.toNat := by
  obtain ⟨moved, htake, rfl⟩ := Option.map_eq_some_iff.mp h
  exact ⟨moved.1, takeBytes_eq_some htake⟩

theorem eq_zero_of_not_pos {len : UInt64} (h : ¬ 0 < len) : len = 0 := by
  rw [UInt64.lt_iff_toNat_lt] at h
  exact UInt64.toNat_inj.mp (Nat.eq_zero_of_not_pos h)

theorem respond10_takes (hv : q.version = .http10) {pipe : List Item} {d : Responded}
    (h : respond10 c q pipe = some d) : ∃ front, pipe = front ++ d.rest ∧ Takes q front := by
  have h09 : q.version ≠ .http09 := by
    rw [hv]
    nofun
  rw [respond10] at h
  split at h
  next hget =>
    cases h
    exact ⟨[], rfl, (takes_nothing (.inr hget)).mpr rfl⟩
  next hget =>
    have hfixed := takes_fixed h09 hget fun hand => hand.1 hv
    split at h
    next =>
      obtain ⟨d', hforward, rfl⟩ := Option.map_eq_some_iff.mp h
      obtain ⟨bs, hpipe, hlen⟩ := forward_takes hforward
      exact ⟨items bs, hpipe, (hfixed _).mpr ⟨bs, rfl, hlen⟩⟩
    next hpos =>
      cases h
      exact ⟨[], rfl, (hfixed _).mpr ⟨[], rfl, by rw [eq_zero_of_not_pos hpos]; rfl⟩⟩

theorem respond11_takes (h09 : q.version ≠ .http09) (h10 : q.version ≠ .http10)
    {pipe : List Item} {d : Responded} (h : respond11 feed c q pipe = some d) :
    ∃ front, pipe = front ++ d.rest ∧ Takes q front := by
  rw [respond11] at h
  split at h
  next hget =>
    have hnothing : Takes q [] := (takes_nothing (.inr hget)).mpr rfl
    split at h
    next =>
      cases h
      exact ⟨[], rfl, hnothing⟩
    next =>
      cases h
      exact ⟨[], rfl, hnothing⟩
  next hget =>
    split at h
    next hchunked =>
      obtain ⟨d', hwrite, rfl⟩ := Option.map_eq_some_iff.mp h
      obtain ⟨bs, hpipe⟩ := writeChunks_takes hwrite
      refine ⟨items bs ++ [.hup], ?_, (takes_chunks h09 hget ⟨h10, hchunked⟩).mpr ⟨bs, rfl⟩⟩
      rw [List.append_assoc]
      exact hpipe
    next hchunked =>
      have hfixed := takes_fixed h09 hget fun hand => hchunked hand.2
      split at h
      next =>
        obtain ⟨d', hforward, rfl⟩ := Option.map_eq_some_iff.mp h
        obtain ⟨bs, hpipe, hlen⟩ := forward_takes hforward
        exact ⟨items bs, hpipe, (hfixed _).mpr ⟨bs, rfl, hlen⟩⟩
      next hpos =>
        cases h
        exact ⟨[], rfl, (hfixed _).mpr ⟨[], rfl, by rw [eq_zero_of_not_pos hpos]; rfl⟩⟩

/-- Every later version is answered as HTTP/1.1. -/
theorem respond_later (h09 : q.version ≠ .http09) (h10 : q.version ≠ .http10) (pipe : List Item) :
    respond feed c q pipe = respond11 feed c q pipe := by
  rw [respond]
  split
  next hv => exact absurd hv h09
  next hv => exact absurd hv h10
  all_goals rfl

/-- A response takes what it takes, if it comes to its end. -/
theorem respond_takes {pipe : List Item} {d : Responded} (h : respond feed c q pipe = some d) :
    ∃ front, pipe = front ++ d.rest ∧ Takes q front := by
  by_cases h09 : q.version = .http09
  · simp only [respond, h09] at h
    cases h
    exact ⟨[], rfl, (takes_nothing (.inl h09)).mpr rfl⟩
  · by_cases h10 : q.version = .http10
    · simp only [respond, h10] at h
      exact respond10_takes h10 h
    · rw [respond_later h09 h10] at h
      exact respond11_takes h09 h10 h

theorem respond10_of_takes (hv : q.version = .http10) {front : List Item} (h : Takes q front)
    (rest : List Item) : ∃ d, respond10 c q (front ++ rest) = some d ∧ d.rest = rest := by
  have h09 : q.version ≠ .http09 := by
    rw [hv]
    nofun
  rw [respond10]
  split
  next hget => exact ⟨_, rfl, by rw [(takes_nothing (.inr hget)).mp h]; rfl⟩
  next hget =>
    obtain ⟨bs, rfl, hlen⟩ := (takes_fixed h09 hget (fun hand => hand.1 hv) _).mp h
    split
    next =>
      rw [forward_items c hlen]
      exact ⟨_, rfl, rfl⟩
    next hpos =>
      rw [eq_zero_of_not_pos hpos] at hlen
      rw [List.length_eq_zero_iff.mp hlen]
      exact ⟨_, rfl, rfl⟩

theorem respond11_of_takes (h09 : q.version ≠ .http09) (h10 : q.version ≠ .http10)
    {front : List Item} (h : Takes q front) (rest : List Item) :
    (∃ d, respond11 feed c q (front ++ rest) = some d ∧ d.rest = rest) ∨
      feed.heard rest = false ∧ respond11 feed c q (front ++ rest) = none := by
  rw [respond11]
  split
  next hget =>
    have hnil := (takes_nothing (.inr hget)).mp h
    split
    next => exact .inl ⟨_, rfl, by rw [hnil]; rfl⟩
    next => exact .inl ⟨_, rfl, by rw [hnil]; rfl⟩
  next hget =>
    split
    next hchunked =>
      obtain ⟨bs, rfl⟩ := (takes_chunks h09 hget ⟨h10, hchunked⟩).mp h
      rw [List.append_assoc, List.singleton_append]
      obtain ⟨c', pieces, hwrite, -, -⟩ := writeChunks_items feed
        ((items bs ++ .hup :: rest).length + 1) c bs rest
        (by rw [List.length_append, length_items]; omega)
      rw [hwrite]
      cases feed.heard rest with
      | true => exact .inl ⟨_, rfl, rfl⟩
      | false => exact .inr ⟨rfl, rfl⟩
    next hchunked =>
      obtain ⟨bs, rfl, hlen⟩ := (takes_fixed h09 hget (fun hand => hchunked hand.2) _).mp h
      split
      next =>
        rw [forward_items c hlen]
        exact .inl ⟨_, rfl, rfl⟩
      next hpos =>
        rw [eq_zero_of_not_pos hpos] at hlen
        rw [List.length_eq_zero_iff.mp hlen]
        exact .inl ⟨_, rfl, rfl⟩

/-- It comes to its end where what it takes is there, if a hang-up is heard. -/
theorem respond_of_takes {front : List Item} (h : Takes q front) (rest : List Item) :
    (∃ d, respond feed c q (front ++ rest) = some d ∧ d.rest = rest) ∨
      feed.heard rest = false ∧ respond feed c q (front ++ rest) = none := by
  by_cases h09 : q.version = .http09
  · rw [(takes_nothing (.inl h09)).mp h]
    simp only [respond, h09]
    exact .inl ⟨_, rfl, rfl⟩
  · by_cases h10 : q.version = .http10
    · simp only [respond, h10]
      exact .inl (respond10_of_takes h10 h rest)
    · rw [respond_later h09 h10]
      exact respond11_of_takes h09 h10 h rest

end Respond

/-- What is put on the pipe is what is taken where the two agree. -/
theorem Framed.takes_iff {e : Exchange} (h : Framed e) :
    Takes e.request e.entity ↔ Agrees e.request := by
  have hhup : ∀ bs bs', items bs ++ [Item.hup] ≠ items bs' := by
    intro bs bs' heq
    exact hup_not_mem_items bs' (heq ▸ List.mem_append_right _ List.mem_cons_self)
  -- nothing is put on the pipe exactly where there is no entity
  have hempty : e.entity = [] ↔ e.request.contentLength = 0 ∧ e.request.chunked = false := by
    constructor
    · intro hnil
      have hzero : e.request.contentLength = 0 := by
        apply Decidable.byContradiction
        intro hne
        obtain ⟨bs, hbs, hlen⟩ := h.fixed hne
        rw [hnil] at hbs
        have hlen0 := congrArg List.length hbs
        rw [length_items, hlen] at hlen0
        exact hne (UInt64.toNat_inj.mp hlen0.symm)
      refine ⟨hzero, ?_⟩
      rw [← Bool.not_eq_true]
      intro hchunked
      obtain ⟨bs, hbs⟩ := h.chunks hzero hchunked
      rw [hnil] at hbs
      exact hhup bs [] hbs.symm
    · rintro ⟨hzero, hchunked⟩
      exact h.nothing hzero hchunked
  rw [Takes, Agrees]
  split
  next hnone =>
    rw [hempty, or_iff_left_of_imp]
    rintro ⟨hget, -⟩
    exact h.plain (hnone.resolve_right hget)
  next hnone =>
    obtain ⟨h09, hget⟩ := not_or.mp hnone
    split
    next hchunks =>
      obtain ⟨h10, hchunked⟩ := hchunks
      rw [if_neg h10, hchunked]
      constructor
      · rintro ⟨bs, hbs⟩
        refine .inr ⟨hget, fun _ => ?_, fun _ => rfl⟩
        apply Decidable.byContradiction
        intro hne
        obtain ⟨bs', hbs', -⟩ := h.fixed hne
        exact hhup bs bs' (hbs.symm.trans hbs')
      · rintro (⟨-, hfalse⟩ | ⟨-, hiff⟩)
        · cases hfalse
        · exact h.chunks (hiff.mp rfl) hchunked
    next hchunks =>
      by_cases hzero : e.request.contentLength = 0
      · cases hchunked : e.request.chunked with
        | false => exact ⟨fun _ => .inl ⟨hzero, rfl⟩, fun _ =>
            ⟨[], h.nothing hzero hchunked, by rw [hzero]; rfl⟩⟩
        | true =>
            -- HTTP/1.0, where chunks are not looked at
            have h10 : e.request.version = .http10 :=
              Decidable.not_not.mp fun hne => hchunks ⟨hne, hchunked⟩
            obtain ⟨bs, hbs⟩ := h.chunks hzero hchunked
            rw [if_pos h10]
            constructor
            · rintro ⟨bs', hbs', -⟩
              exact absurd (hbs.symm.trans hbs') (hhup bs bs')
            · rintro (⟨-, hfalse⟩ | ⟨-, hne⟩)
              · cases hfalse
              · exact absurd hzero hne
      · refine ⟨fun _ => .inr ⟨hget, ?_⟩, fun _ => h.fixed hzero⟩
        split
        next => exact hzero
        next h10 => exact ⟨fun hchunked => absurd ⟨h10, hchunked⟩ hchunks, fun h0 => absurd h0 hzero⟩

/-! ## Request by request -/

theorem takeBytes_nil {n : Nat} (h : 0 < n) : takeBytes n [] = none := by
  cases n with
  | zero => cases h
  | succ n => rfl

/-- A turn of the response loop reads the request at the front of the pipe. -/
theorem responses_succ (feed : Feed) (n : Nat) (c : RfcChunkHead) (e : Exchange)
    (rest : List Item) :
    responses feed (n + 1) c (e.items ++ rest)
      = match respond feed c e.request (e.entity ++ rest) with
        | none => []
        | some d =>
            { request := e.request
              entity := (e.entity ++ rest).take ((e.entity ++ rest).length - d.rest.length) } ::
              if e.request.close then [] else responses feed n d.chunkhead d.rest := by
  have htake : takeBytes Request.image.size (e.items ++ rest)
      = some (Request.image.bytes e.request, e.entity ++ rest) := by
    rw [← Request.image.length_bytes e.request, Exchange.items, List.append_assoc,
      takeBytes_items]
  have hvalue : Request.image.value (Request.image.bytes e.request) = e.request := by
    have hrest := Request.image.value_bytes e.request []
    rwa [List.append_nil] at hrest
  cases hrespond : respond feed c e.request (e.entity ++ rest) with
  | none => simp only [responses, htake, hvalue, hrespond]
  | some d => simp only [responses, htake, hvalue, hrespond]

/-- Where the two agree the response takes the entity and goes on behind it, or it waits for
a hang-up. -/
theorem responses_agreed (feed : Feed) (c : RfcChunkHead) {e : Exchange} (he : Framed e)
    (hagrees : Agrees e.request) (rest : List Item) :
    (∃ c', ∀ n, responses feed (n + 1) c (e.items ++ rest)
        = e :: if e.request.close then [] else responses feed n c' rest) ∨
      feed.heard rest = false ∧ ∀ n, responses feed (n + 1) c (e.items ++ rest) = [] := by
  have hstep := fun n => responses_succ feed n c e rest
  obtain ⟨d, hrespond, hrest⟩ | ⟨hheard, hrespond⟩ := @respond_of_takes feed c e.request _
    (he.takes_iff.mpr hagrees) rest
  · refine .inl ⟨d.chunkhead, fun n => ?_⟩
    rw [hstep, hrespond]
    simp only [hrest, List.length_append, Nat.add_sub_cancel, List.take_left]
  · refine .inr ⟨hheard, fun n => ?_⟩
    rw [hstep, hrespond]

/-- The exchanges on a pipe are read one by one exactly where the two agree on each, if every
hang-up is heard. -/
theorem responses_eq_iff {feed : Feed} (hheard : ∀ rest, feed.heard rest = true)
    {es : List Exchange} (hframed : ∀ e ∈ es, Framed e)
    (hlast : ∀ e ∈ es.dropLast, e.request.close = false) (c : RfcChunkHead) :
    (∀ n, responses feed n c (es.flatMap Exchange.items) = es.take n) ↔
      ∀ e ∈ es, Agrees e.request := by
  induction es generalizing c with
  | nil =>
      refine ⟨fun _ => nofun, fun _ n => ?_⟩
      cases n with
      | zero => rfl
      | succ n =>
          have hnone : takeBytes Request.image.size [] = none := takeBytes_nil (by decide)
          rw [List.flatMap_nil, responses, hnone]
          rfl
  | cons e es ih =>
      have he := hframed e List.mem_cons_self
      have hes : ∀ e ∈ es, Framed e := fun e' h => hframed e' (List.mem_cons_of_mem e h)
      have htail : ∀ e ∈ es.dropLast, e.request.close = false := by
        intro e' h
        refine hlast e' ?_
        cases es with
        | nil => cases h
        | cons e₁ es => exact List.mem_cons_of_mem e h
      rw [List.forall_mem_cons, List.flatMap_cons]
      have hagreed := fun hagrees => (responses_agreed feed c he hagrees
        (es.flatMap Exchange.items)).resolve_right fun hlate => by
          rw [hheard] at hlate
          cases hlate.1
      have hclosed : e.request.close = true → es = [] := by
        intro hclose
        cases es with
        | nil => rfl
        | cons e₁ es =>
            have hopen := hlast e List.mem_cons_self
            rw [hclose] at hopen
            cases hopen
      constructor
      · intro hreads
        have hagrees : Agrees e.request := by
          have hone := hreads 1
          rw [responses_succ] at hone
          cases hrespond : respond feed c e.request (e.entity ++ es.flatMap Exchange.items) with
          | none =>
              rw [hrespond] at hone
              cases hone
          | some d =>
              rw [hrespond] at hone
              obtain ⟨front, hpipe, htakes⟩ := respond_takes hrespond
              have hentity := congrArg Exchange.entity (List.cons.inj hone).1
              rw [hpipe, List.length_append, Nat.add_sub_cancel, List.take_left] at hentity
              exact he.takes_iff.mp ((show front = e.entity from hentity) ▸ htakes)
        refine ⟨hagrees, ?_⟩
        obtain ⟨c', hnext⟩ := hagreed hagrees
        by_cases hclose : e.request.close = true
        · rw [hclosed hclose]
          exact nofun
        · refine (ih hes htail c').mp fun n => ?_
          have hread := hreads (n + 1)
          rw [hnext, if_neg hclose] at hread
          exact (List.cons.inj hread).2
      · rintro ⟨hagrees, hrest⟩ n
        obtain ⟨c', hnext⟩ := hagreed hagrees
        cases n with
        | zero => rfl
        | succ n =>
            rw [hnext, List.take_succ_cons]
            split
            next hclose => rw [hclosed hclose, List.take_nil]
            next hclose => rw [(ih hes htail c').mpr hrest n]

/-- Where the two agree on each, no other exchange is read, whatever hang-up is late. -/
theorem responses_isPrefix (feed : Feed) {es : List Exchange} (hframed : ∀ e ∈ es, Framed e)
    (hagrees : ∀ e ∈ es, Agrees e.request) (c : RfcChunkHead) (n : Nat) :
    responses feed n c (es.flatMap Exchange.items) <+: es.take n := by
  induction es generalizing c n with
  | nil =>
      cases n with
      | zero => exact List.nil_prefix
      | succ n =>
          have hnone : takeBytes Request.image.size [] = none := takeBytes_nil (by decide)
          rw [List.flatMap_nil, responses, hnone]
          exact List.nil_prefix
  | cons e es ih =>
      obtain ⟨he, hes⟩ := List.forall_mem_cons.mp hframed
      obtain ⟨hagree, hrest⟩ := List.forall_mem_cons.mp hagrees
      cases n with
      | zero => exact List.nil_prefix
      | succ n =>
          rw [List.flatMap_cons, List.take_succ_cons]
          obtain ⟨c', hnext⟩ | ⟨-, hnext⟩ := responses_agreed feed c he hagree
            (es.flatMap Exchange.items)
          · rw [hnext, List.cons_prefix_cons]
            refine ⟨rfl, ?_⟩
            split
            next => exact List.nil_prefix
            next => exact ih hes hrest c' n
          · rw [hnext]
            exact List.nil_prefix

/-- However the pipe is read, the k-th request that is read is the k-th that was sent, and
what is taken behind it is what was put there; and if every hang-up is heard, all are read. -/
def InStep {σ : Type} (s : State σ) : Prop :=
  ∀ feed c n, responses feed n c s.pipe <+: s.sent.take n ∧
    ((∀ rest, feed.heard rest = true) → responses feed n c s.pipe = s.sent.take n)

/-- The two stay in step as long as they agree on each request that was sent. -/
theorem inStep_iff {σ : Type} (r : Reader σ) (below : σ → Nat → Int) (stream : σ) (q : Request)
    (e : Exchange) (n : Nat) :
    InStep (run r below n (begin stream q e)) ↔
      ∀ x ∈ (run r below n (begin stream q e)).sent, Agrees x.request := by
  have hshaped : Shaped (run r below n (begin stream q e)) := (shaped_begin stream q e).run n
  have hfull : ∀ rest, Feed.full.heard rest = true := fun _ => rfl
  constructor
  · intro h
    exact (responses_eq_iff hfull hshaped.framed hshaped.last ⟨0, List.replicate 19 0, rfl⟩).mp
      fun k => (h .full _ k).2 hfull
  · intro h feed c k
    exact ⟨responses_isPrefix feed hshaped.framed h c k, fun hheard =>
      (responses_eq_iff hheard hshaped.framed hshaped.last c).mpr h k⟩

/-- A `GET` with an entity of one byte, and nothing behind it. -/
def getWithEntity : State (List UInt8) :=
  begin (bytes "GET / HTTP/1.1\r\nContent-Length: 1\r\n\r\nX") .zero ⟨.zero, []⟩

/-- The stream is accepted, and its byte left on the pipe. -/
theorem getWithEntity_slips :
    (run Reader.whole (fun _ _ => 0) 4 getWithEntity).stage = .ended ∧
      ¬ InStep (run Reader.whole (fun _ _ => 0) 4 getWithEntity) := by
  refine ⟨by rfl, ?_⟩
  intro h
  have hagrees := (inStep_iff Reader.whole _ _ _ _ 4).mp h
  have hsent : (run Reader.whole (fun _ _ => 0) 4 getWithEntity).sent.map
      (fun e => (e.request.method, e.request.contentLength)) = [(.get, 1)] := by
    rfl
  obtain ⟨e, hmem, heq⟩ := List.mem_map.mp (hsent ▸ List.mem_cons_self)
  rcases hagrees e hmem with ⟨hzero, -⟩ | ⟨hget, -⟩
  · have hone : e.request.contentLength = 1 := congrArg Prod.snd heq
    rw [hone] at hzero
    cases hzero
  · exact hget (congrArg Prod.fst heq)

end Vk.Http

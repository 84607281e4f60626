/-
# `Mnvkd.Wire` — a stream that comes over a descriptor

A coroutine reads a stream from its descriptor.  Where a call begins, some of what is
unread is in the ring already; the rest comes in pieces, one each time the call waits,
and the end of the stream with the last.  What `vk_readline` returns depends on these
pieces, and on the bytes at which its exit tests look, which hold what the memory held.
What `vk_forward` and `vk_hup` do depends on other coroutines too.

    Wire            all of this, whatever call of the stream begins
    Wire.line       what `vk_readline` then returns, if it does
    comesTo_line    that is what its loop comes to
    CleanAt         the call returns its line whole (`clean_iff`)
    Wire.stop       where it stops short of its line, one that fits (`line_of_stop`)
    Quiet           no call does, and so all lines that fit are whole
-/
import Mnvkd.Reader

namespace Vk

open Lib ProcLocal
open Vectoring (newline lineLen lineLen_eq_none lineLen_le)

/-- Where a call begins: so many were made before it, and this is unread. -/
abbrev Spot : Type := Nat × List UInt8

/-- How a stream comes over. -/
structure Wire where
  /-- What is in the ring when a call begins, and what comes each time it waits. -/
  arrive : Spot → List (List UInt8)
  join : ∀ p, (arrive p).flatten = p.2
  room : ∀ p, ∀ a ∈ arrive p, a.length ≤ Socket.bufLen
  /-- The byte at which the exit test of `vk_readline` looks after so many. -/
  look : Spot → Nat → UInt8
  /-- EOF is marked, where all is read. -/
  told : Nat → Bool
  /-- How many bytes a `vk_forward` of so many moves. -/
  moves : Nat → Spot → Nat
  /-- A `vk_hup` that is called here gets back. -/
  heard : Spot → Bool

namespace Wire

/-! ## A line in pieces -/

/-- What a call of `vk_readline` returns that has stored `pre`, where its ring holds
`ring` and the rest is to come. -/
def lineFrom (len : Nat) (look : Nat → UInt8) :
    List UInt8 → List UInt8 → List (List UInt8) → Option (List UInt8)
  | pre, ring, [] =>
      match lineLen ring with
      | some l => some (pre ++ ring.take l)
      | none => some (pre ++ ring.take (len - pre.length))
  | pre, ring, a :: later =>
      match lineLen ring with
      | some l => some (pre ++ ring.take l)
      | none =>
          if len ≤ pre.length + ring.length then some (pre ++ ring.take (len - pre.length))
          else if look (pre ++ ring).length ≠ newline then lineFrom len look (pre ++ ring) a later
          -- with nothing stored the loop goes round for ever
          else if pre ++ ring = [] then none
          else some (pre ++ ring)

/-- The end of the line is in the ring, or what is there leaves room for more and the
call does not look at a newline. -/
def CleanFrom (len : Nat) (look : Nat → UInt8) : Nat → List UInt8 → List (List UInt8) → Prop
  | _, _, [] => True
  | n, ring, a :: later =>
      newline ∈ ring ∨ n + ring.length < len ∧ look (n + ring.length) ≠ newline ∧
        CleanFrom len look (n + ring.length) a later

/-- The first place inside of the line where the call waits, but for the newline at which
it looks. -/
def stopFrom (look : Nat → UInt8) : Nat → List UInt8 → List (List UInt8) → Option Nat
  | _, _, [] => none
  | n, ring, a :: later =>
      if newline ∈ ring then none
      else if look (n + ring.length) = newline then some (n + ring.length)
      else stopFrom look (n + ring.length) a later

section Pieces
variable {len : Nat} {look : Nat → UInt8} {pre ring got : List UInt8}
  {later : List (List UInt8)}

/-- A piece without the end of the line is a part of it. -/
theorem firstLine_piece (h : lineLen ring = none) (rest : List UInt8) :
    firstLine (ring ++ rest) = ring ++ firstLine rest :=
  firstLine_append (lineLen_eq_none.mp h) rest

/-- With a newline to come there is more of the line. -/
theorem length_firstLine_pos {bs : List UInt8} (h : newline ∈ bs) : 0 < (firstLine bs).length := by
  refine List.length_pos_of_ne_nil fun hnil => ?_
  rw [firstLine_eq_nil.mp hnil] at h
  cases h

/-- What is returned are bytes of the line, from its first on. -/
theorem isPrefix_of_lineFrom (h : lineFrom len look pre ring later = some got) :
    got <+: pre ++ firstLine (ring ++ later.flatten) := by
  induction later generalizing pre ring with
  | nil =>
      rw [lineFrom] at h
      rw [List.flatten_nil, List.append_nil]
      cases hl : lineLen ring with
      | some l =>
          rw [hl] at h
          obtain ⟨hline, -⟩ := firstLine_of_some hl []
          rw [List.append_nil] at hline
          obtain rfl := Option.some.inj h
          exact (List.prefix_append_right_inj pre).mpr (hline ▸ List.prefix_rfl)
      | none =>
          rw [hl] at h
          rw [← Option.some.inj h, firstLine_of_not_mem (lineLen_eq_none.mp hl)]
          exact (List.prefix_append_right_inj pre).mpr (List.take_prefix _ _)
  | cons a later ih =>
      rw [lineFrom] at h
      rw [List.flatten_cons]
      cases hl : lineLen ring with
      | some l =>
          rw [hl] at h
          obtain ⟨hline, -⟩ := firstLine_of_some hl (a ++ later.flatten)
          obtain rfl := Option.some.inj h
          exact (List.prefix_append_right_inj pre).mpr (hline ▸ List.prefix_rfl)
      | none =>
          rw [hl] at h
          rw [firstLine_piece hl, ← List.append_assoc]
          dsimp only at h
          split at h
          next =>
            rw [← Option.some.inj h, List.append_assoc]
            exact (List.prefix_append_right_inj pre).mpr
              ((List.take_prefix _ _).trans (List.prefix_append _ _))
          next =>
            split at h
            next => exact ih h
            next =>
              split at h
              next => cases h
              next =>
                rw [← Option.some.inj h]
                exact List.prefix_append _ _

/-- A call that stops nowhere returns all of a line that fits. -/
theorem lineFrom_of_quiet (h : stopFrom look pre.length ring later = none)
    (hfits : pre.length + (firstLine (ring ++ later.flatten)).length ≤ len) :
    lineFrom len look pre ring later = some (pre ++ firstLine (ring ++ later.flatten)) := by
  induction later generalizing pre ring with
  | nil =>
      rw [List.flatten_nil, List.append_nil] at hfits ⊢
      rw [lineFrom]
      cases hl : lineLen ring with
      | some l =>
          obtain ⟨hline, -⟩ := firstLine_of_some hl []
          rw [List.append_nil] at hline
          rw [hline]
      | none =>
          rw [firstLine_of_not_mem (lineLen_eq_none.mp hl)] at hfits ⊢
          dsimp only
          rw [List.take_of_length_le (by omega)]
  | cons a later ih =>
      rw [List.flatten_cons] at hfits ⊢
      rw [lineFrom]
      cases hl : lineLen ring with
      | some l =>
          obtain ⟨hline, -⟩ := firstLine_of_some hl (a ++ later.flatten)
          rw [hline]
      | none =>
          rw [stopFrom, if_neg (lineLen_eq_none.mp hl)] at h
          rw [firstLine_piece hl, List.length_append] at hfits
          rw [firstLine_piece hl]
          dsimp only
          split at h
          next => cases h
          next hlook =>
            split
            next hfull =>
              -- the line is full, and then it is all of the stream
              have hrest : firstLine (a ++ later.flatten) = [] :=
                List.eq_nil_of_length_eq_zero (by omega)
              rw [hrest, List.append_nil, List.take_of_length_le (by omega)]
            next =>
              rw [← List.length_append] at h hlook
              rw [if_pos hlook, ih h (by rw [List.length_append]; omega), List.append_assoc]

/-- It is inside of the line that a call stops. -/
theorem stopFrom_lt {n k : Nat} (h : stopFrom look n ring later = some k)
    (hend : newline ∈ ring ++ later.flatten) : k < n + (firstLine (ring ++ later.flatten)).length := by
  induction later generalizing n ring with
  | nil => cases h
  | cons a later ih =>
      rw [List.flatten_cons] at hend ⊢
      rw [stopFrom] at h
      split at h
      next => cases h
      next hnl =>
        have hnext := (List.mem_append.mp hend).resolve_left hnl
        rw [firstLine_append hnl, List.length_append]
        split at h
        next =>
          have hpos := length_firstLine_pos hnext
          have := Option.some.inj h
          omega
        next =>
          have := ih h hnext
          omega

/-- A call that stops returns what it has stored there, if it has. -/
theorem lineFrom_of_stop {n : Nat} (h : stopFrom look pre.length ring later = some n)
    (hend : newline ∈ ring ++ later.flatten ∨ pre ++ (ring ++ later.flatten) = [])
    (hlen : pre.length < len)
    (hfits : pre.length + (firstLine (ring ++ later.flatten)).length ≤ len) :
    lineFrom len look pre ring later =
      if n = 0 then none else some ((pre ++ (ring ++ later.flatten)).take n) := by
  induction later generalizing pre ring with
  | nil => cases h
  | cons a later ih =>
      rw [List.flatten_cons] at hend hfits ⊢
      rw [stopFrom] at h
      rw [lineFrom]
      split at h
      next => cases h
      next hnl =>
        have hnext : newline ∈ a ++ later.flatten ∨ pre ++ ring ++ (a ++ later.flatten) = [] :=
          hend.imp (fun hmem => (List.mem_append.mp hmem).resolve_left hnl) fun hnil => by
            rw [List.append_assoc]
            exact hnil
        have hroom : pre.length + ring.length < len := by
          rcases hnext with hmem | hnil
          · have hpos := length_firstLine_pos hmem
            rw [firstLine_append hnl, List.length_append] at hfits
            omega
          · have hnil' := congrArg List.length hnil
            simp only [List.length_append, List.length_nil] at hnil'
            omega
        rw [firstLine_piece (lineLen_eq_none.mpr hnl), List.length_append] at hfits
        rw [lineLen_eq_none.mpr hnl]
        dsimp only
        rw [if_neg (by omega)]
        rw [← List.length_append] at h hroom
        split at h
        next hlook =>
          cases h
          rw [if_neg (not_not.mpr hlook)]
          by_cases hnil : pre ++ ring = []
          · rw [if_pos hnil, if_pos (by rw [hnil]; rfl)]
          · rw [if_neg hnil, if_neg fun hzero => hnil (List.eq_nil_of_length_eq_zero hzero),
              ← List.append_assoc, List.take_left]
        next hlook =>
          rw [if_pos hlook, ih h hnext hroom (by rw [List.length_append]; omega), List.append_assoc]

/-- A clean call returns a line that has an end. -/
theorem lineFrom_of_clean (h : CleanFrom len look pre.length ring later)
    (hend : newline ∈ ring ++ later.flatten ∨ ring ++ later.flatten = []) :
    lineFrom len look pre ring later = some (pre ++ firstLine (ring ++ later.flatten)) := by
  induction later generalizing pre ring with
  | nil =>
      rw [List.flatten_nil, List.append_nil] at hend ⊢
      rw [lineFrom]
      cases hl : lineLen ring with
      | some l =>
          obtain ⟨hline, -⟩ := firstLine_of_some hl []
          rw [List.append_nil] at hline
          rw [hline]
      | none =>
          rw [hend.resolve_left (lineLen_eq_none.mp hl)]
          simp [firstLine]
  | cons a later ih =>
      rw [List.flatten_cons] at hend ⊢
      rw [lineFrom]
      cases hl : lineLen ring with
      | some l =>
          obtain ⟨hline, -⟩ := firstLine_of_some hl (a ++ later.flatten)
          rw [hline]
      | none =>
          have hnot := lineLen_eq_none.mp hl
          obtain ⟨hlt, hlook, hclean⟩ := h.resolve_left hnot
          rw [← List.length_append] at hlook hclean
          dsimp only
          rw [if_neg (by omega), if_pos hlook, ih hclean ?_, firstLine_piece hl, List.append_assoc]
          rcases hend with hend | hend
          · exact Or.inl ((List.mem_append.mp hend).resolve_left hnot)
          · exact Or.inr (List.append_eq_nil_iff.mp hend).2

/-- A call that has returned a line with its end, or nothing at the end of the stream,
was clean. -/
theorem clean_of_lineFrom (h : lineFrom len look pre ring later =
      some (pre ++ firstLine (ring ++ later.flatten))) (hlt : pre.length < len)
    (hend : newline ∈ ring ++ later.flatten ∨ ring ++ later.flatten = [] ∧ pre = []) :
    CleanFrom len look pre.length ring later := by
  induction later generalizing pre ring with
  | nil => trivial
  | cons a later ih =>
      rw [List.flatten_cons] at hend h
      rw [lineFrom] at h
      cases hl : lineLen ring with
      | some l =>
          refine Or.inl (by_contra fun hnot => ?_)
          rw [lineLen_eq_none.mpr hnot] at hl
          cases hl
      | none =>
          have hnot := lineLen_eq_none.mp hl
          rw [hl, firstLine_piece hl] at h
          dsimp only at h
          have hnext : newline ∈ a ++ later.flatten ∨ a ++ later.flatten = [] ∧ pre ++ ring = [] := by
            rcases hend with hend | ⟨hend, hpre⟩
            · exact Or.inl ((List.mem_append.mp hend).resolve_left hnot)
            · obtain ⟨hring, hrest⟩ := List.append_eq_nil_iff.mp hend
              exact Or.inr ⟨hrest, by rw [hpre, hring]; rfl⟩
          split at h
          next hfull =>
            -- it would have returned less
            have hlen := congrArg List.length (Option.some.inj h)
            simp only [List.length_append, List.length_take] at hlen
            rcases hnext with hmem | ⟨-, hnil⟩
            · have hpos := length_firstLine_pos hmem
              omega
            · obtain ⟨hpre, hring⟩ := List.append_eq_nil_iff.mp hnil
              rw [hpre, hring] at hfull
              rw [hpre] at hlt
              exact absurd hlt (by simpa using hfull)
          next hfull =>
            refine Or.inr ⟨by omega, ?_⟩
            rw [← List.length_append]
            split at h
            next hlook =>
              rw [← List.append_assoc] at h
              exact ⟨hlook, ih h (by rw [List.length_append]; omega) hnext⟩
            next =>
              split at h
              next => cases h
              next hne =>
                rw [← List.append_assoc] at h
                have hnil := List.self_eq_append_right.mp (Option.some.inj h)
                rcases hnext with hmem | ⟨-, hnil'⟩
                · rw [firstLine_eq_nil.mp hnil] at hmem
                  cases hmem
                · exact absurd hnil' hne

end Pieces

/-! ## That is what the loop comes to -/

/-- The pieces as they arrive: the stream ends with the last. -/
def arrivals : List (List UInt8) → List Arrival
  | [] => []
  | a :: later => ⟨a, later.isEmpty⟩ :: arrivals later

theorem stream_arrivals (later : List (List UInt8)) : stream (arrivals later) = later.flatten := by
  induction later with
  | nil => rfl
  | cons a later ih => rw [arrivals, stream, List.flatMap_cons, List.flatten_cons, ← ih]; rfl

/-- A call that returns `got` comes to have stored it, with the rest of the bytes unread; one
that returns nothing never comes to an end. -/
def ComesTo (deliver : Arrival → ProcLocal → ProcLocal) (s buf : Nat) (bs : List UInt8)
    (later : List (List UInt8)) (st : ProcLocal) : Option (List UInt8) → Prop
  | some got => Loop.Halts (readlineLoop s) deliver (Returned s buf got (bs.drop got.length)) st
      (arrivals later)
  | none => ∀ P, ¬Loop.Halts (readlineLoop s) deliver P st (arrivals later)

section Loop
variable {src : Source} {s buf len : Nat} {m : Memory UInt8} {pre ring : List UInt8}
  {later : List (List UInt8)} {st : ProcLocal} {deliver : Arrival → ProcLocal → ProcLocal}

theorem drop_stored (pre : List UInt8) {ring rest : List UInt8} {k : Nat} (hk : k ≤ ring.length) :
    (pre ++ ring ++ rest).drop (pre ++ ring.take k).length = ring.drop k ++ rest := by
  rw [List.length_append, List.length_take, Nat.min_eq_left hk, ← List.drop_drop, List.append_assoc,
    List.drop_left, List.drop_append_of_le_length hk]

/-- A turn that finds the end of the line ends the call, and so does one that finds more
than there is room for. -/
theorem halts_of_line {hup : Bool} (h : AtTop src s buf len m pre ⟨ring, hup⟩ st)
    (hlt : pre.length < len) (hstale : pre = [] ∨ stale m buf pre.length ≠ newline) {k : Nat}
    (hk : lineLen ring = some k ∨ lineLen ring = none ∧ k = len - pre.length ∧ k ≤ ring.length) :
    Loop.Halts (readlineLoop s) deliver
      (Returned s buf (pre ++ ring.take k)
        ((pre ++ ring ++ later.flatten).drop (pre ++ ring.take k).length)) st (arrivals later) := by
  rcases hk with hl | ⟨hl, rfl, hle⟩
  · refine h.halts_of_newline hlt hstale hl rfl ?_
    rw [drop_stored pre (lineLen_le hl), stream_arrivals]
  · obtain ⟨hreq, hcount⟩ := lineCount_of_none (s := s) (by rw [h.queue]; exact hl)
    rw [h.uncommitted, ← Vectoring.length_queue, h.queue, Nat.min_eq_left hle] at hcount
    have hne : ring ≠ [] := by
      rintro rfl
      rw [List.length_nil] at hle
      omega
    refine h.halts_of_full hlt hstale hne hcount hle ?_ rfl ?_
    · rw [body_uncommitted h.reads.wf, hreq, hcount, h.uncommitted, Nat.sub_self]
    · rw [drop_stored pre hle, stream_arrivals]

/-- A call that does not go on from the top of its loop has returned. -/
theorem halts_of_left {a : Arrival} (h : AtTop src s buf len m pre a st) (hlt : pre.length < len)
    (ha : a.bytes = [])
    (hleft : a.hup = true ∨ pre ≠ [] ∧ stale m buf pre.length = newline) {as : List Arrival} :
    Loop.Halts (readlineLoop s) deliver (Returned s buf pre (stream as)) st as := by
  have htest : (readlineLoop s).test st = false := by
    refine Bool.eq_false_iff.mpr fun htrue => ?_
    obtain ⟨hne, hgoes⟩ := (h.test hlt).mp htrue
    rcases hleft with hup | ⟨hpre, hnl⟩
    · exact hne ⟨ha, hup⟩
    · exact hgoes.elim hpre fun hlook => hlook hnl
  refine (Loop.halts_of_done (Loop.turn_of_not_test _ htest)).mpr ⟨h.committed, h.loaded, ?_⟩
  rw [h.queue, ha, List.nil_append]

/-- From the top of the loop on.  By induction on the pieces that are to come. -/
theorem comesTo_lineFrom (hd : Delivers src s deliver)
    (h : AtTop src s buf len m pre ⟨ring, later.isEmpty⟩ st) (hlt : pre.length < len)
    (hstale : pre = [] ∨ stale m buf pre.length ≠ newline)
    (hroom : ∀ a ∈ later, a.length ≤ src.cap) :
    ComesTo deliver s buf (pre ++ ring ++ later.flatten) later st
      (lineFrom len (stale m buf) pre ring later) := by
  induction later generalizing pre ring st with
  | nil =>
      rw [lineFrom]
      cases hl : lineLen ring with
      | some l => exact halts_of_line h hlt hstale (Or.inl hl)
      | none =>
          by_cases hfull : len - pre.length ≤ ring.length
          · exact halts_of_line h hlt hstale (Or.inr ⟨hl, rfl, hfull⟩)
          have hfit : pre.length + ring.length ≤ len := by omega
          have hnl := lineLen_eq_none.mp hl
          rw [List.flatten_nil, List.append_nil]
          dsimp only
          rw [List.take_of_length_le (by omega), ComesTo, List.drop_length]
          -- all has come, and the end of the stream with it
          by_cases hring : ring = []
          · subst hring
            rw [List.append_nil]
            exact halts_of_left h hlt rfl (Or.inl rfl)
          · have hturn := h.turn hlt hstale (fun hend => hring hend.1) hnl hfit
            rw [if_pos (by rfl)] at hturn
            have hbody := h.body hnl hfit
            exact (Loop.halts_of_done hturn).mpr
              ⟨hbody.committed, hbody.loaded, by rw [hbody.queue]; rfl⟩
  | cons a later ih =>
      obtain ⟨ha, hlater⟩ := List.forall_mem_cons.mp hroom
      rw [lineFrom]
      cases hl : lineLen ring with
      | some l => exact halts_of_line h hlt hstale (Or.inl hl)
      | none =>
          dsimp only
          split
          next hfull => exact halts_of_line h hlt hstale (Or.inr ⟨hl, rfl, by omega⟩)
          next hfull =>
            have hfit : pre.length + ring.length ≤ len := by omega
            have hnl := lineLen_eq_none.mp hl
            have hturn := (h.turn hlt hstale (fun hend => Bool.false_ne_true hend.2) hnl hfit).trans
              (if_neg Bool.false_ne_true)
            have hbody := h.body hnl hfit
            have hlt' : (pre ++ ring).length < len := by rw [List.length_append]; omega
            split
            next hlook =>
              -- it waits, and the next piece comes
              have hwait := hturn.trans (if_pos ⟨hlt', hlook⟩)
              have hnext := ih (hbody.delivered hd (a := ⟨a, later.isEmpty⟩) ha) hlt' (Or.inr hlook)
                hlater
              rw [List.flatten_cons, ← List.append_assoc]
              generalize lineFrom len (stale m buf) (pre ++ ring) a later = got at hnext ⊢
              cases got with
              | some got => exact (Loop.halts_of_wait hwait).mpr hnext
              | none => exact fun P hhalts => hnext P ((Loop.halts_of_wait hwait).mp hhalts)
            next hlook =>
              have hnewline := not_not.mp hlook
              have hagain := hturn.trans (if_neg fun hgoes => hlook hgoes.2)
              split
              next hnil =>
                obtain ⟨rfl, rfl⟩ := List.append_eq_nil_iff.mp hnil
                exact fun P => not_halts_of_stale h hlt hnewline
              next hne =>
                rw [ComesTo, List.drop_left, ← stream_arrivals]
                exact (Loop.halts_of_again hagain).mpr
                  (halts_of_left hbody hlt' rfl (Or.inr ⟨hne, hnewline⟩))

end Loop

/-! ## The calls of a coroutine -/

variable (E : Wire)

/-- What is in the ring. -/
def ring (p : Spot) : List UInt8 := (E.arrive p).headD []

/-- What is to come. -/
def later (p : Spot) : List (List UInt8) := (E.arrive p).tail

/-- What `vk_readline` of a length returns, if it does. -/
def line (len : Nat) (p : Spot) : Option (List UInt8) :=
  lineFrom len (E.look p) [] (E.ring p) (E.later p)

/-- The call is clean. -/
def CleanAt (len : Nat) (p : Spot) : Prop := CleanFrom len (E.look p) 0 (E.ring p) (E.later p)

/-- Where it stops short of its line. -/
def stop (p : Spot) : Option Nat := stopFrom (E.look p) 0 (E.ring p) (E.later p)

/-- No call stops short. -/
def Quiet : Prop := ∀ p, E.stop p = none

/-- Every `vk_forward` moves what it is to, or all that is left. -/
def Forwards : Prop := ∀ n p, E.moves n p = min n p.2.length

/-- Every `vk_hup` gets back. -/
def Heard : Prop := ∀ p, E.heard p = true

/-- What a coroutine reads. -/
def reader : Reader Spot where
  readline n p :=
    let got := (E.line n p).getD []
    (got, p.1 + 1, p.2.drop got.length)
  read n p := (p.2.take n, p.1 + 1, p.2.drop n)
  forward n p := (p.2.take (E.moves n p), p.1 + 1, p.2.drop (E.moves n p))
  nodata p := p.2.isEmpty && E.told p.1
  hup p := E.heard p
  length_read n p := by
    rw [List.length_take]
    exact Nat.min_le_left _ _

variable {E}

theorem ring_later (p : Spot) : E.ring p ++ (E.later p).flatten = p.2 := by
  have hjoin := E.join p
  rw [ring, later]
  cases harrive : E.arrive p with
  | nil => rwa [harrive] at hjoin
  | cons a later => rwa [harrive] at hjoin

/-- What is returned are bytes of the line. -/
theorem line_isPrefix {len : Nat} {p : Spot} {got : List UInt8} (h : E.line len p = some got) :
    got <+: firstLine p.2 := by
  have hprefix := isPrefix_of_lineFrom h
  rwa [ring_later, List.nil_append] at hprefix

theorem reader_isPrefix (len : Nat) (p : Spot) :
    (E.reader.readline len p).1 <+: firstLine p.2 := by
  show (E.line len p).getD [] <+: _
  cases hline : E.line len p with
  | none => exact List.nil_prefix
  | some got => exact line_isPrefix hline

/-- However it comes over, the reader gives the stream. -/
theorem gives (E : Wire) : E.reader.Gives Prod.snd where
  line_left n p := by
    obtain ⟨rest, hrest⟩ := (reader_isPrefix n p).trans (Reader.firstLine_isPrefix p.2)
    show _ ++ p.2.drop ((E.reader.readline n p).1).length = p.2
    rw [← hrest, List.drop_left]
  line_first n p := reader_isPrefix n p
  read_eq _ _ := rfl
  read_left _ _ := rfl
  nodata p h := List.isEmpty_iff.mp (Bool.and_eq_true_iff.mp h).1

/-- A call stops inside of its line. -/
theorem stop_lt {n : Nat} {p : Spot} (hstop : E.stop p = some n) (hend : newline ∈ p.2) :
    n < (firstLine p.2).length := by
  have hlt := stopFrom_lt hstop (by rwa [ring_later])
  rwa [ring_later, Nat.zero_add] at hlt

/-- A call that stops short of a line that fits returns what it has of it, if it has. -/
theorem line_of_stop {len n : Nat} {p : Spot} (hstop : E.stop p = some n)
    (hend : newline ∈ p.2 ∨ p.2 = []) (hlen : 0 < len) (hfits : (firstLine p.2).length ≤ len) :
    E.line len p = if n = 0 then none else some (p.2.take n) := by
  have hfrom : stopFrom (E.look p) ([] : List UInt8).length (E.ring p) (E.later p) = some n := hstop
  have hle : ([] : List UInt8).length + (firstLine (E.ring p ++ (E.later p).flatten)).length
      ≤ len := by
    rw [ring_later, List.length_nil, Nat.zero_add]
    exact hfits
  have hline := lineFrom_of_stop hfrom (by rwa [ring_later]) hlen hle
  rwa [ring_later, List.nil_append] at hline

/-- One that does not returns all of it. -/
theorem line_of_quiet {len : Nat} {p : Spot} (hstop : E.stop p = none)
    (hfits : (firstLine p.2).length ≤ len) : E.line len p = some (firstLine p.2) := by
  have hfrom : stopFrom (E.look p) ([] : List UInt8).length (E.ring p) (E.later p) = none := hstop
  have hle : ([] : List UInt8).length + (firstLine (E.ring p ++ (E.later p).flatten)).length
      ≤ len := by
    rw [ring_later, List.length_nil, Nat.zero_add]
    exact hfits
  have hline := lineFrom_of_quiet hfrom hle
  rwa [ring_later, List.nil_append] at hline

/-- Where no call stops short, every line that fits is whole. -/
theorem streams (h : E.Quiet) : E.reader.Streams Prod.snd where
  toGives := E.gives
  whole n p hfits := by
    show (E.line n p).getD [] = firstLine p.2
    rw [line_of_quiet (h p) hfits]
    rfl

/-- And where every `vk_forward` and every `vk_hup` does what it is to. -/
theorem serves (h : E.Quiet) (hforwards : E.Forwards) (hheard : E.Heard) :
    E.reader.Serves Prod.snd where
  toStreams := streams h
  forward n p := by
    show (p.2.take (E.moves n p), p.1 + 1, p.2.drop (E.moves n p)) = (p.2.take n, p.1 + 1, p.2.drop n)
    rw [hforwards, ← List.take_eq_take_min, ← List.drop_eq_drop_min]
  hup := hheard

/-- A call returns its line whole exactly when it is clean. -/
theorem clean_iff {len : Nat} {p : Spot} (hlen : 0 < len) (hend : newline ∈ p.2 ∨ p.2 = []) :
    (E.line len p).isSome ∧ E.reader.Whole Prod.snd len p ↔ E.CleanAt len p := by
  have hline : E.line len p = some (firstLine p.2) ↔
      CleanFrom len (E.look p) ([] : List UInt8).length (E.ring p) (E.later p) := by
    rw [line]
    refine ⟨fun h => clean_of_lineFrom ?_ hlen ?_, fun h => ?_⟩
    · rw [ring_later]
      exact h
    · rw [ring_later]
      exact hend.imp_right fun hnil => ⟨hnil, rfl⟩
    · have hclean := lineFrom_of_clean h (by rw [ring_later]; exact hend)
      rwa [ring_later] at hclean
  refine Iff.trans ?_ hline
  show _ ∧ (E.line len p).getD [] = _ ↔ _
  cases E.line len p with
  | none => simp
  | some got => simp

/-- A process that stands at the head of the loop, with what there is in its ring and its
memory, comes to what the call returns. -/
theorem comesTo_line {src : Source} {s buf len : Nat} {m : Memory UInt8} {st : ProcLocal}
    {deliver : Arrival → ProcLocal → ProcLocal} {p : Spot} (hd : Delivers src s deliver)
    (h : AtTop src s buf len m [] ⟨E.ring p, (E.later p).isEmpty⟩ st)
    (hlook : stale m buf = E.look p) (hcap : src.cap = Socket.bufLen) (hlen : 0 < len) :
    ComesTo deliver s buf p.2 (E.later p) st (E.line len p) := by
  have hcomes := comesTo_lineFrom hd h hlen (Or.inl rfl) fun a ha => by
    rw [hcap]
    exact E.room p a (List.mem_of_mem_tail ha)
  rwa [List.nil_append, ring_later, hlook] at hcomes

/-! ## One byte at a time -/

/-- Each byte comes alone, and where the tests look there are zeros; the rest is as it
should be. -/
def bytewise : Wire where
  arrive p := p.2.map fun b => [b]
  join p := by
    rw [← List.flatMap_def]
    exact List.flatMap_singleton' _
  room p a ha := by
    obtain ⟨b, -, rfl⟩ := List.mem_map.mp ha
    exact (by decide : 1 ≤ Socket.bufLen)
  look _ _ := 0
  told _ := true
  moves n p := min n p.2.length
  heard _ := true

theorem stopFrom_of_look {look : Nat → UInt8} (h : ∀ n, look n ≠ newline) (n : Nat)
    (ring : List UInt8) (later : List (List UInt8)) : stopFrom look n ring later = none := by
  induction later generalizing n ring with
  | nil => rfl
  | cons a later ih => rw [stopFrom, if_neg (h _), ih, ite_self]

theorem bytewise_quiet : bytewise.Quiet := fun _ =>
  stopFrom_of_look (fun _ => (by decide : (0 : UInt8) ≠ newline)) _ _ _

end Wire

end Vk

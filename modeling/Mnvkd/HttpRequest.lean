/-
# `Mnvkd.HttpRequest` — where headers end, and how long an entity is

The headers of a request, and the trailers behind its chunks, are read line by
line until `vk_readrfcheader` gives none.  It gives none for a line that is empty,
and as well for one that has no delimiter: a section ends at the first of either
(`leavesAt_iff`).

`Content-Length` is what the last header of that name says, by `dec_size`.  It
takes twenty digits, of which a `size_t` may not hold the number.
-/
import Mnvkd.Http
import Mnvkd.RfcHeader

namespace Vk.Http

open Lib Text Fetch Rfc

variable {σ : Type} (r : Reader σ) (below : σ → Nat → Int)

/-! ## A line of headers -/

theorem readrfcheader_end {len : Nat} {t : σ} (h : (r.readline len t).1 = []) :
    readrfcheader r below len t = .error Errno.EPIPE := by
  rw [readrfcheader, readrfcline, if_pos h]

theorem readrfcheader_line {len : Nat} {t : σ} (h : (r.readline len t).1 ≠ []) :
    readrfcheader r below len t
      = .ok (parseHeader (below (r.readline len t).2) (rtrim (r.readline len t).1),
          (r.readline len t).2) := by
  rw [readrfcheader, readrfcline, if_neg h]

/-- A line that is empty up to its line break. -/
def EmptyLine (line : List UInt8) : Prop := line = bytes "\r\n" ∨ line = bytes "\n"

instance (line : List UInt8) : Decidable (EmptyLine line) :=
  inferInstanceAs (Decidable (line = bytes "\r\n" ∨ line = bytes "\n"))

theorem EmptyLine.not_delimited {line : List UInt8} (h : EmptyLine line) :
    line ≠ [] ∧ ¬ Delimited line := by
  rcases h with rfl | rfl
  · decide
  · decide

/-- A line is taken for the end of the headers when it has no delimiter. -/
theorem readrfcheader_none_iff {len : Nat} {t : σ} (h : (r.readline len t).1 ≠ []) :
    readrfcheader r below len t = .ok (none, (r.readline len t).2) ↔
      ¬ Delimited (r.readline len t).1 := by
  rw [readrfcheader_line r below h, ← delimited_rtrim, ← parseHeader_eq_none]
  constructor
  · intro heq
    exact congrArg Prod.fst (Except.ok.inj heq)
  · intro heq
    rw [heq]

/-! ## A section of headers -/

/-- The stream behind so many lines. -/
def after (k : Nat) (t : σ) : σ := (fun t => (r.readline 1023 t).2)^[k] t

/-- The line behind so many lines. -/
def lineAt (k : Nat) (t : σ) : List UInt8 := (r.readline 1023 (after r k t)).1

theorem after_succ (k : Nat) (t : σ) : after r (k + 1) t = (r.readline 1023 (after r k t)).2 :=
  Function.iterate_succ_apply' _ _ _

/-- The two loops that read headers. -/
def Stage.Reading (st : Stage) : Prop := st = .headers ∨ st = .trailers

theorem run_succ (n : Nat) (s : State σ) : run r below (n + 1) s = step r below (run r below n s) :=
  Function.iterate_succ_apply' _ _ _

/-- What a step does that reads a header. -/
theorem step_reading {s : State σ} (hs : s.stage.Reading) :
    ((r.readline 1023 s.stream).1 = [] ∧
      (step r below s).stage = .raised (some Errno.EPIPE)) ∨
    ((r.readline 1023 s.stream).1 ≠ [] ∧ Delimited (r.readline 1023 s.stream).1 ∧
      (step r below s).stage = s.stage ∧ (step r below s).stream = (r.readline 1023 s.stream).2) ∨
    ((r.readline 1023 s.stream).1 ≠ [] ∧ ¬ Delimited (r.readline 1023 s.stream).1 ∧
      (step r below s).stage ≠ s.stage ∧ ∀ e, (step r below s).stage ≠ .raised e) := by
  by_cases hline : (r.readline 1023 s.stream).1 = []
  · left
    refine ⟨hline, ?_⟩
    rcases hs with hs | hs
    · simp only [step, hs, header, readrfcheader_end r below hline]
      rfl
    · simp only [step, hs, trailer, readrfcheader_end r below hline]
      rfl
  right
  have hread := readrfcheader_line r below hline
  have hnone := parseHeader_eq_none (below (r.readline 1023 s.stream).2)
    (rtrim (r.readline 1023 s.stream).1)
  rw [delimited_rtrim] at hnone
  cases hparse : parseHeader (below (r.readline 1023 s.stream).2)
      (rtrim (r.readline 1023 s.stream).1) with
  | none =>
      right
      refine ⟨hline, hnone.mp hparse, ?_⟩
      rw [hparse] at hread
      rcases hs with hs | hs
      · simp only [step, hs, header, hread]
        exact ⟨nofun, nofun⟩
      · simp only [step, hs, trailer, hread, State.finish]
        split
        next => exact ⟨nofun, nofun⟩
        next => exact ⟨nofun, nofun⟩
  | some p =>
      left
      have hdelimited : Delimited (r.readline 1023 s.stream).1 := by
        apply Decidable.byContradiction
        intro h
        rw [hnone.mpr h] at hparse
        cases hparse
      refine ⟨hline, hdelimited, ?_⟩
      rw [hparse] at hread
      rcases hs with hs | hs
      · simp only [step, hs, header, hread, and_self]
      · simp only [step, hs, trailer, hread, and_self]

/-- The loop goes on through so many lines. -/
def StaysTo (s : State σ) (n : Nat) : Prop := ∀ k ≤ n, (run r below k s).stage = s.stage

/-- The loop is left behind that line, without an error. -/
def LeavesAt (s : State σ) (n : Nat) : Prop :=
  StaysTo r below s n ∧ (run r below (n + 1) s).stage ≠ s.stage ∧
    ∀ e, (run r below (n + 1) s).stage ≠ .raised e

section Section
variable {s : State σ} (hs : s.stage.Reading)
include hs

/-- While there are delimiters the loop goes on. -/
theorem run_reading {n : Nat}
    (hlines : ∀ k < n, lineAt r k s.stream ≠ [] ∧ Delimited (lineAt r k s.stream)) :
    (run r below n s).stage = s.stage ∧ (run r below n s).stream = after r n s.stream := by
  induction n with
  | zero => exact ⟨rfl, rfl⟩
  | succ n ih =>
      obtain ⟨hstage, hstream⟩ := ih fun k hk => hlines k (Nat.lt_succ_of_lt hk)
      have hline := hlines n (Nat.lt_succ_self n)
      rw [lineAt, ← hstream] at hline
      rw [run_succ, after_succ, ← hstream]
      rcases step_reading r below (hstage ▸ hs) with ⟨hend, -⟩ | ⟨-, -, hstep⟩ | ⟨-, hnone, -⟩
      · exact absurd hend hline.1
      · exact ⟨hstep.1.trans hstage, hstep.2⟩
      · exact absurd hline.2 hnone

theorem staysTo_iff (n : Nat) :
    StaysTo r below s n ↔ ∀ k < n, lineAt r k s.stream ≠ [] ∧ Delimited (lineAt r k s.stream) := by
  constructor
  · intro hstays
    induction n with
    | zero => exact fun k hk => absurd hk (Nat.not_lt_zero k)
    | succ n ih =>
        have hlines := ih fun k hk => hstays k (Nat.le_succ_of_le hk)
        obtain ⟨hstage, hstream⟩ := run_reading r below hs hlines
        have hnext := hstays (n + 1) (Nat.le_refl _)
        intro k hk
        rcases Nat.lt_or_eq_of_le (Nat.le_of_lt_succ hk) with hlt | rfl
        · exact hlines k hlt
        rw [run_succ] at hnext
        rw [lineAt, ← hstream]
        rcases step_reading r below (hstage ▸ hs) with ⟨-, hraised⟩ | ⟨hline, hdelim, -⟩ |
          ⟨-, -, hleft, -⟩
        · rw [hraised] at hnext
          rw [← hnext] at hs
          rcases hs with hs | hs
          · cases hs
          · cases hs
        · exact ⟨hline, hdelim⟩
        · exact absurd (hnext.trans hstage.symm) hleft
  · intro hlines k hk
    exact (run_reading r below hs fun j hj => hlines j (Nat.lt_of_lt_of_le hj hk)).1

/-- The loop is left at the first line that has no delimiter. -/
theorem leavesAt_iff (n : Nat) :
    LeavesAt r below s n ↔
      (∀ k < n, lineAt r k s.stream ≠ [] ∧ Delimited (lineAt r k s.stream)) ∧
        lineAt r n s.stream ≠ [] ∧ ¬ Delimited (lineAt r n s.stream) := by
  rw [LeavesAt, staysTo_iff r below hs, run_succ]
  refine and_congr_right fun hlines => ?_
  obtain ⟨hstage, hstream⟩ := run_reading r below hs hlines
  rw [lineAt, ← hstream, ← hstage]
  rcases step_reading r below (hstage ▸ hs) with ⟨hend, hraised⟩ | ⟨-, hdelim, hstays, -⟩ |
    ⟨hline, hnone, hleft, hraised⟩
  · exact ⟨fun h => absurd hraised (h.2 _), fun h => absurd hend h.1⟩
  · exact ⟨fun h => absurd hstays h.1, fun h => absurd hdelim h.2⟩
  · exact ⟨fun _ => ⟨hline, hnone⟩, fun _ => ⟨hleft, hraised⟩⟩

end Section

/-- That line is the first empty one. -/
def FirstEmpty (t : σ) (n : Nat) : Prop :=
  (∀ k < n, lineAt r k t ≠ [] ∧ ¬ EmptyLine (lineAt r k t)) ∧ EmptyLine (lineAt r n t)

/-- A line is taken for the end of the headers when it is empty, and the loop that reads
them is left there, in so far as every line up to the first empty one has a delimiter. -/
theorem section_ends_iff {s : State σ} (hs : s.stage.Reading) :
    (∀ len t, (r.readline len t).1 ≠ [] →
      ((readrfcheader r below len t = .ok (none, (r.readline len t).2) ↔
          EmptyLine (r.readline len t).1) ↔
        EmptyLine (r.readline len t).1 ∨ Delimited (r.readline len t).1)) ∧
    ((∀ n, LeavesAt r below s n ↔ FirstEmpty r s.stream n) ↔
      ∀ n, (∀ k < n, lineAt r k s.stream ≠ [] ∧ ¬ EmptyLine (lineAt r k s.stream)) →
        lineAt r n s.stream = [] ∨ EmptyLine (lineAt r n s.stream) ∨
          Delimited (lineAt r n s.stream)) := by
  constructor
  · intro len t hline
    rw [readrfcheader_none_iff r below hline]
    constructor
    · intro h
      by_cases hdelim : Delimited (r.readline len t).1
      · exact .inr hdelim
      · exact .inl (h.mp hdelim)
    · rintro (hempty | hdelim)
      · exact ⟨fun _ => hempty, fun _ => hempty.not_delimited.2⟩
      · exact ⟨fun h => absurd hdelim h, fun h => absurd hdelim h.not_delimited.2⟩
  simp only [leavesAt_iff r below hs, FirstEmpty]
  constructor
  · intro hends n
    induction n using Nat.strong_induction_on with
    | _ n ih =>
        intro hbefore
        -- the lines before have a delimiter, so the loop is left here if this has none
        have hdelims : ∀ k < n, lineAt r k s.stream ≠ [] ∧ Delimited (lineAt r k s.stream) := by
          intro k hk
          have hcases := ih k hk fun j hj => hbefore j (Nat.lt_trans hj hk)
          exact ⟨(hbefore k hk).1, (hcases.resolve_left (hbefore k hk).1).resolve_left
            (hbefore k hk).2⟩
        by_cases hline : lineAt r n s.stream = []
        · exact .inl hline
        by_cases hdelim : Delimited (lineAt r n s.stream)
        · exact .inr (.inr hdelim)
        · exact .inr (.inl ((hends n).mp ⟨hdelims, hline, hdelim⟩).2)
  · intro hlines n
    constructor
    · rintro ⟨hdelims, hline, hnone⟩
      have hbefore : ∀ k < n, lineAt r k s.stream ≠ [] ∧ ¬ EmptyLine (lineAt r k s.stream) :=
        fun k hk => ⟨(hdelims k hk).1, fun h => h.not_delimited.2 (hdelims k hk).2⟩
      exact ⟨hbefore, ((hlines n hbefore).resolve_left hline).resolve_right hnone⟩
    · rintro ⟨hbefore, hempty⟩
      refine ⟨fun k hk => ?_, hempty.not_delimited⟩
      have hcases := hlines k fun j hj => hbefore j (Nat.lt_trans hj hk)
      exact ⟨(hbefore k hk).1, (hcases.resolve_left (hbefore k hk).1).resolve_left
        (hbefore k hk).2⟩

/-- The headers `Foo`, and then an empty line. -/
def foo : State (List UInt8) :=
  { begin (bytes "Foo\r\n\r\n") .zero ⟨.zero, []⟩ with stage := .headers }

theorem section_ends_iff_foo :
    (∀ len t, (Reader.whole.readline len t).1 ≠ [] →
      ((readrfcheader Reader.whole (fun _ _ => 0) len t
            = .ok (none, (Reader.whole.readline len t).2) ↔
          EmptyLine (Reader.whole.readline len t).1) ↔
        EmptyLine (Reader.whole.readline len t).1 ∨ Delimited (Reader.whole.readline len t).1)) ∧
    ((∀ n, LeavesAt Reader.whole (fun _ _ => 0) foo n ↔ FirstEmpty Reader.whole foo.stream n) ↔
      ∀ n, (∀ k < n, lineAt Reader.whole k foo.stream ≠ [] ∧
          ¬ EmptyLine (lineAt Reader.whole k foo.stream)) →
        lineAt Reader.whole n foo.stream = [] ∨ EmptyLine (lineAt Reader.whole n foo.stream) ∨
          Delimited (lineAt Reader.whole n foo.stream)) :=
  section_ends_iff Reader.whole _ (.inl rfl)

/-- They end at `Foo`. -/
theorem foo_ends :
    readrfcheader Reader.whole (fun _ _ => 0) 1023 (bytes "Foo\r\n") = .ok (none, []) ∧
      ¬ EmptyLine (bytes "Foo\r\n") ∧
      LeavesAt Reader.whole (fun _ _ => 0) foo 0 ∧ ¬ FirstEmpty Reader.whole foo.stream 0 := by
  refine ⟨?_, by decide, ?_, fun h => absurd h.2 (by decide)⟩
  · exact (readrfcheader_none_iff Reader.whole _ (by decide)).mpr (by decide)
  · exact (leavesAt_iff Reader.whole _ (s := foo) (.inl rfl) 0).mpr ⟨nofun, by decide, by decide⟩

/-! ## The length of an entity -/

/-- The digits at the front of a value. -/
def lengthDigits (val : List UInt8) : List UInt8 := (cstring val).takeWhile isdigit

/-- The value is a number and nothing else. -/
def DigitString (val : List UInt8) : Prop := cstring val ≠ [] ∧ lengthDigits val = cstring val

/-- No digit is too many, and a `size_t` holds their number. -/
def Fits (val : List UInt8) : Prop :=
  (lengthDigits val).length ≤ 20 ∧ value (lengthDigits val) < 2 ^ 64 ∨
    value (lengthDigits val) = 0

theorem takeWhile_take (p : UInt8 → Bool) (n : Nat) (bs : List UInt8) :
    (bs.take n).takeWhile p = (bs.takeWhile p).take n := by
  induction bs generalizing n with
  | nil => rw [List.take_nil, List.takeWhile_nil, List.take_nil]
  | cons b bs ih =>
      cases n with
      | zero => rfl
      | succ n =>
          rw [List.take_succ_cons, List.takeWhile_cons, List.takeWhile_cons, ih]
          split
          next => rfl
          next => rfl

/-- A digit more, in a `size_t`. -/
theorem toNat_foldl_decimal {ds : List UInt8} (h : ∀ d ∈ ds, isdigit d = true) (size : UInt64) :
    (ds.foldl (fun (size : UInt64) d => size * 10 + (d - 48).toUInt64) size).toNat
      = ds.foldl (fun v d => 10 * v + (d.toNat - 48)) size.toNat % 2 ^ 64 := by
  have hmod : ∀ (ds : List UInt8) (v : Nat), ds.foldl (fun v d => 10 * v + (d.toNat - 48))
      (v % 2 ^ 64) % 2 ^ 64 = ds.foldl (fun v d => 10 * v + (d.toNat - 48)) v % 2 ^ 64 := by
    intro ds
    induction ds with
    | nil => exact fun v => Nat.mod_mod v _
    | cons d ds ih =>
        intro v
        rw [List.foldl_cons, List.foldl_cons, ← ih, ← ih (10 * v + _)]
        congr 2
        omega
  induction ds generalizing size with
  | nil => exact (Nat.mod_eq_of_lt size.toNat_lt).symm
  | cons d ds ih =>
      have hd : 48 ≤ d.toNat := (of_decide_eq_true (h d List.mem_cons_self)).1
      have hle : (48 : UInt8) ≤ d := hd
      have hstep : (size * 10 + (d - 48).toUInt64).toNat
          = (10 * size.toNat + (d.toNat - 48)) % 2 ^ 64 := by
        rw [UInt64.toNat_add, UInt64.toNat_mul, UInt8.toNat_toUInt64, UInt8.toNat_sub_of_le _ _ hle]
        show (size.toNat * 10 % 2 ^ 64 + (d.toNat - 48)) % 2 ^ 64 = _
        omega
      rw [List.foldl_cons, List.foldl_cons, ih fun d hd => h d (List.mem_cons_of_mem _ hd), hstep,
        hmod]

/-- `dec_size` gives the number of the first twenty digits, as far as it has bits. -/
theorem toNat_decSize (val : List UInt8) :
    (decSize val).toNat = value ((lengthDigits val).take 20) % 2 ^ 64 := by
  have hdigits : ∀ d ∈ (lengthDigits val).take 20, isdigit d = true := by
    intro d hd
    exact List.mem_takeWhile_imp (List.mem_of_mem_take hd)
  rw [decSize, takeWhile_take]
  exact toNat_foldl_decimal hdigits 0

/-- That is the number of all digits if they fit. -/
theorem decSize_iff (val : List UInt8) :
    (decSize val).toNat = value (lengthDigits val) ↔ Fits val := by
  rw [toNat_decSize, Fits]
  rcases Nat.lt_or_ge 20 (lengthDigits val).length with hlen | hlen
  · -- a digit that is left out moved the others up
    have hsplit := number_append 10 (fun d => d.toNat - 48) ((lengthDigits val).take 20)
      ((lengthDigits val).drop 20)
    rw [List.take_append_drop] at hsplit
    have hvalue : value (lengthDigits val) = value ((lengthDigits val).take 20)
        * 10 ^ ((lengthDigits val).drop 20).length + value ((lengthDigits val).drop 20) := hsplit
    have hpow : 10 ≤ 10 ^ ((lengthDigits val).drop 20).length :=
      Nat.le_self_pow (by rw [List.length_drop]; omega) 10
    have hmul := Nat.mul_le_mul_left (value ((lengthDigits val).take 20)) hpow
    have hmod := Nat.mod_le (value ((lengthDigits val).take 20)) (2 ^ 64)
    constructor
    · intro heq
      right
      omega
    · intro hcases
      have hzero := hcases.resolve_left fun h => by omega
      omega
  · rw [List.take_of_length_le hlen]
    omega

/-- The headers on so many lines. -/
def headersRead (n : Nat) (t : σ) : List Parsed :=
  (List.range n).filterMap fun k =>
    parseHeader (below (after r (k + 1) t)) (rtrim (lineAt r k t))

/-- The value of the last `Content-Length`. -/
def lastLength (ps : List Parsed) : Option (List UInt8) :=
  ((ps.filter fun p => httpHeaders.stringTo p.key = .contentLength).getLast?).map Parsed.val

theorem lastLength_concat (ps : List Parsed) (p : Parsed) :
    lastLength (ps ++ [p])
      = if httpHeaders.stringTo p.key = .contentLength then some p.val else lastLength ps := by
  rw [lastLength, List.filter_append]
  split
  next h => rw [List.filter_singleton, decide_eq_true h, cond_true, List.getLast?_concat]; rfl
  next h => rw [List.filter_singleton, decide_eq_false h, cond_false, List.append_nil]; rfl

theorem keep_contentLength (q : Request) (p : Parsed) :
    (q.keep p).contentLength = q.contentLength := by
  rw [Request.keep]
  split
  next => rfl
  next => rfl

/-- Only a `Content-Length` changes the length. -/
theorem apply_contentLength (q : Request) (p : Parsed) :
    (q.apply p).contentLength
      = if httpHeaders.stringTo p.key = .contentLength then decSize p.val else q.contentLength := by
  by_cases hlength : httpHeaders.stringTo p.key = .contentLength
  · rw [if_pos hlength, Request.apply, hlength]
  rw [if_neg hlength, Request.apply]
  split
  next =>
    split
    next => rfl
    next => rfl
  next h => exact absurd h hlength
  next =>
    split
    next => rfl
    next => rfl
  next => rfl

/-- What a header does that is read. -/
theorem step_header {s : State σ} {p : Parsed} (hs : s.stage = .headers)
    (hline : (r.readline 1023 s.stream).1 ≠ [])
    (hp : parseHeader (below (r.readline 1023 s.stream).2) (rtrim (r.readline 1023 s.stream).1)
      = some p) : (step r below s).request = (s.request.apply p).keep p := by
  have hread := readrfcheader_line r below hline
  rw [hp] at hread
  simp only [step, hs, header, hread]

section Headers
variable {s : State σ} (hs : s.stage = .headers)
include hs

/-- The length is that of the last header that gives one. -/
theorem run_contentLength {n : Nat}
    (hlines : ∀ k < n, lineAt r k s.stream ≠ [] ∧ Delimited (lineAt r k s.stream)) :
    (run r below n s).request.contentLength
      = (lastLength (headersRead r below n s.stream)).elim s.request.contentLength decSize := by
  induction n with
  | zero => rfl
  | succ n ih =>
      have hbefore : ∀ k < n, lineAt r k s.stream ≠ [] ∧ Delimited (lineAt r k s.stream) :=
        fun k hk => hlines k (Nat.lt_succ_of_lt hk)
      obtain ⟨hline, hdelim⟩ := hlines n (Nat.lt_succ_self n)
      obtain ⟨hstage, hstream⟩ := run_reading r below (.inl hs) hbefore
      cases hp : parseHeader (below (after r (n + 1) s.stream)) (rtrim (lineAt r n s.stream)) with
      | none =>
          rw [parseHeader_eq_none, delimited_rtrim] at hp
          exact absurd hdelim hp
      | some p =>
          have hread : headersRead r below (n + 1) s.stream
              = headersRead r below n s.stream ++ [p] := by
            rw [headersRead, List.range_succ, List.filterMap_append, ← headersRead]
            simp only [List.filterMap_cons, hp, List.filterMap_nil]
          rw [after_succ] at hp
          rw [lineAt] at hline hp
          rw [← hstream] at hline hp
          rw [run_succ, step_header r below (hstage.trans hs) hline hp, keep_contentLength,
            apply_contentLength, ih hbefore, hread, lastLength_concat]
          split
          next => rfl
          next => rfl

/-- The length an entity is framed by is the number of the last `Content-Length` where that
fits; where the value is to be a number, where it is one and that fits. -/
theorem contentLength_iff {n : Nat} {val : List UInt8} (hleaves : LeavesAt r below s n)
    (hlast : lastLength (headersRead r below n s.stream) = some val) :
    (run r below (n + 1) s).stage = .entity ∧
      ((run r below (n + 1) s).request.contentLength.toNat = value (lengthDigits val) ↔ Fits val) ∧
      (DigitString val ∧
          (run r below (n + 1) s).request.contentLength.toNat = value (cstring val) ↔
        DigitString val ∧ Fits val) := by
  obtain ⟨hlines, hline, hnone⟩ := (leavesAt_iff r below (.inl hs) n).mp hleaves
  have hlength := run_contentLength r below hs hlines
  obtain ⟨hstage, hstream⟩ := run_reading r below (.inl hs) hlines
  rw [lineAt, ← hstream] at hline hnone
  have hread := (readrfcheader_none_iff r below hline).mpr hnone
  have hstep : step r below (run r below n s)
      = { run r below n s with
          stream := (r.readline 1023 (run r below n s).stream).2, stage := .entity } := by
    simp only [step, hstage, hs, header, hread]
  rw [hlast] at hlength
  rw [run_succ, hstep]
  show _ ∧ ((run r below n s).request.contentLength.toNat = _ ↔ _) ∧
    (_ ∧ (run r below n s).request.contentLength.toNat = _ ↔ _)
  rw [hlength]
  refine ⟨rfl, decSize_iff val, and_congr_right fun hdigits => ?_⟩
  rw [← hdigits.2]
  exact decSize_iff val

end Headers

/-- The number `2 ^ 64 + 5`. -/
def tooLong : List UInt8 := bytes "18446744073709551621"

/-- Headers that give it as the length. -/
def overflowing : State (List UInt8) :=
  { begin (bytes "Content-Length: " ++ tooLong ++ bytes "\r\n\r\n") .zero ⟨.zero, []⟩ with
    stage := .headers }

theorem overflowing_leaves : LeavesAt Reader.whole (fun _ _ => 0) overflowing 1 := by
  rw [leavesAt_iff Reader.whole _ (.inl rfl)]
  decide

theorem contentLength_iff_overflowing :
    (run Reader.whole (fun _ _ => 0) 2 overflowing).stage = .entity ∧
      ((run Reader.whole (fun _ _ => 0) 2 overflowing).request.contentLength.toNat
        = value (lengthDigits tooLong) ↔ Fits tooLong) ∧
      (DigitString tooLong ∧ (run Reader.whole (fun _ _ => 0) 2 overflowing).request.contentLength.toNat
        = value (cstring tooLong) ↔ DigitString tooLong ∧ Fits tooLong) :=
  contentLength_iff Reader.whole _ rfl overflowing_leaves (by decide)

/-- The entity is framed by five bytes. -/
theorem overflowing_five :
    (run Reader.whole (fun _ _ => 0) 2 overflowing).stage = .entity ∧
      (run Reader.whole (fun _ _ => 0) 2 overflowing).request.contentLength = 5 ∧
      value (lengthDigits tooLong) = 2 ^ 64 + 5 := by
  refine ⟨by rfl, by rfl, by decide⟩

end Vk.Http

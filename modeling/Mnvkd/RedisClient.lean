/-
# `Mnvkd.RedisClient` — writing RESP commands

`redis_client_request` takes the words of a line for a command, and writes it as
an array of bulk strings.  What it writes for lines of words that fit a slot,
`redis_request` reads back as those words, where the client gets its lines whole, or they
are cut where that does no harm (`round_trip`): a line that is cut between two words, or
inside of one, is two commands.
-/
import Mathlib.Data.Bool.AllAny
import Mnvkd.RedisFraming

namespace Vk.Redis

open Lib Text

open Vectoring (newline)

/-! ## The coroutine -/

def space : UInt8 := ' '.toUInt8

def carriage : UInt8 := '\r'.toUInt8

/-- The delimiters of a line's words, `" \r\n"`. -/
def blanks : List UInt8 := [space, carriage, newline]

/-- `sizeof(self->line)` of the client. -/
def clientLineSize : Nat := 256

/-- `strncpy` of a word into a slot, and the NUL at the slot's end. -/
def copied (word : List UInt8) : List UInt8 :=
  kept word ++ List.replicate (maxBulk - 1 - (kept word).length) 0 ++ [0]

/-- The words of a line, in the slots of the query. -/
def Query.copy (q : Query) (ws : List (List UInt8)) : Query :=
  { q with
    argc := ws.length
    argv := fun j => (ws[j.val]?.map copied).getD (q.argv j) }

/-- `snprintf` of a mark and a number, `"*%d\r\n"` and `"$%d\r\n"`. -/
def printed (c : Char) (n : Nat) : List UInt8 := c.toUInt8 :: decimal n ++ crlf

/-- What is written for a query: its count, and for each argument the string in its
slot with its length. -/
def Query.print (q : Query) : List UInt8 :=
  printed '*' q.argc.toNat ++
    q.args.flatMap fun arg => printed '$' arg.length ++ (arg ++ crlf)

/-- `self` of `redis_client_request`, what it reads from and what it has written. -/
structure Client (σ : Type) where
  query : Query
  input : σ
  out : List UInt8
  ended : Bool

namespace Client

variable {σ : Type}

/-- A line of words: the command, its flags, and its array. -/
def command (st : Client σ) (ws : List (List UInt8)) : Client σ :=
  if ws = [] then { st with query := { st.query with argc := 0 } }
  else
    { st with
      query := (st.query.copy ws).flag
      out := st.out ++ (st.query.copy ws).flag.print }

/-- The test of the `do` loop. -/
def test (r : Reader σ) (st : Client σ) : Client σ :=
  { st with ended := r.nodata st.input || st.query.close }

/-- One pass through the loop of `redis_client_request`. -/
def pass (r : Reader σ) (st : Client σ) : Client σ :=
  if (r.readline (clientLineSize - 1) st.input).1 = [] then
    { st with
      input := (r.readline (clientLineSize - 1) st.input).2
      ended := true }
  else
    ({ st with input := (r.readline (clientLineSize - 1) st.input).2 }.command
      (words blanks maxArgs (cstring (r.readline (clientLineSize - 1) st.input).1))).test r

def step (r : Reader σ) (st : Client σ) : Client σ := if st.ended then st else st.pass r

def run (r : Reader σ) (n : Nat) (st : Client σ) : Client σ := (step r)^[n] st

theorem run_succ (r : Reader σ) (n : Nat) (st : Client σ) :
    run r (n + 1) st = run r n (st.step r) := Function.iterate_succ_apply _ _ _

def start (query : Query) (input : σ) : Client σ := ⟨query, input, [], false⟩

end Client

/-! ## Lines of words -/

/-- A word that fits a slot. -/
structure Word (w : List UInt8) : Prop where
  ne_nil : w ≠ []
  length : w.length ≤ maxBulk - 1
  nul : (0 : UInt8) ∉ w
  blank : ∀ b ∈ w, b ∉ blanks

/-- A part of a word is one. -/
theorem Word.cut {w : List UInt8} (h : Word w) {k : Nat} (hpos : 0 < k) (hk : k < w.length) :
    Word (w.take k) ∧ Word (w.drop k) := by
  have hlen := h.length
  refine ⟨⟨?_, ?_, fun hmem => h.nul (List.mem_of_mem_take hmem),
    fun b hb => h.blank b (List.mem_of_mem_take hb)⟩, ?_, ?_,
    fun hmem => h.nul (List.mem_of_mem_drop hmem), fun b hb => h.blank b (List.mem_of_mem_drop hb)⟩
  · exact List.ne_nil_of_length_pos (by rw [List.length_take]; omega)
  · rw [List.length_take]
    omega
  · exact List.ne_nil_of_length_pos (by rw [List.length_drop]; omega)
  · rw [List.length_drop]
    omega

/-- A line of words: blanks behind each, but for the last, and wherever else. -/
inductive Line : List (List UInt8) → List UInt8 → Prop where
  | stop : Line [] [newline]
  | blank {b ws l} : b = space ∨ b = carriage → Line ws l → Line ws (b :: l)
  | word {w b ws l} : Word w → b = space ∨ b = carriage → Line ws l →
      Line (w :: ws) (w ++ b :: l)
  | last {w} : Word w → Line [w] (w ++ [newline])

/-- A line that is typed for a command, and fits the client's. -/
structure Typed where
  array : RespArray
  line : List UInt8
  spells : Line array.bulks line
  fits : line.length ≤ clientLineSize - 1

theorem mem_blanks {b : UInt8} (h : b = space ∨ b = carriage) : b ∈ blanks := by
  rcases h with rfl | rfl
  · exact List.mem_cons_self
  · exact List.mem_cons_of_mem _ List.mem_cons_self

theorem newline_mem_blanks : newline ∈ blanks := by decide

/-- The words of a line that is cut in two, between two of them or inside of one. -/
inductive Cut : List (List UInt8) → List (List UInt8) → List (List UInt8) → Prop where
  | between (ws₁ ws₂) : Cut (ws₁ ++ ws₂) ws₁ ws₂
  | inside (us vs) {w₁ w₂} : w₁ ≠ [] → w₂ ≠ [] →
      Cut (us ++ (w₁ ++ w₂) :: vs) (us ++ [w₁]) (w₂ :: vs)

namespace Cut

variable {ws ws₁ ws₂ : List (List UInt8)}

theorem cons (w : List UInt8) (h : Cut ws ws₁ ws₂) : Cut (w :: ws) (w :: ws₁) ws₂ := by
  cases h with
  | between => exact between (w :: ws₁) ws₂
  | inside us vs h₁ h₂ => exact inside (w :: us) vs h₁ h₂

theorem length_le (h : Cut ws ws₁ ws₂) : ws₁.length ≤ ws.length ∧ ws₂.length ≤ ws.length := by
  cases h with
  | between =>
      rw [List.length_append]
      omega
  | inside =>
      simp only [List.length_append, List.length_cons, List.length_nil]
      omega

theorem right_eq (h : Cut ws [] ws₂) : ws₂ = ws := by
  generalize hnil : ([] : List (List UInt8)) = ws₁ at h
  cases h with
  | between => rw [← hnil, List.nil_append]
  | inside => simp at hnil

theorem left_eq (h : Cut ws ws₁ []) : ws₁ = ws := by
  cases h with
  | between => rw [List.append_nil]

/-- A word that is cut is another. -/
theorem nil_of_eq (h : Cut ws ws₁ ws₂) (heq : ws₁ = ws) : ws₂ = [] := by
  cases h with
  | between => exact List.self_eq_append_right.mp heq
  | inside us vs _ h₂ =>
      have hw := (List.cons.inj (List.append_cancel_left heq)).1
      exact absurd (List.self_eq_append_right.mp hw) h₂

end Cut

namespace Line

variable {ws : List (List UInt8)} {l : List UInt8}

theorem words (h : Line ws l) : ∀ w ∈ ws, Word w := by
  induction h with
  | stop => intro w hw; cases hw
  | blank _ _ ih => exact ih
  | word hw _ _ ih => exact List.forall_mem_cons.mpr ⟨hw, ih⟩
  | last hw => exact List.forall_mem_cons.mpr ⟨hw, fun w hw => by cases hw⟩

theorem nul (h : Line ws l) : (0 : UInt8) ∉ l := by
  have hblank : ∀ {b : UInt8}, b = space ∨ b = carriage → (0 : UInt8) ≠ b := by
    rintro b (rfl | rfl)
    · decide
    · decide
  induction h with
  | stop => decide
  | blank hb _ ih => exact List.not_mem_cons_of_ne_of_not_mem (hblank hb) ih
  | word hw hb _ ih =>
      rw [List.mem_append, not_or]
      exact ⟨hw.nul, List.not_mem_cons_of_ne_of_not_mem (hblank hb) ih⟩
  | last hw =>
      rw [List.mem_append, not_or]
      exact ⟨hw.nul, by decide⟩

/-- Only its last byte breaks the line. -/
theorem split (h : Line ws l) : ∃ pre, l = pre ++ [newline] ∧ newline ∉ pre := by
  have hblank : ∀ {b : UInt8}, b = space ∨ b = carriage → newline ≠ b := by
    rintro b (rfl | rfl)
    · decide
    · decide
  have hword : ∀ {w : List UInt8}, Word w → newline ∉ w := fun hw hmem =>
    hw.blank newline hmem newline_mem_blanks
  induction h with
  | stop => exact ⟨[], rfl, List.not_mem_nil⟩
  | @blank b _ _ hb _ ih =>
      obtain ⟨pre, rfl, hpre⟩ := ih
      exact ⟨b :: pre, rfl, List.not_mem_cons_of_ne_of_not_mem (hblank hb) hpre⟩
  | @word w b _ _ hw hb _ ih =>
      obtain ⟨pre, rfl, hpre⟩ := ih
      refine ⟨w ++ b :: pre, by rw [List.append_assoc]; rfl, ?_⟩
      rw [List.mem_append, not_or]
      exact ⟨hword hw, List.not_mem_cons_of_ne_of_not_mem (hblank hb) hpre⟩
  | @last w hw => exact ⟨w, rfl, hword hw⟩

/-- `strtok` finds the words. -/
theorem words_eq (h : Line ws l) (n : Nat) : Text.words blanks n l = ws.take n := by
  induction h generalizing n with
  | stop => rw [words_skip newline_mem_blanks, words_nil, List.take_nil]
  | blank hb _ ih => rw [words_skip (mem_blanks hb), ih]
  | word hw hb _ ih =>
      cases n with
      | zero => rfl
      | succ n => rw [words_word hw.ne_nil hw.blank (mem_blanks hb), ih, List.take_succ_cons]
  | last hw =>
      cases n with
      | zero => rfl
      | succ n =>
          rw [words_word hw.ne_nil hw.blank newline_mem_blanks, words_nil, List.take_succ_cons,
            List.take_nil]

/-- It finds them in a line that has not come to its end. -/
theorem words_begun {bs : List UInt8} (h : Line ws (bs ++ [newline])) (n : Nat) :
    Text.words blanks n bs = ws.take n := by
  generalize hl : bs ++ [newline] = l at h
  induction h generalizing n bs with
  | stop =>
      obtain rfl : bs = [] := List.append_cancel_right (hl : bs ++ [newline] = [] ++ [newline])
      rw [words_nil, List.take_nil]
  | @blank b ws l hb hline ih =>
      obtain ⟨pre, rfl, -⟩ := hline.split
      obtain rfl := (List.append_left_inj _).mp (hl.trans (List.cons_append (a := b)).symm)
      rw [words_skip (mem_blanks hb), ih n rfl]
  | @word w b ws l hw hb hline ih =>
      obtain ⟨pre, rfl, -⟩ := hline.split
      have hbs : bs = w ++ b :: pre := by
        refine (List.append_left_inj [newline]).mp (hl.trans ?_)
        rw [List.append_assoc, List.cons_append]
      rw [hbs]
      cases n with
      | zero => rfl
      | succ n => rw [words_word hw.ne_nil hw.blank (mem_blanks hb), ih n rfl, List.take_succ_cons]
  | last hw =>
      rw [List.append_cancel_right hl]
      cases n with
      | zero => rfl
      | succ n => rw [words_last hw.ne_nil hw.blank, List.take_succ_cons, List.take_nil]

/-- A line without words is blank. -/
theorem blank_iff (h : Line ws l) : (∀ b ∈ l, b ∈ blanks) ↔ ws = [] := by
  have hword : ∀ {w : List UInt8} {rest : List UInt8}, Word w → ¬∀ b ∈ w ++ rest, b ∈ blanks := by
    intro w rest hw hall
    obtain ⟨b, w', rfl⟩ := List.exists_cons_of_ne_nil hw.ne_nil
    exact hw.blank b List.mem_cons_self (hall b List.mem_cons_self)
  induction h with
  | stop =>
      exact iff_of_true (fun b hb => by rw [List.mem_singleton.mp hb]; exact newline_mem_blanks) rfl
  | blank hb _ ih =>
      exact List.forall_mem_cons.trans ((and_iff_right (mem_blanks hb)).trans ih)
  | word hw => exact iff_of_false (hword hw) (List.cons_ne_nil _ _)
  | last hw => exact iff_of_false (hword hw) (List.cons_ne_nil _ _)

/-- A word and what is behind it, cut in the word. -/
theorem cut_word {w t : List UInt8} {vs : List (List UInt8)} (hw : Word w) (ht : Line vs t)
    (hword : ∀ {w}, Word w → Line (w :: vs) (w ++ t)) {k : Nat} (hk : k ≤ w.length) :
    ∃ ws₁ ws₂, Cut (w :: vs) ws₁ ws₂ ∧ Line ws₁ ((w ++ t).take k ++ [newline]) ∧
      Line ws₂ ((w ++ t).drop k) := by
  rw [List.take_append_of_le_length hk, List.drop_append_of_le_length hk]
  by_cases hzero : k = 0
  · subst hzero
    exact ⟨[], w :: vs, .between [] _, .stop, hword hw⟩
  by_cases hfull : k = w.length
  · subst hfull
    rw [List.take_length, List.drop_length]
    exact ⟨[w], vs, .between [w] vs, .last hw, ht⟩
  obtain ⟨htake, hdrop⟩ := hw.cut (by omega) (by omega : k < w.length)
  have hcut := Cut.inside [] vs htake.ne_nil hdrop.ne_nil
  rw [List.take_append_drop] at hcut
  exact ⟨[w.take k], w.drop k :: vs, hcut, .last htake, hword hdrop⟩

/-- A line that is cut in two: both are lines, when the first gets an end. -/
theorem cut (h : Line ws l) {k : Nat} (hk : k < l.length) :
    ∃ ws₁ ws₂, Cut ws ws₁ ws₂ ∧ Line ws₁ (l.take k ++ [newline]) ∧ Line ws₂ (l.drop k) := by
  induction h generalizing k with
  | stop =>
      obtain rfl : k = 0 := by simpa using hk
      exact ⟨[], [], .between [] [], .stop, .stop⟩
  | @blank b ws l hb hline ih =>
      cases k with
      | zero => exact ⟨[], ws, .between [] ws, .stop, .blank hb hline⟩
      | succ k =>
          obtain ⟨ws₁, ws₂, hcut, h₁, h₂⟩ := ih (Nat.lt_of_succ_lt_succ hk)
          exact ⟨ws₁, ws₂, hcut, .blank hb h₁, h₂⟩
  | @word w b ws l hw hb hline ih =>
      by_cases hle : k ≤ w.length
      · exact cut_word hw (.blank hb hline) (fun hw => .word hw hb hline) hle
      obtain ⟨j, rfl⟩ : ∃ j, k = w.length + (j + 1) := ⟨k - w.length - 1, by omega⟩
      obtain ⟨ws₁, ws₂, hcut, h₁, h₂⟩ := ih (k := j) (by
        simp only [List.length_append, List.length_cons] at hk
        omega)
      refine ⟨w :: ws₁, ws₂, hcut.cons w, ?_, ?_⟩
      · rw [List.take_length_add_append, List.append_assoc]
        exact .word hw hb h₁
      · rw [List.drop_length_add_append]
        exact h₂
  | last hw =>
      rw [List.length_append, List.length_singleton] at hk
      exact cut_word hw .stop .last (Nat.le_of_lt_succ hk)

end Line

/-! ## Words in slots -/

theorem Word.kept {w : List UInt8} (h : Word w) : kept w = w := List.take_of_length_le h.length

theorem Word.holds {w : List UInt8} (_ : Word w) : Holds (copied w) w := by
  rw [Holds, copied, List.append_assoc, ← List.replicate_succ', List.replicate_succ]
  exact ⟨List.replicate _ 0, by rw [List.append_assoc]; rfl⟩

theorem Word.cstring {w slot : List UInt8} (h : Word w) (hslot : Holds slot w) :
    cstring slot = w := by
  rw [cstring_of_isPrefix hslot, h.kept, cstring_eq_self h.nul]

/-- A query that holds words has them for its arguments. -/
theorem args_eq {q : Query} {ws : List (List UInt8)} (hargc : q.argc = ws.length)
    (hle : ws.length ≤ maxArgs) (hwords : ∀ w ∈ ws, Word w)
    (hslots : ∀ (j : Fin maxArgs) w, ws[j.val]? = some w → Holds (q.argv j) w) : q.args = ws := by
  refine List.ext_getElem? fun i => ?_
  rw [Query.args, hargc, Int.toNat_natCast, List.getElem?_map, List.getElem?_take]
  split
  next hi =>
    have hfin : i < maxArgs := Nat.lt_of_lt_of_le hi hle
    have hget : (List.finRange maxArgs)[i]? = some ⟨i, hfin⟩ := by
      rw [List.getElem?_eq_getElem (by rw [List.length_finRange]; exact hfin)]
      simp
    obtain ⟨w, hw⟩ : ∃ w, ws[i]? = some w := ⟨ws[i], List.getElem?_eq_getElem hi⟩
    rw [hget, hw]
    show some (Text.cstring (q.argv ⟨i, hfin⟩)) = some w
    rw [(hwords w (List.mem_of_getElem? hw)).cstring (hslots ⟨i, hfin⟩ w hw)]
  next hi =>
    rw [List.getElem?_eq_none (Nat.not_lt.mp hi)]
    rfl

/-! ## What the client writes -/

theorem printed_append (c : Char) (n : Nat) (rest : List UInt8) :
    printed c n ++ rest = mark c n ++ newline :: rest := by
  rw [printed, mark, crlf]
  simp

/-- The query of a command: its array's words, in slots. -/
theorem decodes_copy {a : RespArray} (hwords : ∀ w ∈ a.bulks, Word w) (q : Query) :
    Decodes a (q.copy a.bulks).flag ∧ (q.copy a.bulks).flag.args = a.bulks := by
  have hslots : ∀ (j : Fin maxArgs) w, a.bulks[j.val]? = some w →
      Holds ((q.copy a.bulks).argv j) w := by
    intro j w hw
    have hslot : (q.copy a.bulks).argv j = copied w := by
      simp only [Query.copy, hw, Option.map_some, Option.getD_some]
    rw [hslot]
    exact (hwords w (List.mem_of_getElem? hw)).holds
  exact ⟨State.decodes_flag rfl hslots, args_eq rfl a.le hwords hslots⟩

theorem print_eq {a : RespArray} (hwords : ∀ w ∈ a.bulks, Word w) (q : Query) :
    (q.copy a.bulks).flag.print = a.bytes := by
  have hargc : (q.copy a.bulks).flag.argc.toNat = a.bulks.length := Int.toNat_natCast _
  rw [Query.print, hargc, (decodes_copy hwords q).2, printed_append, RespArray.bytes]
  congr 3
  funext w
  rw [printed_append]
  rfl

/-! ## The client's lines -/

/-- A line, or what is left of one: its words are as many as a query has slots. -/
structure Row where
  words : List (List UInt8)
  line : List UInt8
  spells : Line words line
  le : words.length ≤ maxArgs
  fits : line.length ≤ clientLineSize - 1

/-- The array of its words, if there are any. -/
def Row.arrays (row : Row) : List RespArray :=
  if h : row.words = [] then [] else [⟨row.words, List.length_pos_iff.mpr h, row.le⟩]

def Typed.row (t : Typed) : Row := ⟨t.array.bulks, t.line, t.spells, t.array.le, t.fits⟩

def text (rows : List Row) : List UInt8 := rows.flatMap (·.line)

def arrays (rows : List Row) : List RespArray := rows.flatMap Row.arrays

theorem text_cons (row : Row) (rows : List Row) : text (row :: rows) = row.line ++ text rows :=
  List.flatMap_cons

theorem arrays_cons (row : Row) (rows : List Row) :
    arrays (row :: rows) = row.arrays ++ arrays rows := List.flatMap_cons

theorem Row.arrays_nil {row : Row} (h : row.words = []) : row.arrays = [] := by
  rw [Row.arrays, dif_pos h]

theorem Row.arrays_cons {row : Row} (h : row.words ≠ []) :
    ∃ a : RespArray, row.arrays = [a] ∧ a.bulks = row.words := by
  rw [Row.arrays, dif_neg h]
  exact ⟨_, rfl, rfl⟩

/-- Only the words count. -/
theorem Row.arrays_congr {row row' : Row} (h : row'.words = row.words) :
    row'.arrays = row.arrays := by
  obtain ⟨words, line, spells, le, fits⟩ := row
  obtain ⟨words', line', spells', le', fits'⟩ := row'
  subst h
  rfl

theorem Row.mem_words {row : Row} {a : RespArray} (h : a ∈ row.arrays) :
    ∀ w ∈ a.bulks, Word w := by
  by_cases hnil : row.words = []
  · rw [row.arrays_nil hnil] at h
    cases h
  · obtain ⟨a', harrays, hbulks⟩ := row.arrays_cons hnil
    rw [harrays, List.mem_singleton] at h
    rw [h, hbulks]
    exact row.spells.words

theorem Typed.row_arrays (t : Typed) : t.row.arrays = [t.array] := by
  have hne : t.row.words ≠ [] := List.ne_nil_of_length_pos t.array.pos
  rw [Row.arrays, dif_neg hne]
  rfl

theorem firstLine_row (row : Row) (rest : List UInt8) : firstLine (row.line ++ rest) = row.line := by
  obtain ⟨pre, hline, hpre⟩ := row.spells.split
  rw [hline, List.append_assoc]
  exact Reader.firstLine_line hpre rest

theorem Row.newline_mem (row : Row) : newline ∈ row.line := by
  obtain ⟨pre, hline, -⟩ := row.spells.split
  rw [hline]
  exact List.mem_append_right _ (List.mem_singleton_self _)

theorem text_eq_nil {rows : List Row} (h : text rows = []) : rows = [] := by
  cases rows with
  | nil => rfl
  | cons row rows =>
      rw [text_cons, List.append_eq_nil_iff] at h
      have hmem := row.newline_mem
      rw [h.1] at hmem
      cases hmem

theorem served_subset {arrays : List RespArray} {a : RespArray} (h : a ∈ served arrays) :
    a ∈ arrays := by
  induction arrays with
  | nil => cases h
  | cons a' arrays ih =>
      rw [served_cons, List.mem_cons] at h
      rcases h with rfl | h
      · exact List.mem_cons_self
      · split at h
        next => cases h
        next => exact List.mem_cons_of_mem _ (ih h)

/-- Serving what was served leaves nothing out. -/
theorem served_served (arrays : List RespArray) : served (served arrays) = served arrays := by
  induction arrays with
  | nil => rfl
  | cons a arrays ih =>
      rw [served_cons]
      cases hclose : a.closes with
      | true =>
          rw [if_pos rfl, served_cons, hclose, if_pos rfl]
      | false =>
          rw [if_neg (by simp), served_cons, hclose, if_neg (by simp), ih]

theorem encode_append (as bs : List RespArray) : encode (as ++ bs) = encode as ++ encode bs :=
  List.flatMap_append

theorem served_append {sent : List RespArray} (h : ∀ a ∈ sent, a.closes = false)
    (more : List RespArray) : served (sent ++ more) = sent ++ served more := by
  induction sent with
  | nil => rfl
  | cons a sent ih =>
      obtain ⟨ha, hsent⟩ := List.forall_mem_cons.mp h
      rw [List.cons_append, served_cons, ha, if_neg (by simp), ih hsent]
      rfl

namespace Client

/-- The call comes back. -/
def Returns (E : Wire) (st : Client Spot) : Prop :=
  st.ended = false → (E.line (clientLineSize - 1) st.input).isSome

/-- If the call stops short of its line, that is behind the words of the line, or before
them where no command has closed. -/
def Harmless (E : Wire) (st : Client Spot) : Prop :=
  st.ended = false → ∀ n, E.stop st.input = some n → 0 < n ∧
    ((∀ b ∈ (firstLine st.input.2).drop n, b ∈ blanks) ∨
      (∀ b ∈ st.input.2.take n, b ∈ blanks) ∧ st.query.close = false)

/-- No command has closed, or each line that is left is one. -/
def Open (rows : List Row) (st : Client Spot) : Prop :=
  st.query.close = false ∨ ∀ row ∈ rows, row.words ≠ []

/-- What a pass over rows does: it writes arrays, and leaves rows. -/
structure Passes (E : Wire) (rows rows' : List Row) (sent : List RespArray)
    (st st' : Client Spot) : Prop where
  out : st'.out = st.out ++ encode sent
  words : ∀ a ∈ sent, ∀ w ∈ a.bulks, Word w
  left : st'.input.2 = text rows'
  less : st'.ended = false → st'.input.2.length < st.input.2.length
  goes : st'.ended = false → ∀ a ∈ sent, a.closes = false
  /-- Where it is harmless, these are the arrays of the rows. -/
  right : st.Harmless E → Open rows st →
    served (arrays rows) = sent ++ (if st'.ended then [] else served (arrays rows')) ∧
      (st'.ended = false → Open rows' st')
  /-- Where it is not, they are others, whatever is sent behind them. -/
  wrong : ¬st.Harmless E → Open rows st → ∀ more, (st'.ended = true → more = []) →
    (served (sent ++ more)).map (·.bulks) ≠ (served (arrays rows)).map (·.bulks)

/-- What a row is served as, and those behind it. -/
theorem served_row {row : Row} {close : Bool} (hclose : row.words = [] → close = false)
    (more : List RespArray) :
    served (row.arrays ++ more) = row.arrays ++
      (if (row.arrays.head?.map RespArray.closes).getD close then [] else served more) := by
  by_cases hnil : row.words = []
  · rw [row.arrays_nil hnil]
    show served more = if close then [] else served more
    rw [hclose hnil, if_neg (by simp)]
  · obtain ⟨a, harrays, -⟩ := row.arrays_cons hnil
    rw [harrays]
    rfl

theorem harmless_of_quiet {E : Wire} (h : E.Quiet) {st : Client Spot} : st.Harmless E := by
  intro _ n hn
  rw [h] at hn
  cases hn

section Pass
variable {E : Wire} {st : Client Spot} (hend : st.ended = false)
include hend

/-- What a pass does with what it has got. -/
theorem step_got {got : List UInt8} (hgot : E.line (clientLineSize - 1) st.input = some got)
    (hne : got ≠ []) (row : Row) (hnul : (0 : UInt8) ∉ got)
    (hwords : words blanks maxArgs got = row.words) :
    (st.step E.reader).out = st.out ++ encode row.arrays ∧
      (st.step E.reader).input.2 = st.input.2.drop got.length ∧
      (st.step E.reader).query.close
        = (row.arrays.head?.map RespArray.closes).getD st.query.close ∧
      (st.step E.reader).ended = (E.reader.nodata (st.step E.reader).input ||
        (st.step E.reader).query.close) := by
  have hline : (E.reader.readline (clientLineSize - 1) st.input).1 = got := by
    show (E.line _ _).getD [] = got
    rw [hgot]
    rfl
  have hinput : (E.reader.readline (clientLineSize - 1) st.input).2
      = (st.input.1 + 1, st.input.2.drop got.length) := by
    show (_, st.input.2.drop ((E.line _ _).getD []).length) = _
    rw [hgot]
    rfl
  rw [step, hend, if_neg (by simp), pass, hline, if_neg hne, cstring_eq_self hnul, hwords, hinput]
  by_cases hnil : row.words = []
  · rw [row.arrays_nil hnil, command, if_pos hnil]
    exact ⟨(List.append_nil _).symm, rfl, rfl, rfl⟩
  · obtain ⟨a, harrays, hbulks⟩ := row.arrays_cons hnil
    have ha : ∀ w ∈ a.bulks, Word w := by
      rw [hbulks]
      exact row.spells.words
    rw [harrays, command, if_neg hnil, ← hbulks]
    refine ⟨?_, rfl, (decodes_copy ha st.query).1.close, rfl⟩
    show st.out ++ (st.query.copy a.bulks).flag.print = _
    rw [print_eq ha, encode_cons]
    exact congrArg _ (List.append_nil _).symm

/-- At the end of its input the client ends. -/
theorem pass_end (hleft : st.input.2 = []) (hreturns : st.Returns E) :
    Passes E [] [] [] st (st.step E.reader) := by
  have hsome := hreturns hend
  have hempty := E.gives.readline_end (n := clientLineSize - 1) (s := st.input) hleft
  have hstep : st.step E.reader = { st with
      input := (E.reader.readline (clientLineSize - 1) st.input).2
      ended := true } := by
    rw [step, hend, if_neg (by simp), pass, if_pos hempty.1]
  rw [hstep]
  refine ⟨(List.append_nil _).symm, List.forall_mem_nil _, hempty.2, nofun, nofun,
    fun _ _ => ⟨rfl, nofun⟩, fun hharm => absurd (fun _ n hstop => ⟨?_, Or.inl ?_⟩) hharm⟩
  · rw [Wire.line_of_stop hstop (Or.inr hleft) (by decide)
      (by rw [hleft]; exact Nat.zero_le _)] at hsome
    exact Nat.pos_of_ne_zero fun hzero => by simp [hzero] at hsome
  · rw [hleft]
    exact fun b hb => by cases List.mem_of_mem_drop hb

/-- A row that is got whole. -/
theorem pass_whole {row : Row} {rows : List Row} (hleft : st.input.2 = text (row :: rows))
    (hstop : E.stop st.input = none) :
    Passes E (row :: rows) rows row.arrays st (st.step E.reader) := by
  rw [text_cons] at hleft
  have hfirst : firstLine st.input.2 = row.line := by rw [hleft, firstLine_row]
  have hgot : E.line (clientLineSize - 1) st.input = some row.line := by
    rw [Wire.line_of_quiet hstop (by rw [hfirst]; exact row.fits), hfirst]
  have hne : row.line ≠ [] := List.ne_nil_of_mem row.newline_mem
  have hwords : Text.words blanks maxArgs row.line = row.words := by
    rw [row.spells.words_eq, List.take_of_length_le row.le]
  obtain ⟨hout, hinput, hclose, hended⟩ := step_got hend hgot hne row row.spells.nul hwords
  rw [hleft, List.drop_left] at hinput
  refine ⟨hout, fun a ha => row.mem_words ha, hinput, fun _ => ?_, fun hgoes a ha => ?_,
    fun _ hopen => ?_, fun hharm => absurd (fun _ n hn => by rw [hstop] at hn; cases hn) hharm⟩
  · rw [hinput, hleft, List.length_append]
    have := List.length_pos_of_ne_nil hne
    omega
  · rw [hended, Bool.or_eq_false_iff, hclose] at hgoes
    by_cases hnil : row.words = []
    · rw [row.arrays_nil hnil] at ha
      cases ha
    · obtain ⟨a', harrays, -⟩ := row.arrays_cons hnil
      rw [harrays] at ha hgoes
      rw [List.mem_singleton.mp ha]
      exact hgoes.2
  · have hblank : row.words = [] → st.query.close = false := fun hnil =>
      hopen.resolve_right fun hall => hall row List.mem_cons_self hnil
    refine ⟨?_, fun hgoes => Or.inl ?_⟩
    · rw [arrays_cons, served_row hblank, ← hclose, hended]
      cases hnodata : E.reader.nodata (st.step E.reader).input with
      | false => rw [Bool.false_or]
      | true =>
          have hrows := text_eq_nil (hinput.symm.trans (E.gives.nodata _ hnodata))
          rw [hrows]
          simp [arrays, served]
    · rw [hended, Bool.or_eq_false_iff] at hgoes
      exact hgoes.2

/-- A row of which only a part is got: what it says, and what is left of it. -/
theorem pass_cut {row : Row} {rows : List Row} (hleft : st.input.2 = text (row :: rows)) {n : Nat}
    (hstop : E.stop st.input = some n) (hreturns : st.Returns E) :
    ∃ row₁ row₂ : Row, Passes E (row :: rows) (row₂ :: rows) row₁.arrays st (st.step E.reader) := by
  rw [text_cons] at hleft
  have hfirst : firstLine st.input.2 = row.line := by rw [hleft, firstLine_row]
  have hend' : newline ∈ st.input.2 := by
    rw [hleft]
    exact List.mem_append_left _ row.newline_mem
  have hn := Wire.stop_lt hstop hend'
  rw [hfirst] at hn
  have hgot := Wire.line_of_stop hstop (Or.inl hend') (by decide : 0 < clientLineSize - 1)
    (by rw [hfirst]; exact row.fits)
  have hpos : 0 < n := Nat.pos_of_ne_zero fun hzero => by
    have hsome := hreturns hend
    rw [hgot, if_pos hzero] at hsome
    cases hsome
  have htake : st.input.2.take n = row.line.take n := by
    rw [hleft, List.take_append_of_le_length (Nat.le_of_lt hn)]
  rw [if_neg (by omega), htake] at hgot
  obtain ⟨ws₁, ws₂, hcut, h₁, h₂⟩ := row.spells.cut hn
  have hlen := row.fits
  have hle := hcut.length_le
  have hrow := row.le
  let row₁ : Row := ⟨ws₁, row.line.take n ++ [newline], h₁, by omega, by
    rw [List.length_append, List.length_take, List.length_singleton]
    omega⟩
  let row₂ : Row := ⟨ws₂, row.line.drop n, h₂, by omega, by
    rw [List.length_drop]
    omega⟩
  refine ⟨row₁, row₂, ?_⟩
  have hne : row.line.take n ≠ [] := List.ne_nil_of_length_pos (by rw [List.length_take]; omega)
  have hnul : (0 : UInt8) ∉ row.line.take n := fun hmem =>
    row.spells.nul (List.mem_of_mem_take hmem)
  have hwords : Text.words blanks maxArgs (row.line.take n) = row₁.words := by
    rw [h₁.words_begun, List.take_of_length_le row₁.le]
  obtain ⟨hout, hinput, hclose, hended⟩ := step_got hend hgot hne row₁ hnul hwords
  have hrest : (st.step E.reader).input.2 = text (row₂ :: rows) := by
    rw [hinput, hleft, List.length_take, Nat.min_eq_left (Nat.le_of_lt hn), text_cons,
      List.drop_append_of_le_length (Nat.le_of_lt hn)]
  have hnodata : E.reader.nodata (st.step E.reader).input = false := by
    refine Bool.eq_false_iff.mpr fun htrue => ?_
    cases text_eq_nil (hrest.symm.trans (E.gives.nodata _ htrue))
  rw [hnodata, Bool.false_or] at hended
  have hbefore : (∀ b ∈ st.input.2.take n, b ∈ blanks) ↔ ws₁ = [] := by
    rw [← h₁.blank_iff, htake, List.forall_mem_append]
    exact (and_iff_left (List.forall_mem_singleton.mpr newline_mem_blanks)).symm
  have hbehind : (∀ b ∈ (firstLine st.input.2).drop n, b ∈ blanks) ↔ ws₂ = [] := by
    rw [hfirst, h₂.blank_iff]
  have hharm : st.Harmless E ↔ ws₂ = [] ∨ ws₁ = [] ∧ st.query.close = false := by
    rw [← hbefore, ← hbehind]
    refine ⟨fun h => (h hend n hstop).2, fun h _ m hm => ?_⟩
    cases hstop.symm.trans hm
    exact ⟨hpos, h⟩
  refine ⟨hout, fun a ha => row₁.mem_words ha, hrest, fun _ => ?_, fun hgoes a ha => ?_,
    fun h hopen => ?_, fun h hopen more hmore => ?_⟩
  · rw [hinput, List.length_drop, hleft, List.length_append]
    have := List.length_pos_of_ne_nil hne
    omega
  · rw [hended, hclose] at hgoes
    by_cases hnil : row₁.words = []
    · rw [row₁.arrays_nil hnil] at ha
      cases ha
    · obtain ⟨a', harrays, -⟩ := row₁.arrays_cons hnil
      rw [harrays] at ha hgoes
      rw [List.mem_singleton.mp ha]
      exact hgoes
  · rw [arrays_cons, arrays_cons]
    rcases hharm.mp h with hnil | ⟨hnil, hfalse⟩
    · -- all of its words are got
      have hsame : row₁.arrays = row.arrays := Row.arrays_congr (by
        subst hnil
        exact hcut.left_eq)
      have hblank : row.words = [] → st.query.close = false := fun hempty =>
        hopen.resolve_right fun hall => hall row List.mem_cons_self hempty
      rw [row₂.arrays_nil hnil, List.nil_append, hsame, served_row hblank, ← hsame, ← hclose,
        hended]
      exact ⟨rfl, fun hgoes => Or.inl hgoes⟩
    · -- none of them is
      have hsame : row₂.arrays = row.arrays := Row.arrays_congr (by
        subst hnil
        exact hcut.right_eq)
      rw [row₁.arrays_nil hnil] at hclose ⊢
      have hgoes : (st.step E.reader).query.close = false := hclose.trans hfalse
      rw [hsame, hended, hgoes, if_neg (by simp)]
      exact ⟨rfl, fun _ => Or.inl hgoes⟩
  · have hsome := fun hnil => h (hharm.mpr (Or.inl hnil))
    have hfull : row.words ≠ [] := fun hempty => hsome (List.eq_nil_of_length_eq_zero (by
      have := hle.2
      rw [hempty, List.length_nil] at this
      omega))
    obtain ⟨a, harrays, hbulks⟩ := row.arrays_cons hfull
    rw [arrays_cons, harrays, List.singleton_append, served_cons, List.map_cons, hbulks]
    by_cases hnil : ws₁ = []
    · -- the client has ended, and sent nothing
      have htrue : st.query.close = true :=
        (Bool.not_eq_false _).mp fun hfalse => h (hharm.mpr (Or.inr ⟨hnil, hfalse⟩))
      rw [row₁.arrays_nil hnil] at hclose ⊢
      rw [hmore (hended.trans (hclose.trans htrue))]
      exact nofun
    · obtain ⟨a₁, harrays₁, hbulks₁⟩ := row₁.arrays_cons hnil
      rw [harrays₁, List.singleton_append, served_cons, List.map_cons, hbulks₁]
      exact fun heq => hsome (hcut.nil_of_eq (List.cons.inj heq).1)

/-- A pass whose call comes back. -/
theorem pass_rows {rows : List Row} (hleft : st.input.2 = text rows) (hreturns : st.Returns E) :
    ∃ rows' sent, Passes E rows rows' sent st (st.step E.reader) := by
  cases rows with
  | nil => exact ⟨[], [], pass_end hend hleft hreturns⟩
  | cons row rows =>
      cases hstop : E.stop st.input with
      | none => exact ⟨rows, row.arrays, pass_whole hend hleft hstop⟩
      | some n =>
          obtain ⟨row₁, row₂, hpasses⟩ := pass_cut hend hleft hstop hreturns
          exact ⟨row₂ :: rows, row₁.arrays, hpasses⟩

end Pass

section Run
variable {E : Wire} {st : Client Spot} {rows : List Row}

/-- A harmless call comes back. -/
theorem Harmless.returns (h : st.Harmless E) (hleft : st.input.2 = text rows) : st.Returns E := by
  intro hend
  have hfits : (firstLine st.input.2).length ≤ clientLineSize - 1 := by
    rw [hleft]
    cases rows with
    | nil => exact Nat.zero_le _
    | cons row rows =>
        rw [text_cons, firstLine_row]
        exact row.fits
  have hline : newline ∈ st.input.2 ∨ st.input.2 = [] := by
    rw [hleft]
    cases rows with
    | nil => exact Or.inr rfl
    | cons row rows => exact Or.inl (List.mem_append_left _ row.newline_mem)
  cases hstop : E.stop st.input with
  | none =>
      rw [Wire.line_of_quiet hstop hfits]
      rfl
  | some n =>
      have hpos := (h hend n hstop).1
      rw [Wire.line_of_stop hstop hline (by decide) hfits, if_neg (by omega)]
      rfl

theorem run_ended (h : st.ended = true) (n : Nat) : run E.reader n st = st := by
  refine Function.iterate_fixed ?_ n
  rw [step, if_pos h]

/-- Whatever is cut, arrays are written; and if what they serve is what the rows serve, then
all calls were harmless.  By induction on the passes. -/
theorem run_rows {n : Nat} (hleft : st.input.2 = text rows)
    (hreturns : ∀ k, (run E.reader k st).Returns E) (hended : (run E.reader n st).ended = true) :
    ∃ sent, (run E.reader n st).out = st.out ++ encode sent ∧
      (∀ a ∈ sent, ∀ w ∈ a.bulks, Word w) ∧
      (st.ended = false → Open rows st →
        (served sent).map (·.bulks) = (served (arrays rows)).map (·.bulks) →
          ∀ k, (run E.reader k st).Harmless E) := by
  cases hend : st.ended with
  | true =>
      rw [run_ended hend]
      exact ⟨[], (List.append_nil _).symm, List.forall_mem_nil _, nofun⟩
  | false =>
      induction n generalizing st rows with
      | zero => exact absurd hended (by rw [show run E.reader 0 st = st from rfl, hend]; simp)
      | succ n ih =>
          rw [run_succ] at hended ⊢
          obtain ⟨rows', now, hpasses⟩ := pass_rows hend hleft (hreturns 0)
          cases hnext : (st.step E.reader).ended with
          | true =>
              rw [run_ended hnext]
              refine ⟨now, hpasses.out, hpasses.words, fun _ hopen hequal k => ?_⟩
              cases k with
              | zero =>
                  refine by_contra fun hharm => hpasses.wrong hharm hopen [] (fun _ => rfl) ?_
                  rw [List.append_nil]
                  exact hequal
              | succ k =>
                  rw [run_succ, run_ended hnext]
                  exact fun hgoes => absurd (hnext.symm.trans hgoes) (by simp)
          | false =>
              obtain ⟨more, hout, hmore, hall⟩ := ih hpasses.left (fun k => hreturns (k + 1)) hended
                hnext
              refine ⟨now ++ more, ?_, List.forall_mem_append.mpr ⟨hpasses.words, hmore⟩,
                fun _ hopen hequal => ?_⟩
              · rw [hout, hpasses.out, encode_append, List.append_assoc]
              have hharm : st.Harmless E := by_contra fun hharm =>
                hpasses.wrong hharm hopen more (fun htrue => by simp [hnext] at htrue) hequal
              obtain ⟨hserved, hopen'⟩ := hpasses.right hharm hopen
              rw [hserved, served_append (hpasses.goes hnext), hnext, if_neg (by simp),
                List.map_append, List.map_append] at hequal
              have hrest := hall rfl (hopen' hnext) (List.append_cancel_left hequal)
              intro k
              cases k with
              | zero => exact hharm
              | succ k => exact hrest k

/-- Where all calls are harmless, they come back, and of the rows up to the first that closes
the arrays are written.  By induction on what is left. -/
theorem writes (hleft : st.input.2 = text rows) (hend : st.ended = false) (hopen : Open rows st)
    (hharm : ∀ k, (run E.reader k st).Harmless E) :
    (∀ k, (run E.reader k st).Returns E) ∧
      ∃ n, (run E.reader n st).ended = true ∧
        (run E.reader n st).out = st.out ++ encode (served (arrays rows)) := by
  induction hlen : st.input.2.length using Nat.strong_induction_on generalizing st rows with
  | _ len ih =>
      have hreturns := (hharm 0).returns hleft
      obtain ⟨rows', now, hpasses⟩ := pass_rows hend hleft hreturns
      obtain ⟨hserved, hopen'⟩ := hpasses.right (hharm 0) hopen
      cases hnext : (st.step E.reader).ended with
      | true =>
          refine ⟨fun k => ?_, 1, hnext, ?_⟩
          · cases k with
            | zero => exact hreturns
            | succ k =>
                rw [run_succ, run_ended hnext]
                exact fun hgoes => absurd (hnext.symm.trans hgoes) (by simp)
          · rw [hserved, hnext, if_pos rfl, List.append_nil]
            exact hpasses.out
      | false =>
          obtain ⟨hall, n, hended, hout⟩ := ih _ (hlen ▸ hpasses.less hnext) hpasses.left hnext
            (hopen' hnext) (fun k => hharm (k + 1)) rfl
          refine ⟨fun k => ?_, n + 1, hended, ?_⟩
          · cases k with
            | zero => exact hreturns
            | succ k => exact hall k
          · rw [run_succ, hout, hpasses.out, hserved, hnext, if_neg (by simp), encode_append,
              List.append_assoc]

end Run

end Client

/-! ## The round trip -/

/-- A query for an array of words has them for its arguments. -/
theorem args_of_decodes {arrays : List RespArray} {queries : List Query}
    (h : List.Forall₂ Decodes arrays queries) (hwords : ∀ a ∈ arrays, ∀ w ∈ a.bulks, Word w) :
    queries.map Query.args = arrays.map (·.bulks) := by
  induction h with
  | nil => rfl
  | @cons a q arrays queries hq _ ih =>
      obtain ⟨ha, hrest⟩ := List.forall_mem_cons.mp hwords
      rw [List.map_cons, List.map_cons, args_eq hq.argc a.le ha hq.argv, ih hrest]

/-- A server that reads lines that fit whole reads arrays of words back. -/
theorem queries_of_words {server : Wire} (hserver : server.Quiet) {sent : List RespArray}
    (hwords : ∀ a ∈ sent, ∀ w ∈ a.bulks, Word w) (query : Query) (line : List UInt8) :
    ∃ m, (State.run server.reader m (State.start query line (0, encode sent))).stage = .ended ∧
      (State.run server.reader m (State.start query line (0, encode sent))).commands.map Query.args
        = (served sent).map (·.bulks) := by
  have hserved : ∀ a ∈ served sent, ∀ w ∈ a.bulks, Word w := fun a ha =>
    hwords a (served_subset ha)
  have hleft : ((0, encode sent) : Spot).2 = encode sent := rfl
  have hframed := framed_of_slots (Wire.streams hserver) hleft query line
    fun a ha w hw => (hserved a ha w hw).length
  obtain ⟨m, hm, hqueries⟩ := hframed.queries
  exact ⟨m, hm, args_of_decodes hqueries hserved⟩

/-- The client on lines that are typed. -/
def typing (query : Query) (lines : List Typed) : Client Spot :=
  Client.start query (0, lines.flatMap (·.line))

/-- The calls of the client come back, it ends, and of what it has written the server takes
the words of the commands, in their order, up to the first that closes. -/
structure RoundTrips (client server : Wire) (lines : List Typed) (query query' : Query)
    (line : List UInt8) : Prop where
  returns : ∀ n, (Client.run client.reader n (typing query lines)).Returns client
  queries : ∃ n m, (Client.run client.reader n (typing query lines)).ended = true ∧
    (State.run server.reader m (State.start query' line
      (0, (Client.run client.reader n (typing query lines)).out))).stage = .ended ∧
    (State.run server.reader m (State.start query' line
      (0, (Client.run client.reader n (typing query lines)).out))).commands.map Query.args
        = (served (lines.map (·.array))).map (·.bulks)

theorem text_typed (lines : List Typed) : lines.flatMap (·.line) = text (lines.map Typed.row) := by
  rw [text, List.flatMap_map]
  rfl

theorem arrays_typed (lines : List Typed) :
    arrays (lines.map Typed.row) = lines.map (·.array) := by
  rw [arrays, List.flatMap_map]
  simp only [Typed.row_arrays]
  exact List.map_eq_flatMap.symm

theorem open_typed (lines : List Typed) (st : Client Spot) :
    Client.Open (lines.map Typed.row) st := by
  refine Or.inr fun row hrow => ?_
  obtain ⟨t, -, rfl⟩ := List.mem_map.mp hrow
  exact List.ne_nil_of_length_pos t.array.pos

/-- Of lines that are typed the words fit their slots. -/
theorem words_typed (lines : List Typed) :
    ∀ a ∈ served (lines.map (·.array)), ∀ w ∈ a.bulks, Word w := by
  intro a ha
  obtain ⟨t, -, rfl⟩ := List.mem_map.mp (served_subset ha)
  exact t.spells.words

/-- Where all calls are harmless, the client writes the arrays of the lines up to the first
that closes. -/
theorem writes_typed {client : Wire} {query : Query} {lines : List Typed}
    (h : ∀ k, (Client.run client.reader k (typing query lines)).Harmless client) :
    (∀ k, (Client.run client.reader k (typing query lines)).Returns client) ∧
      ∃ n, (Client.run client.reader n (typing query lines)).ended = true ∧
        (Client.run client.reader n (typing query lines)).out
          = encode (served (lines.map (·.array))) := by
  have hleft : (typing query lines).input.2 = text (lines.map Typed.row) := text_typed lines
  obtain ⟨hreturns, n, hended, hout⟩ := Client.writes hleft rfl (open_typed lines _) h
  rw [arrays_typed] at hout
  exact ⟨hreturns, n, hended, hout⟩

section RoundTrip
variable {client server : Wire} (hserver : server.Quiet) {lines : List Typed}
  {query query' : Query} {line : List UInt8}
include hserver

theorem RoundTrips.harmless (h : RoundTrips client server lines query query' line) (k : Nat) :
    (Client.run client.reader k (typing query lines)).Harmless client := by
  obtain ⟨n, m, hended, hm, hargs⟩ := h.queries
  obtain ⟨sent, hout, hwords, hall⟩ := Client.run_rows (text_typed lines) h.returns hended
  refine hall rfl (open_typed lines _) ?_ k
  have hsent : (Client.run client.reader n (typing query lines)).out = encode sent :=
    hout.trans (List.nil_append _)
  rw [hsent] at hm hargs
  obtain ⟨m', hm', hargs'⟩ := queries_of_words hserver hwords query' line
  rw [arrays_typed, ← hargs, ← hargs', run_ended_eq hm hm']

theorem roundTrips_of_harmless
    (h : ∀ k, (Client.run client.reader k (typing query lines)).Harmless client) :
    RoundTrips client server lines query query' line := by
  obtain ⟨hreturns, n, hended, hout⟩ := writes_typed h
  obtain ⟨m, hm, hargs⟩ := queries_of_words hserver (words_typed lines) query' line
  rw [served_served] at hargs
  refine ⟨hreturns, n, m, hended, ?_, ?_⟩
  · rw [hout]
    exact hm
  · rw [hout]
    exact hargs

end RoundTrip

/-- Where what the client has written reaches `redis_request` with no call cut short, the
queries that sends carry the words of the commands on the client's lines, in their order, up
to the first that closes, exactly when every call of the client's own `vk_readline` is
harmless: if it looks at a newline where it waits, all the words of its line are before that
place, or all are behind it. -/
theorem round_trip {client server : Wire} (hserver : server.Quiet) (lines : List Typed)
    (query query' : Query) (line : List UInt8) :
    RoundTrips client server lines query query' line ↔
      ∀ k, (Client.run client.reader k (typing query lines)).Harmless client :=
  ⟨RoundTrips.harmless hserver, roundTrips_of_harmless hserver⟩

/-- The line `GET k`. -/
def getLine : Typed where
  array := ⟨[bytes "GET", bytes "k"], by decide, by decide⟩
  line := bytes "GET" ++ space :: (bytes "k" ++ [newline])
  spells := .word ⟨by decide, by decide, by decide, List.all_iff_forall_prop.mp (by decide)⟩
    (Or.inl rfl) (.last ⟨by decide, by decide, by decide, List.all_iff_forall_prop.mp (by decide)⟩)
  fits := by decide

/-- The line `quit`. -/
def quitLine : Typed where
  array := ⟨[bytes "quit"], by decide, by decide⟩
  line := bytes "quit" ++ [newline]
  spells := .last ⟨by decide, by decide, by decide, List.all_iff_forall_prop.mp (by decide)⟩
  fits := by decide

/-- `GET k` and `quit` come through, and the `GET k` behind them does not. -/
theorem round_trip_getQuit : RoundTrips Wire.bytewise Wire.bytewise [getLine, quitLine, getLine]
    Query.ended Query.ended [] :=
  (round_trip Wire.bytewise_quiet [getLine, quitLine, getLine] Query.ended Query.ended []).mpr
    fun _ => Client.harmless_of_quiet Wire.bytewise_quiet

example : (served [getLine.array, quitLine.array, getLine.array]).map (·.bulks)
    = [[bytes "GET", bytes "k"], [bytes "quit"]] := by decide +kernel

/-- When the second line comes, `line` holds the length of the last bulk of the first, and
its fourth byte is a newline. -/
def staleMark : Wire :=
  { Wire.bytewise with look := fun p n => if p.1 = 1 then (printed '$' 1).getD (2 * n - 1) 0 else 0 }

/-- `GET k` comes through, and the same line behind it is two commands, `GE` and `T k`. -/
theorem stale_mark_splits : ¬∀ (client server : Wire) (lines : List Typed) (query query' : Query)
    (line : List UInt8), server.Quiet → RoundTrips client server lines query query' line := by
  intro h
  have htrips := h staleMark Wire.bytewise [getLine, getLine] Query.ended Query.ended []
    Wire.bytewise_quiet
  have hharm := htrips.harmless Wire.bytewise_quiet 1 (by decide +kernel) 2 (by decide +kernel)
  exact absurd hharm (by decide +kernel)

end Vk.Redis

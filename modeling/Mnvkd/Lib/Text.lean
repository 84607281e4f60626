/-
# `Lib.Text` — text as the C library reads and writes it

A text is a list of bytes.  A C string ends at its first NUL, so what a function
of the library reads of a buffer is `cstring` of it.

    atoi_decimal       what `%d` writes, `atoi` reads back
    strtok_skip        `strtok` passes over delimiters
    strtok_word        and takes a word up to the next one
-/
import Mathlib.Algebra.Group.Int.Defs
import Mathlib.Algebra.Group.Nat.Defs
import Mathlib.Data.Int.DivMod
import Mathlib.Data.List.TakeWhile

namespace Lib.Text

/-- The bytes of a literal. -/
def bytes (s : String) : List UInt8 := s.toList.map Char.toUInt8

/-- The string at the front of a buffer. -/
def cstring (s : List UInt8) : List UInt8 := s.takeWhile (· != 0)

theorem cstring_eq_self {s : List UInt8} (h : (0 : UInt8) ∉ s) : cstring s = s :=
  List.takeWhile_eq_self_iff.mpr fun _ hb => bne_iff_ne.mpr fun h0 => h (h0 ▸ hb)

/-- Past its NUL a buffer may hold anything. -/
theorem cstring_of_isPrefix {s t : List UInt8} (h : s ++ [0] <+: t) : cstring t = cstring s := by
  obtain ⟨rest, rfl⟩ := h
  have hnul : List.takeWhile (· != (0 : UInt8)) ([0] ++ rest) = [] := rfl
  have hpre : s.takeWhile (· != 0) <+: s := List.takeWhile_prefix _
  rw [cstring, cstring, List.append_assoc, List.takeWhile_append, hnul, List.append_nil]
  split
  next hlen => exact (hpre.eq_of_length hlen).symm
  next => rfl

/-! ## Letters -/

/-- `tolower` of a byte, in the C locale. -/
def tolower (b : UInt8) : UInt8 := if 65 ≤ b ∧ b ≤ 90 then b + 32 else b

/-- `strcasecmp`: by the first letters that differ, and a string before those it
begins. -/
def strcasecmp (s t : List UInt8) : Ordering :=
  compareLex ((cstring s).map tolower) ((cstring t).map tolower)
where
  compareLex : List UInt8 → List UInt8 → Ordering
    | [], [] => .eq
    | [], _ :: _ => .lt
    | _ :: _, [] => .gt
    | a :: s, b :: t => if a < b then .lt else if b < a then .gt else compareLex s t

theorem compareLex_trans {s t u : List UInt8} (hst : strcasecmp.compareLex s t ≠ .gt)
    (htu : strcasecmp.compareLex t u = .lt) : strcasecmp.compareLex s u = .lt := by
  induction s generalizing t u with
  | nil =>
      cases u with
      | nil => cases t <;> cases htu
      | cons c u => rfl
  | cons a s ih =>
      cases t with
      | nil => exact absurd rfl hst
      | cons b t =>
          cases u with
          | nil => cases htu
          | cons c u =>
              simp only [strcasecmp.compareLex, UInt8.lt_iff_toNat_lt] at hst htu ⊢
              split at hst
              next hab =>
                split at htu
                next hbc => rw [if_pos (Nat.lt_trans hab hbc)]
                next hbc =>
                  split at htu
                  next => cases htu
                  next hcb => rw [if_pos (by omega)]
              next hab =>
                split at hst
                next => exact absurd rfl hst
                next hba =>
                  have heq : a.toNat = b.toNat := by omega
                  rw [heq]
                  split at htu
                  next hbc => rw [if_pos hbc]
                  next hbc =>
                    split at htu
                    next => cases htu
                    next hcb => rw [if_neg hbc, if_neg hcb, ih hst htu]

/-- A string not above one that is below a third is below the third. -/
theorem strcasecmp_trans {s t u : List UInt8} (hst : strcasecmp s t ≠ .gt)
    (htu : strcasecmp t u = .lt) : strcasecmp s u = .lt :=
  compareLex_trans hst htu

/-- It finds the two strings equal. -/
def strcaseeq (s t : List UInt8) : Bool := strcasecmp s t == .eq

/-! ## Numbers -/

def isspace (b : UInt8) : Bool := b == 32 || decide (9 ≤ b ∧ b ≤ 13)

def isdigit (b : UInt8) : Bool := decide (48 ≤ b ∧ b ≤ 57)

/-- The number that digits write in a base, one digit after the other. -/
def number (base : Nat) (f : UInt8 → Nat) (ds : List UInt8) : Nat :=
  ds.foldl (fun v d => base * v + f d) 0

theorem foldl_number (base : Nat) (f : UInt8 → Nat) (ds : List UInt8) (v : Nat) :
    ds.foldl (fun v d => base * v + f d) v = v * base ^ ds.length + number base f ds := by
  induction ds generalizing v with
  | nil => exact (Nat.mul_one v).symm
  | cons d ds ih =>
      have hd : number base f (d :: ds) = f d * base ^ ds.length + number base f ds := by
        show ds.foldl (fun v d => base * v + f d) (base * 0 + f d) = _
        rw [ih, Nat.mul_zero, Nat.zero_add]
      have hpow : base ^ (d :: ds).length = base * base ^ ds.length := Nat.pow_succ'
      rw [List.foldl_cons, ih, hd, hpow, Nat.add_mul, Nat.mul_assoc, Nat.mul_left_comm,
        Nat.add_assoc]

/-- What is written behind a number moves it up. -/
theorem number_append (base : Nat) (f : UInt8 → Nat) (ds bs : List UInt8) :
    number base f (ds ++ bs) = number base f ds * base ^ bs.length + number base f bs := by
  rw [number, List.foldl_append, foldl_number]
  rfl

/-- The number that decimal digits write. -/
def value (ds : List UInt8) : Nat := ds.foldl (fun v d => 10 * v + (d.toNat - 48)) 0

/-- `strtol` in base ten: past white space, a sign or none and the digits there
are, kept inside the range of a `long`. -/
def strtol (s : List UInt8) : Int :=
  match s.dropWhile isspace with
  | 45 :: s => -(min (value (s.takeWhile isdigit)) (2 ^ 63) : Nat)
  | 43 :: s => (min (value (s.takeWhile isdigit)) (2 ^ 63 - 1) : Nat)
  | s => (min (value (s.takeWhile isdigit)) (2 ^ 63 - 1) : Nat)

/-- `atoi`: `strtol`, made an `int`. -/
def atoi (s : List UInt8) : Int := (strtol s).bmod (2 ^ 32)

/-- A number as `%d` writes it. -/
def decimal (n : Nat) : List UInt8 := (Nat.toDigits 10 n).map fun c => c.toNat.toUInt8

/-- The digit for `d`. -/
def digit (d : Nat) : UInt8 := (48 + d).toUInt8

theorem digit_toNat {d : Nat} (h : d < 10) : (digit d).toNat = 48 + d := by
  show (48 + d) % 256 = 48 + d
  exact Nat.mod_eq_of_lt (by omega)

theorem isdigit_digit {d : Nat} (h : d < 10) : isdigit (digit d) = true := by
  simp only [isdigit, UInt8.le_iff_toNat_le, digit_toNat h, decide_eq_true_eq]
  exact ⟨Nat.le_add_right 48 d, by show 48 + d ≤ 57; omega⟩

theorem decimal_eq (n : Nat) :
    decimal n = (if n < 10 then [] else decimal (n / 10)) ++ [digit (n % 10)] := by
  have hchar : ∀ d < 10, (Nat.digitChar d).toNat.toUInt8 = digit d := by decide
  rw [decimal, Nat.toDigits_eq_if (by omega)]
  split
  next h =>
    rw [Nat.mod_eq_of_lt h]
    exact congrArg (fun b => [b]) (hchar n h)
  next h =>
    rw [List.map_append, ← decimal]
    exact congrArg (fun b => decimal (n / 10) ++ [b]) (hchar _ (Nat.mod_lt n (by omega)))

theorem value_append (ds : List UInt8) (d : UInt8) :
    value (ds ++ [d]) = 10 * value ds + (d.toNat - 48) := by
  rw [value, List.foldl_append]
  rfl

theorem value_decimal (n : Nat) : value (decimal n) = n := by
  induction n using Nat.strong_induction_on with
  | _ n ih =>
      rw [decimal_eq, value_append, digit_toNat (Nat.mod_lt n (by omega))]
      split
      next h =>
        show 10 * 0 + _ = n
        omega
      next h =>
        rw [ih (n / 10) (by omega)]
        omega

theorem isdigit_decimal (n : Nat) : ∀ b ∈ decimal n, isdigit b = true := by
  induction n using Nat.strong_induction_on with
  | _ n ih =>
      intro b hb
      rw [decimal_eq, List.mem_append] at hb
      rcases hb with hb | hb
      · split at hb
        next => cases hb
        next h => exact ih (n / 10) (by omega) b hb
      · rw [List.mem_singleton.mp hb]
        exact isdigit_digit (Nat.mod_lt n (by omega))

theorem decimal_ne_nil (n : Nat) : decimal n ≠ [] := by
  rw [decimal_eq]
  simp

theorem length_decimal_le {n k : Nat} (hk : 0 < k) (h : n < 10 ^ k) :
    (decimal n).length ≤ k := by
  induction k generalizing n with
  | zero => omega
  | succ k ih =>
      rw [decimal_eq, List.length_append, List.length_singleton]
      split
      next => exact Nat.le_add_left 1 k
      next hn =>
        have hdiv : n / 10 < 10 ^ k := Nat.div_lt_of_lt_mul (by rw [Nat.mul_comm]; exact h)
        have hpos : 0 < k := by
          rcases Nat.eq_zero_or_pos k with rfl | hpos
          · omega
          · exact hpos
        exact Nat.succ_le_succ (ih hpos hdiv)

theorem takeWhile_decimal (n : Nat) {b : UInt8} (hb : isdigit b = false) (rest : List UInt8) :
    (decimal n ++ b :: rest).takeWhile isdigit = decimal n := by
  rw [List.takeWhile_append_of_pos (isdigit_decimal n)]
  simp [hb]

/-- What `%d` writes, `atoi` reads back: whatever follows that is no digit. -/
theorem atoi_decimal {n : Nat} (hn : n < 2 ^ 31) {b : UInt8} (hb : isdigit b = false)
    (rest : List UInt8) : atoi (decimal n ++ b :: rest) = n := by
  have hstart : ∃ d ds, decimal n ++ b :: rest = d :: ds ∧ isdigit d = true := by
    obtain ⟨d, ds, hd⟩ := List.exists_cons_of_ne_nil (decimal_ne_nil n)
    refine ⟨d, ds ++ b :: rest, by rw [hd]; rfl, isdigit_decimal n d ?_⟩
    rw [hd]
    exact List.mem_cons_self
  obtain ⟨d, ds, hcons, hd⟩ := hstart
  -- a digit is neither white space nor a sign
  have hdigit : 48 ≤ d ∧ d ≤ 57 := of_decide_eq_true hd
  have hspace : isspace d = false := by
    simp only [isspace, Bool.or_eq_false_iff, beq_eq_false_iff_ne, decide_eq_false_iff_not]
    simp only [UInt8.le_iff_toNat_le] at hdigit ⊢
    refine ⟨fun h => ?_, fun h => ?_⟩
    · subst h
      exact absurd hdigit.1 (by decide)
    · have h₁ : 48 ≤ d.toNat := hdigit.1
      have h₂ : d.toNat ≤ 13 := h.2
      omega
  have hskip : (decimal n ++ b :: rest).dropWhile isspace = decimal n ++ b :: rest := by
    rw [hcons, List.dropWhile_cons_of_neg (by rw [hspace]; simp)]
  have hvalue : strtol (decimal n ++ b :: rest) = n := by
    have hmin : min n (2 ^ 63 - 1) = n := Nat.min_eq_left (by omega)
    have hne : ∀ c : UInt8, c < 48 → d ≠ c := fun c hc h => by
      subst h
      exact absurd hdigit.1 (UInt8.not_le.mpr hc)
    rw [strtol, hskip]
    split
    next s h =>
      rw [hcons] at h
      exact absurd (List.cons.inj h).1 (hne 45 (by decide))
    next s h =>
      rw [hcons] at h
      exact absurd (List.cons.inj h).1 (hne 43 (by decide))
    next =>
      rw [takeWhile_decimal n hb rest, value_decimal, hmin]
  rw [atoi, hvalue]
  exact Int.bmod_eq_of_le (by omega) (by omega)

/-! ## Hexadecimal numbers -/

def isxdigit (b : UInt8) : Bool :=
  isdigit b || decide (65 ≤ b ∧ b ≤ 70) || decide (97 ≤ b ∧ b ≤ 102)

/-- What a hexadecimal digit counts. -/
def xvalue (b : UInt8) : Nat :=
  if isdigit b then b.toNat - 48 else if b ≤ 70 then b.toNat - 55 else b.toNat - 87

/-- The number that hexadecimal digits write. -/
def hexValue (ds : List UInt8) : Nat := ds.foldl (fun v d => 16 * v + xvalue d) 0

/-- The digit for `d`, a capital one. -/
def xdigit (d : Nat) : UInt8 := if d < 10 then (48 + d).toUInt8 else (55 + d).toUInt8

/-- A number as `%zX` writes it. -/
def hexadecimal (n : Nat) : List UInt8 :=
  (Nat.toDigits 16 n).map fun c => c.toUpper.toNat.toUInt8

theorem hexadecimal_eq (n : Nat) :
    hexadecimal n = (if n < 16 then [] else hexadecimal (n / 16)) ++ [xdigit (n % 16)] := by
  have hchar : ∀ d < 16, (Nat.digitChar d).toUpper.toNat.toUInt8 = xdigit d := by decide
  rw [hexadecimal, Nat.toDigits_eq_if (by omega)]
  split
  next h =>
    rw [Nat.mod_eq_of_lt h]
    exact congrArg (fun b => [b]) (hchar n h)
  next h =>
    rw [List.map_append, ← hexadecimal]
    exact congrArg (fun b => hexadecimal (n / 16) ++ [b]) (hchar _ (Nat.mod_lt n (by omega)))

/-- The lowest `r` digits of a number, the highest of them first. -/
def lowDigits : Nat → Nat → List UInt8
  | 0, _ => []
  | r + 1, n => xdigit (n / 16 ^ r % 16) :: lowDigits r n

theorem lowDigits_succ (r n : Nat) :
    lowDigits (r + 1) n = lowDigits r (n / 16) ++ [xdigit (n % 16)] := by
  induction r with
  | zero =>
      show [xdigit (n / 16 ^ 0 % 16)] = _
      rw [Nat.pow_zero, Nat.div_one]
      rfl
  | succ r ih =>
      have hdiv : n / 16 ^ (r + 1) = n / 16 / 16 ^ r := by
        rw [Nat.pow_succ', Nat.div_div_eq_div_mul]
      rw [lowDigits, ih, hdiv]
      rfl

/-- The digits of a number that has `r + 1` of them. -/
theorem hexadecimal_eq_lowDigits {r n : Nat} (hle : 16 ^ r ≤ n) (hlt : n < 16 ^ (r + 1)) :
    hexadecimal n = lowDigits (r + 1) n := by
  induction r generalizing n with
  | zero =>
      have hdigit : n < 16 := by rwa [Nat.zero_add, Nat.pow_one] at hlt
      rw [hexadecimal_eq, if_pos hdigit, lowDigits_succ]
      rfl
  | succ r ih =>
      have hpos : 16 ≤ n := by
        have hpow : 16 ^ (r + 1) = 16 * 16 ^ r := Nat.pow_succ'
        have : 1 ≤ 16 ^ r := Nat.one_le_pow _ _ (by omega)
        omega
      rw [hexadecimal_eq, if_neg (by omega), lowDigits_succ, ih]
      · rw [Nat.pow_succ] at hle
        exact (Nat.le_div_iff_mul_le (by omega)).mpr hle
      · rw [Nat.pow_succ] at hlt
        exact Nat.div_lt_of_lt_mul (by rw [Nat.mul_comm]; exact hlt)

theorem length_lowDigits (r n : Nat) : (lowDigits r n).length = r := by
  induction r with
  | zero => rfl
  | succ r ih => rw [lowDigits, List.length_cons, ih]

theorem isxdigit_lowDigits (r n : Nat) : ∀ b ∈ lowDigits r n, isxdigit b = true := by
  have hdigit : ∀ d < 16, isxdigit (xdigit d) = true := by decide
  induction r with
  | zero => nofun
  | succ r ih =>
      intro b hb
      rw [lowDigits, List.mem_cons] at hb
      rcases hb with rfl | hb
      · exact hdigit _ (Nat.mod_lt _ (by omega))
      · exact ih b hb

theorem hexValue_append (ds : List UInt8) (d : UInt8) :
    hexValue (ds ++ [d]) = 16 * hexValue ds + xvalue d := by
  rw [hexValue, List.foldl_append]
  rfl

theorem hexValue_lowDigits (r n : Nat) : hexValue (lowDigits r n) = n % 16 ^ r := by
  have hdigit : ∀ d < 16, xvalue (xdigit d) = d := by decide
  induction r generalizing n with
  | zero => rw [Nat.pow_zero, Nat.mod_one]; rfl
  | succ r ih =>
      rw [lowDigits_succ, hexValue_append, ih, hdigit _ (Nat.mod_lt _ (by omega)), Nat.pow_succ',
        Nat.mod_mul, Nat.add_comm]

/-! ## Words -/

/-- `strtok`: the word that begins after the delimiters at the front, and what
is left after the delimiter that ends it. -/
def strtok (delims s : List UInt8) : Option (List UInt8 × List UInt8) :=
  match s.dropWhile (delims.contains ·) with
  | [] => none
  | b :: s =>
      some ((b :: s).takeWhile (!delims.contains ·), ((b :: s).dropWhile (!delims.contains ·)).tail)

/-- The first `n` words of a string, one call of `strtok` after the other. -/
def words (delims : List UInt8) : Nat → List UInt8 → List (List UInt8)
  | 0, _ => []
  | n + 1, s =>
      match strtok delims s with
      | none => []
      | some (word, rest) => word :: words delims n rest

/-- `strsep`: the string up to the first delimiter, and what is behind that, if there
is one. -/
def strsep (delims s : List UInt8) : List UInt8 × Option (List UInt8) :=
  (s.takeWhile (!delims.contains ·),
    match s.dropWhile (!delims.contains ·) with
    | [] => none
    | _ :: rest => some rest)

section Words
variable {delims : List UInt8}

theorem strsep_word {word : List UInt8} (hw : ∀ b ∈ word, b ∉ delims) {d : UInt8}
    (hd : d ∈ delims) (s : List UInt8) : strsep delims (word ++ d :: s) = (word, some s) := by
  have hin : ∀ b ∈ word, (!delims.contains b) = true := by
    intro b hb
    rw [Bool.not_eq_true', ← Bool.not_eq_true]
    exact fun h => hw b hb (List.contains_iff_mem.mp h)
  have htake : (word ++ d :: s).takeWhile (!delims.contains ·) = word := by
    rw [List.takeWhile_append_of_pos hin, List.takeWhile_cons_of_neg (by simp [hd]),
      List.append_nil]
  have hdrop : (word ++ d :: s).dropWhile (!delims.contains ·) = d :: s := by
    rw [List.dropWhile_append_of_pos hin, List.dropWhile_cons_of_neg (by simp [hd])]
  rw [strsep, htake, hdrop]

/-- There is something behind a delimiter if there is a delimiter. -/
theorem strsep_eq_none (s : List UInt8) :
    (strsep delims s).2 = none ↔ ∀ b ∈ s, b ∉ delims := by
  have hdrop : (strsep delims s).2 = none ↔ s.dropWhile (!delims.contains ·) = [] := by
    show (match s.dropWhile (!delims.contains ·) with
      | [] => none
      | _ :: rest => some rest) = none ↔ _
    cases s.dropWhile (!delims.contains ·) with
    | nil => exact ⟨fun _ => rfl, fun _ => rfl⟩
    | cons b rest => exact ⟨nofun, nofun⟩
  rw [hdrop, List.dropWhile_eq_nil_iff]
  simp

theorem strtok_skip {d : UInt8} (hd : d ∈ delims) (s : List UInt8) :
    strtok delims (d :: s) = strtok delims s := by
  rw [strtok, List.dropWhile_cons_of_pos (List.contains_iff_mem.mpr hd)]
  rfl

theorem words_skip {d : UInt8} (hd : d ∈ delims) (n : Nat) (s : List UInt8) :
    words delims n (d :: s) = words delims n s := by
  cases n with
  | zero => rfl
  | succ n => rw [words, words, strtok_skip hd]

theorem strtok_word {word : List UInt8} (hne : word ≠ []) (hw : ∀ b ∈ word, b ∉ delims)
    {d : UInt8} (hd : d ∈ delims) (s : List UInt8) :
    strtok delims (word ++ d :: s) = some (word, s) := by
  have hin : ∀ b ∈ word, (!delims.contains b) = true := fun b hb => by
    rw [Bool.not_eq_true', ← Bool.not_eq_true]
    exact fun h => hw b hb (List.contains_iff_mem.mp h)
  have hstop : (!delims.contains d) = false := by
    rw [Bool.not_eq_false']
    exact List.contains_iff_mem.mpr hd
  have htake : (word ++ d :: s).takeWhile (!delims.contains ·) = word := by
    rw [List.takeWhile_append_of_pos hin, List.takeWhile_cons_of_neg (by simp [hd]),
      List.append_nil]
  have hdrop : (word ++ d :: s).dropWhile (!delims.contains ·) = d :: s := by
    rw [List.dropWhile_append_of_pos hin, List.dropWhile_cons_of_neg (by simp [hd])]
  obtain ⟨b, bs, rfl⟩ := List.exists_cons_of_ne_nil hne
  have hb : delims.contains b = false := by
    have := hin b List.mem_cons_self
    rwa [Bool.not_eq_true'] at this
  have hskip : ((b :: bs) ++ d :: s).dropWhile (delims.contains ·) = (b :: bs) ++ d :: s :=
    List.dropWhile_cons_of_neg (by rw [hb]; simp)
  rw [strtok, hskip]
  show some (((b :: bs) ++ d :: s).takeWhile _, (((b :: bs) ++ d :: s).dropWhile _).tail) = _
  rw [htake, hdrop]
  rfl

theorem words_word {word : List UInt8} (hne : word ≠ []) (hw : ∀ b ∈ word, b ∉ delims)
    {d : UInt8} (hd : d ∈ delims) (n : Nat) (s : List UInt8) :
    words delims (n + 1) (word ++ d :: s) = word :: words delims n s := by
  rw [words, strtok_word hne hw hd]

/-- The last word may have no delimiter behind it. -/
theorem words_last {word : List UInt8} (hne : word ≠ []) (hw : ∀ b ∈ word, b ∉ delims) (n : Nat) :
    words delims (n + 1) word = [word] := by
  have hin : ∀ b ∈ word, (!delims.contains b) = true := fun b hb => by
    rw [Bool.not_eq_true', ← Bool.not_eq_true]
    exact fun h => hw b hb (List.contains_iff_mem.mp h)
  obtain ⟨b, bs, rfl⟩ := List.exists_cons_of_ne_nil hne
  have hb := hin b List.mem_cons_self
  rw [Bool.not_eq_true'] at hb
  have hstrtok : strtok delims (b :: bs) = some (b :: bs, []) := by
    rw [strtok, List.dropWhile_cons_of_neg (by rw [hb]; simp)]
    show some ((b :: bs).takeWhile _, ((b :: bs).dropWhile _).tail) = _
    rw [List.takeWhile_eq_self_iff.mpr hin, List.dropWhile_eq_nil_iff.mpr hin]
    rfl
  rw [words, hstrtok]
  cases n with
  | zero => rfl
  | succ n => rfl

theorem words_nil (n : Nat) : words delims n [] = [] := by
  cases n with
  | zero => rfl
  | succ n => rfl

end Words

end Lib.Text

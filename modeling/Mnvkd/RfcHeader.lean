/-
# `Mnvkd.RfcHeader` — a header line, written and parsed

What `vk_writerfcheader` writes, with any number of spaces after the colon,
`parse_header` is to give back.  The spaces are where it fails: `ltrim` counts
them down on whatever lies below its size on the stack.

    one space or none      the value is right
    no space               and nothing but the line is read
-/
import Mathlib.Data.Bool.AllAny
import Mnvkd.Rfc

namespace Vk.Rfc

open Lib Text

/-- A key that can be written: it has no delimiter and no line break in it. -/
structure Key (key : List UInt8) : Prop where
  nonempty : key ≠ []
  delims : ∀ b ∈ key, b ∉ headerDelims
  cr : '\r'.toUInt8 ∉ key
  lf : '\n'.toUInt8 ∉ key
  nul : (0 : UInt8) ∉ key

/-- A value that can be written. -/
structure Value (val : List UInt8) : Prop where
  space : val.head? ≠ some ' '.toUInt8
  cr : '\r'.toUInt8 ∉ val
  lf : '\n'.toUInt8 ∉ val
  nul : (0 : UInt8) ∉ val

/-- A header line, with `n` spaces after the colon. -/
def headerLine (key : List UInt8) (n : Nat) (val : List UInt8) : List UInt8 :=
  key ++ ':'.toUInt8 :: (List.replicate n ' '.toUInt8 ++ val) ++ bytes "\r\n"

theorem rtrim_crlf (line : List UInt8) : rtrim (line ++ bytes "\r\n") = line := by
  have hbytes : line ++ bytes "\r\n" = line ++ ['\r'.toUInt8] ++ ['\n'.toUInt8] := by
    rw [List.append_assoc]
    rfl
  rw [hbytes]
  simp only [rtrim, List.getLast?_append, List.getLast?_singleton, Option.some_or, if_true,
    List.dropLast_concat]

/-- What is trimmed is a line break, or half of one. -/
theorem rtrim_append (line : List UInt8) : ∃ tail, line = rtrim line ++ tail ∧
    ∀ b ∈ tail, b = '\r'.toUInt8 ∨ b = '\n'.toUInt8 := by
  have hlast : ∀ (c : UInt8) (l : List UInt8),
      ∃ tail, l = (if l.getLast? = some c then l.dropLast else l) ++ tail ∧ ∀ b ∈ tail, b = c := by
    intro c l
    split
    next h =>
      refine ⟨[c], ?_, fun b hb => List.mem_singleton.mp hb⟩
      obtain ⟨pre, rfl⟩ := List.getLast?_eq_some_iff.mp h
      rw [List.dropLast_concat]
    next => exact ⟨[], (List.append_nil l).symm, nofun⟩
  obtain ⟨tail₁, h₁, hlf⟩ := hlast '\n'.toUInt8 line
  obtain ⟨tail₂, h₂, hcr⟩ := hlast '\r'.toUInt8 (if line.getLast? = some '\n'.toUInt8
    then line.dropLast else line)
  refine ⟨tail₂ ++ tail₁, ?_, ?_⟩
  · rw [← List.append_assoc]
    exact h₁.trans (congrArg (· ++ tail₁) h₂)
  · intro b hb
    rcases List.mem_append.mp hb with hb | hb
    · exact .inl (hcr b hb)
    · exact .inr (hlf b hb)

/-! ## Delimiters -/

/-- There is a delimiter in the string of a line. -/
def Delimited (line : List UInt8) : Prop := ∃ b ∈ cstring line, b ∈ headerDelims

instance (line : List UInt8) : Decidable (Delimited line) :=
  inferInstanceAs (Decidable (∃ b ∈ cstring line, b ∈ headerDelims))

theorem delimited_rtrim (line : List UInt8) : Delimited (rtrim line) ↔ Delimited line := by
  obtain ⟨tail, htail, hbreak⟩ := rtrim_append line
  have hnone : ∀ b ∈ tail, b ∉ headerDelims := by
    intro b hb
    rcases hbreak b hb with rfl | rfl
    · decide
    · decide
  have hmem : ∀ b ∈ headerDelims, b ∈ cstring line ↔ b ∈ cstring (rtrim line) := by
    intro b hdelim
    have hline : cstring line = if (cstring (rtrim line)).length = (rtrim line).length
        then rtrim line ++ cstring tail else cstring (rtrim line) := by
      conv_lhs => rw [htail, cstring, List.takeWhile_append]
      rfl
    rw [hline]
    split
    next hlen =>
      have hpre : cstring (rtrim line) <+: rtrim line := List.takeWhile_prefix _
      rw [hpre.eq_of_length hlen, List.mem_append, or_iff_left]
      intro hb
      exact hnone b ((List.takeWhile_prefix _).subset hb) hdelim
    next => exact Iff.rfl
  constructor
  · rintro ⟨b, hb, hdelim⟩
    exact ⟨b, (hmem b hdelim).mpr hb, hdelim⟩
  · rintro ⟨b, hb, hdelim⟩
    exact ⟨b, (hmem b hdelim).mp hb, hdelim⟩

/-- A line without a delimiter is as good as an empty one. -/
theorem parseHeader_eq_none (below : Nat → Int) (line : List UInt8) :
    parseHeader below line = none ↔ ¬ Delimited line := by
  have hnone : (strsep headerDelims (cstring (rtrim line))).2 = none ↔
      ∀ b ∈ cstring (rtrim line), b ∉ headerDelims := strsep_eq_none _
  have hdelimited : ¬ Delimited line ↔ ∀ b ∈ cstring (rtrim line), b ∉ headerDelims := by
    rw [← delimited_rtrim, Delimited]
    simp only [not_exists, not_and]
  rw [hdelimited, ← hnone, parseHeader]
  split
  next hempty =>
    refine ⟨fun _ => ?_, fun _ => rfl⟩
    rw [hempty]
    rfl
  next =>
    split
    next key heq =>
      rw [heq]
      exact ⟨fun _ => rfl, fun _ => rfl⟩
    next key tok heq =>
      rw [heq]
      exact ⟨nofun, nofun⟩

/-! ## Spaces -/

/-- As many words are read below the size as spaces are passed. -/
theorem ltrim_stray (below : Nat → Int) (k : Nat) (s : List UInt8) :
    (ltrim below k s).2 + (ltrim below k s).1.length = k + s.length := by
  induction s generalizing k with
  | nil => rfl
  | cons b s ih =>
      rw [ltrim]
      split
      next => rw [ih, List.length_cons, Nat.add_right_comm, Nat.add_assoc]
      next => rfl

theorem ltrim_val {below : Nat → Int} {val : List UInt8} (h : val.head? ≠ some ' '.toUInt8)
    (k : Nat) : ltrim below k val = (val, k) := by
  cases val with
  | nil => rfl
  | cons b val =>
      have hb : b ≠ ' '.toUInt8 := fun hb => h (congrArg some hb)
      rw [ltrim, if_neg (fun hand => hb hand.2)]

/-- The spaces are passed while the words read below the size are positive. -/
theorem ltrim_replicate_iff {below : Nat → Int} {val : List UInt8}
    (h : val.head? ≠ some ' '.toUInt8) (n k : Nat) :
    (ltrim below k (List.replicate n ' '.toUInt8 ++ val)).1 = val ↔
      ∀ j, k ≤ j → j < k + n → j = 0 ∨ 0 < below j := by
  induction n generalizing k with
  | zero =>
      refine ⟨fun _ j hj hlt => by omega, fun _ => ?_⟩
      exact congrArg Prod.fst (ltrim_val h k)
  | succ n ih =>
      rw [List.replicate_succ, List.cons_append, ltrim]
      split
      next hpass =>
        rw [ih]
        constructor
        · intro hall j hj hlt
          rcases Nat.eq_or_lt_of_le hj with rfl | hgt
          · exact hpass.1
          · exact hall j hgt (by omega)
        · intro hall j hj hlt
          exact hall j (by omega) (by omega)
      next hstop =>
        constructor
        · intro hval
          -- what is left is longer than the value
          have hlen := congrArg List.length hval
          rw [List.length_cons, List.length_append, List.length_replicate] at hlen
          omega
        · intro hall
          exact absurd ⟨hall k (Nat.le_refl k) (by omega), rfl⟩ hstop

/-! ## The round trip -/

section RoundTrip
variable {key val : List UInt8} (hkey : Key key) (hval : Value val) (below : Nat → Int) (n : Nat)
include hkey hval

theorem parseHeader_headerLine :
    parseHeader below (headerLine key n val)
      = some ⟨key, (ltrimlen below (List.replicate n ' '.toUInt8 ++ val)).1,
          (ltrimlen below (List.replicate n ' '.toUInt8 ++ val)).2⟩ := by
  have hnul : (0 : UInt8) ∉ key ++ ':'.toUInt8 :: (List.replicate n ' '.toUInt8 ++ val) := by
    intro h
    simp only [List.mem_append, List.mem_cons, List.mem_replicate] at h
    rcases h with h | h | ⟨-, h⟩ | h
    · exact hkey.nul h
    · exact absurd h (by decide)
    · exact absurd h (by decide)
    · exact hval.nul h
  simp only [parseHeader, headerLine, rtrim_crlf, cstring_eq_self hnul,
    strsep_word hkey.delims (show ':'.toUInt8 ∈ headerDelims by decide)]
  rw [if_neg (by simp)]

/-- The line is parsed right, and nothing but the line is read, when there is no space;
the key and the value are right when the words that are read instead of the size are
positive, up to the last space. -/
theorem parseHeader_iff :
    (parseHeader below (headerLine key n val) = some ⟨key, val, 0⟩ ↔ n = 0) ∧
      ((parseHeader below (headerLine key n val)).map (fun p => (p.key, p.val)) = some (key, val) ↔
        ∀ k, 0 < k → k < n → 0 < below k) := by
  rw [parseHeader_headerLine hkey hval]
  have hiff : (ltrim below 0 (List.replicate n ' '.toUInt8 ++ val)).1 = val ↔ _ :=
    ltrim_replicate_iff hval.space n 0
  have hstray := ltrim_stray below 0 (List.replicate n ' '.toUInt8 ++ val)
  rw [List.length_append, List.length_replicate] at hstray
  constructor
  · constructor
    · intro h
      have hparsed := Option.some.inj h
      have hv : (ltrim below 0 (List.replicate n ' '.toUInt8 ++ val)).1 = val :=
        congrArg Parsed.val hparsed
      have hk : (ltrim below 0 (List.replicate n ' '.toUInt8 ++ val)).2 = 0 :=
        congrArg Parsed.stray hparsed
      rw [hv, hk] at hstray
      omega
    · rintro rfl
      show some (Parsed.mk key (ltrim below 0 val).1 (ltrim below 0 val).2) = _
      rw [ltrim_val hval.space]
  · show some (key, (ltrim below 0 (List.replicate n ' '.toUInt8 ++ val)).1) = some (key, val) ↔ _
    rw [Option.some.injEq, Prod.mk.injEq, and_iff_right rfl, hiff]
    constructor
    · intro hall k hpos hlt
      exact (hall k (Nat.zero_le k) (by omega)).resolve_left (Nat.pos_iff_ne_zero.mp hpos)
    · intro hall k _ hlt
      rcases Nat.eq_zero_or_pos k with rfl | hpos
      · exact .inl rfl
      · exact .inr (hall k hpos (by omega))

end RoundTrip

/-- The header `a:  b`, with two spaces, over a stack of zeros. -/
theorem parseHeader_iff_two :
    (parseHeader (fun _ => 0) (headerLine (bytes "a") 2 (bytes "b"))
        = some ⟨bytes "a", bytes "b", 0⟩ ↔ 2 = 0) ∧
      ((parseHeader (fun _ => 0) (headerLine (bytes "a") 2 (bytes "b"))).map
          (fun p => (p.key, p.val)) = some (bytes "a", bytes "b") ↔
        ∀ k, 0 < k → k < 2 → 0 < (fun _ : Nat => (0 : Int)) k) :=
  parseHeader_iff ⟨by decide, List.all_iff_forall_prop.mp (by decide), by decide, by decide, by decide⟩
    ⟨by decide, by decide, by decide, by decide⟩ _ 2

/-- It gives the value with a space before it, and has read a word below the size. -/
theorem two_spaces :
    parseHeader (fun _ => 0) (headerLine (bytes "a") 2 (bytes "b"))
        = some ⟨bytes "a", bytes " b", 1⟩ ∧
      parseHeader (fun _ => 0) (headerLine (bytes "a") 2 (bytes "b"))
        ≠ some ⟨bytes "a", bytes "b", 0⟩ := by
  decide

end Vk.Rfc

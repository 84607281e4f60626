/-
# `Mnvkd.RfcChunk` — chunk sizes, written and read

`vk_rfcchunkhead_update_head` writes the size of a chunk, and `hex_size` reads
one.  What is written is right where `flsh` finds the first digit:

    zero                  there is none, and one byte is reported unwritten
    from 2 ^ 61 on        the highest three bits are shifted out before they are
                          looked at, so the digit is found by the fourth

`hex_size` counts sixteen characters, whatever they are, so a size is read right
when there is nothing but its digits.
-/
import Mnvkd.RfcHeader

namespace Vk.Rfc

open Lib Text

/-! ## The number of digits -/

theorem log2_half {m : Nat} (h : 2 ≤ m) : m.log2 = (m / 2).log2 + 1 := by
  rw [Nat.log2_def, if_pos h]

theorem flsl_go_eq (fuel bit : Nat) {mask : UInt64} (h : mask ≠ 0) (hfuel : mask.toNat.log2 ≤ fuel) :
    flsl.go fuel bit mask = bit + mask.toNat.log2 := by
  induction fuel generalizing bit mask with
  | zero =>
      show bit = _
      omega
  | succ fuel ih =>
      rw [flsl.go]
      split
      next hone =>
        rw [hone]
        rfl
      next hone =>
        have hpos : mask.toNat ≠ 0 := fun h0 => h (UInt64.toNat_inj.mp h0)
        have hne : mask.toNat ≠ 1 := fun h1 => hone (UInt64.toNat_inj.mp h1)
        have hhalf : (mask >>> 1).toNat = mask.toNat / 2 := by
          rw [UInt64.toNat_shiftRight]
          exact Nat.shiftRight_eq_div_pow _ 1
        have hlog := log2_half (m := mask.toNat) (by omega)
        have hshift : mask >>> 1 ≠ 0 := fun h0 => by
          rw [h0] at hhalf
          have : mask.toNat / 2 = 0 := hhalf.symm
          omega
        rw [ih (bit + 1) hshift (by rw [hhalf]; omega), hhalf, hlog]
        omega

theorem flsl_eq {mask : UInt64} (h : mask ≠ 0) : flsl mask = mask.toNat.log2 + 1 := by
  have hpos : mask.toNat ≠ 0 := fun h0 => h (UInt64.toNat_inj.mp h0)
  have hlog : mask.toNat.log2 < 64 := (Nat.log2_lt hpos).mpr mask.toNat_lt
  rw [flsl, if_neg h, flsl_go_eq _ _ h (by omega), Nat.add_comm]

theorem toNat_shifted (n : UInt64) : (n <<< 3).toNat = n.toNat * 8 % 2 ^ 64 := by
  rw [UInt64.toNat_shiftLeft]
  show (n.toNat <<< 3) % 2 ^ 64 = _
  rw [Nat.shiftLeft_eq]

theorem flsh_eq {n : UInt64} {m : Nat} (h : n.toNat * 8 % 2 ^ 64 = m) (hm : m ≠ 0) :
    flsh n = (m.log2 + 1) / 4 := by
  have hne : n <<< 3 ≠ 0 := fun h0 => hm (by rw [← h, ← toNat_shifted, h0]; rfl)
  rw [flsh, flsl_eq hne, toNat_shifted, h]
  exact Nat.shiftRight_eq_div_pow _ 2

/-- The sizes of which `flsh` finds the first digit. -/
def Writable (n : UInt64) : Prop := n ≠ 0 ∧ (n.toNat < 2 ^ 61 ∨ 2 ^ 60 ≤ n.toNat % 2 ^ 61)

instance (n : UInt64) : Decidable (Writable n) :=
  inferInstanceAs (Decidable (n ≠ 0 ∧ (n.toNat < 2 ^ 61 ∨ 2 ^ 60 ≤ n.toNat % 2 ^ 61)))

theorem Writable.flsh {n : UInt64} (h : Writable n) :
    ∃ r < 16, flsh n = r + 1 ∧ 16 ^ r ≤ n.toNat ∧ n.toNat < 16 ^ (r + 1) := by
  have hpos : n.toNat ≠ 0 := fun h0 => h.1 (UInt64.toNat_inj.mp h0)
  have hlt := n.toNat_lt
  rcases Nat.lt_or_ge n.toNat (2 ^ 61) with hsmall | hbig
  · -- nothing is shifted out
    have hm : n.toNat * 8 % 2 ^ 64 = n.toNat * 8 := Nat.mod_eq_of_lt (by omega)
    have hlog : (n.toNat * 8).log2 = n.toNat.log2 + 3 := by
      rw [log2_half (by omega), log2_half (by omega), log2_half (by omega)]
      have hdiv : n.toNat * 8 / 2 / 2 / 2 = n.toNat := by omega
      rw [hdiv]
    have hself := Nat.log2_self_le hpos
    have hnext := Nat.lt_log2_self (n := n.toNat)
    have hl : n.toNat.log2 < 61 := (Nat.log2_lt hpos).mpr hsmall
    have hpow : ∀ k, 16 ^ k = 2 ^ (4 * k) := fun k => by rw [Nat.pow_mul]
    refine ⟨n.toNat.log2 / 4, by omega, ?_, ?_, ?_⟩
    · rw [flsh_eq hm (by omega), hlog]
      omega
    · rw [hpow]
      exact Nat.le_trans (Nat.pow_le_pow_right (by omega) (by omega)) hself
    · rw [hpow]
      exact Nat.lt_of_lt_of_le hnext (Nat.pow_le_pow_right (by omega) (by omega))
  · -- the fourth bit is what is left of the first digit
    have hbit : 2 ^ 60 ≤ n.toNat % 2 ^ 61 := h.2.resolve_left (by omega)
    have hm : n.toNat * 8 % 2 ^ 64 ≠ 0 := by omega
    have hlog : (n.toNat * 8 % 2 ^ 64).log2 = 63 :=
      (Nat.log2_eq_iff hm).mpr ⟨by omega, by omega⟩
    refine ⟨15, by omega, ?_, by omega, by omega⟩
    rw [flsh_eq rfl hm, hlog]

theorem flsh_of_not_writable {n : UInt64} (hn : n ≠ 0) (h : ¬ Writable n) :
    flsh n ≤ 15 ∧ 2 ^ 61 ≤ n.toNat := by
  have hlt := n.toNat_lt
  have hbig : 2 ^ 61 ≤ n.toNat := by
    apply Nat.le_of_not_lt
    intro hsmall
    exact h ⟨hn, .inl hsmall⟩
  have hbit : n.toNat % 2 ^ 61 < 2 ^ 60 := by
    apply Nat.lt_of_not_le
    intro hbit
    exact h ⟨hn, .inr hbit⟩
  refine ⟨?_, hbig⟩
  by_cases hm : n.toNat * 8 % 2 ^ 64 = 0
  · have hzero : n <<< 3 = 0 := UInt64.toNat_inj.mp (by rw [toNat_shifted, hm]; rfl)
    rw [Rfc.flsh, hzero]
    decide
  · have hlog : (n.toNat * 8 % 2 ^ 64).log2 < 63 := (Nat.log2_lt hm).mpr (by omega)
    rw [flsh_eq rfl hm]
    omega

/-! ## What is written -/

theorem sizeHexLoop_le (len : Nat) (size : UInt64) (r j : Nat) (val : List UInt8) :
    (sizeHexLoop len size r j val).2 ≤ j + r := by
  induction r generalizing j val with
  | zero => exact Nat.le_refl j
  | succ r ih =>
      rw [sizeHexLoop]
      split
      next =>
        refine Nat.le_trans (ih _ _) ?_
        split <;> omega
      next => exact Nat.le_add_right j _

theorem toNat_digit (size : UInt64) {r : Nat} (hr : r < 16) :
    ((size >>> (4 * r).toUInt64) &&& 0xf).toNat = size.toNat / 16 ^ r % 16 := by
  have hshift : (4 * r).toUInt64.toNat % 64 = 4 * r := by
    show 4 * r % 2 ^ 64 % 64 = 4 * r
    omega
  have hpow : 16 ^ r = 2 ^ (4 * r) := by rw [Nat.pow_mul]
  rw [UInt64.toNat_and, UInt64.toNat_shiftRight, hshift, Nat.shiftRight_eq_div_pow, hpow]
  exact Nat.and_two_pow_sub_one_eq_mod _ 4

theorem valHex_eq {c : UInt64} (h : c.toNat < 16) : valHex c.toUInt32 = xdigit c.toNat := by
  have hall : ∀ d < 16, valHex (UInt32.ofNat d) = xdigit d := by decide
  have hc : c.toUInt32 = UInt32.ofNat c.toNat := by
    apply UInt32.toNat_inj.mp
    rw [UInt64.toNat_toUInt32, UInt32.toNat_ofNat']
  rw [hc]
  exact hall _ h

theorem take_set_succ {val : List UInt8} {j : Nat} (h : j < val.length) (x : UInt8) :
    (val.set j x).take (j + 1) = val.take j ++ [x] := by
  rw [List.take_add_one, List.getElem?_set_self h, List.take_set_of_le (Nat.le_refl j)]
  rfl

/-- From a digit on that counts, or once one was written, all are. -/
theorem sizeHexLoop_writes (len : Nat) (size : UInt64) {r j : Nat} (val : List UInt8)
    (hr : r ≤ 16) (hlen : j + r ≤ len) (hval : j + r ≤ val.length)
    (hfirst : j = 0 → 16 ^ (r - 1) ≤ size.toNat % 16 ^ r) :
    (sizeHexLoop len size r j val).1.take (j + r) = val.take j ++ lowDigits r size.toNat ∧
      (sizeHexLoop len size r j val).2 = j + r := by
  induction r generalizing j val with
  | zero => exact ⟨(List.append_nil _).symm, rfl⟩
  | succ r ih =>
      have hdigit := toNat_digit size (show r < 16 by omega)
      have hchar := valHex_eq (c := (size >>> (4 * r).toUInt64) &&& 0xf)
        (by rw [hdigit]; exact Nat.mod_lt _ (by omega))
      -- the digit is written and counted
      have hcount : ¬ (j = 0 ∧ (size >>> (4 * r).toUInt64) &&& 0xf = 0) := by
        rintro ⟨hj, hzero⟩
        have hfirst := hfirst hj
        have hmod : size.toNat % 16 ^ (r + 1) = size.toNat % 16 ^ r := by
          rw [hzero] at hdigit
          rw [Nat.pow_succ, Nat.mod_mul, ← hdigit]
          exact Nat.add_zero _
        have hlt := Nat.mod_lt size.toNat (Nat.pow_pos (a := 16) (n := r) (by omega))
        rw [hmod] at hfirst
        exact absurd hfirst (Nat.not_le.mpr hlt)
      have hstep : sizeHexLoop len size (r + 1) j val
          = sizeHexLoop len size r (j + 1) (val.set j (xdigit (size.toNat / 16 ^ r % 16))) := by
        rw [sizeHexLoop, if_pos (by omega)]
        simp only [if_neg hcount, hchar, hdigit]
      have hset : j + 1 + r ≤ (val.set j (xdigit (size.toNat / 16 ^ r % 16))).length := by
        rw [List.length_set]
        omega
      obtain ⟨htaken, hcounted⟩ := ih _ (by omega) (by omega) hset (by omega)
      have hcomm : j + (r + 1) = j + 1 + r := by omega
      rw [hstep, hcomm]
      refine ⟨?_, hcounted⟩
      rw [htaken, take_set_succ (by omega), List.append_assoc]
      rfl

theorem sizeHex_le {n : UInt64} (val : List UInt8) (len : Nat) {r : Nat} (h : flsh n ≤ r)
    (hr : 1 ≤ r) : (sizeHex val len n).2 ≤ r := by
  have hle := sizeHexLoop_le (min len 16) n (flsh n) 0 val
  show (if _ = 0 then 1 else _) ≤ r
  split <;> omega

theorem flsh_le (n : UInt64) : flsh n ≤ 16 := by
  by_cases hn : n = 0
  · rw [hn]
    decide
  by_cases hw : Writable n
  · obtain ⟨r, hr, hflsh, -, -⟩ := hw.flsh
    omega
  · exact Nat.le_trans (flsh_of_not_writable hn hw).1 (by omega)

theorem RfcChunkHead.updateHead_le (c : RfcChunkHead) : c.updateHead.2 ≤ 18 := by
  have hle := sizeHex_le c.head 18 (flsh_le c.size) (by omega)
  show (sizeHex c.head 18 c.size).2 + 2 ≤ 18
  omega

/-- The bytes that are reported: those of the size, and the line break. -/
theorem RfcChunkHead.take_updateHead (c : RfcChunkHead) :
    c.updateHead.1.head.take c.updateHead.2
      = (sizeHex c.head 18 c.size).1.take (sizeHex c.head 18 c.size).2 ++ bytes "\r\n" := by
  have hle := sizeHex_le c.head 18 (flsh_le c.size) (by omega)
  have hlen : (sizeHex c.head 18 c.size).1.length = 19 :=
    (length_sizeHexLoop _ _ _ _ _).trans c.length_head
  show (List.set (List.set (List.set _ _ _) _ _) _ _).take ((sizeHex c.head 18 c.size).2 + 2) = _
  rw [List.take_set_of_le (Nat.le_refl _), take_set_succ (by rw [List.length_set]; omega),
    take_set_succ (by omega), List.append_assoc]
  rfl

/-! ## What is read -/

/-- What `hex_size` makes of characters. -/
def nibbles (bs : List UInt8) : Nat := bs.foldl (fun v b => 16 * v + (hexVal b).toNat) 0

theorem hexVal_lt (b : UInt8) : (hexVal b).toNat < 16 := by
  have hmod : ∀ c : Int, (c % 16).toNat < 16 := fun c => by omega
  show (((b.toInt8.toInt % 32 + b.toInt8.toInt / 64 * 25 - 16) % 16).toNat) % 2 ^ 64 < 16
  exact Nat.lt_of_le_of_lt (Nat.mod_le _ _) (hmod _)

theorem hexVal_digit {b : UInt8} (h : isxdigit b = true) : (hexVal b).toNat = xvalue b := by
  have hall : ∀ n < 256, isxdigit (UInt8.ofNat n) = true →
      (hexVal (UInt8.ofNat n)).toNat = xvalue (UInt8.ofNat n) := by decide +kernel
  have hb := hall b.toNat b.toNat_lt
  rw [UInt8.ofNat_toNat] at hb
  exact hb h

/-- One character more, while the size has room for it. -/
theorem toNat_nibble (size : UInt64) (h : size.toNat < 2 ^ 60) (b : UInt8) :
    ((size <<< 4 : UInt64) ||| hexVal b).toNat = 16 * size.toNat + (hexVal b).toNat := by
  have hshift : (size <<< 4).toNat = 2 ^ 4 * size.toNat := by
    rw [UInt64.toNat_shiftLeft]
    show (size.toNat <<< 4) % 2 ^ 64 = _
    rw [Nat.shiftLeft_eq, Nat.mod_eq_of_lt (by omega)]
    exact Nat.mul_comm _ _
  rw [UInt64.toNat_or, hshift, ← Nat.two_pow_add_eq_or_of_lt (hexVal_lt b)]

theorem toNat_foldl_nibble (bs : List UInt8) (size : UInt64) (k : Nat)
    (hsize : size.toNat < 16 ^ k) (hlen : k + bs.length ≤ 16) :
    (bs.foldl (fun (size : UInt64) b => (size <<< 4) ||| hexVal b) size).toNat
      = bs.foldl (fun v b => 16 * v + (hexVal b).toNat) size.toNat := by
  induction bs generalizing size k with
  | nil => rfl
  | cons b bs ih =>
      rw [List.length_cons] at hlen
      have hpow : 16 ^ k ≤ 16 ^ 15 := Nat.pow_le_pow_right (by omega) (by omega)
      have hb := hexVal_lt b
      have hstep := toNat_nibble size (by omega) b
      rw [List.foldl_cons, List.foldl_cons, ih _ (k + 1) _ (by omega), hstep]
      rw [hstep, Nat.pow_succ]
      omega

/-- `hex_size` gives the number of the first sixteen characters. -/
theorem toNat_hexSize (val : List UInt8) :
    (hexSize val).toNat = nibbles ((cstring val).take 16) :=
  toNat_foldl_nibble ((cstring val).take 16) 0 0 (by decide) (by rw [List.length_take]; omega)

theorem nibbles_append (ds bs : List UInt8) :
    nibbles (ds ++ bs) = nibbles ds * 16 ^ bs.length + nibbles bs :=
  number_append 16 _ ds bs

theorem nibbles_digits {ds : List UInt8} (h : ∀ b ∈ ds, isxdigit b = true) :
    nibbles ds = hexValue ds := by
  have hfold : ∀ v, ds.foldl (fun v b => 16 * v + (hexVal b).toNat) v
      = ds.foldl (fun v d => 16 * v + xvalue d) v := by
    induction ds with
    | nil => exact fun _ => rfl
    | cons d ds ih =>
        intro v
        rw [List.foldl_cons, List.foldl_cons, hexVal_digit (h d List.mem_cons_self),
          ih fun b hb => h b (List.mem_cons_of_mem d hb)]
  exact hfold 0

theorem nul_of_isxdigit {ds : List UInt8} (h : ∀ b ∈ ds, isxdigit b = true) : (0 : UInt8) ∉ ds :=
  fun h0 => absurd (h 0 h0) (by decide)

/-! ## The round trip -/

/-- The size `n` is written, into any head, as its digits and a line break, and read
back from there. -/
structure RoundTrips (n : UInt64) : Prop where
  fits : ∀ c : RfcChunkHead, c.size = n → c.updateHead.2 < c.head.length
  written : ∀ c : RfcChunkHead, c.size = n →
    c.updateHead.1.head.take c.updateHead.2 = hexadecimal n.toNat ++ bytes "\r\n"
  read : ∀ c : RfcChunkHead, c.size = n →
    hexSize (rtrim (c.updateHead.1.head.take c.updateHead.2)) = n

/-- What `size_hex` writes of a size it finds the first digit of. -/
theorem Writable.take_sizeHex {n : UInt64} (h : Writable n) {val : List UInt8}
    (hval : 16 ≤ val.length) : (sizeHex val 18 n).1.take (sizeHex val 18 n).2
      = hexadecimal n.toNat := by
  obtain ⟨r, hr, hflsh, hle, hlt⟩ := h.flsh
  have hfirst : 16 ^ (r + 1 - 1) ≤ n.toNat % 16 ^ (r + 1) := by
    rw [Nat.mod_eq_of_lt hlt]
    exact hle
  obtain ⟨htake, hcount⟩ := sizeHexLoop_writes 16 n val (show r + 1 ≤ 16 by omega)
    (show 0 + (r + 1) ≤ 16 by omega) (by omega) fun _ => hfirst
  have hloop : sizeHex val 18 n = sizeHexLoop 16 n (r + 1) 0 val := by
    have hne : (sizeHexLoop 16 n (r + 1) 0 val).2 ≠ 0 := by omega
    rw [sizeHex, hflsh]
    exact Prod.ext rfl (if_neg hne)
  rw [hloop, hcount, htake, hexadecimal_eq_lowDigits hle hlt]
  rfl

theorem hexSize_hexadecimal (n : UInt64) (hn : Writable n) : hexSize (hexadecimal n.toNat) = n := by
  obtain ⟨r, hr, -, hle, hlt⟩ := hn.flsh
  have hx := isxdigit_lowDigits (r + 1) n.toNat
  apply UInt64.toNat_inj.mp
  rw [toNat_hexSize, hexadecimal_eq_lowDigits hle hlt, cstring_eq_self (nul_of_isxdigit hx),
    List.take_of_length_le (by rw [length_lowDigits]; omega), nibbles_digits hx,
    hexValue_lowDigits, Nat.mod_eq_of_lt hlt]

/-- The sizes that are written and read back are those `flsh` finds the first digit of. -/
theorem roundTrips_iff (n : UInt64) : RoundTrips n ↔ Writable n := by
  constructor
  · intro h
    apply Decidable.byContradiction
    intro hw
    by_cases hn : n = 0
    · -- the byte that was there is reported
      subst hn
      have hdot := h.written ⟨0, List.replicate 19 '.'.toUInt8, rfl⟩ rfl
      exact absurd hdot (by decide)
    · -- a digit is missing
      obtain ⟨hflsh, hbig⟩ := flsh_of_not_writable hn hw
      have hlt := n.toNat_lt
      have hwritten := congrArg List.length (h.written ⟨n, List.replicate 19 0, rfl⟩ rfl)
      have hle : (sizeHex (List.replicate 19 0) 18 n).2 ≤ 15 := sizeHex_le _ 18 hflsh (by omega)
      have hcut := Nat.min_le_left (sizeHex (List.replicate 19 0) 18 n).2
        (sizeHex (List.replicate 19 0) 18 n).1.length
      rw [RfcChunkHead.take_updateHead, List.length_append, List.length_append, List.length_take,
        hexadecimal_eq_lowDigits (r := 15) (by omega) (by omega), length_lowDigits] at hwritten
      have hshort := Nat.add_right_cancel hwritten
      rw [hshort] at hcut
      omega
  · intro hw
    have hwritten : ∀ c : RfcChunkHead, c.size = n →
        c.updateHead.1.head.take c.updateHead.2 = hexadecimal n.toNat ++ bytes "\r\n" := by
      rintro c rfl
      rw [c.take_updateHead, hw.take_sizeHex (by rw [c.length_head]; omega)]
    refine ⟨fun c _ => ?_, hwritten, fun c hc => ?_⟩
    · have := c.updateHead_le
      rw [c.length_head]
      omega
    · rw [hwritten c hc, rtrim_crlf, hexSize_hexadecimal n hw]

/-- Of `2 ^ 61 + 1` only the last digit is written. -/
theorem one_digit : ¬ RoundTrips 0x2000000000000001 := by
  intro h
  have hwritten := h.written ⟨0x2000000000000001, List.replicate 19 0, rfl⟩ rfl
  exact absurd hwritten (by decide +kernel)

/-! ## What is accepted -/

/-- The digits at the front of a line. -/
def digits (line : List UInt8) : List UInt8 := line.takeWhile isxdigit

/-- A chunk line: up to sixteen digits, and then its end, `;` or white space. -/
structure ChunkLine (line : List UInt8) : Prop where
  some_digit : 1 ≤ (digits line).length
  few_digits : (digits line).length ≤ 16
  ends : ∀ b ∈ (line.drop (digits line).length).head?, b = ';'.toUInt8 ∨ isspace b = true

/-- What `hex_size` looks at in a line. -/
def looked (line : List UInt8) : List UInt8 := (cstring (rtrim line)).take 16

/-- Behind the digits it looks at nothing, or all it looks at counts zero. -/
def OnlyDigits (line : List UInt8) : Prop :=
  (looked line).drop (digits line).length = [] ∨ ∀ b ∈ looked line, hexVal b = 0

/-- The line is empty, or longer than a chunk head. -/
def Refused (line : List UInt8) : Prop := rtrim line = [] ∨ headSize - 1 < (rtrim line).length

theorem isxdigit_digits (line : List UInt8) : ∀ b ∈ digits line, isxdigit b = true :=
  fun _ hb => List.mem_takeWhile_imp hb

theorem digits_isPrefix_rtrim (line : List UInt8) : digits line <+: rtrim line := by
  obtain ⟨tail, htail, hbreak⟩ := rtrim_append line
  have hnone : tail.takeWhile isxdigit = [] := by
    cases tail with
    | nil => rfl
    | cons b tail =>
        rcases hbreak b List.mem_cons_self with rfl | rfl
        · rfl
        · rfl
  have hdigits : digits line = (rtrim line).takeWhile isxdigit := by
    rw [digits, htail, List.takeWhile_append, hnone, List.append_nil, ← htail]
    split
    next hlen => exact ((List.takeWhile_prefix _).eq_of_length hlen).symm
    next => rfl
  rw [hdigits]
  exact List.takeWhile_prefix _

theorem looked_eq {line : List UInt8} (h : (digits line).length ≤ 16) :
    looked line = digits line ++ (looked line).drop (digits line).length := by
  have hx := isxdigit_digits line
  obtain ⟨rest, hrest⟩ := digits_isPrefix_rtrim line
  have hcstring : cstring (rtrim line) = digits line ++ cstring rest := by
    have hnul : ∀ b ∈ digits line, (b != 0) = true := fun b hb =>
      bne_iff_ne.mpr fun h0 => nul_of_isxdigit hx (h0 ▸ hb)
    rw [← hrest, cstring, List.takeWhile_append_of_pos hnul, cstring]
  have hlooked : looked line
      = digits line ++ (cstring rest).take (16 - (digits line).length) := by
    rw [looked, hcstring, List.take_append, List.take_of_length_le h]
  have hdrop : (looked line).drop (digits line).length
      = (cstring rest).take (16 - (digits line).length) := by
    rw [hlooked, List.drop_left]
  rw [hdrop]
  exact hlooked

theorem nibbles_eq_zero (bs : List UInt8) : nibbles bs = 0 ↔ ∀ b ∈ bs, hexVal b = 0 := by
  induction bs with
  | nil => exact ⟨nofun, fun _ => rfl⟩
  | cons b bs ih =>
      have hcons : nibbles (b :: bs) = (hexVal b).toNat * 16 ^ bs.length + nibbles bs := by
        rw [← List.singleton_append, nibbles_append]
        show (16 * 0 + (hexVal b).toNat) * _ + _ = _
        rw [Nat.mul_zero, Nat.zero_add]
      rw [hcons, Nat.add_eq_zero_iff, ih, Nat.mul_eq_zero,
        or_iff_left (Nat.pos_iff_ne_zero.mp (Nat.pow_pos (by omega))), List.forall_mem_cons,
        ← UInt64.toNat_inj]
      rfl

/-- The size is that of the digits when nothing else counts. -/
theorem hexSize_rtrim_iff {line : List UInt8} (h : (digits line).length ≤ 16) :
    (hexSize (rtrim line)).toNat = hexValue (digits line) ↔ OnlyDigits line := by
  have hsize : (hexSize (rtrim line)).toNat = nibbles (looked line) := toNat_hexSize _
  have hdigits := nibbles_digits (isxdigit_digits line)
  rw [hsize, OnlyDigits, ← nibbles_eq_zero (looked line), ← hdigits]
  generalize hrest : (looked line).drop (digits line).length = rest
  have hlooked := looked_eq h
  rw [hrest] at hlooked
  rw [hlooked, nibbles_append]
  cases rest with
  | nil =>
      refine ⟨fun _ => .inl rfl, fun _ => ?_⟩
      exact Nat.mul_one _
  | cons b rest =>
      -- one character more makes a number sixteen times as large
      have hpow : 16 ≤ 16 ^ (b :: rest).length := Nat.le_self_pow (Nat.succ_ne_zero _) 16
      have hmul : nibbles (digits line) * 16 ≤ nibbles (digits line) * 16 ^ (b :: rest).length :=
        Nat.mul_le_mul_left _ hpow
      constructor
      · intro heq
        right
        omega
      · intro hcases
        have hzero := hcases.resolve_left nofun
        omega

section Accepts
variable {σ : Type} (r : Reader σ) (left : σ → List UInt8) (s : σ)

/-- A chunk header is read where there is a chunk line, with the size its digits write,
and the line is consumed. -/
def AcceptsOnly : Prop :=
  ∀ size s', readrfcchunkheader r s = .ok (size, s') →
    ChunkLine (firstLine (left s)) ∧ size.toNat = hexValue (digits (firstLine (left s))) ∧
      (r.readline (headSize - 1) s).1 = firstLine (left s)

/-- The line that is given is refused, or it is a whole chunk line with nothing but its
digits. -/
def Plain : Prop :=
  Refused (r.readline (headSize - 1) s).1 ∨
    (r.readline (headSize - 1) s).1 = firstLine (left s) ∧ ChunkLine (firstLine (left s)) ∧
      OnlyDigits (firstLine (left s))

/-- Whether a chunk header is read, and which. -/
theorem readrfcchunkheader_cases :
    (Refused (r.readline (headSize - 1) s).1 ∧ ∃ e, readrfcchunkheader r s = .error e) ∨
      (¬ Refused (r.readline (headSize - 1) s).1 ∧
        readrfcchunkheader r s = .ok (hexSize (rtrim (r.readline (headSize - 1) s).1),
          (r.readline (headSize - 1) s).2)) := by
  by_cases hrefused : Refused (r.readline (headSize - 1) s).1
  · left
    refine ⟨hrefused, ?_⟩
    rw [readrfcchunkheader, readrfcline]
    by_cases hempty : (r.readline (headSize - 1) s).1 = []
    · exact ⟨Errno.EPIPE, by rw [if_pos hempty]⟩
    · refine ⟨Errno.EPROTO, ?_⟩
      rw [if_neg hempty]
      exact if_pos hrefused
  · right
    refine ⟨hrefused, ?_⟩
    have hempty : (r.readline (headSize - 1) s).1 ≠ [] := fun h => hrefused (.inl (by rw [h]; rfl))
    rw [readrfcchunkheader, readrfcline, if_neg hempty]
    exact if_neg hrefused

/-- What is accepted is the grammar, exactly where the line is plain. -/
theorem acceptsOnly_iff : AcceptsOnly r left s ↔ Plain r left s := by
  rcases readrfcchunkheader_cases r s with ⟨hrefused, e, herror⟩ | ⟨hrefused, hok⟩
  · refine ⟨fun _ => .inl hrefused, fun _ size s' h => ?_⟩
    rw [herror] at h
    cases h
  · constructor
    · intro h
      obtain ⟨hline, hsize, hwhole⟩ := h _ _ hok
      rw [hwhole] at hsize
      exact .inr ⟨hwhole, hline, (hexSize_rtrim_iff hline.few_digits).mp hsize⟩
    · intro hplain size s' h
      obtain ⟨hwhole, hline, honly⟩ := hplain.resolve_left hrefused
      rw [hok] at h
      cases h
      refine ⟨hline, ?_, hwhole⟩
      rw [hwhole]
      exact (hexSize_rtrim_iff hline.few_digits).mpr honly

end Accepts

/-- `zz`, which is no number, is read as `0x33`. -/
theorem not_acceptsOnly : ¬ AcceptsOnly Reader.whole id (bytes "zz\r\n") := by
  intro h
  obtain ⟨hline, -, -⟩ := h 0x33 [] (by rfl)
  exact absurd hline.some_digit (by decide)

end Vk.Rfc

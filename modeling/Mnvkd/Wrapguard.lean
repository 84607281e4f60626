/-
# `Mnvkd.Wrapguard` — lengths in whole pages

The lengths of heaps, pools and stacks come from here: a number of members times the
size of one, rounded up to whole pages.  The arithmetic is that of `size_t`, which
wraps, and not every step of it is guarded.

    product      guarded, by `vk_safe_mult`
    division     no guard
    product      of the pages with the page size, to see if they are enough: no guard
    increment    no guard; in `vk_huge_aligned_len`, by `vk_safe_add`
    product      guarded, by `vk_safe_mult`

The steps without a guard do not wrap (`toNat_pages`), so these are the lengths of
`Mnvkd.Stack`, where nothing wraps (`map_safeAlignedlen`).
-/
import Mathlib.Order.Bounds.Defs
import Mnvkd.Stack

namespace Vk

namespace SysResult

variable {α : Type} {β : Type}

def map (f : α → β) : SysResult α → SysResult β
  | .ok a => .ok (f a)
  | .err e => .err e

end SysResult

namespace SizeT

def SIZE_MAX : UInt64 := 0xffffffffffffffff

def MUL_NO_OVERFLOW : UInt64 := (1 : UInt64) <<< 32

/-- `vk_wrapguard_mult`. -/
def wrapguardMult (a b : UInt64) : SysResult Unit :=
  if (a ≥ MUL_NO_OVERFLOW ∨ b ≥ MUL_NO_OVERFLOW) ∧ a > 0 ∧ SIZE_MAX / a < b then .err Errno.ERANGE
  else .ok ()

/-- `vk_wrapguard_add`. -/
def wrapguardAdd (a b : UInt64) : SysResult Unit :=
  if a + b < a ∨ a + b < b then .err Errno.ERANGE else .ok ()

/-- `vk_safe_mult`. -/
def safeMult (a b : UInt64) : SysResult UInt64 :=
  match wrapguardMult a b with
  | .err e => .err e
  | .ok () => .ok (a * b)

/-- `vk_safe_add`. -/
def safeAdd (a b : UInt64) : SysResult UInt64 :=
  match wrapguardAdd a b with
  | .err e => .err e
  | .ok () => .ok (a + b)

/-- `vk_safe_pagelen`.  `page` is what `vk_pagesize` answers. -/
def safePagelen (page nmemb count : UInt64) : SysResult UInt64 :=
  match safeMult nmemb count with
  | .err e => .err e
  | .ok len =>
      let pagelen := len / page
      .ok (if pagelen * page < len then pagelen + 1 else pagelen)

/-- `vk_hugepagesize`. -/
def hugepagesize : UInt64 := 2 * 1024 * 1024

/-- `vk_safe_hugepagelen`. -/
def safeHugepagelen (nmemb count : UInt64) : SysResult UInt64 := safePagelen hugepagesize nmemb count

/-- `vk_safe_alignedlen`. -/
def safeAlignedlen (page nmemb count : UInt64) : SysResult UInt64 :=
  match safePagelen page nmemb count with
  | .err e => .err e
  | .ok pagelen => safeMult pagelen page

/-- `vk_safe_hugealignedlen`. -/
def safeHugealignedlen (nmemb count : UInt64) : SysResult UInt64 :=
  match safeHugepagelen nmemb count with
  | .err e => .err e
  | .ok pagelen => safeMult pagelen hugepagesize

end SizeT

/-- `struct vk_huge`: the size of its pages. -/
structure Huge where
  hugePageBytes : UInt64

namespace Huge

/-- `vk_huge_page_bytes`, of a pointer that may be null. -/
def pageBytes : Option Huge → UInt64
  | some st => if st.hugePageBytes ≠ 0 then st.hugePageBytes else 2 * 1024 * 1024
  | none => 2 * 1024 * 1024

/-- `vk_huge_aligned_len`. -/
def alignedLen (st : Option Huge) (nmemb count : UInt64) : SysResult UInt64 :=
  let page := pageBytes st
  if page = 0 then .err Errno.EINVAL
  else
    match SizeT.safeMult nmemb count with
    | .err e => .err e
    | .ok len =>
        let pages := len / page
        if len % page ≠ 0 then
          match SizeT.safeAdd pages 1 with
          | .err e => .err e
          | .ok pages => SizeT.safeMult pages page
        else SizeT.safeMult pages page

end Huge

namespace SizeT

/-! ## No step wraps -/

section Steps
variable {page : UInt64} (a b nmemb count : UInt64)

theorem toNat_ne_zero (hpage : page ≠ 0) : 0 < page.toNat :=
  Nat.pos_of_ne_zero fun h => hpage (UInt64.toNat_inj.mp h)

theorem map_wrapguardMult : wrapguardMult a b = Vk.wrapguardMult a.toNat b.toNat := by
  have hguard : ((a ≥ MUL_NO_OVERFLOW ∨ b ≥ MUL_NO_OVERFLOW) ∧ a > 0 ∧ SIZE_MAX / a < b) ↔
      ((a.toNat ≥ Vk.MUL_NO_OVERFLOW ∨ b.toNat ≥ Vk.MUL_NO_OVERFLOW) ∧ a.toNat > 0 ∧
        Vk.SIZE_MAX / a.toNat < b.toNat) := by
    have hmul : MUL_NO_OVERFLOW.toNat = Vk.MUL_NO_OVERFLOW := by decide
    have hmax : SIZE_MAX.toNat = Vk.SIZE_MAX := by decide
    simp only [ge_iff_le, gt_iff_lt, UInt64.le_iff_toNat_le, UInt64.lt_iff_toNat_lt, UInt64.toNat_div,
      UInt64.toNat_zero, hmul, hmax]
  simp only [wrapguardMult, Vk.wrapguardMult, hguard]

theorem map_safeMult : (safeMult a b).map UInt64.toNat = Vk.safeMult a.toNat b.toNat := by
  rw [safeMult, Vk.safeMult, map_wrapguardMult]
  cases Vk.wrapguardMult a.toNat b.toNat with
  | err e => rfl
  | ok _ => exact congrArg SysResult.ok (UInt64.toNat_mul a b)

/-- The guard of a sum lets through the sums that fit, and no others. -/
theorem safeAdd_eq : safeAdd a b = if a.toNat + b.toNat < 2 ^ 64 then .ok (a + b) else .err Errno.ERANGE := by
  have ha := a.toNat_lt
  have hb := b.toNat_lt
  have hguard : (a + b < a ∨ a + b < b) ↔ ¬a.toNat + b.toNat < 2 ^ 64 := by
    simp only [UInt64.lt_iff_toNat_lt, UInt64.toNat_add]
    omega
  rw [safeAdd, wrapguardAdd]
  by_cases hfits : a.toNat + b.toNat < 2 ^ 64
  · rw [if_neg fun h => hguard.mp h hfits, if_pos hfits]
  · rw [if_pos (hguard.mpr hfits), if_neg hfits]

/-- The pages that are enough do not come to more than the length. -/
theorem toNat_pages_mul (len page : UInt64) :
    (len / page * page).toNat = len.toNat / page.toNat * page.toNat := by
  have hle : len.toNat / page.toNat * page.toNat ≤ len.toNat := Nat.div_mul_le_self _ _
  rw [UInt64.toNat_mul, UInt64.toNat_div]
  exact Nat.mod_eq_of_lt (Nat.lt_of_le_of_lt hle len.toNat_lt)

/-- A page is missing only where pages have more than a byte, and then there are not as
many as words. -/
theorem pages_lt {len : UInt64} (h : len.toNat / page.toNat * page.toNat < len.toNat) :
    len.toNat / page.toNat + 1 < 2 ^ 64 := by
  have hlen := len.toNat_lt
  generalize len.toNat = n at *
  rcases hpage : page.toNat with _ | _ | p
  · rw [Nat.div_zero]
    decide
  · rw [hpage, Nat.div_one, Nat.mul_one] at h
    omega
  · have hhalf : n / (p + 1 + 1) ≤ n / 2 := Nat.div_le_div_left (by omega) (by decide)
    omega

theorem toNat_pages (len : UInt64) :
    (if len / page * page < len then len / page + 1 else len / page).toNat =
      if len.toNat / page.toNat * page.toNat < len.toNat then len.toNat / page.toNat + 1
      else len.toNat / page.toNat := by
  have hmissing : len / page * page < len ↔ len.toNat / page.toNat * page.toNat < len.toNat := by
    rw [UInt64.lt_iff_toNat_lt, toNat_pages_mul]
  by_cases h : len.toNat / page.toNat * page.toNat < len.toNat
  · rw [if_pos (hmissing.mpr h), if_pos h, UInt64.toNat_add, UInt64.toNat_div]
    exact Nat.mod_eq_of_lt (pages_lt h)
  · rw [if_neg fun h' => h (hmissing.mp h'), if_neg h, UInt64.toNat_div]

theorem map_safePagelen :
    (safePagelen page nmemb count).map UInt64.toNat =
      Vk.safePagelen page.toNat nmemb.toNat count.toNat := by
  rw [safePagelen, Vk.safePagelen, ← map_safeMult]
  cases safeMult nmemb count with
  | err e => rfl
  | ok len => exact congrArg SysResult.ok (toNat_pages len)

/-- With words that wrap and without, it is the same length. -/
theorem map_safeAlignedlen :
    (safeAlignedlen page nmemb count).map UInt64.toNat =
      Vk.safeAlignedlen page.toNat nmemb.toNat count.toNat := by
  rw [safeAlignedlen, Vk.safeAlignedlen, ← map_safePagelen]
  cases safePagelen page nmemb count with
  | err e => rfl
  | ok pagelen => exact map_safeMult pagelen page

end Steps

/-! ## They are exact -/

section Exact
variable {page : UInt64}

/-- A length rounded up is the least that will do. -/
theorem isLeast_alignedlen {page : Nat} (hpage : 0 < page) (size : Nat) :
    IsLeast {len | page ∣ len ∧ size ≤ len} (alignedlen page size) := by
  refine ⟨⟨dvd_alignedlen page size, le_alignedlen hpage size⟩, ?_⟩
  rintro len ⟨hdvd, hle⟩
  by_contra hlt
  have hlt : len < alignedlen page size := Nat.lt_of_not_le hlt
  have hgap : page ≤ alignedlen page size - len :=
    Nat.le_of_dvd (Nat.sub_pos_of_lt hlt) (Nat.dvd_sub (dvd_alignedlen page size) hdvd)
  have hround := alignedlen_lt hpage size
  omega

/-- `f` rounds the product of its arguments up to whole pages: it answers with the least
multiple of `page` that is not less, if that is a length, and fails otherwise. -/
def RoundsUp (page : Nat) (f : UInt64 → UInt64 → SysResult UInt64) : Prop :=
  ∀ nmemb count : UInt64, ∃ len, IsLeast {len | page ∣ len ∧ nmemb.toNat * count.toNat ≤ len} len ∧
    f nmemb count = if len < 2 ^ 64 then .ok (UInt64.ofNat len) else .err Errno.ERANGE

/-- A result is known by the number it stands for. -/
theorem eq_of_map {r : SysResult UInt64} {n : Nat} {e : Errno}
    (h : r.map UInt64.toNat = if n < 2 ^ 64 then .ok n else .err e) :
    r = if n < 2 ^ 64 then .ok (UInt64.ofNat n) else .err e := by
  split
  · rename_i hfits
    rw [if_pos hfits] at h
    cases r with
    | err e => cases h
    | ok v =>
        have hv : v.toNat = n := SysResult.ok.inj h
        rw [← hv, UInt64.ofNat_toNat]
  · rename_i hfits
    rw [if_neg hfits] at h
    cases r with
    | ok v => cases h
    | err e => exact congrArg SysResult.err (SysResult.err.inj h)

theorem le_SIZE_MAX (n : Nat) : n ≤ Vk.SIZE_MAX ↔ n < 2 ^ 64 := Nat.le_sub_one_iff_lt (by decide)

theorem safeMult_eq (a b : UInt64) :
    safeMult a b =
      if a.toNat * b.toNat < 2 ^ 64 then .ok (UInt64.ofNat (a.toNat * b.toNat)) else .err Errno.ERANGE := by
  have hmap := map_safeMult a b
  simp only [Vk.safeMult_eq, le_SIZE_MAX] at hmap
  exact eq_of_map hmap

theorem safeAlignedlen_eq (hpage : page ≠ 0) (nmemb count : UInt64) :
    safeAlignedlen page nmemb count =
      if alignedlen page.toNat (nmemb.toNat * count.toNat) < 2 ^ 64 then
        .ok (UInt64.ofNat (alignedlen page.toNat (nmemb.toNat * count.toNat)))
      else .err Errno.ERANGE := by
  have hmap : (safeAlignedlen page nmemb count).map UInt64.toNat = _ := map_safeAlignedlen nmemb count
  have hle := le_alignedlen (toNat_ne_zero hpage) (nmemb.toNat * count.toNat)
  simp only [Vk.safeAlignedlen_eq, le_SIZE_MAX] at hmap
  generalize alignedlen page.toNat (nmemb.toNat * count.toNat) = len at *
  refine eq_of_map (hmap.trans ?_)
  split
  · rfl
  · rename_i hlarge
    rw [if_neg fun hfits => hlarge (Nat.lt_of_le_of_lt hle hfits)]

/-- What was let through did not wrap. -/
theorem toNat_of_ok {r : SysResult UInt64} {n : Nat} {e : Errno} {v : UInt64}
    (h : r = if n < 2 ^ 64 then .ok (UInt64.ofNat n) else .err e) (hv : r = .ok v) : v.toNat = n := by
  rw [h] at hv
  split at hv
  · rename_i hfits
    rw [← SysResult.ok.inj hv, UInt64.toNat_ofNat_of_lt' hfits]
  · cases hv

theorem safeMult_ok {a b c : UInt64} (h : safeMult a b = .ok c) : c.toNat = a.toNat * b.toNat :=
  toNat_of_ok (safeMult_eq a b) h

theorem safeAlignedlen_ok (hpage : page ≠ 0) {nmemb count len : UInt64}
    (h : safeAlignedlen page nmemb count = .ok len) :
    len.toNat = alignedlen page.toNat (nmemb.toNat * count.toNat) :=
  toNat_of_ok (safeAlignedlen_eq hpage nmemb count) h

theorem safeAlignedlen_roundsUp (hpage : page ≠ 0) : RoundsUp page.toNat (safeAlignedlen page) :=
  fun nmemb count => ⟨_, isLeast_alignedlen (toNat_ne_zero hpage) _, safeAlignedlen_eq hpage nmemb count⟩

end Exact

end SizeT

namespace Huge

open SizeT (hugepagesize)

/-- The check for pages of no bytes never fails. -/
theorem pageBytes_ne_zero (st : Option Huge) : pageBytes st ≠ 0 := by
  cases st with
  | none => decide
  | some st =>
      simp only [pageBytes]
      split
      · assumption
      · decide

/-- The two ways to round up come to the same, for any size of the huge pages. -/
theorem alignedLen_eq (st : Option Huge) : alignedLen st = SizeT.safeAlignedlen (pageBytes st) := by
  funext nmemb count
  simp only [alignedLen, if_neg (pageBytes_ne_zero st), SizeT.safeAlignedlen, SizeT.safePagelen]
  generalize pageBytes st = page
  cases SizeT.safeMult nmemb count with
  | err e => rfl
  | ok len =>
      have hmod : len % page ≠ 0 ↔ len / page * page < len := by
        rw [UInt64.lt_iff_toNat_lt, SizeT.toNat_pages_mul, ne_eq, ← UInt64.toNat_inj, UInt64.toNat_mod]
        have hdiv := Nat.div_add_mod' len.toNat page.toNat
        show ¬len.toNat % page.toNat = 0 ↔ _
        omega
      dsimp only
      by_cases h : len / page * page < len
      · have hsum : (len / page).toNat + (1 : UInt64).toNat < 2 ^ 64 := by
          rw [UInt64.lt_iff_toNat_lt, SizeT.toNat_pages_mul] at h
          rw [UInt64.toNat_div]
          exact SizeT.pages_lt h
        rw [if_pos (hmod.mpr h), if_pos h, SizeT.safeAdd_eq, if_pos hsum]
      · rw [if_neg fun h' => h (hmod.mp h'), if_neg h]

end Huge

namespace SizeT

/-- **Lengths in whole pages are exact.**  For any size of the pages, a power of two or
not, and for huge pages too; and so are those of the tracker of huge pages where its
pages are of that size. -/
theorem alignedlens_exact {page : UInt64} (hpage : page ≠ 0) :
    RoundsUp page.toNat (safeAlignedlen page) ∧ RoundsUp (2 * 1024 * 1024) safeHugealignedlen ∧
      ∀ st, Huge.pageBytes st = hugepagesize → Huge.alignedLen st = safeHugealignedlen := by
  have hhuge : safeHugealignedlen = safeAlignedlen hugepagesize := rfl
  have hne : hugepagesize ≠ 0 := by decide
  refine ⟨safeAlignedlen_roundsUp hpage, ?_, fun st hst => ?_⟩
  · rw [hhuge]
    exact safeAlignedlen_roundsUp hne
  · rw [hhuge, Huge.alignedLen_eq, hst]

/-- With the pages that most systems have. -/
theorem alignedlens_exact_4096 :
    RoundsUp (4096 : UInt64).toNat (safeAlignedlen 4096) ∧ RoundsUp (2 * 1024 * 1024) safeHugealignedlen ∧
      ∀ st, Huge.pageBytes st = hugepagesize → Huge.alignedLen st = safeHugealignedlen :=
  alignedlens_exact (by decide)

end SizeT

end Vk

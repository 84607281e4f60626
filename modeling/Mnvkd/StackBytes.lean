/-
# `Mnvkd.StackBytes` — the micro-heap in the bytes of memory

`Mnvkd.Stack` has a word for each address.  Here the words lie in memory, eight bytes
below the address each, and what a caller of `vk_stack_push` writes into its block
is written into the same memory.

A push keeps the word of its block below the new cursor, which is in the block's last page.
It rounds the bytes asked for up to whole pages and adds nothing for the word, so there
is room for both only where the rounding leaves a word over.  And it adds the rounded
length to the cursor as pointers are added, so a length near the end of the numbers comes
back below the cursor, where the test for room lets it through.
-/
import Mnvkd.Stack
import Mnvkd.Lib.Image
import Mnvkd.Lib.Memory

namespace Vk

open Lib

/-! ## Words -/

/-- Where the word below an address begins, as `(size_t*)addr - 1` has it. -/
def wordPtr (addr : Nat) : Nat := (addr + (2 ^ 64 - 8)) % 2 ^ 64

/-- `((size_t*)addr)[-1]`. -/
def wordBelow (mem : Memory UInt8) (addr : Nat) : Nat :=
  Image.leValue 8 (mem.load (wordPtr addr) 8)

/-- `((size_t*)addr)[-1] = n`. -/
def setWordBelow (mem : Memory UInt8) (addr n : Nat) : Memory UInt8 :=
  mem.store (wordPtr addr) (Image.leBytes 8 n)

section Words
variable {mem mem' : Memory UInt8} {addr other n : Nat}

theorem wordPtr_eq (h : 8 ≤ addr) (hlt : addr < 2 ^ 64) : wordPtr addr = addr - 8 := by
  simp only [wordPtr]
  omega

theorem wordBelow_lt : wordBelow mem addr < 2 ^ 64 := Image.leValue_lt 8 _

/-- A word depends on its eight bytes. -/
theorem wordBelow_congr
    (h : ∀ x, wordPtr addr ≤ x → x < wordPtr addr + 8 → mem x = mem' x) :
    wordBelow mem addr = wordBelow mem' addr :=
  congrArg (Image.leValue 8) (Memory.load_congr h)

theorem wordBelow_setWordBelow (hn : n < 2 ^ 64) :
    wordBelow (setWordBelow mem addr n) addr = n := by
  have hload : (setWordBelow mem addr n).load (wordPtr addr) 8 = Image.leBytes 8 n := by
    have h := Memory.load_store mem (wordPtr addr) (Image.leBytes 8 n)
    rwa [Image.length_leBytes] at h
  have hvalue := Image.leValue_leBytes 8 n []
  rw [List.append_nil] at hvalue
  rw [wordBelow, hload, hvalue]
  exact Nat.mod_eq_of_lt hn

theorem setWordBelow_of_not_mem {x : Nat} (h : ¬(wordPtr addr ≤ x ∧ x < wordPtr addr + 8)) :
    setWordBelow mem addr n x = mem x := by
  refine Memory.store_of_not_mem _ _ _ ?_
  rwa [Image.length_leBytes]

theorem wordBelow_setWordBelow_of_disjoint
    (h : wordPtr addr + 8 ≤ wordPtr other ∨ wordPtr other + 8 ≤ wordPtr addr) :
    wordBelow (setWordBelow mem other n) addr = wordBelow mem addr := by
  refine wordBelow_congr fun x hlow hhigh => setWordBelow_of_not_mem ?_
  omega

/-- Another lowest byte makes another word. -/
theorem wordBelow_ne (h : mem' (wordPtr addr) ≠ mem (wordPtr addr)) :
    wordBelow mem' addr ≠ wordBelow mem addr := by
  intro heq
  have hlow : ∀ m : Memory UInt8, wordBelow m addr % 256 = (m (wordPtr addr)).toNat := by
    intro m
    have hlt : (m (wordPtr addr)).toNat < 256 := (m (wordPtr addr)).toNat_lt
    rw [wordBelow, Memory.load_succ]
    show ((m (wordPtr addr)).toNat + 256 * _) % 256 = _
    omega
  refine h (UInt8.toNat_inj.mp ?_)
  rw [← hlow mem', ← hlow mem, heq]

end Words

/-! ## The stack -/

/-- `struct vk_stack`, and the memory it lies in. -/
structure ByteStack where
  addrStart : Nat
  addrCursor : Nat
  addrStop : Nat
  mem : Memory UInt8

namespace ByteStack

/-- `vk_stack_init`. -/
def init (addr len : Nat) (mem : Memory UInt8) : ByteStack := ⟨addr, addr, addr + len, mem⟩

/-- `vk_stack_push`. -/
def push (page nmemb count : Nat) (s : ByteStack) : SysResult Nat × ByteStack :=
  match safeAlignedlen page nmemb count with
  | .err e => (.err e, s)
  | .ok len =>
      let cursor := (s.addrCursor + len) % 2 ^ 64
      if cursor ≤ s.addrStop then
        (.ok s.addrCursor, { s with addrCursor := cursor, mem := setWordBelow s.mem cursor len })
      else (.err Errno.ENOMEM, s)

/-- `vk_stack_pop`. -/
def pop (s : ByteStack) : SysResult Unit × ByteStack :=
  if s.addrCursor ≤ s.addrStart then (.err Errno.ERANGE, s)
  else
    let lenPtr := wordPtr s.addrCursor
    if lenPtr < s.addrStart then (.err Errno.ENOENT, s)
    else if lenPtr ≥ s.addrStop then (.err Errno.EINVAL, s)
    else
      let len := wordBelow s.mem s.addrCursor
      (.ok (), { s with addrCursor := (s.addrCursor + (2 ^ 64 - len)) % 2 ^ 64 })

/-- The cursor is in the stack, and the last page of the address space is not. -/
structure Inside (page : Nat) (s : ByteStack) : Prop where
  start : s.addrStart ≤ s.addrCursor
  stop : s.addrCursor ≤ s.addrStop
  last : s.addrStop + page ≤ 2 ^ 64

section Push
variable {page nmemb count : Nat} {s s' : ByteStack}

theorem safeAlignedlen_ok {len : Nat} (h : safeAlignedlen page nmemb count = .ok len) :
    len = alignedlen page (nmemb * count) ∧ len ≤ SIZE_MAX := by
  rw [safeAlignedlen_eq] at h
  split at h
  · split at h
    · rename_i hmax
      cases h
      exact ⟨rfl, hmax⟩
    · cases h
  · cases h

/-- The stack with a block of the length on it. -/
def pushed (len : Nat) (s : ByteStack) : ByteStack :=
  { s with
    addrCursor := (s.addrCursor + len) % 2 ^ 64
    mem := setWordBelow s.mem ((s.addrCursor + len) % 2 ^ 64) len }

@[simp] theorem pushed_addrStart (len : Nat) (s : ByteStack) :
    (s.pushed len).addrStart = s.addrStart := rfl

@[simp] theorem pushed_addrStop (len : Nat) (s : ByteStack) :
    (s.pushed len).addrStop = s.addrStop := rfl

@[simp] theorem pushed_addrCursor (len : Nat) (s : ByteStack) :
    (s.pushed len).addrCursor = (s.addrCursor + len) % 2 ^ 64 := by
  simp only [pushed]

@[simp] theorem pushed_mem (len : Nat) (s : ByteStack) :
    (s.pushed len).mem = setWordBelow s.mem ((s.addrCursor + len) % 2 ^ 64) len := by
  simp only [pushed]

/-- A push takes the rounded length where that is a number and the sum of pointers is in
the stack, and changes nothing otherwise. -/
theorem push_cases (hpage : 0 < page) (nmemb count : Nat) (s : ByteStack) :
    (alignedlen page (nmemb * count) < 2 ^ 64 ∧
        (s.addrCursor + alignedlen page (nmemb * count)) % 2 ^ 64 ≤ s.addrStop ∧
        s.push page nmemb count =
          (.ok s.addrCursor, s.pushed (alignedlen page (nmemb * count)))) ∨
      ((2 ^ 64 ≤ alignedlen page (nmemb * count) ∨
          s.addrStop < (s.addrCursor + alignedlen page (nmemb * count)) % 2 ^ 64) ∧
        ∃ e, s.push page nmemb count = (.err e, s)) := by
  have hle : nmemb * count ≤ alignedlen page (nmemb * count) := le_alignedlen hpage _
  have hmax : SIZE_MAX + 1 = 2 ^ 64 := rfl
  have hlen := safeAlignedlen_eq page nmemb count
  split at hlen
  · split at hlen
    · by_cases hroom : (s.addrCursor + alignedlen page (nmemb * count)) % 2 ^ 64 ≤ s.addrStop
      · refine Or.inl ⟨by omega, hroom, ?_⟩
        simp only [push, hlen, if_pos hroom]
        rfl
      · refine Or.inr ⟨Or.inr (Nat.lt_of_not_le hroom), Errno.ENOMEM, ?_⟩
        simp only [push, hlen, if_neg hroom]
    · exact Or.inr ⟨Or.inl (by omega), Errno.ERANGE, by simp only [push, hlen]⟩
  · exact Or.inr ⟨Or.inl (by omega), Errno.ERANGE, by simp only [push, hlen]⟩

/-! ## The cursor stays in the stack -/

/-- The rounded length takes the cursor past the end of the numbers, to an address the
test for room lets through. -/
def Wraps (page nmemb count : Nat) (s : ByteStack) : Prop :=
  alignedlen page (nmemb * count) < 2 ^ 64 ∧
    2 ^ 64 ≤ s.addrCursor + alignedlen page (nmemb * count) ∧
    s.addrCursor + alignedlen page (nmemb * count) ≤ s.addrStop + 2 ^ 64

/-- A push succeeds where there is room for the product, rounded up, as the product is
without an end of the numbers; where it fails it changes nothing; and the cursor stays in
the stack. -/
structure PushBounded (page nmemb count : Nat) (s : ByteStack) : Prop where
  room : (∃ addr, (s.push page nmemb count).1 = .ok addr) ↔
    alignedlen page (nmemb * count) ≤ s.addrStop - s.addrCursor
  unchanged : ∀ e, (s.push page nmemb count).1 = .err e → (s.push page nmemb count).2 = s
  start : s.addrStart ≤ (s.push page nmemb count).2.addrCursor
  stop : (s.push page nmemb count).2.addrCursor ≤ s.addrStop

/-- A push is bounded unless it wraps. -/
theorem pushBounded_iff (hpage : 0 < page) (h : s.Inside page) (nmemb count : Nat) :
    s.PushBounded page nmemb count ↔ ¬s.Wraps page nmemb count := by
  have hstart := h.start
  have hstop := h.stop
  have hlast := h.last
  obtain ⟨hmax, hroom, hpush⟩ | ⟨hroom, e, hpush⟩ := push_cases hpage nmemb count s
  · constructor
    · rintro hb ⟨-, hlow, -⟩
      have hfits := hb.room.mp ⟨_, congrArg Prod.fst hpush⟩
      omega
    · intro hwraps
      simp only [Wraps] at hwraps
      refine ⟨iff_of_true ⟨_, congrArg Prod.fst hpush⟩ (by omega), fun e he => ?_, ?_, ?_⟩
      · rw [hpush] at he
        cases he
      · rw [hpush]
        show s.addrStart ≤ (s.addrCursor + _) % 2 ^ 64
        omega
      · rw [hpush]
        exact hroom
  · have hfailed : (s.push page nmemb count).2 = s := congrArg Prod.snd hpush
    refine iff_of_true ⟨iff_of_false ?_ (by omega), fun _ _ => hfailed, ?_, ?_⟩ ?_
    · rintro ⟨addr, hok⟩
      rw [hpush] at hok
      cases hok
    · rw [hfailed]
      exact hstart
    · rw [hfailed]
      exact hstop
    · rintro ⟨hlt, hlow, hhigh⟩
      omega

end Push

/-! ## Calls -/

section Calls
variable (page : Nat)

def step : Stack.Call → ByteStack → Option ByteStack
  | .push nmemb count, s => some (s.push page nmemb count).2
  | .pop, s => some s.pop.2

/-- A call does what it should, and the cursor is in the stack before it and after. -/
def Bounded (c : Stack.Call) (s : ByteStack) : Prop :=
  (∀ nmemb count, c = .push nmemb count → s.PushBounded page nmemb count) ∧
    s.Inside page ∧ ∀ s', step page c s = some s' → s'.Inside page

def NoWrap (c : Stack.Call) (s : ByteStack) : Prop :=
  ∀ nmemb count, c = .push nmemb count → ¬s.Wraps page nmemb count

/-- There is a set of marks, whole pages above the start, with the cursor among them, and
the word below a mark leads to a mark that is not above it. -/
structure Marked (s : ByteStack) (mark : Nat → Prop) : Prop where
  cursor : mark s.addrCursor
  aligned : ∀ c, mark c → s.addrStart ≤ c ∧ c ≤ s.addrStop ∧ page ∣ c - s.addrStart
  link : ∀ c, mark c → s.addrStart < c →
    ∃ d, mark d ∧ d ≤ c ∧ wordBelow s.mem c = c - d
  last : s.addrStop + page ≤ 2 ^ 64

variable {page} {s s' : ByteStack} {c : Stack.Call} {mark : Nat → Prop}

theorem Marked.inside (h : s.Marked page mark) : s.Inside page := by
  obtain ⟨hlow, hhigh, -⟩ := h.aligned _ h.cursor
  exact ⟨hlow, hhigh, h.last⟩

/-- Addresses that are whole pages from one start are a page apart. -/
theorem page_apart {start a b : Nat} (ha : start ≤ a)
    (hda : page ∣ a - start) (hdb : page ∣ b - start) (hlt : a < b) : a + page ≤ b := by
  have hdvd : page ∣ (b - start) - (a - start) := Nat.dvd_sub hdb hda
  have hle := Nat.le_of_dvd (by omega) hdvd
  omega

theorem Marked.first (h : s.Marked page mark) {a : Nat} (ha : mark a) (hlt : s.addrStart < a) :
    s.addrStart + page ≤ a := by
  obtain ⟨-, -, hdvd⟩ := h.aligned a ha
  refine page_apart (Nat.le_refl _) ?_ hdvd hlt
  rw [Nat.sub_self]
  exact Nat.dvd_zero _

theorem Marked.top (h : s.Marked page mark) {len : Nat} (hdvd : page ∣ len) :
    page ∣ s.addrCursor + len - s.addrStart := by
  obtain ⟨hlow, -, hcursor⟩ := h.aligned _ h.cursor
  rw [Nat.sub_add_comm hlow]
  exact Nat.dvd_add hcursor hdvd

/-- The word below a new cursor is beside those below the marks, which are a page away
at least. -/
theorem Marked.word_pushed (hpage : 8 ≤ page) (h : s.Marked page mark) {len : Nat}
    (hdvd : page ∣ len) (hroom : s.addrCursor + len ≤ s.addrStop) {a : Nat} (ha : mark a)
    (hlt : s.addrStart < a) (hne : a ≠ s.addrCursor + len) :
    wordBelow (setWordBelow s.mem (s.addrCursor + len) len) a = wordBelow s.mem a := by
  have hlast := h.last
  have hfirst := h.first ha hlt
  have htop := h.top hdvd
  obtain ⟨hlow, -, -⟩ := h.aligned _ h.cursor
  obtain ⟨halow, hahigh, hadvd⟩ := h.aligned a ha
  refine wordBelow_setWordBelow_of_disjoint ?_
  rw [wordPtr_eq (show 8 ≤ a by omega) (by omega)]
  obtain hbelow | habove := Nat.lt_or_gt_of_ne hne
  · have hapart := page_apart halow hadvd htop hbelow
    rw [wordPtr_eq (by omega) (by omega)]
    omega
  · have hapart := page_apart (Nat.le_add_right_of_le hlow) htop hadvd habove
    simp only [wordPtr]
    omega

/-- A push that does not wrap makes the new cursor a mark. -/
theorem Marked.push (hpage : 8 ≤ page) (h : s.Marked page mark) {len : Nat}
    (hdvd : page ∣ len) (hroom : s.addrCursor + len ≤ s.addrStop) :
    (s.pushed len).Marked page fun c => mark c ∨ c = s.addrCursor + len := by
  have hlast := h.last
  have hmod : (s.addrCursor + len) % 2 ^ 64 = s.addrCursor + len := Nat.mod_eq_of_lt (by omega)
  obtain ⟨hlow, -, -⟩ := h.aligned _ h.cursor
  refine ⟨Or.inr hmod, ?_, ?_, hlast⟩
  · rintro c (hc | rfl)
    · exact h.aligned c hc
    · exact ⟨Nat.le_add_right_of_le hlow, hroom, h.top hdvd⟩
  · intro c hc hlt
    rw [pushed_mem, hmod]
    by_cases htop : c = s.addrCursor + len
    · refine ⟨s.addrCursor, Or.inl h.cursor, by omega, ?_⟩
      rw [htop, wordBelow_setWordBelow (by omega)]
      omega
    · obtain ⟨d, hd, hle, hword⟩ := h.link c (hc.resolve_right htop) hlt
      refine ⟨d, Or.inl hd, hle, ?_⟩
      rw [h.word_pushed hpage hdvd hroom (hc.resolve_right htop) hlt htop, hword]

/-- A pop goes from mark to mark. -/
theorem Marked.pop (hpage : 8 ≤ page) (h : s.Marked page mark) :
    s.pop.2.Marked page mark := by
  have hlast := h.last
  obtain ⟨hlow, hhigh, -⟩ := h.aligned _ h.cursor
  by_cases hempty : s.addrCursor ≤ s.addrStart
  · simp only [ByteStack.pop, if_pos hempty]
    exact h
  · have hlt : s.addrStart < s.addrCursor := Nat.lt_of_not_le hempty
    have hfirst := h.first h.cursor hlt
    obtain ⟨d, hd, hle, hword⟩ := h.link _ h.cursor hlt
    have hptr := wordPtr_eq (show 8 ≤ s.addrCursor by omega) (by omega)
    have hto : (s.addrCursor + (2 ^ 64 - (s.addrCursor - d))) % 2 ^ 64 = d := by omega
    simp only [ByteStack.pop, if_neg hempty, hptr, hword, hto]
    rw [if_neg (by omega), if_neg (by omega)]
    exact ⟨hd, h.aligned, h.link, hlast⟩

/-- A call that does not wrap keeps the marks. -/
theorem Marked.step (hpage : 8 ≤ page) (h : ∃ mark, s.Marked page mark) (hwrap : s.NoWrap page c)
    (hstep : step page c s = some s') : ∃ mark, s'.Marked page mark := by
  obtain ⟨mark, h⟩ := h
  cases c with
  | pop =>
      cases hstep
      exact ⟨mark, h.pop hpage⟩
  | push nmemb count =>
      cases hstep
      obtain ⟨hmax, hroom, hpush⟩ | ⟨-, e, hpush⟩ :=
        push_cases (show 0 < page by omega) nmemb count s
      · rw [hpush]
        have hwraps := hwrap nmemb count rfl
        have hinside := h.inside
        have hstop := hinside.stop
        have hlast := hinside.last
        simp only [Wraps] at hwraps
        exact ⟨_, h.push hpage (dvd_alignedlen page _) (by omega)⟩
      · rw [hpush]
        exact ⟨mark, h⟩

theorem init_marked {addr len : Nat} (hlast : addr + len + page ≤ 2 ^ 64)
    (mem : Memory UInt8) : (init addr len mem).Marked page (· = addr) where
  cursor := rfl
  aligned := by
    rintro c rfl
    exact ⟨Nat.le_refl _, Nat.le_add_right _ _, by
      rw [show (init c len mem).addrStart = c from rfl, Nat.sub_self]
      exact Nat.dvd_zero _⟩
  link := by
    rintro c rfl hlt
    exact absurd hlt (Nat.lt_irrefl _)
  last := hlast

/-- On marks a call does what it should exactly when it does not wrap. -/
theorem Marked.bounded_iff (hpage : 8 ≤ page) (h : ∃ mark, s.Marked page mark) :
    s.Bounded page c ↔ s.NoWrap page c := by
  have hinside : s.Inside page := h.elim fun mark hmark => hmark.inside
  constructor
  · rintro ⟨hpush, -, -⟩ nmemb count rfl
    exact (pushBounded_iff (by omega) hinside nmemb count).mp (hpush nmemb count rfl)
  · intro hwrap
    refine ⟨?_, hinside, fun s' hstep => ?_⟩
    · rintro nmemb count rfl
      exact (pushBounded_iff (by omega) hinside nmemb count).mpr (hwrap nmemb count rfl)
    · obtain ⟨mark, hmark⟩ := Marked.step hpage h hwrap hstep
      exact hmark.inside

end Calls

/-- **Pushes are bounded.**  On every stack whose cursor is in it a push succeeds just where
there is room for the product rounded up, changes nothing where it fails and leaves the
cursor in the stack, exactly when the rounded length does not wrap the cursor to an address
the test for room lets through; and through every sequence of pushes and pops the pushes
do and the cursor stays in the stack exactly when no push wraps. -/
theorem pushes_bounded {page : Nat} (hpage : 8 ≤ page) :
    (∀ (s : ByteStack) (nmemb count : Nat), s.Inside page →
      (s.PushBounded page nmemb count ↔ ¬s.Wraps page nmemb count)) ∧
    ∀ (addr len : Nat) (mem : Memory UInt8) (calls : List Stack.Call),
      addr + len + page ≤ 2 ^ 64 →
        (Meets (step page) (Bounded page) calls (init addr len mem) ↔
          Meets (step page) (NoWrap page) calls (init addr len mem)) := by
  refine ⟨fun s nmemb count h => pushBounded_iff (by omega) h nmemb count, ?_⟩
  intro addr len mem calls hlast
  exact Meets.congr (fun _ _ _ h hwrap hstep => Marked.step hpage h hwrap hstep)
    (fun _ _ h => Marked.bounded_iff hpage h) ⟨_, init_marked hlast mem⟩

/-- A stack of a few pages, with one of them taken. -/
theorem pushes_bounded_page :
    (PushBounded 4096 1 512 ⟨4096, 8192, 139264, fun _ => 0⟩ ↔
      ¬Wraps 4096 1 512 ⟨4096, 8192, 139264, fun _ => 0⟩) ∧
    (Meets (step 4096) (Bounded 4096) [.push 1 512, .push 16 4096, .pop]
        (init 4096 135168 fun _ => 0) ↔
      Meets (step 4096) (NoWrap 4096) [.push 1 512, .push 16 4096, .pop]
        (init 4096 135168 fun _ => 0)) :=
  ⟨(pushes_bounded (by decide)).1 _ _ _ ⟨by decide, by decide, by decide⟩,
    (pushes_bounded (by decide)).2 _ _ _ _ (by decide)⟩

/-- With one page taken, a push of all numbers but a page's worth goes back to the start
of the stack. -/
theorem long_push_wraps :
    ¬PushBounded 4096 1 (2 ^ 64 - 4096) ⟨4096, 8192, 139264, fun _ => 0⟩ := by
  intro h
  have hfits : alignedlen 4096 (1 * (2 ^ 64 - 4096)) ≤ 139264 - 8192 := h.room.mp ⟨8192, rfl⟩
  exact absurd hfits (by decide)

/-! ## What a caller writes -/

/-- The bytes from `addr` on that a caller asked for. -/
def InBlock (addr size x : Nat) : Prop := ∃ i < size, x = (addr + i) % 2 ^ 64

/-- Memory after a caller has written anything anywhere in its block. -/
def Written (addr size : Nat) (mem mem' : Memory UInt8) : Prop :=
  ∀ x, ¬InBlock addr size x → mem' x = mem x

/-- The stack over that memory. -/
def written (mem : Memory UInt8) (s : ByteStack) : ByteStack := { s with mem }

section Written
variable (mem : Memory UInt8) (s : ByteStack)

@[simp] theorem written_addrStart : (s.written mem).addrStart = s.addrStart := rfl
@[simp] theorem written_addrCursor : (s.written mem).addrCursor = s.addrCursor := rfl
@[simp] theorem written_addrStop : (s.written mem).addrStop = s.addrStop := rfl
@[simp] theorem written_mem : (s.written mem).mem = mem := rfl
@[simp] theorem written_self : s.written s.mem = s := rfl

end Written

/-- No byte of the word below the cursor is the caller's, and whatever the caller has
written a pop leads back to where the cursor was. -/
structure Separate (addr size mark : Nat) (s : ByteStack) : Prop where
  outside : ∀ k < 8, ¬InBlock addr size (wordPtr s.addrCursor + k)
  restores : ∀ mem, Written addr size s.mem mem →
    (s.written mem).pop.2.addrCursor = mark

section Block
variable {page nmemb count : Nat} {s s' : ByteStack}

/-- A block leaves room for its word: it has no bytes, or its pages have eight more than
were asked for, and the word is in the stack where the cursor has wrapped. -/
def LeavesWord (page nmemb count : Nat) (s : ByteStack) : Prop :=
  nmemb * count = 0 ∨
    (nmemb * count + 8 ≤ alignedlen page (nmemb * count) ∧
      (s.addrCursor + alignedlen page (nmemb * count) < 2 ^ 64 ∨
        s.addrStart + 8 + 2 ^ 64 ≤ s.addrCursor + alignedlen page (nmemb * count)))

/-- A pop that moves the cursor found a word in the stack. -/
theorem pop_moves (h : s.pop.2.addrCursor ≠ s.addrCursor) :
    s.addrStart < s.addrCursor ∧ s.addrStart ≤ wordPtr s.addrCursor ∧
      wordPtr s.addrCursor < s.addrStop := by
  simp only [pop] at h
  split at h
  · exact absurd rfl h
  · split at h
    · exact absurd rfl h
    · split at h
      · exact absurd rfl h
      · omega

theorem pop_of_word (hlow : s.addrStart < s.addrCursor)
    (hptr : s.addrStart ≤ wordPtr s.addrCursor) (hstop : wordPtr s.addrCursor < s.addrStop) :
    s.pop.2.addrCursor = (s.addrCursor + (2 ^ 64 - wordBelow s.mem s.addrCursor)) % 2 ^ 64 := by
  simp only [pop, if_neg (Nat.not_le_of_lt hlow), if_neg (Nat.not_lt_of_le hptr),
    if_neg (Nat.not_le_of_lt hstop)]

/-- What leads back to one address from another is one word. -/
theorem back_inj {cursor a b : Nat} (ha : a < 2 ^ 64) (hb : b < 2 ^ 64)
    (h : (cursor + (2 ^ 64 - a)) % 2 ^ 64 = (cursor + (2 ^ 64 - b)) % 2 ^ 64) : a = b := by
  omega

/-- A block of no bytes has none to write to, and its word is 0 or not in the stack. -/
theorem separate_empty (hcursor : s.addrCursor < 2 ^ 64) :
    (s.pushed 0).Separate s.addrCursor 0 s.addrCursor := by
  have hempty : ∀ x, ¬InBlock s.addrCursor 0 x := by
    rintro x ⟨i, hi, -⟩
    exact absurd hi (Nat.not_lt_zero i)
  have hstay : (s.pushed 0).addrCursor = s.addrCursor := by
    rw [pushed_addrCursor, Nat.add_zero]
    exact Nat.mod_eq_of_lt hcursor
  refine ⟨fun k _ => hempty _, fun mem hmem => ?_⟩
  obtain rfl : mem = (s.pushed 0).mem := funext fun x => hmem x (hempty x)
  rw [written_self]
  by_contra hmoved
  rw [← hstay] at hmoved
  obtain ⟨hlow, hptr, hstop⟩ := pop_moves hmoved
  refine hmoved ?_
  have hword : wordBelow (s.pushed 0).mem (s.pushed 0).addrCursor = 0 := by
    rw [pushed_mem, pushed_addrCursor]
    exact wordBelow_setWordBelow (by decide)
  rw [pop_of_word hlow hptr hstop, hword, hstay]
  omega

/-- A caller can change every byte of its block. -/
theorem exists_written {addr size x : Nat} (mem : Memory UInt8) (hx : InBlock addr size x) :
    ∃ mem', mem' x ≠ mem x ∧ Written addr size mem mem' := by
  refine ⟨Function.update mem x (mem x + 1), ?_, fun y hy => Function.update_of_ne ?_ _ _⟩
  · rw [Function.update_self]
    intro heq
    simp at heq
  · rintro rfl
    exact hy hx

variable {len size : Nat}

/-- If whatever is written to a block a pop leads back over it, its word is in the stack
and no byte of it is the caller's, who could change its lowest byte. -/
theorem leavesWord_of_restores (hpage : 8 ≤ page) (h : s.Inside page) (hlen : page ≤ len)
    (hmax : len < 2 ^ 64)
    (hrestores : ∀ mem, Written s.addrCursor size (s.pushed len).mem mem →
      ((s.pushed len).written mem).pop.2.addrCursor = s.addrCursor) :
    size + 8 ≤ len ∧
      (s.addrCursor + len < 2 ^ 64 ∨ s.addrStart + 8 + 2 ^ 64 ≤ s.addrCursor + len) := by
  have hlast := h.last
  have hstop := h.stop
  have hstart := h.start
  have hback := hrestores (s.pushed len).mem fun _ _ => rfl
  rw [written_self] at hback
  have hmoved : (s.pushed len).pop.2.addrCursor ≠ (s.pushed len).addrCursor := by
    rw [hback, pushed_addrCursor]
    omega
  obtain ⟨hlow, hptr, htop⟩ := pop_moves hmoved
  have hword := pop_of_word hlow hptr htop
  have hto : wordPtr (s.pushed len).addrCursor =
      ((s.addrCursor + len) % 2 ^ 64 + (2 ^ 64 - 8)) % 2 ^ 64 := by
    rw [pushed_addrCursor, wordPtr]
  have hcursor := pushed_addrCursor len s
  rw [pushed_addrStart] at hlow hptr
  rw [pushed_addrStop] at htop
  refine ⟨?_, by omega⟩
  by_contra hin
  -- then the lowest byte of the word is in the block
  have hblock : InBlock s.addrCursor size (wordPtr (s.pushed len).addrCursor) :=
    ⟨len - 8, by omega, by omega⟩
  obtain ⟨mem, hother, hwritten⟩ := exists_written (s.pushed len).mem hblock
  have hmem : ((s.pushed len).written mem).pop.2.addrCursor = s.addrCursor :=
    hrestores mem hwritten
  rw [pop_of_word (s := (s.pushed len).written mem) hlow hptr htop, written_addrCursor,
    written_mem] at hmem
  rw [hback] at hword
  exact wordBelow_ne hother (back_inj wordBelow_lt wordBelow_lt (hmem.trans hword))

/-- Where the word is in the stack and no byte of it the caller's, a pop finds it. -/
theorem separate_of_leavesWord (hpage : 8 ≤ page) (h : s.Inside page) (hlen : page ≤ len)
    (hmax : len < 2 ^ 64) (hroom : (s.addrCursor + len) % 2 ^ 64 ≤ s.addrStop)
    (hsize : size + 8 ≤ len)
    (hwrap : s.addrCursor + len < 2 ^ 64 ∨ s.addrStart + 8 + 2 ^ 64 ≤ s.addrCursor + len) :
    (s.pushed len).Separate s.addrCursor size s.addrCursor := by
  have hlast := h.last
  have hstop := h.stop
  have hstart := h.start
  have hptr : wordPtr ((s.addrCursor + len) % 2 ^ 64) = (s.addrCursor + len) % 2 ^ 64 - 8 :=
    wordPtr_eq (by omega) (by omega)
  have houtside : ∀ k < 8, ¬InBlock s.addrCursor size
      (wordPtr ((s.addrCursor + len) % 2 ^ 64) + k) := by
    rintro k hk ⟨i, hi, heq⟩
    omega
  refine ⟨by rwa [pushed_addrCursor], fun mem hmem => ?_⟩
  have hword : wordBelow mem ((s.addrCursor + len) % 2 ^ 64) = len := by
    refine Eq.trans (wordBelow_congr fun x hlow hhigh => ?_)
      (@wordBelow_setWordBelow s.mem ((s.addrCursor + len) % 2 ^ 64) len hmax)
    rw [hmem x, pushed_mem]
    obtain ⟨k, rfl⟩ := Nat.exists_eq_add_of_le hlow
    exact houtside k (by omega)
  rw [pop_of_word, written_addrCursor, written_mem, pushed_addrCursor, hword]
  · omega
  · rw [written_addrStart, written_addrCursor, pushed_addrStart, pushed_addrCursor]
    omega
  · rw [written_addrStart, written_addrCursor, pushed_addrStart, pushed_addrCursor, hptr]
    omega
  · rw [written_addrStop, written_addrCursor, pushed_addrStop, pushed_addrCursor, hptr]
    omega

end Block

/-- **Client data and the allocator's words.**  After a push that succeeded the word below
the cursor has no byte in the block handed out, and a pop restores the cursor whatever
is written to the block, exactly when the block has no bytes or the whole pages of it
have room for the word behind the bytes asked for, in the stack. -/
theorem push_separate_iff {page nmemb count addr : Nat} {s s' : ByteStack} (hpage : 8 ≤ page)
    (h : s.Inside page) (hpush : s.push page nmemb count = (.ok addr, s')) :
    s'.Separate addr (nmemb * count) s.addrCursor ↔ s.LeavesWord page nmemb count := by
  have hcursor : s.addrCursor < 2 ^ 64 := by
    have hstop := h.stop
    have hlast := h.last
    omega
  obtain ⟨hmax, hroom, heq⟩ | ⟨-, e, heq⟩ := push_cases (show 0 < page by omega) nmemb count s
  · rw [heq] at hpush
    cases hpush
    simp only [LeavesWord]
    generalize nmemb * count = size at *
    by_cases hempty : size = 0
    · subst hempty
      rw [alignedlen_zero]
      exact iff_of_true (separate_empty hcursor) (Or.inl rfl)
    · have hlen : page ≤ alignedlen page size := alignedlen_pos (by omega) hempty
      constructor
      · intro hsep
        exact Or.inr (leavesWord_of_restores hpage h hlen hmax hsep.restores)
      · rintro (hzero | ⟨hsize, hwrap⟩)
        · exact absurd hzero hempty
        · exact separate_of_leavesWord hpage h hlen hmax hroom hsize hwrap
  · rw [heq] at hpush
    cases hpush

/-- A socket's worth of bytes leaves most of its page. -/
theorem push_separate_socket :
    (push 4096 1 512 ⟨4096, 8192, 139264, fun _ => 0⟩).2.Separate 8192 (1 * 512) 8192 ↔
      LeavesWord 4096 1 512 ⟨4096, 8192, 139264, fun _ => 0⟩ :=
  @push_separate_iff 4096 1 512 8192 ⟨4096, 8192, 139264, fun _ => 0⟩ _ (by decide)
    ⟨by decide, by decide, by decide⟩ rfl

/-- Of a block of a whole page the last eight bytes are the word, and zeroes written there
leave the cursor where it is. -/
theorem full_page_loses_word :
    ¬(push 4096 1 4096 ⟨4096, 4096, 139264, fun _ => 0⟩).2.Separate 4096 (1 * 4096) 4096 := by
  intro h
  have hzero : Written 4096 (1 * 4096) (setWordBelow (fun _ => 0) 8192 4096) fun _ => 0 := by
    intro x hx
    refine Eq.symm (@setWordBelow_of_not_mem (fun _ => 0) 8192 4096 x ?_)
    rintro ⟨hlow, hhigh⟩
    have hptr : wordPtr 8192 = 8184 := rfl
    exact hx ⟨x - 4096, by omega, by omega⟩
  exact absurd (h.restores (fun _ => 0) hzero) (by decide)

/-! ## The stack of words -/

section Words
variable {page nmemb count : Nat} {s s' : ByteStack} {t : Stack} {mark : Nat → Prop}

/-- A stack of words has the cursor where the stack of bytes has it, and below each mark
the word that is there. -/
structure Shows (page : Nat) (mark : Nat → Prop) (s : ByteStack) (t : Stack) : Prop where
  marked : s.Marked page mark
  start : t.addrStart = s.addrStart
  cursor : t.addrCursor = s.addrCursor
  stop : t.addrStop = s.addrStop
  word : ∀ c, mark c → s.addrStart < c → t.link c = wordBelow s.mem c

/-- A push that does not wrap returns the same on both, and the one still shows the
other. -/
theorem Shows.push (hpage : 8 ≤ page) (h : Shows page mark s t)
    (hwraps : ¬s.Wraps page nmemb count) :
    (t.push page nmemb count).1 = (s.push page nmemb count).1 ∧
      ∃ mark', Shows page mark' (s.push page nmemb count).2 (t.push page nmemb count).2 := by
  have hstart := h.start
  have hcursor := h.cursor
  have hstop := h.stop
  have hinside := h.marked.inside
  have hlast := hinside.last
  have hroomt : (t.addrCursor + alignedlen page (nmemb * count)) % 2 ^ 64 ≤ t.addrStop ↔
      (s.addrCursor + alignedlen page (nmemb * count)) % 2 ^ 64 ≤ s.addrStop := by
    rw [hcursor, hstop]
  cases hlen : safeAlignedlen page nmemb count with
  | err e =>
      simp only [Stack.push, ByteStack.push, hlen]
      exact ⟨trivial, mark, h⟩
  | ok len =>
      obtain ⟨rfl, hmax⟩ := safeAlignedlen_ok hlen
      by_cases hroom : (s.addrCursor + alignedlen page (nmemb * count)) % 2 ^ 64 ≤ s.addrStop
      · have hfits : s.addrCursor + alignedlen page (nmemb * count) ≤ s.addrStop := by
          simp only [Wraps] at hwraps
          simp only [SIZE_MAX] at hmax
          have hlow := hinside.stop
          omega
        have hpushed := h.marked.push hpage (dvd_alignedlen page _) hfits
        simp only [Stack.push, ByteStack.push, hlen, if_pos hroom, if_pos (hroomt.mpr hroom)]
        refine ⟨congrArg _ hcursor, _, hpushed, hstart, ?_, hstop, ?_⟩
        · simp only [hcursor]
        · intro c hc hlt
          have hmod : (s.addrCursor + alignedlen page (nmemb * count)) % 2 ^ 64 =
              s.addrCursor + alignedlen page (nmemb * count) := Nat.mod_eq_of_lt (by omega)
          simp only [hcursor, hmod]
          by_cases htop : c = s.addrCursor + alignedlen page (nmemb * count)
          · rw [htop, Function.update_self, wordBelow_setWordBelow (by omega)]
          · have hmark := hc.resolve_right htop
            rw [Function.update_of_ne htop, h.word c hmark hlt]
            exact (h.marked.word_pushed hpage (dvd_alignedlen page _) hfits hmark hlt htop).symm
      · simp only [Stack.push, ByteStack.push, hlen, if_neg hroom,
          if_neg (fun hroom' => hroom (hroomt.mp hroom'))]
        exact ⟨trivial, mark, h⟩

theorem Shows.pop (hpage : 8 ≤ page) (h : Shows page mark s t) :
    t.pop.1 = s.pop.1 ∧ Shows page mark s.pop.2 t.pop.2 := by
  have hstart := h.start
  have hcursor := h.cursor
  have hstop := h.stop
  have hinside := h.marked.inside
  by_cases hempty : s.addrCursor ≤ s.addrStart
  · simp only [Stack.pop, ByteStack.pop, hstart, hcursor, if_pos hempty]
    exact ⟨trivial, h⟩
  · have hfirst := h.marked.first h.marked.cursor (Nat.lt_of_not_le hempty)
    have hlow := hinside.stop
    have hlast := hinside.last
    have hpopped := h.marked.pop hpage
    have hptr := wordPtr_eq (show 8 ≤ s.addrCursor by omega) (by omega)
    have hstartptr : ¬s.addrCursor - 8 < s.addrStart := by omega
    have hstopptr : ¬s.addrCursor - 8 ≥ s.addrStop := by omega
    have hword := h.word _ h.marked.cursor (Nat.lt_of_not_le hempty)
    simp only [ByteStack.pop, if_neg hempty, hptr, if_neg hstartptr, if_neg hstopptr] at hpopped
    simp only [Stack.pop, ByteStack.pop, hstart, hcursor, hstop, if_neg hempty, hptr,
      if_neg hstartptr, if_neg hstopptr, hword]
    exact ⟨trivial, hpopped, rfl, rfl, rfl, h.word⟩

/-- Through calls that do not wrap the stack of words goes the same way as the stack of
bytes. -/
theorem Shows.run (hpage : 8 ≤ page) {calls : List Stack.Call} {t : Stack.Traced}
    (h : Shows page mark s t.stack) (hwrap : Meets (step page) (NoWrap page) calls s)
    (hrun : Lib.run (step page) calls s = some s') :
    ∃ t' mark', Lib.run (Stack.Traced.step page) calls t = some t' ∧
      Shows page mark' s' t'.stack := by
  induction calls generalizing s t mark with
  | nil =>
      cases hrun
      exact ⟨t, mark, rfl, h⟩
  | cons c calls ih =>
      obtain ⟨next, hstep, hrest⟩ := (run_cons (step page)).mp hrun
      have hnext : ∃ u mark', Stack.Traced.step page c t = some u ∧
          Shows page mark' next u.stack := by
        cases c with
        | pop =>
            cases hstep
            exact ⟨_, mark, rfl, (h.pop hpage).2⟩
        | push nmemb count =>
            cases hstep
            obtain ⟨-, mark', hshows⟩ := h.push hpage (hwrap.1 nmemb count rfl)
            cases hpush : t.stack.push page nmemb count with
            | mk result stack =>
                rw [hpush] at hshows
                cases result with
                | err e =>
                    exact ⟨⟨stack, t.live⟩, mark', by simp only [Stack.Traced.step, hpush], hshows⟩
                | ok addr => exact ⟨_, mark', Stack.Traced.step_push hpush, hshows⟩
      obtain ⟨u, mark', hu, hshows⟩ := hnext
      obtain ⟨t', mark'', hrunt, hlast⟩ := ih hshows (hwrap.2 next hstep) hrest
      exact ⟨t', mark'', (run_cons _).mpr ⟨u, hu, hrunt⟩, hlast⟩

end Words

end ByteStack

end Vk

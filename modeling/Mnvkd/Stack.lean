/-
# `Mnvkd.Stack` — the micro-heap of a process

All the coroutines of a process keep their state in one stack.  A push rounds its
length up to whole pages and writes the rounded length into the word just below the new
cursor, which is the last word of the block; a pop finds its way back by that word.

A block of no bytes has no page, so its length goes over that of the block below, which
is then covered: a pop of it moves the cursor nowhere.  As long as no covered block is
popped the words lead from the cursor back to the start, block by block (`Chain`).
-/
import Mnvkd.Sys
import Mnvkd.Lib.Run

namespace Vk

open Lib

namespace Errno
def ENOENT : Errno := 2
def ENOMEM : Errno := 12
end Errno

/-! ## Lengths that do not wrap -/

def SIZE_MAX : Nat := 2 ^ 64 - 1

/-- The square root of `SIZE_MAX + 1`. -/
def MUL_NO_OVERFLOW : Nat := 2 ^ 32

/-- `vk_wrapguard_mult`. -/
def wrapguardMult (a b : Nat) : SysResult Unit :=
  if (a ≥ MUL_NO_OVERFLOW ∨ b ≥ MUL_NO_OVERFLOW) ∧ a > 0 ∧ SIZE_MAX / a < b then .err Errno.ERANGE
  else .ok ()

/-- `vk_safe_mult`. -/
def safeMult (a b : Nat) : SysResult Nat :=
  match wrapguardMult a b with
  | .err e => .err e
  | .ok () => .ok (a * b % 2 ^ 64)

/-- The guard lets through the products that fit, and no others. -/
theorem safeMult_eq (a b : Nat) :
    safeMult a b = if a * b ≤ SIZE_MAX then .ok (a * b) else .err Errno.ERANGE := by
  have hfits : a * b ≤ SIZE_MAX →
      safeMult a b = .ok (a * b % 2 ^ 64) ∧ a * b % 2 ^ 64 = a * b := by
    intro h
    refine ⟨?_, Nat.mod_eq_of_lt (Nat.lt_of_le_of_lt h (by decide))⟩
    have hguard : ¬((a ≥ MUL_NO_OVERFLOW ∨ b ≥ MUL_NO_OVERFLOW) ∧ a > 0 ∧ SIZE_MAX / a < b) := by
      rintro ⟨-, ha, hlt⟩
      have hle : b ≤ SIZE_MAX / a := (Nat.le_div_iff_mul_le ha).mpr (Nat.mul_comm b a ▸ h)
      omega
    simp only [safeMult, wrapguardMult, if_neg hguard]
  split
  · rename_i h
    obtain ⟨heq, hmod⟩ := hfits h
    rw [heq, hmod]
  · rename_i h
    have ha : a > 0 := by
      apply Nat.pos_of_ne_zero
      rintro rfl
      exact h (by rw [Nat.zero_mul]; exact Nat.zero_le _)
    have hlt : SIZE_MAX / a < b := by
      rw [Nat.div_lt_iff_lt_mul ha, Nat.mul_comm]
      exact Nat.lt_of_not_le h
    have hlarge : a ≥ MUL_NO_OVERFLOW ∨ b ≥ MUL_NO_OVERFLOW := by
      by_contra hsmall
      obtain ⟨ha', hb'⟩ := not_or.mp hsmall
      have hle : a * b ≤ (MUL_NO_OVERFLOW - 1) * (MUL_NO_OVERFLOW - 1) :=
        Nat.mul_le_mul (by omega) (by omega)
      exact h (Nat.le_trans hle (by decide))
    have hguard : (a ≥ MUL_NO_OVERFLOW ∨ b ≥ MUL_NO_OVERFLOW) ∧ a > 0 ∧ SIZE_MAX / a < b :=
      ⟨hlarge, ha, hlt⟩
    simp only [safeMult, wrapguardMult, if_pos hguard]

section Pages
variable (page : Nat)

/-- `vk_safe_pagelen`. -/
def safePagelen (nmemb count : Nat) : SysResult Nat :=
  match safeMult nmemb count with
  | .err e => .err e
  | .ok len =>
      let pagelen := len / page
      .ok (if pagelen * page < len then pagelen + 1 else pagelen)

/-- `vk_safe_alignedlen`. -/
def safeAlignedlen (nmemb count : Nat) : SysResult Nat :=
  match safePagelen page nmemb count with
  | .err e => .err e
  | .ok pagelen => safeMult pagelen page

/-- A length rounded up to whole pages. -/
def alignedlen (len : Nat) : Nat :=
  (if len / page * page < len then len / page + 1 else len / page) * page

theorem safeAlignedlen_eq (nmemb count : Nat) :
    safeAlignedlen page nmemb count =
      if nmemb * count ≤ SIZE_MAX then
        if alignedlen page (nmemb * count) ≤ SIZE_MAX then .ok (alignedlen page (nmemb * count))
        else .err Errno.ERANGE
      else .err Errno.ERANGE := by
  by_cases h : nmemb * count ≤ SIZE_MAX
  · simp only [safeAlignedlen, safePagelen, safeMult_eq nmemb count, if_pos h]
    exact safeMult_eq _ _
  · simp only [safeAlignedlen, safePagelen, safeMult_eq nmemb count, if_neg h]

theorem dvd_alignedlen (len : Nat) : page ∣ alignedlen page len := Nat.dvd_mul_left _ _

theorem alignedlen_zero : alignedlen page 0 = 0 := by
  simp only [alignedlen, Nat.zero_div, Nat.zero_mul, Nat.lt_irrefl, if_false]

variable {page}

theorem le_alignedlen (hpage : 0 < page) (len : Nat) : len ≤ alignedlen page len := by
  have hmod : len / page * page + len % page = len := by
    rw [Nat.mul_comm]
    exact Nat.div_add_mod _ _
  have hlt : len % page < page := Nat.mod_lt _ hpage
  simp only [alignedlen]
  split
  · rw [Nat.succ_mul]
    omega
  · rename_i hle
    exact Nat.le_of_not_lt hle

/-- Less than a page is added. -/
theorem alignedlen_lt (hpage : 0 < page) (len : Nat) : alignedlen page len < len + page := by
  have hle : len / page * page ≤ len := Nat.div_mul_le_self _ _
  simp only [alignedlen]
  split
  · rw [Nat.succ_mul]
    omega
  · omega

/-- Only no bytes take no pages. -/
theorem alignedlen_pos (hpage : 0 < page) {len : Nat} (hlen : len ≠ 0) :
    page ≤ alignedlen page len := by
  have hpos : 0 < alignedlen page len :=
    Nat.lt_of_lt_of_le (Nat.pos_of_ne_zero hlen) (le_alignedlen hpage len)
  exact Nat.le_of_dvd hpos (dvd_alignedlen page len)

end Pages

/-! ## The stack -/

/-- `struct vk_stack` and, for each address, the word that ends there. -/
structure Stack where
  addrStart : Nat
  addrCursor : Nat
  addrStop : Nat
  link : Nat → Nat

namespace Stack

/-- `vk_stack_init`, over words that are anything. -/
def init (addr len : Nat) (link : Nat → Nat) : Stack := ⟨addr, addr, addr + len, link⟩

/-- `vk_stack_push`.  A pointer wraps as a word does. -/
def push (page nmemb count : Nat) (s : Stack) : SysResult Nat × Stack :=
  match safeAlignedlen page nmemb count with
  | .err e => (.err e, s)
  | .ok len =>
      let cursor := (s.addrCursor + len) % 2 ^ 64
      if cursor ≤ s.addrStop then
        (.ok s.addrCursor,
          { s with addrCursor := cursor, link := Function.update s.link cursor len })
      else (.err Errno.ENOMEM, s)

/-- `vk_stack_pop`. -/
def pop (s : Stack) : SysResult Unit × Stack :=
  if s.addrCursor ≤ s.addrStart then (.err Errno.ERANGE, s)
  else
    let lenPtr := s.addrCursor - 8
    if lenPtr < s.addrStart then (.err Errno.ENOENT, s)
    else if lenPtr ≥ s.addrStop then (.err Errno.EINVAL, s)
    else
      let len := s.link s.addrCursor
      (.ok (), { s with addrCursor := (s.addrCursor + (2 ^ 64 - len)) % 2 ^ 64 })

/-! ## Calls, and the blocks that are not yet popped -/

/-- What a push returned.  `mark` is where the cursor was, `size` how many bytes were
asked for; `covered` is set when the block's last word has been written over. -/
structure Allocation where
  mark : Nat
  addr : Nat
  size : Nat
  covered : Bool
  deriving DecidableEq, Repr

/-- The last word of the topmost block that has one is written over. -/
def cover : List Allocation → List Allocation
  | [] => []
  | b :: rest => if b.size = 0 then b :: cover rest else { b with covered := true } :: rest

/-- A stack with what was pushed on it and not yet popped, the latest first. -/
structure Traced where
  stack : Stack
  live : List Allocation

inductive Call where
  | push (nmemb count : Nat)
  | pop
  deriving DecidableEq, Repr

namespace Traced

/-- One call.  A push that fails pushes nothing. -/
def step (page : Nat) : Call → Traced → Option Traced
  | .push nmemb count, t =>
      match t.stack.push page nmemb count with
      | (.err _, stack) => some { t with stack }
      | (.ok addr, stack) =>
          let b : Allocation := ⟨t.stack.addrCursor, addr, nmemb * count, false⟩
          some ⟨stack, b :: if nmemb * count = 0 then cover t.live else t.live⟩
  | .pop, t => some ⟨t.stack.pop.2, t.live.tail⟩

def init (addr len : Nat) (link : Nat → Nat) : Traced := ⟨.init addr len link, []⟩

/-- The blocks share no byte, and lie in the stack. -/
structure Separate (t : Traced) : Prop where
  disjoint : t.live.Pairwise fun a b => ∀ x,
    ¬((a.addr ≤ x ∧ x < a.addr + a.size) ∧ (b.addr ≤ x ∧ x < b.addr + b.size))
  inside : ∀ b ∈ t.live, t.stack.addrStart ≤ b.addr ∧ b.addr + b.size ≤ t.stack.addrStop

/-- A pop restores the cursor, and a call leaves the blocks separate. -/
def Kept (page : Nat) (c : Call) (t : Traced) : Prop :=
  (c = .pop → ∀ b ∈ t.live.head?, t.stack.pop.2.addrCursor = b.mark) ∧
    ∀ t', step page c t = some t' → t'.Separate

/-- Whether the cursor would wrap to an address the test for room lets through. -/
def wraps (page nmemb count : Nat) (t : Traced) : Bool :=
  match safeAlignedlen page nmemb count with
  | .err _ => false
  | .ok len =>
      2 ^ 64 ≤ t.stack.addrCursor + len && t.stack.addrCursor + len ≤ t.stack.addrStop + 2 ^ 64

/-- The call does not wrap the cursor, and does not pop a covered block. -/
def Clear (page : Nat) : Call → Traced → Prop
  | .push nmemb count, t => wraps page nmemb count t = false
  | .pop, t => ∀ b ∈ t.live.head?, b.covered = false

end Traced

/-! ## The chain of links -/

section Chain
variable (page : Nat)

/-- The words lead from the cursor back to the start, over every live block.  A covered
block's word is 0. -/
def Chain (link : Nat → Nat) (start : Nat) : List Allocation → Nat → Prop
  | [], cursor => cursor = start
  | b :: rest, cursor =>
      (b.addr = b.mark ∧ (b.covered = true → b.size ≠ 0)) ∧
        cursor = b.addr + alignedlen page b.size ∧
        link cursor = (if b.covered then 0 else alignedlen page b.size) ∧
        Chain link start rest b.addr

variable {page} {link link' : Nat → Nat} {start cursor : Nat} {live : List Allocation}

/-- The cursor is at the start, or a page above it at least. -/
theorem Chain.page_le (hpage : 0 < page) (h : Chain page link start live cursor) :
    cursor = start ∨ start + page ≤ cursor := by
  induction live generalizing cursor with
  | nil => exact Or.inl h
  | cons b rest ih =>
      obtain ⟨-, hcursor, -, hrest⟩ := h
      by_cases hsize : b.size = 0
      · rw [hsize, alignedlen_zero] at hcursor
        exact hcursor ▸ ih hrest
      · have hlen : page ≤ alignedlen page b.size := alignedlen_pos hpage hsize
        have hstart := ih hrest
        omega

theorem Chain.start_le (hpage : 0 < page) (h : Chain page link start live cursor) :
    start ≤ cursor := by
  have hcursor := h.page_le hpage
  omega

/-- Words above the cursor do not matter. -/
theorem Chain.congr (h : Chain page link start live cursor)
    (hlink : ∀ x, x ≤ cursor → link' x = link x) : Chain page link' start live cursor := by
  induction live generalizing cursor with
  | nil => exact h
  | cons b rest ih =>
      obtain ⟨hb, hcursor, hword, hrest⟩ := h
      refine ⟨hb, hcursor, (hlink _ (Nat.le_refl _)).trans hword, ih hrest fun x hx => hlink x ?_⟩
      omega

/-- A block of no bytes leaves the word of the block below 0. -/
theorem Chain.cover (hpage : 0 < page) (h : Chain page link start live cursor) :
    Chain page (Function.update link cursor 0) start (cover live) cursor := by
  induction live generalizing cursor with
  | nil => exact h
  | cons b rest ih =>
      obtain ⟨hb, hcursor, hword, hrest⟩ := h
      by_cases hsize : b.size = 0
      · have haddr : cursor = b.addr := by
          rw [hcursor, hsize, alignedlen_zero, Nat.add_zero]
        have hzero : (if b.covered then 0 else alignedlen page b.size) = 0 := by
          rw [hsize, alignedlen_zero, ite_self]
        simp only [Stack.cover, if_pos hsize]
        refine ⟨hb, hcursor, ?_, ?_⟩
        · rw [Function.update_self, hzero]
        · rw [haddr]
          exact ih hrest
      · have hlen : page ≤ alignedlen page b.size := alignedlen_pos hpage hsize
        simp only [Stack.cover, if_neg hsize]
        refine ⟨⟨hb.1, fun _ => hsize⟩, hcursor, ?_, ?_⟩
        · rw [Function.update_self, if_pos rfl]
        · refine hrest.congr fun x hx => Function.update_of_ne ?_ _ _
          omega

/-- Every block lies between the start and the cursor. -/
theorem Chain.inside (hpage : 0 < page) (h : Chain page link start live cursor) :
    ∀ b ∈ live, start ≤ b.addr ∧ b.addr + b.size ≤ cursor := by
  induction live generalizing cursor with
  | nil =>
      intro b hb
      cases hb
  | cons a rest ih =>
      obtain ⟨-, hcursor, -, hrest⟩ := h
      have hsize : a.size ≤ alignedlen page a.size := le_alignedlen hpage a.size
      intro b hb
      obtain rfl | hb := List.mem_cons.mp hb
      · exact ⟨hrest.start_le hpage, by omega⟩
      · obtain ⟨hlow, hhigh⟩ := ih hrest b hb
        exact ⟨hlow, by omega⟩

theorem Chain.disjoint (hpage : 0 < page) (h : Chain page link start live cursor) :
    live.Pairwise fun a b => ∀ x,
      ¬((a.addr ≤ x ∧ x < a.addr + a.size) ∧ (b.addr ≤ x ∧ x < b.addr + b.size)) := by
  induction live generalizing cursor with
  | nil => exact List.Pairwise.nil
  | cons a rest ih =>
      obtain ⟨-, -, -, hrest⟩ := h
      refine List.Pairwise.cons (fun b hb x => ?_) (ih hrest)
      have hbelow := (hrest.inside hpage b hb).2
      omega

end Chain

/-- A push fails and changes nothing, or finds room for the rounded length. -/
theorem push_cases (page nmemb count : Nat) (s : Stack) :
    (∃ e, s.push page nmemb count = (.err e, s)) ∨
      ∃ len, len = alignedlen page (nmemb * count) ∧ len ≤ SIZE_MAX ∧
        safeAlignedlen page nmemb count = .ok len ∧
        (s.addrCursor + len) % 2 ^ 64 ≤ s.addrStop ∧
        s.push page nmemb count = (.ok s.addrCursor,
          { s with
            addrCursor := (s.addrCursor + len) % 2 ^ 64
            link := Function.update s.link ((s.addrCursor + len) % 2 ^ 64) len }) := by
  have hlen := safeAlignedlen_eq page nmemb count
  split at hlen
  · split at hlen
    · rename_i hmax
      by_cases hroom : (s.addrCursor + alignedlen page (nmemb * count)) % 2 ^ 64 ≤ s.addrStop
      · refine Or.inr ⟨_, rfl, hmax, hlen, hroom, ?_⟩
        simp only [push, hlen, if_pos hroom]
      · exact Or.inl ⟨Errno.ENOMEM, by simp only [push, hlen, if_neg hroom]⟩
    · exact Or.inl ⟨Errno.ERANGE, by simp only [push, hlen]⟩
  · exact Or.inl ⟨Errno.ERANGE, by simp only [push, hlen]⟩

theorem push_addrStop (page nmemb count : Nat) (s : Stack) :
    (s.push page nmemb count).2.addrStop = s.addrStop := by
  obtain ⟨e, hpush⟩ | ⟨len, -, -, -, -, hpush⟩ := push_cases page nmemb count s <;> rw [hpush]

/-- A pop changes the cursor only. -/
theorem pop_snd (s : Stack) : s.pop.2 = { s with addrCursor := s.pop.2.addrCursor } := by
  simp only [pop]
  split
  · rfl
  · split
    · rfl
    · split <;> rfl

namespace Traced
variable {page : Nat} {t t' : Traced} {c : Call}

/-- The words lead back to the start, and the last page of the address space is not in
the stack. -/
structure Sound (page : Nat) (t : Traced) : Prop where
  chain : Chain page t.stack.link t.stack.addrStart t.live t.stack.addrCursor
  room : t.stack.addrCursor ≤ t.stack.addrStop
  stop : t.stack.addrStop + page ≤ 2 ^ 64

theorem Sound.separate (hpage : 0 < page) (h : t.Sound page) : t.Separate where
  disjoint := h.chain.disjoint hpage
  inside b hb :=
    have hin := h.chain.inside hpage b hb
    ⟨hin.1, Nat.le_trans hin.2 h.room⟩

/-- A push that finds room puts its block on top. -/
theorem Sound.push (hpage : 0 < page) (h : t.Sound page) {size : Nat}
    (hroom : t.stack.addrCursor + alignedlen page size ≤ t.stack.addrStop) :
    Sound page
      { stack := { t.stack with
          addrCursor := t.stack.addrCursor + alignedlen page size
          link := Function.update t.stack.link (t.stack.addrCursor + alignedlen page size)
            (alignedlen page size) }
        live := ⟨t.stack.addrCursor, t.stack.addrCursor, size, false⟩ ::
          if size = 0 then cover t.live else t.live } := by
  refine ⟨⟨⟨rfl, fun hcovered => by cases hcovered⟩, rfl, Function.update_self _ _ _, ?_⟩, hroom,
    h.stop⟩
  by_cases hsize : size = 0
  · simp only [hsize, alignedlen_zero, Nat.add_zero, if_true]
    exact h.chain.cover hpage
  · have hlen : page ≤ alignedlen page size := alignedlen_pos hpage hsize
    simp only [if_neg hsize]
    refine h.chain.congr fun x hx => Function.update_of_ne ?_ _ _
    omega

/-- A pop goes back over the topmost block, unless it is covered. -/
theorem Sound.pop_cursor (hpage : 8 ≤ page) (h : t.Sound page) {b : Allocation}
    (hb : b ∈ t.live.head?) :
    t.stack.pop.2.addrCursor =
      if b.covered then b.addr + alignedlen page b.size else b.addr := by
  obtain ⟨rest, hlive⟩ : ∃ rest, t.live = b :: rest := List.head?_eq_some_iff.mp hb
  have hchain := h.chain
  rw [hlive] at hchain
  have hstart := hchain.page_le (by omega)
  obtain ⟨-, hcursor, hword, hrest⟩ := hchain
  have hlow := hrest.start_le (by omega)
  have hroom := h.room
  have hstop := h.stop
  by_cases hempty : t.stack.addrCursor ≤ t.stack.addrStart
  · -- a block of no bytes at the start: the pop fails where it is
    have hzero : alignedlen page b.size = 0 := by omega
    simp only [pop, if_pos hempty, hzero, Nat.add_zero, ite_self]
    omega
  · simp only [pop, if_neg hempty]
    rw [if_neg (by omega), if_neg (by omega)]
    show (t.stack.addrCursor + (2 ^ 64 - t.stack.link t.stack.addrCursor)) % 2 ^ 64 = _
    rw [hword]
    split <;> omega

theorem Sound.head (h : t.Sound page) {b : Allocation} (hb : b ∈ t.live.head?) :
    b.addr = b.mark ∧ (b.covered = true → b.size ≠ 0) := by
  obtain ⟨rest, hlive⟩ : ∃ rest, t.live = b :: rest := List.head?_eq_some_iff.mp hb
  have hchain := h.chain
  rw [hlive] at hchain
  exact hchain.1

theorem Sound.pop (hpage : 8 ≤ page) (h : t.Sound page) (hclear : Clear page .pop t) :
    Sound page ⟨t.stack.pop.2, t.live.tail⟩ := by
  have hchain := h.chain
  rw [pop_snd]
  cases hlive : t.live with
  | nil =>
      rw [hlive] at hchain
      have hcursor : t.stack.pop.2.addrCursor = t.stack.addrCursor := by
        simp only [Stack.pop, if_pos (Nat.le_of_eq hchain)]
      rw [hcursor]
      exact ⟨hchain, h.room, h.stop⟩
  | cons b rest =>
      have hb : b ∈ t.live.head? := by
        rw [hlive]
        rfl
      have hcursor : t.stack.pop.2.addrCursor = b.addr := by
        rw [h.pop_cursor hpage hb, hclear b hb]
        rfl
      rw [hlive] at hchain
      obtain ⟨-, htop, -, hrest⟩ := hchain
      have hroom := h.room
      rw [hcursor]
      exact ⟨hrest, show b.addr ≤ t.stack.addrStop by omega, h.stop⟩

theorem step_push {nmemb count addr : Nat} {stack : Stack}
    (hpush : t.stack.push page nmemb count = (.ok addr, stack)) :
    step page (.push nmemb count) t =
      some ⟨stack, ⟨t.stack.addrCursor, addr, nmemb * count, false⟩ ::
        if nmemb * count = 0 then cover t.live else t.live⟩ := by
  simp only [Traced.step, hpush]

/-- A call that meets the condition leads from a sound stack to a sound one. -/
theorem Sound.step (hpage : 8 ≤ page) (h : t.Sound page) (hclear : Clear page c t)
    (hstep : step page c t = some t') : t'.Sound page := by
  cases c with
  | pop =>
      cases hstep
      exact h.pop hpage hclear
  | push nmemb count =>
      obtain ⟨e, hpush⟩ | ⟨len, rfl, hmax, hlen, hroom, hpush⟩ :=
        push_cases page nmemb count t.stack
      · simp only [Traced.step, hpush] at hstep
        cases hstep
        exact ⟨h.chain, h.room, h.stop⟩
      · rw [step_push hpush] at hstep
        cases hstep
        simp only [Clear, wraps, hlen, Bool.and_eq_false_iff, decide_eq_false_iff_not] at hclear
        simp only [SIZE_MAX] at hmax
        have hstop := h.stop
        have hcursor := h.room
        have hmod : (t.stack.addrCursor + alignedlen page (nmemb * count)) % 2 ^ 64 =
            t.stack.addrCursor + alignedlen page (nmemb * count) := by
          omega
        rw [hmod] at hroom ⊢
        exact h.push (by omega) hroom

/-- A push that wraps the cursor into the stack finds room there. -/
theorem push_of_wraps {nmemb count : Nat} (hstop : t.stack.addrStop < 2 ^ 64)
    (h : wraps page nmemb count t = true) :
    2 ^ 64 ≤ t.stack.addrCursor + alignedlen page (nmemb * count) ∧
      (t.stack.push page nmemb count).1 = .ok t.stack.addrCursor := by
  cases hlen : safeAlignedlen page nmemb count with
  | err e => simp only [wraps, hlen, Bool.false_eq_true] at h
  | ok len =>
      simp only [wraps, hlen, Bool.and_eq_true, decide_eq_true_eq] at h
      have hroom : (t.stack.addrCursor + len) % 2 ^ 64 ≤ t.stack.addrStop := by omega
      have heq := safeAlignedlen_eq page nmemb count
      rw [hlen] at heq
      refine ⟨?_, by simp only [Stack.push, hlen, if_pos hroom]⟩
      split at heq
      · split at heq
        · cases heq
          exact h.1
        · cases heq
      · cases heq

/-- From a sound stack a call keeps the discipline exactly when it meets the condition. -/
theorem Sound.kept_iff (hpage : 8 ≤ page) (h : t.Sound page) : Kept page c t ↔ Clear page c t := by
  constructor
  · rintro ⟨hpop, hseparate⟩
    cases c with
    | pop =>
        intro b hb
        by_contra hcovered
        rw [Bool.not_eq_false] at hcovered
        have hrestored := hpop rfl b hb
        obtain ⟨hmark, hsize⟩ := h.head hb
        rw [h.pop_cursor hpage hb, if_pos hcovered] at hrestored
        have hlen : page ≤ alignedlen page b.size := alignedlen_pos (by omega) (hsize hcovered)
        omega
    | push nmemb count =>
        show wraps page nmemb count t = false
        by_contra hwraps
        rw [Bool.not_eq_false] at hwraps
        have hstop := h.stop
        obtain ⟨hwrap, hok⟩ := push_of_wraps (by omega) hwraps
        have hpush : t.stack.push page nmemb count =
            (.ok t.stack.addrCursor, (t.stack.push page nmemb count).2) := Prod.ext hok rfl
        have hsep := hseparate _ (step_push hpush)
        have hin : t.stack.addrCursor + nmemb * count ≤ t.stack.addrStop := by
          rw [← push_addrStop page nmemb count t.stack]
          exact (hsep.inside _ (List.mem_cons_self ..)).2
        have hlt := alignedlen_lt (show 0 < page by omega) (nmemb * count)
        omega
  · intro hclear
    refine ⟨?_, fun t' hstep => (h.step hpage hclear hstep).separate (by omega)⟩
    rintro rfl b hb
    rw [h.pop_cursor hpage hb, hclear b hb]
    exact (h.head hb).1

end Traced

open Traced

/-- **A stack's discipline.**  Every pop restores the cursor to where it was before the
latest push not yet popped, and the blocks not yet popped share no byte and lie in the
stack, exactly when no push wraps the cursor and no pop is of a block a later push of no
bytes has covered. -/
theorem stack_discipline {page addr len : Nat} (hpage : 8 ≤ page)
    (hstop : addr + len + page ≤ 2 ^ 64) (link : Nat → Nat) (calls : List Call) :
    Meets (step page) (Kept page) calls (Traced.init addr len link) ↔
      Meets (step page) (Clear page) calls (Traced.init addr len link) :=
  Meets.congr (fun _ _ _ h hclear hstep => Sound.step hpage h hclear hstep)
    (fun _ _ h => h.kept_iff hpage) ⟨rfl, Nat.le_add_right _ _, hstop⟩

/-- Here the block of no bytes is pushed after the other was popped. -/
theorem stack_discipline_empty_self :
    Meets (step 4096) (Kept 4096) [.push 1 512, .pop, .push 1 0, .pop]
        (Traced.init 4096 139264 fun _ => 0) ↔
      Meets (step 4096) (Clear 4096) [.push 1 512, .pop, .push 1 0, .pop]
        (Traced.init 4096 139264 fun _ => 0) :=
  stack_discipline (by decide) (by decide) _ _

/-- A socket and an empty `self` over it: the second pop leaves the cursor a page
above where the socket was pushed. -/
theorem empty_self_strands_socket :
    ¬Meets (step 4096) (Kept 4096) [.push 1 512, .push 1 0, .pop, .pop]
      (Traced.init 4096 139264 fun _ => 0) := by
  intro h
  obtain ⟨t, ht, hcursor⟩ := (Option.any_eq_true _ _).mp
    (by decide +kernel : (run (step 4096) [.push 1 512, .push 1 0, .pop]
      (Traced.init 4096 139264 fun _ => 0)).any
        (fun t => t.live.head?.any fun b => decide (t.stack.pop.2.addrCursor ≠ b.mark)) = true)
  obtain ⟨b, hb, hne⟩ := (Option.any_eq_true _ _).mp hcursor
  have hkept : Kept 4096 .pop t := Meets.of_run h ht
  exact of_decide_eq_true hne (hkept.1 rfl b hb)

end Stack

end Vk

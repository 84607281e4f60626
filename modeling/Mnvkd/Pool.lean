/-
# `Mnvkd.Pool` — heaps cut out of one buffer

A pool has a table of entries, each with the descriptor of a heap, and a list of the
entries that are free, linked through them.  `vk_pool_init` takes a buffer for it or
maps the table and every heap.  A buffer must have the size that
`vk_pool_needed_buffer_size` comes to: the table, rounded up to whole pages, and the
heaps behind it.

    entry_buffer_size      of the table       guarded against wrapping
    object_buffer_size     of the heaps       guarded against wrapping
    needed_buffer_size     the sum of both    not guarded
    object_buf             where a heap is    not guarded
    i                      an `int`, for a `size_t` count

Where the sum wraps the buffer is taken all the same if its length is what is left of
the sum, and the table alone does not fit in it.  Where the count is not an `int` the
loop links fewer entries than there are.  Otherwise the pool is laid out as it should be
(`init_layout_iff`).

Nothing is written but the entries and the pool; what a callback does is what it
answers.
-/
import Mnvkd.HeapFaults
import Mnvkd.Kern
import Mnvkd.Lib.Carve
import Mnvkd.Lib.Slist
import Mnvkd.Wrapguard

namespace Vk

open Lib Prot

/-! ## Heaps, with their extent -/

/-- `struct vk_stack`. -/
structure StackPtrs where
  addrStart : UInt64
  addrCursor : UInt64
  addrStop : UInt64

namespace StackPtrs

/-- `vk_stack_init`. -/
def init (addr len : UInt64) : StackPtrs := ⟨addr, addr, addr + len⟩

/-- How many bytes a stack has. -/
def room (stack : StackPtrs) : UInt64 := stack.addrStop - stack.addrStart

end StackPtrs

/-- `struct vk_heap`. -/
structure PoolHeap extends HeapDesc where
  stack : StackPtrs

/-- A `size_t` as an `int`: its lower half, with a sign. -/
def intOf (n : UInt64) : Int := (n.toNat : Int).bmod (2 ^ 32)

namespace PoolHeap

/-- `vk_heap_buf`.  It returns the length, as an `int`. -/
def buf (addr len : UInt64) (prot : Prot) (entered : Bool) : SysResult Int × PoolHeap :=
  (.ok (intOf len), ⟨.describe addr.toNat len.toNat prot false entered, .init addr len⟩)

/-- `vk_heap_map`, at an address that the system is asked for. -/
def map (hd : PoolHeap) (len : UInt64) (prot : Prot) (entered : Bool) :
    SysResult UInt64 → SysResult Int × PoolHeap
  | .err e => (.err e, ⟨.describe (2 ^ 64 - 1) len.toNat prot true entered, hd.stack⟩)
  | .ok addr => (.ok (intOf len), ⟨.describe addr.toNat len.toNat prot true entered, .init addr len⟩)

/-- Where a heap is in a buffer. -/
def extent (hd : PoolHeap) (buf : UInt64) : Extent :=
  ⟨(UInt64.ofNat hd.mapping.retval - buf).toNat, hd.mapping.len⟩

end PoolHeap

/-! ## Pools -/

/-- `struct vk_pool_entry`, without its link. -/
structure PoolEntry where
  entryId : UInt64
  heap : PoolHeap

/-- `sizeof (struct vk_pool_entry)`: its number, its link and the descriptor. -/
def poolEntryAllocSize : UInt64 := 8 + 8 + 88

/-- `vk_pool_entry_init_func`, with its `udata`. -/
abbrev PoolEntryInitFunc := PoolEntry → SysResult Unit

/-- `struct vk_pool`.  `freeEntries` has the links of the entries too. -/
structure Pool where
  poolHeap : PoolHeap
  freeEntries : Slist UInt64
  objectSize : UInt64
  objectCount : UInt64
  buf : UInt64
  bufLen : UInt64
  objectInitFunc : Option PoolEntryInitFunc
  objectFreeFunc : Option PoolEntryInitFunc
  objectDeinitFunc : Option PoolEntryInitFunc

/-- `vk_pool_get_entry`: a pointer into the table. -/
def Pool.getEntry (pool : Pool) (i : UInt64) : Option UInt64 :=
  if i ≥ pool.objectCount then none
  else some (pool.poolHeap.stack.addrStart + i * poolEntryAllocSize)

/-- `vk_pool_needed_buffer_size`: of the table, and of the heaps. -/
def Pool.neededBufferSize (page objectSize objectCount : UInt64) : SysResult (UInt64 × UInt64) :=
  match SizeT.safeAlignedlen page objectCount poolEntryAllocSize with
  | .err e => .err e
  | .ok entryBufferSize =>
      match SizeT.safeAlignedlen page 1 objectSize with
      | .err e => .err e
      | .ok objectSizeAlignedlen =>
          match SizeT.safeMult objectSizeAlignedlen objectCount with
          | .err e => .err e
          | .ok objectBufferSize => .ok (entryBufferSize, objectBufferSize)

/-- A pool, the memory its entries are in and `errno`. -/
structure PoolState where
  pool : Pool
  entries : UInt64 → PoolEntry
  errno : Errno

/-- The arguments of `vk_pool_init`. -/
structure PoolInit where
  objectSize : UInt64
  objectCount : UInt64
  buf : UInt64
  bufLen : UInt64
  objectInitFunc : Option PoolEntryInitFunc
  objectFreeFunc : Option PoolEntryInitFunc
  objectDeinitFunc : Option PoolEntryInitFunc
  entered : Bool

namespace PoolState

/-- `if (rc == -1) return -1`, and else what comes after it. -/
def orFail (s : PoolState) (rc : SysResult Int) (next : Option (Int × PoolState)) :
    Option (Int × PoolState) :=
  match rc with
  | .err e => some (-1, { s with errno := e })
  | .ok rc => if rc = -1 then some (-1, s) else next

/-- The same, after a call that changes the pool. -/
def andThen (r : Option (Int × PoolState)) (next : PoolState → Option (Int × PoolState)) :
    Option (Int × PoolState) :=
  r.bind fun (rc, s) => if rc = -1 then some (-1, s) else next s

/-- A callback that may be null; 0 if it is. -/
def callback (s : PoolState) (entryPtr : UInt64) : Option PoolEntryInitFunc → SysResult Int
  | none => .ok 0
  | some f => (f (s.entries entryPtr)).map fun _ => 0

/-- `vk_pool_free_entry`. -/
def freeEntry (s : PoolState) : Option UInt64 → Option (Int × PoolState)
  | none => some (-1, { s with errno := Errno.ENOENT })
  | some entryPtr =>
      let s := { s with pool := { s.pool with freeEntries := s.pool.freeEntries.insertHead entryPtr } }
      s.orFail (s.callback entryPtr s.pool.objectFreeFunc) (some (0, s))

/-- The turn of the loop for `i`; none where a null pointer is followed.  `mmap` is what
the system answers where there is no buffer. -/
def initEntry (c : PoolInit) (entryBufferSize objectSizeAlignedlen : UInt64)
    (mmap : Nat → SysResult UInt64) (i : Nat) (s : PoolState) : Option (Int × PoolState) :=
  match s.pool.getEntry (UInt64.ofNat i) with
  | none => none
  | some entryPtr =>
      let made :=
        if s.pool.buf ≠ 0 then
          PoolHeap.buf (c.buf + entryBufferSize + objectSizeAlignedlen * UInt64.ofNat i)
            objectSizeAlignedlen PROT_NONE c.entered
        else (s.entries entryPtr).heap.map objectSizeAlignedlen PROT_NONE c.entered (mmap i)
      let s := { s with entries := Function.update s.entries entryPtr ⟨UInt64.ofNat i, made.2⟩ }
      s.orFail made.1 <|
        andThen (s.freeEntry (some entryPtr)) fun s =>
          s.orFail (s.callback entryPtr s.pool.objectInitFunc) (some (0, s))

/-- The loop, with so many turns to go: the next one is for `i`. -/
def initEntries (c : PoolInit) (entryBufferSize objectSizeAlignedlen : UInt64)
    (mmap : Nat → SysResult UInt64) : Nat → PoolState → Option (Int × PoolState)
  | 0, s => some (0, s)
  | i + 1, s =>
      andThen (s.initEntry c entryBufferSize objectSizeAlignedlen mmap i) fun s =>
        initEntries c entryBufferSize objectSizeAlignedlen mmap i s

end PoolState

/-- How many turns `for (i = (int)object_count - 1; i >= 0; i--)` makes.  The least
`int` has none before it, and C does not say what comes of it. -/
def turns (objectCount : UInt64) : Option Nat :=
  if intOf objectCount = -2 ^ 31 then none else some (intOf objectCount).toNat

namespace PoolState

/-- The pool with its arguments, over whatever was there. -/
def setup (c : PoolInit) (s : PoolState) : PoolState :=
  { s with
    pool :=
      { s.pool with
        objectSize := c.objectSize
        objectCount := c.objectCount
        buf := c.buf
        bufLen := c.bufLen
        objectInitFunc := c.objectInitFunc
        objectFreeFunc := c.objectFreeFunc
        objectDeinitFunc := c.objectDeinitFunc
        freeEntries := { s.pool.freeEntries with first := none } } }

/-- `vk_pool_init`.  `table` and `mmap` are what the system answers where there is no
buffer; none is no answer at all. -/
def init (page : UInt64) (c : PoolInit) (table : SysResult UInt64) (mmap : Nat → SysResult UInt64)
    (s : PoolState) : Option (Int × PoolState) :=
  match SizeT.safeAlignedlen page 1 c.objectSize with
  | .err e => some (-1, { s with errno := e })
  | .ok objectSizeAlignedlen =>
      match Pool.neededBufferSize page c.objectSize c.objectCount with
      | .err e => some (-1, { s with errno := e })
      | .ok (entryBufferSize, objectBufferSize) =>
          let neededBufferSize := entryBufferSize + objectBufferSize
          if c.buf ≠ 0 ∧ c.bufLen ≠ neededBufferSize then some (-1, { s with errno := Errno.ERANGE })
          else
            let s := s.setup c
            let made :=
              if s.pool.buf ≠ 0 then PoolHeap.buf c.buf entryBufferSize 0 true
              else s.pool.poolHeap.map entryBufferSize 0 true table
            let s := { s with pool := { s.pool with poolHeap := made.2 } }
            s.orFail made.1 <|
              (turns s.pool.objectCount).bind fun n =>
                s.initEntries c entryBufferSize objectSizeAlignedlen mmap n

end PoolState

/-! ## What one call does -/

/-- The lengths a pool is laid out with: of the table, of one heap and of all. -/
structure PoolSizes (page : UInt64) (c : PoolInit) (entryBufferSize objectSizeAlignedlen
    objectBufferSize : UInt64) : Prop where
  entries : entryBufferSize.toNat =
    alignedlen page.toNat (c.objectCount.toNat * poolEntryAllocSize.toNat)
  object : objectSizeAlignedlen.toNat = alignedlen page.toNat c.objectSize.toNat
  objects : objectBufferSize.toNat = objectSizeAlignedlen.toNat * c.objectCount.toNat

/-- The entries themselves do not wrap. -/
theorem PoolSizes.entries_lt {page : UInt64} (hpage : page ≠ 0) {c : PoolInit} {E A O : UInt64}
    (h : PoolSizes page c E A O) : c.objectCount.toNat * poolEntryAllocSize.toNat < 2 ^ 64 := by
  have hE := E.toNat_lt
  have hle := le_alignedlen (SizeT.toNat_ne_zero hpage) (c.objectCount.toNat * poolEntryAllocSize.toNat)
  rw [← h.entries] at hle
  omega

/-- The table and the heaps are whole pages. -/
theorem PoolSizes.dvd {page : UInt64} {c : PoolInit} {E A O : UInt64} (h : PoolSizes page c E A O) :
    page.toNat ∣ E.toNat ∧ page.toNat ∣ A.toNat := by
  rw [h.entries, h.object]
  exact ⟨dvd_alignedlen _ _, dvd_alignedlen _ _⟩

theorem poolSizes_of_ok {page : UInt64} (hpage : page ≠ 0) {c : PoolInit} {A E O : UInt64}
    (hA : SizeT.safeAlignedlen page 1 c.objectSize = .ok A)
    (hneeded : Pool.neededBufferSize page c.objectSize c.objectCount = .ok (E, O)) :
    PoolSizes page c E A O := by
  rw [Pool.neededBufferSize, hA] at hneeded
  cases hE : SizeT.safeAlignedlen page c.objectCount poolEntryAllocSize with
  | err e => simp [hE] at hneeded
  | ok E' =>
      cases hO : SizeT.safeMult A c.objectCount with
      | err e => simp [hE, hO] at hneeded
      | ok O' =>
          simp only [hE, hO, SysResult.ok.injEq, Prod.mk.injEq] at hneeded
          obtain ⟨rfl, rfl⟩ := hneeded
          have hone := SizeT.safeAlignedlen_ok hpage hA
          rw [UInt64.toNat_one, Nat.one_mul] at hone
          exact ⟨SizeT.safeAlignedlen_ok hpage hE, hone, SizeT.safeMult_ok hO⟩

namespace PoolState

variable {s s' : PoolState} {c : PoolInit} {E A O : UInt64} {mmap : Nat → SysResult UInt64} {i n : Nat}

/-- What did not fail went on. -/
theorem orFail_ok {answer : SysResult Int} {next : Option (Int × PoolState)} {rc : Int}
    (h : s.orFail answer next = some (rc, s')) (hrc : rc ≠ -1) : next = some (rc, s') := by
  cases answer with
  | err e =>
      simp only [orFail, Option.some.injEq, Prod.mk.injEq] at h
      exact absurd h.1.symm hrc
  | ok r =>
      rw [orFail] at h
      split at h
      · simp only [Option.some.injEq, Prod.mk.injEq] at h
        exact absurd h.1.symm hrc
      · exact h

theorem andThen_ok {r : Option (Int × PoolState)} {next : PoolState → Option (Int × PoolState)}
    {rc : Int} (h : andThen r next = some (rc, s')) (hrc : rc ≠ -1) :
    ∃ rc₁ s₁, r = some (rc₁, s₁) ∧ rc₁ ≠ -1 ∧ next s₁ = some (rc, s') := by
  obtain ⟨⟨rc₁, s₁⟩, hr, hnext⟩ := Option.bind_eq_some_iff.mp h
  dsimp only at hnext
  split at hnext
  · simp only [Option.some.injEq, Prod.mk.injEq] at hnext
    exact absurd hnext.1.symm hrc
  · exact ⟨rc₁, s₁, hr, ‹_›, hnext⟩

/-- An entry is put in front of the list. -/
def link (s : PoolState) (entryPtr : UInt64) : PoolState :=
  { s with pool := { s.pool with freeEntries := s.pool.freeEntries.insertHead entryPtr } }

/-- A call that does not fail has put the entry in front. -/
theorem freeEntry_ok {entryPtr : UInt64} {rc : Int}
    (h : s.freeEntry (some entryPtr) = some (rc, s')) (hrc : rc ≠ -1) : s' = s.link entryPtr := by
  have hend : some (0, s.link entryPtr) = some (rc, s') := orFail_ok h hrc
  exact (Prod.mk.inj (Option.some.inj hend)).2.symm

/-- The heap of entry `i` in a buffer. -/
def objectHeap (c : PoolInit) (entryBufferSize objectSizeAlignedlen : UInt64) (i : Nat) : PoolHeap :=
  (PoolHeap.buf (c.buf + entryBufferSize + objectSizeAlignedlen * UInt64.ofNat i) objectSizeAlignedlen
    PROT_NONE c.entered).2

/-- Entry `i`, at its place in the table, has its number and its heap. -/
def fill (c : PoolInit) (entryBufferSize objectSizeAlignedlen : UInt64) (i : Nat) (entryPtr : UInt64)
    (s : PoolState) : PoolState :=
  { s with
    entries := Function.update s.entries entryPtr
      ⟨UInt64.ofNat i, objectHeap c entryBufferSize objectSizeAlignedlen i⟩ }

/-- A turn, where there is a buffer. -/
theorem initEntry_eq {p : UInt64} (hbuf : s.pool.buf ≠ 0)
    (hp : s.pool.getEntry (UInt64.ofNat i) = some p) :
    s.initEntry c E A mmap i =
      (s.fill c E A i p).orFail (.ok (intOf A)) (andThen ((s.fill c E A i p).freeEntry (some p)) fun s =>
        s.orFail (s.callback p s.pool.objectInitFunc) (some (0, s))) := by
  rw [initEntry]
  simp only [hp, if_pos hbuf]
  rfl

/-- A turn that does not fail has filled in the entry and put it in front. -/
theorem initEntry_ok {rc : Int} (hbuf : s.pool.buf ≠ 0) (h : s.initEntry c E A mmap i = some (rc, s'))
    (hrc : rc ≠ -1) :
    ∃ p, s.pool.getEntry (UInt64.ofNat i) = some p ∧ s' = (s.fill c E A i p).link p := by
  cases hp : s.pool.getEntry (UInt64.ofNat i) with
  | none => simp [initEntry, hp] at h
  | some p =>
      rw [initEntry_eq hbuf hp] at h
      have hmade := orFail_ok h hrc
      obtain ⟨rc₁, s₁, hfree, hrc₁, hnext⟩ := andThen_ok hmade hrc
      obtain rfl := freeEntry_ok hfree hrc₁
      have hend := orFail_ok hnext hrc
      exact ⟨p, rfl, (Prod.mk.inj (Option.some.inj hend)).2.symm⟩

/-! ## The loop -/

/-- Where entry `i` is in the table. -/
def entryPtr (c : PoolInit) (i : Nat) : UInt64 := c.buf + UInt64.ofNat i * poolEntryAllocSize

/-- The entries from `i` on, of `n`, are filled in and linked, the lowest first. -/
structure Linked (c : PoolInit) (E A : UInt64) (n i : Nat) (s : PoolState) : Prop where
  table : s.pool.poolHeap = (PoolHeap.buf c.buf E 0 true).2
  count : s.pool.objectCount = c.objectCount
  buf : s.pool.buf = c.buf
  free : s.pool.freeEntries.Is ((List.range' i (n - i)).map (entryPtr c))
  entries : ∀ j, i ≤ j → j < n → s.entries (entryPtr c j) = ⟨UInt64.ofNat j, objectHeap c E A j⟩

theorem toNat_index (hi : i < c.objectCount.toNat) : (UInt64.ofNat i).toNat = i :=
  UInt64.toNat_ofNat_of_lt' (Nat.lt_trans hi (UInt64.toNat_lt_size _))

theorem getEntry_eq (htable : s.pool.poolHeap = (PoolHeap.buf c.buf E 0 true).2)
    (hcount : s.pool.objectCount = c.objectCount) (hi : i < c.objectCount.toNat) :
    s.pool.getEntry (UInt64.ofNat i) = some (entryPtr c i) := by
  have hlt : ¬UInt64.ofNat i ≥ s.pool.objectCount := by
    rw [hcount, ge_iff_le, UInt64.le_iff_toNat_le, toNat_index hi]
    omega
  rw [Pool.getEntry, if_neg hlt, htable]
  rfl

/-- Entries of a table that does not wrap are at different places. -/
theorem entryPtr_toNat_sub (hE : c.objectCount.toNat * poolEntryAllocSize.toNat < 2 ^ 64)
    (hi : i < c.objectCount.toNat) : (entryPtr c i - c.buf).toNat = i * poolEntryAllocSize.toNat := by
  have hlt : i * poolEntryAllocSize.toNat < 2 ^ 64 :=
    Nat.lt_of_le_of_lt (Nat.mul_le_mul_right _ (Nat.le_of_lt hi)) hE
  have hsub : entryPtr c i - c.buf = UInt64.ofNat i * poolEntryAllocSize := by
    rw [entryPtr, UInt64.add_comm, UInt64.add_sub_cancel]
  rw [hsub, UInt64.toNat_mul, toNat_index hi, Nat.mod_eq_of_lt hlt]

theorem entryPtr_injOn (hE : c.objectCount.toNat * poolEntryAllocSize.toNat < 2 ^ 64) {j : Nat}
    (hi : i < c.objectCount.toNat) (hj : j < c.objectCount.toNat) (h : entryPtr c i = entryPtr c j) :
    i = j := by
  have hoff := entryPtr_toNat_sub hE hi
  rw [h, entryPtr_toNat_sub hE hj] at hoff
  exact (Nat.eq_of_mul_eq_mul_right (by decide) hoff).symm

/-- A turn links one entry more. -/
theorem Linked.initEntry {rc : Int} (hbuf : c.buf ≠ 0)
    (hE : c.objectCount.toNat * poolEntryAllocSize.toNat < 2 ^ 64) (hn : n ≤ c.objectCount.toNat)
    (hi : i < n) (h : Linked c E A n (i + 1) s) (hturn : s.initEntry c E A mmap i = some (rc, s'))
    (hrc : rc ≠ -1) : Linked c E A n i s' := by
  obtain ⟨p, hp, rfl⟩ := initEntry_ok (by rw [h.buf]; exact hbuf) hturn hrc
  have hcount : i < c.objectCount.toNat := Nat.lt_of_lt_of_le hi hn
  rw [getEntry_eq h.table h.count hcount] at hp
  obtain rfl := Option.some.inj hp
  refine ⟨h.table, h.count, h.buf, ?_, fun j hij hj => ?_⟩
  · have hrange : List.range' i (n - i) = i :: List.range' (i + 1) (n - (i + 1)) := by
      rw [show n - i = n - (i + 1) + 1 by omega, List.range'_succ]
    have hnew : entryPtr c i ∉ (List.range' (i + 1) (n - (i + 1))).map (entryPtr c) := by
      rw [List.mem_map]
      rintro ⟨j, hj, hsame⟩
      rw [List.mem_range'_1] at hj
      have := entryPtr_injOn hE (show j < c.objectCount.toNat by omega) hcount hsame
      omega
    rw [hrange, List.map_cons]
    exact Slist.is_insertHead h.free hnew
  · show Function.update s.entries (entryPtr c i) _ (entryPtr c j) = _
    by_cases hji : j = i
    · subst hji
      rw [Function.update_self]
    · have hne : entryPtr c j ≠ entryPtr c i := fun hsame =>
        hji (entryPtr_injOn hE (Nat.lt_of_lt_of_le hj hn) hcount hsame)
      rw [Function.update_of_ne hne]
      exact h.entries j (by omega) hj

/-- So the loop links them all. -/
theorem Linked.initEntries (hbuf : c.buf ≠ 0)
    (hE : c.objectCount.toNat * poolEntryAllocSize.toNat < 2 ^ 64) (hn : n ≤ c.objectCount.toNat)
    (hi : i ≤ n) (h : Linked c E A n i s) (hloop : s.initEntries c E A mmap i = some (0, s')) :
    Linked c E A n 0 s' := by
  induction i generalizing s with
  | zero =>
      have hend : some ((0 : Int), s) = some (0, s') := hloop
      obtain rfl := (Prod.mk.inj (Option.some.inj hend)).2
      exact h
  | succ i ih =>
      rw [PoolState.initEntries] at hloop
      obtain ⟨rc, s₁, hturn, hrc, hrest⟩ := andThen_ok hloop (by decide)
      exact ih (Nat.le_of_succ_le hi) (h.initEntry hbuf hE hn hi hturn hrc) hrest

end PoolState

theorem intOf_eq (n : UInt64) :
    intOf n = if n.toNat % 4294967296 < 2147483648 then (n.toNat % 4294967296 : Int)
      else (n.toNat % 4294967296 : Int) - 4294967296 := by
  unfold intOf
  rw [Int.bmod_def]
  simp only [Nat.reducePow]
  split
  · split
    · omega
    · omega
  · split
    · omega
    · omega

/-- The loop makes a turn for every entry only where the count is an `int`. -/
theorem turns_eq_some {n : Nat} {count : UInt64} (h : turns count = some n) :
    n ≤ count.toNat ∧ (n = count.toNat ↔ count.toNat < 2 ^ 31) := by
  have hlt := count.toNat_lt
  have hint := intOf_eq count
  unfold turns at h
  split at h
  · cases h
  · have hn : n = (intOf count).toNat := (Option.some.inj h).symm
    split at hint
    · omega
    · omega

namespace PoolState

section Layout
variable {s s' : PoolState} {c : PoolInit} {page E A O : UInt64} {mmap : Nat → SysResult UInt64}
  {i n : Nat}

/-- The pool with its table at the front of a buffer, and no entry yet. -/
def tabled (c : PoolInit) (entryBufferSize : UInt64) (s : PoolState) : PoolState :=
  { s.setup c with
    pool := { (s.setup c).pool with poolHeap := (PoolHeap.buf c.buf entryBufferSize 0 true).2 } }

/-- `vk_pool_init`, where there is a buffer of the needed size. -/
theorem init_eq {table : SysResult UInt64} (hbuf : c.buf ≠ 0)
    (hA : SizeT.safeAlignedlen page 1 c.objectSize = .ok A)
    (hneeded : Pool.neededBufferSize page c.objectSize c.objectCount = .ok (E, O))
    (hlen : c.bufLen = E + O) :
    s.init page c table mmap = (s.tabled c E).orFail (.ok (intOf E))
      ((turns c.objectCount).bind fun n => (s.tabled c E).initEntries c E A mmap n) := by
  have htaken : ¬(c.buf ≠ 0 ∧ c.bufLen ≠ E + O) := fun h => h.2 hlen
  have hset : (s.setup c).pool.buf ≠ 0 := hbuf
  rw [init]
  simp only [hA, hneeded, if_neg htaken, if_pos hset]
  rfl

/-- What `vk_pool_init` has done with a buffer when it returns 0. -/
theorem init_ok {table : SysResult UInt64} (hpage : page ≠ 0) (hbuf : c.buf ≠ 0)
    (h : s.init page c table mmap = some (0, s')) :
    ∃ E A O n, PoolSizes page c E A O ∧ c.bufLen = E + O ∧ turns c.objectCount = some n ∧
      Linked c E A n 0 s' := by
  cases hA : SizeT.safeAlignedlen page 1 c.objectSize with
  | err e => simp [init, hA] at h
  | ok A =>
      cases hneeded : Pool.neededBufferSize page c.objectSize c.objectCount with
      | err e => simp [init, hA, hneeded] at h
      | ok sizes =>
          obtain ⟨E, O⟩ := sizes
          have hsizes := poolSizes_of_ok hpage hA hneeded
          by_cases hlen : c.bufLen = E + O
          · rw [init_eq hbuf hA hneeded hlen] at h
            obtain ⟨n, hturns, hloop⟩ := Option.bind_eq_some_iff.mp (orFail_ok h (by decide))
            refine ⟨E, A, O, n, hsizes, hlen, hturns, ?_⟩
            refine Linked.initEntries hbuf (hsizes.entries_lt hpage) (turns_eq_some hturns).1
              (Nat.le_refl n) ?_ hloop
            refine ⟨rfl, rfl, rfl, ?_, fun j hj hj' => absurd hj' (Nat.not_lt.mpr hj)⟩
            rw [Nat.sub_self]
            exact Slist.Path.nil
          · simp [init, hA, hneeded, hbuf, hlen] at h

end Layout

/-! ## The layout -/

/-- The entries there are, by their number. -/
def entryPtrs (s : PoolState) : List UInt64 :=
  (List.range s.pool.objectCount.toNat).filterMap fun i => s.pool.getEntry (UInt64.ofNat i)

/-- Where the table and the heaps of the entries are in a buffer. -/
def extents (s : PoolState) (buf : UInt64) : List Extent :=
  s.pool.poolHeap.extent buf :: s.entryPtrs.map fun p => (s.entries p).heap.extent buf

/-- A pool as it should be in its buffer. -/
structure Layout (page : Nat) (c : PoolInit) (s : PoolState) : Prop where
  inside : ∀ e ∈ s.extents c.buf, e.stop ≤ c.bufLen.toNat
  apart : (s.extents c.buf).Pairwise Extent.Apart
  aligned : ∀ e ∈ s.extents c.buf, page ∣ e.start
  entries : ∀ p ∈ s.entryPtrs, (s.pool.poolHeap.extent c.buf).start ≤ (p - c.buf).toNat ∧
    (p - c.buf).toNat + poolEntryAllocSize.toNat ≤ (s.pool.poolHeap.extent c.buf).stop
  room : ∀ p ∈ s.entryPtrs, c.objectSize ≤ (s.entries p).heap.stack.room
  free : s.pool.freeEntries.Is s.entryPtrs
  once : s.entryPtrs.Nodup
  ids : s.entryPtrs.map (fun p => (s.entries p).entryId.toNat) = List.range c.objectCount.toNat

end PoolState

/-- The needed size does not wrap, and the count is an `int`. -/
def PoolInit.Fits (page : Nat) (c : PoolInit) : Prop :=
  alignedlen page (c.objectCount.toNat * poolEntryAllocSize.toNat) +
      alignedlen page c.objectSize.toNat * c.objectCount.toNat < 2 ^ 64 ∧
    c.objectCount.toNat < 2 ^ 31

namespace PoolState

section Layout
variable {s s' : PoolState} {c : PoolInit} {page E A O : UInt64} {mmap : Nat → SysResult UInt64}
  {i n : Nat}

theorem Linked.entryPtrs_eq (h : Linked c E A n i s) :
    s.entryPtrs = (List.range c.objectCount.toNat).map (entryPtr c) := by
  rw [entryPtrs, h.count, ← List.filterMap_eq_map]
  refine List.filterMap_congr fun j hj => ?_
  exact getEntry_eq h.table h.count (List.mem_range.mp hj)

theorem extent_buf (buf offset len : UInt64) (prot : Prot) (entered : Bool) :
    (PoolHeap.buf (buf + offset) len prot entered).2.extent buf = ⟨offset.toNat, len.toNat⟩ := by
  have hsub : buf + offset - buf = offset := by rw [UInt64.add_comm, UInt64.add_sub_cancel]
  show (⟨(UInt64.ofNat (buf + offset).toNat - buf).toNat, len.toNat⟩ : Extent) = _
  rw [UInt64.ofNat_toNat, hsub]

theorem Linked.table_extent (h : Linked c E A n i s) : s.pool.poolHeap.extent c.buf = ⟨0, E.toNat⟩ := by
  have hbuf := extent_buf c.buf 0 E 0 true
  rw [UInt64.add_zero] at hbuf
  rw [h.table, hbuf]
  rfl

/-- The table is not in its buffer where the sum wraps, and not all entries are linked
where their number is not an `int`. -/
theorem Linked.fits (hsizes : PoolSizes page c E A O) (hlen : c.bufLen = E + O)
    (hturns : turns c.objectCount = some n) (h : Linked c E A n 0 s) (hlayout : Layout page.toNat c s) :
    c.Fits page.toNat := by
  constructor
  · have hinside := hlayout.inside _ List.mem_cons_self
    rw [h.table_extent, hlen, UInt64.toNat_add] at hinside
    have hE := E.toNat_lt
    have hO := O.toNat_lt
    rw [← hsizes.entries, ← hsizes.object, ← hsizes.objects]
    simp only [Extent.stop] at hinside
    omega
  · have hsame := Slist.Path.unique h.free hlayout.free
    rw [h.entryPtrs_eq] at hsame
    have hcount := congrArg List.length hsame
    rw [List.length_map, List.length_map, List.length_range', List.length_range, Nat.sub_zero] at hcount
    exact (turns_eq_some hturns).2.mp hcount

/-- Otherwise the buffer is cut up in order. -/
theorem Linked.extents_eq (hsizes : PoolSizes page c E A O) (hfits : c.Fits page.toNat)
    (h : Linked c E A c.objectCount.toNat 0 s) :
    s.extents c.buf = carve 0 (E.toNat :: List.replicate c.objectCount.toNat A.toNat) := by
  rw [carve, extents, h.table_extent, h.entryPtrs_eq, List.map_map, carve_replicate]
  congr 1
  refine List.map_congr_left fun i hi => ?_
  have hi : i < c.objectCount.toNat := List.mem_range.mp hi
  have hroom : E.toNat + A.toNat * i < 2 ^ 64 := by
    have hsum := hfits.1
    rw [← hsizes.entries, ← hsizes.object] at hsum
    have hle : A.toNat * i ≤ A.toNat * c.objectCount.toNat := Nat.mul_le_mul_left _ (Nat.le_of_lt hi)
    omega
  show (s.entries (entryPtr c i)).heap.extent c.buf = _
  rw [h.entries i (Nat.zero_le i) hi]
  show (objectHeap c E A i).extent c.buf = _
  rw [objectHeap, UInt64.add_assoc, extent_buf, UInt64.toNat_add, UInt64.toNat_mul, toNat_index hi]
  congr 1
  omega

theorem toNat_bufLen (hsizes : PoolSizes page c E A O) (hlen : c.bufLen = E + O)
    (hfits : c.Fits page.toNat) : c.bufLen.toNat = E.toNat + A.toNat * c.objectCount.toNat := by
  have hsum := hfits.1
  rw [← hsizes.entries, ← hsizes.object] at hsum
  rw [hlen, UInt64.toNat_add, hsizes.objects]
  exact Nat.mod_eq_of_lt hsum

theorem Linked.once (hE : c.objectCount.toNat * poolEntryAllocSize.toNat < 2 ^ 64)
    (h : Linked c E A n i s) : s.entryPtrs.Nodup := by
  rw [h.entryPtrs_eq]
  refine List.nodup_range.map_on fun i hi j hj hsame => ?_
  exact entryPtr_injOn hE (List.mem_range.mp hi) (List.mem_range.mp hj) hsame

theorem Linked.exists_index (h : Linked c E A n i s) {p : UInt64} (hp : p ∈ s.entryPtrs) :
    ∃ j, j < c.objectCount.toNat ∧ entryPtr c j = p := by
  rw [h.entryPtrs_eq, List.mem_map] at hp
  obtain ⟨j, hj, hjp⟩ := hp
  exact ⟨j, List.mem_range.mp hj, hjp⟩

/-- What is cut off the buffer is all of it. -/
theorem Linked.inside (hsizes : PoolSizes page c E A O) (hlen : c.bufLen = E + O)
    (hfits : c.Fits page.toNat) (h : Linked c E A c.objectCount.toNat 0 s) :
    ∀ e ∈ s.extents c.buf, e.stop ≤ c.bufLen.toNat := by
  have hsum : (E.toNat :: List.replicate c.objectCount.toNat A.toNat).sum = c.bufLen.toNat := by
    rw [toNat_bufLen hsizes hlen hfits, List.sum_cons, List.sum_replicate_nat, Nat.mul_comm]
  intro e he
  rw [h.extents_eq hsizes hfits] at he
  rw [← hsum, ← Nat.zero_add (List.sum _)]
  exact carve_stop_le he

theorem Linked.aligned (hsizes : PoolSizes page c E A O) (hfits : c.Fits page.toNat)
    (h : Linked c E A c.objectCount.toNat 0 s) : ∀ e ∈ s.extents c.buf, page.toNat ∣ e.start := by
  intro e he
  rw [h.extents_eq hsizes hfits] at he
  refine carve_dvd (Nat.dvd_zero _) (fun len hlen => ?_) he
  obtain rfl | hlen := List.mem_cons.mp hlen
  · exact hsizes.dvd.1
  · rw [List.eq_of_mem_replicate hlen]
    exact hsizes.dvd.2

/-- The entries are in the table. -/
theorem Linked.entries_inside (hpage : page ≠ 0) (hsizes : PoolSizes page c E A O)
    (h : Linked c E A n i s) :
    ∀ p ∈ s.entryPtrs, (s.pool.poolHeap.extent c.buf).start ≤ (p - c.buf).toNat ∧
      (p - c.buf).toNat + poolEntryAllocSize.toNat ≤ (s.pool.poolHeap.extent c.buf).stop := by
  intro p hp
  obtain ⟨j, hj, rfl⟩ := h.exists_index hp
  have htable : c.objectCount.toNat * poolEntryAllocSize.toNat ≤ E.toNat := by
    rw [hsizes.entries]
    exact le_alignedlen (SizeT.toNat_ne_zero hpage) _
  have hlast : (j + 1) * poolEntryAllocSize.toNat ≤ c.objectCount.toNat * poolEntryAllocSize.toNat :=
    Nat.mul_le_mul_right _ hj
  rw [Nat.succ_mul] at hlast
  rw [h.table_extent, entryPtr_toNat_sub (hsizes.entries_lt hpage) hj]
  exact ⟨Nat.zero_le _, Nat.le_trans (Nat.le_trans hlast htable) (Nat.le_add_left _ _)⟩

/-- A heap has the room it was asked for. -/
theorem Linked.room (hpage : page ≠ 0) (hsizes : PoolSizes page c E A O)
    (h : Linked c E A c.objectCount.toNat 0 s) :
    ∀ p ∈ s.entryPtrs, c.objectSize ≤ (s.entries p).heap.stack.room := by
  intro p hp
  obtain ⟨j, hj, rfl⟩ := h.exists_index hp
  have hroom : ∀ addr : UInt64, (StackPtrs.init addr A).room = A := by
    intro addr
    rw [StackPtrs.room, StackPtrs.init, UInt64.add_comm, UInt64.add_sub_cancel]
  rw [h.entries j (Nat.zero_le j) hj]
  show c.objectSize ≤ (StackPtrs.init _ A).room
  rw [hroom, UInt64.le_iff_toNat_le, hsizes.object]
  exact le_alignedlen (SizeT.toNat_ne_zero hpage) _

theorem Linked.ids (h : Linked c E A c.objectCount.toNat 0 s) :
    s.entryPtrs.map (fun p => (s.entries p).entryId.toNat) = List.range c.objectCount.toNat := by
  rw [h.entryPtrs_eq, List.map_map]
  refine (List.map_congr_left fun j hj => ?_).trans (List.map_id _)
  have hj : j < c.objectCount.toNat := List.mem_range.mp hj
  show (s.entries (entryPtr c j)).entryId.toNat = j
  rw [h.entries j (Nat.zero_le j) hj]
  exact toNat_index hj

theorem Linked.free_all (h : Linked c E A c.objectCount.toNat 0 s) :
    s.pool.freeEntries.Is s.entryPtrs := by
  have hfree := h.free
  rw [Nat.sub_zero, ← List.range_eq_range'] at hfree
  rw [h.entryPtrs_eq]
  exact hfree

theorem Linked.layout (hpage : page ≠ 0) (hsizes : PoolSizes page c E A O) (hlen : c.bufLen = E + O)
    (hfits : c.Fits page.toNat) (h : Linked c E A c.objectCount.toNat 0 s) :
    Layout page.toNat c s where
  inside := h.inside hsizes hlen hfits
  apart := by
    rw [h.extents_eq hsizes hfits]
    exact carve_apart _ _
  aligned := h.aligned hsizes hfits
  entries := h.entries_inside hpage hsizes
  room := h.room hpage hsizes
  free := h.free_all
  once := h.once (hsizes.entries_lt hpage)
  ids := h.ids

theorem layout_of_fits {table : SysResult UInt64} (hpage : page ≠ 0) (hbuf : c.buf ≠ 0)
    (h : s.init page c table mmap = some (0, s')) (hfits : c.Fits page.toNat) :
    Layout page.toNat c s' := by
  obtain ⟨E, A, O, n, hsizes, hlen, hturns, hlinked⟩ := init_ok hpage hbuf h
  obtain rfl : n = c.objectCount.toNat := (turns_eq_some hturns).2.mpr hfits.2
  exact hlinked.layout hpage hsizes hlen hfits

theorem fits_of_layout {table : SysResult UInt64} (hpage : page ≠ 0) (hbuf : c.buf ≠ 0)
    (h : s.init page c table mmap = some (0, s')) (hlayout : Layout page.toNat c s') :
    c.Fits page.toNat := by
  obtain ⟨E, A, O, n, hsizes, hlen, hturns, hlinked⟩ := init_ok hpage hbuf h
  exact hlinked.fits hsizes hlen hturns hlayout

/-- **A pool in a buffer.**  Where `vk_pool_init` succeeds with a buffer, the table and the
heaps are in it, apart and aligned, each heap has the room it was asked for, and every
entry is free once, in order, exactly if the needed size does not wrap and the count is
an `int`. -/
theorem init_layout_iff {table : SysResult UInt64} (hpage : page ≠ 0) (hbuf : c.buf ≠ 0)
    (h : s.init page c table mmap = some (0, s')) : Layout page.toNat c s' ↔ c.Fits page.toNat :=
  ⟨fits_of_layout hpage hbuf h, layout_of_fits hpage hbuf h⟩

end Layout

/-- A pool in memory that has been cleared. -/
def cleared : PoolState where
  pool :=
    ⟨⟨.describe 0 0 0 false false, .init 0 0⟩, ⟨none, fun _ => none⟩, 0, 0, 0, 0, none, none, none⟩
  entries := fun _ => ⟨0, ⟨.describe 0 0 0 false false, .init 0 0⟩⟩
  errno := 0

/-- Two heaps of 5000 bytes behind a page for the table. -/
def two : PoolInit := ⟨5000, 2, 65536, 20480, none, none, none, false⟩

theorem init_layout_iff_two : ∃ s', cleared.init 4096 two (.err Errno.ENOMEM)
    (fun _ => .err Errno.ENOMEM) = some (0, s') ∧ Layout 4096 two s' := by
  have hrc : (cleared.init 4096 two (.err Errno.ENOMEM)
      fun _ => .err Errno.ENOMEM).map Prod.fst = some 0 := by decide +kernel
  obtain ⟨⟨rc, s'⟩, hinit, rfl⟩ := Option.map_eq_some_iff.mp hrc
  exact ⟨s', hinit, (init_layout_iff (by decide) (by decide) hinit).mpr ⟨by decide, by decide⟩⟩

/-- Heaps that are as large as can be: 53 of them, behind a table of two pages. -/
def oversized : PoolInit := ⟨348051774975651840, 53, 65536, 4096, none, none, none, false⟩

/-- They come to 2⁶⁴ - 4096 bytes, and with the table to 2⁶⁴ + 4096: a buffer of one page
is taken, in which the table alone does not fit. -/
theorem oversized_pool_taken : ∃ s', cleared.init 4096 oversized (.err Errno.ENOMEM)
    (fun _ => .err Errno.ENOMEM) = some (0, s') ∧ ¬Layout 4096 oversized s' := by
  have hrc : (cleared.init 4096 oversized (.err Errno.ENOMEM)
      fun _ => .err Errno.ENOMEM).map Prod.fst = some 0 := by decide +kernel
  obtain ⟨⟨rc, s'⟩, hinit, rfl⟩ := Option.map_eq_some_iff.mp hrc
  refine ⟨s', hinit, fun hlayout => ?_⟩
  have hfits := (fits_of_layout (by decide) (by decide) hinit hlayout).1
  exact absurd hfits (by decide)

/-! ## A buffer of the needed size -/

section Needed
variable {s s' : PoolState} {c : PoolInit} {page E A O : UInt64} {mmap : Nat → SysResult UInt64}
  {i n : Nat}

/-- A length of whole pages is not -1 as an `int`, if a page is not a single byte. -/
theorem intOf_ne_neg_one {len : UInt64} (h : 2 ∣ len.toNat) : intOf len ≠ -1 := by
  rw [intOf_eq]
  split
  · omega
  · omega

/-- Neither callback ever fails. -/
structure Quiet (pool : Pool) : Prop where
  init : ∀ f ∈ pool.objectInitFunc, ∀ e, f e = .ok ()
  free : ∀ f ∈ pool.objectFreeFunc, ∀ e, f e = .ok ()

theorem orFail_of_ne {rc : Int} (hrc : rc ≠ -1) (next : Option (Int × PoolState)) :
    s.orFail (.ok rc) next = next := if_neg hrc

theorem andThen_of_ok (s : PoolState) (next : PoolState → Option (Int × PoolState)) :
    andThen (some (0, s)) next = next s := rfl

theorem callback_of_quiet {f : Option PoolEntryInitFunc} (h : ∀ g ∈ f, ∀ e, g e = .ok ()) (p : UInt64) :
    s.callback p f = .ok 0 := by
  cases f with
  | none => rfl
  | some g =>
      rw [callback, h g rfl]
      rfl

theorem freeEntry_of_quiet (hquiet : Quiet s.pool) (p : UInt64) :
    s.freeEntry (some p) = some (0, s.link p) := by
  have hcall : (s.link p).callback p (s.link p).pool.objectFreeFunc = .ok 0 :=
    callback_of_quiet hquiet.free p
  rw [freeEntry]
  show (s.link p).orFail ((s.link p).callback p (s.link p).pool.objectFreeFunc) (some (0, s.link p)) = _
  rw [hcall, orFail_of_ne (by decide)]

/-- A turn with a buffer then comes to its end. -/
theorem initEntry_of_quiet {p : UInt64} (hbuf : s.pool.buf ≠ 0) (hquiet : Quiet s.pool)
    (hA : intOf A ≠ -1) (hp : s.pool.getEntry (UInt64.ofNat i) = some p) :
    s.initEntry c E A mmap i = some (0, (s.fill c E A i p).link p) := by
  have hfill : Quiet (s.fill c E A i p).pool := hquiet
  have hlink : Quiet ((s.fill c E A i p).link p).pool := ⟨hquiet.init, hquiet.free⟩
  rw [initEntry_eq hbuf hp, orFail_of_ne hA, freeEntry_of_quiet hfill, andThen_of_ok,
    callback_of_quiet hlink.init, orFail_of_ne (by decide)]

theorem initEntries_of_quiet (hbuf : s.pool.buf ≠ 0) (hquiet : Quiet s.pool) (hA : intOf A ≠ -1)
    (hn : n ≤ s.pool.objectCount.toNat) : ∃ s', s.initEntries c E A mmap n = some (0, s') := by
  induction n generalizing s with
  | zero => exact ⟨s, rfl⟩
  | succ i ih =>
      have hlt : ¬UInt64.ofNat i ≥ s.pool.objectCount := by
        rw [ge_iff_le, UInt64.le_iff_toNat_le,
          UInt64.toNat_ofNat_of_lt' (Nat.lt_trans hn (UInt64.toNat_lt_size _))]
        omega
      have hp : s.pool.getEntry (UInt64.ofNat i) =
          some (s.pool.poolHeap.stack.addrStart + UInt64.ofNat i * poolEntryAllocSize) := if_neg hlt
      rw [initEntries, initEntry_of_quiet hbuf hquiet hA hp, andThen_of_ok]
      exact ih hbuf ⟨hquiet.init, hquiet.free⟩ (Nat.le_of_succ_le hn)

/-- What fits has a needed size. -/
theorem neededBufferSize_of_fits (hpage : page ≠ 0) (hcount : 0 < c.objectCount.toNat)
    (hfits : c.Fits page.toNat) :
    ∃ E O, Pool.neededBufferSize page c.objectSize c.objectCount = .ok (E, O) := by
  have hsum := hfits.1
  have hobject : alignedlen page.toNat c.objectSize.toNat ≤
      alignedlen page.toNat c.objectSize.toNat * c.objectCount.toNat := Nat.le_mul_of_pos_right _ hcount
  have hE := SizeT.safeAlignedlen_eq hpage c.objectCount poolEntryAllocSize
  have hA := SizeT.safeAlignedlen_eq hpage 1 c.objectSize
  rw [if_pos (by omega)] at hE
  rw [UInt64.toNat_one, Nat.one_mul, if_pos (by omega)] at hA
  have hlen : (UInt64.ofNat (alignedlen page.toNat c.objectSize.toNat)).toNat =
      alignedlen page.toNat c.objectSize.toNat :=
    UInt64.toNat_ofNat_of_lt' (by rw [UInt64.size]; omega)
  have hO := SizeT.safeMult_eq (UInt64.ofNat (alignedlen page.toNat c.objectSize.toNat)) c.objectCount
  rw [hlen, if_pos (by omega)] at hO
  rw [Pool.neededBufferSize, hE, hA]
  simp only [hO]
  exact ⟨_, _, rfl⟩

/-- With a buffer of the needed size and callbacks that do not fail, `vk_pool_init`
succeeds. -/
theorem init_of_needed {table : SysResult UInt64} (heven : 2 ∣ page.toNat) (hpage : page ≠ 0)
    (hbuf : c.buf ≠ 0) (hinit : ∀ f ∈ c.objectInitFunc, ∀ e, f e = .ok ())
    (hfree : ∀ f ∈ c.objectFreeFunc, ∀ e, f e = .ok ())
    (hneeded : Pool.neededBufferSize page c.objectSize c.objectCount = .ok (E, O))
    (hlen : c.bufLen = E + O) (hturns : turns c.objectCount = some n) :
    ∃ s', s.init page c table mmap = some (0, s') := by
  cases hA : SizeT.safeAlignedlen page 1 c.objectSize with
  | err e =>
      rw [Pool.neededBufferSize, hA] at hneeded
      cases hE : SizeT.safeAlignedlen page c.objectCount poolEntryAllocSize with
      | err e => simp [hE] at hneeded
      | ok E' => simp [hE] at hneeded
  | ok A =>
      have hsizes := poolSizes_of_ok hpage hA hneeded
      have hintE : intOf E ≠ -1 := intOf_ne_neg_one (Nat.dvd_trans heven hsizes.dvd.1)
      have hintA : intOf A ≠ -1 := intOf_ne_neg_one (Nat.dvd_trans heven hsizes.dvd.2)
      have hquiet : Quiet (s.tabled c E).pool := ⟨hinit, hfree⟩
      have hbuf' : (s.tabled c E).pool.buf ≠ 0 := hbuf
      rw [init_eq hbuf hA hneeded hlen, orFail_of_ne hintE, hturns]
      exact initEntries_of_quiet hbuf' hquiet hintA (turns_eq_some hturns).1

end Needed

end PoolState

/-! ## The pool of processes -/

/-- `sizeof (struct vk_proc)`. -/
def procAllocSize : UInt64 := 168

def VK_KERN_PROC_MAX : UInt64 := 16384

/-- What `vk_kern_alloc` hands to `vk_pool_init`, with the lengths it was given by
`vk_pool_needed_buffer_size`.  The callbacks of the kernel answer 0. -/
def procPool (buf entryBufferSize objectBufferSize : UInt64) : PoolInit where
  objectSize := procAllocSize
  objectCount := VK_KERN_PROC_MAX
  buf := buf
  bufLen := entryBufferSize + objectBufferSize
  objectInitFunc := some fun _ => .ok ()
  objectFreeFunc := some fun _ => .ok ()
  objectDeinitFunc := some fun _ => .ok ()
  entered := true

theorem fits_procPool {page : UInt64} (hpage : page ≠ 0) (hsmall : page.toNat ≤ 2 ^ 32)
    (buf E O : UInt64) : (procPool buf E O).Fits page.toNat := by
  have hpos := SizeT.toNat_ne_zero hpage
  have hentries := alignedlen_lt hpos (16384 * 104)
  have hobject := alignedlen_lt hpos 168
  have hsum : alignedlen page.toNat (16384 * 104) + alignedlen page.toNat 168 * 16384 < 2 ^ 64 := by
    omega
  have hcount : VK_KERN_PROC_MAX.toNat < 2 ^ 31 := by decide
  exact ⟨hsum, hcount⟩

/-- The kernel's processes are laid out as they should be, and numbered in the order in
which `Kern` has them free. -/
theorem procPool_layout {page buf : UInt64} (heven : 2 ∣ page.toNat) (hpage : page ≠ 0)
    (hsmall : page.toNat ≤ 2 ^ 32) (hbuf : buf ≠ 0) (table : SysResult UInt64)
    (mmap : Nat → SysResult UInt64) (s : PoolState) (b : Boot)
    (hb : b.procCount = VK_KERN_PROC_MAX.toNat) :
    ∃ E O s', Pool.neededBufferSize page procAllocSize VK_KERN_PROC_MAX = .ok (E, O) ∧
      s.init page (procPool buf E O) table mmap = some (0, s') ∧
      PoolState.Layout page.toNat (procPool buf E O) s' ∧
      s'.entryPtrs.map (fun p => (s'.entries p).entryId.toNat) = (Kern.alloc b).freeProcs := by
  have hcount : 0 < VK_KERN_PROC_MAX.toNat := by decide
  obtain ⟨E, O, hneeded⟩ :
      ∃ E O, Pool.neededBufferSize page procAllocSize VK_KERN_PROC_MAX = .ok (E, O) :=
    PoolState.neededBufferSize_of_fits hpage hcount (fits_procPool hpage hsmall buf 0 0)
  have hquiet : ∀ f ∈ some fun _ : PoolEntry => SysResult.ok (), ∀ e, f e = .ok () := by
    rintro f ⟨⟩ e
    rfl
  have hturns : turns VK_KERN_PROC_MAX = some 16384 := by decide
  obtain ⟨s', hinit⟩ : ∃ s', s.init page (procPool buf E O) table mmap = some (0, s') :=
    PoolState.init_of_needed heven hpage hbuf hquiet hquiet hneeded rfl hturns
  have hlayout := PoolState.layout_of_fits hpage hbuf hinit (fits_procPool hpage hsmall buf E O)
  refine ⟨E, O, s', hneeded, hinit, hlayout, ?_⟩
  have hfree : (Kern.alloc b).freeProcs = List.range b.procCount := rfl
  rw [hlayout.ids, hfree, hb]
  rfl

end Vk

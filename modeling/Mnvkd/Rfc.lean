/-
# `Mnvkd.Rfc` — lines, headers and chunks

`vk_rfc.c`, and the macros of `vk_rfc.h` that read, over what a reader gives.  A
line is trimmed of its line break and ended by a NUL in place, so what is parsed
of it is the string in it.
-/
import Mnvkd.Lib.Text
import Mnvkd.Reader

namespace Vk.Rfc

open Lib Text

/-! ## Parsing -/

/-- `rtrim`: off with a newline, and then with a carriage return. -/
def rtrim (line : List UInt8) : List UInt8 :=
  let line := if line.getLast? = some '\n'.toUInt8 then line.dropLast else line
  if line.getLast? = some '\r'.toUInt8 then line.dropLast else line

/-- `ltrim`.  For each space it passes it moves the pointer to the size, and not the
size: `below k` is what lies `k` words below the size on the stack.  It gives what is
left, and how many words below the size it has read. -/
def ltrim (below : Nat → Int) : Nat → List UInt8 → List UInt8 × Nat
  | k, [] => ([], k)
  | k, b :: line =>
      if (k = 0 ∨ 0 < below k) ∧ b = ' '.toUInt8 then ltrim below (k + 1) line
      else (b :: line, k)

/-- `ltrimlen`: of a string, which has a size of its own. -/
def ltrimlen (below : Nat → Int) (s : List UInt8) : List UInt8 × Nat := ltrim below 0 s

/-- The delimiters of a header, `": \t"`. -/
def headerDelims : List UInt8 := [':'.toUInt8, ' '.toUInt8, '\t'.toUInt8]

/-- A header that was parsed, and how many words of the stack that are not its own
`parse_header` read for it. -/
structure Parsed where
  key : List UInt8
  val : List UInt8
  stray : Nat
  deriving DecidableEq

/-- `parse_header`: the key and the value of a line, unless it is empty or has no
delimiter. -/
def parseHeader (below : Nat → Int) (line : List UInt8) : Option Parsed :=
  let line := rtrim line
  if line = [] then none
  else
    match strsep headerDelims (cstring line) with
    | (_, none) => none
    | (key, some tok) =>
        some { key, val := (ltrimlen below tok).1, stray := (ltrimlen below tok).2 }

/-- `copy_into`, `strncpy` and a NUL at the end. -/
def copyInto (n : Nat) (s : List UInt8) : Fin n → UInt8 :=
  fun i => if i.val + 1 = n then 0 else (cstring s).getD i 0

/-- `dec_size`: up to twenty decimal digits, in a `size_t`. -/
def decSize (val : List UInt8) : UInt64 :=
  ((cstring val).take 20 |>.takeWhile isdigit).foldl
    (fun size d => size * 10 + (d - 48).toUInt64) 0

/-- `HEXVAL` of a `char`, which is signed. -/
def hexVal (b : UInt8) : UInt64 :=
  let c : Int := b.toInt8.toInt
  UInt64.ofNat (((c % 32 + c / 64 * 25 - 16) % 16).toNat)

/-- `hex_size`: up to sixteen characters, whatever they are. -/
def hexSize (val : List UInt8) : UInt64 :=
  ((cstring val).take 16).foldl (fun size b => (size <<< 4) ||| hexVal b) 0

/-! ## Chunk sizes -/

/-- `flsl`: the number of the highest bit that is set, the lowest being one. -/
def flsl (mask : UInt64) : Nat :=
  if mask = 0 then 0 else go 63 1 mask
where
  go : Nat → Nat → UInt64 → Nat
    | 0, bit, _ => bit
    | fuel + 1, bit, mask => if mask = 1 then bit else go fuel (bit + 1) (mask >>> 1)

/-- `flsh`, of the size three bits up. -/
def flsh (size : UInt64) : Nat := flsl (size <<< 3) >>> 2

/-- `VALHEX`, of an `int`. -/
def valHex (v : UInt32) : UInt8 :=
  let decimal : UInt32 := ((v - 10) &&& 0x80) >>> 7
  let letter : UInt32 := ((9 - v) &&& 0x80) >>> 7
  (((v + 48) &&& -decimal) ||| ((v + 55) &&& -letter)).toUInt8

/-- The loop of `size_hex`, with `r` digits left to go through and `j` written. -/
def sizeHexLoop (len : Nat) (size : UInt64) : Nat → Nat → List UInt8 → List UInt8 × Nat
  | 0, j, val => (val, j)
  | r + 1, j, val =>
      if j < len then
        let c := (size >>> (4 * r).toUInt64) &&& 0xf
        sizeHexLoop len size r (if j = 0 ∧ c = 0 then j else j + 1) (val.set j (valHex c.toUInt32))
      else (val, j)

/-- `size_hex`: the buffer it leaves, and how many bytes it reports. -/
def sizeHex (val : List UInt8) (len : Nat) (size : UInt64) : List UInt8 × Nat :=
  let (val, j) := sizeHexLoop (min len 16) size (flsh size) 0 val
  (val, if j = 0 then 1 else j)

/-- `struct vk_rfcchunkhead`, of which the tail is only read. -/
structure RfcChunkHead where
  size : UInt64
  head : List UInt8
  length_head : head.length = 19

theorem length_sizeHexLoop (len : Nat) (size : UInt64) (r j : Nat) (val : List UInt8) :
    (sizeHexLoop len size r j val).1.length = val.length := by
  induction r generalizing j val with
  | zero => rfl
  | succ r ih =>
      rw [sizeHexLoop]
      split
      next => rw [ih, List.length_set]
      next => rfl

/-- `vk_rfcchunkhead_update_head`. -/
def RfcChunkHead.updateHead (c : RfcChunkHead) : RfcChunkHead × Nat :=
  let r := sizeHex c.head 18 c.size
  ({ c with
      head := ((r.1.set r.2 '\r'.toUInt8).set (r.2 + 1) '\n'.toUInt8).set (r.2 + 2) 0
      length_head := by
        rw [List.length_set, List.length_set, List.length_set]
        exact (length_sizeHexLoop _ _ _ _ _).trans c.length_head },
    r.2 + 2)

/-! ## Reading -/

variable {σ : Type}

/-- `vk_readrfcline`: a line, trimmed. -/
def readrfcline (r : Reader σ) (len : Nat) (s : σ) : Except Errno (List UInt8 × σ) :=
  if (r.readline len s).1 = [] then .error Errno.EPIPE
  else .ok (rtrim (r.readline len s).1, (r.readline len s).2)

/-- `vk_readrfcheader`: a header, or none where they end. -/
def readrfcheader (r : Reader σ) (below : σ → Nat → Int) (len : Nat) (s : σ) :
    Except Errno (Option Parsed × σ) :=
  match readrfcline r len s with
  | .error e => .error e
  | .ok (line, s) => .ok (parseHeader (below s) line, s)

/-- `sizeof(((struct vk_rfcchunkhead*)0)->head) - 1`. -/
def headSize : Nat := 18

/-- `vk_readrfcchunkheader`: the size of a chunk. -/
def readrfcchunkheader (r : Reader σ) (s : σ) : Except Errno (UInt64 × σ) :=
  match readrfcline r (headSize - 1) s with
  | .error e => .error e
  | .ok (line, s) =>
      if line = [] ∨ headSize - 1 < line.length then .error Errno.EPROTO
      else .ok (hexSize line, s)

/-- `vk_readrfcchunkfooter` of a chunk that is not the last. -/
def readrfcchunkfooter (r : Reader σ) (s : σ) : Except Errno σ :=
  if (r.read 2 s).1.length ≠ 2 then .error Errno.EPIPE
  else if (r.read 2 s).1 ≠ ['\r'.toUInt8, '\n'.toUInt8] then .error Errno.EPROTO
  else .ok (r.read 2 s).2

end Vk.Rfc

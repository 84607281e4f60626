/-
# `Mnvkd.Sys` — what the operating system answers

A system call either succeeds, with what it transferred, or fails with an
`errno`.  Answers are arguments of the functions that make the call, so one
definition covers every outcome.
-/
import Mathlib.Algebra.Group.Int.Defs
import Mathlib.Algebra.Group.Nat.Defs
import Mnvkd.Lib.Memory

namespace Vk

open Lib

/-- A value of `errno`.  They are positive; 0 is no error. -/
abbrev Errno := Nat

namespace Errno
def EINTR : Errno := 4
def EAGAIN : Errno := 11
def EFAULT : Errno := 14
def EINVAL : Errno := 22
def EPIPE : Errno := 32
def EPROTO : Errno := 71
def ERANGE : Errno := 34
def ENOBUFS : Errno := 105
end Errno

/-- The answer to a system call. -/
inductive SysResult (α : Type) where
  | ok (a : α)
  | err (errno : Errno)
  deriving DecidableEq, Repr

/-- The answers to the system calls of one pass through a socket handler, which
makes at most one call of each kind.  `readv` and `accept` answer with the
bytes they deliver, `writev` with how many it took. -/
structure Os where
  readv : SysResult (List UInt8)
  writev : SysResult Nat
  accept : SysResult (List UInt8)
  close : SysResult Unit
  shutdown : SysResult Unit

end Vk

/-
# `Mnvkd.Accepted` — setting up a connection

`vk_accepted_accept` takes a descriptor from `accept4(2)`, `vk_accepted_connect` and
`vk_accepted_connect_to` from `socket(2)`.  Each has steps after that which may fail, and
what it returns then is -1, which no descriptor can be closed by.

What the process has open is the list `fds`; a descriptor that is opened is put in front
and one that is closed is taken out, so that the list after a call tells what the call
has left open.

| | the descriptor is kept where |
| :-- | :-- |
| `accept` | every step after `accept4(2)` succeeds |
| `connect` | never: the address it would show is not the one it was given |
| `connectTo` | the first address that can be connected to is reached |
-/
import Mnvkd.Sys

namespace Vk

namespace Errno
def ENOTSUP : Errno := 95
end Errno

/-! ## What is described -/

def AF_UNSPEC : Nat := 0
def AF_INET : Nat := 2
def AF_INET6 : Nat := 10

/-- `struct sockaddr_storage`: the family, and the bytes after it. -/
structure SockAddr where
  saFamily : Nat
  data : List UInt8
  deriving DecidableEq, Repr

namespace SockAddr

def zero : SockAddr := ⟨AF_UNSPEC, []⟩

/-- `htons` of the port, which `sin_port` and `sin6_port` have in the same place. -/
def port (a : SockAddr) : Nat := (a.data.getD 0 0).toNat * 256 + (a.data.getD 1 0).toNat

/-- A family the code has a form of writing for. -/
def shown (a : SockAddr) : Bool := a.saFamily == AF_INET || a.saFamily == AF_INET6

end SockAddr

/-- `struct vk_accepted`, without the thread and the process that are set later. -/
structure Accepted where
  fd : Nat
  address : SockAddr
  addressLen : Nat
  addressStr : String
  portStr : String
  deriving DecidableEq, Repr

/-- The descriptors that are open, and how many address lists have been freed. -/
structure OpenFds where
  fds : List Nat
  freed : Nat
  deriving DecidableEq, Repr

namespace OpenFds

def opened (o : OpenFds) (fd : Nat) : OpenFds := { o with fds := fd :: o.fds }

/-- `close(2)`, which releases the descriptor whatever it returns. -/
def close (o : OpenFds) (fd : Nat) : OpenFds := { o with fds := o.fds.erase fd }

def freeaddrinfo (o : OpenFds) : OpenFds := { o with freed := o.freed + 1 }

/-- What was opened last is closed again. -/
@[simp] theorem close_opened (o : OpenFds) (fd : Nat) : (o.opened fd).close fd = o := by
  simp only [opened, close, List.erase_cons_head]

@[simp] theorem opened_fds (o : OpenFds) (fd : Nat) : (o.opened fd).fds = fd :: o.fds := rfl
@[simp] theorem opened_freed (o : OpenFds) (fd : Nat) : (o.opened fd).freed = o.freed := rfl
@[simp] theorem freeaddrinfo_fds (o : OpenFds) : o.freeaddrinfo.fds = o.fds := rfl
@[simp] theorem freeaddrinfo_freed (o : OpenFds) : o.freeaddrinfo.freed = o.freed + 1 := rfl

end OpenFds

namespace Accepted

/-- Memory that has been cleared. -/
def cleared : Accepted := ⟨0, .zero, 0, "", ""⟩

/-- What the functions that write an address out return. -/
structure Format where
  inetNtop : SysResult String
  snprintf : SysResult Unit
  deriving DecidableEq, Repr

/-- `vk_accepted_set_address_str`. -/
def setAddressStr (accepted : Accepted) (format : Format) : SysResult Accepted :=
  if accepted.address.shown then
    match format.inetNtop with
    | .err e => .err e
    | .ok str => .ok { accepted with addressStr := str }
  else .err Errno.ENOTSUP

/-- `vk_accepted_set_port_str`. -/
def setPortStr (accepted : Accepted) (format : Format) : SysResult Accepted :=
  if accepted.address.shown then
    match format.snprintf with
    | .err e => .err e
    | .ok () => .ok { accepted with portStr := toString accepted.address.port }
  else .err Errno.ENOTSUP

/-- What a call returns, the descriptor or -1, with what it has made of the memory and of
what is open. -/
structure Result where
  rc : Option Nat
  accepted : Accepted
  opened : OpenFds
  deriving DecidableEq, Repr

/-- The last steps of `accept` and of `connect`: the address is written out, and the
descriptor stored. -/
def finish (accepted : Accepted) (fd : Nat) (format : Format) (o : OpenFds) : Result :=
  match accepted.setAddressStr format with
  | .err _ => ⟨none, accepted, o⟩
  | .ok accepted =>
      match accepted.setPortStr format with
      | .err _ => ⟨none, accepted, o⟩
      | .ok accepted => ⟨some fd, { accepted with fd }, o⟩

/-- What the system answers to `vk_accepted_accept`. -/
structure AcceptAnswers where
  accept : SysResult (Nat × SockAddr × Nat)
  setsockopt : SysResult Unit
  format : Format
  deriving DecidableEq, Repr

/-- `vk_accepted_accept`. -/
def accept (answers : AcceptAnswers) (o : OpenFds) : Result :=
  match answers.accept with
  | .err _ => ⟨none, cleared, o⟩
  | .ok (fd, address, addressLen) =>
      let accepted := { cleared with address, addressLen }
      let o := o.opened fd
      match answers.setsockopt with
      | .err _ => ⟨none, accepted, o⟩
      | .ok () => accepted.finish fd answers.format o

/-- What the system answers when a socket is made and connected. -/
structure Attempt where
  socket : SysResult Nat
  setsockopt : SysResult Unit
  connect : SysResult Unit
  deriving DecidableEq, Repr

/-- `vk_accepted_connect`.  The address it connects to is not copied: the one that is
written out is the cleared one. -/
def connect (answers : Attempt) (format : Format) (o : OpenFds) : Result :=
  match answers.socket with
  | .err _ => ⟨none, cleared, o⟩
  | .ok fd =>
      let o := o.opened fd
      match answers.setsockopt with
      | .err _ => ⟨none, cleared, o⟩
      | .ok () =>
          match answers.connect with
          | .err _ => ⟨none, cleared, o.close fd⟩
          | .ok () => cleared.finish fd format o

/-- `struct addrinfo`, with what the system answers when it is tried. -/
structure AddrInfo where
  aiAddr : SockAddr
  aiAddrlen : Nat
  attempt : Attempt
  deriving DecidableEq, Repr

/-- How the loop over the addresses ends. -/
inductive Tried where
  | connected (rp : AddrInfo) (fd : Nat)
  | exhausted
  | returned
  deriving DecidableEq, Repr

/-- The loop of `vk_accepted_connect_to`. -/
def connectLoop : List AddrInfo → OpenFds → Tried × OpenFds
  | [], o => (.exhausted, o)
  | rp :: rest, o =>
      match rp.attempt.socket with
      | .err _ => connectLoop rest o
      | .ok fd =>
          let o := o.opened fd
          match rp.attempt.setsockopt with
          | .err _ => (.returned, o)
          | .ok () =>
              match rp.attempt.connect with
              | .ok () => (.connected rp fd, o)
              | .err _ => connectLoop rest (o.close fd)

/-- `vk_accepted_connect_to`. -/
def connectTo (getaddrinfo : SysResult (List AddrInfo)) (o : OpenFds) : Result :=
  match getaddrinfo with
  | .err _ => ⟨none, cleared, o⟩
  | .ok result =>
      match connectLoop result o with
      | (.returned, o) => ⟨none, cleared, o⟩
      | (.exhausted, o) => ⟨none, cleared, o.freeaddrinfo⟩
      | (.connected rp fd, o) =>
          ⟨some fd, { cleared with address := rp.aiAddr, addressLen := rp.aiAddrlen, fd },
            o.freeaddrinfo⟩

/-! ## What is left open -/

/-- One more descriptor is open, the one returned and stored, or none is; and so many
address lists have been freed. -/
structure Result.Tidy (r : Result) (o : OpenFds) (lists : Nat) : Prop where
  kept : ∀ fd, r.rc = some fd → r.opened.fds = fd :: o.fds ∧ r.accepted.fd = fd
  failed : r.rc = none → r.opened.fds = o.fds
  freed : r.opened.freed = o.freed + lists

section Tidy
variable {r : Result} {o : OpenFds} {n fd : Nat}

/-- What failed has left a descriptor open. -/
theorem not_tidy_of_open (hrc : r.rc = none) (hopened : r.opened.fds = fd :: o.fds) :
    ¬r.Tidy o n := by
  intro h
  have hsame := h.failed hrc
  rw [hopened] at hsame
  exact List.cons_ne_self fd o.fds hsame

theorem tidy_failed (accepted : Accepted) : Result.Tidy ⟨none, accepted, o⟩ o 0 :=
  ⟨fun _ h => (nomatch h), fun _ => rfl, rfl⟩

/-- The address is of a family there is a form of writing for, and both of its parts are
written. -/
def Written (address : SockAddr) (format : Format) : Prop :=
  address.shown = true ∧ (∃ str, format.inetNtop = .ok str) ∧ format.snprintf = .ok ()

/-- The last steps store the descriptor if the address is written out, and return without
it otherwise. -/
theorem finish_cases (accepted : Accepted) (fd : Nat) (format : Format) (o : OpenFds) :
    (Written accepted.address format ∧ ∃ a, a.fd = fd ∧
        accepted.finish fd format o = ⟨some fd, a, o⟩) ∨
      (¬Written accepted.address format ∧ ∃ a, accepted.finish fd format o = ⟨none, a, o⟩) := by
  by_cases hshown : accepted.address.shown = true
  · cases hntop : format.inetNtop with
    | err e =>
        refine Or.inr ⟨?_, accepted, ?_⟩
        · rintro ⟨-, ⟨str, hstr⟩, -⟩
          rw [hntop] at hstr
          cases hstr
        · simp only [finish, setAddressStr, if_pos hshown, hntop]
    | ok str =>
        cases hprint : format.snprintf with
        | err e =>
            refine Or.inr ⟨?_, { accepted with addressStr := str }, ?_⟩
            · rintro ⟨-, -, hok⟩
              rw [hprint] at hok
              cases hok
            · simp only [finish, setAddressStr, setPortStr, if_pos hshown, hntop, hprint]
        | ok _ =>
            refine Or.inl ⟨⟨hshown, ⟨str, hntop⟩, hprint⟩, { accepted with
              addressStr := str, portStr := toString accepted.address.port, fd }, rfl, ?_⟩
            simp only [finish, setAddressStr, setPortStr, if_pos hshown, hntop, hprint]
  · refine Or.inr ⟨fun h => hshown h.1, accepted, ?_⟩
    simp only [finish, setAddressStr, if_neg hshown]

/-- The last steps leave things tidy only where the address is written out. -/
theorem finish_tidy_iff (accepted : Accepted) (format : Format) :
    (accepted.finish fd format (o.opened fd)).Tidy o 0 ↔ Written accepted.address format := by
  obtain ⟨hw, a, hfd, heq⟩ | ⟨hw, a, heq⟩ := finish_cases accepted fd format (o.opened fd)
  · rw [heq]
    refine iff_of_true ⟨?_, fun h => (nomatch h), rfl⟩ hw
    rintro _ ⟨⟩
    exact ⟨rfl, hfd⟩
  · rw [heq]
    exact iff_of_false (not_tidy_of_open rfl rfl) hw

theorem accept_tidy_iff (answers : AcceptAnswers) (o : OpenFds) :
    (accept answers o).Tidy o 0 ↔
      ∀ fd address len, answers.accept = .ok (fd, address, len) →
        answers.setsockopt = .ok () ∧ Written address answers.format := by
  cases haccept : answers.accept with
  | err e =>
      simp only [accept, haccept]
      exact iff_of_true (tidy_failed _) (fun _ _ _ h => nomatch h)
  | ok taken =>
      obtain ⟨fd, address, len⟩ := taken
      have hone : (∀ fd' address' len', SysResult.ok (fd, address, len) =
            .ok (fd', address', len') →
          answers.setsockopt = .ok () ∧ Written address' answers.format) ↔
          answers.setsockopt = .ok () ∧ Written address answers.format := by
        constructor
        · intro h
          exact h fd address len rfl
        · rintro h _ _ _ ⟨⟩
          exact h
      rw [hone]
      cases hopt : answers.setsockopt with
      | err e =>
          simp only [accept, haccept, hopt]
          exact iff_of_false (not_tidy_of_open rfl rfl) (fun h => nomatch h.1)
      | ok _ =>
          simp only [accept, haccept, hopt, true_and]
          exact finish_tidy_iff _ _

/-- The address that is written out is of no family. -/
theorem not_written_cleared (format : Format) : ¬Written cleared.address format := by
  rintro ⟨h, -⟩
  cases h

theorem connect_tidy_iff (answers : Attempt) (format : Format) (o : OpenFds) :
    (connect answers format o).Tidy o 0 ↔
      ∀ fd, answers.socket = .ok fd →
        answers.setsockopt = .ok () ∧ ∃ e, answers.connect = .err e := by
  cases hsocket : answers.socket with
  | err e =>
      simp only [connect, hsocket]
      exact iff_of_true (tidy_failed _) (fun _ h => nomatch h)
  | ok fd =>
      cases hopt : answers.setsockopt with
      | err e =>
          simp only [connect, hsocket, hopt]
          exact iff_of_false (not_tidy_of_open rfl rfl) (fun h => nomatch (h fd rfl).1)
      | ok _ =>
          cases hconnect : answers.connect with
          | err e =>
              simp only [connect, hsocket, hopt, hconnect, OpenFds.close_opened]
              exact iff_of_true (tidy_failed _) (fun _ _ => ⟨trivial, e, rfl⟩)
          | ok _ =>
              simp only [connect, hsocket, hopt, hconnect]
              rw [finish_tidy_iff]
              refine iff_of_false (not_written_cleared format) ?_
              intro h
              obtain ⟨-, e, he⟩ := h fd rfl
              cases he

/-- Every option that is set is set, up to the first address that is connected to. -/
def SetsOptions : List AddrInfo → Prop
  | [] => True
  | rp :: rest =>
      match rp.attempt.socket with
      | .err _ => SetsOptions rest
      | .ok _ => rp.attempt.setsockopt = .ok () ∧
          (rp.attempt.connect = .ok () ∨ SetsOptions rest)

/-- The loop ends with nothing more open than the descriptor that was connected, or it
returns from the middle because an option was not set. -/
theorem connectLoop_cases (result : List AddrInfo) (o : OpenFds) :
    (SetsOptions result ∧
        (connectLoop result o = (.exhausted, o) ∨
          ∃ rp fd, connectLoop result o = (.connected rp fd, o.opened fd))) ∨
      (¬SetsOptions result ∧ ∃ fd, connectLoop result o = (.returned, o.opened fd)) := by
  induction result with
  | nil => exact Or.inl ⟨trivial, Or.inl rfl⟩
  | cons rp rest ih =>
      cases hsocket : rp.attempt.socket with
      | err e =>
          simp only [connectLoop, SetsOptions, hsocket]
          exact ih
      | ok fd =>
          cases hopt : rp.attempt.setsockopt with
          | err e =>
              simp only [connectLoop, SetsOptions, hsocket, hopt]
              exact Or.inr ⟨fun h => (nomatch h.1), fd, rfl⟩
          | ok _ =>
              cases hconnect : rp.attempt.connect with
              | ok _ =>
                  simp only [connectLoop, SetsOptions, hsocket, hopt, hconnect]
                  exact Or.inl ⟨⟨trivial, Or.inl trivial⟩, Or.inr ⟨rp, fd, rfl⟩⟩
              | err e =>
                  simp only [connectLoop, SetsOptions, hsocket, hopt, hconnect,
                    OpenFds.close_opened, true_and, reduceCtorEq, false_or]
                  exact ih

/-- How many address lists there are to free. -/
def lists : SysResult (List AddrInfo) → Nat
  | .ok _ => 1
  | .err _ => 0

theorem connectTo_tidy_iff (getaddrinfo : SysResult (List AddrInfo)) (o : OpenFds) :
    (connectTo getaddrinfo o).Tidy o (lists getaddrinfo) ↔
      ∀ result, getaddrinfo = .ok result → SetsOptions result := by
  cases getaddrinfo with
  | err e => exact iff_of_true (tidy_failed _) (fun _ h => nomatch h)
  | ok result =>
      have hone : (∀ result', SysResult.ok result = .ok result' → SetsOptions result') ↔
          SetsOptions result := by
        constructor
        · intro h
          exact h result rfl
        · rintro h _ ⟨⟩
          exact h
      rw [hone]
      obtain ⟨hsets, hend | ⟨rp, fd, hend⟩⟩ | ⟨hsets, fd, hend⟩ := connectLoop_cases result o
      · simp only [connectTo, hend]
        exact iff_of_true ⟨fun _ h => (nomatch h), fun _ => rfl, rfl⟩ hsets
      · simp only [connectTo, hend]
        refine iff_of_true ⟨?_, fun h => (nomatch h), rfl⟩ hsets
        rintro _ ⟨⟩
        exact ⟨rfl, rfl⟩
      · simp only [connectTo, hend]
        exact iff_of_false (not_tidy_of_open rfl rfl) hsets

end Tidy

/-- **Descriptors that connections are set up on.**  A call leaves open the descriptor it
returns and stores, or none if it returns -1, and has freed the address list it got once,
exactly when: of `accept`, the option is set and the address written out on every
descriptor accepted; of `connectTo`, the option is set on every socket made for an address
of the list; of `connect`, the option is set and the socket is not connected. -/
theorem setup_tidy (o : OpenFds) :
    (∀ answers, (accept answers o).Tidy o 0 ↔
      ∀ fd address len, answers.accept = .ok (fd, address, len) →
        answers.setsockopt = .ok () ∧ Written address answers.format) ∧
    (∀ getaddrinfo, (connectTo getaddrinfo o).Tidy o (lists getaddrinfo) ↔
      ∀ result, getaddrinfo = .ok result → SetsOptions result) ∧
    ∀ answers format, (connect answers format o).Tidy o 0 ↔
      ∀ fd, answers.socket = .ok fd →
        answers.setsockopt = .ok () ∧ ∃ e, answers.connect = .err e :=
  ⟨fun answers => accept_tidy_iff answers o, fun result => connectTo_tidy_iff result o,
    fun answers format => connect_tidy_iff answers format o⟩

/-- The option cannot be set on the connection that was accepted: its descriptor stays
open. -/
theorem accept_leaks_unset :
    ¬(accept ⟨.ok (5, ⟨AF_INET, [31, 144]⟩, 16), .err Errno.EINVAL, ⟨.ok "", .ok ()⟩⟩
      ⟨[3], 0⟩).Tidy ⟨[3], 0⟩ 0 :=
  not_tidy_of_open rfl rfl

end Accepted

end Vk

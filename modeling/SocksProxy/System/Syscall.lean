import Mathlib.Data.List.Basic
import Mathlib.Data.Int.Basic
import Mathlib.Order.Lattice
import Mathlib.Order.Nat
import Mathlib.Tactic.Common

/-! What a callback asks of the operating system and what it is told. A callback
makes each call at most once, apart from connection attempts and notices, so one record
of answers decides a whole callback. The calls made are kept in order. -/
namespace SocksProxy

abbrev Byte := UInt8

theorem UInt8.toNat_add_one {x : Byte} (h : x.toNat < 255) : (x + 1).toNat = x.toNat + 1 := by
  rw [UInt8.toNat_add]
  apply Nat.mod_eq_of_lt
  change x.toNat + 1 < 256
  omega

inductive Errno
  | eagain
  | ewouldblock
  | einprogress
  | ealready
  | eintr
  | other (code : ℕ)
deriving DecidableEq, Repr

/-- The test `errno == EAGAIN || errno == EWOULDBLOCK`. -/
def Errno.wouldBlock : Errno → Bool
  | .eagain | .ewouldblock => true
  | _ => false

/-- What `recv` finds: at least one byte, the end of the stream, or an error. -/
inductive RecvAnswer
  | data (first : Byte) (rest : List Byte)
  | eof
  | error (e : Errno)
deriving DecidableEq, Repr

/-- The bytes stored by `recv` into a buffer of `len` bytes. -/
def RecvAnswer.bytes (len : ℕ) : RecvAnswer → List Byte
  | .data b bs => (b :: bs).take len
  | _ => []

/-- `errno` after the call: a result `≥ 0` leaves the value it had before. -/
def RecvAnswer.errno (before : Errno) : RecvAnswer → Errno
  | .error e => e
  | _ => before

/-- What `send` does: it takes some of the bytes offered, or fails. -/
inductive SendAnswer
  | taken (n : ℕ)
  | error (e : Errno)
deriving DecidableEq, Repr

/-- The bytes `send` takes from those offered. -/
def SendAnswer.sent (bs : List Byte) : SendAnswer → List Byte
  | .taken n => bs.take n
  | .error _ => []

def SendAnswer.result (bs : List Byte) : SendAnswer → ℤ
  | .taken n => (bs.take n).length
  | .error _ => -1

/-- `send` reports the length of what it was offered only when it took all of it. -/
theorem sent_of_result_eq {send : SendAnswer} {bs : List Byte}
    (h : send.result bs = bs.length) : send.sent bs = bs := by
  cases send with
  | taken n =>
    have hlen : (bs.take n).length = bs.length := Int.ofNat.inj h
    exact (List.take_sublist n bs).eq_of_length hlen
  | error e =>
    have hneg : (-1 : ℤ) = bs.length := h
    omega

theorem send_result_nonpos {send : SendAnswer} {bs : List Byte} (h : send.result bs ≤ 0) :
    send.sent bs = [] := by
  cases send with
  | taken n =>
    have hlen : ((bs.take n).length : ℤ) ≤ 0 := h
    have hz : (bs.take n).length = 0 := by omega
    exact List.length_eq_zero_iff.mp hz
  | error e => rfl

theorem send_result_pos {send : SendAnswer} {bs : List Byte} (h : ¬ send.result bs ≤ 0) :
    send.result bs = (send.sent bs).length ∧ send.sent bs ≠ [] ∧
      bs = send.sent bs ++ bs.drop (send.sent bs).length := by
  cases send with
  | taken n =>
    have hlen : ¬ ((bs.take n).length : ℤ) ≤ 0 := h
    refine ⟨rfl, ?_, ?_⟩
    · intro he
      have hz : (bs.take n).length = 0 := by
        rw [show bs.take n = [] from he]
        rfl
      exact hlen (by omega)
    · exact List.prefix_iff_eq_append.mp (List.take_prefix n bs) |>.symm
  | error e =>
    exact absurd (show (-1 : ℤ) ≤ 0 by omega) h

def SendAnswer.errno (before : Errno) : SendAnswer → Errno
  | .error e => e
  | .taken _ => before

structure AddrInfo where
  inet6 : Bool
  addr : List Byte
  port : UInt16
deriving DecidableEq, Repr

inductive ConnectAnswer
  | ok
  | error (e : Errno)
deriving DecidableEq, Repr

/-- One attempt of the connection loop: the descriptor `socket` gives, if any,
and what a `connect` on it returns. -/
structure Attempt where
  socket : Option ℕ
  connect : ConnectAnswer
deriving DecidableEq, Repr

inductive GaiStatus
  | ok
  | inprogress
  | noname
  | fail
  | again
  | system
  | other
deriving DecidableEq, Repr

inductive SockName
  | inet (addr : Vector Byte 4) (port : Vector Byte 2)
  | inet6 (addr : Vector Byte 16) (port : Vector Byte 2)
  | other
deriving DecidableEq, Repr

/-- Everything the system may answer during one callback. `errno` is its value
when the callback starts; `soError` is the value `getsockopt` reads for
`SO_ERROR`, and `getsockopt` is false when that call fails; `notice` answers the
sends whose result nobody looks at, in their order; `stray` is a byte read outside
an array. -/
structure Answers where
  errno : Errno
  recv : RecvAnswer
  send : SendAnswer
  notice : ℕ → SendAnswer
  gaiRequest : Bool
  gaiError : GaiStatus
  gaiResult : List AddrInfo
  getsockopt : Bool
  soError : Option Errno
  attempt : ℕ → Attempt
  getsockname : Option SockName
  stray : Byte

inductive AccessLevel
  | admin
  | user
deriving DecidableEq, Repr

/-- The calls of a callback that its surroundings can observe: system calls with
their outcome, and the two calls inside the server that grant something. -/
inductive Call
  | recv (fd : ℤ) (bytes : List Byte)
  | send (fd : ℤ) (bytes : List Byte)
  | shutdown (fd : ℤ)
  | close (fd : ℤ)
  | socket (fd : ℕ)
  | connect (fd : ℕ) (addr : AddrInfo) (answer : ConnectAnswer)
  | getsockopt (fd : ℤ) (soError : Option Errno)
  | getaddrinfo (name : List Byte) (port : UInt16) (accepted : Bool)
  | userLogin (username password : List Byte) (granted : Option AccessLevel)
  | handleRequest (type : Byte)
deriving DecidableEq, Repr

def Call.received (fd : ℤ) : Call → List Byte
  | .recv fd' bs => if fd' = fd then bs else []
  | _ => []

def Call.sent (fd : ℤ) : Call → List Byte
  | .send fd' bs => if fd' = fd then bs else []
  | _ => []

/-- How a callback can fail to return: `abort()` or a failed assertion, a loop
that never ends, an access outside every object. -/
inductive Fault
  | abort
  | hang
  | undefined
deriving DecidableEq, Repr

/-- How a program ends before it is done: it calls `exit`, or it has no meaning. -/
inductive Stop
  | exit (code : ℕ)
  | fault (f : Fault)
deriving DecidableEq, Repr

section Fault

variable {ε α β : Type}

@[simp] theorem ok_bind (x : α) (f : α → Except ε β) : (Except.ok x >>= f) = f x := rfl

@[simp] theorem error_bind (e : ε) (f : α → Except ε β) :
    ((.error e : Except ε α) >>= f) = .error e := rfl

@[simp] theorem pure_eq_ok (x : α) : (pure x : Except ε α) = .ok x := rfl

@[simp] theorem map_ok (x : α) (f : α → β) : (Except.ok x : Except ε α).map f = .ok (f x) := rfl

theorem bind_eq_ok {x : Except ε α} {f : α → Except ε β} {r : β} :
    (x >>= f) = .ok r ↔ ∃ y, x = .ok y ∧ f y = .ok r := by
  cases x <;> simp

/-- The computation does not abort, and what it returns satisfies `p`. -/
def Yields (p : α → Prop) : Except Fault α → Prop
  | .ok y => p y
  | .error e => e ≠ .abort

theorem Yields.of_ok {p : α → Prop} {x : Except Fault α} {y : α} (h : Yields p x)
    (hx : x = .ok y) : p y := by
  rw [hx] at h
  exact h

theorem Yields.mono {p q : α → Prop} {x : Except Fault α} (h : Yields p x)
    (hpq : ∀ y, p y → q y) : Yields q x := by
  cases x with
  | ok y => exact hpq y h
  | error e => exact h

theorem Yields.bind {p : α → Prop} {q : β → Prop} {x : Except Fault α} {f : α → Except Fault β}
    (h : Yields p x) (hf : ∀ y, p y → Yields q (f y)) : Yields q (x >>= f) := by
  cases x with
  | ok y => exact hf y h
  | error e => exact h

theorem map_eq_ok {x : Except ε α} {f : α → β} {r : β} :
    x.map f = .ok r ↔ ∃ y, x = .ok y ∧ f y = r := by
  cases x <;> simp [Except.map]

end Fault

/-- A C string in an array: the bytes before the first NUL, at most `n` of them. -/
def cString (mem : ℕ → Byte) : ℕ → ℕ → List Byte
  | 0, _ => []
  | n + 1, i => if mem i = 0 then [] else mem i :: cString mem n (i + 1)

end SocksProxy

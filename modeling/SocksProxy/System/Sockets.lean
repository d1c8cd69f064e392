import Mathlib.Logic.Function.Basic
import SocksProxy.System.Syscall

/-! What the kernel knows of each descriptor's connection, and how it serves the calls of a
callback while the pending connections are decided at any time. -/
namespace SocksProxy

inductive SocketState
  | closed
  | fresh
  | connecting
  | connected
  | failed (e : Errno)
deriving DecidableEq, Repr

abbrev Sockets := ℤ → SocketState

/-- A pending connection is decided at any time; nothing else changes by itself. -/
inductive SocketState.Advances : SocketState → SocketState → Prop
  | stays (s : SocketState) : Advances s s
  | succeeds : Advances .connecting .connected
  | fails (e : Errno) : Advances .connecting (.failed e)

def SocketState.attempted : SocketState → Bool
  | .connecting | .connected | .failed _ => true
  | _ => false

/-- A connection that was established stays so. -/
theorem SocketState.Advances.connected {s : SocketState} (h : Advances .connected s) :
    s = .connected := by
  cases h
  rfl

theorem SocketState.Advances.attempted {s s' : SocketState} (h : Advances s s')
    (ha : s.attempted = true) : s'.attempted = true := by
  cases h with
  | stays => exact ha
  | succeeds => rfl
  | fails e => rfl

/-- What `SO_ERROR` reads: 0 while a connection is pending and after it has succeeded, the
error after it has failed. -/
def SocketState.soError : SocketState → Option Errno
  | .failed e => some e
  | _ => none

namespace Sockets

def after (k : Sockets) : Call → Sockets
  | .socket fd => Function.update k fd .fresh
  | .connect fd _ .ok => Function.update k fd .connected
  | .connect fd _ (.error .einprogress) => Function.update k fd .connecting
  | .connect fd _ (.error e) => Function.update k fd (.failed e)
  | .close fd => Function.update k fd .closed
  | _ => k

@[simp] theorem after_connect (k : Sockets) (n : ℕ) (addr : AddrInfo) :
    k.after (.connect n addr .ok) n = .connected := Function.update_self _ _ _

@[simp] theorem after_connecting (k : Sockets) (n : ℕ) (addr : AddrInfo) :
    k.after (.connect n addr (.error .einprogress)) n = .connecting := Function.update_self _ _ _

/-- The outcome that a call records is one that the kernel gives. -/
def Allows (k : Sockets) : Call → Prop
  | .socket fd => k fd = .closed
  | .getsockopt fd so => so = (k fd).soError
  | _ => True

instance (k : Sockets) (call : Call) : Decidable (k.Allows call) := by
  cases call <;> unfold Allows <;> infer_instance

def Progress (k k' : Sockets) : Prop := ∀ fd, (k fd).Advances (k' fd)

theorem Progress.refl (k : Sockets) : Progress k k := fun _ => .stays _

/-- A callback's calls, each with the descriptors as the call finds them. -/
inductive Serves : Sockets → List (Sockets × Call) → Sockets → Prop
  | nil {k k' : Sockets} : k.Progress k' → Serves k [] k'
  | cons {k k₁ k' : Sockets} {call : Call} {ms : List (Sockets × Call)} : k.Progress k₁ →
      k₁.Allows call → Serves (k₁.after call) ms k' → Serves k ((k₁, call) :: ms) k'

variable {k k₁ k' : Sockets} {call : Call} {ms ms' : List (Sockets × Call)} {fd : ℤ}

theorem Serves.append_inv (h : Serves k (ms ++ ms') k') :
    ∃ k₁, Serves k ms k₁ ∧ Serves k₁ ms' k' := by
  induction ms generalizing k with
  | nil => exact ⟨k, .nil (.refl k), h⟩
  | cons m ms ih =>
    cases h with
    | cons hp ha hs =>
      obtain ⟨k₁, hms, hms'⟩ := ih hs
      exact ⟨k₁, .cons hp ha hms, hms'⟩

def serve (k : Sockets) : List Call → Option (List (Sockets × Call) × Sockets)
  | [] => some ([], k)
  | call :: cs =>
    if k.Allows call then (serve (k.after call) cs).map fun r => ((k, call) :: r.1, r.2) else none

theorem serves_of_serve {cs : List Call} (h : k.serve cs = some (ms, k')) :
    Serves k ms k' ∧ ms.map Prod.snd = cs := by
  induction cs generalizing k ms with
  | nil =>
    obtain ⟨rfl, rfl⟩ := Prod.mk.inj (Option.some.inj h)
    exact ⟨.nil (.refl k), rfl⟩
  | cons call cs ih =>
    unfold serve at h
    split_ifs at h with ha
    obtain ⟨⟨ms', k''⟩, hrest, heq⟩ := Option.map_eq_some_iff.mp h
    obtain ⟨rfl, rfl⟩ := Prod.mk.inj heq
    obtain ⟨hserves, hcs⟩ := ih hrest
    exact ⟨.cons (.refl k) ha hserves, congrArg (call :: ·) hcs⟩

end Sockets

end SocksProxy

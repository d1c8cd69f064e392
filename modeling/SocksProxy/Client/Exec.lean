import SocksProxy.Client.Run

/-! Executing the events of a connection, and a small server to run it in. -/
namespace SocksProxy

open Interest Transition

namespace Conn

instance (c : Conn) (fd : ℤ) : Decidable (c.Owns fd) :=
  inferInstanceAs (Decidable (_ ∨ _))

instance (c : Conn) (op : Op) (fd : ℤ) : Decidable (c.Ready op fd) :=
  match h : c.entry fd with
  | none => isFalse fun hr => by
      obtain ⟨-, item, hitem, -⟩ := hr
      rw [h] at hitem
      cases hitem
  | some item =>
    decidable_of_iff (c.Owns fd ∧ item.attached c.self ∧ item.interest.has op = true) <| by
      unfold Ready
      rw [h]
      simp

def exec (c : Conn) : ConnLabel → Option Conn
  | .ready op fd a =>
    if c.freed = false ∧ c.Ready op fd then (c.begin.handle op a fd).toOption else none
  | .other => none

theorem exec_step (c : Conn) (l : ConnLabel) (c' : Conn) (h : c.exec l = some c') :
    ConnStep c l c' := by
  cases l with
  | other => cases h
  | ready op fd a =>
    unfold exec at h
    simp only at h
    split_ifs at h with hr
    obtain ⟨hfreed, hready⟩ := hr
    cases hc : c.begin.handle op a fd with
    | error e =>
      rw [hc] at h
      cases h
    | ok c₁ =>
      rw [hc] at h
      obtain rfl : c₁ = c' := Option.some.inj h
      exact .ready hfreed hready hc

/-- A list of events that can be executed is a run, whose end can be inspected. -/
theorem path_of_exec (c : Conn) (ls : List ConnLabel) (p : Conn → Bool)
    (h : (ls.foldlM exec c).any p = true) :
    ∃ ts c', ConnPath c ts c' ∧ ts.map Edge.label = ls ∧ p c' = true :=
  Path.of_exec exec_step c ls p h

end Conn

/-! A server with one user that accepts both methods or one, and answers of a system on
which every call fails, to be changed field by field. -/

namespace Sample

def shared (methods : List Int8) : Shared where
  selector := ⟨fun _ => itemInit, itemsMaxSize + 1, 0, fun _ => false, fun _ => false⟩
  users := [⟨[117], [112], .user⟩]
  accepted := fun i => methods.getD i.toNat (-1)
  stats := Stats.init

def answers : Answers where
  errno := .other 0
  recv := .error .eagain
  send := .taken 1024
  notice := fun _ => .taken 1
  gaiRequest := false
  gaiError := .fail
  gaiResult := []
  getsockopt := false
  soError := none
  attempt := fun _ => ⟨none, .ok⟩
  getsockname := none
  stray := 0

def conn (methods : List Int8) : Conn :=
  ⟨{ shared methods with
      selector := ((shared methods).selector.selectorRegister 5 .client opRead 1).2
      stats := (shared methods).stats.incrementCurrentConnections },
    1, newClient 5, false, []⟩

theorem conn_accepted (methods : List Int8) : Accepted 5 (conn methods) := by
  refine ⟨shared methods, 1, Nat.le_succ _, ?_, rfl⟩
  intro fd item hitem
  have hfree : (shared methods).selector.entry fd = none := by
    have hunused : ((shared methods).selector.fds fd).used = false := rfl
    simp [FdSelector.entry, hunused]
  rw [hfree] at hitem
  cases hitem

/-- A descriptor is readable and `recv` gives these bytes, or the end of the stream. -/
def input (fd : ℤ) (bs : List Byte) : ConnLabel :=
  .ready .read fd { answers with recv :=
    match bs with
    | [] => .eof
    | b :: bs => .data b bs }

/-- A descriptor is writable and `send` takes up to `n` bytes. -/
def output (fd : ℤ) (n : ℕ) : ConnLabel := .ready .write fd { answers with send := .taken n }

/-- `try_connect` runs on a descriptor, and descriptor 7 is connected to the first address
or in progress. -/
def attempt (fd : ℤ) (answer : ConnectAnswer) : ConnLabel :=
  .ready .write fd { answers with attempt := fun _ => ⟨some 7, answer⟩ }

def bytesIn (bss : List (List Byte)) : List ConnLabel := bss.map (input 5)

def request : List ConnLabel :=
  bytesIn [[5], [1], [0]] ++ [output 5 2] ++ bytesIn [[5, 1, 0, 1, 10, 0, 0, 1, 0, 80]]

def tunnel : List ConnLabel := request ++ [attempt 5 .ok, output 5 10]

end Sample

end SocksProxy

import SocksProxy.Client.Machine

/-! Accepting a client connection. -/
namespace SocksProxy

open Interest

/-- The record built by `handle_read_master`, on zeroed memory. -/
def newClient (fd : ℤ) : Client where
  stm := none
  clientFd := fd
  destinationFd := -1
  activeParser := .noParser
  parser := .none
  clientBuffer := Buffer.bufferInit maxBuffer (fun _ => 0)
  destinyBuffer := Buffer.bufferInit maxBuffer (fun _ => 0)
  destAddr := []
  destAddrBase := none
  dnsReq := none
  err := 0
  clientClosed := false
  destClosed := false
  destAddrFromGai := false

/-- The rest of `handle_read_master` once `accept` gave `fd` and `calloc` the
address `self`: nothing when the selector refuses the descriptor. -/
def acceptClient (shared : Shared) (self : ℕ) (fd : ℤ) : Option Conn :=
  match shared.selector.selectorRegister fd .client opRead self with
  | (.success, s) =>
    some ⟨{ shared with selector := s, stats := shared.stats.incrementCurrentConnections },
      self, newClient fd, false, []⟩
  | _ => none

end SocksProxy

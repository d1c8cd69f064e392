import SocksProxy.System.Syscall

/-! The statistics counters, which are `size_t` and wrap. -/
namespace SocksProxy

structure Stats where
  historicConnections : UInt64
  currentConnections : UInt64
  transferredBytes : UInt64
deriving DecidableEq, Repr

namespace Stats

def init : Stats := ⟨0, 0, 0⟩

def incrementCurrentConnections (s : Stats) : Stats :=
  { s with
    historicConnections := s.historicConnections + 1
    currentConnections := s.currentConnections + 1 }

def decrementCurrentConnections (s : Stats) : Stats :=
  { s with currentConnections := s.currentConnections - 1 }

def addTransferredBytes (s : Stats) (n : ℕ) : Stats :=
  { s with transferredBytes := s.transferredBytes + UInt64.ofNat n }

end Stats

end SocksProxy

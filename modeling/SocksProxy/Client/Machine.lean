import SocksProxy.Client.Forwarding
import SocksProxy.Lib.Stm

/-! The table of client states and the handlers registered in the selector. -/
namespace SocksProxy

def clientStates (a : Answers) (fd : ℤ) : ClientState → StateDefinition ClientState Conn
  | .helloRead =>
    { onArrival := some fun c => .ok c.helloReadInit
      onReadReady := some (Conn.helloRead a fd) }
  | .helloWrite => { onWriteReady := some fun c => .ok (c.helloWrite a fd) }
  | .authRead =>
    { onArrival := some fun c => .ok c.authReadInit
      onReadReady := some (Conn.authRead a fd) }
  | .authWrite => { onWriteReady := some fun c => .ok (c.authWrite a fd) }
  | .requestRead =>
    { onArrival := some fun c => .ok c.requestReadInit
      onReadReady := some fun c => .ok (c.requestRead a fd) }
  | .dnsLookup => { onWriteReady := some fun c => .ok (c.dnsLookup a fd) }
  | .destConnect => { onWriteReady := some fun c => .ok (c.tryConnect a fd) }
  | .requestWrite => { onWriteReady := some fun c => .ok (c.requestWrite a fd) }
  | .forwarding =>
    { onArrival := some fun c => .ok c.forwardSetup
      onWriteReady := some (Conn.forwardWrite a fd)
      onReadReady := some (Conn.forwardRead a fd) }
  | .done => { onArrival := some fun c => .ok c.endConnection }
  | .error => { onArrival := some fun c => .ok (c.errorHandler a .error fd) }

namespace Conn

def setState (c : Conn) (s : ClientState) : Conn :=
  { c with client := { c.client with stm := some s } }

def machine (a : Answers) (fd : ℤ) : StateMachine ClientState Conn where
  initial := .helloRead
  states := clientStates a fd
  current := fun c => c.client.stm
  setCurrent := setState

def state (c : Conn) : ClientState := c.client.stm.getD .helloRead

def handleReadClient (a : Answers) (fd : ℤ) (c : Conn) : Except Fault Conn :=
  (machine a fd).stmHandlerRead c

def handleWriteClient (a : Answers) (fd : ℤ) (c : Conn) : Except Fault Conn :=
  (machine a fd).stmHandlerWrite c

end Conn

end SocksProxy

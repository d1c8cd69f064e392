import SocksProxy.Client.Conn

/-! Closing a client connection. -/
namespace SocksProxy

open Interest

namespace Conn

/-- `destroy_active_parser`; the union keeps its bytes. -/
def destroyActiveParser (c : Conn) : Conn :=
  { c with client := { c.client with activeParser := .noParser } }

def freeDestination (c : Conn) : Conn :=
  if c.client.destAddrBase.isNone then c else c.setDestination [] none false

def freeDnsRequest (c : Conn) : Conn := c.setDnsReq none

/-- `handle_close_client`; no client state has a departure hook, so
`stm_handler_close` does nothing. -/
def handleCloseClient (c : Conn) (fd : ℤ) : Conn :=
  if fd = c.client.clientFd then
    { c with shared := { c.shared with stats := c.shared.stats.decrementCurrentConnections } }
  else c

def unregister (c : Conn) (fd : ℤ) : Conn :=
  if (c.shared.selector.entry fd).isSome then
    let c := c.handleCloseClient fd
    { c with shared := { c.shared with
      selector := (c.shared.selector.selectorUnregisterFd fd).2 } }
  else c

/-- The test shared by `end_connection` and `connection_finished`. -/
def connectionFinished (c : Conn) : Bool :=
  c.client.clientClosed && c.client.destClosed &&
    !c.client.clientBuffer.bufferCanRead && !c.client.destinyBuffer.bufferCanRead

def closeClientFd (c : Conn) : Conn :=
  if c.client.clientFd ≠ -1 then
    let c := (c.emit (.close c.client.clientFd)).unregister c.client.clientFd
    { c with client := { c.client with clientFd := -1 } }
  else c

def closeDestinationFd (c : Conn) : Conn :=
  if c.client.destinationFd ≠ -1 then
    let c := (c.emit (.close c.client.destinationFd)).unregister c.client.destinationFd
    { c with client := { c.client with destinationFd := -1 } }
  else c

def endConnection (c : Conn) : Conn :=
  if c.connectionFinished then
    let c := c.destroyActiveParser.freeDnsRequest.freeDestination
    { c.closeClientFd.closeDestinationFd with freed := true }
  else c

/-- The reply that `error_handler` builds from `client->err`. -/
def errorReply (c : Conn) : List Byte :=
  [0x05, c.client.err, 0x00, 0x01, 0x00, 0x00, 0x00, 0x00, 0x00, 0x00]

/-- `state` is the argument that the caller passes, for the machine the state
arrived at. -/
def errorHandler (a : Answers) (state : ClientState) (fd : ℤ) (c : Conn) : Conn :=
  let c :=
    if (state = .requestRead ∨ state = .requestWrite ∨ state = .dnsLookup ∨
        state = .destConnect) ∧ c.client.err ≠ 0 then c.send a fd c.errorReply
    else c
  let c := c.destroyActiveParser.freeDnsRequest.freeDestination
  let cl := c.client
  endConnection { c with client := { cl with
    clientClosed := true
    destClosed := true
    clientBuffer := { cl.clientBuffer with read := cl.clientBuffer.write }
    destinyBuffer := { cl.destinyBuffer with read := cl.destinyBuffer.write } } }

end Conn

end SocksProxy

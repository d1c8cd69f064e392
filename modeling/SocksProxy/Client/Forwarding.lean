import SocksProxy.Client.Request

/-! The relay between the client and the destination: state `FORWARDING`. -/
namespace SocksProxy

open Interest

namespace Conn

/-- The buffer of the bytes that come from the client or, for `false`, from the
destination. -/
def relayBuffer (c : Conn) (fromClient : Bool) : Buffer :=
  if fromClient then c.client.clientBuffer else c.client.destinyBuffer

def setRelayBuffer (c : Conn) (fromClient : Bool) (b : Buffer) : Conn :=
  { c with client :=
      if fromClient then { c.client with clientBuffer := b }
      else { c.client with destinyBuffer := b } }

/-- Whether the side that the bytes come from has closed. -/
def sourceClosed (c : Conn) (fromClient : Bool) : Bool :=
  if fromClient then c.client.clientClosed else c.client.destClosed

def setSourceClosed (c : Conn) (fromClient : Bool) : Conn :=
  { c with client :=
      if fromClient then { c.client with clientClosed := true }
      else { c.client with destClosed := true } }

def countTransferred (c : Conn) (n : ℕ) : Conn :=
  { c with shared := { c.shared with stats := c.shared.stats.addTransferredBytes n } }

def shutdownIf (c : Conn) (closed : Bool) (fd : ℤ) : Conn :=
  if closed then c.emit (.shutdown fd) else c

/-- The end of `forward_write`, after `n` bytes of `b` were sent. -/
def forwardSent (c : Conn) (fd : ℤ) (b : Buffer) (sourceClosed : Bool) (n : ℕ) :
    Conn × ClientState :=
  let c := c.countTransferred n
  let c :=
    if b.bufferCanRead then c.setInterest fd (opRead ||| opWrite)
    else (c.shutdownIf sourceClosed fd).setInterest fd opRead
  (c, if c.connectionFinished then .done else .forwarding)

def forwardWrite (a : Answers) (fd : ℤ) (c : Conn) : Except Fault (Conn × ClientState) := do
  let fromClient := !(fd == c.client.clientFd)
  let b := c.relayBuffer fromClient
  let sourceClosed := c.sourceClosed fromClient
  if !b.bufferCanRead then
    if c.connectionFinished then return (c, .done)
    return ((c.shutdownIf sourceClosed fd).setInterest fd opRead, .forwarding)
  let bytes ← b.bufferReadPtr
  let c := c.send a fd bytes
  if a.send.result bytes ≤ 0 then
    if (a.send.errno a.errno).wouldBlock then return (c, .forwarding)
    return (c.setInterest fd opNoop, .error)
  let b ← b.bufferReadAdv (a.send.result bytes)
  return (c.setRelayBuffer fromClient b).forwardSent fd b sourceClosed (a.send.result bytes).toNat

def forwardRead (a : Answers) (fd : ℤ) (c : Conn) : Except Fault (Conn × ClientState) := do
  let fromClient := fd == c.client.clientFd
  let b := c.relayBuffer fromClient
  let otherFd := if fromClient then c.client.destinationFd else c.client.clientFd
  if !b.bufferCanWrite then
    return (c.setInterest fd (opRead ||| opWrite), .forwarding)
  let nbytes ← b.bufferWritePtr
  match a.recv with
  | .eof =>
    let c := c.setSourceClosed fromClient
    if c.sourceClosed !fromClient then return (c, .done)
    let c := if 0 ≤ otherFd then c.setInterest otherFd opWrite else c
    return (c.setInterest fd opNoop, .forwarding)
  | .error e =>
    if e.wouldBlock then return (c, .forwarding)
    return (c.setInterest fd opNoop, .error)
  | .data _ _ =>
    let bs := a.recv.bytes nbytes
    let c := c.emit (.recv fd bs)
    let b ← (b.store bs).bufferWriteAdv bs.length
    let c := c.setRelayBuffer fromClient b
    let c := if 0 ≤ otherFd then c.setInterest otherFd (opRead ||| opWrite) else c
    return (c, .forwarding)

def forwardSetup (c : Conn) : Conn :=
  (c.setInterest c.client.clientFd opRead).setInterest c.client.destinationFd opRead

end Conn

end SocksProxy

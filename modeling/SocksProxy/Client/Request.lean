import SocksProxy.Client.Auth

/-! The request, the name lookup, the connection to the destination and the reply:
states `REQUEST_READ`, `DNS_LOOKUP`, `DEST_CONNECT` and `REQUEST_WRITE`. -/
namespace SocksProxy

open Interest

def socksVersion5 : Byte := 0x05
def socksAtypIpv4 : Byte := 0x01
def socksAtypDomainname : Byte := 0x03
def socksAtypIpv6 : Byte := 0x04
def cmdConnect : Byte := 0x01

def socksReplySuccess : Byte := 0x00
def socksReplyGeneralFailure : Byte := 0x01
def socksReplyNetworkUnreachable : Byte := 0x03
def socksReplyHostUnreachable : Byte := 0x04
def socksReplyCmdNotSupported : Byte := 0x07
def socksReplyAtypNotSupported : Byte := 0x08

def maxAddrSize : ℕ := 255
def ipv4Len : Byte := 4
def ipv6Len : Byte := 16

/-! The parser states, numbered as in `request_state_t`, and the constant of
`request_status_t` that the table also uses as a state. -/

def requestStateVer : ℕ := 0
def requestStateCmd : ℕ := 1
def requestStateRsv : ℕ := 2
def requestStateAtyp : ℕ := 3
def requestStateDstaddrIpv4 : ℕ := 4
def requestStateDstaddrIpv6 : ℕ := 5
def requestStateDstaddrDomainname : ℕ := 6
def requestStateDstport : ℕ := 7
def requestStateFin : ℕ := 8
def requestStateError : ℕ := 9
def requestAtypError : ℕ := 2

def requestParserDef : ParserDefinition RequestState where
  states := [
    [⟨ANY, requestStateCmd, actByte .ver, none⟩],
    [⟨ANY, requestStateRsv, actByte .cmd, none⟩],
    [⟨ANY, requestStateAtyp, actByte .rsv, none⟩],
    [⟨socksAtypIpv4.toNat, requestStateDstaddrIpv4, actByte .atyp, none⟩,
      ⟨socksAtypIpv6.toNat, requestStateDstaddrIpv6, actByte .atyp, none⟩,
      ⟨socksAtypDomainname.toNat, requestStateDstaddrDomainname, actByte .atyp, none⟩,
      ⟨ANY, requestAtypError, actNone .error, none⟩],
    [⟨ANY, requestStateDstaddrIpv4, actByte .dstaddrIpv4, none⟩],
    [⟨ANY, requestStateDstaddrIpv6, actByte .dstaddrIpv6, none⟩],
    [⟨ANY, requestStateDstaddrDomainname, actByte .dstaddrDomainname, none⟩],
    [⟨ANY, requestStateDstport, actByte .dstport, none⟩],
    [⟨ANY, requestStateFin, actNone .fin, none⟩],
    [⟨ANY, requestStateError, actNone .error, none⟩]]
  startState := requestStateVer

namespace RequestParser

/-- A store into `addr`; one past its end lands on `ipv4`. -/
def storeAddr (rp : RequestParser) (i : ℕ) (b : Byte) : RequestParser :=
  if i < maxAddrSize then { rp with addr := Function.update rp.addr i b }
  else { rp with ipv4 := Function.update rp.ipv4 0 b }

def readAddr (rp : RequestParser) (len b : Byte) : RequestParser :=
  if rp.addrRead < len then
    { rp.storeAddr rp.addrRead.toNat b with addrRead := rp.addrRead + 1 }
  else rp

def domainName (rp : RequestParser) : List Byte := cString rp.addr maxAddrSize 0

end RequestParser

namespace Conn

def setReplyStatus (c : Conn) (status : Byte) : Conn :=
  c.setParser (.request { c.client.parser.requestParser with replyStatus := status })

def requestReadInit (c : Conn) : Conn :=
  let c := c.destroyActiveParser
  { c with client := { c.client with
    parser := .request { RequestParser.zero with p := parserInit requestParserDef }
    activeParser := .requestParser } }

def setupLookup (a : Answers) (fd : ℤ) (name : List Byte) (port : UInt16) (c : Conn) :
    Conn × ClientState :=
  let c := c.setDnsReq (some ⟨name, port⟩)
  let c := c.emit (.getaddrinfo name port a.gaiRequest)
  if a.gaiRequest then (c, .dnsLookup)
  else
    let c := c.setDnsReq none
    ((c.setInterest fd opWrite).setReplyStatus socksReplyHostUnreachable, .requestWrite)

/-- The two address cases of `handle_request_fin`: a list of one node. -/
def literalAddress (fd : ℤ) (addr : AddrInfo) (c : Conn) : Conn × ClientState :=
  let c := c.setDestination [addr] (some [addr]) false
  (c.setInterest fd opWrite, .destConnect)

def handleRequestFin (a : Answers) (fd : ℤ) (c : Conn) : Conn × ClientState :=
  let rp := c.client.parser.requestParser
  if rp.atyp = socksAtypDomainname then
    (c.setInterest fd opWrite).setupLookup a fd rp.domainName rp.port
  else if rp.atyp = socksAtypIpv4 then
    c.literalAddress fd ⟨false, (List.range 4).map rp.ipv4, rp.port⟩
  else if rp.atyp = socksAtypIpv6 then
    c.literalAddress fd ⟨true, (List.range 16).map rp.ipv6, rp.port⟩
  else ((c.setInterest fd opWrite).setErr 0x08, .error)

/-- The case of the second port byte: the synthetic event and what follows it. -/
def requestPortDone (a : Answers) (fd : ℤ) (c : Conn) : Conn × Option ClientState :=
  let rp := c.client.parser.requestParser
  let (p, evs) := parserFeed parserNoClasses requestParserDef
    (parserSetState rp.p requestStateFin) 0
  let c := c.setParser (.request { rp with p := p })
  match evs.find? (fun ev => ev.type = .fin || ev.type = .error) with
  | none => (c, none)
  | some ev =>
    if ev.type = .fin then
      let (c, s) := c.handleRequestFin a fd
      (c, some s)
    else ((c.setInterest fd opWrite).setErr 0x01, some .error)

def requestEvent (a : Answers) (fd : ℤ) (c : Conn) (ev : ParserEvent RequestState) :
    Conn × Option ClientState :=
  let rp := c.client.parser.requestParser
  match ev.type with
  | .fin =>
    let (c, s) := c.handleRequestFin a fd
    (c, some s)
  | .error => ((c.setInterest fd opWrite).setErr 0x01, some .error)
  | .cmd =>
    let c := c.setParser (.request { rp with cmd := ev.data })
    if ev.data ≠ cmdConnect then
      ((c.setInterest fd opWrite).setReplyStatus socksReplyCmdNotSupported, some .requestWrite)
    else (c, none)
  | .atyp =>
    if ev.data ≠ socksAtypIpv4 ∧ ev.data ≠ socksAtypIpv6 ∧ ev.data ≠ socksAtypDomainname then
      ((c.setInterest fd opWrite).setReplyStatus socksReplyAtypNotSupported, some .requestWrite)
    else (c.setParser (.request { rp with atyp := ev.data }), none)
  | .dstaddrIpv4 =>
    let rp := rp.readAddr ipv4Len ev.data
    let rp := if rp.addrRead = ipv4Len then
      let rp := { rp with ipv4 := rp.addr }
      let rp := rp.storeAddr rp.addrRead.toNat 0
      { rp with p := parserSetState rp.p requestStateDstport } else rp
    (c.setParser (.request rp), none)
  | .dstaddrIpv6 =>
    let rp := rp.readAddr ipv6Len ev.data
    let rp := if rp.addrRead = ipv6Len then
      { rp with ipv6 := rp.addr, p := parserSetState rp.p requestStateDstport } else rp
    (c.setParser (.request rp), none)
  | .dstaddrDomainname =>
    if rp.addrLen = 0 then (c.setParser (.request { rp with addrLen := ev.data }), none)
    else
      let rp := rp.readAddr rp.addrLen ev.data
      let rp := if rp.addrLen = rp.addrRead then
        let rp := rp.storeAddr rp.addrRead.toNat 0
        { rp with p := parserSetState rp.p requestStateDstport } else rp
      (c.setParser (.request rp), none)
  | .dstport =>
    if rp.portRead = 0 then
      (c.setParser (.request { rp with port := ev.data.toUInt16 <<< 8, portRead := 1 }), none)
    else
      let rp := { rp with port := rp.port ||| ev.data.toUInt16, portRead := 2 }
      (c.setParser (.request rp)).requestPortDone a fd
  | .ver =>
    if ev.data ≠ socksVersion5 then
      ((c.setInterest fd opWrite).setReplyStatus socksReplyGeneralFailure, some .requestWrite)
    else (c, none)
  | .rsv => (c, none)

/-- One turn of the loop over the bytes of a chunk. Only the first event of a byte
is looked at. -/
def requestByte (a : Answers) (fd : ℤ) (b : Byte) (c : Conn) : Conn × Option ClientState :=
  let rp := c.client.parser.requestParser
  let (p, evs) := parserFeed parserNoClasses requestParserDef rp.p b
  match evs with
  | [] => (c, none)
  | ev :: _ => requestEvent a fd (c.setParser (.request { rp with p := p })) ev

/-- The loop over a chunk; the bytes after a return are never looked at. -/
def requestBytes (a : Answers) (fd : ℤ) : List Byte → Conn → Conn × ClientState
  | [], c => (c, .requestRead)
  | b :: bs, c =>
    match c.requestByte a fd b with
    | (c, some s) => (c, s)
    | (c, none) => requestBytes a fd bs c

def requestRead (a : Answers) (fd : ℤ) (c : Conn) : Conn × ClientState :=
  match a.recv with
  | .error e =>
    if e.wouldBlock ∨ e = .einprogress then (c, .requestRead)
    else ((c.setInterest fd opWrite).setErr 0x01, .error)
  | .eof => ((c.setInterest fd opWrite).setErr 0x01, .error)
  | .data _ _ =>
    let bs := a.recv.bytes 1024
    (c.emit (.recv fd bs)).requestBytes a fd bs

def dnsLookup (a : Answers) (fd : ℤ) (c : Conn) : Conn × ClientState :=
  if c.client.dnsReq.isNone then ((c.setInterest fd opWrite).setErr 0x04, .error)
  else if a.gaiError = .inprogress then (c.setInterest fd opWrite, .dnsLookup)
  else if a.gaiError ≠ .ok then
    let c := c.setReplyStatus (match a.gaiError with
      | .noname | .fail => socksReplyNetworkUnreachable
      | .again | .system => socksReplyHostUnreachable
      | _ => socksReplyGeneralFailure)
    let c := c.setInterest fd opNoop
    let c := c.setDnsReq none
    ((c.setInterest fd opWrite).setErr 0x04, .error)
  else
    let base := if a.gaiResult = [] then none else some a.gaiResult
    let c := (c.setDestination a.gaiResult base true).setDnsReq none
    (c.setInterest fd opWrite, .destConnect)

def registerDestination (c : Conn) (fd : ℕ) (addr : List AddrInfo) : SelectorStatus × Conn :=
  let c := { c with client := { c.client with destinationFd := fd, destAddr := addr } }
  let (status, s) := c.shared.selector.selectorRegister fd .client opWrite c.self
  (status, { c with shared := { c.shared with selector := s } })

def dropDestination (c : Conn) : Conn :=
  { c with client := { c.client with destinationFd := -1 } }

/-- The loop over the addresses, at the `i`-th attempt of this call. -/
def connectLoop (a : Answers) : ℕ → List AddrInfo → Conn → Conn × Option ClientState
  | _, [], c => (c, none)
  | i, addr :: rest, c =>
    match (a.attempt i).socket with
    | none => connectLoop a (i + 1) rest c
    | some fd =>
      let answer := (a.attempt i).connect
      let c := (c.emit (.socket fd)).emit (.connect fd addr answer)
      if answer = .ok ∨ answer = .error .einprogress then
        let (status, c) := c.registerDestination fd (addr :: rest)
        if status ≠ .success then connectLoop a (i + 1) rest (c.emit (.close fd)).dropDestination
        else if answer = .ok then
          ((c.setInterest c.client.clientFd opWrite).setReplyStatus socksReplySuccess,
            some .requestWrite)
        else (c, some .destConnect)
      else connectLoop a (i + 1) rest (c.emit (.close fd))

/-- The part of `try_connect` after the attempt in flight, if any, has failed. -/
def connectNext (a : Answers) (fd : ℤ) (addr : List AddrInfo) (c : Conn) : Conn × ClientState :=
  match c.connectLoop a 0 addr with
  | (c, some s) => (c, s)
  | (c, none) => ((c.setInterest fd opWrite).setErr 0x03, .error)

/-- The attempt in flight has failed: its descriptor is closed, but it stays in the
selector, and the next address is in turn. -/
def abandonDestination (c : Conn) : Conn :=
  let c := (c.emit (.close c.client.destinationFd)).dropDestination
  { c with client := { c.client with destAddr := c.client.destAddr.tail } }

def tryConnect (a : Answers) (fd : ℤ) (c : Conn) : Conn × ClientState :=
  if c.client.destinationFd ≠ -1 then
    let c := c.emit (.getsockopt c.client.destinationFd a.soError)
    if !a.getsockopt then (c.setInterest fd opNoop, .error)
    else match a.soError with
      | none =>
        ((c.setInterest c.client.clientFd opWrite).setReplyStatus socksReplySuccess, .requestWrite)
      | some e =>
        if e = .einprogress ∨ e = .ealready then (c, .destConnect)
        else c.abandonDestination.connectNext a fd c.abandonDestination.client.destAddr
  else c.connectNext a fd c.client.destAddr

/-- The bound address at the end of the reply; zeros when there is none. -/
def boundAddress (a : Answers) (c : Conn) : List Byte :=
  match (if c.client.destinationFd ≠ -1 then a.getsockname else none) with
  | none => socksAtypIpv4 :: List.replicate 6 0
  | some (.inet addr port) => socksAtypIpv4 :: (addr.toList ++ port.toList)
  | some (.inet6 addr port) => socksAtypIpv6 :: (addr.toList ++ port.toList)
  | some .other => []

def requestReply (a : Answers) (c : Conn) : List Byte :=
  [socksVersion5, c.client.parser.requestParser.replyStatus, 0x00] ++ c.boundAddress a

def requestWrite (a : Answers) (fd : ℤ) (c : Conn) : Conn × ClientState :=
  let reply := c.requestReply a
  let rp := c.client.parser.requestParser
  let c := c.send a c.client.clientFd reply
  if a.send.result reply ≠ reply.length then
    ((c.setInterest fd opWrite).setErr 0x01, .error)
  else
    let c := c.destroyActiveParser.freeDestination
    if rp.replyStatus ≠ socksReplySuccess ∨ c.client.destinationFd = -1 then
      (c.setBothClosed.setInterest fd opNoop, .done)
    else
      let c := c.setInterest c.client.clientFd opRead
      (c.setInterest c.client.destinationFd opRead, .forwarding)

end Conn

end SocksProxy

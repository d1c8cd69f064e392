import SocksProxy.Lib.Buffer
import SocksProxy.Lib.Parser
import SocksProxy.Lib.Selector
import SocksProxy.Server.AuthUtils
import SocksProxy.Server.Stats
import SocksProxy.Server.Users

/-! The record of a client connection and everything its callbacks can reach. -/
namespace SocksProxy

def maxBuffer : ℕ := 16384

def maxBufferSize : ℕ := 255

inductive ClientState
  | helloRead
  | helloWrite
  | authRead
  | authWrite
  | requestRead
  | dnsLookup
  | destConnect
  | requestWrite
  | forwarding
  | done
  | error
deriving DecidableEq, Repr

inductive HelloEvent
  | ver
  | nmethods
  | method
  | done
  | unexpected
deriving DecidableEq, Repr, Inhabited

inductive AuthEvent
  | ver
  | ulen
  | uname
  | plen
  | passwd
  | done
deriving DecidableEq, Repr, Inhabited

/-- The request parser uses its states as event types. -/
inductive RequestState
  | ver
  | cmd
  | rsv
  | atyp
  | dstaddrIpv4
  | dstaddrIpv6
  | dstaddrDomainname
  | dstport
  | fin
  | error
deriving DecidableEq, Repr, Inhabited

/-- `methods` holds the entries stored so far. -/
structure HelloParser where
  ver : Byte
  nmethods : Byte
  methods : List Int8
  methodsRead : Byte
  methodSelected : Byte
  p : Parser HelloEvent

/-- `uname` and `passwd` have 255 entries; entry 255 of the one is the memory of
`uname_read`, of the other that of `passwd_read`. -/
structure AuthParser where
  ver : Byte
  ulen : Byte
  uname : ℕ → Byte
  unameRead : Byte
  plen : Byte
  passwd : ℕ → Byte
  passwdRead : Byte
  authStatus : Byte
  authDone : Bool
  p : Parser AuthEvent

/-- `addr` has 255 entries; entry 255 is the first byte of `ipv4`. -/
structure RequestParser where
  atyp : Byte
  cmd : Byte
  addrLen : Byte
  addrRead : Byte
  portRead : Byte
  addr : ℕ → Byte
  ipv4 : ℕ → Byte
  ipv6 : ℕ → Byte
  port : UInt16
  replyStatus : Byte
  p : Parser RequestState

/-- The union, tagged by the member that was initialised last. -/
inductive ClientParser
  | none
  | hello (hp : HelloParser)
  | auth (ap : AuthParser)
  | request (rp : RequestParser)

inductive ParserKind
  | noParser
  | helloParser
  | authParser
  | requestParser
deriving DecidableEq, Repr

structure Gaicb where
  arName : List Byte
  arService : UInt16
deriving DecidableEq, Repr

/-- `client_t`. An address list pointer is the list of the nodes it leads to;
`destAddrBase` is absent when it is null. -/
structure Client where
  stm : Option ClientState
  clientFd : ℤ
  destinationFd : ℤ
  activeParser : ParserKind
  parser : ClientParser
  clientBuffer : Buffer
  destinyBuffer : Buffer
  destAddr : List AddrInfo
  destAddrBase : Option (List AddrInfo)
  dnsReq : Option Gaicb
  err : Byte
  clientClosed : Bool
  destClosed : Bool
  destAddrFromGai : Bool

structure Shared where
  selector : FdSelector
  users : Users
  accepted : AcceptedMethods
  stats : Stats

/-- What a client callback works on: the shared statics, the record at address
`self`, whether it has been freed, and the calls made by the callback so far. -/
structure Conn where
  shared : Shared
  self : ℕ
  client : Client
  freed : Bool
  calls : List Call

/-- A member of the union that is read without having been initialised is zero
memory, the worst case for the status fields. -/
def HelloParser.zero : HelloParser := ⟨0, 0, [], 0, 0, ⟨0, ⟨.ver, 0, 0⟩, ⟨.ver, 0, 0⟩⟩⟩
def AuthParser.zero : AuthParser :=
  ⟨0, 0, fun _ => 0, 0, 0, fun _ => 0, 0, 0, false, ⟨0, ⟨.ver, 0, 0⟩, ⟨.ver, 0, 0⟩⟩⟩
def RequestParser.zero : RequestParser :=
  ⟨0, 0, 0, 0, 0, fun _ => 0, fun _ => 0, fun _ => 0, 0, 0, ⟨0, ⟨.ver, 0, 0⟩, ⟨.ver, 0, 0⟩⟩⟩

def ClientParser.helloParser : ClientParser → HelloParser
  | .hello hp => hp
  | _ => .zero

def ClientParser.authParser : ClientParser → AuthParser
  | .auth ap => ap
  | _ => .zero

def ClientParser.requestParser : ClientParser → RequestParser
  | .request rp => rp
  | _ => .zero

namespace Conn

def emit (c : Conn) (call : Call) : Conn := { c with calls := c.calls ++ [call] }

def setParser (c : Conn) (p : ClientParser) : Conn :=
  { c with client := { c.client with parser := p } }

def setDnsReq (c : Conn) (req : Option Gaicb) : Conn :=
  { c with client := { c.client with dnsReq := req } }

/-- The destination's address list: the node in turn, the list's head and whether the
resolver made it. -/
def setDestination (c : Conn) (addr : List AddrInfo) (base : Option (List AddrInfo))
    (fromGai : Bool) : Conn :=
  { c with client := { c.client with
    destAddr := addr, destAddrBase := base, destAddrFromGai := fromGai } }

def setBothClosed (c : Conn) : Conn :=
  { c with client := { c.client with clientClosed := true, destClosed := true } }

def setErr (c : Conn) (e : Byte) : Conn := { c with client := { c.client with err := e } }

def setInterest (c : Conn) (fd : ℤ) (i : Interest) : Conn :=
  { c with shared := { c.shared with selector := (c.shared.selector.selectorSetInterest fd i).2 } }

def send (c : Conn) (a : Answers) (fd : ℤ) (bs : List Byte) : Conn :=
  c.emit (.send fd (a.send.sent bs))

def entry (c : Conn) (fd : ℤ) : Option Item := c.shared.selector.entry fd

/-! What each of these leaves alone. -/

section Frame

variable (c : Conn) (call : Call) (p : ClientParser) (e : Byte) (fd fd' : ℤ) (i : Interest)
  (a : Answers) (bs : List Byte)

@[simp] theorem emit_shared : (c.emit call).shared = c.shared := rfl
@[simp] theorem emit_self : (c.emit call).self = c.self := rfl
@[simp] theorem emit_client : (c.emit call).client = c.client := rfl
@[simp] theorem emit_freed : (c.emit call).freed = c.freed := rfl
@[simp] theorem emit_calls : (c.emit call).calls = c.calls ++ [call] := rfl
@[simp] theorem emit_entry : (c.emit call).entry fd = c.entry fd := rfl

@[simp] theorem send_shared : (c.send a fd bs).shared = c.shared := rfl
@[simp] theorem send_self : (c.send a fd bs).self = c.self := rfl
@[simp] theorem send_client : (c.send a fd bs).client = c.client := rfl
@[simp] theorem send_freed : (c.send a fd bs).freed = c.freed := rfl
@[simp] theorem send_calls :
    (c.send a fd bs).calls = c.calls ++ [.send fd (a.send.sent bs)] := rfl
@[simp] theorem send_entry : (c.send a fd bs).entry fd' = c.entry fd' := rfl

@[simp] theorem setParser_shared : (c.setParser p).shared = c.shared := rfl
@[simp] theorem setParser_self : (c.setParser p).self = c.self := rfl
@[simp] theorem setParser_client :
    (c.setParser p).client = { c.client with parser := p } := rfl
@[simp] theorem setParser_freed : (c.setParser p).freed = c.freed := rfl
@[simp] theorem setParser_calls : (c.setParser p).calls = c.calls := rfl
@[simp] theorem setParser_entry : (c.setParser p).entry fd = c.entry fd := rfl

@[simp] theorem setErr_shared : (c.setErr e).shared = c.shared := rfl
@[simp] theorem setErr_self : (c.setErr e).self = c.self := rfl
@[simp] theorem setErr_client : (c.setErr e).client = { c.client with err := e } := rfl
@[simp] theorem setErr_freed : (c.setErr e).freed = c.freed := rfl
@[simp] theorem setErr_calls : (c.setErr e).calls = c.calls := rfl
@[simp] theorem setErr_entry : (c.setErr e).entry fd = c.entry fd := rfl

@[simp] theorem setInterest_self : (c.setInterest fd i).self = c.self := rfl
@[simp] theorem setInterest_client : (c.setInterest fd i).client = c.client := rfl
@[simp] theorem setInterest_freed : (c.setInterest fd i).freed = c.freed := rfl
@[simp] theorem setInterest_calls : (c.setInterest fd i).calls = c.calls := rfl
@[simp] theorem setInterest_users : (c.setInterest fd i).shared.users = c.shared.users := rfl
@[simp] theorem setInterest_accepted :
    (c.setInterest fd i).shared.accepted = c.shared.accepted := rfl
@[simp] theorem setInterest_stats : (c.setInterest fd i).shared.stats = c.shared.stats := rfl
@[simp] theorem setInterest_fdSize :
    (c.setInterest fd i).shared.selector.fdSize = c.shared.selector.fdSize :=
  FdSelector.fdSize_setInterest _ _ _

theorem setInterest_entry : (c.setInterest fd i).entry fd' =
    if fd' = fd then (c.entry fd).map (fun item => { item with interest := i })
    else c.entry fd' :=
  FdSelector.entry_setInterest _ _ _ _

end Frame

end Conn

end SocksProxy

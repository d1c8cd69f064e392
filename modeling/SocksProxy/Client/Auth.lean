import SocksProxy.Client.Hello

/-! The username and password sub-negotiation: states `AUTH_READ` and `AUTH_WRITE`. -/
namespace SocksProxy

open Interest

def authVersion : Byte := 0x01
def authSuccess : Byte := 0x00
def authFailure : Byte := 0x01

/-! The parser states, numbered as in `auth_state_t`. -/

def authStateVer : ℕ := 0
def authStateUlen : ℕ := 1
def authStateUname : ℕ := 2
def authStatePlen : ℕ := 3
def authStatePasswd : ℕ := 4
def authStateFin : ℕ := 5

def authParserDef : ParserDefinition AuthEvent where
  states := [
    [⟨ANY, authStateUlen, actByte .ver, none⟩],
    [⟨ANY, authStateUname, actByte .ulen, none⟩],
    [⟨ANY, authStateUname, actByte .uname, none⟩],
    [⟨ANY, authStatePasswd, actByte .plen, none⟩],
    [⟨ANY, authStatePasswd, actByte .passwd, none⟩],
    [⟨ANY, authStateFin, actNone .done, none⟩],
    [⟨ANY, authStateFin, actNone .done, none⟩]]
  startState := authStateVer

namespace AuthParser

/-- A store into `uname`; one past its end lands on `uname_read`. -/
def storeUname (ap : AuthParser) (i : ℕ) (b : Byte) : AuthParser :=
  if i < maxBufferSize then { ap with uname := Function.update ap.uname i b }
  else { ap with unameRead := b }

/-- A store into `passwd`; one past its end lands on `passwd_read`. -/
def storePasswd (ap : AuthParser) (i : ℕ) (b : Byte) : AuthParser :=
  if i < maxBufferSize then { ap with passwd := Function.update ap.passwd i b }
  else { ap with passwdRead := b }

def readUname (ap : AuthParser) (b : Byte) : AuthParser :=
  if ap.unameRead < ap.ulen then
    let ap := { ap.storeUname ap.unameRead.toNat b with unameRead := ap.unameRead + 1 }
    ap.storeUname ap.unameRead.toNat 0
  else ap

def readPasswd (ap : AuthParser) (b : Byte) : AuthParser :=
  if ap.passwdRead < ap.plen then
    let ap := { ap.storePasswd ap.passwdRead.toNat b with passwdRead := ap.passwdRead + 1 }
    ap.storePasswd ap.passwdRead.toNat 0
  else ap

def username (ap : AuthParser) : List Byte := cString ap.uname maxBufferSize 0
def password (ap : AuthParser) : List Byte := cString ap.passwd maxBufferSize 0

end AuthParser

namespace Conn

def authReadInit (c : Conn) : Conn :=
  let c := c.destroyActiveParser
  { c with client := { c.client with
    parser := .auth { AuthParser.zero with p := parserInit authParserDef }
    activeParser := .authParser } }

def authEvent (fd : ℤ) (c : Conn) (ev : ParserEvent AuthEvent) :
    Except Fault (Conn × Option ClientState) :=
  let ap := c.client.parser.authParser
  match ev.type with
  | .ver =>
    .ok (c.setParser (.auth { ap with ver := ev.data }),
      if ev.data ≠ authVersion then some .error else none)
  | .ulen => .ok (c.setParser (.auth { ap with ulen := ev.data, unameRead := 0 }), none)
  | .uname =>
    let ap := ap.readUname ev.data
    let ap := if ap.unameRead = ap.ulen then { ap with p := parserSetState ap.p authStatePlen }
      else ap
    .ok (c.setParser (.auth ap), none)
  | .plen => .ok (c.setParser (.auth { ap with plen := ev.data, passwdRead := 0 }), none)
  | .passwd =>
    let ap := ap.readPasswd ev.data
    if ap.passwdRead = ap.plen ∧ !ap.authDone then
      let login := c.shared.users.userLogin ap.username ap.password
      let c := c.emit (.userLogin ap.username ap.password login.2)
      let ap := { ap with
        authStatus := if login.1 = .ok then authSuccess else authFailure
        authDone := true }
      .ok ((c.setParser (.auth ap)).setInterest fd opWrite, some .authWrite)
    else .ok (c.setParser (.auth ap), none)
  | .done => .ok (c, some .error)

def authRead (a : Answers) (fd : ℤ) (c : Conn) : Except Fault (Conn × ClientState) :=
  match a.recv.bytes 1 with
  | [] =>
    if (a.recv.errno a.errno).wouldBlock then .ok (c, .authRead) else .ok (c, .error)
  | b :: _ =>
    let c := c.emit (.recv fd [b])
    let ap := c.client.parser.authParser
    let (p, evs) := parserFeed parserNoClasses authParserDef ap.p b
    forEvents (authEvent fd) .authRead evs (c.setParser (.auth { ap with p := p }))

def authWrite (a : Answers) (fd : ℤ) (c : Conn) : Conn × ClientState :=
  let ap := c.client.parser.authParser
  let response := [authVersion, ap.authStatus]
  let c := c.send a fd response
  if a.send.result response ≠ response.length ∨ ap.authStatus = authFailure then
    (c.setInterest fd opNoop, .error)
  else if ap.authStatus = authSuccess then (c.setInterest fd opRead, .requestRead)
  else (c, .error)

end Conn

end SocksProxy

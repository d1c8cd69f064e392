import SocksProxy.Client.Hello
import SocksProxy.Monitor.Session

/-! The login of a monitor: state `MONITOR_AUTH`. -/
namespace SocksProxy

/-! The parser states, numbered as in `monitor_auth_state_t`. -/

def monitorAuthStateUlen : ℕ := 0
def monitorAuthStateUname : ℕ := 1
def monitorAuthStatePlen : ℕ := 2
def monitorAuthStatePasswd : ℕ := 3
def monitorAuthStateDone : ℕ := 4
def monitorAuthStateError : ℕ := 5

def monitorAuthParserDef : ParserDefinition MonitorAuthEvent where
  states := [
    [⟨ANY, monitorAuthStateUname, actByte .ulen, none⟩],
    [⟨ANY, monitorAuthStateUname, actByte .uname, none⟩],
    [⟨ANY, monitorAuthStatePasswd, actByte .plen, none⟩],
    [⟨ANY, monitorAuthStatePasswd, actByte .passwd, none⟩],
    [⟨ANY, monitorAuthStateDone, actNone .done, none⟩],
    [⟨ANY, monitorAuthStateError, actNone .done, none⟩]]
  startState := monitorAuthStateUlen

namespace MonitorAuthParser

def readUname (map : MonitorAuthParser) (b : Byte) : MonitorAuthParser :=
  if map.unameRead < map.ulen then
    let uname := Function.update map.uname map.unameRead.toNat b
    { map with
      uname := Function.update uname (map.unameRead + 1).toNat 0
      unameRead := map.unameRead + 1 }
  else map

def readPasswd (map : MonitorAuthParser) (b : Byte) : MonitorAuthParser :=
  if map.passwdRead < map.plen then
    let passwd := Function.update map.passwd map.passwdRead.toNat b
    { map with
      passwd := Function.update passwd (map.passwdRead + 1).toNat 0
      passwdRead := map.passwdRead + 1 }
  else map

def username (map : MonitorAuthParser) : List Byte := cString map.uname 256 0
def password (map : MonitorAuthParser) : List Byte := cString map.passwd 256 0

end MonitorAuthParser

namespace Session

def monitorAuthInit (m : Session) : Session :=
  { m with monitor := { m.monitor with
    parser := .auth { MonitorAuthParser.zero with p := parserInit monitorAuthParserDef }
    activeParser := .authParserMonitor } }

def monitorAuthFinalize (a : Answers) (fd : ℤ) (m : Session) : Session :=
  m.notify a 1 fd (if m.monitor.userAccessLevel = .admin then 0x00 else 0x01)

/-- The end of the case `MONITOR_AUTH_EVENT_PASSWD`, once the password is complete. -/
def monitorLogin (a : Answers) (fd : ℤ) (map : MonitorAuthParser) (m : Session) :
    Session × MonitorState :=
  let login := m.shared.users.userLogin map.username map.password
  let m := m.emit (.userLogin map.username map.password login.2)
  if login.1 ≠ .ok then
    let m := if login.1 = .userNotFound then m.setError monitorUserNotFound
      else if login.1 = .wrongPassword then m.setError monitorWrongPassword else m
    (m.notify a 0 fd 0x01, .error)
  else
    let level := login.2.getD m.monitor.userAccessLevel
    let m := { m with monitor := { m.monitor with userAccessLevel := level } }
    if level ≠ .admin then ((m.setError monitorLacksPrivilege).notify a 0 fd 0x01, .error)
    else (m, .req)

/-- The body of the loop over the parser's events. -/
def monitorAuthEvent (a : Answers) (fd : ℤ) (m : Session) (ev : ParserEvent MonitorAuthEvent) :
    Session × Option MonitorState :=
  let map := m.monitor.parser.authParser
  match ev.type with
  | .ulen => (m.setParser (.auth { map with ulen := ev.data, unameRead := 0 }), none)
  | .uname =>
    let map := map.readUname ev.data
    let map := if map.unameRead = map.ulen then
      { map with p := parserSetState map.p monitorAuthStatePlen } else map
    (m.setParser (.auth map), none)
  | .plen => (m.setParser (.auth { map with plen := ev.data, passwdRead := 0 }), none)
  | .passwd =>
    let map := map.readPasswd ev.data
    let m := m.setParser (.auth map)
    if map.passwdRead = map.plen then
      let (m, s) := m.monitorLogin a fd map
      (m, some s)
    else (m, none)
  | .done => (m, some .req)
  | .error => (m.setError monitorUnknownError, some .error)

def forEvents {ε : Type} (body : Session → ParserEvent ε → Session × Option MonitorState)
    (last : MonitorState) : List (ParserEvent ε) → Session → Session × MonitorState
  | [], m => (m, last)
  | ev :: evs, m =>
    match body m ev with
    | (m, some s) => (m, s)
    | (m, none) => forEvents body last evs m

def monitorAuthRead (a : Answers) (fd : ℤ) (m : Session) : Session × MonitorState :=
  match a.recv.bytes 1 with
  | [] =>
    if (a.recv.errno a.errno).wouldBlock then (m, .auth)
    else (m.setError monitorIoError, .error)
  | b :: _ =>
    let m := m.emit (.recv fd [b])
    let map := m.monitor.parser.authParser
    let (p, evs) := parserFeed parserNoClasses monitorAuthParserDef map.p b
    forEvents (monitorAuthEvent a fd) .auth evs (m.setParser (.auth { map with p := p }))

end Session

end SocksProxy

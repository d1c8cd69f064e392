import SocksProxy.Lib.ByteOrder
import SocksProxy.Monitor.Auth

/-! The requests of a monitor: state `MONITOR_REQ`. -/
namespace SocksProxy

open Interest

/-! The parser states, numbered as in `monitor_req_state_t`. -/

def monitorReqStateType : ℕ := 0
def monitorReqStateArgumentLength : ℕ := 1
def monitorReqStateArgument : ℕ := 2
def monitorReqStateDone : ℕ := 3
def monitorReqStateError : ℕ := 4

def monitorReqParserDef : ParserDefinition MonitorReqEvent where
  states := [
    [⟨ANY, monitorReqStateArgumentLength, actByte .type, none⟩],
    [⟨ANY, monitorReqStateArgument, actByte .argumentLength, none⟩],
    [⟨ANY, monitorReqStateArgument, actByte .argument, none⟩],
    [⟨ANY, monitorReqStateDone, actNone .done, none⟩],
    [⟨ANY, monitorReqStateError, actNone .error, none⟩]]
  startState := monitorReqStateType

def addUser : Byte := 0
def removeUser : Byte := 1
def changePasswd : Byte := 2
def statistics : Byte := 3
def changeAuthMethodsReq : Byte := 4

/-- `max_arguments` has five entries, the last of them left zero; `stray` is what lies
behind them. -/
def maxArguments (stray type : Byte) : Byte :=
  if type = addUser then 3
  else if type = removeUser then 1
  else if type = changePasswd then 2
  else if type.toNat < 5 then 0
  else stray

namespace MonitorReqParser

def store (mrq : MonitorReqParser) (i : ℕ) (slot : Slot) : Except Fault MonitorReqParser :=
  if i < maxBufferSize then .ok { mrq with arguments := Function.update mrq.arguments i slot }
  else .error .undefined

def argument (mrq : MonitorReqParser) (i : ℕ) : Except Fault (Option (List Byte)) :=
  match mrq.arguments i with
  | .uninit => .error .undefined
  | .null => .ok none
  | .block bytes => .ok (some (cString bytes 256 0))

def accessLevel (mrq : MonitorReqParser) : Except Fault (Option AccessLevel) :=
  match mrq.arguments 2 with
  | .block bytes => .ok (AccessLevel.ofByte (bytes 0))
  | _ => .error .undefined

/-- The vector as a walk up to its first null entry sees it. -/
def walk (mrq : MonitorReqParser) : ℕ → ℕ → Except Fault Unit
  | 0, _ => .error .undefined
  | fuel + 1, i =>
    if maxBufferSize ≤ i then .error .undefined
    else match mrq.arguments i with
      | .uninit => .error .undefined
      | .null => .ok ()
      | .block _ => walk mrq fuel (i + 1)

def vector (mrq : MonitorReqParser) : ℕ → Option Byte := fun i =>
  match mrq.arguments i with
  | .block bytes => some (bytes 0)
  | _ => none

end MonitorReqParser

namespace Session

def setReq (m : Session) (mrq : MonitorReqParser) : Session := m.setParser (.req mrq)

def setUsers (m : Session) (users : Users) : Session :=
  { m with shared := { m.shared with users := users } }

def setAccepted (m : Session) (accepted : AcceptedMethods) : Session :=
  { m with shared := { m.shared with accepted := accepted } }

def monitorReqInit (m : Session) : Session :=
  { m with monitor := { m.monitor with
    parser := .req { MonitorReqParser.zero with
      p := parserInit monitorReqParserDef, arguments := fun _ => .uninit }
    activeParser := .reqParser } }

/-- Frees the arguments up to the first null entry. -/
def monitorReqFinalize (m : Session) : Except Fault Session :=
  (m.monitor.parser.reqParser.walk 256 0).map fun _ => m

/-- The `switch` of `handle_request`: the statics and the parser it leaves. -/
def requestEffect (m : Session) : Except Fault (MonitorReqStatus × Session) := do
  let mrq := m.monitor.parser.reqParser
  if mrq.type = addUser then
    let uname ← mrq.argument 0
    let passwd ← mrq.argument 1
    let accessLevel ← mrq.accessLevel
    if Users.validUser uname passwd ≠ .ok then
      let (status, users) := m.shared.users.userCreate uname passwd accessLevel
      if status ≠ .ok then return (.err, m)
      return (.ok, m.setUsers users)
    return (.ok, m)
  else if mrq.type = removeUser then
    let uname ← mrq.argument 0
    let (status, users) := m.shared.users.userDelete uname
    if status ≠ .ok then return (.err, m)
    return (.ok, m.setUsers users)
  else if mrq.type = changePasswd then
    let uname ← mrq.argument 0
    let passwd ← mrq.argument 1
    let (status, users) := m.shared.users.userChangePassword uname passwd
    if status ≠ .ok then return (.err, m)
    return (.ok, m.setUsers users)
  else if mrq.type = statistics then
    return (.ok, m.setReq { mrq with stats := m.shared.stats })
  else if mrq.type = changeAuthMethodsReq then
    mrq.walk 256 0
    match changeAuthMethods m.shared.accepted (some mrq.vector) with
    | none => .error .hang
    | some (.ok, accepted) => return (.ok, m.setAccepted accepted)
    | some (.error, accepted) => return (.err, m.setAccepted accepted)
  else return (.err, m)

def handleRequest (fd : ℤ) (m : Session) : Except Fault (MonitorReqStatus × Session) := do
  let m := m.emit (.handleRequest m.monitor.parser.reqParser.type)
  let (status, m) ← m.requestEffect
  match status with
  | .ok => return (.ok, m.setInterest fd opWrite)
  | .err => return (.err, m)

def monitorArgumentLength (a : Answers) (fd : ℤ) (b : Byte) (m : Session) :
    Except Fault (Session × Option MonitorState) := do
  let mrq := m.monitor.parser.reqParser
  if b = 0 then
    let mrq ← mrq.store mrq.argumentsRead.toNat .null
    let m := m.setReq mrq
    if mrq.type ≠ changeAuthMethodsReq ∧ mrq.argumentsRead ≠ maxArguments a.stray mrq.type then
      return (m, some .error)
    let (status, m) ← m.handleRequest fd
    let m := m.setReq { m.monitor.parser.reqParser with reqStatus := status }
    if status ≠ .ok then return (m, some .error)
    return (m, some .req)
  else
    let mrq ← { mrq with currentArgumentLength := b, currentArgumentRead := 0 }.store
      mrq.argumentsRead.toNat (.block fun _ => 0)
    let mrq := { mrq with argumentsRead := mrq.argumentsRead + 1 }
    let mrq ← mrq.store mrq.argumentsRead.toNat .null
    return (m.setReq mrq, none)

def monitorArgument (b : Byte) (m : Session) : Except Fault (Session × Option MonitorState) := do
  let mrq := m.monitor.parser.reqParser
  let mrq ←
    if mrq.currentArgumentRead < mrq.currentArgumentLength then
      match mrq.arguments (mrq.argumentsRead.toNat - 1) with
      | .block bytes =>
        let bytes := Function.update bytes mrq.currentArgumentRead.toNat b
        let bytes := Function.update bytes (mrq.currentArgumentRead + 1).toNat 0
        { mrq with currentArgumentRead := mrq.currentArgumentRead + 1 }.store
          (mrq.argumentsRead.toNat - 1) (.block bytes)
      | _ => .error .undefined
    else .ok mrq
  let mrq := if mrq.currentArgumentRead = mrq.currentArgumentLength then
    { mrq with p := parserSetState mrq.p monitorReqStateArgumentLength } else mrq
  return (m.setReq mrq, none)

def monitorReqEvent (a : Answers) (fd : ℤ) (m : Session) (ev : ParserEvent MonitorReqEvent) :
    Except Fault (Session × Option MonitorState) :=
  match ev.type with
  | .type => .ok (m.setReq { m.monitor.parser.reqParser with type := ev.data }, none)
  | .argumentLength => m.monitorArgumentLength a fd ev.data
  | .argument => m.monitorArgument ev.data
  | .done => .ok (m, some .req)
  | .error => .ok (m.setError monitorUnknownError, some .error)

def forReqEvents (a : Answers) (fd : ℤ) :
    List (ParserEvent MonitorReqEvent) → Session → Except Fault (Session × MonitorState)
  | [], m => .ok (m, .req)
  | ev :: evs, m => do
    match ← m.monitorReqEvent a fd ev with
    | (m, some s) => .ok (m, s)
    | (m, none) => forReqEvents a fd evs m

def monitorReqRead (a : Answers) (fd : ℤ) (m : Session) : Except Fault (Session × MonitorState) :=
  match a.recv.bytes 1 with
  | [] =>
    if (a.recv.errno a.errno).wouldBlock then .ok (m, .req)
    else .ok (m.setError monitorIoError, .error)
  | b :: _ =>
    let m := m.emit (.recv fd [b])
    let mrq := m.monitor.parser.reqParser
    let (p, evs) := parserFeed parserNoClasses monitorReqParserDef mrq.p b
    forReqEvents a fd evs (m.setReq { mrq with p := p })

/-- `htonll`: each half is put in network order where it stands. -/
def htonll (host : ByteOrder) (x : UInt64) : UInt64 :=
  let high := host.htonl (x >>> 32).toUInt32
  let low := host.htonl (x &&& 0xFFFFFFFF).toUInt32
  (high.toUInt64 <<< 32) ||| low.toUInt64

def writeU64 (host : ByteOrder) (value : UInt64) : List Byte :=
  host.memory 8 (htonll host value).toNat

/-- The reply that `send_response` builds on a host of that byte order. -/
def responseBytes (host : ByteOrder) (mrq : MonitorReqParser) : List Byte :=
  (match mrq.reqStatus with | .ok => 0 | .err => 1) ::
    if mrq.type = statistics then
      writeU64 host mrq.stats.historicConnections ++ writeU64 host mrq.stats.transferredBytes ++
        writeU64 host mrq.stats.currentConnections
    else []

/-- Runs are those of a little-endian host. -/
def monitorReply (mrq : MonitorReqParser) : List Byte := responseBytes .little mrq

def sendResponse (a : Answers) (fd : ℤ) (m : Session) : Session × MonitorReqStatus :=
  let reply := monitorReply m.monitor.parser.reqParser
  let m := m.emit (.send fd (a.send.sent reply))
  if a.send.result reply ≠ reply.length then (m, .err)
  else (m.setInterest fd opNoop, .ok)

def monitorReqWrite (a : Answers) (fd : ℤ) (m : Session) : Session × MonitorState :=
  match m.sendResponse a fd with
  | (m, .ok) => (m, .done)
  | (m, .err) => (m.setError monitorIoError, .error)

end Session

end SocksProxy

import SocksProxy.Client.Conn

/-! The record of a monitor connection and everything its callbacks can reach. -/
namespace SocksProxy

open Interest

inductive MonitorState
  | auth
  | req
  | done
  | error
deriving DecidableEq, Repr

/-- `monitor_error_t`; 0 stands for no error. -/
def monitorUserNotFound : Byte := 1
def monitorWrongPassword : Byte := 3
def monitorLacksPrivilege : Byte := 4
def monitorIoError : Byte := 5
def monitorUnknownError : Byte := 8

inductive MonitorAuthEvent
  | ulen
  | uname
  | plen
  | passwd
  | done
  | error
deriving DecidableEq, Repr, Inhabited

inductive MonitorReqEvent
  | type
  | argumentLength
  | argument
  | done
  | error
deriving DecidableEq, Repr, Inhabited

/-- `uname` has 256 entries; `passwd` has 255, followed by a byte of padding. -/
structure MonitorAuthParser where
  ulen : Byte
  plen : Byte
  unameRead : Byte
  passwdRead : Byte
  uname : ℕ → Byte
  passwd : ℕ → Byte
  p : Parser MonitorAuthEvent

/-- An entry of the argument vector: never written, null, or a string of its own. -/
inductive Slot
  | uninit
  | null
  | block (bytes : ℕ → Byte)

inductive MonitorReqStatus
  | ok
  | err
deriving DecidableEq, Repr

/-- The vector `arguments` has 255 entries. -/
structure MonitorReqParser where
  type : Byte
  argumentsRead : Byte
  currentArgumentLength : Byte
  currentArgumentRead : Byte
  reqStatus : MonitorReqStatus
  arguments : ℕ → Slot
  stats : Stats
  p : Parser MonitorReqEvent

/-- The union, tagged by the member that was initialised last. -/
inductive MonitorParser
  | none
  | auth (map : MonitorAuthParser)
  | req (mrq : MonitorReqParser)

inductive MonitorParserKind
  | noParserMonitor
  | authParserMonitor
  | reqParser
deriving DecidableEq, Repr

structure Monitor where
  stm : Option MonitorState
  userAccessLevel : AccessLevel
  error : Byte
  activeParser : MonitorParserKind
  parser : MonitorParser

def MonitorAuthParser.zero : MonitorAuthParser :=
  ⟨0, 0, 0, 0, fun _ => 0, fun _ => 0, ⟨0, ⟨.ulen, 0, 0⟩, ⟨.ulen, 0, 0⟩⟩⟩

def MonitorReqParser.zero : MonitorReqParser :=
  ⟨0, 0, 0, 0, .ok, fun _ => .null, Stats.init, ⟨0, ⟨.type, 0, 0⟩, ⟨.type, 0, 0⟩⟩⟩

def MonitorParser.authParser : MonitorParser → MonitorAuthParser
  | .auth map => map
  | _ => .zero

def MonitorParser.reqParser : MonitorParser → MonitorReqParser
  | .req mrq => mrq
  | _ => .zero

/-- What a monitor callback works on, as `Conn` is for a client's. -/
structure Session where
  shared : Shared
  self : ℕ
  monitor : Monitor
  freed : Bool
  calls : List Call

namespace Session

def emit (m : Session) (call : Call) : Session := { m with calls := m.calls ++ [call] }

def setParser (m : Session) (p : MonitorParser) : Session :=
  { m with monitor := { m.monitor with parser := p } }

def setError (m : Session) (e : Byte) : Session :=
  { m with monitor := { m.monitor with error := e } }

def setInterest (m : Session) (fd : ℤ) (i : Interest) : Session :=
  { m with shared := { m.shared with selector := (m.shared.selector.selectorSetInterest fd i).2 } }

/-- The `k`-th `send` whose result is ignored. -/
def notify (m : Session) (a : Answers) (k : ℕ) (fd : ℤ) (b : Byte) : Session :=
  m.emit (.send fd ((a.notice k).sent [b]))

/-- `handle_close_monitor` and what `selector_unregister_fd` does after it. The states
this is called in have no departure hook. -/
def unregister (m : Session) (fd : ℤ) : Session :=
  if (m.shared.selector.entry fd).isSome then
    let m := m.emit (.close fd)
    { m with
      shared := { m.shared with selector := (m.shared.selector.selectorUnregisterFd fd).2 }
      freed := true }
  else m

def monitorErrorArrival (a : Answers) (fd : ℤ) (m : Session) : Session :=
  let m := if m.monitor.error ≠ 0 then m.notify a 2 fd m.monitor.error else m
  (m.setInterest fd opNoop).unregister fd

def monitorDoneArrival (fd : ℤ) (m : Session) : Session :=
  (m.setInterest fd opNoop).unregister fd

end Session

end SocksProxy

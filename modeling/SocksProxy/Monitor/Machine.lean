import SocksProxy.Lib.Stm
import SocksProxy.Monitor.Req

/-! The table of monitor states, the handlers registered in the selector and the
acceptance of a monitor. -/
namespace SocksProxy

open Interest

/-- `monitor_states`, for one event on `fd` with the answers `a`. -/
def monitorStates (a : Answers) (fd : ℤ) : MonitorState → StateDefinition MonitorState Session
  | .auth =>
    { onArrival := some fun m => .ok m.monitorAuthInit
      onReadReady := some fun m => .ok (m.monitorAuthRead a fd)
      onDeparture := some fun m => .ok (m.monitorAuthFinalize a fd) }
  | .req =>
    { onArrival := some fun m => .ok m.monitorReqInit
      onReadReady := some (Session.monitorReqRead a fd)
      onWriteReady := some fun m => .ok (m.monitorReqWrite a fd)
      onDeparture := some Session.monitorReqFinalize }
  | .done => { onArrival := some fun m => .ok (m.monitorDoneArrival fd) }
  | .error => { onArrival := some fun m => .ok (m.monitorErrorArrival a fd) }

namespace Session

def setState (m : Session) (s : MonitorState) : Session :=
  { m with monitor := { m.monitor with stm := some s } }

def machine (a : Answers) (fd : ℤ) : StateMachine MonitorState Session where
  initial := .auth
  states := monitorStates a fd
  current := fun m => m.monitor.stm
  setCurrent := setState

def state (m : Session) : MonitorState := m.monitor.stm.getD .auth

def handleReadMonitor (a : Answers) (fd : ℤ) (m : Session) : Except Fault Session :=
  (machine a fd).stmHandlerRead m

def handleWriteMonitor (a : Answers) (fd : ℤ) (m : Session) : Except Fault Session :=
  (machine a fd).stmHandlerWrite m

end Session

/-- The record built by `handle_read_passive_monitor`, on zeroed memory: the access level
is `ADMIN`. -/
def newMonitor : Monitor := ⟨none, .admin, 0, .noParserMonitor, .none⟩

/-- The rest of `handle_read_passive_monitor` once `accept` gave `fd` and `calloc` the
address `self`: nothing when the selector refuses the descriptor. -/
def acceptMonitor (shared : Shared) (self : ℕ) (fd : ℤ) : Option Session :=
  match shared.selector.selectorRegister fd .activeMonitor opRead self with
  | (.success, s) => some ⟨{ shared with selector := s }, self, newMonitor, false, []⟩
  | _ => none

end SocksProxy

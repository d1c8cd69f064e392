import SocksProxy.Client.Frame
import SocksProxy.Monitor.Machine

/-! The runs of one monitor connection, and its callbacks seen from outside the
state-machine engine. -/
namespace SocksProxy

open Interest Transition

namespace Session

def entry (m : Session) (fd : ℤ) : Option Item := m.shared.selector.entry fd

def owner (m : Session) (fd : ℤ) : Option (Option FdHandler × ℕ) := m.shared.selector.owner fd

def Ready (m : Session) (op : Op) (fd : ℤ) : Prop :=
  ∃ item, m.entry fd = some item ∧ item.owner = (some .activeMonitor, m.self) ∧
    item.interest.has op = true

def handle (op : Op) (a : Answers) (fd : ℤ) (m : Session) : Except Fault Session :=
  match op with
  | .read => m.handleReadMonitor a fd
  | .write => m.handleWriteMonitor a fd

def begin (m : Session) : Session := { m with calls := [] }

end Session

inductive MonitorStep : Session → ConnLabel → Session → Prop
  | ready {m m' : Session} {op : Op} {fd : ℤ} {a : Answers} :
      m.freed = false → m.Ready op fd → m.begin.handle op a fd = .ok m' →
      MonitorStep m (.ready op fd a) m'
  | other {m : Session} {shared : Shared} :
      Elsewhere .activeMonitor m.self m.shared shared →
      MonitorStep m .other { m.begin with shared := shared }

/-- A monitor just accepted, at an address no entry is attached to. -/
def AcceptedMonitor (fd : ℤ) (m : Session) : Prop :=
  ∃ shared self, shared.selector.Roomy ∧
    (∀ fd' item, shared.selector.entry fd' = some item →
      item.owner ≠ (some .activeMonitor, self)) ∧
    acceptMonitor shared self fd = some m

abbrev MonitorEdge := Edge Session ConnLabel

abbrev MonitorPath := Transition.Path MonitorStep

namespace Session

def first (m : Session) : Session :=
  match m.monitor.stm with
  | none => (m.setState .auth).monitorAuthInit
  | some _ => m

def depart (a : Answers) (fd : ℤ) (s : MonitorState) (m : Session) : Except Fault Session :=
  match s with
  | .auth => .ok (m.monitorAuthFinalize a fd)
  | .req => m.monitorReqFinalize
  | _ => .ok m

def arrive (a : Answers) (fd : ℤ) (s : MonitorState) (m : Session) : Session :=
  match s with
  | .auth => m.monitorAuthInit
  | .req => m.monitorReqInit
  | .done => m.monitorDoneArrival fd
  | .error => m.monitorErrorArrival a fd

/-- `jump` for a monitor that is in the state `s`. -/
def enter (a : Answers) (fd : ℤ) (s next : MonitorState) (m : Session) : Except Fault Session :=
  if s = next then .ok m
  else (m.depart a fd s).map fun m => (m.setState next).arrive a fd next

def handler (op : Op) (a : Answers) (fd : ℤ) (s : MonitorState) :
    Option (Session → Except Fault (Session × MonitorState)) :=
  match op with
  | .read => (monitorStates a fd s).onReadReady
  | .write => (monitorStates a fd s).onWriteReady

variable {m m' : Session} {op : Op} {a : Answers} {fd : ℤ}

theorem runHook_onArrival (a : Answers) (fd : ℤ) (s : MonitorState) (m : Session) :
    StateMachine.runHook (monitorStates a fd s).onArrival m = .ok (m.arrive a fd s) := by
  cases s <;> rfl

theorem runHook_onDeparture (a : Answers) (fd : ℤ) (s : MonitorState) (m : Session) :
    StateMachine.runHook (monitorStates a fd s).onDeparture m = m.depart a fd s := by
  cases s <;> rfl

theorem machine_handleFirst (a : Answers) (fd : ℤ) (m : Session) :
    (machine a fd).handleFirst m = .ok m.first := by
  unfold StateMachine.handleFirst first
  cases h : m.monitor.stm with
  | none => simp [machine, h, runHook_onArrival, arrive]
  | some s => simp [machine, h]

theorem machine_jump {s : MonitorState} (next : MonitorState) (h : m.monitor.stm = some s) :
    (machine a fd).jump next m = m.enter a fd s next := by
  have hcur : (machine a fd).current m = some s := h
  unfold StateMachine.jump enter
  rw [hcur]
  by_cases hs : s = next
  · rw [if_pos hs, hs, if_neg (not_not.mpr rfl)]
  · rw [if_neg hs, if_pos (fun he => hs (Option.some.inj he))]
    change (StateMachine.runHook (monitorStates a fd s).onDeparture m >>= _) = _
    rw [runHook_onDeparture]
    cases m.depart a fd s with
    | error e => rfl
    | ok m₁ => exact runHook_onArrival a fd next (m₁.setState next)

@[simp] theorem first_stm (m : Session) : m.first.monitor.stm = some m.state := by
  unfold first state
  cases h : m.monitor.stm <;> simp [h, setState, monitorAuthInit]

/-- Every callback is the handler of the current state followed by the jump; the handlers
leave the machine's state alone. -/
theorem handle_eq (op : Op) (a : Answers) (fd : ℤ) (m : Session)
    (hstm : ∀ f m₁ s', handler op a fd m.state = some f → f m.first = .ok (m₁, s') →
      m₁.monitor.stm = m.first.monitor.stm) :
    m.handle op a fd =
      match handler op a fd m.state with
      | none => .error .abort
      | some f => f m.first >>= fun r => r.1.enter a fd m.state r.2 := by
  have hcur : ((machine a fd).current m.first).getD (machine a fd).initial = m.state := by
    simp [machine]
  have hstates : (machine a fd).states = monitorStates a fd := rfl
  have hjump : ∀ f, handler op a fd m.state = some f →
      (f m.first >>= fun r => (machine a fd).jump r.2 r.1) =
        (f m.first >>= fun r => r.1.enter a fd m.state r.2) := by
    intro f hf
    cases hr : f m.first with
    | error e => rfl
    | ok r =>
      rw [ok_bind, ok_bind]
      refine machine_jump r.2 ?_
      rw [hstm f r.1 r.2 hf hr, first_stm]
  cases op with
  | read =>
    simp only [handle, handleReadMonitor, StateMachine.stmHandlerRead, StateMachine.stmHandler,
      machine_handleFirst, ok_bind, hcur, handler, hstates] at hjump ⊢
    cases hf : (monitorStates a fd m.state).onReadReady with
    | none => rfl
    | some f => exact hjump f hf
  | write =>
    simp only [handle, handleWriteMonitor, StateMachine.stmHandlerWrite, StateMachine.stmHandler,
      machine_handleFirst, ok_bind, hcur, handler, hstates] at hjump ⊢
    cases hf : (monitorStates a fd m.state).onWriteReady with
    | none => rfl
    | some f => exact hjump f hf

theorem handle_some {op : Op} {a : Answers} {fd : ℤ} {m : Session}
    {f : Session → Except Fault (Session × MonitorState)} (hf : handler op a fd m.state = some f)
    (hstm : ∀ m₁ s', f m.first = .ok (m₁, s') → m₁.monitor.stm = m.first.monitor.stm) :
    m.handle op a fd = f m.first >>= fun r => r.1.enter a fd m.state r.2 := by
  have heq := handle_eq op a fd m fun g m₁ s' hg hm₁ => by
    rw [hf] at hg
    obtain rfl := Option.some.inj hg
    exact hstm m₁ s' hm₁
  rw [heq, hf]

theorem handle_none {op : Op} {a : Answers} {fd : ℤ} {m : Session}
    (hf : handler op a fd m.state = none) : m.handle op a fd = .error .abort := by
  have heq := handle_eq op a fd m fun g m₁ s' hg _ => by
    rw [hf] at hg
    cases hg
  rw [heq, hf]

end Session

end SocksProxy

import SocksProxy.Server.Master
import SocksProxy.Transition.Path

/-! The runs of one client connection: its descriptors become ready in any order,
the system answers anything, and the rest of the server does its own work in
between. -/
namespace SocksProxy

open Transition

inductive Op
  | read
  | write
deriving DecidableEq, Repr

def Interest.has (i : Interest) : Op → Bool
  | .read => i.read
  | .write => i.write

/-- The item belongs to the client record at `self`. -/
def Item.attached (self : ℕ) (item : Item) : Prop :=
  item.handler = some .client ∧ item.data = self

instance (self : ℕ) (item : Item) : Decidable (item.attached self) :=
  inferInstanceAs (Decidable (_ ∧ _))

/-- What the rest of the server may do to the statics between two events of the
record at `owner`: anything but touch the entries attached to it. -/
structure Elsewhere (h : FdHandler) (owner : ℕ) (s s' : Shared) : Prop where
  roomy : s'.selector.Roomy
  kept : ∀ fd item, item.handler = some h ∧ item.data = owner →
    (s.selector.entry fd = some item ↔ s'.selector.entry fd = some item)

inductive ConnLabel
  | ready (op : Op) (fd : ℤ) (a : Answers)
  | other

namespace Conn

def Owns (c : Conn) (fd : ℤ) : Prop := fd = c.client.clientFd ∨ fd = c.client.destinationFd

/-- `select` may report `op` on `fd`: the record owns the descriptor, and the
table has it with that interest. -/
def Ready (c : Conn) (op : Op) (fd : ℤ) : Prop :=
  c.Owns fd ∧ ∃ item, c.entry fd = some item ∧ item.attached c.self ∧ item.interest.has op = true

def handle (op : Op) (a : Answers) (fd : ℤ) (c : Conn) : Except Fault Conn :=
  match op with
  | .read => c.handleReadClient a fd
  | .write => c.handleWriteClient a fd

def begin (c : Conn) : Conn := { c with calls := [] }

end Conn

inductive ConnStep : Conn → ConnLabel → Conn → Prop
  | ready {c c' : Conn} {op : Op} {fd : ℤ} {a : Answers} :
      c.freed = false → c.Ready op fd → c.begin.handle op a fd = .ok c' →
      ConnStep c (.ready op fd a) c'
  | other {c : Conn} {shared : Shared} :
      Elsewhere .client c.self c.shared shared → ConnStep c .other { c.begin with shared := shared }

/-- A connection just accepted, at an address no entry is attached to. -/
def Accepted (fd : ℤ) (c : Conn) : Prop :=
  ∃ shared self, shared.selector.Roomy ∧
    (∀ fd' item, shared.selector.entry fd' = some item → ¬ item.attached self) ∧
    acceptClient shared self fd = some c

abbrev ConnEdge := Edge Conn ConnLabel

abbrev ConnPath := Transition.Path ConnStep

/-! The parts of a callback, seen from outside the state-machine engine. -/

namespace Conn

def first (c : Conn) : Conn :=
  match c.client.stm with
  | none => (c.setState .helloRead).helloReadInit
  | some _ => c

def arrive (a : Answers) (fd : ℤ) (s : ClientState) (c : Conn) : Conn :=
  match s with
  | .helloRead => c.helloReadInit
  | .authRead => c.authReadInit
  | .requestRead => c.requestReadInit
  | .forwarding => c.forwardSetup
  | .done => c.endConnection
  | .error => c.errorHandler a .error fd
  | _ => c

/-- `jump` for a client. -/
def enter (a : Answers) (fd : ℤ) (next : ClientState) (c : Conn) : Conn :=
  if c.client.stm = some next then c else (c.setState next).arrive a fd next

def handler (op : Op) (a : Answers) (fd : ℤ) (s : ClientState) :
    Option (Conn → Except Fault (Conn × ClientState)) :=
  match op with
  | .read => (clientStates a fd s).onReadReady
  | .write => (clientStates a fd s).onWriteReady

theorem runHook_onArrival (a : Answers) (fd : ℤ) (s : ClientState) (c : Conn) :
    StateMachine.runHook (clientStates a fd s).onArrival c = .ok (c.arrive a fd s) := by
  cases s <;> rfl

theorem runHook_onDeparture (a : Answers) (fd : ℤ) (s : ClientState) (c : Conn) :
    StateMachine.runHook (clientStates a fd s).onDeparture c = .ok c := by
  cases s <;> rfl

theorem machine_handleFirst (a : Answers) (fd : ℤ) (c : Conn) :
    (machine a fd).handleFirst c = .ok c.first := by
  unfold StateMachine.handleFirst first
  cases h : c.client.stm with
  | none => simp [machine, h, runHook_onArrival, arrive]
  | some s => simp [machine, h]

theorem machine_jump (a : Answers) (fd : ℤ) (next : ClientState) (c : Conn) :
    (machine a fd).jump next c = .ok (c.enter a fd next) := by
  unfold StateMachine.jump enter
  have harr := runHook_onArrival a fd next (c.setState next)
  by_cases h : c.client.stm = some next
  · simp [machine, h]
  · cases hs : c.client.stm with
    | none => simpa [machine, hs] using harr
    | some s =>
      have hne : s ≠ next := fun he => h (by rw [hs, he])
      have hdep := runHook_onDeparture a fd s c
      simpa [machine, hs, hne, hdep] using harr

@[simp] theorem first_stm (c : Conn) : c.first.client.stm = some c.state := by
  unfold first state
  cases h : c.client.stm <;> simp [h, setState, helloReadInit]

/-- Every callback is the handler of the current state followed by the jump. -/
theorem handle_eq (op : Op) (a : Answers) (fd : ℤ) (c : Conn) :
    c.handle op a fd =
      match handler op a fd c.state with
      | none => .error .abort
      | some f => (f c.first).map (fun r => r.1.enter a fd r.2) := by
  have hcur : ((machine a fd).current c.first).getD (machine a fd).initial = c.state := by
    simp [machine]
  have hjump : ∀ f : Conn → Except Fault (Conn × ClientState),
      (f c.first >>= fun r => (machine a fd).jump r.2 r.1) =
        (f c.first).map (fun r => r.1.enter a fd r.2) := by
    intro f
    cases f c.first with
    | error e => rfl
    | ok r => exact machine_jump a fd r.2 r.1
  have hstates : (machine a fd).states = clientStates a fd := rfl
  cases op with
  | read =>
    simp only [handle, handleReadClient, StateMachine.stmHandlerRead, StateMachine.stmHandler,
      machine_handleFirst, ok_bind, hcur, handler, hstates]
    cases (clientStates a fd c.state).onReadReady with
    | none => rfl
    | some f => exact hjump f
  | write =>
    simp only [handle, handleWriteClient, StateMachine.stmHandlerWrite, StateMachine.stmHandler,
      machine_handleFirst, ok_bind, hcur, handler, hstates]
    cases (clientStates a fd c.state).onWriteReady with
    | none => rfl
    | some f => exact hjump f

theorem handle_some {op : Op} {a : Answers} {fd : ℤ} {c : Conn}
    {f : Conn → Except Fault (Conn × ClientState)} (hf : handler op a fd c.state = some f) :
    c.handle op a fd = (f c.first).map fun r => r.1.enter a fd r.2 := by
  rw [handle_eq, hf]

theorem handle_none {op : Op} {a : Answers} {fd : ℤ} {c : Conn}
    (hf : handler op a fd c.state = none) : c.handle op a fd = .error .abort := by
  rw [handle_eq, hf]

end Conn

end SocksProxy

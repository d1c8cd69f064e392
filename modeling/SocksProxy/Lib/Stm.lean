import SocksProxy.System.Syscall

/-! The state-machine engine. `κ` is everything a callback can reach; the machine
keeps its current state inside it. -/
namespace SocksProxy

/-- The callbacks of one state. An absent one is a null pointer. `on_block_ready`
is left out: no state of the program sets it. -/
structure StateDefinition (σ κ : Type) where
  onArrival : Option (κ → Except Fault κ) := none
  onDeparture : Option (κ → Except Fault κ) := none
  onReadReady : Option (κ → Except Fault (κ × σ)) := none
  onWriteReady : Option (κ → Except Fault (κ × σ)) := none

structure StateMachine (σ κ : Type) where
  initial : σ
  states : σ → StateDefinition σ κ
  current : κ → Option σ
  setCurrent : κ → σ → κ

namespace StateMachine

variable {σ κ : Type} [DecidableEq σ]

def runHook (f : Option (κ → Except Fault κ)) (k : κ) : Except Fault κ :=
  match f with
  | none => .ok k
  | some f => f k

def handleFirst (m : StateMachine σ κ) (k : κ) : Except Fault κ :=
  match m.current k with
  | none => runHook (m.states m.initial).onArrival (m.setCurrent k m.initial)
  | some _ => .ok k

def jump (m : StateMachine σ κ) (next : σ) (k : κ) : Except Fault κ :=
  if m.current k ≠ some next then do
    let k ← match m.current k with
      | some s => runHook (m.states s).onDeparture k
      | none => .ok k
    runHook (m.states next).onArrival (m.setCurrent k next)
  else .ok k

/-- The common body of `stm_handler_read` and `stm_handler_write`. -/
def stmHandler (ready : StateDefinition σ κ → Option (κ → Except Fault (κ × σ)))
    (m : StateMachine σ κ) (k : κ) : Except Fault κ := do
  let k ← m.handleFirst k
  match ready (m.states ((m.current k).getD m.initial)) with
  | none => .error .abort
  | some f =>
    let (k, ret) ← f k
    m.jump ret k

def stmHandlerRead (m : StateMachine σ κ) (k : κ) : Except Fault κ :=
  stmHandler StateDefinition.onReadReady m k

def stmHandlerWrite (m : StateMachine σ κ) (k : κ) : Except Fault κ :=
  stmHandler StateDefinition.onWriteReady m k

def stmHandlerClose (m : StateMachine σ κ) (k : κ) : Except Fault κ :=
  match m.current k with
  | some s => runHook (m.states s).onDeparture k
  | none => .ok k

end StateMachine

end SocksProxy

import SocksProxy.Client.Closing

/-! The method negotiation: states `HELLO_READ` and `HELLO_WRITE`. -/
namespace SocksProxy

open Interest

def helloProtocolVersion : Byte := 0x05

/-! The parser states, numbered as in `hello_state_t`. -/

def helloStateVer : ℕ := 0
def helloStateNmethods : ℕ := 1
def helloStateMethods : ℕ := 2
def helloStateFin : ℕ := 3
def helloStateError : ℕ := 4

def helloParserDef : ParserDefinition HelloEvent where
  states := [
    [⟨ANY, helloStateNmethods, actByte .ver, none⟩],
    [⟨ANY, helloStateMethods, actByte .nmethods, none⟩],
    [⟨ANY, helloStateMethods, actByte .method, none⟩],
    [⟨ANY, helloStateFin, actNone .done, none⟩],
    [⟨ANY, helloStateError, actNone .done, none⟩]]
  startState := helloStateVer

namespace Conn

/-- Memory for the parser is assumed to be there, here and in the other states. -/
def helloReadInit (c : Conn) : Conn :=
  { c with client := { c.client with
    parser := .hello { HelloParser.zero with p := parserInit helloParserDef }
    activeParser := .helloParser } }

/-- The loop over the offered methods: the greatest accepted one so far, and
whether there was one. The comparison is between an unsigned and a signed byte. -/
def selectMethod (m : AcceptedMethods) : List Int8 → Byte → Bool → Option (Byte × Bool)
  | [], selected, found => some (selected, found)
  | method :: rest, selected, found =>
    match acceptedMethod m method with
    | none => none
    | some false => selectMethod m rest selected found
    | some true =>
      selectMethod m rest
        (if selected = helloAuthNoMethodAccepted ∨ (selected.toNat : ℤ) < method.toInt then
          method.toUInt8 else selected) true

def helloMethod (fd : ℤ) (b : Byte) (c : Conn) : Except Fault (Conn × Option ClientState) :=
  let hp := c.client.parser.helloParser
  let hp := if hp.methodsRead < hp.nmethods then
    { hp with methods := hp.methods ++ [b.toInt8], methodsRead := hp.methodsRead + 1 } else hp
  if hp.methodsRead = hp.nmethods then
    match selectMethod c.shared.accepted hp.methods helloAuthNoMethodAccepted false with
    | none => .error .hang
    | some (selected, found) =>
      let hp := { hp with
        methodSelected := if found then selected else helloAuthNoMethodAccepted
        p := parserReset helloParserDef hp.p }
      .ok ((c.setParser (.hello hp)).setInterest fd opWrite, some .helloWrite)
  else .ok (c.setParser (.hello hp), none)

/-- The body of the loop over the parser's events; a state is a return. -/
def helloEvent (fd : ℤ) (c : Conn) (ev : ParserEvent HelloEvent) :
    Except Fault (Conn × Option ClientState) :=
  let hp := c.client.parser.helloParser
  match ev.type with
  | .ver =>
    let c := c.setParser (.hello { hp with ver := ev.data })
    .ok (c, if ev.data ≠ helloProtocolVersion then some .error else none)
  | .nmethods =>
    if ev.data = 0 then .ok (c, some .error)
    else
      .ok (c.setParser (.hello { hp with nmethods := ev.data, methods := [], methodsRead := 0 }), none)
  | .method => helloMethod fd ev.data c
  | .unexpected => .ok (c, some .error)
  | .done => .ok (c, none)

/-- The loop `for (; ev != NULL; ev = ev->next)`, in every read handler; `last` is
what the handler returns after it. -/
def forEvents {ε σ : Type} (body : Conn → ParserEvent ε → Except Fault (Conn × Option σ))
    (last : σ) : List (ParserEvent ε) → Conn → Except Fault (Conn × σ)
  | [], c => .ok (c, last)
  | ev :: evs, c => do
    match ← body c ev with
    | (c, some s) => .ok (c, s)
    | (c, none) => forEvents body last evs c

def helloRead (a : Answers) (fd : ℤ) (c : Conn) : Except Fault (Conn × ClientState) :=
  match a.recv.bytes 1 with
  | [] =>
    if (a.recv.errno a.errno).wouldBlock then .ok (c, .helloRead)
    else .ok (c.setInterest c.client.clientFd opWrite, .error)
  | b :: _ =>
    let c := c.emit (.recv fd [b])
    let hp := c.client.parser.helloParser
    let (p, evs) := parserFeed parserNoClasses helloParserDef hp.p b
    forEvents (helloEvent fd) .helloRead evs (c.setParser (.hello { hp with p := p }))

def helloWrite (a : Answers) (fd : ℤ) (c : Conn) : Conn × ClientState :=
  let hp := c.client.parser.helloParser
  let reply := [helloProtocolVersion, hp.methodSelected]
  let c := c.send a fd reply
  if a.send.result reply ≠ reply.length then (c, .error)
  else
    let c := c.setInterest fd opRead
    if hp.methodSelected = helloAuthNoAuth then (c, .requestRead) else (c, .authRead)

end Conn

end SocksProxy

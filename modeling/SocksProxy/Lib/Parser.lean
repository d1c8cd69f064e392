import Mathlib.Algebra.Group.Nat.Defs
import SocksProxy.System.Syscall

/-! The table-driven parser engine. States are plain numbers, as in the tables;
`ε` is the enumeration that a parser stores in the type of its events. -/
namespace SocksProxy

/-- `data` is the first associated byte; `n` tells whether it was set. -/
structure ParserEvent (ε : Type) where
  type : ε
  data : Byte
  n : ℕ
deriving DecidableEq, Repr

def ANY : ℕ := 2 ^ 9

/-- An action writes the event in place. -/
structure ParserStateTransition (ε : Type) where
  whenCond : ℕ
  dest : ℕ
  act1 : ParserEvent ε → Byte → ParserEvent ε
  act2 : Option (ParserEvent ε → Byte → ParserEvent ε)

structure ParserDefinition (ε : Type) where
  states : List (List (ParserStateTransition ε))
  startState : ℕ

structure Parser (ε : Type) where
  state : ℕ
  e1 : ParserEvent ε
  e2 : ParserEvent ε
deriving DecidableEq, Repr

/-- The classes given to every parser: 255 entries, all zero. -/
def parserNoClasses : List ℕ := List.replicate 0xFF 0

variable {ε : Type}

def parserInit [Inhabited ε] (d : ParserDefinition ε) : Parser ε :=
  ⟨d.startState, ⟨default, 0, 0⟩, ⟨default, 0, 0⟩⟩

def parserReset (d : ParserDefinition ε) (p : Parser ε) : Parser ε :=
  { p with state := d.startState }

def parserSetState (p : Parser ε) (state : ℕ) : Parser ε := { p with state := state }

def ParserStateTransition.matched (t : ParserStateTransition ε) (type : ℕ) (c : Byte) : Bool :=
  if t.whenCond ≤ 0xFF then c.toNat == t.whenCond
  else if t.whenCond = ANY then true
  else type &&& t.whenCond != 0

/-- Takes the first transition that matches and returns the list of events. When
none matches the event of an earlier call is returned again. A lookup outside a
table reads zero, or a row without transitions. -/
def parserFeed (classes : List ℕ) (d : ParserDefinition ε) (p : Parser ε) (c : Byte) :
    Parser ε × List (ParserEvent ε) :=
  match ((d.states[p.state]?).getD []).find? (·.matched ((classes[c.toNat]?).getD 0) c) with
  | none => (p, [p.e1])
  | some t =>
    let e1 := t.act1 p.e1 c
    match t.act2 with
    | none => ({ p with state := t.dest, e1 := e1 }, [e1])
    | some act2 =>
      let e2 := act2 p.e2 c
      ({ state := t.dest, e1 := e1, e2 := e2 }, [e1, e2])

/-- A table without second actions gives one event for each byte. -/
theorem parserFeed_events {d : ParserDefinition ε}
    (h : ∀ row ∈ d.states, ∀ t ∈ row, t.act2 = none) (classes : List ℕ) (p : Parser ε)
    (c : Byte) : ∃ ev, (parserFeed classes d p c).2 = [ev] := by
  unfold parserFeed
  cases hf : ((d.states[p.state]?).getD []).find?
      (·.matched ((classes[c.toNat]?).getD 0) c) with
  | none => exact ⟨_, rfl⟩
  | some t =>
    have ht : t.act2 = none := by
      have hmem := List.mem_of_find?_eq_some hf
      cases hrow : d.states[p.state]? with
      | none => simp [hrow] at hmem
      | some row => exact h row (List.mem_of_getElem? hrow) t (by simpa [hrow] using hmem)
    exact ⟨_, by simp only [ht]; rfl⟩

/-- The action that most tables use: a type and the byte consumed. -/
def actByte (type : ε) (_ : ParserEvent ε) (c : Byte) : ParserEvent ε := ⟨type, c, 1⟩

theorem parserFeed_any {d : ParserDefinition ε} {p : Parser ε} {dest : ℕ} {type : ε}
    (h : d.states[p.state]? = some [⟨ANY, dest, actByte type, none⟩]) (classes : List ℕ)
    (c : Byte) : parserFeed classes d p c =
      ({ p with state := dest, e1 := ⟨type, c, 1⟩ }, [⟨type, c, 1⟩]) := by
  unfold parserFeed
  rw [h]
  rfl

/-- The action of the tables' final states: a type and no byte. -/
def actNone (type : ε) (e : ParserEvent ε) (_ : Byte) : ParserEvent ε := ⟨type, e.data, 0⟩

end SocksProxy

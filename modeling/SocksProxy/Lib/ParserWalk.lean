import SocksProxy.Lib.Parser
import SocksProxy.Transition.Path

/-! The engine's walk through the tables of a parser, over any sequence of calls. -/
namespace SocksProxy

open Transition

inductive ParserCall
  | feed (c : Byte)
  | setState (state : ℕ)
  | reset
deriving DecidableEq, Repr

variable {ε : Type} {d : ParserDefinition ε} {jumps : List ℕ} {p p' : Parser ε} {l : ParserCall}
  {c : Byte}

/-- One call on a parser whose user sets only the states among `jumps`. -/
inductive ParserStep (d : ParserDefinition ε) (jumps : List ℕ) :
    Parser ε → ParserCall → Parser ε → Prop
  | feed (p : Parser ε) (c : Byte) :
      ParserStep d jumps p (.feed c) (parserFeed parserNoClasses d p c).1
  | setState (p : Parser ε) {state : ℕ} : state ∈ jumps →
      ParserStep d jumps p (.setState state) (parserSetState p state)
  | reset (p : Parser ε) : ParserStep d jumps p .reset (parserReset d p)

def Walks (d : ParserDefinition ε) (jumps : List ℕ) (p p' : Parser ε) : Prop :=
  ∃ ts, Path (ParserStep d jumps) p ts p'

/-- The class of the byte and the row of the state are entries of their tables, where `states`
and `states_n` have one entry for each state; a transition matches the byte, and the event
returned does not depend on the one that an earlier byte left. -/
structure InTables (d : ParserDefinition ε) (p : Parser ε) (c : Byte) : Prop where
  classes : c.toNat < parserNoClasses.length
  states : p.state < d.states.length
  taken : ∃ t ∈ d.states[p.state], t.matched ((parserNoClasses[c.toNat]?).getD 0) c = true
  fresh : ∀ e, ((parserFeed parserNoClasses d { p with e1 := e } c).2.head?).map (·.type) =
    ((parserFeed parserNoClasses d p c).2.head?).map (·.type)

/-- Every call of `parser_feed` stays in the tables. -/
def WalksInTables (d : ParserDefinition ε) (ts : List (Edge (Parser ε) ParserCall)) : Prop :=
  ∀ e ∈ ts, ∀ c, e.label = .feed c → InTables d e.src c

namespace ParserDefinition

/-- Every state that is entered has a row, every row takes every byte, and every action writes
the type of the event. -/
structure Total (d : ParserDefinition ε) (jumps : List ℕ) : Prop where
  start : d.startState < d.states.length
  jumps : ∀ state ∈ jumps, state < d.states.length
  dest : ∀ row ∈ d.states, ∀ t ∈ row, t.dest < d.states.length
  any : ∀ row ∈ d.states, ∃ t ∈ row, t.whenCond = ANY
  writes : ∀ row ∈ d.states, ∀ t ∈ row, ∀ e e' c, (t.act1 e c).type = (t.act1 e' c).type

end ParserDefinition

theorem Walks.refl (p : Parser ε) : Walks d jumps p p := ⟨[], .nil⟩

theorem Walks.trans {p'' : Parser ε} (h : Walks d jumps p p') (h' : Walks d jumps p' p'') :
    Walks d jumps p p'' := by
  obtain ⟨ts, hp⟩ := h
  obtain ⟨us, hp'⟩ := h'
  exact ⟨ts ++ us, hp.append hp'⟩

theorem Walks.single (h : ParserStep d jumps p l p') : Walks d jumps p p' :=
  ⟨_, .single h⟩

/-- A transition of the row is taken, whatever event the parser holds. -/
theorem parserFeed_taken (h : d.Total jumps) (hs : p.state < d.states.length) (c : Byte) :
    ∃ t ∈ d.states[p.state], t.matched ((parserNoClasses[c.toNat]?).getD 0) c = true ∧
      ∀ e, (parserFeed parserNoClasses d { p with e1 := e } c).1.state = t.dest ∧
        (parserFeed parserNoClasses d { p with e1 := e } c).2.head? = some (t.act1 e c) := by
  obtain ⟨t₀, hmem₀, hany⟩ := h.any _ (List.getElem_mem hs)
  have hmatch₀ : ∀ type, t₀.matched type c = true := by
    intro type
    unfold ParserStateTransition.matched
    rw [hany]
    rfl
  have hrow : (d.states[p.state]?).getD [] = d.states[p.state] := by
    rw [List.getElem?_eq_getElem hs]
    rfl
  cases hf : d.states[p.state].find?
      (·.matched ((parserNoClasses[c.toNat]?).getD 0) c) with
  | none =>
    have hno := List.find?_eq_none.mp hf t₀ hmem₀
    exact absurd (hmatch₀ _) hno
  | some t =>
    have hmatch := List.find?_some hf
    refine ⟨t, List.mem_of_find?_eq_some hf, hmatch, ?_⟩
    intro e
    unfold parserFeed
    simp only
    rw [hrow, hf]
    simp only
    cases t.act2 with
    | none => exact ⟨rfl, rfl⟩
    | some act2 => exact ⟨rfl, rfl⟩

theorem ParserStep.state_lt (h : d.Total jumps) (hst : ParserStep d jumps p l p')
    (hs : p.state < d.states.length) : p'.state < d.states.length := by
  cases hst with
  | feed c =>
    obtain ⟨t, hmem, -, hfed⟩ := parserFeed_taken h hs c
    rw [(hfed p.e1).1]
    exact h.dest _ (List.getElem_mem hs) t hmem
  | setState hmem => exact h.jumps _ hmem
  | reset => exact h.start

/-- In the tables of a total definition only the byte that has no class leaves them. -/
theorem inTables_iff (h : d.Total jumps) (hs : p.state < d.states.length) :
    InTables d p c ↔ c ≠ 0xFF := by
  have hclass : c.toNat < parserNoClasses.length ↔ c ≠ 0xFF := by
    have hlt := c.toNat_lt
    have hff : c = 0xFF ↔ c.toNat = 255 := UInt8.toNat_inj.symm
    unfold parserNoClasses
    rw [List.length_replicate, Ne, hff]
    omega
  constructor
  · intro hin
    exact hclass.mp hin.classes
  · intro hne
    obtain ⟨t, hmem, hmatch, hfed⟩ := parserFeed_taken h hs c
    refine ⟨hclass.mpr hne, hs, ⟨t, hmem, hmatch⟩, ?_⟩
    intro e
    have hwritten := h.writes _ (List.getElem_mem hs) t hmem e p.e1 c
    rw [(hfed e).2, (hfed p.e1).2]
    exact congrArg some hwritten

theorem walksInTables_iff [Inhabited ε] {ts : List (Edge (Parser ε) ParserCall)}
    (h : d.Total jumps) (hp : Path (ParserStep d jumps) (parserInit d) ts p) :
    WalksInTables d ts ↔ ∀ e ∈ ts, e.label ≠ .feed 0xFF := by
  have hstates : ∀ e ∈ ts, e.src.state < d.states.length := by
    intro e he
    obtain ⟨us, vs, -, hus, -⟩ := hp.split he
    exact hus.invariant (fun p => p.state < d.states.length) h.start
      fun p l p' hs hst => hst.state_lt h hs
  constructor
  · intro hin e he hl
    exact (inTables_iff h (hstates e he)).mp (hin e he _ hl) rfl
  · intro hno e he c hl
    refine (inTables_iff h (hstates e he)).mpr ?_
    rintro rfl
    exact hno e he hl

end SocksProxy

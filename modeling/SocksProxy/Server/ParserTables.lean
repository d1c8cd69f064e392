import SocksProxy.Client.Handlers
import SocksProxy.Client.Login
import SocksProxy.Client.Parsing
import SocksProxy.Lib.ParserWalk
import SocksProxy.Monitor.Answered
import SocksProxy.Monitor.Effects
import SocksProxy.Monitor.Handlers

/-! The five tables given to the engine, and the calls their handlers make of it. -/
namespace SocksProxy

open Transition

theorem helloParserDef_total : helloParserDef.Total [] := by
  refine ⟨by decide, by decide, by decide, by decide, ?_⟩
  simp [helloParserDef, actByte, actNone]

theorem authParserDef_total : authParserDef.Total [authStatePlen] := by
  refine ⟨by decide, by decide, by decide, by decide, ?_⟩
  simp [authParserDef, actByte, actNone]

/-- The constant of the other enumeration is a state of the table too. -/
theorem requestParserDef_total :
    requestParserDef.Total [requestStateDstport, requestStateFin] := by
  refine ⟨by decide, by decide, by decide, by decide, ?_⟩
  simp [requestParserDef, actByte, actNone]

theorem monitorAuthParserDef_total : monitorAuthParserDef.Total [monitorAuthStatePlen] := by
  refine ⟨by decide, by decide, by decide, by decide, ?_⟩
  simp [monitorAuthParserDef, actByte, actNone]

theorem monitorReqParserDef_total :
    monitorReqParserDef.Total [monitorReqStateArgumentLength] := by
  refine ⟨by decide, by decide, by decide, by decide, ?_⟩
  simp [monitorReqParserDef, actByte, actNone]

inductive ServerParser
  | hello | auth | request | monitorAuth | monitorReq
deriving DecidableEq, Repr

namespace ServerParser

def Event : ServerParser → Type
  | .hello => HelloEvent
  | .auth => AuthEvent
  | .request => RequestState
  | .monitorAuth => MonitorAuthEvent
  | .monitorReq => MonitorReqEvent

instance : (k : ServerParser) → Inhabited k.Event
  | .hello => inferInstanceAs (Inhabited HelloEvent)
  | .auth => inferInstanceAs (Inhabited AuthEvent)
  | .request => inferInstanceAs (Inhabited RequestState)
  | .monitorAuth => inferInstanceAs (Inhabited MonitorAuthEvent)
  | .monitorReq => inferInstanceAs (Inhabited MonitorReqEvent)

def definition : (k : ServerParser) → ParserDefinition k.Event
  | .hello => helloParserDef
  | .auth => authParserDef
  | .request => requestParserDef
  | .monitorAuth => monitorAuthParserDef
  | .monitorReq => monitorReqParserDef

/-- The states that the handler gives to `parser_set_state`. -/
def jumps : ServerParser → List ℕ
  | .hello => []
  | .auth => [authStatePlen]
  | .request => [requestStateDstport, requestStateFin]
  | .monitorAuth => [monitorAuthStatePlen]
  | .monitorReq => [monitorReqStateArgumentLength]

theorem total (k : ServerParser) : k.definition.Total k.jumps := by
  cases k with
  | hello => exact helloParserDef_total
  | auth => exact authParserDef_total
  | request => exact requestParserDef_total
  | monitorAuth => exact monitorAuthParserDef_total
  | monitorReq => exact monitorReqParserDef_total

/-- A walk of any of the parsers stays in the tables exactly when no byte fed is 255: the table
of classes has no entry for it. -/
theorem feeds_in_tables_iff (k : ServerParser) {p : Parser k.Event}
    {ts : List (Edge (Parser k.Event) ParserCall)}
    (h : Path (ParserStep k.definition k.jumps) (parserInit k.definition) ts p) :
    WalksInTables k.definition ts ↔ ∀ e ∈ ts, e.label ≠ .feed 0xFF :=
  walksInTables_iff k.total h

def offered (n : Byte) : List (Edge (Parser HelloEvent) ParserCall) :=
  let p := parserInit helloParserDef
  let p' := (parserFeed parserNoClasses helloParserDef p 0x05).1
  [⟨p, .feed 0x05, p'⟩, ⟨p', .feed n, (parserFeed parserNoClasses helloParserDef p' n).1⟩]

theorem offered_path (n : Byte) : ∃ p, Path (ParserStep helloParserDef [])
    (parserInit helloParserDef) (offered n) p :=
  ⟨_, (Path.single (.feed _ _)).snoc (.feed _ _)⟩

theorem offered_in_tables : WalksInTables helloParserDef (offered 0x01) := by
  obtain ⟨p, hp⟩ := offered_path 0x01
  refine (feeds_in_tables_iff .hello hp).mpr ?_
  intro e he
  rcases List.mem_cons.mp he with rfl | he
  · exact (by decide : ParserCall.feed 0x05 ≠ .feed 0xFF)
  · obtain rfl := List.mem_singleton.mp he
    exact (by decide : ParserCall.feed 0x01 ≠ .feed 0xFF)

/-- A client that offers 255 methods. -/
theorem offered_outside : ¬ ∀ (k : ServerParser) (p : Parser k.Event)
    (ts : List (Edge (Parser k.Event) ParserCall)),
    Path (ParserStep k.definition k.jumps) (parserInit k.definition) ts p →
      WalksInTables k.definition ts := by
  intro h
  obtain ⟨p, hp⟩ := offered_path 0xFF
  have hin := h .hello p (offered 0xFF) hp
  have hclass := (hin _ (List.mem_cons_of_mem _ List.mem_cons_self) 0xFF rfl).classes
  rw [parserNoClasses, List.length_replicate] at hclass
  exact Nat.lt_irrefl _ hclass

end ServerParser

/-! The handlers move the state by such calls alone. -/

namespace Conn

variable {a : Answers} {fd : ℤ} {c c₁ : Conn} {s : ClientState} {r : Option ClientState}

theorem helloMethod_walks {b : Byte} (h : helloMethod fd b c = .ok (c₁, r)) :
    Walks helloParserDef [] c.client.parser.helloParser.p c₁.client.parser.helloParser.p := by
  unfold helloMethod at h
  simp only at h
  have hkeep : (if c.client.parser.helloParser.methodsRead < c.client.parser.helloParser.nmethods then
      { c.client.parser.helloParser with
        methods := c.client.parser.helloParser.methods ++ [b.toInt8]
        methodsRead := c.client.parser.helloParser.methodsRead + 1 }
      else c.client.parser.helloParser).p = c.client.parser.helloParser.p := by
    split_ifs <;> rfl
  revert h
  generalize (if c.client.parser.helloParser.methodsRead <
    c.client.parser.helloParser.nmethods then _ else _) = hp at hkeep
  intro h
  rw [← hkeep]
  by_cases hall : hp.methodsRead = hp.nmethods
  · rw [if_pos hall] at h
    cases hsel : selectMethod c.shared.accepted hp.methods helloAuthNoMethodAccepted false with
    | none => simp [hsel] at h
    | some r' =>
      simp only [hsel] at h
      obtain ⟨rfl, rfl⟩ := Prod.mk.inj (Except.ok.inj h)
      exact .single (.reset hp.p)
  · rw [if_neg hall] at h
    obtain ⟨rfl, rfl⟩ := Prod.mk.inj (Except.ok.inj h)
    exact .refl hp.p

theorem helloEvent_walks {ev : ParserEvent HelloEvent} (h : helloEvent fd c ev = .ok (c₁, r)) :
    Walks helloParserDef [] c.client.parser.helloParser.p c₁.client.parser.helloParser.p := by
  unfold helloEvent at h
  cases htype : ev.type with
  | method =>
    rw [htype] at h
    exact helloMethod_walks h
  | nmethods =>
    simp only [htype] at h
    split_ifs at h
    all_goals
      obtain ⟨rfl, rfl⟩ := Prod.mk.inj (Except.ok.inj h)
      exact .refl _
  | ver | unexpected | done =>
    simp only [htype] at h
    obtain ⟨rfl, rfl⟩ := Prod.mk.inj (Except.ok.inj h)
    exact .refl _

theorem helloRead_walks (h : c.helloRead a fd = .ok (c₁, s)) :
    Walks helloParserDef [] c.client.parser.helloParser.p c₁.client.parser.helloParser.p := by
  unfold helloRead at h
  cases hbs : a.recv.bytes 1 with
  | nil =>
    simp only [hbs] at h
    split_ifs at h
    all_goals
      obtain ⟨rfl, rfl⟩ := Prod.mk.inj (Except.ok.inj h)
      exact .refl _
  | cons b rest =>
    simp only [hbs] at h
    obtain ⟨ev, hev⟩ := parserFeed_events helloParserDef_single parserNoClasses
      c.client.parser.helloParser.p b
    rw [emit_client, hev, forEvents_single, map_eq_ok] at h
    obtain ⟨r, hr, hc⟩ := h
    obtain ⟨rfl, -⟩ := Prod.mk.inj hc
    exact (Walks.single (.feed _ b)).trans (helloEvent_walks hr)

theorem authEvent_walks {ev : ParserEvent AuthEvent} (h : authEvent fd c ev = .ok (c₁, r)) :
    Walks authParserDef [authStatePlen] c.client.parser.authParser.p
      c₁.client.parser.authParser.p := by
  unfold authEvent at h
  cases htype : ev.type with
  | uname =>
    simp only [htype] at h
    obtain ⟨rfl, rfl⟩ := Prod.mk.inj (Except.ok.inj h)
    have hkeep := (c.client.parser.authParser.readUname_kept ev.data).1
    change Walks _ _ _ (if _ then _ else _ : AuthParser).p
    split_ifs
    · rw [← hkeep]
      exact .single (.setState _ List.mem_cons_self)
    · rw [hkeep]
      exact .refl _
  | passwd =>
    simp only [htype] at h
    have hkeep := (c.client.parser.authParser.readPasswd_kept ev.data).1
    split_ifs at h
    all_goals
      obtain ⟨rfl, rfl⟩ := Prod.mk.inj (Except.ok.inj h)
      rw [← hkeep]
      exact .refl _
  | ver | ulen | plen | done =>
    simp only [htype] at h
    obtain ⟨rfl, rfl⟩ := Prod.mk.inj (Except.ok.inj h)
    exact .refl _

theorem authRead_walks (h : c.authRead a fd = .ok (c₁, s)) :
    Walks authParserDef [authStatePlen] c.client.parser.authParser.p
      c₁.client.parser.authParser.p := by
  unfold authRead at h
  cases hbs : a.recv.bytes 1 with
  | nil =>
    simp only [hbs] at h
    split_ifs at h
    all_goals
      obtain ⟨rfl, rfl⟩ := Prod.mk.inj (Except.ok.inj h)
      exact .refl _
  | cons b rest =>
    simp only [hbs] at h
    obtain ⟨ev, hev⟩ := parserFeed_events authParserDef_single parserNoClasses
      c.client.parser.authParser.p b
    rw [emit_client, hev, forEvents_single, map_eq_ok] at h
    obtain ⟨r, hr, hc⟩ := h
    obtain ⟨rfl, -⟩ := Prod.mk.inj hc
    exact (Walks.single (.feed _ b)).trans (authEvent_walks hr)

theorem readAddr_p (rp : RequestParser) (len b : Byte) : (rp.readAddr len b).p = rp.p := by
  unfold RequestParser.readAddr
  split_ifs
  · exact (storeAddr_kept rp _ b).1
  · rfl

theorem handleRequestFin_p (a : Answers) (fd : ℤ) (c : Conn) :
    (c.handleRequestFin a fd).1.client.parser.requestParser.p =
      c.client.parser.requestParser.p := by
  unfold handleRequestFin
  simp only
  split_ifs
  · unfold setupLookup
    simp only
    split_ifs <;> rfl
  · rfl
  · rfl
  · rfl

theorem requestPortDone_walks (a : Answers) (fd : ℤ) (c : Conn) :
    Walks requestParserDef [requestStateDstport, requestStateFin]
      c.client.parser.requestParser.p
      (c.requestPortDone a fd).1.client.parser.requestParser.p := by
  set p := (parserFeed parserNoClasses requestParserDef
    (parserSetState c.client.parser.requestParser.p requestStateFin) 0).1 with hp
  have hfed : Walks requestParserDef [requestStateDstport, requestStateFin]
      c.client.parser.requestParser.p p :=
    (Walks.single (.setState _ (by decide))).trans (.single (.feed _ 0))
  have hfin := handleRequestFin_p a fd
    (c.setParser (.request { c.client.parser.requestParser with p := p }))
  change Walks _ _ _ (handleRequestFin a fd
    (c.setParser (.request { c.client.parser.requestParser with p := p }))).1.client.parser.requestParser.p
  rw [hfin]
  exact hfed

theorem requestEvent_walks (a : Answers) (fd : ℤ) (c : Conn) (ev : ParserEvent RequestState) :
    Walks requestParserDef [requestStateDstport, requestStateFin]
      c.client.parser.requestParser.p (requestEvent a fd c ev).1.client.parser.requestParser.p := by
  have hport : ∀ (rp : RequestParser) (p : Parser RequestState), rp.p = p →
      Walks requestParserDef [requestStateDstport, requestStateFin] p
        (parserSetState rp.p requestStateDstport) := by
    rintro rp p rfl
    exact .single (.setState _ List.mem_cons_self)
  unfold requestEvent
  cases ev.type with
  | fin =>
    simp only
    rw [handleRequestFin_p]
    exact .refl _
  | error => exact .refl _
  | cmd | atyp | ver =>
    simp only
    split_ifs <;> exact .refl _
  | rsv => exact .refl _
  | dstport =>
    simp only
    split_ifs
    · exact .refl _
    · exact requestPortDone_walks a fd (c.setParser (.request { c.client.parser.requestParser with
        port := c.client.parser.requestParser.port ||| ev.data.toUInt16, portRead := 2 }))
  | dstaddrIpv4 =>
    have hkeep := readAddr_p c.client.parser.requestParser ipv4Len ev.data
    set rp := c.client.parser.requestParser.readAddr ipv4Len ev.data
    simp only
    split_ifs
    · exact hport _ _ ((storeAddr_kept { rp with ipv4 := rp.addr } _ 0).1.trans hkeep)
    · rw [← hkeep]
      exact .refl _
  | dstaddrIpv6 =>
    have hkeep := readAddr_p c.client.parser.requestParser ipv6Len ev.data
    simp only
    split_ifs
    · exact hport _ _ hkeep
    · rw [← hkeep]
      exact .refl _
  | dstaddrDomainname =>
    have hkeep := readAddr_p c.client.parser.requestParser
      c.client.parser.requestParser.addrLen ev.data
    simp only
    split_ifs
    · exact .refl _
    · exact hport _ _ ((storeAddr_kept _ _ 0).1.trans hkeep)
    · rw [← hkeep]
      exact .refl _

theorem requestParserDef_single :
    ∀ row ∈ requestParserDef.states, ∀ t ∈ row, t.act2 = none := by
  simp [requestParserDef]

/-- The walk goes through the bytes of a chunk up to the one at which the handler returns. -/
theorem requestBytes_walks (a : Answers) (fd : ℤ) (bs : List Byte) (c : Conn) :
    Walks requestParserDef [requestStateDstport, requestStateFin]
      c.client.parser.requestParser.p
      (c.requestBytes a fd bs).1.client.parser.requestParser.p := by
  induction bs generalizing c with
  | nil => exact .refl _
  | cons b bs ih =>
    have hbyte : Walks requestParserDef [requestStateDstport, requestStateFin]
        c.client.parser.requestParser.p
        (c.requestByte a fd b).1.client.parser.requestParser.p := by
      obtain ⟨ev, hev⟩ := parserFeed_events requestParserDef_single parserNoClasses
        c.client.parser.requestParser.p b
      have hfed := @Walks.single _ requestParserDef [requestStateDstport, requestStateFin] _ _ _
        (.feed c.client.parser.requestParser.p b)
      unfold requestByte
      simp only
      rw [hev]
      exact hfed.trans (requestEvent_walks a fd (c.setParser (.request
        { c.client.parser.requestParser with p := (parserFeed parserNoClasses requestParserDef
          c.client.parser.requestParser.p b).1 })) ev)
    unfold requestBytes
    revert hbyte
    obtain ⟨c₁, r⟩ := c.requestByte a fd b
    intro hbyte
    cases r with
    | none => exact hbyte.trans (ih c₁)
    | some s => exact hbyte

theorem requestRead_walks (a : Answers) (fd : ℤ) (c : Conn) :
    Walks requestParserDef [requestStateDstport, requestStateFin]
      c.client.parser.requestParser.p (c.requestRead a fd).1.client.parser.requestParser.p := by
  unfold requestRead
  cases hrecv : a.recv with
  | error e =>
    simp only
    split_ifs <;> exact .refl _
  | eof => exact .refl _
  | data b bs =>
    exact requestBytes_walks a fd _ (c.emit (.recv fd ((RecvAnswer.data b bs).bytes 1024)))

end Conn

namespace Session

variable {a : Answers} {fd : ℤ} {m m₁ : Session} {s : MonitorState} {r : Option MonitorState}

theorem monitorLogin_keeps (a : Answers) (fd : ℤ) (map : MonitorAuthParser) (m : Session) :
    (m.monitorLogin a fd map).1.monitor.parser = m.monitor.parser := by
  unfold monitorLogin
  simp only
  split_ifs <;> rfl

theorem monitorAuthEvent_walks (a : Answers) (fd : ℤ) (m : Session)
    (ev : ParserEvent MonitorAuthEvent) :
    Walks monitorAuthParserDef [monitorAuthStatePlen] m.monitor.parser.authParser.p
      (monitorAuthEvent a fd m ev).1.monitor.parser.authParser.p := by
  unfold monitorAuthEvent
  cases ev.type with
  | ulen | plen | done | error => exact .refl _
  | uname =>
    have hkeep : (m.monitor.parser.authParser.readUname ev.data).p =
        m.monitor.parser.authParser.p := by
      unfold MonitorAuthParser.readUname
      split_ifs <;> rfl
    simp only
    split_ifs
    · rw [← hkeep]
      exact .single (.setState _ List.mem_cons_self)
    · rw [← hkeep]
      exact .refl _
  | passwd =>
    have hkeep : (m.monitor.parser.authParser.readPasswd ev.data).p =
        m.monitor.parser.authParser.p := by
      unfold MonitorAuthParser.readPasswd
      split_ifs <;> rfl
    simp only
    split_ifs
    · rw [monitorLogin_keeps, ← hkeep]
      exact .refl _
    · rw [← hkeep]
      exact .refl _

theorem monitorAuthParserDef_single :
    ∀ row ∈ monitorAuthParserDef.states, ∀ t ∈ row, t.act2 = none := by
  simp [monitorAuthParserDef]

theorem monitorAuthRead_walks (a : Answers) (fd : ℤ) (m : Session) :
    Walks monitorAuthParserDef [monitorAuthStatePlen] m.monitor.parser.authParser.p
      (m.monitorAuthRead a fd).1.monitor.parser.authParser.p := by
  unfold monitorAuthRead
  cases a.recv.bytes 1 with
  | nil =>
    simp only
    split_ifs <;> exact .refl _
  | cons b rest =>
    obtain ⟨ev, hev⟩ := parserFeed_events monitorAuthParserDef_single parserNoClasses
      m.monitor.parser.authParser.p b
    have hfed := @Walks.single _ monitorAuthParserDef [monitorAuthStatePlen] _ _ _
      (.feed m.monitor.parser.authParser.p b)
    have hevent := hfed.trans (monitorAuthEvent_walks a fd
      ((m.emit (.recv fd [b])).setParser (.auth { m.monitor.parser.authParser with
        p := (parserFeed parserNoClasses monitorAuthParserDef
          m.monitor.parser.authParser.p b).1 })) ev)
    change Walks _ _ _ (forEvents _ _ (parserFeed parserNoClasses monitorAuthParserDef
      m.monitor.parser.authParser.p b).2 _).1.monitor.parser.authParser.p
    rw [hev, forEvents_single]
    exact hevent

theorem RequestOutcome.parser_p {status : MonitorReqStatus} (h : RequestOutcome m status m₁) :
    m₁.monitor.parser.reqParser.p = m.monitor.parser.reqParser.p := by
  cases h <;> rfl

theorem handleRequest_p {r : MonitorReqStatus × Session} (h : m.handleRequest fd = .ok r) :
    r.2.monitor.parser.reqParser.p = m.monitor.parser.reqParser.p := by
  unfold handleRequest at h
  obtain ⟨⟨status, m₂⟩, heffect, h⟩ := bind_eq_ok.mp h
  have hkeep := (requestEffect_outcome heffect).parser_p
  cases status with
  | ok =>
    cases h
    exact hkeep
  | err =>
    cases h
    exact hkeep

theorem monitorArgumentLength_p {b : Byte} {r : Session × Option MonitorState}
    (h : m.monitorArgumentLength a fd b = .ok r) :
    r.1.monitor.parser.reqParser.p = m.monitor.parser.reqParser.p := by
  unfold monitorArgumentLength at h
  simp only at h
  split_ifs at h with hzero
  · obtain ⟨mrq, hstore, h⟩ := bind_eq_ok.mp h
    obtain ⟨-, rfl⟩ := MonitorReqParser.store_eq_ok hstore
    by_cases hcount : m.monitor.parser.reqParser.type ≠ changeAuthMethodsReq ∧
        m.monitor.parser.reqParser.argumentsRead ≠ maxArguments a.stray m.monitor.parser.reqParser.type
    · rw [if_pos hcount] at h
      cases h
      rfl
    · rw [if_neg hcount] at h
      obtain ⟨⟨status, m₂⟩, hhandle, h⟩ := bind_eq_ok.mp h
      have hkeep := handleRequest_p hhandle
      cases status with
      | ok =>
        cases h
        exact hkeep
      | err =>
        cases h
        exact hkeep
  · obtain ⟨mrq, hstore, h⟩ := bind_eq_ok.mp h
    obtain ⟨-, rfl⟩ := MonitorReqParser.store_eq_ok hstore
    obtain ⟨mrq, hstore, h⟩ := bind_eq_ok.mp h
    obtain ⟨-, rfl⟩ := MonitorReqParser.store_eq_ok hstore
    cases h
    rfl

theorem storeByte_p {mrq mrq' : MonitorReqParser} {b : Byte} (h : mrq.storeByte b = .ok mrq') :
    mrq'.p = mrq.p := by
  unfold MonitorReqParser.storeByte at h
  split_ifs at h
  · cases hslot : mrq.arguments (mrq.argumentsRead.toNat - 1) with
    | uninit | null =>
      rw [hslot] at h
      cases h
    | block bytes =>
      rw [hslot] at h
      obtain ⟨-, rfl⟩ := MonitorReqParser.store_eq_ok h
      rfl
  · cases h
    rfl

theorem fillArgument_walks {mrq mrq' : MonitorReqParser} {b : Byte}
    (h : mrq.fillArgument b = .ok mrq') :
    Walks monitorReqParserDef [monitorReqStateArgumentLength] mrq.p mrq'.p := by
  unfold MonitorReqParser.fillArgument at h
  obtain ⟨mrq₁, hbyte, h⟩ := bind_eq_ok.mp h
  rw [← storeByte_p hbyte, ← Except.ok.inj h]
  split_ifs
  · exact .single (.setState _ List.mem_cons_self)
  · exact .refl _

theorem monitorArgument_walks (fd : ℤ) {b : Byte} {r : Session × Option MonitorState}
    (h : m.monitorArgument b = .ok r) :
    Walks monitorReqParserDef [monitorReqStateArgumentLength] m.monitor.parser.reqParser.p
      r.1.monitor.parser.reqParser.p := by
  have heq := monitorArgument_eq fd m b
  rw [h] at heq
  obtain ⟨⟨mrq, turn⟩, hfill, hr⟩ := bind_eq_ok.mp heq.symm
  obtain ⟨mrq₁, hfilled, hturn⟩ := map_eq_ok.mp hfill
  cases hturn
  have hsession := congrArg Prod.fst (Except.ok.inj hr)
  change m.setReq mrq = r.1 at hsession
  rw [← hsession]
  exact fillArgument_walks hfilled

theorem monitorReqEvent_walks {ev : ParserEvent MonitorReqEvent}
    {r : Session × Option MonitorState} (h : monitorReqEvent a fd m ev = .ok r) :
    Walks monitorReqParserDef [monitorReqStateArgumentLength] m.monitor.parser.reqParser.p
      r.1.monitor.parser.reqParser.p := by
  unfold monitorReqEvent at h
  cases htype : ev.type with
  | type | done | error =>
    rw [htype] at h
    cases h
    exact .refl _
  | argumentLength =>
    rw [htype] at h
    rw [monitorArgumentLength_p h]
    exact .refl _
  | argument =>
    rw [htype] at h
    exact monitorArgument_walks fd h

theorem monitorReqParserDef_single :
    ∀ row ∈ monitorReqParserDef.states, ∀ t ∈ row, t.act2 = none := by
  simp [monitorReqParserDef]

theorem monitorReqRead_walks {r : Session × MonitorState} (h : m.monitorReqRead a fd = .ok r) :
    Walks monitorReqParserDef [monitorReqStateArgumentLength] m.monitor.parser.reqParser.p
      r.1.monitor.parser.reqParser.p := by
  unfold monitorReqRead at h
  cases hbs : a.recv.bytes 1 with
  | nil =>
    simp only [hbs] at h
    split_ifs at h
    all_goals
      cases h
      exact .refl _
  | cons b rest =>
    simp only [hbs] at h
    obtain ⟨ev, hev⟩ := parserFeed_events monitorReqParserDef_single parserNoClasses
      m.monitor.parser.reqParser.p b
    change forReqEvents a fd (parserFeed parserNoClasses monitorReqParserDef
      m.monitor.parser.reqParser.p b).2 _ = _ at h
    rw [hev, forReqEvents_single] at h
    obtain ⟨r', hevent, h⟩ := bind_eq_ok.mp h
    cases h
    exact (Walks.single (.feed _ b)).trans (monitorReqEvent_walks hevent)

end Session

end SocksProxy

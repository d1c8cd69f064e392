import SocksProxy.Client.Frame

/-! One call of each handler of the handshake: where it may go in the state diagram
and what it may do to the selector. -/
namespace SocksProxy

open Interest

/-- What the client's descriptor waits for in each state of the handshake. -/
def clientInterest : ClientState → Interest
  | .helloRead | .authRead | .requestRead => opRead
  | _ => opWrite

def ClientState.leadsTo : ClientState → ClientState → Bool
  | .helloRead, s => s = .helloRead || s = .helloWrite || s = .error
  | .helloWrite, s => s = .authRead || s = .requestRead || s = .error
  | .authRead, s => s = .authRead || s = .authWrite || s = .error
  | .authWrite, s => s = .requestRead || s = .error
  | .requestRead, s =>
    s = .requestRead || s = .dnsLookup || s = .destConnect || s = .requestWrite || s = .error
  | .dnsLookup, s => s = .dnsLookup || s = .destConnect || s = .error
  | .destConnect, s => s = .destConnect || s = .requestWrite || s = .error
  | .requestWrite, s => s = .forwarding || s = .done || s = .error
  | .forwarding, s => s = .forwarding || s = .done || s = .error
  | .done, _ => false
  | .error, _ => false

namespace Conn

/-- A step of the handshake on `fd` from the state `s` to `s'`: the interest of `fd`
becomes what `s'` waits for, unless the connection fails. -/
structure Talks (fd : ℤ) (s : ClientState) (c c' : Conn) (s' : ClientState) : Prop
    extends Talk c c' where
  leads : s.leadsTo s' = true
  stats : c'.shared.stats = c.shared.stats
  frame : ∀ fd', fd' ≠ fd → c'.entry fd' = c.entry fd'
  interest : s' = .error ∨ (s' = s ∧ c'.entry fd = c.entry fd) ∨
    c'.entry fd = (c.entry fd).map (fun item => { item with interest := clientInterest s' })

variable {fd : ℤ} {s s' : ClientState} {c c₁ c₂ : Conn}

theorem Still.stays (h : Still c c₁) (hl : s.leadsTo s = true) : Talks fd s c c₁ s :=
  ⟨h.toTalk, hl, h.stats, fun fd' _ => h.entry fd', .inr (.inl ⟨rfl, h.entry fd⟩)⟩

theorem Still.fails (h : Still c c₁) (hl : s.leadsTo .error = true) : Talks fd s c c₁ .error :=
  ⟨h.toTalk, hl, h.stats, fun fd' _ => h.entry fd', .inl rfl⟩

theorem Still.tunes (h : Still c c₁) {i : Interest} (hl : s.leadsTo s' = true)
    (hi : s' = .error ∨ i = clientInterest s') : Talks fd s c (c₁.setInterest fd i) s' := by
  refine ⟨h.toTalk.trans (talk_setInterest c₁ fd i), hl, h.stats, ?_, ?_⟩
  · intro fd' hne
    rw [setInterest_entry, if_neg hne]
    exact h.entry fd'
  · rcases hi with hi | hi
    · exact .inl hi
    · refine .inr (.inr ?_)
      rw [setInterest_entry, if_pos rfl, h.entry fd, hi]

theorem Talks.still (h : Talks fd s c c₁ s') (h' : Still c₁ c₂) : Talks fd s c c₂ s' := by
  refine ⟨h.toTalk.trans h'.toTalk, h.leads, h'.stats.trans h.stats, ?_, ?_⟩
  · intro fd' hne
    rw [h'.entry fd', h.frame fd' hne]
  · rw [h'.entry fd]
    exact h.interest

theorem Still.talks (h : Still c c₁) (h' : Talks fd s c₁ c₂ s') : Talks fd s c c₂ s' := by
  refine ⟨h.toTalk.trans h'.toTalk, h'.leads, h'.stats.trans h.stats, ?_, ?_⟩
  · intro fd' hne
    rw [h'.frame fd' hne, h.entry fd']
  · rw [← h.entry fd]
    exact h'.interest

/-- The loop over the events of a table without second actions runs its body once. -/
theorem forEvents_single {ε σ : Type} (body : Conn → ParserEvent ε → Except Fault (Conn × Option σ))
    (last : σ) (ev : ParserEvent ε) (c : Conn) :
    forEvents body last [ev] c = (body c ev).map (fun r => (r.1, r.2.getD last)) := by
  unfold forEvents
  cases body c ev with
  | error e => rfl
  | ok r =>
    obtain ⟨c', s⟩ := r
    cases s <;> rfl

/-! `HELLO_READ` and `HELLO_WRITE`. -/

/-- What the last method byte leaves in the parser: the greatest accepted method among
those offered, or 255. -/
structure Selected (m : AcceptedMethods) (hp : HelloParser) : Prop where
  complete : hp.methodsRead = hp.nmethods
  accepted : hp.methodSelected ≠ helloAuthNoMethodAccepted →
    hp.methodSelected.toInt8 ∈ hp.methods ∧
      acceptedMethod m hp.methodSelected.toInt8 = some true

inductive HelloRead (fd : ℤ) (c : Conn) : Conn → ClientState → Prop
  | idle : HelloRead fd c c .helloRead
  | broken : HelloRead fd c (c.setInterest c.client.clientFd opWrite) .error
  | byte (b : Byte) (hp : HelloParser) {s : ClientState} : s = .helloRead ∨ s = .error →
      HelloRead fd c ((c.emit (.recv fd [b])).setParser (.hello hp)) s
  | selected (b : Byte) (hp : HelloParser) : Selected c.shared.accepted hp →
      HelloRead fd c (((c.emit (.recv fd [b])).setParser (.hello hp)).setInterest fd opWrite)
        .helloWrite

theorem selectMethod_mem {m : AcceptedMethods} {ms : List Int8} {sel sel' : Byte}
    {found found' : Bool} (h : selectMethod m ms sel found = some (sel', found')) :
    (sel' = sel ∨ (sel'.toInt8 ∈ ms ∧ acceptedMethod m sel'.toInt8 = some true)) ∧
      (found' = found ∨ found' = true) := by
  induction ms generalizing sel found with
  | nil =>
    simp only [selectMethod, Option.some.injEq, Prod.mk.injEq] at h
    exact ⟨.inl h.1.symm, .inl h.2.symm⟩
  | cons method rest ih =>
    unfold selectMethod at h
    cases hacc : acceptedMethod m method with
    | none => simp [hacc] at h
    | some ok =>
      rw [hacc] at h
      cases ok with
      | false =>
        obtain ⟨hsel, hf⟩ := ih h
        refine ⟨hsel.imp_right fun hm => ⟨List.mem_cons_of_mem _ hm.1, hm.2⟩, hf⟩
      | true =>
        obtain ⟨hsel, hf⟩ := ih h
        refine ⟨?_, .inr (by simpa using hf)⟩
        rcases hsel with hsel | hm
        · by_cases hlt : sel = helloAuthNoMethodAccepted ∨ (sel.toNat : ℤ) < method.toInt
          · rw [if_pos hlt] at hsel
            have hmethod : sel'.toInt8 = method := by rw [hsel]; rfl
            exact .inr ⟨by rw [hmethod]; exact List.mem_cons_self, by rw [hmethod]; exact hacc⟩
          · rw [if_neg hlt] at hsel
            exact .inl hsel
        · exact .inr ⟨List.mem_cons_of_mem _ hm.1, hm.2⟩

theorem selectMethod_selected {m : AcceptedMethods} {ms : List Int8} {sel : Byte}
    (h : selectMethod m ms helloAuthNoMethodAccepted false = some (sel, true))
    (hne : sel ≠ helloAuthNoMethodAccepted) :
    sel.toInt8 ∈ ms ∧ acceptedMethod m sel.toInt8 = some true := by
  rcases (selectMethod_mem h).1 with hsel | hm
  · exact absurd hsel hne
  · exact hm

/-- The handler's own copy of the parser after a byte. -/
def helloFed (c : Conn) (fd : ℤ) (b : Byte) : Conn :=
  let hp := c.client.parser.helloParser
  (c.emit (.recv fd [b])).setParser
    (.hello { hp with p := (parserFeed parserNoClasses helloParserDef hp.p b).1 })

theorem helloEvent_cases {fd : ℤ} {b : Byte} {c c₁ : Conn} {ev : ParserEvent HelloEvent}
    {r : Option ClientState}
    (h : helloEvent fd (c.helloFed fd b) ev = .ok (c₁, r)) :
    HelloRead fd c c₁ (r.getD .helloRead) := by
  unfold helloEvent at h
  cases htype : ev.type with
  | ver =>
    simp only [htype, Except.ok.injEq, Prod.mk.injEq] at h
    obtain ⟨rfl, rfl⟩ := h
    refine .byte b _ ?_
    split_ifs
    · exact .inr rfl
    · exact .inl rfl
  | nmethods =>
    simp only [htype] at h
    by_cases h0 : ev.data = 0
    · simp only [h0, if_true, Except.ok.injEq, Prod.mk.injEq] at h
      obtain ⟨rfl, rfl⟩ := h
      exact .byte b _ (.inr rfl)
    · simp only [h0, if_false, Except.ok.injEq, Prod.mk.injEq] at h
      obtain ⟨rfl, rfl⟩ := h
      exact .byte b _ (.inl rfl)
  | unexpected =>
    simp only [htype, Except.ok.injEq, Prod.mk.injEq] at h
    obtain ⟨rfl, rfl⟩ := h
    exact .byte b _ (.inr rfl)
  | done =>
    simp only [htype, Except.ok.injEq, Prod.mk.injEq] at h
    obtain ⟨rfl, rfl⟩ := h
    exact .byte b _ (.inl rfl)
  | method =>
    simp only [htype, helloMethod] at h
    generalize (if (c.helloFed fd b).client.parser.helloParser.methodsRead <
        (c.helloFed fd b).client.parser.helloParser.nmethods then _ else _) = hp at h
    by_cases hall : hp.methodsRead = hp.nmethods
    · rw [if_pos hall] at h
      cases hsel : selectMethod (c.helloFed fd b).shared.accepted hp.methods
          helloAuthNoMethodAccepted false with
      | none => simp [hsel] at h
      | some r' =>
        obtain ⟨sel, found⟩ := r'
        simp only [hsel, Except.ok.injEq, Prod.mk.injEq] at h
        obtain ⟨rfl, rfl⟩ := h
        refine .selected b _ ⟨hall, ?_⟩
        intro hne
        cases found with
        | false => exact absurd rfl hne
        | true => exact selectMethod_selected hsel hne
    · rw [if_neg hall] at h
      simp only [Except.ok.injEq, Prod.mk.injEq] at h
      obtain ⟨rfl, rfl⟩ := h
      exact .byte b hp (.inl rfl)

theorem helloParserDef_single : ∀ row ∈ helloParserDef.states, ∀ t ∈ row, t.act2 = none := by
  simp [helloParserDef]

theorem helloRead_cases {a : Answers} {fd : ℤ} {c c₁ : Conn} {s : ClientState}
    (h : c.helloRead a fd = .ok (c₁, s)) : HelloRead fd c c₁ s := by
  unfold helloRead at h
  cases hbs : a.recv.bytes 1 with
  | nil =>
    simp only [hbs] at h
    by_cases hw : (a.recv.errno a.errno).wouldBlock = true
    · simp only [hw, if_true, Except.ok.injEq, Prod.mk.injEq] at h
      obtain ⟨rfl, rfl⟩ := h
      exact .idle
    · simp only [hw, if_false, Except.ok.injEq, Prod.mk.injEq, Bool.false_eq_true] at h
      obtain ⟨rfl, rfl⟩ := h
      exact .broken
  | cons b rest =>
    simp only [hbs] at h
    obtain ⟨ev, hev⟩ := parserFeed_events helloParserDef_single parserNoClasses
      c.client.parser.helloParser.p b
    rw [emit_client, hev, forEvents_single, map_eq_ok] at h
    obtain ⟨r, hr, hc⟩ := h
    obtain ⟨rfl, rfl⟩ := Prod.mk.inj hc
    exact helloEvent_cases hr

theorem HelloRead.talk {fd : ℤ} {c c₁ : Conn} {s : ClientState} (h : HelloRead fd c c₁ s) :
    Talk c c₁ := by
  have hrecv : ∀ b hp, Talk c ((c.emit (.recv fd [b])).setParser (.hello hp)) :=
    fun b hp => (talk_emit c rfl).trans (talk_setParser _ _)
  cases h with
  | idle => exact Talk.refl c
  | broken => exact talk_setInterest c _ _
  | byte b hp _ => exact hrecv b hp
  | selected b hp _ => exact (hrecv b hp).trans (talk_setInterest _ _ _)

theorem HelloRead.leads {fd : ℤ} {c c₁ : Conn} {s : ClientState} (h : HelloRead fd c c₁ s) :
    ClientState.helloRead.leadsTo s = true := by
  cases h with
  | idle | broken | selected _ _ _ => rfl
  | byte b hp hs => rcases hs with rfl | rfl <;> rfl

theorem HelloRead.talks {fd : ℤ} {c c₁ : Conn} {s : ClientState} (h : HelloRead fd c c₁ s)
    (hfd : fd = c.client.clientFd) : Talks fd .helloRead c c₁ s := by
  have hrecv : ∀ b hp, Still c ((c.emit (.recv fd [b])).setParser (.hello hp)) :=
    fun b hp => (still_emit c rfl).trans (still_setParser _ _)
  cases h with
  | idle => exact (Still.refl c).stays rfl
  | broken =>
    rw [← hfd]
    exact (Still.refl c).tunes rfl (.inl rfl)
  | byte b hp hs =>
    rcases hs with rfl | rfl
    · exact (hrecv b hp).stays rfl
    · exact (hrecv b hp).fails rfl
  | selected b hp _ => exact (hrecv b hp).tunes rfl (.inr rfl)

/-- After the selection was sent whole the next state depends on the method alone. -/
theorem helloWrite_cases {a : Answers} {fd : ℤ} {c c₁ : Conn} {s : ClientState}
    (h : c.helloWrite a fd = (c₁, s)) :
    Talks fd .helloWrite c c₁ s ∧ c₁.client.parser = c.client.parser ∧
      (∃ bs, c₁.calls = c.calls ++ [.send fd bs]) ∧
      (s = .requestRead → c.client.parser.helloParser.methodSelected = helloAuthNoAuth) ∧
      (s = .authRead → c.client.parser.helloParser.methodSelected ≠ helloAuthNoAuth) := by
  have hsend : ∀ bs, Still c (c.send a fd bs) := still_send c a fd
  unfold helloWrite at h
  simp only at h
  split_ifs at h with hn hm
  · obtain ⟨rfl, rfl⟩ := Prod.mk.inj h
    exact ⟨(hsend _).fails rfl, rfl, ⟨_, rfl⟩, nofun, nofun⟩
  · obtain ⟨rfl, rfl⟩ := Prod.mk.inj h
    exact ⟨(hsend _).tunes rfl (.inr rfl), rfl, ⟨_, rfl⟩, fun _ => hm, nofun⟩
  · obtain ⟨rfl, rfl⟩ := Prod.mk.inj h
    exact ⟨(hsend _).tunes rfl (.inr rfl), rfl, ⟨_, rfl⟩, nofun, fun _ => hm⟩

/-! `AUTH_READ` and `AUTH_WRITE`. -/

inductive AuthRead (fd : ℤ) (c : Conn) : Conn → ClientState → Prop
  | idle : AuthRead fd c c .authRead
  | broken : AuthRead fd c c .error
  | byte (b : Byte) (ap : AuthParser) {s : ClientState} : s = .authRead ∨ s = .error →
      AuthRead fd c ((c.emit (.recv fd [b])).setParser (.auth ap)) s
  | login (b : Byte) (ap : AuthParser) : ap.passwdRead = ap.plen →
      ap.authStatus = (if (c.shared.users.userLogin ap.username ap.password).1 = .ok
        then authSuccess else authFailure) →
      AuthRead fd c (((((c.emit (.recv fd [b])).emit (.userLogin ap.username ap.password
        (c.shared.users.userLogin ap.username ap.password).2)).setParser (.auth ap))).setInterest
          fd opWrite) .authWrite

def authFed (c : Conn) (fd : ℤ) (b : Byte) : Conn :=
  let ap := c.client.parser.authParser
  (c.emit (.recv fd [b])).setParser
    (.auth { ap with p := (parserFeed parserNoClasses authParserDef ap.p b).1 })

theorem authEvent_cases {fd : ℤ} {b : Byte} {c c₁ : Conn} {ev : ParserEvent AuthEvent}
    {r : Option ClientState} (h : authEvent fd (c.authFed fd b) ev = .ok (c₁, r)) :
    AuthRead fd c c₁ (r.getD .authRead) := by
  unfold authEvent at h
  cases htype : ev.type with
  | ver =>
    simp only [htype, Except.ok.injEq, Prod.mk.injEq] at h
    obtain ⟨rfl, rfl⟩ := h
    refine .byte b _ ?_
    split_ifs
    · exact .inr rfl
    · exact .inl rfl
  | ulen | uname | plen =>
    simp only [htype, Except.ok.injEq, Prod.mk.injEq] at h
    obtain ⟨rfl, rfl⟩ := h
    exact .byte b _ (.inl rfl)
  | done =>
    simp only [htype, Except.ok.injEq, Prod.mk.injEq] at h
    obtain ⟨rfl, rfl⟩ := h
    exact .byte b _ (.inr rfl)
  | passwd =>
    simp only [htype] at h
    generalize (c.authFed fd b).client.parser.authParser.readPasswd ev.data = ap at h
    by_cases hlast : ap.passwdRead = ap.plen ∧ (!ap.authDone) = true
    · rw [if_pos hlast] at h
      obtain ⟨rfl, rfl⟩ := Prod.mk.inj (Except.ok.inj h)
      exact AuthRead.login (c := c) b { ap with
        authStatus := if (c.shared.users.userLogin ap.username ap.password).1 = .ok
          then authSuccess else authFailure
        authDone := true } hlast.1 rfl
    · rw [if_neg hlast] at h
      obtain ⟨rfl, rfl⟩ := Prod.mk.inj (Except.ok.inj h)
      exact .byte b ap (.inl rfl)

theorem authParserDef_single : ∀ row ∈ authParserDef.states, ∀ t ∈ row, t.act2 = none := by
  simp [authParserDef]

theorem authRead_cases {a : Answers} {fd : ℤ} {c c₁ : Conn} {s : ClientState}
    (h : c.authRead a fd = .ok (c₁, s)) : AuthRead fd c c₁ s := by
  unfold authRead at h
  cases hbs : a.recv.bytes 1 with
  | nil =>
    simp only [hbs] at h
    split_ifs at h
    · obtain ⟨rfl, rfl⟩ := Prod.mk.inj (Except.ok.inj h)
      exact .idle
    · obtain ⟨rfl, rfl⟩ := Prod.mk.inj (Except.ok.inj h)
      exact .broken
  | cons b rest =>
    simp only [hbs] at h
    obtain ⟨ev, hev⟩ := parserFeed_events authParserDef_single parserNoClasses
      c.client.parser.authParser.p b
    rw [emit_client, hev, forEvents_single, map_eq_ok] at h
    obtain ⟨r, hr, hc⟩ := h
    obtain ⟨rfl, rfl⟩ := Prod.mk.inj hc
    exact authEvent_cases hr

theorem AuthRead.talks {fd : ℤ} {c c₁ : Conn} {s : ClientState} (h : AuthRead fd c c₁ s) :
    Talks fd .authRead c c₁ s := by
  have hrecv : ∀ b, Still c (c.emit (.recv fd [b])) := fun b => still_emit c rfl
  cases h with
  | idle => exact (Still.refl c).stays rfl
  | broken => exact (Still.refl c).fails rfl
  | byte b ap hs =>
    have hst := (hrecv b).trans (still_setParser _ (.auth ap))
    rcases hs with rfl | rfl
    · exact hst.stays rfl
    · exact hst.fails rfl
  | login b ap _ _ =>
    have hlog : Still c ((c.emit (.recv fd [b])).emit (.userLogin ap.username ap.password
        (c.shared.users.userLogin ap.username ap.password).2)) :=
      (hrecv b).trans (still_emit _ rfl)
    exact (hlog.trans (still_setParser _ (.auth ap))).tunes rfl (.inr rfl)

theorem authWrite_cases {a : Answers} {fd : ℤ} {c c₁ : Conn} {s : ClientState}
    (h : c.authWrite a fd = (c₁, s)) :
    Talks fd .authWrite c c₁ s ∧ (∃ bs, c₁.calls = c.calls ++ [.send fd bs]) ∧
      (s = .requestRead → c.client.parser.authParser.authStatus = authSuccess) := by
  have hsend : ∀ bs, Still c (c.send a fd bs) := still_send c a fd
  unfold authWrite at h
  simp only at h
  split_ifs at h with hn hs
  · obtain ⟨rfl, rfl⟩ := Prod.mk.inj h
    exact ⟨(hsend _).tunes rfl (.inl rfl), ⟨_, rfl⟩, nofun⟩
  · obtain ⟨rfl, rfl⟩ := Prod.mk.inj h
    exact ⟨(hsend _).tunes rfl (.inr rfl), ⟨_, rfl⟩, fun _ => hs⟩
  · obtain ⟨rfl, rfl⟩ := Prod.mk.inj h
    exact ⟨(hsend _).fails rfl, ⟨_, rfl⟩, nofun⟩

/-! `REQUEST_READ`. -/

/-- What one turn of the loop over a chunk comes to: it goes on, or the call returns. -/
def RequestTurn (fd : ℤ) (c c₁ : Conn) : Option ClientState → Prop
  | none => Still c c₁
  | some s => Talks fd .requestRead c c₁ s

theorem Still.requestTurn {fd : ℤ} {c c₁ c₂ : Conn} {r : Option ClientState} (h : Still c c₁)
    (h' : RequestTurn fd c₁ c₂ r) : RequestTurn fd c c₂ r := by
  cases r with
  | none => exact Still.trans h h'
  | some s => exact Still.talks h h'

theorem setupLookup_talks {a : Answers} {fd : ℤ} {name : List Byte} {port : UInt16} {c : Conn} :
    Talks fd .requestRead c ((c.setInterest fd opWrite).setupLookup a fd name port).1
      ((c.setInterest fd opWrite).setupLookup a fd name port).2 := by
  have hask := (still_setDnsReq (c.setInterest fd opWrite) (some ⟨name, port⟩)).trans
    (still_emit _ (show (Call.getaddrinfo name port a.gaiRequest).quiet = true from rfl))
  unfold setupLookup
  cases hg : a.gaiRequest with
  | true =>
    rw [hg] at hask
    exact ((Still.refl c).tunes rfl (.inr rfl)).still hask
  | false =>
    rw [hg] at hask
    -- the interest is set a second time, to the same value
    have htune : Talks fd .requestRead (c.setInterest fd opWrite) _ .requestWrite :=
      (hask.trans (still_setDnsReq _ none)).tunes rfl (.inr rfl)
    have hagain := htune.still (still_setReplyStatus _ socksReplyHostUnreachable)
    refine ⟨(talk_setInterest c fd opWrite).trans hagain.toTalk, rfl, hagain.stats, ?_, ?_⟩
    · intro fd' hne
      have hframe := hagain.frame fd' hne
      rw [setInterest_entry, if_neg hne] at hframe
      exact hframe
    · refine .inr (.inr ?_)
      rcases hagain.interest.resolve_left nofun with ⟨hs, -⟩ | hent
      · exact absurd hs nofun
      · rw [setInterest_entry, if_pos rfl, Option.map_map] at hent
        exact hent

theorem literalAddress_talks {fd : ℤ} {addr : AddrInfo} {c : Conn} :
    Talks fd .requestRead c (c.literalAddress fd addr).1 (c.literalAddress fd addr).2 := by
  exact (still_setDestination c [addr] (some [addr]) false).tunes rfl (.inr rfl)

theorem handleRequestFin_talks {a : Answers} {fd : ℤ} {c : Conn} :
    Talks fd .requestRead c (c.handleRequestFin a fd).1 (c.handleRequestFin a fd).2 := by
  unfold handleRequestFin
  simp only
  split_ifs
  · exact setupLookup_talks
  · exact literalAddress_talks
  · exact literalAddress_talks
  · exact ((Still.refl c).tunes rfl (.inl rfl)).still (still_setErr _ _)

theorem requestPortDone_turn {a : Answers} {fd : ℤ} {c : Conn} :
    RequestTurn fd c (c.requestPortDone a fd).1 (c.requestPortDone a fd).2 := by
  unfold requestPortDone
  simp only
  have hst : ∀ rp, Still c (c.setParser (.request rp)) := fun rp => still_setParser c _
  split
  · exact hst _
  · split_ifs
    · exact Still.talks (hst _) handleRequestFin_talks
    · exact ((hst _).tunes rfl (.inl rfl)).still (still_setErr _ _)

theorem requestEvent_turn {a : Answers} {fd : ℤ} {c : Conn} (ev : ParserEvent RequestState) :
    RequestTurn fd c (c.requestEvent a fd ev).1 (c.requestEvent a fd ev).2 := by
  have hst : ∀ rp, Still c (c.setParser (.request rp)) := fun rp => still_setParser c _
  have hrefuse : ∀ (c' : Conn) status, Still c c' → RequestTurn fd c
      ((c'.setInterest fd opWrite).setReplyStatus status) (some .requestWrite) :=
    fun c' status h => (h.tunes rfl (.inr rfl)).still (still_setReplyStatus _ status)
  unfold requestEvent
  cases ev.type with
  | fin => exact handleRequestFin_talks
  | error => exact ((Still.refl c).tunes rfl (.inl rfl)).still (still_setErr _ _)
  | cmd =>
    simp only
    split_ifs
    · exact hrefuse _ _ (hst _)
    · exact hst _
  | atyp =>
    simp only
    split_ifs
    · exact hrefuse _ _ (Still.refl c)
    · exact hst _
  | dstaddrIpv4 | dstaddrIpv6 => exact hst _
  | dstaddrDomainname =>
    simp only
    split_ifs <;> exact hst _
  | dstport =>
    simp only
    split_ifs
    · exact hst _
    · exact (hst _).requestTurn requestPortDone_turn
  | ver =>
    simp only
    split_ifs
    · exact hrefuse _ _ (Still.refl c)
    · exact Still.refl c
  | rsv => exact Still.refl c

theorem requestByte_turn (a : Answers) (fd : ℤ) (b : Byte) (c : Conn) :
    RequestTurn fd c (c.requestByte a fd b).1 (c.requestByte a fd b).2 := by
  unfold requestByte
  simp only
  split
  · exact Still.refl c
  · exact (still_setParser c _).requestTurn (requestEvent_turn _)

theorem requestBytes_talks {a : Answers} {fd : ℤ} {bs : List Byte} {c : Conn} :
    Talks fd .requestRead c (c.requestBytes a fd bs).1 (c.requestBytes a fd bs).2 := by
  induction bs generalizing c with
  | nil => exact (Still.refl c).stays rfl
  | cons b bs ih =>
    have hturn := requestByte_turn a fd b c
    unfold requestBytes
    split
    · rename_i c₁ s heq
      rw [heq] at hturn
      exact hturn
    · rename_i c₁ heq
      rw [heq] at hturn
      exact Still.talks hturn ih

theorem requestRead_talks (a : Answers) (fd : ℤ) (c : Conn) :
    Talks fd .requestRead c (c.requestRead a fd).1 (c.requestRead a fd).2 := by
  have hfail : Talks fd .requestRead c ((c.setInterest fd opWrite).setErr 0x01) .error :=
    ((Still.refl c).tunes rfl (.inl rfl)).still (still_setErr _ _)
  unfold requestRead
  cases a.recv with
  | error e =>
    simp only
    split_ifs
    · exact (Still.refl c).stays rfl
    · exact hfail
  | eof => exact hfail
  | data b bs => exact Still.talks (still_emit c rfl) requestBytes_talks

/-! `DNS_LOOKUP`. -/

theorem dnsLookup_talks (a : Answers) (fd : ℤ) (c : Conn) :
    Talks fd .dnsLookup c (c.dnsLookup a fd).1 (c.dnsLookup a fd).2 := by
  unfold dnsLookup
  by_cases hnull : c.client.dnsReq.isNone = true
  · rw [if_pos hnull]
    exact ((Still.refl c).tunes rfl (.inl rfl)).still (still_setErr _ _)
  rw [if_neg hnull]
  by_cases hprogress : a.gaiError = .inprogress
  · rw [if_pos hprogress]
    exact (Still.refl c).tunes rfl (.inr rfl)
  rw [if_neg hprogress]
  by_cases hfail : a.gaiError ≠ .ok
  · rw [if_pos hfail]
    refine ⟨?_, rfl, rfl, ?_, .inl rfl⟩
    · refine Talk.trans ?_ (talk_setErr _ 0x04)
      refine Talk.trans ?_ (talk_setInterest _ fd opWrite)
      refine Talk.trans ?_ (still_setDnsReq _ none).toTalk
      exact (talk_setReplyStatus c _).trans (talk_setInterest _ fd opNoop)
    · intro fd' hne
      rw [setErr_entry, setInterest_entry, if_neg hne, (still_setDnsReq _ none).entry,
        setInterest_entry, if_neg hne, (still_setReplyStatus c _).entry]
  · rw [if_neg hfail]
    have hst := still_setDestination c a.gaiResult
      (if a.gaiResult = [] then none else some a.gaiResult) true
    exact (hst.trans (still_setDnsReq _ none)).tunes rfl (.inr rfl)

end Conn

end SocksProxy

import SocksProxy.Client.Steps

/-! The invariant of every connection: its descriptors are its own in the selector, its
buffers are valid, and before the relay these are empty. -/
namespace SocksProxy

open Interest Transition

def ClientState.early : ClientState → Bool
  | .helloRead | .helloWrite | .authRead | .authWrite | .requestRead | .dnsLookup => true
  | _ => false

def ClientState.idle : ClientState → Bool
  | .forwarding | .done | .error => false
  | _ => true

namespace Conn

/-- The invariant of a live connection in the state `s`. -/
structure WiredAt (s : ClientState) (c : Conn) : Prop where
  roomy : c.shared.selector.Roomy
  client : c.owner c.client.clientFd = some (some .client, c.self)
  dest : c.client.destinationFd ≠ -1 →
    c.owner c.client.destinationFd = some (some .client, c.self) ∧
      c.client.destinationFd ≠ c.client.clientFd
  buffered : c.Buffered
  early : s.early = true → c.client.destinationFd = -1
  idle : s.idle = true → ∀ d, c.pending d = [] ∧ c.sourceClosed d = false
  relay : s = .forwarding → c.client.destinationFd ≠ -1

structure Over (c : Conn) : Prop where
  roomy : c.shared.selector.Roomy
  freed : c.freed = true
  clientFd : c.client.clientFd = -1
  destinationFd : c.client.destinationFd = -1
  state : c.state = .done ∨ c.state = .error

def Wired (c : Conn) : Prop := (c.freed = false ∧ WiredAt c.state c) ∨ Over c

variable {c c' c₁ c₂ : Conn} {a : Answers} {fd : ℤ} {s s' : ClientState}

theorem WiredAt.staged (h : WiredAt s c) (s₁ : ClientState) (p : ClientParser) (k : ParserKind) :
    WiredAt s (c.staged s₁ p k) :=
  ⟨h.roomy, h.client, h.dest, h.buffered, h.early, h.idle, h.relay⟩

theorem WiredAt.start (h : WiredAt c.state c) : WiredAt c.state c.start := by
  obtain ⟨p, k, hst, -⟩ := c.start_staged
  have hbegin : WiredAt c.state c.begin :=
    ⟨h.roomy, h.client, h.dest, h.buffered, h.early, h.idle, h.relay⟩
  rw [hst]
  exact hbegin.staged _ p k

theorem roomy_congr (hs : c'.shared.selector.fdSize = c.shared.selector.fdSize)
    (h : c.shared.selector.Roomy) : c'.shared.selector.Roomy := by
  unfold FdSelector.Roomy at h ⊢
  rw [hs]
  exact h

theorem Same.wired (hq : Same c c') (h : WiredAt s c) (hb : c'.Buffered)
    (he : s'.early = true → s.early = true)
    (hi : s'.idle = true → ∀ d, c'.pending d = [] ∧ c'.sourceClosed d = false)
    (hr : s' = .forwarding → c.client.destinationFd ≠ -1) : WiredAt s' c' := by
  refine ⟨roomy_congr hq.fdSize h.roomy, ?_, ?_, hb, ?_, hi, ?_⟩
  · rw [hq.owner, hq.clientFd, hq.self]
    exact h.client
  · rw [hq.destinationFd, hq.owner, hq.clientFd, hq.self]
    exact h.dest
  · intro hs'
    rw [hq.destinationFd]
    exact h.early (he hs')
  · intro hs'
    rw [hq.destinationFd]
    exact hr hs'

theorem Talk.wired (hq : Talk c c') (h : WiredAt s c) (he : s'.early = true → s.early = true)
    (hi : s'.idle = true → s.idle = true)
    (hr : s' = .forwarding → c.client.destinationFd ≠ -1) : WiredAt s' c' := by
  refine hq.toSame.wired h ?_ he ?_ hr
  · intro d
    rw [hq.relayBuffer d]
    exact h.buffered d
  · intro hs' d
    unfold pending
    rw [hq.relayBuffer d, hq.sourceClosed d]
    exact h.idle (hi hs') d

/-- No state of the handshake before the connection attempts is entered from a later one. -/
theorem Talk.wired_early (hq : Talk c c') (hleads : s.leadsTo s' = true) (h : WiredAt s c)
    (hs : s.early = true) : WiredAt s' c' := by
  have hidle : s.idle = true := by
    cases s <;> first | rfl | cases hs
  refine hq.wired h (fun _ => hs) (fun _ => hidle) ?_
  rintro rfl
  cases s <;> simp [ClientState.leadsTo, ClientState.early] at hleads hs

theorem Talks.wired (hq : Talks fd s c c' s') (h : WiredAt s c) (hs : s.early = true) :
    WiredAt s' c' :=
  hq.toTalk.wired_early hq.leads h hs

theorem Opened.relay {n : ℕ} {addr : AddrInfo} {answer : ConnectAnswer}
    (h : Opened c c' n addr answer) : (∀ d, c'.relayBuffer d = c.relayBuffer d) ∧
      ∀ d, c'.sourceClosed d = c.sourceClosed d := by
  constructor
  · intro d
    cases d with
    | false => exact h.destinyBuffer
    | true => exact h.clientBuffer
  · intro d
    cases d with
    | false => exact h.destClosed
    | true => exact h.clientClosed

theorem Opened.wired {n : ℕ} {addr : AddrInfo} {answer : ConnectAnswer}
    (ho : Opened c c' n addr answer) (h : WiredAt .destConnect c) (hs : s'.early = false)
    (hf : s' ≠ .forwarding) : WiredAt s' c' := by
  have hne : c.client.clientFd ≠ n := by
    intro he
    have hown := h.client
    rw [he] at hown
    unfold owner FdSelector.owner at hown
    rw [show c.shared.selector.entry n = none from ho.fresh] at hown
    cases hown
  refine ⟨roomy_congr ho.fdSize h.roomy, ?_, ?_, ?_, ?_, ?_, fun he => absurd he hf⟩
  · have hent := ho.entry c.client.clientFd hne
    rw [ho.clientFd, ho.self]
    unfold owner FdSelector.owner
    rw [show c'.shared.selector.entry c.client.clientFd = c.shared.selector.entry _ from hent]
    exact h.client
  · intro _
    rw [ho.destinationFd, ho.clientFd, ho.self]
    unfold owner FdSelector.owner
    rw [show c'.shared.selector.entry n = _ from ho.own]
    exact ⟨rfl, fun he => hne he.symm⟩
  · intro d
    rw [ho.relay.1 d]
    exact h.buffered d
  · intro he
    rw [hs] at he
    cases he
  · intro _ d
    unfold pending
    rw [ho.relay.1 d, ho.relay.2 d]
    exact h.idle rfl d

/-- The attempt that failed is no longer the connection's. -/
theorem Retries.wired (hr : Retries a c c₁) (h : WiredAt .destConnect c) :
    WiredAt .destConnect c₁ ∧ c₁.client.destinationFd = -1 := by
  cases hr with
  | idle hd => exact ⟨h, hd⟩
  | failed _ =>
    exact ⟨⟨h.roomy, h.client, fun hd => absurd rfl hd, h.buffered, nofun, h.idle, nofun⟩, rfl⟩

theorem Connects.wired (hc : Connects c c' (some s')) (h : WiredAt .destConnect c) :
    WiredAt s' c' := by
  cases hc with
  | pending hst ho _ => exact ho.wired (hst.toTalk.wired h id id nofun) rfl nofun
  | @connected c₁ c₂ n addr hst ho =>
    have hopen : WiredAt .requestWrite c₂ := ho.wired (hst.toTalk.wired h id id nofun) rfl nofun
    exact (talk_tuneStatus c₂ _ _ _).wired hopen id id nofun

theorem TryConnect.wired (ht : TryConnect a fd c c' s') (h : WiredAt .destConnect c) :
    WiredAt s' c' := by
  have hsock : Talk c (c.emit (.getsockopt c.client.destinationFd a.soError)) := talk_emit c rfl
  cases ht with
  | broken _ => exact (hsock.trans (talk_setInterest _ _ _)).wired h nofun nofun nofun
  | decided _ _ _ =>
    exact (hsock.trans (talk_tuneStatus _ _ _ _)).wired h nofun (fun _ => rfl) nofun
  | waiting _ => exact hsock.wired h id id nofun
  | next hr hc => exact hc.wired (hr.wired h).1
  | unreachable hr hc =>
    cases hc with
    | exhausted hst =>
      exact (hst.toTalk.trans (talk_tuneErr _ _ _ _)).wired (hr.wired h).1 nofun nofun nofun

theorem quiet_setBothClosed (c : Conn) : Quiet c c.setBothClosed :=
  .of_client rfl rfl rfl rfl rfl rfl rfl

theorem RequestWrite.wired (hw : RequestWrite a fd c c' s') (h : WiredAt .requestWrite c) :
    WiredAt s' c' := by
  cases hw with
  | broken =>
    exact ((talk_send c a _ _).trans (talk_tuneErr _ _ _ _)).wired h nofun nofun nofun
  | refused _ _ =>
    have hrep := (still_replied c a).toTalk
    have hq := (hrep.toQuiet.trans (quiet_setBothClosed _)).trans
      (talk_setInterest _ fd opNoop).toQuiet
    refine hq.toSame.wired h ?_ nofun nofun nofun
    intro d
    have hb := h.buffered d
    rw [← hrep.relayBuffer d] at hb
    cases d <;> exact hb
  | granted _ hd _ =>
    have htalk := ((still_replied c a).toTalk.trans
      (talk_setInterest _ c.client.clientFd opRead)).trans
      (talk_setInterest _ c.client.destinationFd opRead)
    exact htalk.wired h nofun nofun (fun _ => hd)

theorem Relays.buffered {d : Bool} (hr : Relays d c c') (hb : c.Buffered) : c'.Buffered := by
  intro d'
  by_cases he : d' = d
  · rw [he]
    exact hr.valid
  · rw [Bool.eq_not_of_ne he, hr.other]
    exact hb _

theorem Relays.wired {d : Bool} (hr : Relays d c c') (h : WiredAt .forwarding c)
    (hs : s'.early = false) (hi : s'.idle = false) : WiredAt s' c' := by
  refine hr.toSame.wired h (hr.buffered h.buffered) ?_ ?_ (fun _ => h.relay rfl)
  · intro he
    rw [hs] at he
    cases he
  · intro hi'
    rw [hi] at hi'
    cases hi'

theorem ForwardRead.next {d : Bool} (h : ForwardRead a d fd c c' s') :
    ClientState.forwarding.leadsTo s' = true := by
  cases h <;> rfl

theorem ForwardWrite.next {d : Bool} (h : ForwardWrite d fd c c' s') :
    ClientState.forwarding.leadsTo s' = true := by
  cases h with
  | finished _ | drained _ | blocked | broken => rfl
  | sent _ _ _ _ _ _ hs =>
    rw [hs]
    split_ifs <;> rfl

theorem Turn.leads {op : Op} (h : Turn a fd c op s c₁ s') : s.leadsTo s' = true := by
  cases h with
  | helloRead h => exact h.leads
  | helloWrite h => exact (helloWrite_cases h).1.leads
  | authRead h => exact h.talks.leads
  | authWrite h => exact (authWrite_cases h).1.leads
  | requestRead h =>
    have ht := requestRead_talks a fd c
    rw [h] at ht
    exact ht.leads
  | dnsLookup h =>
    have ht := dnsLookup_talks a fd c
    rw [h] at ht
    exact ht.leads
  | destConnect h =>
    cases h with
    | next _ hc => cases hc <;> rfl
    | broken _ | decided _ _ _ | waiting _ | unreachable _ _ => rfl
  | requestWrite h => cases h <;> rfl
  | forwardRead h => exact h.next
  | forwardWrite h => exact h.next

/-- In the states without a destination only the client's descriptor can be ready. -/
theorem owns_early (h : WiredAt s c) (hs : s.early = true) (ho : c.Owns fd)
    (he : c.entry fd ≠ none) : fd = c.client.clientFd := by
  rcases ho with ho | ho
  · exact ho
  · rw [ho, h.early hs] at he
    exact absurd rfl he

theorem Turn.wired {op : Op} (ht : Turn a fd c op s c₁ s') (h : WiredAt s c) : WiredAt s' c₁ := by
  cases ht with
  | helloRead ht => exact ht.talk.wired_early ht.leads h rfl
  | helloWrite ht => exact (helloWrite_cases ht).1.wired h rfl
  | authRead ht => exact ht.talks.wired h rfl
  | authWrite ht => exact (authWrite_cases ht).1.wired h rfl
  | requestRead ht =>
    have htalk := requestRead_talks a fd c
    rw [ht] at htalk
    exact htalk.wired h rfl
  | dnsLookup ht =>
    have htalk := dnsLookup_talks a fd c
    rw [ht] at htalk
    exact htalk.wired h rfl
  | destConnect ht => exact ht.wired h
  | requestWrite ht => exact ht.wired h
  | forwardRead ht =>
    have hleads := ht.next
    refine (ht.relays h.buffered).wired h ?_ ?_
    · cases s' <;> first | rfl | cases hleads
    · cases s' <;> first | rfl | cases hleads
  | forwardWrite ht =>
    have hleads := ht.next
    refine (ht.relays h.buffered).wired h ?_ ?_
    · cases s' <;> first | rfl | cases hleads
    · cases s' <;> first | rfl | cases hleads

theorem enter_wired (h : WiredAt s' c) (hstm : c.client.stm = some s) (hfreed : c.freed = false)
    (hs : s ≠ .done) (he : s ≠ .error) : Wired (c.enter a fd s') := by
  have hover : ∀ {s₁}, s₁ = .done ∨ s₁ = .error →
      Closed (c.setState s₁) (c.enter a fd s₁) → Wired (c.enter a fd s₁) := by
    intro s₁ hs₁ hcl
    refine .inr ⟨roomy_congr hcl.fdSize h.roomy, hcl.freed, hcl.clientFd, hcl.destinationFd, ?_⟩
    rw [enter_state]
    exact hs₁
  have hstaged : s' ≠ .forwarding → s' ≠ .done → s' ≠ .error → Wired (c.enter a fd s') := by
    intro hf hd he
    obtain ⟨p, k, heq, -⟩ := enter_staged a fd c hf hd he
    refine .inl ⟨?_, ?_⟩
    · rw [heq]
      exact hfreed
    · rw [enter_state, heq]
      exact h.staged s' p k
  cases s' with
  | done =>
    have hne : c.client.stm ≠ some .done := by
      rw [hstm]
      exact fun heq => hs (Option.some.inj heq)
    cases hfin : c.connectionFinished with
    | true => exact hover (.inl rfl) (enter_done hne hfin)
    | false =>
      rw [enter_done_unfinished hne hfin]
      exact .inl ⟨hfreed, h.staged .done _ _⟩
  | error =>
    refine hover (.inr rfl) (enter_error ?_)
    rw [hstm]
    exact fun heq => he (Option.some.inj heq)
  | forwarding =>
    by_cases hf : s = .forwarding
    · rw [enter_stay (hstm.trans (congrArg some hf))]
      have hstate : c.state = .forwarding := by
        unfold state
        rw [hstm, hf]
        rfl
      refine .inl ⟨hfreed, ?_⟩
      rw [hstate]
      exact h
    · rw [enter_forwarding (by rw [hstm]; exact fun heq => hf (Option.some.inj heq))]
      have htalk := (talk_setInterest (c.setState .forwarding) c.client.clientFd opRead).trans
        (talk_setInterest _ c.client.destinationFd opRead)
      refine .inl ⟨hfreed, ?_⟩
      exact htalk.wired (h.staged .forwarding _ _) id id (fun _ => h.relay rfl)
  | helloRead | helloWrite | authRead | authWrite | requestRead | dnsLookup | destConnect
  | requestWrite => exact hstaged nofun nofun nofun

structure Runs (c c' : Conn) : Prop where
  self : c'.self = c.self
  freed : c'.freed = c.freed
  users : c'.shared.users = c.shared.users
  accepted : c'.shared.accepted = c.shared.accepted
  clientFd : c'.client.clientFd = c.client.clientFd
  stm : c'.client.stm = c.client.stm

theorem Quiet.runs (h : Quiet c c') : Runs c c' :=
  ⟨h.self, h.freed, h.users, h.accepted, h.clientFd, h.stm⟩

theorem Runs.trans (h : Runs c c₁) (h' : Runs c₁ c₂) : Runs c c₂ :=
  ⟨h'.self.trans h.self, h'.freed.trans h.freed, h'.users.trans h.users,
    h'.accepted.trans h.accepted, h'.clientFd.trans h.clientFd, h'.stm.trans h.stm⟩

theorem Opened.runs {n : ℕ} {addr : AddrInfo} {answer : ConnectAnswer}
    (h : Opened c c' n addr answer) : Runs c c' :=
  ⟨h.self, h.freed, h.users, h.accepted, h.clientFd, h.stm⟩

theorem Retries.runs (h : Retries a c c₁) : Runs c c₁ := by
  cases h <;> exact ⟨rfl, rfl, rfl, rfl, rfl, rfl⟩

theorem Connects.relayBuffer {r : Option ClientState} (h : Connects c c' r) (d : Bool) :
    c'.relayBuffer d = c.relayBuffer d := by
  cases h with
  | exhausted h => exact h.relayBuffer d
  | pending h ho _ => exact (ho.relay.1 d).trans (h.relayBuffer d)
  | connected h ho =>
    exact ((talk_tuneStatus _ _ _ _).relayBuffer d).trans ((ho.relay.1 d).trans (h.relayBuffer d))

theorem TryConnect.relayBuffer (h : TryConnect a fd c c' s') (d : Bool) :
    c'.relayBuffer d = c.relayBuffer d := by
  have hsock : Talk c (c.emit (.getsockopt c.client.destinationFd a.soError)) := talk_emit c rfl
  have hret : ∀ {c₀}, Retries a c c₀ → c₀.relayBuffer d = c.relayBuffer d := by
    intro c₀ hr
    cases hr <;> cases d <;> rfl
  cases h with
  | broken _ => exact (hsock.trans (talk_setInterest _ _ _)).relayBuffer d
  | decided _ _ _ =>
    exact (hsock.trans (talk_tuneStatus _ _ _ _)).relayBuffer d
  | waiting _ => exact hsock.relayBuffer d
  | next hr hc => exact (hc.relayBuffer d).trans (hret hr)
  | unreachable hr hc =>
    exact ((talk_tuneErr _ _ _ _).relayBuffer d).trans ((hc.relayBuffer d).trans (hret hr))

theorem Connects.runs {r : Option ClientState} (h : Connects c c' r) : Runs c c' := by
  cases h with
  | exhausted h => exact h.toQuiet.runs
  | pending h ho _ => exact h.toQuiet.runs.trans ho.runs
  | connected h ho =>
    exact (h.toQuiet.runs.trans ho.runs).trans (talk_tuneStatus _ _ _ _).toQuiet.runs

theorem RequestWrite.quiet (hw : RequestWrite a fd c c' s') : Quiet c c' := by
  have hrep := (still_replied c a).toTalk
  cases hw with
  | broken => exact ((talk_send c a _ _).trans (talk_tuneErr _ _ _ _)).toQuiet
  | refused _ _ =>
    exact (hrep.toQuiet.trans (quiet_setBothClosed _)).trans (talk_setInterest _ _ _).toQuiet
  | granted _ _ _ =>
    exact ((hrep.trans (talk_setInterest _ _ _)).trans (talk_setInterest _ _ _)).toQuiet

/-- Only the connection attempts open and give up descriptors. -/
theorem Turn.quiet {op : Op} (ht : Turn a fd c op s c₁ s') (hb : c.Buffered)
    (hs : s ≠ .destConnect) : Quiet c c₁ := by
  cases ht with
  | helloRead ht => exact ht.talk.toQuiet
  | helloWrite ht => exact (helloWrite_cases ht).1.toQuiet
  | authRead ht => exact ht.talks.toQuiet
  | authWrite ht => exact (authWrite_cases ht).1.toQuiet
  | requestRead ht =>
    have htalk := requestRead_talks a fd c
    rw [ht] at htalk
    exact htalk.toQuiet
  | dnsLookup ht =>
    have htalk := dnsLookup_talks a fd c
    rw [ht] at htalk
    exact htalk.toQuiet
  | destConnect ht => exact absurd rfl hs
  | requestWrite ht => exact ht.quiet
  | forwardRead ht => exact (ht.relays hb).toQuiet
  | forwardWrite ht => exact (ht.relays hb).toQuiet

theorem TryConnect.runs (ht : TryConnect a fd c c₁ s') : Runs c c₁ := by
  have hsock : Talk c (c.emit (.getsockopt c.client.destinationFd a.soError)) := talk_emit c rfl
  cases ht with
  | broken _ => exact (hsock.trans (talk_setInterest _ _ _)).toQuiet.runs
  | decided _ _ _ => exact (hsock.trans (talk_tuneStatus _ _ _ _)).toQuiet.runs
  | waiting _ => exact hsock.toQuiet.runs
  | next hr hc => exact hr.runs.trans hc.runs
  | unreachable hr hc => exact (hr.runs.trans hc.runs).trans (talk_tuneErr _ _ _ _).toQuiet.runs

theorem Turn.runs {op : Op} (ht : Turn a fd c op s c₁ s') (hb : c.Buffered) : Runs c c₁ := by
  by_cases hs : s = .destConnect
  · subst hs
    cases ht with
    | destConnect ht => exact ht.runs
  · exact (ht.quiet hb hs).runs

/-- What an event does, from the record the handler starts on to the one it leaves. -/
structure Event (op : Op) (fd : ℤ) (a : Answers) (c c₁ : Conn) (s' : ClientState)
    (c' : Conn) : Prop where
  live : c.freed = false
  ready : c.Ready op fd
  defined : (handler op a fd c.state).isSome = true
  wired : WiredAt c.state c.start
  early : c.state.early = true → fd = c.client.clientFd
  turn : Turn a fd c.start op c.state c₁ s'
  enter : c' = c₁.enter a fd s'

theorem start_kept (c : Conn) : c.start.shared = c.shared ∧ c.start.self = c.self ∧
    c.start.freed = c.freed ∧ c.start.client.clientFd = c.client.clientFd ∧
    c.start.client.stm = some c.state ∧ c.start.calls = [] := by
  obtain ⟨p, k, hst, -⟩ := c.start_staged
  rw [hst]
  exact ⟨rfl, rfl, rfl, rfl, rfl, rfl⟩

/-- Every event of a connection in order is a turn and a jump. -/
theorem Wired.event {op : Op} (hw : Wired c) (h : ConnStep c (.ready op fd a) c') :
    ∃ c₁ s', Event op fd a c c₁ s' c' := by
  have hlive : c.freed = false := by
    cases h with
    | ready hfreed _ _ => exact hfreed
  have hat : WiredAt c.state c := by
    rcases hw with ⟨-, hat⟩ | hover
    · exact hat
    · rw [hover.freed] at hlive
      cases hlive
  obtain ⟨-, hready, c₁, s', hdef, hturn, hent⟩ := ready_inv hat.roomy hat.buffered h
  refine ⟨c₁, s', hlive, hready, hdef, hat.start, ?_, hturn, hent⟩
  intro hearly
  obtain ⟨hown, item, hitem, -⟩ := hready
  refine owns_early hat hearly hown ?_
  rw [hitem]
  nofun

theorem Event.runs {op : Op} (h : Event op fd a c c₁ s' c') : Runs c.start c₁ :=
  h.turn.runs h.wired.buffered

theorem handler_live {op : Op} (h : (handler op a fd s).isSome = true) : s ≠ .done ∧ s ≠ .error := by
  constructor <;> rintro rfl <;> cases op <;> cases h

theorem Event.leads {op : Op} (h : Event op fd a c c₁ s' c') : c.state.leadsTo s' = true :=
  h.turn.leads

theorem Event.state (h : Event op fd a c c₁ s' c') : c'.state = s' := by
  rw [h.enter]
  exact enter_state

theorem Event.turn_of_state {s : ClientState} (h : Event op fd a c c₁ s' c') (hs : c.state = s) :
    Turn a fd c.start op s c₁ s' := by
  rw [← hs]
  exact h.turn

/-- The invariant only needs the record's own entries. -/
theorem WiredAt.reown {shared : Shared} (h : WiredAt s c) (hroomy : shared.selector.Roomy)
    (hown : ∀ fd, c.owner fd = some (some .client, c.self) →
      shared.selector.owner fd = some (some .client, c.self)) :
    WiredAt s { c.begin with shared := shared } := by
  refine ⟨hroomy, hown _ h.client, ?_, h.buffered, h.early, h.idle, h.relay⟩
  intro hd
  obtain ⟨hdo, hne⟩ := h.dest hd
  exact ⟨hown _ hdo, hne⟩

/-- What the rest of the server does keeps the invariant of this connection. -/
theorem Wired.elsewhere {shared : Shared} (hw : Wired c) (h : Elsewhere .client c.self c.shared shared) :
    Wired { c.begin with shared := shared } := by
  have hown : ∀ fd, c.owner fd = some (some .client, c.self) →
      shared.selector.owner fd = some (some .client, c.self) := by
    intro fd ho
    obtain ⟨item, hitem, hio⟩ := (FdSelector.owner_eq_some _ _ _).mp ho
    have hatt := (Item.attached_iff _ _).mpr hio
    exact (FdSelector.owner_eq_some _ _ _).mpr ⟨item, (h.kept fd item hatt).mp hitem, hio⟩
  rcases hw with ⟨hfreed, hat⟩ | hover
  · exact .inl ⟨hfreed, hat.reown h.roomy hown⟩
  · exact .inr ⟨h.roomy, hover.freed, hover.clientFd, hover.destinationFd, hover.state⟩

theorem Event.keeps {op : Op} (h : Event op fd a c c₁ s' c') : Wired c' := by
  obtain ⟨-, -, hfreed, -, hstm, -⟩ := c.start_kept
  have hruns := h.runs
  have hat : WiredAt s' c₁ := h.turn.wired h.wired
  obtain ⟨hd, he⟩ := handler_live h.defined
  rw [h.enter]
  refine enter_wired hat (hruns.stm.trans hstm) ?_ hd he
  rw [hruns.freed, hfreed]
  exact h.live

theorem wired_step {l : ConnLabel} (hw : Wired c) (h : ConnStep c l c') : Wired c' := by
  cases l with
  | ready op fd a =>
    obtain ⟨c₁, s', hev⟩ := hw.event h
    exact hev.keeps
  | other =>
    cases h with
    | other helse => exact hw.elsewhere helse

theorem wired_accepted (h : Accepted fd c) : Wired c := by
  obtain ⟨shared, self, hroomy, hfresh, hacc⟩ := h
  unfold acceptClient at hacc
  split at hacc
  · rename_i s hreg
    obtain rfl := Option.some.inj hacc
    have hok : (shared.selector.selectorRegister fd .client opRead self).1 = .success := by
      rw [hreg]
    obtain ⟨hv, hfree, hent⟩ := FdSelector.register_success hroomy hok
    have hsize := FdSelector.fdSize_register hroomy fd .client opRead self
    rw [hreg] at hent hsize
    refine .inl ⟨rfl, ?_, ?_, fun hd => absurd rfl hd, ?_, fun _ => rfl, ?_, nofun⟩
    · unfold FdSelector.Roomy at hroomy ⊢
      rw [show s.fdSize = shared.selector.fdSize from hsize]
      exact hroomy
    · have hown := hent fd
      rw [if_pos rfl] at hown
      exact (FdSelector.owner_eq_some _ _ _).mpr ⟨⟨fd, opRead, some .client, self⟩, hown, rfl⟩
    · intro d
      cases d <;> exact Buffer.valid_init _ _
    · intro _ d
      cases d <;> exact ⟨Buffer.pending_init _ _, rfl⟩
  · cases hacc

theorem newClient_state (h : Accepted fd c) : c.state = .helloRead := by
  obtain ⟨shared, self, -, -, hacc⟩ := h
  unfold acceptClient at hacc
  split at hacc
  · obtain rfl := Option.some.inj hacc
    rfl
  · cases hacc

/-- The invariant holds in every state of every run. -/
theorem wired_path {ts : List ConnEdge} (h0 : Accepted fd c) (h : ConnPath c ts c') : Wired c' :=
  h.invariant Wired (wired_accepted h0) fun _ _ _ hi hst => wired_step hi hst

end Conn

end SocksProxy

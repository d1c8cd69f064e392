import SocksProxy.Client.Relay

/-! One event of a connection, put together: the handler of the current state, the jump
and what its arrival hook does. -/
namespace SocksProxy

open Interest Transition

namespace Conn

variable {c c' c₁ : Conn} {a : Answers} {fd : ℤ} {s s' : ClientState}

/-! The arrival hooks of `DONE` and `ERROR`. -/

def closeCalls (fd : ℤ) : List Call := if fd ≠ -1 then [.close fd] else []

/-- The connection is over: the descriptors closed and out of the selector, the record freed. -/
structure Closed (c c' : Conn) : Prop where
  self : c'.self = c.self
  freed : c'.freed = true
  users : c'.shared.users = c.shared.users
  accepted : c'.shared.accepted = c.shared.accepted
  fdSize : c'.shared.selector.fdSize = c.shared.selector.fdSize
  stm : c'.client.stm = c.client.stm
  clientFd : c'.client.clientFd = -1
  destinationFd : c'.client.destinationFd = -1
  entry : ∀ fd, c'.entry fd =
    if fd = c.client.clientFd ∨ fd = c.client.destinationFd then none else c.entry fd
  operated : c.shared.selector.Operated c'.shared.selector
  stats : c'.shared.stats =
    if (c.entry c.client.clientFd).isSome then c.shared.stats.decrementCurrentConnections
    else c.shared.stats
  calls : c'.calls =
    c.calls ++ (closeCalls c.client.clientFd ++ closeCalls c.client.destinationFd)

theorem entry_neg_one (c : Conn) : c.entry (-1) = none := rfl

theorem unregister_entry (c : Conn) (fd fd' : ℤ) :
    (c.unregister fd).entry fd' = if fd' = fd then none else c.entry fd' := by
  unfold unregister
  by_cases hs : (c.shared.selector.entry fd).isSome = true
  · rw [if_pos hs]
    change ((c.handleCloseClient fd).shared.selector.selectorUnregisterFd fd).2.entry fd' = _
    have hsel : (c.handleCloseClient fd).shared.selector = c.shared.selector := by
      unfold handleCloseClient
      split_ifs <;> rfl
    rw [hsel, FdSelector.entry_unregister]
    rfl
  · rw [if_neg hs]
    by_cases he : fd' = fd
    · rw [if_pos he, he]
      exact Option.not_isSome_iff_eq_none.mp hs
    · rw [if_neg he]

/-- What unregistering leaves alone. -/
theorem unregister_kept (c : Conn) (fd : ℤ) :
    (c.unregister fd).self = c.self ∧ (c.unregister fd).freed = c.freed ∧
      (c.unregister fd).client = c.client ∧ (c.unregister fd).calls = c.calls ∧
      (c.unregister fd).shared.users = c.shared.users ∧
      (c.unregister fd).shared.accepted = c.shared.accepted ∧
      (c.unregister fd).shared.selector.fdSize = c.shared.selector.fdSize := by
  unfold unregister handleCloseClient
  split_ifs
  · exact ⟨rfl, rfl, rfl, rfl, rfl, rfl, FdSelector.fdSize_unregister _ _⟩
  · exact ⟨rfl, rfl, rfl, rfl, rfl, rfl, FdSelector.fdSize_unregister _ _⟩
  · exact ⟨rfl, rfl, rfl, rfl, rfl, rfl, rfl⟩

theorem unregister_operated (c : Conn) (fd : ℤ) :
    c.shared.selector.Operated (c.unregister fd).shared.selector := by
  unfold unregister handleCloseClient
  split_ifs
  · exact .unregister fd .refl
  · exact .unregister fd .refl
  · exact .refl

/-- The close hook counts the client's descriptor only. -/
theorem handleCloseClient_stats (c : Conn) (fd : ℤ) :
    (c.handleCloseClient fd).shared.stats =
      if fd = c.client.clientFd then c.shared.stats.decrementCurrentConnections
      else c.shared.stats := by
  unfold handleCloseClient
  split_ifs <;> rfl

theorem unregister_stats (c : Conn) (fd : ℤ) :
    (c.unregister fd).shared.stats =
      if fd = c.client.clientFd ∧ (c.entry fd).isSome then
        c.shared.stats.decrementCurrentConnections
      else c.shared.stats := by
  unfold unregister
  by_cases hs : (c.shared.selector.entry fd).isSome = true
  · rw [if_pos hs]
    refine (handleCloseClient_stats c fd).trans ?_
    by_cases hfd : fd = c.client.clientFd
    · exact (if_pos hfd).trans (if_pos ⟨hfd, hs⟩).symm
    · exact (if_neg hfd).trans (if_neg fun h => hfd h.1).symm
  · rw [if_neg hs]
    exact (if_neg fun h => hs h.2).symm

structure ClosedFd (c c' : Conn) (fd : ℤ) : Prop where
  self : c'.self = c.self
  freed : c'.freed = c.freed
  users : c'.shared.users = c.shared.users
  accepted : c'.shared.accepted = c.shared.accepted
  fdSize : c'.shared.selector.fdSize = c.shared.selector.fdSize
  stm : c'.client.stm = c.client.stm
  entry : ∀ fd', c'.entry fd' = if fd' = fd then none else c.entry fd'
  operated : c.shared.selector.Operated c'.shared.selector
  stats : c'.shared.stats =
    if fd = c.client.clientFd ∧ (c.entry fd).isSome then c.shared.stats.decrementCurrentConnections
    else c.shared.stats
  calls : c'.calls = c.calls ++ closeCalls fd

theorem closedFd_of_absent (h : fd = -1) : ClosedFd c c fd := by
  subst h
  refine ⟨rfl, rfl, rfl, rfl, rfl, rfl, ?_, .refl, ?_, by simp [closeCalls]⟩
  · intro fd'
    by_cases he : fd' = -1
    · rw [if_pos he, he, entry_neg_one]
    · rw [if_neg he]
  · rw [entry_neg_one, if_neg fun h => (nomatch h.2)]

theorem closeClientFd_closed (c : Conn) :
    ClosedFd c c.closeClientFd c.client.clientFd ∧ c.closeClientFd.client.clientFd = -1 ∧
      c.closeClientFd.client.destinationFd = c.client.destinationFd := by
  unfold closeClientFd
  by_cases h : c.client.clientFd ≠ -1
  · rw [if_pos h]
    obtain ⟨hself, hfreed, hclient, hcalls, husers, hacc, hsize⟩ :=
      unregister_kept (c.emit (.close c.client.clientFd)) c.client.clientFd
    refine ⟨⟨hself, hfreed, husers, hacc, hsize, ?_, ?_, ?_, ?_, ?_⟩, rfl, ?_⟩
    · have hstm := congrArg Client.stm hclient
      exact hstm
    · intro fd'
      exact unregister_entry (c.emit (.close c.client.clientFd)) c.client.clientFd fd'
    · exact unregister_operated (c.emit (.close c.client.clientFd)) c.client.clientFd
    · exact unregister_stats (c.emit (.close c.client.clientFd)) c.client.clientFd
    · unfold closeCalls
      rw [if_pos h]
      exact hcalls
    · have hdst := congrArg Client.destinationFd hclient
      exact hdst
  · rw [if_neg h]
    exact ⟨closedFd_of_absent (not_not.mp h), not_not.mp h, rfl⟩

theorem closeDestinationFd_closed (c : Conn) :
    ClosedFd c c.closeDestinationFd c.client.destinationFd ∧
      c.closeDestinationFd.client.destinationFd = -1 ∧
      c.closeDestinationFd.client.clientFd = c.client.clientFd := by
  unfold closeDestinationFd
  by_cases h : c.client.destinationFd ≠ -1
  · rw [if_pos h]
    obtain ⟨hself, hfreed, hclient, hcalls, husers, hacc, hsize⟩ :=
      unregister_kept (c.emit (.close c.client.destinationFd)) c.client.destinationFd
    refine ⟨⟨hself, hfreed, husers, hacc, hsize, ?_, ?_, ?_, ?_, ?_⟩, rfl, ?_⟩
    · have hstm := congrArg Client.stm hclient
      exact hstm
    · intro fd'
      exact unregister_entry (c.emit (.close c.client.destinationFd)) c.client.destinationFd fd'
    · exact unregister_operated (c.emit (.close c.client.destinationFd)) c.client.destinationFd
    · exact unregister_stats (c.emit (.close c.client.destinationFd)) c.client.destinationFd
    · unfold closeCalls
      rw [if_pos h]
      exact hcalls
    · have hcfd := congrArg Client.clientFd hclient
      exact hcfd
  · rw [if_neg h]
    exact ⟨closedFd_of_absent (not_not.mp h), not_not.mp h, rfl⟩

theorem endConnection_unfinished (h : c.connectionFinished = false) : c.endConnection = c := by
  unfold endConnection
  rw [h]
  rfl

theorem endConnection_closed (h : c.connectionFinished = true) : Closed c c.endConnection := by
  have hst : Still c (c.destroyActiveParser.freeDnsRequest.freeDestination) :=
    ((still_destroyActiveParser c).trans (still_setDnsReq _ none)).trans (still_freeDestination _)
  have hcalls : c.destroyActiveParser.freeDnsRequest.freeDestination.calls = c.calls := by
    unfold freeDestination
    split_ifs <;> rfl
  unfold endConnection
  rw [if_pos h]
  generalize c.destroyActiveParser.freeDnsRequest.freeDestination = c₀ at hst hcalls
  obtain ⟨hcl, hcfd, hcdst⟩ := closeClientFd_closed c₀
  obtain ⟨hdc, hdfd, hdcl⟩ := closeDestinationFd_closed c₀.closeClientFd
  rw [hcdst, hst.destinationFd] at hdc
  rw [hst.clientFd] at hcl
  refine ⟨?_, rfl, ?_, ?_, ?_, ?_, ?_, hdfd, ?_, ?_, ?_, ?_⟩
  · exact (hdc.self.trans hcl.self).trans hst.self
  · exact (hdc.users.trans hcl.users).trans hst.users
  · exact (hdc.accepted.trans hcl.accepted).trans hst.accepted
  · exact (hdc.fdSize.trans hcl.fdSize).trans hst.fdSize
  · exact (hdc.stm.trans hcl.stm).trans hst.stm
  · exact hdcl.trans hcfd
  · intro fd'
    refine (hdc.entry fd').trans ?_
    rw [hcl.entry fd', hst.entry fd']
    by_cases h₁ : fd' = c.client.clientFd
    · simp [h₁]
    · by_cases h₂ : fd' = c.client.destinationFd <;> simp [h₁, h₂]
  · exact (hst.operated.trans hcl.operated).trans hdc.operated
  · have hno : ¬ (c.client.destinationFd = c₀.closeClientFd.client.clientFd ∧
        (c₀.closeClientFd.entry c.client.destinationFd).isSome = true) := by
      rintro ⟨he, hsome⟩
      rw [he, hcfd, entry_neg_one] at hsome
      cases hsome
    refine hdc.stats.trans ((if_neg hno).trans (hcl.stats.trans ?_))
    rw [hst.clientFd, hst.entry, hst.stats]
    by_cases hs : (c.entry c.client.clientFd).isSome = true
    · rw [if_pos ⟨rfl, hs⟩, if_pos hs]
    · rw [if_neg fun h => hs h.2, if_neg hs]
  · refine hdc.calls.trans ?_
    rw [hcl.calls, hcalls, List.append_assoc]

/-- `error_handler` always closes: it sets the flags and empties the buffers itself. The
state it is given is `ERROR`, so it sends nothing. -/
theorem errorHandler_closed (a : Answers) (fd : ℤ) (c : Conn) :
    Closed c (c.errorHandler a .error fd) := by
  have hst : Still c (c.destroyActiveParser.freeDnsRequest.freeDestination) :=
    ((still_destroyActiveParser c).trans (still_setDnsReq _ none)).trans (still_freeDestination _)
  have hcalls : c.destroyActiveParser.freeDnsRequest.freeDestination.calls = c.calls := by
    unfold freeDestination
    split_ifs <;> rfl
  unfold errorHandler
  simp only [reduceCtorEq, or_self, false_and, if_false]
  generalize c.destroyActiveParser.freeDnsRequest.freeDestination = c₀ at hst hcalls
  have hfin : ∀ cl : Client, cl.clientClosed = true → cl.destClosed = true →
      cl.clientBuffer.read = cl.clientBuffer.write →
      cl.destinyBuffer.read = cl.destinyBuffer.write →
      Conn.connectionFinished { c₀ with client := cl } = true := by
    intro cl h₁ h₂ h₃ h₄
    simp [connectionFinished, Buffer.bufferCanRead, h₁, h₂, h₃, h₄]
  have hcl := endConnection_closed (hfin { c₀.client with
    clientClosed := true
    destClosed := true
    clientBuffer := { c₀.client.clientBuffer with read := c₀.client.clientBuffer.write }
    destinyBuffer := { c₀.client.destinyBuffer with read := c₀.client.destinyBuffer.write } }
    rfl rfl rfl rfl)
  refine ⟨hcl.self.trans hst.self, hcl.freed, hcl.users.trans hst.users,
    hcl.accepted.trans hst.accepted, hcl.fdSize.trans hst.fdSize, hcl.stm.trans hst.stm,
    hcl.clientFd, hcl.destinationFd, ?_, hst.operated.trans hcl.operated, ?_, ?_⟩
  · intro fd'
    refine (hcl.entry fd').trans ?_
    change (if fd' = c₀.client.clientFd ∨ fd' = c₀.client.destinationFd then none
      else c₀.entry fd') = _
    rw [hst.clientFd, hst.destinationFd, hst.entry fd']
  · refine hcl.stats.trans ?_
    change (if (c₀.entry c₀.client.clientFd).isSome then
      c₀.shared.stats.decrementCurrentConnections else c₀.shared.stats) = _
    rw [hst.clientFd, hst.entry, hst.stats]
  · refine hcl.calls.trans ?_
    change c₀.calls ++ (closeCalls c₀.client.clientFd ++ closeCalls c₀.client.destinationFd) = _
    rw [hst.clientFd, hst.destinationFd, hcalls]

/-! The jump. -/

def staged (c : Conn) (s : ClientState) (p : ClientParser) (k : ParserKind) : Conn :=
  { c with client := { c.client with stm := some s, parser := p, activeParser := k } }

theorem first_staged (c : Conn) : ∃ p k, c.first = c.staged c.state p k ∧
    (c.client.stm ≠ none → p = c.client.parser) := by
  unfold first state
  cases hs : c.client.stm with
  | none => exact ⟨_, _, rfl, fun h => absurd rfl h⟩
  | some s =>
    refine ⟨c.client.parser, c.client.activeParser, ?_, fun _ => rfl⟩
    change c = c.staged s _ _
    unfold staged
    rw [← hs]

theorem enter_stay (h : c.client.stm = some s) : c.enter a fd s = c := if_pos h

theorem enter_ne (h : c.client.stm ≠ some s) : c.enter a fd s = (c.setState s).arrive a fd s :=
  if_neg h

theorem enter_staged (a : Answers) (fd : ℤ) (c : Conn) (hf : s ≠ .forwarding) (hd : s ≠ .done)
    (he : s ≠ .error) :
    ∃ p k, c.enter a fd s = c.staged s p k ∧
      (s ≠ .helloRead → s ≠ .authRead → s ≠ .requestRead → p = c.client.parser) := by
  by_cases h : c.client.stm = some s
  · rw [enter_stay h]
    refine ⟨c.client.parser, c.client.activeParser, ?_, fun _ _ _ => rfl⟩
    unfold staged
    rw [← h]
  · rw [enter_ne h]
    cases s with
    | forwarding => exact absurd rfl hf
    | done => exact absurd rfl hd
    | error => exact absurd rfl he
    | helloRead => exact ⟨_, _, rfl, fun hs => absurd rfl hs⟩
    | authRead => exact ⟨_, _, rfl, fun _ hs => absurd rfl hs⟩
    | requestRead => exact ⟨_, _, rfl, fun _ _ hs => absurd rfl hs⟩
    | helloWrite | authWrite | dnsLookup | destConnect | requestWrite =>
      exact ⟨_, _, rfl, fun _ _ _ => rfl⟩

theorem enter_forwarding (h : c.client.stm ≠ some .forwarding) :
    c.enter a fd .forwarding = (c.setState .forwarding).forwardSetup := enter_ne h

theorem enter_error (h : c.client.stm ≠ some .error) :
    Closed (c.setState .error) (c.enter a fd .error) := by
  rw [enter_ne h]
  exact errorHandler_closed a fd _

theorem enter_done (h : c.client.stm ≠ some .done) (hfin : c.connectionFinished = true) :
    Closed (c.setState .done) (c.enter a fd .done) := by
  rw [enter_ne h]
  exact endConnection_closed hfin

theorem enter_done_unfinished (h : c.client.stm ≠ some .done)
    (hfin : c.connectionFinished = false) : c.enter a fd .done = c.setState .done := by
  rw [enter_ne h]
  exact endConnection_unfinished hfin

theorem enter_stm : (c.enter a fd s).client.stm = some s := by
  have hstaged : ∀ {s}, s ≠ .forwarding → s ≠ .done → s ≠ .error →
      (c.enter a fd s).client.stm = some s := by
    intro s hf hd he
    obtain ⟨p, k, heq, -⟩ := enter_staged a fd c hf hd he
    rw [heq]
    rfl
  by_cases h : c.client.stm = some s
  · rw [enter_stay h]
    exact h
  · cases s with
    | forwarding => rw [enter_forwarding h]; rfl
    | done =>
      cases hfin : c.connectionFinished with
      | true => exact (enter_done h hfin).stm
      | false => rw [enter_done_unfinished h hfin]; rfl
    | error => exact (enter_error h).stm
    | helloRead | helloWrite | authRead | authWrite | requestRead | dnsLookup | destConnect
    | requestWrite =>
      exact hstaged nofun nofun nofun

theorem enter_state : (c.enter a fd s).state = s := by
  unfold state
  rw [enter_stm]
  rfl

/-- The only calls that a jump adds are those that close the descriptors. -/
theorem enter_calls (a : Answers) (fd : ℤ) (c : Conn) (s : ClientState) :
    (c.enter a fd s).calls = c.calls ∨ (c.enter a fd s).calls =
      c.calls ++ (closeCalls c.client.clientFd ++ closeCalls c.client.destinationFd) := by
  have hstaged : ∀ {s}, s ≠ .forwarding → s ≠ .done → s ≠ .error →
      (c.enter a fd s).calls = c.calls := by
    intro s hf hd he
    obtain ⟨p, k, heq, -⟩ := enter_staged a fd c hf hd he
    rw [heq]
    rfl
  by_cases h : c.client.stm = some s
  · rw [enter_stay h]
    exact .inl rfl
  · cases s with
    | forwarding =>
      rw [enter_forwarding h]
      exact .inl rfl
    | done =>
      cases hfin : c.connectionFinished with
      | true => exact .inr (enter_done h hfin).calls
      | false =>
        rw [enter_done_unfinished h hfin]
        exact .inl rfl
    | error => exact .inr (enter_error h).calls
    | helloRead | helloWrite | authRead | authWrite | requestRead | dnsLookup | destConnect
    | requestWrite => exact .inl (hstaged nofun nofun nofun)

theorem closeCalls_mem {call : Call} (h : call ∈ closeCalls fd) : call = .close fd := by
  unfold closeCalls at h
  split_ifs at h
  · exact List.mem_singleton.mp h
  · cases h

/-! The handlers, by the state they belong to. -/

inductive Turn (a : Answers) (fd : ℤ) (c : Conn) : Op → ClientState → Conn → ClientState → Prop
  | helloRead {c₁ : Conn} {s' : ClientState} : HelloRead fd c c₁ s' →
      Turn a fd c .read .helloRead c₁ s'
  | helloWrite {c₁ : Conn} {s' : ClientState} : c.helloWrite a fd = (c₁, s') →
      Turn a fd c .write .helloWrite c₁ s'
  | authRead {c₁ : Conn} {s' : ClientState} : AuthRead fd c c₁ s' →
      Turn a fd c .read .authRead c₁ s'
  | authWrite {c₁ : Conn} {s' : ClientState} : c.authWrite a fd = (c₁, s') →
      Turn a fd c .write .authWrite c₁ s'
  | requestRead {c₁ : Conn} {s' : ClientState} : c.requestRead a fd = (c₁, s') →
      Turn a fd c .read .requestRead c₁ s'
  | dnsLookup {c₁ : Conn} {s' : ClientState} : c.dnsLookup a fd = (c₁, s') →
      Turn a fd c .write .dnsLookup c₁ s'
  | destConnect {c₁ : Conn} {s' : ClientState} : TryConnect a fd c c₁ s' →
      Turn a fd c .write .destConnect c₁ s'
  | requestWrite {c₁ : Conn} {s' : ClientState} : RequestWrite a fd c c₁ s' →
      Turn a fd c .write .requestWrite c₁ s'
  | forwardRead {c₁ : Conn} {s' : ClientState} :
      ForwardRead a (fd == c.client.clientFd) fd c c₁ s' → Turn a fd c .read .forwarding c₁ s'
  | forwardWrite {c₁ : Conn} {s' : ClientState} :
      ForwardWrite (!(fd == c.client.clientFd)) fd c c₁ s' →
      Turn a fd c .write .forwarding c₁ s'

theorem handler_turn {op : Op} {f : Conn → Except Fault (Conn × ClientState)}
    (hroomy : c.shared.selector.Roomy) (hbuf : c.Buffered) (hf : handler op a fd s = some f)
    (h : f c = .ok (c₁, s')) : Turn a fd c op s c₁ s' := by
  cases op with
  | read =>
    cases s with
    | helloRead =>
      obtain rfl := Option.some.inj hf
      exact .helloRead (helloRead_cases h)
    | authRead =>
      obtain rfl := Option.some.inj hf
      exact .authRead (authRead_cases h)
    | requestRead =>
      obtain rfl := Option.some.inj hf
      exact .requestRead (Except.ok.inj h)
    | forwarding =>
      obtain rfl := Option.some.inj hf
      obtain ⟨c₂, s₂, heq, hout⟩ := forwardRead_cases a fd hbuf
      obtain ⟨rfl, rfl⟩ := Prod.mk.inj (Except.ok.inj (heq.symm.trans h))
      exact .forwardRead hout
    | helloWrite | authWrite | dnsLookup | destConnect | requestWrite | done | error => cases hf
  | write =>
    cases s with
    | helloWrite =>
      obtain rfl := Option.some.inj hf
      exact .helloWrite (Except.ok.inj h)
    | authWrite =>
      obtain rfl := Option.some.inj hf
      exact .authWrite (Except.ok.inj h)
    | dnsLookup =>
      obtain rfl := Option.some.inj hf
      exact .dnsLookup (Except.ok.inj h)
    | destConnect =>
      obtain rfl := Option.some.inj hf
      have hout := tryConnect_cases a fd hroomy
      rw [show c.tryConnect a fd = (c₁, s') from Except.ok.inj h] at hout
      exact .destConnect hout
    | requestWrite =>
      obtain rfl := Option.some.inj hf
      have hout := requestWrite_cases a fd c
      rw [show c.requestWrite a fd = (c₁, s') from Except.ok.inj h] at hout
      exact .requestWrite hout
    | forwarding =>
      obtain rfl := Option.some.inj hf
      obtain ⟨c₂, s₂, heq, hout⟩ := forwardWrite_cases a fd hbuf
      obtain ⟨rfl, rfl⟩ := Prod.mk.inj (Except.ok.inj (heq.symm.trans h))
      exact .forwardWrite hout
    | helloRead | authRead | requestRead | done | error => cases hf

def start (c : Conn) : Conn := c.begin.first

theorem start_staged (c : Conn) : ∃ p k, c.start = c.begin.staged c.state p k ∧
    (c.client.stm ≠ none → p = c.client.parser) :=
  c.begin.first_staged

theorem other_inv (h : ConnStep c .other c') :
    ∃ shared, Elsewhere .client c.self c.shared shared ∧ c' = { c.begin with shared := shared } := by
  cases h with
  | other helse => exact ⟨_, helse, rfl⟩

/-- A callback that returns is the handler's turn and the jump. -/
theorem handle_inv {op : Op} (hroomy : c.shared.selector.Roomy) (hbuf : c.Buffered)
    (h : c.begin.handle op a fd = .ok c') :
    ∃ c₁ s', (handler op a fd c.state).isSome = true ∧
      Turn a fd c.start op c.state c₁ s' ∧ c' = c₁.enter a fd s' := by
  cases hf : handler op a fd c.state with
  | none =>
    rw [handle_none (c := c.begin) hf] at h
    cases h
  | some f =>
    rw [handle_some (c := c.begin) hf] at h
    obtain ⟨⟨c₁, s'⟩, hr, hc'⟩ := map_eq_ok.mp h
    obtain ⟨p, k, hst, -⟩ := c.start_staged
    have hstart : Turn a fd c.start op c.state c₁ s' := by
      refine handler_turn ?_ ?_ hf hr
      · rw [hst]; exact hroomy
      · rw [hst]; exact hbuf
    exact ⟨c₁, s', rfl, hstart, hc'.symm⟩

theorem ready_inv {op : Op} (hroomy : c.shared.selector.Roomy) (hbuf : c.Buffered)
    (h : ConnStep c (.ready op fd a) c') :
    c.freed = false ∧ c.Ready op fd ∧ ∃ c₁ s', (handler op a fd c.state).isSome = true ∧
      Turn a fd c.start op c.state c₁ s' ∧ c' = c₁.enter a fd s' := by
  cases h with
  | ready hfreed hready hhandle => exact ⟨hfreed, hready, handle_inv hroomy hbuf hhandle⟩

end Conn

end SocksProxy

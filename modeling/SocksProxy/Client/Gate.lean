import SocksProxy.Client.Exec
import SocksProxy.Client.Wired

/-! The authorization gate: a client gets past the negotiation only by a method that the
server accepted or by a login of its own. -/
namespace SocksProxy

open Interest Transition

def ClientState.admitted : ClientState → Bool
  | .requestRead | .dnsLookup | .destConnect | .requestWrite | .forwarding => true
  | _ => false

/-- The call that reads the last method byte of a hello which lists method 0, while method
0 is accepted. -/
def HelloGrant (e : ConnEdge) : Prop :=
  e.src.state = .helloRead ∧ e.dst.state = .helloWrite ∧
    ∃ hp, e.dst.client.parser = .hello hp ∧ hp.methodsRead = hp.nmethods ∧
      helloAuthNoAuth.toInt8 ∈ hp.methods ∧
      acceptedMethod e.src.shared.accepted helloAuthNoAuth.toInt8 = some true ∧
      hp.methodSelected = helloAuthNoAuth

/-- The call that completes the password of a pair that `user_login` takes. -/
def LoginGrant (e : ConnEdge) : Prop :=
  e.src.state = .authRead ∧ e.dst.state = .authWrite ∧
    ∃ ap level, e.dst.client.parser = .auth ap ∧ ap.passwdRead = ap.plen ∧
      e.src.shared.users.userLogin ap.username ap.password = (.ok, some level) ∧
      .userLogin ap.username ap.password (some level) ∈ e.dst.calls

def Granted (ts : List ConnEdge) : Prop := ∃ e ∈ ts, HelloGrant e ∨ LoginGrant e

def Call.outward : Call → Bool
  | .getaddrinfo _ _ _ | .socket _ | .connect _ _ _ => true
  | _ => false

theorem Granted.mono {ts us : List ConnEdge} (h : Granted ts) : Granted (ts ++ us) := by
  obtain ⟨e, he, hg⟩ := h
  exact ⟨e, List.mem_append_left us he, hg⟩

namespace Conn

structure Gate (ts : List ConnEdge) (c : Conn) : Prop where
  hello : c.state = .helloWrite → ∃ hp, c.client.parser = .hello hp ∧
    (hp.methodSelected = helloAuthNoAuth → ∃ e ∈ ts, HelloGrant e)
  login : c.state = .authWrite → ∃ ap, c.client.parser = .auth ap ∧
    (ap.authStatus = authSuccess → ∃ e ∈ ts, LoginGrant e)
  admitted : c.state.admitted = true → Granted ts

variable {c c' c₁ : Conn} {a : Answers} {fd : ℤ} {op : Op} {s' : ClientState}
  {ts : List ConnEdge}

/-- The parser as the handler finds it, once the machine has started. -/
theorem parser_start (h : c.state ≠ .helloRead) : c.start.client.parser = c.client.parser := by
  obtain ⟨p, k, hst, hp⟩ := c.start_staged
  have hstm : c.client.stm ≠ none := by
    intro hn
    refine h ?_
    unfold state
    rw [hn]
    rfl
  rw [hst]
  exact hp hstm

/-- The parser a handler leaves survives the jump into a state that only writes. -/
theorem parser_enter (a : Answers) (fd : ℤ) (c : Conn) (hf : s' ≠ .forwarding) (hd : s' ≠ .done)
    (he : s' ≠ .error) (h₁ : s' ≠ .helloRead) (h₂ : s' ≠ .authRead) (h₃ : s' ≠ .requestRead) :
    (c.enter a fd s').client.parser = c.client.parser ∧ (c.enter a fd s').calls = c.calls := by
  obtain ⟨p, k, heq, hp⟩ := enter_staged a fd c hf hd he
  rw [heq]
  exact ⟨hp h₁ h₂ h₃, rfl⟩

/-- Only the last method byte leads to `HELLO_WRITE`. -/
theorem Event.hello (h : Event op fd a c c₁ s' c') (hs' : s' = .helloWrite) :
    ∃ hp, c'.client.parser = .hello hp ∧ (hp.methodSelected = helloAuthNoAuth →
      HelloGrant ⟨c, .ready op fd a, c'⟩) := by
  subst hs'
  have hleads := h.leads
  have hsrc : c.state = .helloRead := by
    cases hs : c.state <;> rw [hs] at hleads <;> first | rfl | cases hleads
  have hpar := parser_enter a fd c₁ (show ClientState.helloWrite ≠ .forwarding from nofun)
    nofun nofun nofun nofun nofun
  rw [← h.enter] at hpar
  cases h.turn_of_state hsrc with
  | helloRead hturn =>
    cases hturn with
    | byte b hp hs => rcases hs with hs | hs <;> cases hs
    | selected b hp hsel =>
      refine ⟨hp, hpar.1, ?_⟩
      intro hzero
      have hne : hp.methodSelected ≠ helloAuthNoMethodAccepted := by
        rw [hzero]
        decide
      obtain ⟨hmem, hacc⟩ := hsel.accepted hne
      rw [hzero] at hmem hacc
      rw [(c.start_kept).1] at hacc
      exact ⟨hsrc, h.state, hp, hpar.1, hsel.complete, hmem, hacc, hzero⟩

/-- Only a login leads to `AUTH_WRITE`. -/
theorem Event.login (h : Event op fd a c c₁ s' c') (hs' : s' = .authWrite) :
    ∃ ap, c'.client.parser = .auth ap ∧ (ap.authStatus = authSuccess →
      LoginGrant ⟨c, .ready op fd a, c'⟩) := by
  subst hs'
  have hleads := h.leads
  have hsrc : c.state = .authRead := by
    cases hs : c.state <;> rw [hs] at hleads <;> first | rfl | cases hleads
  have hpar := parser_enter a fd c₁ (show ClientState.authWrite ≠ .forwarding from nofun)
    nofun nofun nofun nofun nofun
  rw [← h.enter] at hpar
  cases h.turn_of_state hsrc with
  | authRead hturn =>
    cases hturn with
    | byte b ap hs => rcases hs with hs | hs <;> cases hs
    | login b ap hlast hstatus =>
      refine ⟨ap, hpar.1, ?_⟩
      intro hok
      have hlogin : (c.start.shared.users.userLogin ap.username ap.password).1 = .ok := by
        by_contra hno
        rw [hok, if_neg hno] at hstatus
        cases hstatus
      obtain ⟨level, hlevel⟩ := Users.userLogin_ok hlogin
      have hcalls := hpar.2
      have husers : c.start.shared.users = c.shared.users := by
        rw [(c.start_kept).1]
      refine ⟨hsrc, h.state, ap, level, hpar.1, hlast, ?_, ?_⟩
      · exact husers ▸ hlevel
      · change _ ∈ c'.calls
        rw [hcalls]
        simp [hlevel]

/-- A client is let in from `HELLO_WRITE` by method 0, or from `AUTH_WRITE` by the status. -/
theorem Event.admitted (h : Event op fd a c c₁ s' c') (hs' : s'.admitted = true)
    (hs : c.state.admitted = false) :
    s' = .requestRead ∧
      (c.state = .helloWrite ∧ c.client.parser.helloParser.methodSelected = helloAuthNoAuth ∨
        c.state = .authWrite ∧ c.client.parser.authParser.authStatus = authSuccess) := by
  have hleads := h.leads
  cases hst : c.state with
  | requestRead | dnsLookup | destConnect | requestWrite | forwarding => rw [hst] at hs; cases hs
  | helloRead | authRead | done | error =>
    rw [hst] at hleads
    cases s' <;> simp [ClientState.leadsTo, ClientState.admitted] at hleads hs'
  | helloWrite =>
    have hreq : s' = .requestRead := by
      rw [hst] at hleads
      cases s' <;> simp [ClientState.leadsTo, ClientState.admitted] at hleads hs' ⊢
    cases h.turn_of_state hst with
    | helloWrite hturn =>
      have hsel := (helloWrite_cases hturn).2.2.2.1 hreq
      rw [parser_start (by rw [hst]; decide)] at hsel
      exact ⟨hreq, .inl ⟨rfl, hsel⟩⟩
  | authWrite =>
    have hreq : s' = .requestRead := by
      rw [hst] at hleads
      cases s' <;> simp [ClientState.leadsTo, ClientState.admitted] at hleads hs' ⊢
    cases h.turn_of_state hst with
    | authWrite hturn =>
      have hok := (authWrite_cases hturn).2.2 hreq
      rw [parser_start (by rw [hst]; decide)] at hok
      exact ⟨hreq, .inr ⟨rfl, hok⟩⟩

theorem Gate.event (hg : Gate ts c) (h : Event op fd a c c₁ s' c') :
    Gate (ts ++ [⟨c, .ready op fd a, c'⟩]) c' := by
  have hlast : (⟨c, .ready op fd a, c'⟩ : ConnEdge) ∈ ts ++ [⟨c, .ready op fd a, c'⟩] := by simp
  refine ⟨?_, ?_, ?_⟩
  · intro hs
    obtain ⟨hp, hpar, hgrant⟩ := h.hello (h.state.symm.trans hs)
    exact ⟨hp, hpar, fun hz => ⟨_, hlast, hgrant hz⟩⟩
  · intro hs
    obtain ⟨ap, hpar, hgrant⟩ := h.login (h.state.symm.trans hs)
    exact ⟨ap, hpar, fun hz => ⟨_, hlast, hgrant hz⟩⟩
  · intro hs
    cases hsrc : c.state.admitted with
    | true => exact (hg.admitted hsrc).mono
    | false =>
      rw [h.state] at hs
      rcases (h.admitted hs hsrc).2 with ⟨hst, hsel⟩ | ⟨hst, hok⟩
      · obtain ⟨hp, hpar, hgrant⟩ := hg.hello hst
        rw [hpar] at hsel
        obtain ⟨e, he, hge⟩ := hgrant hsel
        exact Granted.mono ⟨e, he, .inl hge⟩
      · obtain ⟨ap, hpar, hgrant⟩ := hg.login hst
        rw [hpar] at hok
        obtain ⟨e, he, hge⟩ := hgrant hok
        exact Granted.mono ⟨e, he, .inr hge⟩

theorem Gate.elsewhere {l : ConnLabel} {shared : Shared} (hg : Gate ts c) :
    Gate (ts ++ [⟨c, l, { c.begin with shared := shared }⟩]) { c.begin with shared := shared } := by
  refine ⟨?_, ?_, fun hs => (hg.admitted hs).mono⟩
  · intro hs
    obtain ⟨hp, hpar, hgrant⟩ := hg.hello hs
    refine ⟨hp, hpar, fun hz => ?_⟩
    obtain ⟨e, he, hge⟩ := hgrant hz
    exact ⟨e, List.mem_append_left _ he, hge⟩
  · intro hs
    obtain ⟨ap, hpar, hgrant⟩ := hg.login hs
    refine ⟨ap, hpar, fun hz => ?_⟩
    obtain ⟨e, he, hge⟩ := hgrant hz
    exact ⟨e, List.mem_append_left _ he, hge⟩

theorem gate_path {c₀ : Conn} (h0 : Accepted fd c₀) (h : ConnPath c₀ ts c) : Gate ts c := by
  have h0' := newClient_state h0
  refine h.induct Gate ⟨?_, ?_, ?_⟩ ?_
  · rw [h0']; nofun
  · rw [h0']; nofun
  · rw [h0']; nofun
  intro ts t l u hp hg hst
  cases l with
  | ready op fd a =>
    obtain ⟨c₁, s', hev⟩ := (wired_path h0 hp).event hst
    exact hg.event hev
  | other =>
    cases hst with
    | other helse => exact hg.elsewhere

/-- Before a client is let in its handlers look nothing up and connect nowhere. -/
theorem Event.outward (h : Event op fd a c c₁ s' c') {call : Call} (hc : call ∈ c'.calls)
    (ho : call.outward = true) : c.state.admitted = true := by
  have hc₁ : call ∈ c₁.calls := by
    have hclose : ∀ fd, call ∉ closeCalls fd := by
      intro fd hmem
      rw [closeCalls_mem hmem] at ho
      cases ho
    rw [h.enter] at hc
    rcases enter_calls a fd c₁ s' with heq | heq
    · rw [heq] at hc
      exact hc
    · rw [heq] at hc
      rcases List.mem_append.mp hc with hc | hc
      · exact hc
      · rcases List.mem_append.mp hc with hc | hc
        · exact absurd hc (hclose _)
        · exact absurd hc (hclose _)
  have hnil := (c.start_kept).2.2.2.2.2
  have hsend : ∀ bs, c₁.calls = c.start.calls ++ [.send fd bs] → False := by
    intro bs hcalls
    rw [hcalls, hnil, List.nil_append, List.mem_singleton] at hc₁
    rw [hc₁] at ho
    cases ho
  have hclosed := handler_live h.defined
  cases hst : c.state with
  | requestRead | dnsLookup | destConnect | requestWrite | forwarding => rfl
  | done => exact absurd hst hclosed.1
  | error => exact absurd hst hclosed.2
  | helloRead =>
    cases h.turn_of_state hst with
    | helloRead hturn =>
      cases hturn <;> simp [hnil] at hc₁ <;> rw [hc₁] at ho <;> cases ho
  | helloWrite =>
    cases h.turn_of_state hst with
    | helloWrite hturn =>
      obtain ⟨bs, hcalls⟩ := (helloWrite_cases hturn).2.2.1
      exact (hsend bs hcalls).elim
  | authRead =>
    cases h.turn_of_state hst with
    | authRead hturn =>
      cases hturn <;> simp [hnil] at hc₁
      · rw [hc₁] at ho
        cases ho
      · rcases hc₁ with hc₁ | hc₁ <;> rw [hc₁] at ho <;> cases ho
  | authWrite =>
    cases h.turn_of_state hst with
    | authWrite hturn =>
      obtain ⟨bs, hcalls⟩ := (authWrite_cases hturn).2.1
      exact (hsend bs hcalls).elim

/-- In every run: a connection past the negotiation was let in by an earlier call, and so
was one that looks a name up or connects; out of `AUTH_WRITE` it was let in by a login. -/
theorem request_read_authorized {c₀ : Conn} (h0 : Accepted fd c₀) (h : ConnPath c₀ ts c) :
    (c.state.admitted = true → Granted ts) ∧
    (∀ us e vs, ts = us ++ e :: vs → (∃ call ∈ e.dst.calls, call.outward = true) → Granted us) ∧
    (∀ us e vs, ts = us ++ e :: vs → e.src.state = .authWrite → e.dst.state = .requestRead →
      ∃ e' ∈ us, LoginGrant e') := by
  have hedge : ∀ us e vs, ts = us ++ e :: vs → Gate us e.src ∧
      (e.src.state = e.dst.state ∧ e.dst.calls = [] ∨
        ∃ op fd a c₁ s', Event op fd a e.src c₁ s' e.dst) := by
    intro us e vs hts
    obtain ⟨hus, hst⟩ := Path.split_at (hts ▸ h)
    refine ⟨gate_path h0 hus, ?_⟩
    obtain ⟨src, l, dst⟩ := e
    cases l with
    | ready op fd a =>
      obtain ⟨c₁, s', hev⟩ := (wired_path h0 hus).event hst
      exact .inr ⟨op, fd, a, c₁, s', hev⟩
    | other =>
      obtain ⟨shared, -, hdst⟩ := other_inv hst
      change dst = _ at hdst
      rw [hdst]
      exact .inl ⟨rfl, rfl⟩
  refine ⟨(gate_path h0 h).admitted, ?_, ?_⟩
  · intro us e vs hts ⟨call, hmem, hout⟩
    obtain ⟨hgate, ⟨-, hnil⟩ | ⟨op, fd, a, c₁, s', hev⟩⟩ := hedge us e vs hts
    · rw [hnil] at hmem
      cases hmem
    · exact hgate.admitted (hev.outward hmem hout)
  · intro us e vs hts hsrc hdst
    obtain ⟨hgate, ⟨hsame, -⟩ | ⟨op, fd, a, c₁, s', hev⟩⟩ := hedge us e vs hts
    · rw [hsrc, hdst] at hsame
      cases hsame
    · have hs' : s' = .requestRead := hev.state.symm.trans hdst
      have hadm := hev.admitted (by rw [hs']; rfl) (by rw [hsrc]; rfl)
      rcases hadm.2 with ⟨hst, -⟩ | ⟨-, hok⟩
      · rw [hsrc] at hst
        cases hst
      · obtain ⟨ap, hpar, hgrant⟩ := hgate.login hsrc
        rw [hpar] at hok
        exact hgrant hok

/-- The gate on a run that logs in and gets to `REQUEST_READ`. -/
theorem request_read_authorized_login :
    ∃ ts c, ConnPath (Sample.conn [2, -1]) ts c ∧ c.state = .requestRead ∧ Granted ts := by
  obtain ⟨ts, c, hpath, -, hstate⟩ := path_of_exec (Sample.conn [2, -1])
    (Sample.bytesIn [[5], [1], [2]] ++ [Sample.output 5 2] ++
      Sample.bytesIn [[1], [1], [117], [1], [112]] ++ [Sample.output 5 2])
    (fun c => c.state = .requestRead) (by decide)
  have hreq : c.state = .requestRead := of_decide_eq_true hstate
  refine ⟨ts, c, hpath, hreq, ?_⟩
  exact (request_read_authorized (Sample.conn_accepted [2, -1]) hpath).1 (by rw [hreq]; rfl)

end Conn

end SocksProxy

import SocksProxy.Client.Negotiation
import SocksProxy.Client.Login
import SocksProxy.Client.Parsing

/-! What a run has taken of the login and of the request, while they are read and after. -/
namespace SocksProxy

open Interest Transition

def Call.carries : Call → Bool
  | .recv _ _ | .send _ _ => true
  | _ => false

def ClientState.writes : ClientState → Bool
  | .helloWrite | .authWrite | .dnsLookup | .destConnect | .requestWrite => true
  | _ => false

def ClientState.greets : ClientState → Bool
  | .helloRead | .helloWrite | .authRead | .authWrite => true
  | _ => false

/-- There is no way back to the states before the request. -/
theorem greets_of_leadsTo {s s' : ClientState} (h : s.leadsTo s' = true) (hs : s'.greets = true) :
    s.greets = true := by
  revert h hs
  cases s <;> cases s' <;> decide

theorem leadsTo_requestRead {s : ClientState} (h : s.leadsTo .requestRead = true) :
    s.greets = true ∨ s = .requestRead := by
  revert h
  cases s <;> decide

def stream (fd : ℤ) (ts : List ConnEdge) : List Byte := ts.flatMap (Edge.taken fd)

theorem stream_append (fd : ℤ) (ts us : List ConnEdge) :
    stream fd (ts ++ us) = stream fd ts ++ stream fd us := List.flatMap_append

theorem stream_cons (fd : ℤ) (e : ConnEdge) (ts : List ConnEdge) :
    stream fd (e :: ts) = Edge.taken fd e ++ stream fd ts := List.flatMap_cons

namespace Conn

variable {c c' c₁ c₂ : Conn} {a : Answers} {fd fd' : ℤ} {op : Op} {s s' : ClientState}
  {ts : List ConnEdge} {l : ConnLabel}

/-! The connection attempts move no bytes. -/

/-- The calls made from `c` to `c'` carry no bytes. -/
def Silent (c c' : Conn) : Prop :=
  ∃ cs, c'.calls = c.calls ++ cs ∧ ∀ call ∈ cs, call.carries = false

theorem silent_of_calls (h : c'.calls = c.calls) : Silent c c' :=
  ⟨[], by rw [h, List.append_nil], nofun⟩

theorem Silent.trans (h : Silent c c₁) (h' : Silent c₁ c₂) : Silent c c₂ := by
  obtain ⟨cs, hcs, hq⟩ := h
  obtain ⟨cs', hcs', hq'⟩ := h'
  refine ⟨cs ++ cs', ?_, ?_⟩
  · rw [hcs', hcs, List.append_assoc]
  · intro call hmem
    rcases List.mem_append.mp hmem with hmem | hmem
    · exact hq call hmem
    · exact hq' call hmem

theorem silent_emit (c : Conn) {call : Call} (h : call.carries = false) : Silent c (c.emit call) := by
  refine ⟨[call], rfl, ?_⟩
  intro call' hmem
  rw [List.mem_singleton.mp hmem]
  exact h

theorem Silent.received (h : Silent c c') (fd : ℤ) :
    c'.calls.flatMap (Call.received fd) = c.calls.flatMap (Call.received fd) := by
  obtain ⟨cs, hcs, hq⟩ := h
  have hnil : cs.flatMap (Call.received fd) = [] := by
    apply List.flatMap_eq_nil_iff.mpr
    intro call hmem
    have hcall := hq call hmem
    cases call <;> first | rfl | cases hcall
  rw [hcs, List.flatMap_append, hnil, List.append_nil]

theorem connectLoop_silent (a : Answers) (i : ℕ) (addrs : List AddrInfo) (c : Conn) :
    Silent c (c.connectLoop a i addrs).1 := by
  induction addrs generalizing c i with
  | nil => exact silent_of_calls rfl
  | cons addr rest ih =>
    cases hsock : (a.attempt i).socket with
    | none =>
      rw [connectLoop, hsock]
      exact ih (i + 1) c
    | some n =>
      rw [connectLoop_cons a i addr rest c hsock]
      have htry : ∀ answer, Silent c (c.attempted n addr answer) := fun answer =>
        (silent_emit c rfl).trans (silent_emit _ rfl)
      have hclose : ∀ c₁ : Conn, Silent c₁ (c₁.emit (.close n)) := fun c₁ => silent_emit c₁ rfl
      simp only
      split_ifs
      · exact ((htry _).trans (hclose _)).trans (ih (i + 1) _)
      · exact htry _
      · exact htry _
      · exact ((htry _).trans (hclose _)).trans (ih (i + 1) _)

theorem connectNext_silent (a : Answers) (fd : ℤ) (addrs : List AddrInfo) (c : Conn) :
    Silent c (c.connectNext a fd addrs).1 := by
  have hloop := connectLoop_silent a 0 addrs c
  unfold connectNext
  generalize c.connectLoop a 0 addrs = r at hloop
  obtain ⟨c₁, s⟩ := r
  cases s <;> exact hloop

theorem tryConnect_silent (a : Answers) (fd : ℤ) (c : Conn) : Silent c (c.tryConnect a fd).1 := by
  have hask : ∀ e, Silent c (c.emit (.getsockopt c.client.destinationFd e)) :=
    fun e => silent_emit c rfl
  unfold tryConnect
  simp only
  split_ifs with hd hg
  · exact hask a.soError
  · cases a.soError with
    | none => exact hask none
    | some e =>
      simp only
      split_ifs
      · exact hask (some e)
      · have hclose : Silent c
            (c.emit (.getsockopt c.client.destinationFd (some e))).abandonDestination :=
          (hask (some e)).trans (silent_emit _ rfl)
        exact hclose.trans (connectNext_silent a fd _ _)
  · exact connectNext_silent a fd _ c

theorem dnsLookup_calls (a : Answers) (fd : ℤ) (c : Conn) : (c.dnsLookup a fd).1.calls = c.calls := by
  unfold dnsLookup
  split_ifs <;> rfl

theorem step_taken_nil (h : ConnStep c (.ready op fd' a) c') (hw : c.state.writes = true) :
    Edge.taken fd ⟨c, .ready op fd' a, c'⟩ = [] := by
  obtain ⟨f, c₁, s', hf, hr, rfl⟩ := ready_handle h
  have hnil := (c.start_kept).2.2.2.2.2
  have hsend : ∀ bs, c₁.calls = c.start.calls ++ [.send fd' bs] →
      c₁.calls.flatMap (Call.received fd) = [] := by
    intro bs hcalls
    rw [hcalls, hnil]
    rfl
  unfold Edge.taken
  rw [(enter_flatMap a fd' c₁ s' fd).1]
  cases hs : c.state with
  | helloRead | authRead | requestRead | forwarding | done | error =>
    rw [hs] at hw
    cases hw
  | helloWrite =>
    rw [hs] at hf
    cases op with
    | read => cases hf
    | write =>
      cases hf
      obtain ⟨bs, hcalls⟩ := (helloWrite_cases (Except.ok.inj hr)).2.2.1
      exact hsend bs hcalls
  | authWrite =>
    rw [hs] at hf
    cases op with
    | read => cases hf
    | write =>
      cases hf
      obtain ⟨bs, hcalls⟩ := (authWrite_cases (Except.ok.inj hr)).2.1
      exact hsend bs hcalls
  | dnsLookup =>
    rw [hs] at hf
    cases op with
    | read => cases hf
    | write =>
      cases hf
      have hcalls := dnsLookup_calls a fd' c.start
      rw [Except.ok.inj hr, hnil] at hcalls
      change c₁.calls = [] at hcalls
      rw [hcalls]
      rfl
  | destConnect =>
    rw [hs] at hf
    cases op with
    | read => cases hf
    | write =>
      cases hf
      have hsilent := (tryConnect_silent a fd' c.start).received fd
      rw [Except.ok.inj hr, hnil] at hsilent
      exact hsilent
  | requestWrite =>
    rw [hs] at hf
    cases op with
    | read => cases hf
    | write =>
      cases hf
      have hcases := requestWrite_cases a fd' c.start
      rw [Except.ok.inj hr] at hcases
      have hcalls : c₁.calls = _ := hcases.calls
      rw [hcalls, hnil]
      rfl

/-- The parser that a state that reads starts with, and keeps while it is read. -/
theorem start_enter_stay (a : Answers) (fd : ℤ) (h : c.client.stm = some s) :
    (c.enter a fd s).start.client.parser = c.client.parser := by
  obtain ⟨p, k, hst, hp⟩ := c.start_staged
  rw [enter_stay h, hst]
  exact hp (by rw [h]; exact nofun)

theorem start_enter_authRead (a : Answers) (fd : ℤ) (h : c.client.stm ≠ some .authRead) :
    AuthProgress [] (c.enter a fd .authRead).start.client.parser.authParser := by
  have hpar : (c.enter a fd .authRead).client.parser =
      .auth { AuthParser.zero with p := parserInit authParserDef } := by
    rw [enter_ne h]
    rfl
  rw [parser_start (by rw [enter_state]; exact nofun), hpar]
  exact ⟨rfl, .ver rfl rfl⟩

theorem start_enter_requestRead (a : Answers) (fd : ℤ) (h : c.client.stm ≠ some .requestRead) :
    RequestProgress [] (c.enter a fd .requestRead).start.client.parser.requestParser := by
  have hpar : (c.enter a fd .requestRead).client.parser =
      .request { RequestParser.zero with p := parserInit requestParserDef } := by
    rw [enter_ne h]
    rfl
  rw [parser_start (by rw [enter_state]; exact nofun), hpar]
  exact .ver rfl ⟨rfl, rfl, rfl, rfl⟩

theorem took_snoc_ready (hs : c.state = s) (c₁ : Conn) (s' : ClientState) :
    took fd s (ts ++ [⟨c, .ready op fd' a, c₁.enter a fd' s'⟩]) =
      took fd s ts ++ c₁.calls.flatMap (Call.received fd) := by
  rw [took_snoc]
  unfold Edge.takenIn
  rw [if_pos hs]
  exact congrArg _ (enter_flatMap a fd' c₁ s' fd).1

/-! The login. -/

theorem authRead_nil (hb : a.recv.bytes 1 = []) (h : c.authRead a fd = .ok (c₁, s)) :
    c₁ = c ∧ (s = .authRead ∨ s = .error) := by
  unfold authRead at h
  simp only [hb] at h
  split_ifs at h
  · obtain ⟨rfl, rfl⟩ := Prod.mk.inj (Except.ok.inj h)
    exact ⟨rfl, .inl rfl⟩
  · obtain ⟨rfl, rfl⟩ := Prod.mk.inj (Except.ok.inj h)
    exact ⟨rfl, .inr rfl⟩

structure LoginTaken (fd : ℤ) (ts : List ConnEdge) (c : Conn) : Prop where
  before : c.state = .helloRead ∨ c.state = .helloWrite → took fd .authRead ts = []
  reading : c.state = .authRead →
    AuthProgress (took fd .authRead ts) c.start.client.parser.authParser
  whole : c.state = .authWrite → took fd .authRead ts ∈ AuthMessage
  past : c.state.admitted = true → took fd .authRead ts = [] ∨ took fd .authRead ts ∈ AuthMessage

theorem LoginTaken.outside (h : LoginTaken fd ts c) (hs : c.state ≠ .authRead)
    (hleads : c.state.leadsTo s' = true) (hstm : c₁.client.stm = some c.state) :
    LoginTaken fd (ts ++ [⟨c, .ready op fd' a, c₁.enter a fd' s'⟩]) (c₁.enter a fd' s') := by
  have htook : took fd .authRead (ts ++ [⟨c, .ready op fd' a, c₁.enter a fd' s'⟩]) =
      took fd .authRead ts := took_snoc_nil (.inl hs)
  constructor <;> rw [htook, enter_state]
  · rintro (rfl | rfl) <;> cases hc : c.state <;> rw [hc] at hleads <;>
      first | exact h.before (.inl hc) | cases hleads
  · rintro rfl
    have hne : c₁.client.stm ≠ some .authRead := by
      rw [hstm]
      exact fun heq => hs (Option.some.inj heq)
    have hsrc : c.state = .helloWrite := by
      cases hc : c.state <;> rw [hc] at hleads hs <;> first | rfl | exact absurd rfl hs | cases hleads
    rw [h.before (.inr hsrc)]
    exact start_enter_authRead a fd' hne
  · rintro rfl
    cases hc : c.state <;> rw [hc] at hleads hs <;> first | exact absurd rfl hs | cases hleads
  · intro hadm
    cases hc : c.state with
    | helloWrite => exact .inl (h.before (.inr hc))
    | authWrite => exact .inr (h.whole hc)
    | requestRead | dnsLookup | destConnect | requestWrite | forwarding =>
      exact h.past (by rw [hc]; rfl)
    | authRead => exact absurd hc hs
    | helloRead | done | error =>
      rw [hc] at hleads
      cases s' <;> first | exact absurd hadm Bool.false_ne_true | exact absurd hleads Bool.false_ne_true

theorem LoginTaken.reads (h : LoginTaken fd ts c) (hs : c.state = .authRead)
    (hr : c.start.authRead a fd = .ok (c₁, s')) :
    LoginTaken fd (ts ++ [⟨c, .ready op fd a, c₁.enter a fd s'⟩]) (c₁.enter a fd s') := by
  obtain ⟨-, -, -, -, hstm, hcalls⟩ := c.start_kept
  have htook : took fd .authRead (ts ++ [⟨c, .ready op fd a, c₁.enter a fd s'⟩]) =
      took fd .authRead ts ++ c₁.calls.flatMap (Call.received fd) := took_snoc_ready hs c₁ s'
  have hstm₁ : c₁.client.stm = some .authRead :=
    ((authRead_cases hr).talks.stm.trans hstm).trans (congrArg some hs)
  have hprog := h.reading hs
  cases hb : a.recv.bytes 1 with
  | nil =>
    obtain ⟨rfl, hs'⟩ := authRead_nil hb hr
    rw [hcalls] at htook
    change took fd .authRead _ = took fd .authRead ts ++ [] at htook
    rw [List.append_nil] at htook
    constructor <;> rw [enter_state, htook]
    · rintro (rfl | rfl) <;> rcases hs' with hs' | hs' <;> cases hs'
    · rintro rfl
      rw [start_enter_stay a fd hstm₁]
      exact hprog
    · rintro rfl
      rcases hs' with hs' | hs' <;> cases hs'
    · rcases hs' with rfl | rfl <;> exact nofun
  | cons b bs =>
    obtain ⟨hrecv, hbyte⟩ := authRead_byte hprog hb hr
    rw [hcalls] at hrecv
    rw [hrecv] at htook
    change took fd .authRead _ = took fd .authRead ts ++ [b] at htook
    constructor <;> rw [enter_state, htook]
    · rintro (rfl | rfl) <;> cases hbyte
    · rintro rfl
      rw [start_enter_stay a fd hstm₁]
      cases hbyte with
      | more hpar hprog' =>
        rw [hpar]
        exact hprog'
    · rintro rfl
      cases hbyte with
      | login hmsg => exact hmsg
    · intro hadm
      cases hbyte <;> cases hadm

theorem LoginTaken.elsewhere {shared : Shared} (h : LoginTaken fd ts c) :
    LoginTaken fd (ts ++ [⟨c, .other, { c.begin with shared := shared }⟩])
      { c.begin with shared := shared } := by
  have htook : took fd .authRead (ts ++ [⟨c, .other, { c.begin with shared := shared }⟩]) =
      took fd .authRead ts := took_snoc_nil (.inr rfl)
  constructor <;> rw [htook]
  · exact h.before
  · rw [start_elsewhere c shared]
    exact h.reading
  · exact h.whole
  · exact h.past

theorem loginTaken_path {c₀ : Conn} (h0 : Accepted fd c₀) (h : ConnPath c₀ ts c) :
    LoginTaken fd ts c := by
  refine h.induct (LoginTaken fd) ?_ ?_
  · have hstate := newClient_state h0
    constructor <;> rw [hstate] <;> first | exact fun _ => rfl | exact nofun
  · intro ts t l u hp ih hst
    cases l with
    | other =>
      obtain ⟨shared, -, rfl⟩ := other_inv hst
      exact ih.elsewhere
    | ready op fd' a =>
      obtain ⟨c₁, s', hev⟩ := (wired_path h0 hp).event hst
      by_cases hs : t.state = .authRead
      · obtain ⟨rfl, f, c₂, s, hf, hr, rfl⟩ := early_handle h0 hp hst (by rw [hs]; rfl)
        rw [hs] at hf
        cases op with
        | write => cases hf
        | read =>
          cases hf
          exact ih.reads hs hr
      · have hstm : c₁.client.stm = some t.state := hev.runs.stm.trans (t.start_kept).2.2.2.2.1
        rw [hev.enter]
        exact ih.outside hs hev.leads hstm

/-! The request. -/

structure RequestTaken (fd : ℤ) (ts : List ConnEdge) (c : Conn) : Prop where
  before : c.state.greets = true → took fd .requestRead ts = []
  reading : c.state = .requestRead →
    RequestProgress (took fd .requestRead ts) c.start.client.parser.requestParser

theorem RequestTaken.outside (h : RequestTaken fd ts c) (hs : c.state ≠ .requestRead)
    (hleads : c.state.leadsTo s' = true) (hstm : c₁.client.stm = some c.state) :
    RequestTaken fd (ts ++ [⟨c, .ready op fd' a, c₁.enter a fd' s'⟩]) (c₁.enter a fd' s') := by
  have htook : took fd .requestRead (ts ++ [⟨c, .ready op fd' a, c₁.enter a fd' s'⟩]) =
      took fd .requestRead ts := took_snoc_nil (.inl hs)
  constructor <;> rw [htook, enter_state]
  · intro hgreets
    exact h.before (greets_of_leadsTo hleads hgreets)
  · rintro rfl
    have hne : c₁.client.stm ≠ some .requestRead := by
      rw [hstm]
      exact fun heq => hs (Option.some.inj heq)
    rw [h.before ((leadsTo_requestRead hleads).resolve_right hs)]
    exact start_enter_requestRead a fd' hne

/-- What a call of `request_read` has received is what it has read, and what it has dropped. -/
theorem requestRead_reads (h : RequestTaken fd ts c) (hs : c.state = .requestRead)
    (hr : c.start.requestRead a fd = (c₁, s')) :
    RequestRead a fd (took fd .requestRead ts) c.start c₁ s' := by
  have hcases := requestRead_cases a fd (h.reading hs)
  rw [hr] at hcases
  exact hcases

theorem RequestExit.ne {R : List Byte} {b : Byte} (h : RequestExit a R b c c' s) :
    s ≠ .requestRead := by
  cases h <;> exact nofun

theorem RequestExit.received {R : List Byte} {b : Byte} (h : RequestExit a R b c c' s) (fd : ℤ) :
    c'.calls.flatMap (Call.received fd) = c.calls.flatMap (Call.received fd) := by
  have hask : ∀ name port ok, (c.calls ++ [Call.getaddrinfo name port ok]).flatMap
      (Call.received fd) = c.calls.flatMap (Call.received fd) := by
    intro name port ok
    rw [List.flatMap_append]
    exact List.append_nil _
  cases h with
  | version _ _ hcalls _ | command _ _ hcalls _ | addressType _ _ _ hcalls | literal _ hcalls =>
    rw [hcalls]
  | refused name port _ _ hcalls _ | lookup name port _ hcalls =>
    rw [hcalls]
    exact hask _ _ _

theorem RequestTaken.reads (h : RequestTaken fd ts c) (hs : c.state = .requestRead)
    (hr : c.start.requestRead a fd = (c₁, s')) :
    RequestTaken fd (ts ++ [⟨c, .ready op fd a, c₁.enter a fd s'⟩]) (c₁.enter a fd s') := by
  obtain ⟨-, -, -, -, hstm, hcalls⟩ := c.start_kept
  have hread := requestRead_reads h hs hr
  have htalks := requestRead_talks a fd c.start
  rw [hr] at htalks
  have hstm₁ : c₁.client.stm = some .requestRead :=
    (htalks.stm.trans hstm).trans (congrArg some hs)
  have hleads : ClientState.requestRead.leadsTo s' = true := htalks.leads
  have htook : took fd .requestRead (ts ++ [⟨c, .ready op fd a, c₁.enter a fd s'⟩]) =
      took fd .requestRead ts ++ c₁.calls.flatMap (Call.received fd) := took_snoc_ready hs c₁ s'
  constructor <;> rw [enter_state, htook]
  · intro hgreets
    exact absurd (greets_of_leadsTo hleads hgreets) Bool.false_ne_true
  · rintro rfl
    rw [start_enter_stay a fd hstm₁]
    cases hread with
    | idle heq =>
      rw [heq, hcalls]
      change RequestProgress (took fd .requestRead ts ++ []) _
      rw [List.append_nil]
      exact h.reading hs
    | chunk hchunk =>
      cases hchunk with
      | more hprog hcalls₁ =>
        have hrecv : c₁.calls.flatMap (Call.received fd) = a.recv.bytes 1024 := by
          rw [hcalls₁, emit_calls, hcalls]
          simp [Call.received]
        rw [hrecv]
        exact hprog
      | exit pre b post hbs hbefore hexit => exact absurd rfl hexit.ne

theorem RequestTaken.elsewhere {shared : Shared} (h : RequestTaken fd ts c) :
    RequestTaken fd (ts ++ [⟨c, .other, { c.begin with shared := shared }⟩])
      { c.begin with shared := shared } := by
  have htook : took fd .requestRead (ts ++ [⟨c, .other, { c.begin with shared := shared }⟩]) =
      took fd .requestRead ts := took_snoc_nil (.inr rfl)
  constructor <;> rw [htook]
  · exact h.before
  · rw [start_elsewhere c shared]
    exact h.reading

theorem requestTaken_path {c₀ : Conn} (h0 : Accepted fd c₀) (h : ConnPath c₀ ts c) :
    RequestTaken fd ts c := by
  refine h.induct (RequestTaken fd) ?_ ?_
  · have hstate := newClient_state h0
    constructor <;> rw [hstate] <;> first | exact fun _ => rfl | exact nofun
  · intro ts t l u hp ih hst
    cases l with
    | other =>
      obtain ⟨shared, -, rfl⟩ := other_inv hst
      exact ih.elsewhere
    | ready op fd' a =>
      obtain ⟨c₁, s', hev⟩ := (wired_path h0 hp).event hst
      by_cases hs : t.state = .requestRead
      · obtain ⟨rfl, f, c₂, s, hf, hr, rfl⟩ := early_handle h0 hp hst (by rw [hs]; rfl)
        rw [hs] at hf
        cases op with
        | write => cases hf
        | read =>
          cases hf
          exact ih.reads hs (Except.ok.inj hr)
      · have hstm : c₁.client.stm = some t.state := hev.runs.stm.trans (t.start_kept).2.2.2.2.1
        rw [hev.enter]
        exact ih.outside hs hev.leads hstm

/-! All of it. -/

theorem took_snoc_self {e : ConnEdge} (h : e.src.state = s) :
    took fd s (ts ++ [e]) = took fd s ts ++ Edge.taken fd e := by
  rw [took_snoc]
  unfold Edge.takenIn
  rw [if_pos h]

/-- Up to the request a run takes hello, login and request in this order. -/
theorem stream_eq {c₀ : Conn} (h0 : Accepted fd c₀) (h : ConnPath c₀ ts c)
    (hs : c.state.greets = true ∨ c.state = .requestRead) :
    stream fd ts = took fd .helloRead ts ++ took fd .authRead ts ++ took fd .requestRead ts := by
  have hinv : c.state.greets = true ∨ c.state = .requestRead →
      stream fd ts = took fd .helloRead ts ++ took fd .authRead ts ++ took fd .requestRead ts := by
    refine h.induct (fun ts c => c.state.greets = true ∨ c.state = .requestRead →
      stream fd ts = took fd .helloRead ts ++ took fd .authRead ts ++ took fd .requestRead ts) ?_ ?_
    · exact fun _ => rfl
    · intro ts t l u hp ih hst hu
      have hlogin := loginTaken_path h0 hp
      have hrequest := requestTaken_path h0 hp
      cases l with
      | other =>
        obtain ⟨shared, -, rfl⟩ := other_inv hst
        have hnone : ∀ s, took fd s (ts ++ [⟨t, .other, { t.begin with shared := shared }⟩]) =
            took fd s ts := fun s => took_snoc_nil (.inr rfl)
        rw [hnone, hnone, hnone, stream_append, ih hu]
        exact List.append_nil _
      | ready op fd' a =>
        obtain ⟨c₁, s', hev⟩ := (wired_path h0 hp).event hst
        have ht : t.state.greets = true ∨ t.state = .requestRead := by
          have hleads := hev.leads
          rw [← hev.state] at hleads
          rcases hu with hu | hu
          · exact .inl (greets_of_leadsTo hleads hu)
          · rw [hu] at hleads
            exact leadsTo_requestRead hleads
        have helse : ∀ s, t.state ≠ s →
            took fd s (ts ++ [⟨t, .ready op fd' a, u⟩]) = took fd s ts :=
          fun s hne => took_snoc_nil (.inl hne)
        have hself : ∀ s, t.state = s → took fd s (ts ++ [⟨t, .ready op fd' a, u⟩]) =
            took fd s ts ++ Edge.taken fd ⟨t, .ready op fd' a, u⟩ := fun s heq => took_snoc_self heq
        rw [stream_append, ih ht, stream_cons]
        cases hs : t.state with
        | helloRead =>
          rw [hself _ hs, helse .authRead (by rw [hs]; exact nofun),
            helse .requestRead (by rw [hs]; exact nofun), hlogin.before (.inl hs),
            hrequest.before (by rw [hs]; rfl)]
          simp [stream]
        | authRead =>
          rw [hself _ hs, helse .helloRead (by rw [hs]; exact nofun),
            helse .requestRead (by rw [hs]; exact nofun), hrequest.before (by rw [hs]; rfl)]
          simp [stream]
        | requestRead =>
          rw [hself _ hs, helse .helloRead (by rw [hs]; exact nofun),
            helse .authRead (by rw [hs]; exact nofun)]
          simp [stream]
        | helloWrite | authWrite =>
          rw [step_taken_nil hst (by rw [hs]; rfl), helse .helloRead (by rw [hs]; exact nofun),
            helse .authRead (by rw [hs]; exact nofun), helse .requestRead (by rw [hs]; exact nofun)]
          simp [stream]
        | dnsLookup | destConnect | requestWrite | forwarding | done | error =>
          rw [hs] at ht
          rcases ht with ht | ht <;> cases ht
  exact hinv hs

end Conn

end SocksProxy

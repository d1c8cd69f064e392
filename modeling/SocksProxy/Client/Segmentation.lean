import SocksProxy.Client.Handshake

/-! What becomes of the client's bytes after the request, however they are cut into the results
of `recv`. `request_read` takes a chunk of up to 1024 bytes and returns with the last byte of
the request: what else is in the chunk is never looked at again. -/
namespace SocksProxy

open Interest Transition PrefixFree

def ReachesForwarding (ts : List ConnEdge) : Prop := ∃ e ∈ ts, e.dst.state = .forwarding

/-- The bytes taken for the destination are those that follow the handshake, in both runs. -/
def SamePayload (fd fd' : ℤ) (ts ts' : List ConnEdge) : Prop :=
  ∃ hs ∈ HandshakeMessage, stream fd ts = hs ++ received ts true ∧
    stream fd' ts' = hs ++ received ts' true ∧ received ts' true = received ts true

/-- One of the results of `recv` ends with the last byte of the request. -/
def CutAfterRequest (fd : ℤ) (ts : List ConnEdge) : Prop :=
  ∃ us vs, ts = us ++ vs ∧ stream fd us ∈ HandshakeMessage

/-- The edge `e` after `us` takes the end of the handshake `hs`, and with it the bytes `dropped`. -/
structure EndsHandshake (fd : ℤ) (us : List ConnEdge) (e : ConnEdge) (hs dropped : List Byte) :
    Prop where
  handshake : hs ∈ HandshakeMessage
  before : (stream fd us).length < hs.length
  taken : stream fd (us ++ [e]) = hs ++ dropped

theorem EndsHandshake.dropped_iff {fd : ℤ} {us vs : List ConnEdge} {e : ConnEdge}
    {hs dropped : List Byte} (h : EndsHandshake fd us e hs dropped) :
    dropped = [] ↔ CutAfterRequest fd (us ++ e :: vs) := by
  constructor
  · rintro rfl
    refine ⟨us ++ [e], vs, List.append_cons _ _ _, ?_⟩
    rw [h.taken, List.append_nil]
    exact h.handshake
  · rintro ⟨us', vs', hts, hcut⟩
    have hwhole : stream fd us' ++ stream fd vs' = hs ++ (dropped ++ stream fd vs) := by
      rw [← stream_append, ← hts, List.append_cons, stream_append, h.taken, List.append_assoc]
    obtain ⟨heq, -⟩ := handshakeMessage_prefixFree.unique hcut h.handshake hwhole
    have hlong : (stream fd us).length < (stream fd us').length := by
      rw [heq]
      exact h.before
    rcases List.append_eq_append_iff.mp hts with ⟨ws, hus', hvs'⟩ | ⟨ws, hus, -⟩
    · cases ws with
      | nil =>
        rw [hus', List.append_nil] at hlong
        exact absurd hlong (Nat.lt_irrefl _)
      | cons e' ws =>
        obtain ⟨rfl, -⟩ := List.cons.inj hvs'
        rw [hus', List.append_cons, stream_append, h.taken, List.append_assoc] at heq
        have hnil := List.self_eq_append_right.mp heq.symm
        exact (List.append_eq_nil_iff.mp hnil).1
    · rw [hus, stream_append, List.length_append] at hlong
      omega

namespace Conn

variable {c c' c₁ : Conn} {a : Answers} {fd fd' : ℤ} {op : Op} {s s' : ClientState}
  {ts us vs : List ConnEdge} {l : ConnLabel} {e : ConnEdge} {hs dropped : List Byte}

inductive Stage (fd : ℤ) (ts : List ConnEdge) (c : Conn) : Prop
  | early : c.state.greets = true ∨ c.state = .requestRead → ¬ ReachesForwarding ts →
      received ts true = [] → Stage fd ts c
  | refused : c.state = .requestWrite ∧ c.replyStatus ≠ socksReplySuccess ∨ c.state = .done ∨
      c.state = .error → ¬ ReachesForwarding ts → Stage fd ts c
  | past (us : List ConnEdge) (e : ConnEdge) (vs : List ConnEdge) (hs dropped : List Byte) :
      ts = us ++ e :: vs → EndsHandshake fd us e hs dropped → stream fd vs = received ts true →
      c.state.greets = false ∧ c.state ≠ .requestRead → Stage fd ts c

theorem not_reaches_snoc (h : ¬ ReachesForwarding ts) (he : e.dst.state ≠ .forwarding) :
    ¬ ReachesForwarding (ts ++ [e]) := by
  rintro ⟨e', hmem, hstate⟩
  rcases List.mem_append.mp hmem with hmem | hmem
  · exact h ⟨e', hmem, hstate⟩
  · rw [List.mem_singleton.mp hmem] at hstate
    exact he hstate

theorem received_snoc_nil (h : e.src.state ≠ .forwarding ∨ e.dst.calls = []) (d : Bool) :
    received (ts ++ [e]) d = received ts d := by
  rw [received_snoc, (edge_idle h d).1, List.append_nil]

/-- In `REQUEST_READ` the hello is complete, and so is the login if there is one. -/
theorem greeting_taken {c₀ : Conn} (h0 : Accepted fd c₀) (h : ConnPath c₀ ts c)
    (hs : c.state = .requestRead) : took fd .helloRead ts ∈ HelloMessage ∧
      (took fd .authRead ts = [] ∨ took fd .authRead ts ∈ AuthMessage) := by
  refine ⟨?_, (loginTaken_path h0 h).past (by rw [hs]; rfl)⟩
  cases negotiation_path h0 h with
  | reading hst => rw [hs] at hst; cases hst
  | writing ms m hp hst => rw [hs] at hst; cases hst
  | failed hst => rw [hs] at hst; cases hst
  | replied ms m selected _ _ hoff =>
    obtain ⟨n, htook, hn, hlen, -⟩ := hoff
    exact ⟨n, ms, htook, hn, hlen⟩

/-- With the request the handshake is complete. -/
theorem handshake_of_request {hello login request : List Byte} (hhello : hello ∈ HelloMessage)
    (hlogin : login = [] ∨ login ∈ AuthMessage) (hrequest : request ∈ RequestMessage) :
    hello ++ login ++ request ∈ HandshakeMessage := by
  refine ⟨hello, hhello, login ++ request, ?_, List.append_assoc _ _ _⟩
  rcases hlogin with rfl | hlogin
  · exact .inl hrequest
  · exact .inr ⟨login, hlogin, request, hrequest, rfl⟩

/-- Only a complete request leads on. -/
theorem RequestExit.message {R : List Byte} {b : Byte} (h : RequestExit a R b c c' s)
    (hs : s = .dnsLookup ∨ s = .destConnect) : R ++ [b] ∈ RequestMessage := by
  cases h with
  | version | command | addressType | refused => rcases hs with hs | hs <;> cases hs
  | lookup _ _ hmsg | literal hmsg => exact hmsg

/-- Every other exit ends the connection, at once or with the reply. -/
theorem RequestExit.refuses {R : List Byte} {b : Byte} (h : RequestExit a R b c c' s)
    (hs : s ≠ .dnsLookup ∧ s ≠ .destConnect) :
    s = .requestWrite ∧ c'.replyStatus ≠ socksReplySuccess ∨ s = .error := by
  cases h with
  | version _ _ _ hst | command _ _ _ hst | refused _ _ _ _ _ hst =>
    left
    refine ⟨rfl, ?_⟩
    rw [hst]
    decide
  | addressType => exact .inr rfl
  | lookup => exact absurd rfl hs.1
  | literal => exact absurd rfl hs.2

/-- An event of the relay takes from the client what it receives for the destination. -/
theorem taken_forwarding (hs : c.state = .forwarding) (hfd : c.client.clientFd = fd) :
    Edge.taken fd ⟨c, l, c'⟩ = Edge.received true ⟨c, l, c'⟩ := by
  unfold Edge.taken Edge.received
  rw [if_pos hs]
  change _ = c'.calls.flatMap (Call.received c.client.clientFd)
  rw [hfd]

theorem Stage.reads {c₀ : Conn} (h0 : Accepted fd c₀) (h : ConnPath c₀ ts c)
    (hs : c.state = .requestRead) (hnot : ¬ ReachesForwarding ts) (hrecv : received ts true = [])
    (hr : c.start.requestRead a fd = (c₁, s')) :
    Stage fd (ts ++ [⟨c, .ready op fd a, c₁.enter a fd s'⟩]) (c₁.enter a fd s') := by
  obtain ⟨hhello, hlogin⟩ := greeting_taken h0 h hs
  have hstream := stream_eq h0 h (.inr hs)
  have hread := requestRead_reads (requestTaken_path h0 h) hs hr
  have hnil : c.start.calls = [] := (c.start_kept).2.2.2.2.2
  set e : ConnEdge := ⟨c, .ready op fd a, c₁.enter a fd s'⟩ with he
  have hdst : e.dst.state = s' := enter_state
  have hrecv' : received (ts ++ [e]) true = [] := by
    rw [received_snoc_nil (.inl (show c.state ≠ .forwarding by rw [hs]; decide)), hrecv]
  have hstays : s' = .requestRead → Stage fd (ts ++ [e]) (c₁.enter a fd s') := by
    intro hs'
    refine .early (.inr (hdst.trans hs')) (not_reaches_snoc hnot ?_) hrecv'
    rw [hdst, hs']
    decide
  have hfails : s' = .error → Stage fd (ts ++ [e]) (c₁.enter a fd s') := by
    intro hs'
    refine .refused (.inr (.inr (hdst.trans hs'))) (not_reaches_snoc hnot ?_)
    rw [hdst, hs']
    decide
  cases hread with
  | idle _ => exact hstays rfl
  | broken _ _ => exact hfails rfl
  | chunk hchunk =>
    cases hchunk with
    | more _ _ => exact hstays rfl
    | exit pre b post hbs hbefore hexit =>
      by_cases hs' : s' = .dnsLookup ∨ s' = .destConnect
      · have hmsg := handshake_of_request hhello hlogin (hexit.message hs')
        refine .past ts e [] _ post rfl ⟨hmsg, ?_, ?_⟩ hrecv'.symm ?_
        · rw [hstream]
          simp only [List.length_append, List.length_singleton]
          omega
        · have htaken : Edge.taken fd e = pre ++ b :: post := by
            unfold Edge.taken
            rw [he, (enter_flatMap a fd c₁ s' fd).1, hexit.received fd, emit_calls, hnil, hbs]
            simp [Call.received]
          rw [stream_append, hstream]
          simp [stream, htaken]
        · rw [show (c₁.enter a fd s').state = s' from hdst]
          rcases hs' with rfl | rfl <;> exact ⟨rfl, by decide⟩
      · rcases hexit.refuses (not_or.mp hs') with ⟨rfl, hstatus⟩ | hs'
        · refine .refused (.inl ⟨hdst, ?_⟩) (not_reaches_snoc hnot ?_)
          · have hpar : (c₁.enter a fd .requestWrite).client.parser = c₁.client.parser :=
              (parser_enter a fd c₁ (by decide) (by decide) (by decide) (by decide) (by decide)
                (by decide)).1
            unfold replyStatus
            rw [hpar]
            exact hstatus
          · rw [hdst]
            decide
        · exact hfails hs'

theorem leadsTo_of_greets (h : s.leadsTo s' = true) (hs : s.greets = true) :
    s'.greets = true ∨ s' = .requestRead ∨ s' = .error := by
  revert h hs
  cases s <;> cases s' <;> decide

/-- A refusal that is replied to ends in `DONE`. -/
theorem RequestWrite.refuses (h : RequestWrite a fd c c' s) (hst : c.replyStatus ≠ socksReplySuccess) :
    s = .done ∨ s = .error := by
  cases h with
  | broken => exact .inr rfl
  | refused _ _ => exact .inl rfl
  | granted hok _ _ => exact absurd hok hst

theorem taken_past {c₀ : Conn} (h0 : Accepted fd c₀) (h : ConnPath c₀ ts c) (hst : ConnStep c l c')
    (hs : c.state.greets = false ∧ c.state ≠ .requestRead) :
    Edge.taken fd ⟨c, l, c'⟩ = Edge.received true ⟨c, l, c'⟩ := by
  cases l with
  | other =>
    obtain ⟨shared, -, rfl⟩ := other_inv hst
    rw [(edge_idle (.inr rfl) true).1]
    rfl
  | ready op fd' a =>
    obtain ⟨c₁, s', hev⟩ := (wired_path h0 h).event hst
    by_cases hf : c.state = .forwarding
    · exact taken_forwarding hf (clientFd_path h0 h hev.live)
    · have hlive := handler_live hev.defined
      have hwrites : c.state.writes = true := by
        cases hc : c.state with
        | dnsLookup | destConnect | requestWrite => rfl
        | helloRead | helloWrite | authRead | authWrite =>
          rw [hc] at hs
          exact absurd hs.1.symm Bool.false_ne_true
        | requestRead => exact absurd hc hs.2
        | forwarding => exact absurd hc hf
        | done => exact absurd hc hlive.1
        | error => exact absurd hc hlive.2
      rw [step_taken_nil hst hwrites, (edge_idle (.inl hf) true).1]

theorem Stage.step {c₀ : Conn} (h0 : Accepted fd c₀) (hp : ConnPath c₀ ts c) (h : Stage fd ts c)
    (hst : ConnStep c l c') : Stage fd (ts ++ [⟨c, l, c'⟩]) c' := by
  cases h with
  | past us e vs hs dropped hts hends hvs hlate =>
    have htaken := taken_past h0 hp hst hlate
    refine .past us e (vs ++ [⟨c, l, c'⟩]) hs dropped ?_ hends ?_ ?_
    · rw [hts, List.append_assoc, List.cons_append]
    · rw [stream_append, hvs, received_snoc, ← htaken]
      simp [stream]
    · cases l with
      | other =>
        obtain ⟨shared, -, rfl⟩ := other_inv hst
        exact hlate
      | ready op fd' a =>
        obtain ⟨c₁, s', hev⟩ := (wired_path h0 hp).event hst
        have hleads := hev.leads
        rw [← hev.state] at hleads
        constructor
        · by_contra hgreets
          rw [Bool.not_eq_false] at hgreets
          rw [greets_of_leadsTo hleads hgreets] at hlate
          cases hlate.1
        · intro hreq
          rw [hreq] at hleads
          rcases leadsTo_requestRead hleads with hgreets | hread
          · rw [hgreets] at hlate
            cases hlate.1
          · exact hlate.2 hread
  | early hs hnot hrecv =>
    have hnf : c.state ≠ .forwarding := by
      intro hf
      rw [hf] at hs
      rcases hs with hs | hs <;> cases hs
    cases l with
    | other =>
      obtain ⟨shared, -, rfl⟩ := other_inv hst
      exact .early hs (not_reaches_snoc hnot hnf) ((received_snoc_nil (.inr rfl) true).trans hrecv)
    | ready op fd' a =>
      obtain ⟨c₁, s', hev⟩ := (wired_path h0 hp).event hst
      rcases hs with hs | hs
      · have hnext := leadsTo_of_greets hev.leads hs
        rw [← hev.state] at hnext
        have hnf' : c'.state ≠ .forwarding := by
          intro hf
          rw [hf] at hnext
          rcases hnext with hnext | hnext | hnext <;> cases hnext
        have hrecv' : received (ts ++ [⟨c, .ready op fd' a, c'⟩]) true = [] :=
          (received_snoc_nil (.inl hnf) true).trans hrecv
        rcases hnext with hnext | hnext | hnext
        · exact .early (.inl hnext) (not_reaches_snoc hnot hnf') hrecv'
        · exact .early (.inr hnext) (not_reaches_snoc hnot hnf') hrecv'
        · exact .refused (.inr (.inr hnext)) (not_reaches_snoc hnot hnf')
      · obtain ⟨rfl, f, c₂, s, hf, hr, rfl⟩ := early_handle h0 hp hst (by rw [hs]; rfl)
        rw [hs] at hf
        cases op with
        | write => cases hf
        | read =>
          cases hf
          exact Stage.reads h0 hp hs hnot hrecv (Except.ok.inj hr)
  | refused hs hnot =>
    have hnf : c.state ≠ .forwarding := by
      rcases hs with ⟨hs, -⟩ | hs | hs <;> rw [hs] <;> decide
    cases l with
    | other =>
      obtain ⟨shared, -, rfl⟩ := other_inv hst
      exact .refused hs (not_reaches_snoc hnot hnf)
    | ready op fd' a =>
      obtain ⟨c₁, s', hev⟩ := (wired_path h0 hp).event hst
      obtain ⟨hdone, herror⟩ := handler_live hev.defined
      rcases hs with ⟨hs, hstatus⟩ | hs | hs
      · cases hev.turn_of_state hs with
        | requestWrite hturn =>
          have hstatus' : c.start.replyStatus ≠ socksReplySuccess := by
            unfold replyStatus
            rw [parser_start (by rw [hs]; decide)]
            exact hstatus
          have hend := hturn.refuses hstatus'
          rw [← hev.state] at hend
          refine .refused (.inr hend) (not_reaches_snoc hnot ?_)
          rcases hend with hend | hend <;> rw [hend] <;> decide
      · exact absurd hs hdone
      · exact absurd hs herror

theorem stage_path {c₀ : Conn} (h0 : Accepted fd c₀) (h : ConnPath c₀ ts c) : Stage fd ts c := by
  refine h.induct (Stage fd) ?_ fun ts t l u hp ih hst => ih.step h0 hp hst
  refine .early (.inl ?_) ?_ rfl
  · rw [newClient_state h0]
    rfl
  · rintro ⟨e, hmem, -⟩
    cases hmem

/-- A run that got to the relay has taken the end of a handshake, with what was in the same chunk,
and then what it received for the destination. -/
theorem reaches_past {c₀ : Conn} (h0 : Accepted fd c₀) (h : ConnPath c₀ ts c)
    (hf : ReachesForwarding ts) : ∃ us e vs hs dropped, ts = us ++ e :: vs ∧
      EndsHandshake fd us e hs dropped ∧ stream fd vs = received ts true := by
  cases stage_path h0 h with
  | early _ hnot _ => exact absurd hf hnot
  | refused _ hnot => exact absurd hf hnot
  | past us e vs hs dropped hts hends hvs _ => exact ⟨us, e, vs, hs, dropped, hts, hends, hvs⟩

/-- In one run: the bytes for the destination are those after the handshake exactly when no
`recv` went past its end. -/
theorem payload_iff {c₀ : Conn} (h0 : Accepted fd c₀) (h : ConnPath c₀ ts c)
    (hf : ReachesForwarding ts) :
    (∃ hs ∈ HandshakeMessage, stream fd ts = hs ++ received ts true) ↔ CutAfterRequest fd ts := by
  obtain ⟨us, e, vs, hs, dropped, hts, hends, hvs⟩ := reaches_past h0 h hf
  have hstream : stream fd ts = hs ++ (dropped ++ received ts true) := by
    rw [← hvs, hts, List.append_cons, stream_append, hends.taken, List.append_assoc]
  have hdropped : CutAfterRequest fd ts ↔ dropped = [] := by
    rw [hts]
    exact hends.dropped_iff.symm
  rw [hdropped]
  constructor
  · rintro ⟨hs', hmem, heq⟩
    rw [hstream] at heq
    obtain ⟨-, htail⟩ := handshakeMessage_prefixFree.unique hends.handshake hmem heq
    exact List.self_eq_append_left.mp htail.symm
  · intro hnil
    refine ⟨hs, hends.handshake, ?_⟩
    rw [hstream, hnil]
    rfl

/-- Two runs that take the same bytes and get to the relay: both pass on the bytes after the
handshake exactly when both were cut there. -/
theorem payload_segmentation_iff {c₀ c₀' : Conn} {ts' : List ConnEdge} (h0 : Accepted fd c₀)
    (h : ConnPath c₀ ts c) (hf : ReachesForwarding ts) (h0' : Accepted fd' c₀')
    (h' : ConnPath c₀' ts' c') (hf' : ReachesForwarding ts')
    (hstream : stream fd ts = stream fd' ts') :
    SamePayload fd fd' ts ts' ↔ CutAfterRequest fd ts ∧ CutAfterRequest fd' ts' := by
  rw [← payload_iff h0 h hf, ← payload_iff h0' h' hf']
  constructor
  · rintro ⟨hs, hmem, htaken, htaken', -⟩
    exact ⟨⟨hs, hmem, htaken⟩, ⟨hs, hmem, htaken'⟩⟩
  · rintro ⟨⟨hs, hmem, htaken⟩, ⟨hs', hmem', htaken'⟩⟩
    have heq : hs ++ received ts true = hs' ++ received ts' true := by
      rw [← htaken, ← htaken', hstream]
    obtain ⟨rfl, hsame⟩ := handshakeMessage_prefixFree.unique hmem hmem' heq
    exact ⟨hs, hmem, htaken, htaken', hsame.symm⟩

/-- What an edge takes from `fd`, and what of it is for the destination. -/
def flowOf (fd : ℤ) (e : ConnEdge) : List Byte × List Byte :=
  (Edge.taken fd e, Edge.received true e)

theorem stream_eq_flow (fd : ℤ) (ts : List ConnEdge) :
    stream fd ts = (ts.map (flowOf fd)).flatMap Prod.fst := by
  rw [List.flatMap_map]
  rfl

theorem received_eq_flow (fd : ℤ) (ts : List ConnEdge) :
    received ts true = (ts.map (flowOf fd)).flatMap Prod.snd := by
  rw [List.flatMap_map]
  rfl

theorem cutAfterRequest_of_flow (k : ℕ)
    (h : ((ts.map (flowOf fd)).take k).flatMap Prod.fst ∈ HandshakeMessage) :
    CutAfterRequest fd ts := by
  refine ⟨ts.take k, ts.drop k, (List.take_append_drop k ts).symm, ?_⟩
  rw [stream_eq_flow, List.map_take]
  exact h

theorem reachesForwarding_of_end {c₀ : Conn} (h : ConnPath c₀ ts c) (h0 : c₀.state ≠ .forwarding)
    (hc : c.state = .forwarding) : ReachesForwarding ts := by
  have hne : ts ≠ [] := by
    rintro rfl
    rw [h.eq_of_nil] at hc
    exact h0 hc
  obtain ⟨e, hmem, hdst⟩ := h.exists_last hne
  exact ⟨e, hmem, by rw [hdst]; exact hc⟩

end Conn

namespace Sample

def handshake : List Byte := [5, 1, 0] ++ [5, 1, 0, 1, 10, 0, 0, 1, 0, 80]

theorem handshake_message : handshake ∈ HandshakeMessage :=
  ⟨[5, 1, 0], ⟨1, [0], rfl, by decide, rfl⟩, [5, 1, 0, 1, 10, 0, 0, 1, 0, 80],
    .inl ⟨0, 1, [10, 0, 0, 1], 0, 80, rfl, .ipv4 rfl⟩, rfl⟩

/-- The events that lead to the relay, with the request in the chunks `request`, and then the
chunks `payload`. -/
def tunnelOf (request payload : List (List Byte)) : List ConnLabel :=
  bytesIn [[5], [1], [0]] ++ [output 5 2] ++ bytesIn request ++ [attempt 5 .ok, output 5 10] ++
    bytesIn payload

end Sample

namespace Conn

/-- A request in one chunk or in two, and a payload in one chunk or in two. -/
theorem payload_segmentation_iff_chunks : ∃ ts ts' c c', ConnPath (Sample.conn [0, -1]) ts c ∧
    ConnPath (Sample.conn [0, -1]) ts' c' ∧ ts.length ≠ ts'.length ∧
    stream 5 ts = Sample.handshake ++ [1, 2, 3] ∧ SamePayload 5 5 ts ts' := by
  obtain ⟨ts, c, hpath, hls, hend⟩ := Path.of_exec_observe exec_step (flowOf 5)
    (Sample.conn [0, -1]) (Sample.tunnelOf [[5, 1, 0, 1, 10, 0, 0, 1, 0, 80]] [[1, 2, 3]])
    (fun c flows => c.state = .forwarding ∧ (flows.take 5).flatMap Prod.fst = Sample.handshake ∧
      flows.flatMap Prod.fst = Sample.handshake ++ [1, 2, 3]) (by decide)
  obtain ⟨ts', c', hpath', hls', hend'⟩ := Path.of_exec_observe exec_step (flowOf 5)
    (Sample.conn [0, -1]) (Sample.tunnelOf [[5, 1, 0, 1], [10, 0, 0, 1, 0, 80]] [[1], [2, 3]])
    (fun c flows => c.state = .forwarding ∧ (flows.take 6).flatMap Prod.fst = Sample.handshake ∧
      flows.flatMap Prod.fst = Sample.handshake ++ [1, 2, 3]) (by decide)
  obtain ⟨hstate, hcut, htaken⟩ := of_decide_eq_true hend
  obtain ⟨hstate', hcut', htaken'⟩ := of_decide_eq_true hend'
  rw [← stream_eq_flow] at htaken htaken'
  have hstart : (Sample.conn [0, -1]).state ≠ .forwarding := nofun
  have h0 := Sample.conn_accepted [0, -1]
  refine ⟨ts, ts', c, c', hpath, hpath', ?_, htaken, ?_⟩
  · have hlen := congrArg List.length hls
    have hlen' := congrArg List.length hls'
    rw [List.length_map] at hlen hlen'
    rw [hlen, hlen']
    decide
  · apply (payload_segmentation_iff h0 hpath (reachesForwarding_of_end hpath hstart hstate) h0 hpath'
      (reachesForwarding_of_end hpath' hstart hstate') (htaken.trans htaken'.symm)).mpr
    constructor
    · apply cutAfterRequest_of_flow 5
      rw [hcut]
      exact Sample.handshake_message
    · apply cutAfterRequest_of_flow 6
      rw [hcut']
      exact Sample.handshake_message

/-- A payload that comes in one chunk with the request is lost. -/
theorem pipelined_payload_dropped : ∃ ts ts' c c', Accepted 5 (Sample.conn [0, -1]) ∧
    ConnPath (Sample.conn [0, -1]) ts c ∧ ConnPath (Sample.conn [0, -1]) ts' c' ∧
    ReachesForwarding ts ∧ ReachesForwarding ts' ∧
    stream 5 ts = Sample.handshake ++ [1, 2, 3] ∧ stream 5 ts' = Sample.handshake ++ [1, 2, 3] ∧
    received ts true = [1, 2, 3] ∧ received ts' true = [] ∧ ¬ SamePayload 5 5 ts ts' := by
  obtain ⟨ts, c, hpath, -, hend⟩ := Path.of_exec_observe exec_step (flowOf 5)
    (Sample.conn [0, -1]) (Sample.tunnelOf [[5, 1, 0, 1, 10, 0, 0, 1, 0, 80]] [[1, 2, 3]])
    (fun c flows => c.state = .forwarding ∧
      flows.flatMap Prod.fst = Sample.handshake ++ [1, 2, 3] ∧
      flows.flatMap Prod.snd = [1, 2, 3]) (by decide)
  obtain ⟨ts', c', hpath', -, hend'⟩ := Path.of_exec_observe exec_step (flowOf 5)
    (Sample.conn [0, -1]) (Sample.tunnelOf [[5, 1, 0, 1, 10, 0, 0, 1, 0, 80, 1, 2, 3]] [])
    (fun c flows => c.state = .forwarding ∧
      flows.flatMap Prod.fst = Sample.handshake ++ [1, 2, 3] ∧ flows.flatMap Prod.snd = [])
    (by decide)
  obtain ⟨hstate, htaken, hrecv⟩ := of_decide_eq_true hend
  obtain ⟨hstate', htaken', hrecv'⟩ := of_decide_eq_true hend'
  rw [← stream_eq_flow] at htaken htaken'
  rw [← received_eq_flow] at hrecv hrecv'
  have hstart : (Sample.conn [0, -1]).state ≠ .forwarding := nofun
  refine ⟨ts, ts', c, c', Sample.conn_accepted [0, -1], hpath, hpath',
    reachesForwarding_of_end hpath hstart hstate, reachesForwarding_of_end hpath' hstart hstate',
    htaken, htaken', hrecv, hrecv', ?_⟩
  rintro ⟨hs, -, -, -, hsame⟩
  rw [hrecv, hrecv'] at hsame
  cases hsame

end Conn

end SocksProxy
